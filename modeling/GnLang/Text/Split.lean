/-
Cutting a text at a separator.
-/

namespace GnLang.Text

/-- The pieces between the separators, empty ones included. -/
def splitAt (sep : Char) : List Char → List (List Char)
  | [] => [[]]
  | c :: cs =>
    if c = sep then [] :: splitAt sep cs
    else match splitAt sep cs with
      | [] => [[c]]
      | piece :: pieces => (c :: piece) :: pieces

/-- The pieces between the separators that are not empty. -/
def wordsAt (sep : Char) (cs : List Char) : List (List Char) :=
  (splitAt sep cs).filter (!·.isEmpty)

end GnLang.Text
