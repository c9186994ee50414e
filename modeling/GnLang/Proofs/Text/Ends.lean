/-
How texts begin and end.

* `trim_eq_self` — a text without white space at its ends;
* `endsWith_iff` — the ending of a text, as one of its characters.
-/
import Mathlib.Data.List.Infix
import GnLang.Text.Space

namespace GnLang.Text

theorem trim_eq_self {s : String} {c d : Char} {w : List Char} (h : s.toList = c :: (w ++ [d]))
    (hc : isSpace c = false) (hd : isSpace d = false) : trim s = s := by
  rw [trim, trimBy, h, List.dropWhile_cons_of_neg (by simp [hc]), List.reverse_cons,
    List.reverse_append, List.reverse_singleton, List.singleton_append, List.cons_append,
    List.dropWhile_cons_of_neg (by simp [hd])]
  simp [← h]

theorem endsWith_iff {s suffix : String} :
    s.endsWith suffix = true ↔ suffix.toList <:+ s.toList := by
  rw [String.endsWith_eq_endsWith_toSlice, String.Slice.endsWith_string_iff,
    String.copy_toSlice]

end GnLang.Text
