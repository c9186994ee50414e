/-
Line ends.

A file may end its lines with a newline, a carriage return, or both; a text read from it
has newlines only.
-/

namespace GnLang.Text

/-- Makes every line end a newline. -/
def unifyLineEnds : List Char → List Char
  | [] => []
  | '\r' :: '\n' :: cs => '\n' :: unifyLineEnds cs
  | c :: cs => (if c = '\r' then '\n' else c) :: unifyLineEnds cs

theorem not_mem_unifyLineEnds (cs : List Char) : '\r' ∉ unifyLineEnds cs := by
  fun_induction unifyLineEnds cs with
  | case1 => simp
  | case2 cs ih => simp [ih]
  | case3 c cs _ ih => simp only [List.mem_cons, not_or, ih]; split <;> simp_all [eq_comm]

end GnLang.Text
