/-
Line ends in texts that are put together.

A carriage return and the newline after it are one line end.  So the line ends of two texts
can be made newlines one text after the other as long as the first does not end in a
carriage return: `Unifies.append`.  Texts without carriage returns stay what they are, and no
others do: `unified_eq_self_iff`.
-/
import Mathlib.Data.List.Forall2
import GnLang.Text.LineEnd

namespace GnLang.Text

theorem unifyLineEnds_eq_self {cs : List Char} (h : '\r' ∉ cs) : unifyLineEnds cs = cs := by
  fun_induction unifyLineEnds cs with
  | case1 => rfl
  | case2 cs ih => exact absurd List.mem_cons_self h
  | case3 c cs _ ih =>
    obtain ⟨hc, hcs⟩ := not_or.mp (mt List.mem_cons.mpr h)
    rw [ih hcs, if_neg (Ne.symm hc)]

theorem unifyLineEnds_eq_self_iff {cs : List Char} : unifyLineEnds cs = cs ↔ '\r' ∉ cs := by
  constructor
  · intro h
    rw [← h]
    exact not_mem_unifyLineEnds cs
  · exact unifyLineEnds_eq_self

theorem mem_unifyLineEnds {cs : List Char} {c : Char} (h : c ∈ unifyLineEnds cs) :
    c = '\n' ∨ c ∈ cs := by
  fun_induction unifyLineEnds cs with
  | case1 => exact .inr h
  | case2 cs ih =>
    rcases List.mem_cons.mp h with hc | h
    · exact .inl hc
    · exact (ih h).imp_right fun h => List.mem_cons_of_mem _ (List.mem_cons_of_mem _ h)
  | case3 d cs _ ih =>
    rcases List.mem_cons.mp h with rfl | h
    · split
      · exact .inl rfl
      · exact .inr List.mem_cons_self
    · exact (ih h).imp_right (List.mem_cons_of_mem _)

/-- A text that does not end within a line end has all its line ends to itself. -/
theorem unifyLineEnds_append {cs ds : List Char}
    (h : cs.getLast? ≠ some '\r' ∨ ds.head? ≠ some '\n') :
    unifyLineEnds (cs ++ ds) = unifyLineEnds cs ++ unifyLineEnds ds := by
  fun_induction unifyLineEnds cs with
  | case1 => rfl
  | case2 cs ih =>
    have hrest : cs.getLast? ≠ some '\r' ∨ ds.head? ≠ some '\n' :=
      h.imp_left fun h hcs => h (by simp [List.getLast?_cons, hcs])
    rw [List.cons_append, List.cons_append, unifyLineEnds, ih hrest, List.cons_append]
  | case3 c cs hpair ih =>
    have hrest : cs.getLast? ≠ some '\r' ∨ ds.head? ≠ some '\n' :=
      h.imp_left fun h hcs => h (by simp [List.getLast?_cons, hcs])
    -- no newline follows the character if it is a carriage return
    have hnext : ∀ rest, c = '\r' → cs ++ ds = '\n' :: rest → False := by
      rintro rest rfl heq
      cases cs with
      | nil =>
        rw [List.nil_append] at heq
        simp [heq] at h
      | cons d cs => exact hpair cs rfl (by rw [(List.cons.inj heq).1])
    rw [List.cons_append, unifyLineEnds.eq_3 _ _ hnext, ih hrest, List.cons_append]

/-! ### Texts -/

/-- The text with its line ends made newlines. -/
def unified (s : String) : String := .ofList (unifyLineEnds s.toList)

theorem unified_eq_self_iff {s : String} : unified s = s ↔ '\r' ∉ s.toList := by
  rw [unified, ← String.toList_inj, String.toList_ofList, unifyLineEnds_eq_self_iff]

/-- The second text is the first with its line ends made newlines, and the first does not end
within a line end. -/
structure Unifies (s t : String) : Prop where
  last : s.toList.getLast? ≠ some '\r'
  eq_unified : t = unified s

theorem Unifies.refl {s : String} (h : '\r' ∉ s.toList) : Unifies s s :=
  ⟨fun hlast => h (List.mem_of_getLast? hlast), (unified_eq_self_iff.mpr h).symm⟩

theorem Unifies.append {s s' t t' : String} (h : Unifies s t) (h' : Unifies s' t') :
    Unifies (s ++ s') (t ++ t') := by
  refine ⟨?_, ?_⟩
  · have hlast := h'.last
    rw [String.toList_append, List.getLast?_append]
    cases hs' : s'.toList.getLast? with
    | none => exact h.last
    | some c => rwa [hs'] at hlast
  · rw [h.eq_unified, h'.eq_unified, unified, unified, unified, ← String.ofList_append,
      String.toList_append, unifyLineEnds_append (.inl h.last)]

theorem Unifies.join {ss ts : List String} (h : List.Forall₂ Unifies ss ts) :
    Unifies (String.join ss) (String.join ts) := by
  induction h with
  | nil => exact .refl (by simp)
  | cons h _ ih =>
    rw [String.join_cons, String.join_cons]
    exact h.append ih

theorem Unifies.intercalate {ss ts : List String} (sep : String) (hsep : '\r' ∉ sep.toList)
    (h : List.Forall₂ Unifies ss ts) : Unifies (sep.intercalate ss) (sep.intercalate ts) := by
  induction h with
  | nil => exact .refl (by simp)
  | @cons s t ss ts h hrest ih =>
    cases hrest with
    | nil => rwa [String.intercalate_singleton, String.intercalate_singleton]
    | cons h' hrest =>
      rw [String.intercalate_cons_cons, String.intercalate_cons_cons]
      exact (h.append (.refl hsep)).append ih

/-- Between quotes a string may end as it likes. -/
theorem unifies_quotes (v : String) : Unifies ("\"" ++ v ++ "\"") ("\"" ++ unified v ++ "\"") := by
  have hclosed : unifyLineEnds (v.toList ++ ['"']) = unifyLineEnds v.toList ++ ['"'] :=
    unifyLineEnds_append (.inr (by simp))
  refine ⟨by rw [String.toList_append, List.getLast?_append]; simp, ?_⟩
  rw [← String.toList_inj, unified, unified]
  simp only [String.toList_append, String.toList_ofList, List.append_assoc]
  exact congrArg ('"' :: ·) hclosed.symm

end GnLang.Text
