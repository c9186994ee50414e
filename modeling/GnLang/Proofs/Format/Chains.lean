/-
Long chains of operators.

A chain of operators is grouped from the left, and opens no nesting however long it is: it is
read by every limit (`exists_read_chain`).  But it takes two calls for each operator to write
it (`height_chain`), and one for each to make its record (`height_toJson_chain`), so there is
no room for a long one.
-/
import GnLang.Proofs.Format.Rendered
import GnLang.Proofs.Text.Ends

namespace GnLang.Format

open Grammar Text

/-- `x + … + x` with so many operators. -/
def chain : Nat → Node
  | 0 => .identifier "x" .unknown
  | n + 1 => .binary (chain n) .add (.identifier "x" .unknown) .unknown

/-- The chain as the value of a variable. -/
def assignedChain (n : Nat) : Node :=
  .assignment (.identifier "y" .unknown) .set (chain n) .unknown

/-- The chain as it is written. -/
def chainText : Nat → String
  | 0 => "x"
  | n + 1 => chainText n ++ " + x"

/-- The chain as the value of a variable, as it is written. -/
def assignedText (n : Nat) : String := "y = " ++ chainText n

theorem wellFormed_chain (n : Nat) : WellFormed .expression (chain n) := by
  have hx : WellFormed .expression (.identifier "x" .unknown) :=
    .identifier ⟨'x', [], rfl, by decide, List.forall_mem_nil _⟩
  induction n with
  | zero => exact hx
  | succ n ih => exact .binary ih hx

theorem wellFormed_assignedChain (n : Nat) : WellFormed .statement (assignedChain n) :=
  .assignment (.identifier ⟨'y', [], rfl, by decide, List.forall_mem_nil _⟩) rfl
    (wellFormed_chain n)

theorem layout_chain (n : Nat) (depth : Int) : layout depth (chain n) = .ok (chainText n) := by
  induction n with
  | zero => rfl
  | succ n ih =>
    have htext : chainText n ++ " " ++ "+" ++ " " ++ "x" = chainText n ++ " + x" := by
      rw [String.append_assoc, String.append_assoc, String.append_assoc]
      rfl
    rw [chain, layout, ih, chainText, ← htext]
    rfl

theorem layout_assignedChain (n : Nat) (depth : Int) :
    layout depth (assignedChain n) = .ok (assignedText n) := by
  rw [assignedChain, layout, layout_chain]
  rfl

theorem need_chain (n : Nat) : need (chain n) = 0 := by
  induction n with
  | zero => rfl
  | succ n ih => rw [chain, need, ih]; rfl

theorem height_chain (n : Nat) : Emitter.height (chain n) = 2 * n + 2 := by
  induction n with
  | zero => rfl
  | succ n ih =>
    show 2 + max (Emitter.height (chain n)) 2 = _
    rw [ih]
    omega

theorem height_toJson_chain (n : Nat) : (chain n).toJson.height = n + 1 := by
  induction n with
  | zero => rfl
  | succ n ih =>
    rw [chain, Node.toJson, Node.height_record]
    simp [ih, Node.toJson, Node.height_record]
    omega

theorem height_toJson_assignedChain (n : Nat) : (assignedChain n).toJson.height = n + 2 := by
  rw [assignedChain, Node.toJson, Node.height_record]
  simp [height_toJson_chain, Node.toJson, Node.height_record]
  omega

theorem need_assignedChain (n : Nat) : need (assignedChain n) = 0 := by
  rw [assignedChain, need, need_chain]
  rfl

theorem heightIn_assignedChain (n : Nat) (p : Pos) :
    heightIn "gn" (.list [assignedChain n] p) = 2 * n + 4 := by
  show max (2 + max 2 (Emitter.height (chain n))) 0 = _
  rw [height_chain]
  omega

/-- A chain is read whatever its length, by every limit, and takes as many calls to write as if
it had been put together by hand. -/
theorem exists_read_chain {limit : Int} (hlimit : IsLimit limit) (n : Nat) :
    ∃ x, readProgram (assignedText n) limit = .ok x ∧ heightIn "gn" x = 2 * n + 4 := by
  have hneed : need (assignedChain n) ≤ limit := by
    rw [need_assignedChain]
    exact Int.le_trans (by decide) hlimit.1
  obtain ⟨x, hread, hx⟩ := exists_readProgram_of_statement hlimit (wellFormed_assignedChain n)
    (layout_assignedChain n 0) hneed .unknown
  refine ⟨x, hread, ?_⟩
  rw [← heightIn_placeless, hx, heightIn_placeless, heightIn_assignedChain]

/-- Without room for its calls a chain that was read is not written. -/
theorem exists_chain_without_room {limit : Int} (hlimit : IsLimit limit) {room : Room} {n : Nat}
    (hroom : ¬ room.Holds (2 * n + 4)) :
    ∃ x, readProgram (assignedText n) limit = .ok x ∧ ¬ room.Holds (heightIn "gn" x) ∧
      formattedIn room x = .error .stackExhausted := by
  obtain ⟨x, hread, hheight⟩ := exists_read_chain hlimit n
  obtain ⟨text, htext⟩ := exists_formatted hread
  rw [← hheight] at hroom
  exact ⟨x, hread, hroom, (htext room).trans (if_neg hroom)⟩

/-! ### The text of a chain -/

theorem exists_toList_assignedText (n : Nat) :
    ∃ w, (assignedText n).toList = 'y' :: (w ++ ['x']) := by
  cases n with
  | zero => exact ⟨[' ', '=', ' '], rfl⟩
  | succ n =>
    refine ⟨" = ".toList ++ (chainText n).toList ++ " + ".toList, ?_⟩
    rw [assignedText, chainText, String.toList_append, String.toList_append]
    simp

theorem assignedText_ne {n : Nat} {word : String} (h : word.toList.head? ≠ some 'y') :
    assignedText n ≠ word := by
  rintro rfl
  obtain ⟨w, hw⟩ := exists_toList_assignedText n
  rw [hw] at h
  exact h rfl

theorem not_mem_assignedText (n : Nat) : '\r' ∉ (assignedText n).toList := by
  have hchain : '\r' ∉ (chainText n).toList := by
    induction n with
    | zero => decide
    | succ n ih =>
      rw [chainText, String.toList_append, List.mem_append]
      exact not_or.mpr ⟨ih, by decide⟩
  rw [assignedText, String.toList_append, List.mem_append]
  exact not_or.mpr ⟨by decide, hchain⟩

/-- There is no white space at the ends of a chain. -/
theorem trim_assignedText (n : Nat) : trim (assignedText n) = assignedText n := by
  obtain ⟨w, hw⟩ := exists_toList_assignedText n
  exact trim_eq_self hw (by decide) (by decide)

/-- A chain does not end as if a body could follow. -/
theorem endsWith_assignedText (n : Nat) : (assignedText n).endsWith ")" = false := by
  obtain ⟨w, hw⟩ := exists_toList_assignedText n
  refine Bool.eq_false_iff.mpr fun h => ?_
  obtain ⟨v, hv⟩ := endsWith_iff.mp h
  rw [hw, ← List.cons_append] at hv
  have hlast := congrArg List.getLast? hv
  rw [List.getLast?_concat] at hlast
  cases hlast.symm.trans List.getLast?_concat

end GnLang.Format
