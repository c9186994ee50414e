/-
Trees that can be written.

* `WellFormed` — trees whose names, strings and integers can be written, with expressions
  where expressions belong and statements where statements do;
* `need` — how many nestings the canonical text of a tree opens at once.

`WellFormed.isStatement` and `WellFormed.foreign?_eq_none` say what well-formedness rules
out.
-/
import GnLang.Format.Layout
import GnLang.Node.Foreign
import GnLang.Proofs.Scan.Genuine

namespace GnLang

/-- What a tree is used as. -/
inductive Role where
  | expression
  | statement

open Text in
/-- The tree can be written as an expression, or as a statement. -/
inductive WellFormed : Role → Node → Prop where
  | identifier {n : String} {p : Pos} : IsWord n → WellFormed .expression (.identifier n p)
  | string {v : String} {p : Pos} : IsQuotable v → WellFormed .expression (.string v p)
  | integer {v : Int} {p : Pos} :
      Node.fitsInteger v → WellFormed .expression (.integer v p)
  | list {xs : List Node} {p : Pos} :
      (∀ x ∈ xs, WellFormed .expression x) → WellFormed .expression (.list xs p)
  | call {n : String} {xs : List Node} {p q : Pos} :
      IsWord n → (∀ x ∈ xs, WellFormed .expression x) →
      WellFormed .expression (.call n (.list xs q) none p)
  | bodyCall {n : String} {xs ys : List Node} {p q b : Pos} :
      IsWord n → (∀ x ∈ xs, WellFormed .expression x) →
      (∀ y ∈ ys, WellFormed .statement y) →
      WellFormed .expression (.call n (.list xs q) (some (.list ys b)) p)
  | arrayAccess {n : String} {i : Node} {p : Pos} :
      IsWord n → WellFormed .expression i → WellFormed .expression (.arrayAccess n i p)
  | scopeAccess {n m : String} {p : Pos} :
      IsWord n → IsWord m → WellFormed .expression (.scopeAccess n m p)
  | unary {o : UnaryOp} {x : Node} {p : Pos} :
      WellFormed .expression x → WellFormed .expression (.unary o x p)
  | binary {l r : Node} {o : BinaryOp} {p : Pos} :
      WellFormed .expression l → WellFormed .expression r →
      WellFormed .expression (.binary l o r p)
  | callStatement {n : String} {a : Node} {b : Option Node} {p : Pos} :
      WellFormed .expression (.call n a b p) → WellFormed .statement (.call n a b p)
  | assignment {t v : Node} {o : AssignOp} {p : Pos} :
      WellFormed .expression t → t.isTarget = true → WellFormed .expression v →
      WellFormed .statement (.assignment t o v p)

theorem WellFormed.isNode {r : Role} {x : Node} (h : WellFormed r x) : x.isNode = true := by
  cases h <;> rfl

theorem WellFormed.isStatement {x : Node} (h : WellFormed .statement x) :
    x.isStatement = true := by
  cases h <;> rfl

theorem isNode_of_isStatement {x : Node} (h : x.isStatement = true) : x.isNode = true := by
  cases x <;> first | rfl | cases h

theorem foreignIn?_eq_none {xs : List Node} (h : ∀ x ∈ xs, x.foreign? = none) :
    Node.foreignIn? xs = none := by
  induction xs with
  | nil => rfl
  | cons x xs ih =>
    obtain ⟨hx, hxs⟩ := List.forall_mem_cons.mp h
    rw [Node.foreignIn?, hx, ih hxs]
    rfl

theorem foreign?_eq_none_of_mem {x : Node} {xs : List Node} (h : Node.foreignIn? xs = none)
    (hx : x ∈ xs) : x.foreign? = none := by
  induction xs with
  | nil => cases hx
  | cons y ys ih =>
    obtain ⟨hy, hys⟩ := Option.or_eq_none_iff.mp h
    rcases List.mem_cons.mp hx with rfl | hx
    · exact hy
    · exact ih hys hx

/-- A tree that can be written holds nothing but nodes. -/
theorem WellFormed.foreign?_eq_none {r : Role} {x : Node} (h : WellFormed r x) :
    x.foreign? = none := by
  induction h with
  | list _ ih | call _ _ ih =>
    exact foreignIn?_eq_none ih
  | bodyCall _ _ _ ihxs ihys =>
    simp only [Node.foreign?, foreignIn?_eq_none ihxs, foreignIn?_eq_none ihys, Option.or_none]
  | arrayAccess _ _ ih | unary _ ih | callStatement _ ih => exact ih
  | binary _ _ ihl ihr => simp only [Node.foreign?, ihl, ihr, Option.or_none]
  | assignment _ _ _ iht ihv => simp only [Node.foreign?, iht, ihv, Option.or_none]
  | _ => rfl

/-! ### Nestings of the canonical text -/

/-- One for the parentheses that go round an operand with an operator between operands. -/
def parentheses (x : Node) : Nat := if Format.isBinary x then 1 else 0

mutual

/-- How many nestings the canonical text of a tree opens at once. -/
def need : Node → Nat
  | .identifier .. | .string .. | .integer .. | .scopeAccess .. | .foreign _ => 0
  | .list xs _ => needs xs + 1
  | .call _ a none _ => need a
  | .call _ a (some b) _ => max (need a) (need b)
  | .arrayAccess _ i _ => need i + 1
  | .unary _ x _ => need x + parentheses x + 1
  | .binary l _ r _ => max (need l) (need r + parentheses r)
  | .assignment t _ v _ => max (need t) (need v)
  termination_by structural x => x

/-- How many nestings the canonical texts of trees, one after the other, open at once. -/
def needs : List Node → Nat
  | [] => 0
  | x :: xs => max (need x) (needs xs)
  termination_by structural xs => xs

end

theorem need_le_needs {x : Node} {xs : List Node} (h : x ∈ xs) : need x ≤ needs xs := by
  induction xs with
  | nil => cases h
  | cons y ys ih =>
    rw [needs]
    rcases List.mem_cons.mp h with rfl | h
    · exact Nat.le_max_left _ _
    · exact Nat.le_trans (ih h) (Nat.le_max_right _ _)

theorem needs_le {xs : List Node} {d : Nat} : needs xs ≤ d ↔ ∀ x ∈ xs, need x ≤ d := by
  constructor
  · intro h x hx
    exact Nat.le_trans (need_le_needs hx) h
  · intro h
    induction xs with
    | nil => exact Nat.zero_le d
    | cons x xs ih =>
      rw [needs]
      obtain ⟨hx, hxs⟩ := List.forall_mem_cons.mp h
      exact Nat.max_le.mpr ⟨hx, ih hxs⟩

end GnLang
