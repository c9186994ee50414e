/-
The targets of trees that can be written.

A call in a tree that can be written has a list of expressions as its arguments, and a list
of statements as its body if it has one (`Call.IsProper`).  So whatever keeps such a call
from declaring a target is a fault that a program can have: `isOfProgram_of_collect`.
-/
import GnLang.Proofs.Except
import GnLang.Proofs.Tree.Preorder
import GnLang.Proofs.Tree.WellFormed
import GnLang.Target

namespace GnLang

/-! ### The calls of a tree -/

/-- The arguments of the call are a list of expressions, and its body, if it has one, is a
list of statements. -/
def Call.IsProper (c : Call) : Prop :=
  (∃ xs q, c.args = .list xs q ∧ ∀ x ∈ xs, WellFormed .expression x) ∧
    (c.body = none ∨ ∃ ys b, c.body = some (.list ys b) ∧ ∀ y ∈ ys, WellFormed .statement y)

/-- All nodes that are calls are proper calls. -/
def ProperCalls (xs : List Node) : Prop := ∀ x ∈ xs, ∀ c, x.asCall? = some c → c.IsProper

theorem ProperCalls.preorders {xs : List Node} (h : ∀ x ∈ xs, ProperCalls x.preorder) :
    ProperCalls (Node.preorders xs) := by
  induction xs with
  | nil => exact List.forall_mem_nil _
  | cons x xs ih =>
    obtain ⟨hx, hxs⟩ := List.forall_mem_cons.mp h
    exact List.forall_mem_append.mpr ⟨hx, ih hxs⟩

theorem ProperCalls.cons {x : Node} {xs : List Node} (hx : ∀ c, x.asCall? = some c → c.IsProper)
    (hxs : ProperCalls xs) : ProperCalls (x :: xs) :=
  List.forall_mem_cons.mpr ⟨hx, hxs⟩

/-- The calls in a tree that can be written are proper. -/
theorem WellFormed.properCalls {r : Role} {x : Node} (h : WellFormed r x) :
    ProperCalls x.preorder := by
  induction h with
  | identifier | string | integer | scopeAccess => exact .cons nofun (List.forall_mem_nil _)
  | list _ ih => exact .cons nofun (.preorders ih)
  | @call n xs p q _ hxs ih =>
    refine .cons ?_ (.cons nofun (.preorders ih))
    rintro c ⟨⟩
    exact ⟨⟨xs, q, rfl, hxs⟩, .inl rfl⟩
  | @bodyCall n xs ys p q b _ hxs hys ihxs ihys =>
    have hargs : ProperCalls (Node.list xs q).preorder := .cons nofun (.preorders ihxs)
    have hbody : ProperCalls (Node.list ys b).preorder := .cons nofun (.preorders ihys)
    refine .cons ?_ (List.forall_mem_append.mpr ⟨hargs, hbody⟩)
    rintro c ⟨⟩
    exact ⟨⟨xs, q, rfl, hxs⟩, .inr ⟨ys, b, rfl, hys⟩⟩
  | arrayAccess _ _ ih | unary _ ih => exact .cons nofun ih
  | callStatement _ ih => exact ih
  | binary _ _ ihl ihr => exact .cons nofun (List.forall_mem_append.mpr ⟨ihl, ihr⟩)
  | assignment _ _ _ iht ihv => exact .cons nofun (List.forall_mem_append.mpr ⟨iht, ihv⟩)

theorem properCalls_of_statements {xs : List Node} {p : Pos}
    (h : ∀ x ∈ xs, WellFormed .statement x) : ProperCalls (Node.list xs p).preorder :=
  .cons nofun (.preorders fun x hx => (h x hx).properCalls)

/-! ### Faults of targets -/

namespace Target

variable {f : Fault} {x : Node}

theorem isOfProgram_of_stringValue? (hx : x.foreign? = none) (h : stringValue? x = .error f) :
    f.isOfProgram = true := by
  cases x with
  | foreign g => cases hx
  | string v p => cases h
  | _ => cases h; rfl

theorem isOfProgram_of_stringValues? (hx : x.foreign? = none)
    (h : stringValues? x = .error f) : f.isOfProgram = true := by
  cases x with
  | foreign g => cases hx
  | list xs p =>
    obtain ⟨y, hy, hfy⟩ := exists_of_mapM_eq_error h
    exact isOfProgram_of_stringValue? (foreign?_eq_none_of_mem hx hy) hfy
  | _ => cases h; rfl

/-- What keeps a statement from being made part of a target is the value of an assignment to
one of the two fields. -/
theorem exists_of_assign_eq_error {t : Target} (h : assign t x = .error f) :
    ∃ n op v p q, x = .assignment (.identifier n q) op v p ∧ stringValues? v = .error f := by
  rw [assign.eq_def] at h
  split at h
  · rename_i n q op v p
    refine ⟨n, op, v, p, q, rfl, ?_⟩
    cases hvalues : stringValues? v with
    | error g =>
      rw [hvalues] at h
      split at h
      · cases h; rfl
      · split at h <;> cases h; rfl
    | ok values =>
      rw [hvalues] at h
      split at h
      · cases h
      · split at h <;> cases h
  · cases h

theorem isOfProgram_of_assign {t : Target} (hx : x.foreign? = none)
    (h : assign t x = .error f) : f.isOfProgram = true := by
  obtain ⟨n, op, v, p, q, rfl, hv⟩ := exists_of_assign_eq_error h
  rw [Node.foreign?, Option.or_eq_none_iff] at hx
  exact isOfProgram_of_stringValues? hx.2 hv

/-- What keeps a call with a list of arguments, and a list of nodes as its body, from declaring
a target is a fault of the program. -/
theorem isOfProgram_of_ofCall? {c : Call} {xs : List Node} {q : Pos} (hargs : c.args = .list xs q)
    (hbody : c.body = none ∨
      ∃ ys b, c.body = some (.list ys b) ∧ ∀ y ∈ ys, y.foreign? = none)
    (h : ofCall? c = .error f) : f.isOfProgram = true := by
  rw [ofCall?, hargs] at h
  split at h
  · rename_i name _ _ _
    have hfold : ∃ ys : List Node, (∀ y ∈ ys, y.foreign? = none) ∧
        ys.foldlM assign ⟨name, [], []⟩ = .error f := by
      rcases hbody with hnone | ⟨ys, b, hsome, hys⟩
      · rw [hnone] at h
        exact ⟨[], List.forall_mem_nil _, h⟩
      · rw [hsome] at h
        exact ⟨ys, hys, h⟩
    obtain ⟨ys, hys, hfold⟩ := hfold
    obtain ⟨y, hy, t, ht⟩ := exists_of_foldlM_eq_error hfold
    exact isOfProgram_of_assign (hys y hy) ht
  · cases h; rfl
  · rename_i hforeign
    cases hforeign
  · rename_i hlist _
    exact (hlist xs q rfl).elim

/-- What keeps a proper call from declaring a target is a fault of the program. -/
theorem isOfProgram_of_isProper {c : Call} (hc : c.IsProper) (h : ofCall? c = .error f) :
    f.isOfProgram = true := by
  obtain ⟨⟨xs, q, hargs, -⟩, hbody⟩ := hc
  refine isOfProgram_of_ofCall? hargs (hbody.imp_right ?_) h
  rintro ⟨ys, b, hsome, hys⟩
  exact ⟨ys, b, hsome, fun y hy => (hys y hy).foreign?_eq_none⟩

/-! ### All targets of a tree -/

/-- In a tree of nodes the calls of a name are found by a visit, which nothing stops. -/
theorem eachCall_eq {α : Type} {make : Call → Except Fault α} (hx : x.foreign? = none)
    (name : String) : eachCall x name make = (callsOf name x.preorder).mapM make := by
  rw [eachCall, Node.visit_of_foreign?_eq_none hx]
  cases (callsOf name x.preorder).mapM make <;> rfl

/-- What keeps a tree with proper calls from declaring targets is a fault of the program. -/
theorem isOfProgram_of_collect (hx : x.foreign? = none) (hcalls : ProperCalls x.preorder)
    {name : String} (h : collect x name = .error f) : f.isOfProgram = true := by
  rw [collect, eachCall_eq hx] at h
  obtain ⟨c, hc, hf⟩ := exists_of_mapM_eq_error h
  obtain ⟨y, hy, hcall⟩ := List.mem_filterMap.mp (List.mem_filter.mp hc).1
  exact isOfProgram_of_isProper (hcalls y hy c hcall) hf

end Target

end GnLang
