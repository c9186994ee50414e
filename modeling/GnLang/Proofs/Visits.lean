/-
A visit goes through the places of a tree in order.

A place in a tree is the way there from the root: for each step down, the number of the part
that it goes to.  In the order of places each stands before those below it, and those below
one part before those below a later one.

* `Node.exists_enumerates` — the pre-order of a tree lists what stands at its places, each
  place once and in this order;
* `Node.seesOf_upTo` — what a visit sees of things in a row;
* `Target.map_toNode_callsOf` — the calls of a name among nodes;
* `Node.visit_places` — all of this for a visit, and for what is made of the calls that it
  finds.
-/
import GnLang.Proofs.Except
import GnLang.Proofs.Tree.Preorder
import GnLang.Target

namespace GnLang

namespace Node

/-! ### Places -/

/-- What stands at a place of the tree. -/
def below? : Node → List Nat → Option Node
  | x, [] => some x
  | x, i :: place =>
    match x.parts? with
    | .ok xs => xs[i]?.bind fun y => y.below? place
    | .error _ => none

/-- What stands at a place below one of several trees, the first of which has the number
`k`. -/
def among? (k : Nat) (xs : List Node) : List Nat → Option Node
  | [] => none
  | i :: place => if k ≤ i then xs[i - k]?.bind fun y => y.below? place else none

/-- The pairs are all the places at which something stands, with what stands there, each once
and in the order of places. -/
structure Enumerates (pairs : List (List Nat × Node)) (at? : List Nat → Option Node) : Prop where
  sorted : pairs.Pairwise fun a b => a.1 < b.1
  mem_iff : ∀ place y, (place, y) ∈ pairs ↔ at? place = some y

theorem among?_lt {k i : Nat} (h : i < k) (xs : List Node) (place : List Nat) :
    among? k xs (i :: place) = none :=
  if_neg (Nat.not_le.mpr h)

theorem among?_first (k : Nat) (x : Node) (xs : List Node) (place : List Nat) :
    among? k (x :: xs) (k :: place) = x.below? place := by
  rw [among?, if_pos (Nat.le_refl k), Nat.sub_self]
  rfl

theorem among?_later {k i : Nat} (h : k < i) (x : Node) (xs : List Node) (place : List Nat) :
    among? k (x :: xs) (i :: place) = among? (k + 1) xs (i :: place) := by
  have hnext : i - k = (i - (k + 1)) + 1 := by omega
  rw [among?, among?, if_pos (by omega), if_pos (by omega), hnext, List.getElem?_cons_succ]

theorem lt_of_among? {k : Nat} {xs : List Node} {place : List Nat} {y : Node}
    (h : among? (k + 1) xs place = some y) (first : List Nat) : k :: first < place := by
  cases place with
  | nil => cases h
  | cons i place =>
    rcases Nat.lt_or_ge i (k + 1) with hlt | hle
    · rw [among?_lt hlt] at h
      cases h
    · exact List.cons_lt_cons_iff.mpr (.inl hle)

/-- The places below the first of several trees come before those below the others. -/
theorem Enumerates.among_cons {k : Nat} {x : Node} {xs : List Node}
    {pairs later : List (List Nat × Node)} (hx : Enumerates pairs x.below?)
    (hxs : Enumerates later (among? (k + 1) xs)) :
    Enumerates (pairs.map (fun a => (k :: a.1, a.2)) ++ later) (among? k (x :: xs)) := by
  constructor
  · refine List.pairwise_append.mpr ⟨?_, hxs.sorted, ?_⟩
    · refine List.pairwise_map.mpr (hx.sorted.imp fun h => ?_)
      exact List.cons_lt_cons_iff.mpr (.inr ⟨rfl, h⟩)
    · rintro a ha ⟨place, y⟩ hb
      obtain ⟨a, -, rfl⟩ := List.mem_map.mp ha
      exact lt_of_among? ((hxs.mem_iff place y).mp hb) a.1
  · intro place y
    rw [List.mem_append, hxs.mem_iff, List.mem_map]
    -- a place below the first tree begins with its number, and the others never have that number
    have hfirst : (∃ a ∈ pairs, (k :: a.1, a.2) = (place, y)) ↔
        ∃ rest, place = k :: rest ∧ x.below? rest = some y := by
      constructor
      · rintro ⟨⟨rest, z⟩, ha, heq⟩
        cases heq
        exact ⟨rest, rfl, (hx.mem_iff rest z).mp ha⟩
      · rintro ⟨rest, rfl, hrest⟩
        exact ⟨(rest, y), (hx.mem_iff rest y).mpr hrest, rfl⟩
    rw [hfirst]
    cases place with
    | nil => simp [among?]
    | cons i rest =>
      rcases Nat.lt_trichotomy i k with hlt | rfl | hgt
      · rw [among?_lt hlt, among?_lt (Nat.lt_succ_of_lt hlt)]
        simp [Nat.ne_of_lt hlt]
      · rw [among?_first, among?_lt (Nat.lt_succ_self i)]
        simp
      · rw [among?_later hgt]
        simp [Nat.ne_of_gt hgt]

/-- The places of several trees, if those of each are enumerated. -/
theorem exists_enumerates_among {xs : List Node}
    (h : ∀ x ∈ xs, ∃ pairs, pairs.map Prod.snd = x.preorder ∧ Enumerates pairs x.below?)
    (k : Nat) :
    ∃ pairs, pairs.map Prod.snd = preorders xs ∧ Enumerates pairs (among? k xs) := by
  induction xs generalizing k with
  | nil =>
    refine ⟨[], rfl, .nil, fun place y => ?_⟩
    cases place <;> simp [among?]
  | cons x xs ih =>
    obtain ⟨hx, hxs⟩ := List.forall_mem_cons.mp h
    obtain ⟨pairs, hpairs, hfirst⟩ := hx
    obtain ⟨later, hlater, hrest⟩ := ih hxs (k + 1)
    refine ⟨_, ?_, hfirst.among_cons hrest⟩
    rw [List.map_append, List.map_map, hlater, preorders, ← hpairs]
    rfl

theorem size_le_of_mem {x : Node} {xs : List Node} (h : x ∈ xs) : x.size ≤ sizes xs := by
  induction xs with
  | nil => cases h
  | cons y ys ih =>
    rw [sizes]
    rcases List.mem_cons.mp h with rfl | h
    · exact Nat.le_add_right _ _
    · exact Nat.le_trans (ih h) (Nat.le_add_left _ _)

/-- The root comes first, and then the places below the parts. -/
theorem Enumerates.root {x : Node} {xs : List Node} (hparts : x.parts? = .ok xs)
    {pairs : List (List Nat × Node)} (h : Enumerates pairs (among? 0 xs)) :
    Enumerates (([], x) :: pairs) x.below? := by
  constructor
  · refine List.pairwise_cons.mpr ⟨?_, h.sorted⟩
    rintro ⟨place, y⟩ ha
    have hplace := (h.mem_iff place y).mp ha
    cases place with
    | nil => cases hplace
    | cons i place => exact List.nil_lt_cons i place
  · intro place y
    rw [List.mem_cons, h.mem_iff]
    cases place with
    | nil => simp [among?, below?, eq_comm]
    | cons i place => simp [among?, below?, hparts]

/-- The pre-order lists what stands at the places of the tree, each place once and in order.
The induction is on the number of nodes, which all parts have fewer of. -/
theorem exists_enumerates (x : Node) :
    ∃ pairs, pairs.map Prod.snd = x.preorder ∧ Enumerates pairs x.below? := by
  induction hn : x.size using Nat.strongRecOn generalizing x with
  | ind n ih =>
    cases hparts : x.parts? with
    | error f =>
      -- what is no node has no parts, and its only place is the root
      obtain rfl := eq_foreign_of_parts? hparts
      refine ⟨[([], foreign f)], rfl, List.pairwise_singleton _ _, fun place y => ?_⟩
      cases place with
      | nil => simp [below?, eq_comm]
      | cons i place => simp [below?, parts?]
    | ok xs =>
      have hless : ∀ y ∈ xs, y.size < n := fun y hy =>
        hn ▸ Nat.lt_of_le_of_lt (size_le_of_mem hy) (sizes_parts_lt hparts)
      obtain ⟨pairs, hpairs, h⟩ :=
        exists_enumerates_among (fun y hy => ih y.size (hless y hy) y rfl) 0
      refine ⟨([], x) :: pairs, ?_, h.root hparts⟩
      rw [preorder_of_parts? hparts, List.map_cons, hpairs]

/-- Something is in the pre-order exactly if it stands at a place of the tree. -/
theorem mem_preorder_iff {x y : Node} : y ∈ x.preorder ↔ ∃ place, x.below? place = some y := by
  obtain ⟨pairs, hpairs, h⟩ := exists_enumerates x
  rw [← hpairs, List.mem_map]
  constructor
  · rintro ⟨⟨place, y⟩, ha, rfl⟩
    exact ⟨place, (h.mem_iff place y).mp ha⟩
  · rintro ⟨place, hplace⟩
    exact ⟨(place, y), (h.mem_iff place y).mpr hplace, rfl⟩

/-! ### What a visit sees -/

/-- Of things in a row, the visit sees all if they are nodes; otherwise it sees those up to the
first that is no node, and that one, which stops it. -/
inductive Visit.SeesOf : List Node → Visit → Prop where
  | all {xs : List Node} : (∀ x ∈ xs, x.isNode = true) → SeesOf xs ⟨xs, none⟩
  | upTo {before after : List Node} {f : Foreign} : (∀ x ∈ before, x.isNode = true) →
      SeesOf (before ++ foreign f :: after) ⟨before ++ [foreign f], some f⟩

theorem seesOf_upTo (xs : List Node) : (Visit.upTo xs).SeesOf xs := by
  induction xs with
  | nil => exact .all (List.forall_mem_nil _)
  | cons x xs ih =>
    by_cases hx : x.isNode = true
    · rw [Visit.upTo_cons hx]
      generalize Visit.upTo xs = v at ih
      cases ih with
      | all hxs => exact .all (List.forall_mem_cons.mpr ⟨hx, hxs⟩)
      | upTo hbefore => exact .upTo (List.forall_mem_cons.mpr ⟨hx, hbefore⟩)
    · cases x with
      | foreign f =>
        have h : Visit.SeesOf ([] ++ foreign f :: xs) ⟨[] ++ [foreign f], some f⟩ :=
          .upTo (List.forall_mem_nil _)
        exact h
      | _ => exact absurd rfl hx

/-- In a tree of nodes a visit of the root is followed by visits of the parts. -/
theorem visit_of_parts? {x : Node} {xs : List Node} (hparts : x.parts? = .ok xs)
    (h : ∀ y ∈ x.preorder, y.isNode = true) :
    x.visit = ⟨x :: xs.flatMap (·.visit.seen), none⟩ := by
  -- generalized to any trees, as those that are left are no longer the parts of one node
  have hseen : ∀ ys : List Node, (∀ y ∈ preorders ys, y.isNode = true) →
      ys.flatMap (·.visit.seen) = preorders ys := by
    intro ys hys
    induction ys with
    | nil => rfl
    | cons y ys ih =>
      rw [preorders] at hys ⊢
      obtain ⟨hy, hys⟩ := List.forall_mem_append.mp hys
      rw [List.flatMap_cons, ih hys, visit_eq, Visit.upTo_of_isNode hy]
  rw [visit_eq, Visit.upTo_of_isNode h]
  rw [preorder_of_parts? hparts] at h ⊢
  rw [hseen xs (List.forall_mem_cons.mp h).2]

/-! ### Calls -/

/-- Whether the node is a call of the name. -/
def isCallOf (name : String) : Node → Bool
  | call n .. => n == name
  | _ => false

end Node

/-- The node that a call is. -/
def Call.toNode (c : Call) : Node := .call c.name c.args c.body c.pos

theorem Target.map_toNode_callsOf (name : String) (xs : List Node) :
    (callsOf name xs).map Call.toNode = xs.filter (Node.isCallOf name) := by
  induction xs with
  | nil => rfl
  | cons x xs ih =>
    rw [callsOf] at ih ⊢
    cases x with
    | call n a b p =>
      by_cases hn : (n == name) = true
      · simp [Node.asCall?, Node.isCallOf, hn, Call.toNode, ih]
      · simp [Node.asCall?, Node.isCallOf, hn, ih]
    | _ => exact ih

namespace Node

/-! ### Visits -/

/-- A visit of a tree of nodes sees the root and then what visits of its parts see, one after
the other.  Whatever the tree holds, the visit is the pre-order of the tree up to the first thing
that is no node; so it goes through the places of the tree in order, each once, and ends after
that thing.  What is made of the calls of a name is made of those that the visit sees, in the
order in which it sees them; then the visit may be stopped. -/
theorem visit_places (x : Node) :
    ((∀ place y, x.below? place = some y → y.isNode = true) →
      ∃ xs, x.parts? = .ok xs ∧ x.visit = ⟨x :: xs.flatMap (·.visit.seen), none⟩) ∧
    x.visit = .upTo x.preorder ∧
    (∃ pairs, Enumerates pairs x.below? ∧ pairs.map Prod.snd = x.preorder ∧
      x.visit.SeesOf (pairs.map Prod.snd)) ∧
    ∀ name, ∃ calls : List Call, calls.map Call.toNode = x.visit.seen.filter (isCallOf name) ∧
      ∀ (α : Type) (make : Call → Except Target.Fault α), Target.eachCall x name make =
        calls.mapM make >>= fun made =>
          match x.visit.stop with
          | none => .ok made
          | some f => .error (.notNode f) := by
  refine ⟨fun hnodes => ?_, visit_eq x, ?_, fun name => ?_⟩
  · have hpreorder : ∀ y ∈ x.preorder, y.isNode = true := fun y hy =>
      (mem_preorder_iff.mp hy).elim fun place hplace => hnodes place y hplace
    cases hparts : x.parts? with
    | error f =>
      obtain rfl := eq_foreign_of_parts? hparts
      exact absurd (hnodes [] _ rfl) Bool.false_ne_true
    | ok xs => exact ⟨xs, rfl, visit_of_parts? hparts hpreorder⟩
  · obtain ⟨pairs, hpairs, h⟩ := exists_enumerates x
    refine ⟨pairs, h, hpairs, ?_⟩
    rw [hpairs, visit_eq]
    exact seesOf_upTo x.preorder
  · exact ⟨_, Target.map_toNode_callsOf name x.visit.seen, fun _ _ => rfl⟩

/-- In the body of a call its name is called again, as the operand of an operator that is
assigned: the visit sees the call, its arguments and what is in them, and then the body and the
second call.  Something that is no node stops the visit before the call behind it. -/
theorem visit_places_body :
    let index := arrayAccess "l" (integer 0 ⟨1, 9⟩) ⟨1, 7⟩
    let sum := binary (identifier "a" ⟨1, 3⟩) .add index ⟨1, 3⟩
    let args := list [sum] ⟨1, 2⟩
    let inner := call "f" (list [] ⟨2, 9⟩) none ⟨2, 8⟩
    let negated := unary .not inner ⟨2, 7⟩
    let value := assignment (identifier "x" ⟨2, 3⟩) .set negated ⟨2, 3⟩
    let x := call "f" args (some (list [value] ⟨1, 13⟩)) ⟨1, 1⟩
    let y := list [args, foreign (.other "int" "3"), inner] .unknown
    ((∀ place z, x.below? place = some z → z.isNode = true) ∧
      x.below? [1, 0, 1, 0] = some inner ∧
      x.visit.seen = [x, args, sum, identifier "a" ⟨1, 3⟩, index, integer 0 ⟨1, 9⟩,
        list [value] ⟨1, 13⟩, value, identifier "x" ⟨2, 3⟩, negated, inner, list [] ⟨2, 9⟩] ∧
      ∃ calls, calls.map Call.toNode = [x, inner] ∧ Target.eachCall x "f" .ok = .ok calls) ∧
    y.visit.seen = [y, args, sum, identifier "a" ⟨1, 3⟩, index, integer 0 ⟨1, 9⟩,
      foreign (.other "int" "3")] ∧
    Target.eachCall y "f" .ok = .error (.notNode (.other "int" "3")) := by
  intro index sum args inner negated value x y
  have hnodes : ∀ place z, x.below? place = some z → z.isNode = true := fun place z hplace =>
    isNode_of_mem_preorder (x := x) rfl z (mem_preorder_iff.mpr ⟨place, hplace⟩)
  obtain ⟨hwhole, hseen, -, hcalls⟩ := visit_places x
  obtain ⟨xs, hparts, hvisit⟩ := hwhole hnodes
  obtain ⟨calls, hmap, hmade⟩ := hcalls "f"
  obtain ⟨-, hstopped, -, hothers⟩ := visit_places y
  obtain ⟨others, hnone, hfailed⟩ := hothers "f"
  refine ⟨⟨hnodes, rfl, by rw [hseen]; rfl, calls, ?_, ?_⟩, by rw [hstopped]; rfl, ?_⟩
  · rw [hmap, hseen]
    rfl
  · rw [hmade, hvisit, mapM_eq_ok.mpr (List.forall₂_same.mpr fun _ _ => rfl)]
    rfl
  · rw [hstopped] at hnone
    obtain rfl := List.map_eq_nil_iff.mp (hnone.trans rfl : others.map Call.toNode = [])
    rw [hfailed, hstopped]
    rfl

end Node

end GnLang
