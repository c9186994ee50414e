/-
A visit is a recursion over the tree, cut off at the first thing that is no node.

`Node.visit` keeps what it has still to visit in a list.  `Node.preorder` is the recursion
that it stands for: a tree's root, and then everything below it, part by part.

* `visit_eq` — a visit sees what stands in the pre-order up to the first thing that is no
  node, and stops there;
* `visit_of_foreign?_eq_none` — in a tree of nodes nothing stops it.
-/
import GnLang.Node.Foreign
import GnLang.Node.Visit

namespace GnLang.Node

mutual

/-- The root of the tree and everything below it, parents before children, in reading
order. -/
def preorder : Node → List Node
  | identifier n p => [identifier n p]
  | string v p => [string v p]
  | integer v p => [integer v p]
  | scopeAccess n m p => [scopeAccess n m p]
  | foreign f => [foreign f]
  | list xs p => list xs p :: preorders xs
  | call n a none p => call n a none p :: preorder a
  | call n a (some b) p => call n a (some b) p :: (preorder a ++ preorder b)
  | arrayAccess n i p => arrayAccess n i p :: preorder i
  | unary o x p => unary o x p :: preorder x
  | binary l o r p => binary l o r p :: (preorder l ++ preorder r)
  | assignment t o v p => assignment t o v p :: (preorder t ++ preorder v)
  termination_by structural x => x

/-- The pre-orders of trees, one after the other. -/
def preorders : List Node → List Node
  | [] => []
  | x :: xs => preorder x ++ preorders xs
  termination_by structural xs => xs

end

theorem preorders_append (xs ys : List Node) :
    preorders (xs ++ ys) = preorders xs ++ preorders ys := by
  induction xs with
  | nil => rfl
  | cons x xs ih => rw [List.cons_append, preorders, preorders, ih, List.append_assoc]

/-- Below a node stand its parts. -/
theorem preorder_of_parts? {x : Node} {xs : List Node} (h : x.parts? = .ok xs) :
    x.preorder = x :: preorders xs := by
  cases x with
  | foreign f => cases h
  | call n a b p => cases b <;> cases h <;> simp only [preorder, preorders, List.append_nil]
  | _ => cases h; simp only [preorder, preorders, List.append_nil]

theorem eq_foreign_of_parts? {x : Node} {f : Foreign} (h : x.parts? = .error f) :
    x = .foreign f := by
  cases x with
  | foreign g => cases h; rfl
  | call n a b p => cases b <;> cases h
  | _ => cases h

/-! ### Cutting off -/

/-- What a visit sees of things that stand in a row: all up to the first that is no node. -/
def Visit.upTo : List Node → Visit
  | [] => ⟨[], none⟩
  | foreign f :: _ => ⟨[foreign f], some f⟩
  | x :: xs => ⟨x :: (upTo xs).seen, (upTo xs).stop⟩

theorem Visit.upTo_cons {x : Node} (h : x.isNode = true) (xs : List Node) :
    Visit.upTo (x :: xs) = ⟨x :: (Visit.upTo xs).seen, (Visit.upTo xs).stop⟩ := by
  cases x with
  | foreign f => cases h
  | _ => rfl

theorem isNode_of_parts? {x : Node} {xs : List Node} (h : x.parts? = .ok xs) :
    x.isNode = true := by
  cases x with
  | foreign f => cases h
  | _ => rfl

theorem visitOnto_eq (seen waiting : List Node) :
    visitOnto seen waiting =
      ⟨seen.reverse ++ (Visit.upTo (preorders waiting)).seen,
        (Visit.upTo (preorders waiting)).stop⟩ := by
  induction seen, waiting using visitOnto.induct with
  | case1 seen =>
    rw [visitOnto, preorders, Visit.upTo, List.append_nil]
  | case2 seen x waiting xs hx ih =>
    rw [visitOnto]
    split
    · rename_i ys hy
      cases hx.symm.trans hy
      rw [ih, preorders_append, preorders, preorder_of_parts? hx, List.cons_append,
        Visit.upTo_cons (isNode_of_parts? hx), List.reverse_cons, List.append_assoc]
      rfl
    · rename_i f hf
      cases hx.symm.trans hf
  | case3 seen x waiting f hf =>
    obtain rfl := eq_foreign_of_parts? hf
    rw [visitOnto, List.reverse_cons]
    rfl

/-- A visit is the pre-order of the tree, cut off after the first thing that is no node. -/
theorem visit_eq (x : Node) : x.visit = Visit.upTo x.preorder := by
  rw [visit, visitOnto_eq, preorders, preorders, List.append_nil]
  rfl

/-! ### Trees of nodes -/

theorem Visit.upTo_of_isNode {xs : List Node} (h : ∀ x ∈ xs, x.isNode = true) :
    Visit.upTo xs = ⟨xs, none⟩ := by
  induction xs with
  | nil => rfl
  | cons x xs ih =>
    obtain ⟨hx, hxs⟩ := List.forall_mem_cons.mp h
    rw [upTo_cons hx, ih hxs]

mutual

theorem isNode_of_mem_preorder : ∀ {x : Node}, x.foreign? = none →
    ∀ y ∈ x.preorder, y.isNode = true
  | identifier .., _ | string .., _ | integer .., _ | scopeAccess .., _ => by
    simp [preorder, isNode]
  | foreign _, h => nomatch h
  | list xs _, h => List.forall_mem_cons.mpr ⟨rfl, isNode_of_mem_preorders h⟩
  | call _ a none _, h => List.forall_mem_cons.mpr ⟨rfl, isNode_of_mem_preorder (x := a) h⟩
  | call _ a (some b) _, h => by
    obtain ⟨ha, hb⟩ := Option.or_eq_none_iff.mp h
    exact List.forall_mem_cons.mpr ⟨rfl, List.forall_mem_append.mpr
      ⟨isNode_of_mem_preorder ha, isNode_of_mem_preorder hb⟩⟩
  | arrayAccess _ i _, h => List.forall_mem_cons.mpr ⟨rfl, isNode_of_mem_preorder (x := i) h⟩
  | unary _ x _, h => List.forall_mem_cons.mpr ⟨rfl, isNode_of_mem_preorder (x := x) h⟩
  | binary l _ r _, h => by
    obtain ⟨hl, hr⟩ := Option.or_eq_none_iff.mp h
    exact List.forall_mem_cons.mpr ⟨rfl, List.forall_mem_append.mpr
      ⟨isNode_of_mem_preorder hl, isNode_of_mem_preorder hr⟩⟩
  | assignment t _ v _, h => by
    obtain ⟨ht, hv⟩ := Option.or_eq_none_iff.mp h
    exact List.forall_mem_cons.mpr ⟨rfl, List.forall_mem_append.mpr
      ⟨isNode_of_mem_preorder ht, isNode_of_mem_preorder hv⟩⟩

theorem isNode_of_mem_preorders : ∀ {xs : List Node}, foreignIn? xs = none →
    ∀ y ∈ preorders xs, y.isNode = true
  | [], _ => List.forall_mem_nil _
  | x :: xs, h => by
    obtain ⟨hx, hxs⟩ := Option.or_eq_none_iff.mp h
    exact List.forall_mem_append.mpr ⟨isNode_of_mem_preorder hx, isNode_of_mem_preorders hxs⟩

end

/-- Nothing stops a visit of a tree of nodes. -/
theorem visit_of_foreign?_eq_none {x : Node} (h : x.foreign? = none) :
    x.visit = ⟨x.preorder, none⟩ := by
  rw [visit_eq, Visit.upTo_of_isNode (isNode_of_mem_preorder h)]

end GnLang.Node
