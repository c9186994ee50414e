/-
Visiting every node of a tree.

* `Node.parts?` — the direct parts of a node;
* `Node.visit` — a node and everything below it, parents before children, in reading
  order, up to the first part that is not a node.

The visit keeps the nodes it has still to visit in a list, so that its work does not grow
with the depth of the tree.  `Node.sizes_parts_lt` is why it ends: the trees that wait
have fewer nodes after every step.
-/
import GnLang.Node
import GnLang.Node.Debug

namespace GnLang.Node

/-- The direct parts of a node in reading order, or the thing that is no node. -/
def parts? : Node → Except Foreign (List Node)
  | identifier .. | string .. | integer .. | scopeAccess .. => .ok []
  | list xs _ => .ok xs
  | call _ a none _ => .ok [a]
  | call _ a (some b) _ => .ok [a, b]
  | arrayAccess _ i _ => .ok [i]
  | unary _ x _ => .ok [x]
  | binary l _ r _ => .ok [l, r]
  | assignment t _ v _ => .ok [t, v]
  | foreign f => .error f

/-- Why a thing has no parts, in words. -/
def Foreign.noNode (f : Foreign) : String := "Not a GN AST node: " ++ f.debugText

mutual

/-- How many nodes the tree has. -/
def size : Node → Nat
  | identifier .. | string .. | integer .. | scopeAccess .. | foreign _ => 1
  | list xs _ => 1 + sizes xs
  | call _ a none _ => 1 + size a
  | call _ a (some b) _ => 1 + size a + size b
  | arrayAccess _ i _ => 1 + size i
  | unary _ x _ => 1 + size x
  | binary l _ r _ => 1 + size l + size r
  | assignment t _ v _ => 1 + size t + size v
  termination_by structural x => x

/-- How many nodes the trees have together. -/
def sizes : List Node → Nat
  | [] => 0
  | x :: xs => size x + sizes xs
  termination_by structural xs => xs

end

theorem sizes_append (xs ys : List Node) : sizes (xs ++ ys) = sizes xs + sizes ys := by
  induction xs with
  | nil => simp [sizes]
  | cons x xs ih => simp [sizes, ih, Nat.add_assoc]

theorem sizes_parts_lt {x : Node} {xs : List Node} (h : x.parts? = .ok xs) :
    sizes xs < size x := by
  cases x with
  | call n a b p => cases b <;> cases h <;> simp only [size, sizes] <;> omega
  | foreign f => cases h
  | _ => cases h; simp only [size, sizes]; omega

/-- What a visit has seen, and the thing that stopped it, if it was stopped. -/
structure Visit where
  seen : List Node
  stop : Option Foreign

/-- Visits the trees in `waiting` after those in `seen`, which come last first. -/
def visitOnto (seen : List Node) : (waiting : List Node) → Visit
  | [] => ⟨seen.reverse, none⟩
  | x :: waiting =>
    match _h : x.parts? with
    | .ok xs => visitOnto (x :: seen) (xs ++ waiting)
    | .error f => ⟨(x :: seen).reverse, some f⟩
  termination_by waiting => sizes waiting
  decreasing_by
    have := sizes_parts_lt _h
    simp only [sizes, sizes_append]
    omega

/-- Visits the node and everything below it. -/
def visit (x : Node) : Visit := visitOnto [] [x]

end GnLang.Node
