/-
The nodes that a token of their own begins.

All do but operations between two operands and assignments, which begin with their left
part.  A list is begun by another mark where it is an item or an operand, where it is the
arguments of a call, and where it is the body of one.

* `Node.opened` — the nodes that have a token of their own, each with what it serves as;
* `Node.map_snd_opened` — they come in the order of a visit, and no others are left out;
* `OpenedBy` — the tokens that may begin a node.
-/
import GnLang.Proofs.Scan.Genuine
import GnLang.Proofs.Tree.Preorder

namespace GnLang

/-- What a part of a tree serves as. -/
inductive Slot where
  | item
  | arguments
  | body

namespace Slot

/-- The mark that opens a list. -/
def bracket : Slot → Symbol
  | item => .lbrack
  | arguments => .lparen
  | body => .lbrace

end Slot

namespace Node

/-- Whether a token of its own begins the node, and not its left part. -/
def isOpened : Node → Bool
  | binary .. | assignment .. => false
  | _ => true

mutual

/-- The nodes of a tree that have a token of their own, in reading order, each with what it
serves as. -/
def opened : Slot → Node → List (Slot × Node)
  | u, identifier n p => [(u, identifier n p)]
  | u, string v p => [(u, string v p)]
  | u, integer v p => [(u, integer v p)]
  | u, scopeAccess n m p => [(u, scopeAccess n m p)]
  | u, foreign f => [(u, foreign f)]
  | u, list xs p => (u, list xs p) :: openedAll xs
  | u, call n a none p => (u, call n a none p) :: opened .arguments a
  | u, call n a (some b) p =>
    (u, call n a (some b) p) :: (opened .arguments a ++ opened .body b)
  | u, arrayAccess n i p => (u, arrayAccess n i p) :: opened .item i
  | u, unary o x p => (u, unary o x p) :: opened .item x
  | _, binary l _ r _ => opened .item l ++ opened .item r
  | _, assignment t _ v _ => opened .item t ++ opened .item v
  termination_by structural _ x => x

/-- The nodes of several trees that have a token of their own. -/
def openedAll : List Node → List (Slot × Node)
  | [] => []
  | x :: xs => opened .item x ++ openedAll xs
  termination_by structural xs => xs

end

mutual

/-- They are those that a visit of the tree sees, but for operations between two operands
and assignments. -/
theorem map_snd_opened (u : Slot) (x : Node) :
    (x.opened u).map Prod.snd = x.preorder.filter isOpened := by
  cases x with
  | list xs p => rw [opened, preorder, List.map_cons, map_snd_openedAll]; rfl
  | call n a b p =>
    cases b with
    | none => rw [opened, preorder, List.map_cons, map_snd_opened]; rfl
    | some b =>
      rw [opened, preorder, List.map_cons, List.map_append, map_snd_opened, map_snd_opened,
        ← List.filter_append]
      rfl
  | arrayAccess n i p => rw [opened, preorder, List.map_cons, map_snd_opened]; rfl
  | unary o x p => rw [opened, preorder, List.map_cons, map_snd_opened]; rfl
  | binary l o r p =>
    rw [opened, preorder, List.map_append, map_snd_opened, map_snd_opened, ← List.filter_append]
    rfl
  | assignment t o v p =>
    rw [opened, preorder, List.map_append, map_snd_opened, map_snd_opened, ← List.filter_append]
    rfl
  | _ => rfl
  termination_by structural x

theorem map_snd_openedAll (xs : List Node) :
    (openedAll xs).map Prod.snd = (preorders xs).filter isOpened := by
  cases xs with
  | nil => rfl
  | cons x xs =>
    rw [openedAll, preorders, List.map_append, map_snd_opened, map_snd_openedAll,
      List.filter_append]
  termination_by structural xs

end

end Node

open Token

/-- A token begins the node: it has the name of the node if that has one, its value if it is
a string, and otherwise the mark or the operator that stands before its parts.  An integer
is begun by its digits or, if it is not positive, it may be begun by a minus sign. -/
def OpenedBy : Slot × Node → Token → Prop
  | (_, .identifier n p), t | (_, .call n _ _ p), t | (_, .arrayAccess n _ p), t
  | (_, .scopeAccess n _ p), t => t = word n p
  | (_, .string v p), t => t = quoted v p
  | (_, .integer v p), t =>
    (∃ n text, v = Int.ofNat n ∧ Text.Numeral text n ∧ t = digits text p) ∨
      v ≤ 0 ∧ t = mark .sub p
  | (_, .unary o _ p), t => t = mark o.symbol p
  | (u, .list _ p), t => t = mark u.bracket p
  | _, _ => False

end GnLang
