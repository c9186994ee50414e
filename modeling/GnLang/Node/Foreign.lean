/-
Trees that hold nothing but nodes.

`Node.foreign?` finds the first thing in a tree that is not a node; a tree is all nodes
when it finds none.
-/
import GnLang.Node

namespace GnLang.Node

mutual

/-- The first part of the tree that is not a node, in reading order. -/
def foreign? : Node → Option Foreign
  | identifier .. | string .. | integer .. | scopeAccess .. => none
  | list xs _ => foreignIn? xs
  | call _ a none _ => foreign? a
  | call _ a (some b) _ => (foreign? a).or (foreign? b)
  | arrayAccess _ i _ => foreign? i
  | unary _ x _ => foreign? x
  | binary l _ r _ => (foreign? l).or (foreign? r)
  | assignment t _ v _ => (foreign? t).or (foreign? v)
  | foreign f => some f
  termination_by structural x => x

/-- The first part of the trees that is not a node, in reading order. -/
def foreignIn? : List Node → Option Foreign
  | [] => none
  | x :: xs => (foreign? x).or (foreignIn? xs)
  termination_by structural xs => xs

end

end GnLang.Node
