/-
The canonical text does not depend on places.

* `layout_placeless` — forgetting the places in a tree changes nothing in its text, nor in the
  reason why it has none;
* `Emitter.height_placeless` — nor in the calls that it takes to write the text.
-/
import GnLang.Node.Same
import GnLang.Proofs.Format.Emission

namespace GnLang.Format

theorem isBinary_placeless (x : Node) : isBinary x.placeless = isBinary x := by
  cases x with
  | call n a b p => cases b <;> rfl
  | foreign f => cases f <;> rfl
  | _ => rfl

theorem grouped_placeless (x : Node) : grouped x.placeless = grouped x := by
  funext text
  rw [grouped, grouped, isBinary_placeless]

mutual

theorem layout_placeless (depth : Int) (x : Node) :
    layout depth x.placeless = layout depth x := by
  cases x with
  | list xs p => rw [Node.placeless, layout, layout, layoutAll_placeless]
  | call n a b p =>
    cases b with
    | none => rw [Node.placeless, layout, layout, layoutItems_placeless]
    | some b =>
      rw [Node.placeless, layout, layout, layoutItems_placeless, layoutItems_placeless]
  | arrayAccess n i p => rw [Node.placeless, layout, layout, layout_placeless]
  | unary o x p => rw [Node.placeless, layout, layout, layout_placeless, grouped_placeless]
  | binary l o r p =>
    rw [Node.placeless, layout, layout, layout_placeless, layout_placeless, grouped_placeless]
  | assignment t o v p =>
    rw [Node.placeless, layout, layout, layout_placeless, layout_placeless]
  | foreign f => cases f <;> rfl
  | _ => rfl
  termination_by structural x

theorem layoutItems_placeless (depth : Int) (x : Node) :
    layoutItems depth x.placeless = layoutItems depth x := by
  cases x with
  | list xs p => rw [Node.placeless, layoutItems, layoutItems, layoutAll_placeless]
  | call n a b p => cases b <;> rfl
  | foreign f => cases f <;> rfl
  | _ => rfl
  termination_by structural x

theorem layoutAll_placeless (depth : Int) (xs : List Node) :
    layoutAll depth (Node.placelessAll xs) = layoutAll depth xs := by
  cases xs with
  | nil => rfl
  | cons x xs =>
    rw [Node.placelessAll, layoutAll, layoutAll, layout_placeless, layoutAll_placeless]
  termination_by structural xs

end

namespace Emitter

mutual

theorem height_placeless : ∀ x : Node, height x.placeless = height x
  | .identifier .. | .string .. | .integer .. | .scopeAccess .. => rfl
  | .list xs _ => by
    rw [Node.placeless, height, height, heights_placeless]
    cases xs <;> rfl
  | .call _ a none _ => by rw [Node.placeless, height, height, itemsHeight_placeless]
  | .call _ a (some b) _ => by
    rw [Node.placeless, height, height, itemsHeight_placeless, itemsHeight_placeless]
  | .arrayAccess _ i _ => by rw [Node.placeless, height, height, height_placeless]
  | .unary _ x _ => by rw [Node.placeless, height, height, height_placeless]
  | .binary l _ r _ => by
    rw [Node.placeless, height, height, height_placeless, height_placeless]
  | .assignment t _ v _ => by
    rw [Node.placeless, height, height, height_placeless, height_placeless]
  | .foreign f => by cases f <;> rfl

theorem itemsHeight_placeless : ∀ x : Node, itemsHeight x.placeless = itemsHeight x
  | .list xs _ => by rw [Node.placeless, itemsHeight, itemsHeight, heights_placeless]
  | .call _ _ b _ => by cases b <;> rfl
  | .foreign f => by cases f <;> rfl
  | .identifier .. | .string .. | .integer .. | .scopeAccess .. | .arrayAccess .. | .unary ..
  | .binary .. | .assignment .. => rfl

theorem heights_placeless : ∀ xs : List Node, heights (Node.placelessAll xs) = heights xs
  | [] => rfl
  | x :: xs => by rw [Node.placelessAll, heights, heights, height_placeless, heights_placeless]

end

end Emitter

end GnLang.Format
