/-
What is left of a tree when its places are forgotten.

Neither what a node is called nor whether it can be assigned to depends on places, and
lists are the same up to places if their items are.
-/
import Mathlib.Data.List.Forall2
import GnLang.Node.Same

namespace GnLang.Node

theorem typeName_placeless (x : Node) : x.placeless.typeName = x.typeName := by
  cases x with
  | call n a b p => cases b <;> rfl
  | foreign f => cases f <;> rfl
  | _ => rfl

theorem isTarget_placeless (x : Node) : x.placeless.isTarget = x.isTarget := by
  cases x with
  | call n a b p => cases b <;> rfl
  | foreign f => cases f <;> rfl
  | _ => rfl

theorem placelessAll_eq_of_forall₂ {xs ys : List Node}
    (h : List.Forall₂ (fun x y => x.placeless = y.placeless) xs ys) :
    placelessAll xs = placelessAll ys := by
  induction h with
  | nil => rfl
  | cons hxy _ ih => rw [placelessAll, placelessAll, hxy, ih]

end GnLang.Node
