/-
Nesting limits as people type them.
-/
import GnLang.Grammar.Rule
import GnLang.Text.Numeral

namespace GnLang.Command

/-- Why a text is no nesting limit. -/
inductive DepthFault where
  | notInteger (text : String)
  | outOfRange (value : Int)
  deriving DecidableEq, Repr

/-- The fault in words. -/
def DepthFault.text : DepthFault → String
  | notInteger text => "invalid int value: " ++ Text.quoted text
  | outOfRange value =>
    "must be between 1 and " ++ toString Grammar.greatestLimit ++ ", got " ++ toString value

/-- The nesting limit that a text stands for. -/
def readDepth (text : String) : Except DepthFault Nat :=
  match Text.readInt? text with
  | none => .error (.notInteger text)
  | some n =>
    if 1 ≤ n ∧ n ≤ Grammar.greatestLimit then .ok n.toNat else .error (.outOfRange n)

theorem readDepth_range {text : String} {n : Nat} (h : readDepth text = .ok n) :
    1 ≤ n ∧ n ≤ Grammar.greatestLimit := by
  unfold readDepth at h
  split at h
  · cases h
  · split at h
    · cases h; omega
    · cases h

end GnLang.Command
