/-
Texts of ASCII characters.

`IsAscii` says that a text has no other characters.  `toList_pushn` gives the characters of a
text that is filled up with one character, as margins are with blanks.
-/

namespace GnLang.Text

/-- All characters of the text are those of ASCII. -/
def IsAscii (s : String) : Prop := ∀ c ∈ s.toList, c.toNat < 128

instance (s : String) : Decidable (IsAscii s) :=
  List.decidableBAll (fun c : Char => c.toNat < 128) s.toList

theorem IsAscii.append {s t : String} (hs : IsAscii s) (ht : IsAscii t) : IsAscii (s ++ t) := by
  rw [IsAscii, String.toList_append, List.forall_mem_append]
  exact ⟨hs, ht⟩

/-! ### Filling up -/

theorem toList_pushn (s : String) (c : Char) (n : Nat) :
    (s.pushn c n).toList = s.toList ++ List.replicate n c := by
  rw [String.pushn_eq_repeat_push]
  induction n with
  | zero => simp [Nat.repeat]
  | succ n ih => rw [Nat.repeat, String.toList_push, ih, List.append_assoc, List.replicate_succ']

end GnLang.Text
