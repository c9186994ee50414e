/-
Code points in JSON texts.

Where a text comes from elsewhere it may hold halves of surrogate pairs, which are no
characters.  In a JSON string such a half is written by its unit, as the halves of a pair are
that a character is written by.  So what is written says which UTF-16 units there are, and no
more: `escapePoints_eq_iff`.

* `escapePoints_points` — the code points of a text are written like its characters;
* `unitsOf_escapePoints` — the units are found again in what is written;
* `escapePoint_eq` — so two halves in a row are written like the character of the pair.
-/
import GnLang.Proofs.Json.Written
import GnLang.Proofs.Text.Utf8

namespace GnLang.Json

open Text Utf8

/-- One code point of a string. -/
def escapePoint (n : Nat) : List Char :=
  match character? n with
  | some c => escape c
  | none => unit n

/-- The UTF-16 units of a code point. -/
def units (n : Nat) : List Nat :=
  if n < 0x10000 then [n] else [0xd800 + (n - 0x10000) / 0x400, 0xdc00 + (n - 0x10000) % 0x400]

/-- The number that four hexadecimal digits make. -/
def unitValue (a b c d : Char) : Nat :=
  ((value a * 16 + value b) * 16 + value c) * 16 + value d
where
  value (digit : Char) : Nat := (hexValue? digit).getD 0

/-- The units that are written between the quotes of a string. -/
def unitsOf : List Char → List Nat
  | '\\' :: 'u' :: a :: b :: c :: d :: cs => unitValue a b c d :: unitsOf cs
  | '\\' :: e :: cs => ((shortEscape? e).getD e).toNat :: unitsOf cs
  | c :: cs => c.toNat :: unitsOf cs
  | [] => []

theorem escapePoint_toNat (c : Char) : escapePoint c.toNat = escape c := by
  rw [escapePoint, character?_toNat]

theorem escapePoints_points (s : String) :
    (points s).flatMap escapePoint = s.toList.flatMap escape := by
  rw [points, List.flatMap_map]
  exact List.flatMap_congr fun c _ => escapePoint_toNat c

theorem unitsOf_unit {n : Nat} (h : n < 0x10000) (rest : List Char) :
    unitsOf (unit n ++ rest) = n :: unitsOf rest := by
  have hunit := isUnit_hex h
  rw [unit]
  generalize hex 4 n = digits at hunit
  cases hunit with
  | digits ha hb hc hd =>
    show unitsOf ('\\' :: 'u' :: _ :: _ :: _ :: _ :: rest) = _
    rw [unitsOf, unitValue, unitValue.value, unitValue.value, unitValue.value, unitValue.value, ha,
      hb, hc, hd]
    rfl

theorem units_of_lt {n : Nat} (h : n < 0x10000) : units n = [n] := if_pos h

theorem unitsOf_plain {c : Char} (h : c ≠ '\\') (rest : List Char) :
    unitsOf (c :: rest) = c.toNat :: unitsOf rest := by
  rw [unitsOf]
  · exact fun _ _ _ _ _ hc => absurd hc h
  · exact fun _ _ hc => absurd hc h

theorem unitsOf_escape (c : Char) (rest : List Char) :
    unitsOf (escape c ++ rest) = units c.toNat ++ unitsOf rest := by
  unfold escape
  split
  case isTrue h =>
    rcases h with rfl | rfl <;> rfl
  case isFalse hplain =>
    obtain ⟨-, hbackslash⟩ := not_or.mp hplain
    split_ifs with hn hr ht hb hf hprint hunit
    · rw [hn]
      rfl
    · rw [hr]
      rfl
    · rw [ht]
      rfl
    · rw [hb]
      rfl
    · rw [hf]
      rfl
    · rw [List.singleton_append, unitsOf_plain hbackslash, units_of_lt (by omega)]
      rfl
    · rw [unitsOf_unit hunit, units_of_lt hunit]
      rfl
    · have hlt : c.toNat < 0x110000 := by
        rcases c.valid with hc | ⟨-, hc⟩
        · exact Nat.lt_trans hc (by decide)
        · exact hc
      dsimp only
      rw [units, if_neg hunit, List.append_assoc, unitsOf_unit (by omega), unitsOf_unit (by omega)]
      rfl

/-- A code point that is no character has one unit, unless there is no such code point. -/
theorem lt_of_not_character {n : Nat} (h : character? n = none) (hn : n < 0x110000) :
    n < 0x10000 := by
  by_contra hge
  have hvalid : n.isValidChar := .inr ⟨by omega, hn⟩
  rw [character?, if_pos hvalid] at h
  cases h

/-- What is written for a code point says which units it has. -/
theorem unitsOf_escapePoint {n : Nat} (hn : n < 0x110000) (rest : List Char) :
    unitsOf (escapePoint n ++ rest) = units n ++ unitsOf rest := by
  rw [escapePoint]
  cases hc : character? n with
  | some c =>
    rw [← toNat_of_character? hc]
    exact unitsOf_escape c rest
  | none =>
    have hlt := lt_of_not_character hc hn
    rw [units_of_lt hlt]
    exact unitsOf_unit hlt rest

theorem unitsOf_escapePoints {ps : List Nat} (h : ∀ n ∈ ps, n < 0x110000) :
    unitsOf (ps.flatMap escapePoint) = ps.flatMap units := by
  induction ps with
  | nil => rfl
  | cons n ps ih =>
    obtain ⟨hn, hps⟩ := List.forall_mem_cons.mp h
    rw [List.flatMap_cons, List.flatMap_cons, unitsOf_escapePoint hn, ih hps]

/-- A character that has two units is written by them. -/
theorem escape_of_le {c : Char} (h : 0x10000 ≤ c.toNat) :
    escape c = unit (0xd800 + (c.toNat - 0x10000) / 0x400) ++
      unit (0xdc00 + (c.toNat - 0x10000) % 0x400) := by
  have hne : ∀ d : Char, d.toNat < 0x10000 → c ≠ d := by
    rintro d hd rfl
    omega
  have hplain : ¬ (c = '"' ∨ c = '\\') :=
    not_or.mpr ⟨hne _ (by decide), hne _ (by decide)⟩
  rw [escape, if_neg hplain, if_neg (hne _ (by decide)), if_neg (hne _ (by decide)),
    if_neg (hne _ (by decide)), if_neg (hne _ (by decide)), if_neg (hne _ (by decide)),
    if_neg (by omega), if_neg (by omega)]

/-- Half of a surrogate pair is written by its unit. -/
theorem escapePoint_half {n : Nat} (hlow : 0xd800 ≤ n) (hhigh : n < 0xe000) :
    escapePoint n = unit n := by
  have hnone : character? n = none := if_neg (by rintro (h | ⟨h, -⟩) <;> omega)
  rw [escapePoint, hnone]

/-- A code point is written like its units. -/
theorem escapePoint_eq {n : Nat} (hn : n < 0x110000) :
    escapePoint n = (units n).flatMap escapePoint := by
  rw [units]
  split
  · rw [List.flatMap_singleton]
  · rename_i hge
    have hvalid : n.isValidChar := .inr ⟨by omega, hn⟩
    have hc : character? n = some (Char.ofNat n) := if_pos hvalid
    have hvalue := toNat_of_character? hc
    have hhigh := escapePoint_half (n := 0xd800 + (n - 0x10000) / 0x400) (by omega) (by omega)
    have hlow := escapePoint_half (n := 0xdc00 + (n - 0x10000) % 0x400) (by omega) (by omega)
    rw [List.flatMap_cons, List.flatMap_singleton, hhigh, hlow, escapePoint, hc]
    dsimp only
    rw [escape_of_le (by omega), hvalue]

/-- Code points are written alike exactly if they have the same units. -/
theorem escapePoints_eq_iff {ps qs : List Nat} (hps : ∀ n ∈ ps, n < 0x110000)
    (hqs : ∀ n ∈ qs, n < 0x110000) :
    ps.flatMap escapePoint = qs.flatMap escapePoint ↔ ps.flatMap units = qs.flatMap units := by
  have hunits : ∀ {rs : List Nat}, (∀ n ∈ rs, n < 0x110000) →
      rs.flatMap escapePoint = (rs.flatMap units).flatMap escapePoint := fun hrs => by
    rw [List.flatMap_assoc]
    exact List.flatMap_congr fun n hn => escapePoint_eq (hrs n hn)
  constructor
  · intro h
    rw [← unitsOf_escapePoints hps, h, unitsOf_escapePoints hqs]
  · intro h
    rw [hunits hps, h, ← hunits hqs]

end GnLang.Json
