/-
Bytes of a text are read as that text.

A character is written as one byte or as a leading byte and up to three that continue it.
`lead_two`, `lead_three` and `lead_four` say what the leading bytes begin, `decodeFrom_tail`
what a byte that continues adds; put together, the bits of a character come back
(`decodeFrom_character`), and with them the text (`decode_encode`).

Code points have bytes exactly if none of them is half of a surrogate pair, as in a text:
`encodePoints_points` and `exists_encodePoints_error_iff`.
-/
import Mathlib.Data.List.TakeWhile
import GnLang.Text.Utf8

namespace GnLang.Text.Utf8

variable {done : List Char} {offset k n : Nat} {bs : List UInt8}

theorem toNat_byte (h : n < 256) : (UInt8.ofNat n).toNat = n := by
  rw [UInt8.toNat_ofNat']
  exact Nat.mod_eq_of_lt h

/-! ### The first byte of a character -/

theorem lead_one (h : n < 0x80) : lead offset (.ofNat n) = some (.inl (Char.ofNat n)) := by
  have hbyte := toNat_byte (show n < 256 by omega)
  rw [lead, if_pos (by rw [UInt8.lt_iff_toNat_lt, hbyte]; exact h), hbyte]

theorem lead_two (hlow : 2 ≤ k) (hhigh : k < 0x20) :
    lead offset (.ofNat (k + 0xc0)) =
      some (.inr ⟨offset, .ofNat (k + 0xc0), 1, 1, 0x80, 0xbf, k⟩) := by
  have hbyte := toNat_byte (show k + 0xc0 < 256 by omega)
  simp only [lead, UInt8.lt_iff_toNat_lt, hbyte, UInt8.reduceToNat]
  rw [if_neg (by omega), if_neg (by omega), if_pos (by omega), Nat.add_sub_cancel]

theorem lead_three (hhigh : k < 0x10) :
    lead offset (.ofNat (k + 0xe0)) =
      some (.inr ⟨offset, .ofNat (k + 0xe0), 1, 2, if k = 0 then 0xa0 else 0x80,
        if k = 0xd then 0x9f else 0xbf, k⟩) := by
  have hbyte := toNat_byte (show k + 0xe0 < 256 by omega)
  simp only [lead, UInt8.lt_iff_toNat_lt, ← UInt8.toNat_inj, hbyte, UInt8.reduceToNat]
  rw [if_neg (by omega), if_neg (by omega), if_neg (by omega), if_pos (by omega),
    Nat.add_sub_cancel]
  simp only [Nat.add_eq_right, Nat.reduceEqDiff]

theorem lead_four (hhigh : k < 5) :
    lead offset (.ofNat (k + 0xf0)) =
      some (.inr ⟨offset, .ofNat (k + 0xf0), 1, 3, if k = 0 then 0x90 else 0x80,
        if k = 4 then 0x8f else 0xbf, k⟩) := by
  have hbyte := toNat_byte (show k + 0xf0 < 256 by omega)
  simp only [lead, UInt8.lt_iff_toNat_lt, ← UInt8.toNat_inj, hbyte, UInt8.reduceToNat]
  rw [if_neg (by omega), if_neg (by omega), if_neg (by omega), if_neg (by omega),
    if_pos (by omega), Nat.add_sub_cancel]
  simp only [Nat.add_eq_right, Nat.reduceEqDiff]

/-! ### The bytes after it -/

/-- A byte that may come next adds six bits. -/
theorem decodeFrom_tail {p : Begun} (h : n < 0x40) (hlow : p.low.toNat ≤ n + 0x80)
    (hhigh : n + 0x80 ≤ p.high.toNat) :
    decodeFrom done offset (some p) (.ofNat (n + 0x80) :: bs) =
      if p.owed = 1 then decodeFrom (Char.ofNat (p.bits * 64 + n) :: done) (offset + 1) none bs
      else
        decodeFrom done (offset + 1)
          (some ⟨p.offset, p.byte, p.count + 1, p.owed - 1, 0x80, 0xbf, p.bits * 64 + n⟩) bs := by
  have hbyte := toNat_byte (show n + 0x80 < 256 by omega)
  simp only [decodeFrom, UInt8.le_iff_toNat_le, hbyte]
  rw [if_pos ⟨hlow, hhigh⟩, Nat.add_sub_cancel]

/-! ### Characters and texts -/

/-- The bytes of a character are read as the character. -/
theorem decodeFrom_character (c : Char) :
    decodeFrom done offset none (String.utf8EncodeChar c ++ bs) =
      decodeFrom (c :: done) (offset + (String.utf8EncodeChar c).length) none bs := by
  have hvalid : c.toNat < 0xd800 ∨ 0xdfff < c.toNat ∧ c.toNat < 0x110000 := c.valid
  have hchar := Char.ofNat_toNat c
  rw [String.utf8EncodeChar.eq_1, Char.toNat_val]
  generalize c.toNat = n at hvalid hchar
  split
  · rename_i hone
    rw [List.singleton_append, decodeFrom, lead_one (by omega), hchar]
    rfl
  split
  · rename_i hone htwo
    have hbits : n / 64 % 32 * 64 + n % 64 = n := by omega
    rw [List.cons_append, decodeFrom, lead_two (by omega) (by omega)]
    dsimp only
    rw [List.singleton_append, decodeFrom_tail (by omega) (by simp) (by simp; omega)]
    simp only [if_true, hbits, hchar]
    rfl
  split
  · rename_i hone htwo hthree
    have hbits : (n / 4096 % 16 * 64 + n / 64 % 64) * 64 + n % 64 = n := by omega
    rw [List.cons_append, decodeFrom, lead_three (by omega)]
    dsimp only
    -- the second byte makes up for the bits that the first one leaves open
    rw [List.cons_append, decodeFrom_tail (by omega) (by dsimp only; split <;> simp; omega)
      (by dsimp only; split <;> simp <;> omega)]
    dsimp only
    rw [if_neg (by decide), List.singleton_append,
      decodeFrom_tail (by omega) (by simp) (by simp; omega)]
    simp only [if_true, hbits, hchar]
    rfl
  · rename_i hone htwo hthree
    have hbits : ((n / 262144 % 8 * 64 + n / 4096 % 64) * 64 + n / 64 % 64) * 64 + n % 64 = n := by
      omega
    rw [List.cons_append, decodeFrom, lead_four (by omega)]
    dsimp only
    rw [List.cons_append, decodeFrom_tail (by omega) (by dsimp only; split <;> simp; omega)
      (by dsimp only; split <;> simp <;> omega)]
    dsimp only
    rw [if_neg (by decide), List.cons_append,
      decodeFrom_tail (by omega) (by simp) (by simp; omega)]
    dsimp only
    rw [if_neg (by decide), List.singleton_append,
      decodeFrom_tail (by omega) (by simp) (by simp; omega)]
    simp only [if_true, hbits, hchar]
    rfl

/-- The bytes of a text are read as the text. -/
theorem decode_encode (cs : List Char) : decode (encode cs) = .ok cs := by
  have hfrom : ∀ done offset, decodeFrom done offset none (encode cs) =
      .ok (done.reverse ++ cs) := by
    induction cs with
    | nil => exact fun done offset => by rw [List.append_nil]; rfl
    | cons c cs ih =>
      intro done offset
      rw [encode, List.flatMap_cons, decodeFrom_character]
      exact (ih _ _).trans (by simp)
  exact hfrom [] 0

theorem encode_inj {cs ds : List Char} : encode cs = encode ds ↔ cs = ds := by
  constructor
  · intro h
    have hread := decode_encode cs
    rw [h, decode_encode] at hread
    exact (Except.ok.inj hread).symm
  · exact congrArg encode

/-! ### Code points -/

theorem character?_toNat (c : Char) : character? c.toNat = some c := by
  have hvalid : c.toNat.isValidChar := c.valid
  rw [character?, if_pos hvalid, Char.ofNat_toNat]

theorem toNat_of_character? {c : Char} (h : character? n = some c) : c.toNat = n := by
  rw [character?] at h
  split at h
  · rename_i hvalid
    cases h
    rw [Char.ofNat, dif_pos hvalid]
    rfl
  · cases h

/-- The code points of a text have the bytes of the text. -/
theorem encodePoints_points (s : String) : encodePoints (points s) = .ok (encode s.toList) := by
  have hgood : (points s).dropWhile (fun n => (character? n).isSome) = [] := by
    refine List.dropWhile_eq_nil_iff.mpr fun n hn => ?_
    obtain ⟨c, -, rfl⟩ := List.mem_map.mp hn
    rw [character?_toNat]
    rfl
  have hback : (points s).filterMap character? = s.toList := by
    have hid : character? ∘ Char.toNat = some := funext character?_toNat
    rw [points, List.filterMap_map, hid, List.filterMap_some]
  simp only [encodePoints]
  rw [hgood, hback]

/-- Code points have no bytes exactly if one of them is no character. -/
theorem exists_encodePoints_error_iff {ps : List Nat} :
    (∃ f, encodePoints ps = .error f) ↔ ∃ n ∈ ps, character? n = none := by
  simp only [encodePoints]
  cases hrest : ps.dropWhile fun n => (character? n).isSome with
  | nil =>
    refine iff_of_false nofun ?_
    rintro ⟨n, hn, hnone⟩
    have hsome := List.dropWhile_eq_nil_iff.mp hrest n hn
    rw [hnone] at hsome
    cases hsome
  | cons p rest =>
    refine iff_of_true ⟨_, rfl⟩ ?_
    by_contra hall
    have hnil : ps.dropWhile (fun n => (character? n).isSome) = [] :=
      List.dropWhile_eq_nil_iff.mpr fun n hn => by
        rw [Option.isSome_iff_ne_none]
        exact fun hnone => hall ⟨n, hn, hnone⟩
    rw [hrest] at hnil
    cases hnil

end GnLang.Text.Utf8
