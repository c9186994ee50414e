/-
What a numeral of ASCII digits stands for.

`Numeral` says what the text of a number token may be and which number it stands for:
the digits are read in base ten, leading zeros and all.

* `readInt?_of_isDigit` — the reader of integers agrees on such texts;
* `integerOf_eq` — so does the grammar: dropping leading zeros and refusing more than
  nineteen digits are only shortcuts to the comparison with the least and the greatest
  integer;
* `numeral_toString` — a number that is written out is a numeral for it.
-/
import Mathlib.Algebra.Group.Nat.Defs
import GnLang.Proofs.Grammar.Run

namespace GnLang

namespace Text

/-- `text` is a run of ASCII digits that stands for `n`. -/
structure Numeral (text : String) (n : Nat) : Prop where
  ne_nil : text.toList ≠ []
  isDigit : ∀ c ∈ text.toList, c.isDigit
  value : Nat.ofDigitChars 10 text.toList 0 = n

theorem toNat_of_isDigit {c : Char} (h : c.isDigit) : 48 ≤ c.toNat ∧ c.toNat ≤ 57 := by
  simpa [Char.isDigit, UInt32.le_iff_toNat_le] using h

theorem digitValue?_of_isDigit {c : Char} (h : c.isDigit) :
    digitValue? c = some (c.toNat - 48) := by
  have := toNat_of_isDigit h
  have hz : (48 ≤ c.toNat && c.toNat < 48 + 10) = true := by
    simp only [Bool.and_eq_true, decide_eq_true_eq]
    omega
  simp [digitValue?, digitZeros, hz]

theorem digitValues?_of_isDigit {cs : List Char} (hne : cs ≠ [])
    (h : ∀ c ∈ cs, c.isDigit) : digitValues? cs = some (cs.map fun c => c.toNat - 48) := by
  induction cs with
  | nil => exact absurd rfl hne
  | cons c cs ih =>
    have hc := digitValue?_of_isDigit (h c (by simp))
    cases cs with
    | nil => simp [digitValues?, hc]
    | cons d cs =>
      -- digits may be read with underscores between them, which is a case of its own
      have hd : d ≠ '_' := by
        rintro rfl
        exact absurd (h '_' (by simp)) (by decide)
      have := ih (by simp) fun c hc => h c (List.mem_cons_of_mem _ hc)
      rw [digitValues?]
      · simp [hc, this]
      · simp
      · intro ds hds
        exact hd (List.cons.inj hds).1

theorem ofDigits_map (cs : List Char) :
    ofDigits (cs.map fun c => c.toNat - 48) = Nat.ofDigitChars 10 cs 0 := by
  rw [ofDigits, List.foldl_map, Nat.ofDigitChars_eq_foldl]
  congr 1
  funext n c
  rw [Nat.mul_comm n 10]
  rfl

/-! ### No digit is taken for something else -/

theorem isMargin_of_isDigit {c : Char} (h : c.isDigit) : isMargin c = false := by
  have := toNat_of_isDigit h
  have hspace : isSpace c = false := by
    simp only [isSpace, spaces, CharSet.contains, List.any_cons, List.any_nil, Bool.or_false,
      Bool.or_eq_false_iff, Bool.and_eq_false_iff, decide_eq_false_iff_not]
    omega
  simp [isMargin, hspace]

theorem dropWhile_isMargin {cs : List Char} (h : ∀ c ∈ cs, c.isDigit) :
    cs.dropWhile isMargin = cs := by
  cases cs with
  | nil => rfl
  | cons c cs => simp [isMargin_of_isDigit (h c (by simp))]

theorem trimBy_isMargin {cs : List Char} (h : ∀ c ∈ cs, c.isDigit) :
    trimBy isMargin cs = cs := by
  rw [trimBy, dropWhile_isMargin h, dropWhile_isMargin fun c hc => h c (List.mem_reverse.mp hc),
    List.reverse_reverse]

theorem readNat?_of_isDigit {cs : List Char} (hne : cs ≠ []) (h : ∀ c ∈ cs, c.isDigit)
    (hlen : cs.length ≤ maxDigits) : readNat? cs = some (Nat.ofDigitChars 10 cs 0) := by
  simp [readNat?, digitValues?_of_isDigit hne h, hlen, ofDigits_map]

theorem readInt?_of_isDigit {cs : List Char} (hne : cs ≠ []) (h : ∀ c ∈ cs, c.isDigit)
    (hlen : cs.length ≤ maxDigits) :
    readInt? (String.ofList cs) = some (Nat.ofDigitChars 10 cs 0 : Int) := by
  rw [readInt?, String.toList_ofList, trimBy_isMargin h]
  split
  · exact absurd (h '-' (by simp)) (by decide)
  · exact absurd (h '+' (by simp)) (by decide)
  · -- neither sign is a digit, so the digits are read as they stand
    rw [readNat?_of_isDigit hne h hlen]
    rfl

/-! ### Leading zeros and long numerals -/

theorem ofDigitChars_dropWhile (cs : List Char) :
    Nat.ofDigitChars 10 (cs.dropWhile (· = '0')) 0 = Nat.ofDigitChars 10 cs 0 := by
  induction cs with
  | nil => rfl
  | cons c cs ih =>
    by_cases hc : c = '0'
    · subst hc
      rw [List.dropWhile_cons_of_pos (by simp), ih, Nat.ofDigitChars_cons]
      rfl
    · rw [List.dropWhile_cons_of_neg (by simpa using hc)]

/-- A numeral that does not begin with a zero is at least the power of ten with as many
digits. -/
theorem pow_le_ofDigitChars {c : Char} {cs : List Char} (hc : c.isDigit) (h0 : c ≠ '0') :
    10 ^ cs.length ≤ Nat.ofDigitChars 10 (c :: cs) 0 := by
  have hpos : 1 ≤ c.toNat - '0'.toNat := by
    have := toNat_of_isDigit hc
    have : c.toNat ≠ 48 := fun h => h0 (Char.toNat_inj.mp h)
    show 1 ≤ c.toNat - 48
    omega
  rw [Nat.ofDigitChars_cons, Nat.ofDigitChars_eq_ofDigitChars_zero]
  calc 10 ^ cs.length = 10 ^ cs.length * 1 := (Nat.mul_one _).symm
    _ ≤ 10 ^ cs.length * (10 * 0 + (c.toNat - '0'.toNat)) :=
        Nat.mul_le_mul_left _ (by simpa using hpos)
    _ ≤ _ := Nat.le_add_right _ _

theorem not_fitsInteger_of_long {cs : List Char} (h : ∀ c ∈ cs, c.isDigit)
    (hlen : Grammar.mostDigits < (cs.dropWhile (· = '0')).length) (negative : Bool) :
    Node.fitsInteger (if negative then -(Nat.ofDigitChars 10 cs 0 : Int)
      else Nat.ofDigitChars 10 cs 0) = false := by
  -- twenty digits, the first of which is no zero
  have hlarge : 10 ^ 19 ≤ Nat.ofDigitChars 10 cs 0 := by
    rw [← ofDigitChars_dropWhile]
    cases hd : cs.dropWhile (· = '0') with
    | nil =>
      rw [hd] at hlen
      exact absurd hlen (Nat.not_lt_zero _)
    | cons c ds =>
      have hmem : c ∈ cs := (List.dropWhile_sublist _).subset (hd ▸ List.mem_cons_self)
      have hc0 : c ≠ '0' := by
        have := List.head_dropWhile_not (p := (· = '0')) (l := cs) (by simp [hd])
        simpa [hd] using this
      rw [hd, List.length_cons] at hlen
      calc 10 ^ 19 ≤ 10 ^ ds.length :=
            Nat.pow_le_pow_right (by decide) (Nat.le_of_lt_succ hlen)
        _ ≤ _ := pow_le_ofDigitChars (h c hmem) hc0
  cases negative with
  | false =>
    have : ¬ (Nat.ofDigitChars 10 cs 0 : Int) ≤ Node.maxInteger := by
      rw [Node.maxInteger]
      omega
    simp [Node.fitsInteger, this]
  | true =>
    have : ¬ Node.minInteger ≤ -(Nat.ofDigitChars 10 cs 0 : Int) := by
      rw [Node.minInteger]
      omega
    simp [Node.fitsInteger, this]

theorem numeral_toString (n : Nat) : Numeral (toString n) n := by
  have h : (toString n).toList = Nat.toDigits 10 n := Nat.toList_repr
  refine ⟨?_, ?_, ?_⟩
  · rw [h]
    exact Nat.toDigits_ne_nil
  · rw [h]
    exact fun c hc => Nat.isDigit_of_mem_toDigits (by decide) (by decide) hc
  · rw [h]
    exact Nat.ofDigitChars_ten_toDigits

end Text

namespace Grammar

open Text

/-- Two shortcuts, leading zeros and the number of digits, come before the comparison
with the least and the greatest integer; they change nothing. -/
theorem integerOf_eq {negative : Bool} {p : Pos} {text : String} {n : Nat}
    (h : Numeral text n) :
    integerOf negative p text =
      if Node.fitsInteger (if negative then -(n : Int) else n) then
        .ok (.integer (if negative then -(n : Int) else n) p)
      else .error (.parse
        ⟨.mismatch "64-bit integer" (if negative then "-" ++ text else text), p⟩) := by
  obtain ⟨hne, hdigit, rfl⟩ := h
  rw [integerOf]
  by_cases hlen : mostDigits < (text.toList.dropWhile (· = '0')).length
  · have := not_fitsInteger_of_long hdigit hlen negative
    simp [hlen, this]
  · have hdigits : ∀ c ∈ text.toList.dropWhile (· = '0'), c.isDigit :=
      fun c hc => hdigit c ((List.dropWhile_sublist _).subset hc)
    have hread : readInt? (if (text.toList.dropWhile (· = '0')).isEmpty then "0"
        else String.ofList (text.toList.dropWhile (· = '0'))) =
        some (Nat.ofDigitChars 10 text.toList 0 : Int) := by
      rw [← ofDigitChars_dropWhile]
      split
      · -- nothing is left of a numeral of zeros, and a single zero is read in its place
        rename_i he
        rw [List.isEmpty_iff.mp he]
        decide
      · rename_i he
        refine readInt?_of_isDigit (by simpa using he) hdigits ?_
        exact Nat.le_trans (Nat.le_of_not_lt hlen) (by decide)
    dsimp only
    rw [if_neg hlen, hread]
    dsimp only
    generalize (if negative then -(Nat.ofDigitChars 10 text.toList 0 : Int)
      else Nat.ofDigitChars 10 text.toList 0) = v
    by_cases hfits : Node.fitsInteger v = true
    · rw [if_pos hfits, if_pos hfits, Node.integer?, if_pos hfits]
      rfl
    · rw [if_neg hfits, if_neg hfits]

theorem integerOf_eq_ok {negative : Bool} {p : Pos} {text : String} {n : Nat} {x : Node}
    (h : Numeral text n) :
    integerOf negative p text = .ok x ↔
      Node.fitsInteger (if negative then -(n : Int) else n) ∧
        x = .integer (if negative then -(n : Int) else n) p := by
  rw [integerOf_eq h]
  generalize (if negative then -(n : Int) else n) = v
  by_cases hfits : Node.fitsInteger v = true
  · rw [if_pos hfits, Except.ok.injEq, eq_comm]
    exact (and_iff_right hfits).symm
  · simp [hfits]

end Grammar

end GnLang
