/-
Integer literals, at every length.

A numeral stands for a number, however long it is and however many zeros it begins with.
`literal v written p` is what should become of the number `v`: an integer literal if 64 bits
hold it, and if not, a failure that quotes it as it is written.

* `integer_digits`, `integer_sub` — the rule for integers says just that;
* `readExpression_digits`, `readExpression_sub` — and so does reading a text that is a
  numeral, or a minus sign and a numeral with blanks and comments between them;
* `readExpression_numeral` — all of this, and that a literal is read from its own text.
-/
import Mathlib.Algebra.Group.Int.Defs
import GnLang.Format.Layout
import GnLang.Proofs.Format.Writes
import GnLang.Proofs.Read

namespace GnLang

open Grammar Rule Scan Token

namespace Node

/-- The number has no more than 64 bits, one of them for its sign. -/
def IsInt64 (v : Int) : Prop := -2 ^ 63 ≤ v ∧ v ≤ 2 ^ 63 - 1

instance (v : Int) : Decidable (IsInt64 v) :=
  inferInstanceAs (Decidable (-2 ^ 63 ≤ v ∧ v ≤ 2 ^ 63 - 1))

theorem fitsInteger_iff {v : Int} : fitsInteger v = true ↔ IsInt64 v := by
  rw [fitsInteger, minInteger, maxInteger, IsInt64, Bool.and_eq_true, decide_eq_true_iff,
    decide_eq_true_iff]
  omega

end Node

namespace Grammar

variable {s : Setting} {w : String} {n : Nat} {p q : Pos}

/-- The number at `p` as a literal, or that it has too many bits, as it is written. -/
def literal (v : Int) (written : String) (p : Pos) : Except Failure Node :=
  if Node.IsInt64 v then .ok (.integer v p)
  else .error (.parse ⟨.mismatch "64-bit integer" written, p⟩)

theorem literal_of_isInt64 {v : Int} (h : Node.IsInt64 v) (written : String) (p : Pos) :
    literal v written p = .ok (.integer v p) := if_pos h

/-- Dropping leading zeros and counting digits decide nothing that the number itself would
not decide. -/
theorem integerOf_eq_literal (hw : Text.Numeral w n) (negative : Bool) (p : Pos) :
    integerOf negative p w =
      literal (if negative then -(n : Int) else n) (if negative then "-" ++ w else w) p := by
  rw [integerOf_eq hw, literal]
  simp only [Node.fitsInteger_iff]

theorem unsigned_digits (hw : Text.Numeral w n) (negative : Bool) (ts : List Token) :
    unsigned s negative p (digits w q :: ts) =
      (literal (if negative then -(n : Int) else n) (if negative then "-" ++ w else w) p, ts) := by
  have hexpect : expect s [.number] "integer literal" (digits w q :: ts) = (.ok (digits w q), ts) :=
    expect_cons s (t := digits w q) (by simp [digits]) _ ts
  rw [unsigned, bind_of_ok hexpect, Rule.answer]
  exact congrArg (·, ts) (integerOf_eq_literal hw negative p)

/-- A numeral is made into the number it stands for. -/
theorem integer_digits (hw : Text.Numeral w n) (ts : List Token) :
    integer s (digits w p :: ts) = (literal n w p, ts) := by
  rw [integer_cons, if_neg (by simp [digits])]
  exact unsigned_digits hw false ts

/-- A numeral after a minus sign is made into the opposite of the number it stands for, at the
sign. -/
theorem integer_sub (hw : Text.Numeral w n) (ts : List Token) :
    integer s (mark .sub p :: digits w q :: ts) = (literal (-n) ("-" ++ w) p, ts) := by
  rw [integer_cons, if_pos (by rfl)]
  exact unsigned_digits hw true ts

/-- An operand up to the end of the input is all there is to an expression. -/
theorem loneExpression_of_unary {d : Nat} {ts : List Token} {e : Token}
    {answer : Except Failure Node} (h : unary s (insideOf s d) ts = (answer, [e]))
    (he : e.kind = .endOfInput) : (loneExpression s d ts).1 = answer := by
  cases answer with
  | error f =>
    have hfails : expression s (insideOf s d) ts = (.error f, [e]) := by
      rw [expression_eq]
      exact bind_of_error h
    rw [loneExpression, bind_of_error hfails]
  | ok x =>
    have hstops : chainAt s d x [e] = (.ok x, [e]) :=
      chainAt_eq_ok.mpr (.inl ⟨by rw [front_cons, he]; rfl, rfl, rfl⟩)
    have hreads : loneExpression s d ts = (.ok x, [e]) :=
      loneExpression_eq_ok.mpr ⟨expression_eq_ok.mpr ⟨x, [e], h, hstops⟩, he⟩
    rw [hreads]

/-- Where an integer may begin, no other operand begins. -/
theorem loneExpression_of_integer {d : Nat} {t : Token} {ts : List Token} {p : Pos}
    {answer : Except Failure Node} (ht : t.kind = .number ∨ t.kind = .symbol .sub)
    (h : integer s (t :: ts) = (answer, [.endAt p])) :
    (loneExpression s d (t :: ts)).1 = answer := by
  have hunary : unary s (insideOf s d) (t :: ts) = integer s (t :: ts) := by
    rcases ht with ht | ht
    · rw [unary_cons, ht, if_neg (by decide), primary_cons, ht]
    · rw [unary_cons, ht, if_neg (by decide), primary_cons, ht]
  exact loneExpression_of_unary (hunary.trans h) rfl

end Grammar

/-! ### Texts -/

variable {w : String} {n : Nat} {limit : Int}

theorem readExpression_digits (hw : Text.Numeral w n) (hlimit : IsLimit limit) :
    readExpression w limit = literal n w .start := by
  have hts := scanTokens_of_spells (spells_digits (p := .start) hw) (by simp [Clear])
  rw [readExpression_eq hlimit hts]
  exact loneExpression_of_integer (.inl rfl) (integer_digits hw [.endAt _])

/-- A gap never begins with '='. -/
theorem IsGap.notEquals {rest g : List Char} (hg : IsGap rest g) (hrest : NotEquals rest) :
    NotEquals (g ++ rest) := by
  cases hg with
  | nil => exact hrest
  | blank hc _ =>
    rintro e ⟨⟩ rfl
    exact absurd hc (by decide)
  | comment _ _ _ =>
    rintro e ⟨⟩
    decide

theorem scanTokens_sub (hw : Text.Numeral w n) {g : List Char} (hg : IsGap w.toList g) :
    ∃ p q, scanTokens ("-" ++ String.ofList g ++ w) =
      .ok [mark .sub .start, digits w p, .endAt q] := by
  -- the numeral is the longest lexeme at the end of the text, and so is the sign before it
  let p := (Pos.start.next '-').after g
  have hnumeral : (digits w p).IsLongest [] := .digits hw nofun
  have hequals : NotEquals (g ++ w.toList) := by
    refine hg.notEquals ?_
    have := (Format.opens_digits hw).notEquals []
    rwa [List.append_nil] at this
  have hsign : (mark .sub .start).IsLongest (g ++ w.toList) :=
    .mark (symbolAt?_eq_some.mp (symbolAt?_append fun _ => hequals)).2
  have hend : ∀ q, Yields ⟨q, []⟩ [.endAt q] := fun q => .last rfl rfl
  have htail := Yields.cons_of_gap (p := Pos.start.next '-') (g := g)
    (by rwa [chars_digits, List.append_nil]) rfl hnumeral (hend _)
  rw [chars_digits, List.append_nil] at htail
  refine ⟨p, p.after w.toList, scanTokens_eq_ok.mpr ?_⟩
  rw [ofString, String.toList_append, String.toList_append, String.toList_ofList (l := g),
    List.append_assoc]
  exact Yields.cons_of_isLongest hsign htail

theorem readExpression_sub (hw : Text.Numeral w n) (hlimit : IsLimit limit) {g : List Char}
    (hg : IsGap w.toList g) :
    readExpression ("-" ++ String.ofList g ++ w) limit = literal (-n) ("-" ++ w) .start := by
  obtain ⟨p, q, hts⟩ := scanTokens_sub hw hg
  rw [readExpression_eq hlimit hts]
  exact loneExpression_of_integer (.inr rfl) (integer_sub hw [.endAt q])

/-- The text of a number of 64 bits is read as the number. -/
theorem readExpression_toString (hlimit : IsLimit limit) {v : Int} (hv : Node.IsInt64 v) :
    readExpression (toString v) limit = .ok (.integer v .start) := by
  rw [Int.toString_eq_repr, Int.repr_eq_if]
  by_cases hpos : 0 ≤ v
  · obtain ⟨n, rfl⟩ := Int.eq_ofNat_of_zero_le hpos
    rw [if_pos hpos]
    exact (readExpression_digits (Text.numeral_toString n) hlimit).trans
      (literal_of_isInt64 hv _ _)
  · obtain ⟨n, rfl⟩ : ∃ n : Nat, v = -n := ⟨v.natAbs, by omega⟩
    rw [if_neg hpos, Int.neg_neg]
    exact (readExpression_sub (Text.numeral_toString n) hlimit .nil).trans
      (literal_of_isInt64 hv _ _)

/-- A numeral of any length is read as the number it stands for if that has 64 bits, and is
otherwise refused as it is written.  So it is after a minus sign, with whatever blanks and
comments between the two, and the place is then that of the sign.  The text of any number of 64
bits is read as that number. -/
theorem readExpression_numeral (hw : Text.Numeral w n) (hlimit : IsLimit limit) :
    (∀ s p q ts, integer s (digits w p :: ts) = (literal n w p, ts) ∧
      integer s (mark .sub p :: digits w q :: ts) = (literal (-n) ("-" ++ w) p, ts)) ∧
    readExpression w limit = literal n w .start ∧
    (∀ g, IsGap w.toList g →
      readExpression ("-" ++ String.ofList g ++ w) limit = literal (-n) ("-" ++ w) .start) ∧
    ∀ v p depth, Node.IsInt64 v → ∃ text, Format.layout depth (.integer v p) = .ok text ∧
      readExpression text limit = .ok (.integer v .start) := by
  refine ⟨fun s p q ts => ⟨integer_digits hw ts, integer_sub hw ts⟩,
    readExpression_digits hw hlimit, fun g hg => readExpression_sub hw hlimit hg, ?_⟩
  intro v p depth hv
  exact ⟨toString v, rfl, readExpression_toString hlimit hv⟩

/-- The one number of 19 digits that has 64 bits only after a minus sign, here with zeros in
front and a comment after the sign. -/
theorem readExpression_numeral_leading_zeros :
    readExpression "0009223372036854775808" 1 = .error (.parse
        ⟨.mismatch "64-bit integer" "0009223372036854775808", ⟨1, 1⟩⟩) ∧
      readExpression "- # least\n0009223372036854775808" 1 =
        .ok (.integer (-9223372036854775808) ⟨1, 1⟩) := by
  have hw : Text.Numeral "0009223372036854775808" 9223372036854775808 :=
    ⟨by decide, List.all_eq_true.mp rfl, by decide⟩
  have hg : IsGap "0009223372036854775808".toList [' ', '#', ' ', 'l', 'e', 'a', 's', 't', '\n'] :=
    .blank (by decide) (@IsGap.comment _ [' ', 'l', 'e', 'a', 's', 't'] ['\n'] (by decide)
      (by simp) (.blank (by decide) .nil))
  have hlimit : IsLimit 1 := by decide
  obtain ⟨-, hplain, hsigned, -⟩ := readExpression_numeral hw hlimit
  refine ⟨hplain.trans (if_neg (by decide)), ?_⟩
  exact (congrArg (readExpression · 1) (by decide)).trans
    ((hsigned _ hg).trans (literal_of_isInt64 (by decide) _ _))

end GnLang
