/-
JSON texts as they are written.

With any indent and at any level, `Json.write` spells the value that it writes, and it uses no
character but those of ASCII: `prints_write`.

* `prints_escape` — a character, by itself or by one of its escapes;
* `prints_quoted`, `prints_int` — strings and integers;
* `prints_intercalate` — what stands between brackets, from the texts of its parts.
-/
import Mathlib.Data.List.Forall2
import Mathlib.Tactic.SplitIfs
import GnLang.Proofs.Json.Grammar
import GnLang.Proofs.Text.Ascii
import GnLang.Proofs.Text.Numeral

namespace GnLang.Json

open Text

/-! ### Characters -/

/-- The characters spell one character of a string, in ASCII. -/
structure PrintsChar (cs : List Char) (c : Char) : Prop where
  spells : SpellsChar cs c
  isAscii : ∀ d ∈ cs, d.toNat < 128

theorem printsChar_short {e c : Char} (h : shortEscape? e = some c) (he : e.toNat < 128) :
    PrintsChar ['\\', e] c :=
  ⟨.short h, by simpa using he⟩

theorem hexValue?_digitChar : ∀ n < 16, hexValue? (Nat.digitChar n) = some n := by decide

theorem isUnit_hex {n : Nat} (h : n < 0x10000) : IsUnit (hex 4 n) n := by
  have hdigit (m : Nat) : hexValue? (Nat.digitChar (m % 16)) = some (m % 16) :=
    hexValue?_digitChar _ (Nat.mod_lt _ (by decide))
  have hunit := IsUnit.digits (hdigit (n / 16 / 16 / 16)) (hdigit (n / 16 / 16)) (hdigit (n / 16))
    (hdigit n)
  have hn : ((n / 16 / 16 / 16 % 16 * 16 + n / 16 / 16 % 16) * 16 + n / 16 % 16) * 16 + n % 16 =
      n := by omega
  rwa [hn] at hunit

theorem lt_of_mem_hex {width n : Nat} : ∀ c ∈ hex width n, c.toNat < 128 := by
  have hdigit : ∀ m < 16, (Nat.digitChar m).toNat < 128 := by decide
  induction width generalizing n with
  | zero => exact fun _ hc => by cases hc
  | succ width ih =>
    rw [hex, List.forall_mem_append]
    exact ⟨ih, List.forall_mem_singleton.mpr (hdigit _ (Nat.mod_lt _ (by decide)))⟩

theorem lt_of_mem_unit {n : Nat} : ∀ c ∈ unit n, c.toNat < 128 := by
  rw [unit, List.forall_mem_cons, List.forall_mem_cons]
  exact ⟨by decide, by decide, lt_of_mem_hex⟩

/-- A character that has one unit. -/
theorem printsChar_unit {c : Char} (h : c.toNat < 0x10000) : PrintsChar (unit c.toNat) c := by
  have hscalar : IsScalar c.toNat := by
    rcases c.valid with h | ⟨h, -⟩
    · exact .inl h
    · exact .inr h
  have hspells := SpellsChar.unit (isUnit_hex h) hscalar
  rw [Char.ofNat_toNat] at hspells
  exact ⟨hspells, lt_of_mem_unit⟩

/-- A character that has two units. -/
theorem printsChar_pair {c : Char} (h : 0x10000 ≤ c.toNat) :
    PrintsChar (unit (0xd800 + (c.toNat - 0x10000) / 0x400) ++
      unit (0xdc00 + (c.toNat - 0x10000) % 0x400)) c := by
  have hlt : c.toNat < 0x110000 := by
    rcases c.valid with hc | ⟨-, hc⟩
    · exact Nat.lt_trans hc (by decide)
    · exact hc
  obtain ⟨m, hm⟩ : ∃ m, m = (c.toNat - 0x10000) / 0x400 := ⟨_, rfl⟩
  obtain ⟨n, hn⟩ : ∃ n, n = (c.toNat - 0x10000) % 0x400 := ⟨_, rfl⟩
  have hvalue : ofPair (0xd800 + m) (0xdc00 + n) = c := by
    have : 0x10000 + (0xd800 + m - 0xd800) * 0x400 + (0xdc00 + n - 0xdc00) = c.toNat := by omega
    rw [ofPair, this, Char.ofNat_toNat]
  have hspells := SpellsChar.pair
    (isUnit_hex (show 0xd800 + m < 0x10000 by omega)) ⟨by omega, by omega⟩
    (isUnit_hex (show 0xdc00 + n < 0x10000 by omega)) ⟨by omega, by omega⟩
  rw [hvalue] at hspells
  rw [← hm, ← hn]
  exact ⟨hspells, List.forall_mem_append.mpr ⟨lt_of_mem_unit, lt_of_mem_unit⟩⟩

theorem prints_escape (c : Char) : PrintsChar (escape c) c := by
  unfold escape
  split
  case isTrue h =>
    rcases h with rfl | rfl
    · exact printsChar_short rfl (by decide)
    · exact printsChar_short rfl (by decide)
  case isFalse hplain =>
    obtain ⟨hquote, hbackslash⟩ := not_or.mp hplain
    split_ifs with hn hr ht hb hf hprint hunit
    · exact printsChar_short (by rw [hn]; rfl) (by decide)
    · exact printsChar_short (by rw [hr]; rfl) (by decide)
    · exact printsChar_short (by rw [ht]; rfl) (by decide)
    · exact printsChar_short (by rw [hb]; rfl) (by decide)
    · exact printsChar_short (by rw [hf]; rfl) (by decide)
    · exact ⟨.plain hquote hbackslash hprint.1,
        List.forall_mem_singleton.mpr (Nat.lt_succ_of_lt hprint.2)⟩
    · exact printsChar_unit hunit
    · exact printsChar_pair (Nat.le_of_not_lt hunit)

/-! ### Strings and integers -/

/-- The text spells the form, in ASCII. -/
structure Prints (φ : Form) (s : String) : Prop where
  spells : Spells φ s.toList
  isAscii : IsAscii s

theorem spellsChars_flatMap (s : List Char) : SpellsChars (s.flatMap escape) s := by
  induction s with
  | nil => exact .nil
  | cons c s ih =>
    rw [List.flatMap_cons]
    exact .cons (prints_escape c).spells ih

theorem toList_quoted (s : String) :
    (quoted s).toList = '"' :: (s.toList.flatMap escape ++ ['"']) := by
  simp [quoted]

theorem isAscii_quoted (s : String) : IsAscii (quoted s) := by
  rw [IsAscii, toList_quoted, List.forall_mem_cons, List.forall_mem_append,
    List.forall_mem_flatMap, List.forall_mem_singleton]
  exact ⟨by decide, fun c _ => (prints_escape c).isAscii, by decide⟩

theorem prints_quoted (s : String) : Prints (.value (.str s)) (quoted s) := by
  refine ⟨?_, isAscii_quoted s⟩
  rw [toList_quoted]
  exact .str (spellsChars_flatMap s.toList)

/-- Only the numeral of zero begins with a zero. -/
theorem toDigits_of_head?_eq (n : Nat) (h : (Nat.toDigits 10 n).head? = some '0') :
    Nat.toDigits 10 n = ['0'] := by
  by_cases hn : n < 10
  · rw [Nat.toDigits_of_lt_base hn] at h ⊢
    exact congrArg (fun c => [c]) (Option.some.inj h)
  · have hdigits := Nat.toDigits_of_base_le (show 1 < 10 by decide) (Nat.le_of_not_lt hn)
    rw [hdigits, List.head?_append, Option.or_of_isSome
      (List.isSome_head?.mpr Nat.toDigits_ne_nil)] at h
    -- the digits but the last are those of a tenth of the number, which is not zero
    have hzero := congrArg (Nat.ofDigitChars 10 · 0) (toDigits_of_head?_eq (n / 10) h)
    rw [Nat.ofDigitChars_ten_toDigits] at hzero
    have : n / 10 = 0 := hzero
    omega

theorem spellsNat_toString (n : Nat) : SpellsNat (toString n).toList n := by
  have hdigits : (toString n).toList = Nat.toDigits 10 n := Nat.toList_repr
  obtain ⟨hne, hdigit, hvalue⟩ := numeral_toString n
  refine ⟨hne, hdigit, fun hzero => ?_, hvalue⟩
  rw [hdigits] at hzero ⊢
  exact toDigits_of_head?_eq n hzero

theorem isAscii_natToString (n : Nat) : IsAscii (toString n) := fun _ hc =>
  Nat.lt_of_le_of_lt (toNat_of_isDigit ((numeral_toString n).isDigit _ hc)).2 (by decide)

theorem prints_int (v : Int) : Prints (.value (.int v)) (toString v) := by
  rw [Int.toString_eq_repr, Int.repr_eq_if]
  split
  case isTrue hv =>
    obtain ⟨n, rfl⟩ := Int.eq_ofNat_of_zero_le hv
    exact ⟨.nonneg (spellsNat_toString n), isAscii_natToString n⟩
  case isFalse hv =>
    obtain ⟨n, rfl⟩ : ∃ n : Nat, v = -n := ⟨(-v).toNat, by omega⟩
    rw [Int.neg_neg]
    refine ⟨?_, IsAscii.append (by decide) (isAscii_natToString n)⟩
    rw [String.toList_append]
    exact .negative (spellsNat_toString n)

/-! ### Blanks -/

theorem IsBlanks.isAscii {s : String} (h : IsBlanks s.toList) : IsAscii s := by
  intro c hc
  have hblank := h c hc
  simp only [isBlank, Bool.or_eq_true, decide_eq_true_eq] at hblank
  rcases hblank with ((rfl | rfl) | rfl) | rfl <;> decide

theorem isBlanks_lineBreak (indent : Option Nat) (level : Nat) :
    IsBlanks (lineBreak indent level).toList := by
  cases indent with
  | none => exact fun _ hc => by cases hc
  | some width =>
    rw [lineBreak, IsBlanks, String.toList_append, toList_pushn, List.forall_mem_append]
    refine ⟨List.forall_mem_singleton.mpr rfl, fun c hc => ?_⟩
    rw [List.eq_of_mem_replicate hc]
    rfl

theorem separator_eq (indent : Option Nat) (level : Nat) :
    ∃ g, separator indent level = "," ++ g ∧ IsBlanks g.toList := by
  cases indent with
  | none => exact ⟨" ", rfl, by decide⟩
  | some width => exact ⟨_, rfl, isBlanks_lineBreak _ _⟩

/-! ### Arrays and objects -/

/-- What stands between brackets, if `one` is the form of a part and `many` that of the
whole. -/
theorem prints_intercalate {α : Type} {one : α → Form} {many : List α → Form}
    (hlast : ∀ {x cs g g'}, IsBlanks g → Spells (one x) cs → IsBlanks g' →
      Spells (many [x]) (g ++ (cs ++ g')))
    (hmore : ∀ {x xs cs ds g g'}, IsBlanks g → Spells (one x) cs → IsBlanks g' →
      Spells (many xs) ds → Spells (many (x :: xs)) (g ++ (cs ++ (g' ++ ',' :: ds))))
    {xs : List α} {texts : List String} (h : List.Forall₂ (fun x t => Prints (one x) t) xs texts)
    (hne : xs ≠ []) {before gap after : String} (hbefore : IsBlanks before.toList)
    (hgap : IsBlanks gap.toList) (hafter : IsBlanks after.toList) :
    Prints (many xs) (before ++ ("," ++ gap).intercalate texts ++ after) := by
  induction h generalizing before with
  | nil => exact absurd rfl hne
  | @cons x t xs texts hx hxs ih =>
    cases hxs with
    | nil =>
      rw [String.intercalate_singleton]
      refine ⟨?_, (hbefore.isAscii.append hx.isAscii).append hafter.isAscii⟩
      rw [String.toList_append, String.toList_append, List.append_assoc]
      exact hlast hbefore hx.spells hafter
    | cons hy hys =>
      have hrest := ih (by simp) hgap
      have htext (rest : String) : before ++ (t ++ ("," ++ gap) ++ rest) ++ after =
          before ++ (t ++ ("," ++ (gap ++ rest ++ after))) := by
        simp only [String.append_assoc]
      rw [String.intercalate_cons_cons, htext]
      refine ⟨?_, hbefore.isAscii.append
        (hx.isAscii.append (IsAscii.append (by decide) hrest.isAscii))⟩
      rw [String.toList_append, String.toList_append, String.toList_append]
      simpa using hmore hbefore hx.spells isBlanks_nil hrest.spells

theorem prints_arr {vs : List Json} {s : String} (h : Prints (.items vs) s) :
    Prints (.value (.arr vs)) ("[" ++ s ++ "]") := by
  refine ⟨?_, (IsAscii.append (by decide) h.isAscii).append (by decide)⟩
  rw [String.toList_append, String.toList_append]
  exact .arr h.spells

theorem prints_obj {fs : List (String × Json)} {s : String} (h : Prints (.fields fs) s) :
    Prints (.value (.obj fs)) ("\x7b" ++ s ++ "\x7d") := by
  refine ⟨?_, (IsAscii.append (by decide) h.isAscii).append (by decide)⟩
  rw [String.toList_append, String.toList_append]
  exact .obj h.spells

theorem prints_field {v : Json} {s : String} (key : String) (h : Prints (.value v) s) :
    Prints (.field key v) (quoted key ++ ": " ++ s) := by
  refine ⟨?_, ((isAscii_quoted key).append (by decide)).append h.isAscii⟩
  rw [String.toList_append, String.toList_append, toList_quoted]
  have hblank : IsBlanks [' '] := by decide
  simpa using Spells.field (spellsChars_flatMap key.toList) isBlanks_nil hblank h.spells

mutual

/-- What is written spells the value. -/
theorem prints_write (indent : Option Nat) (level : Nat) (v : Json) :
    Prints (.value v) (write indent level v) := by
  obtain ⟨gap, hseparator, hgap⟩ := separator_eq indent (level + 1)
  have hbefore := isBlanks_lineBreak indent (level + 1)
  have hafter := isBlanks_lineBreak indent level
  cases v with
  | null =>
    rw [write]
    exact ⟨.null, by decide⟩
  | int v => exact prints_int v
  | str s => exact prints_quoted s
  | arr vs =>
    cases vs with
    | nil =>
      rw [write, if_pos List.isEmpty_nil]
      exact ⟨.emptyArr isBlanks_nil, by decide⟩
    | cons v vs =>
      have hitems := prints_arr (prints_intercalate .lastItem .item
        (prints_writeItems indent (level + 1) (v :: vs)) (by simp) hbefore hgap hafter)
      rw [write, if_neg (by simp), hseparator]
      simpa only [String.append_assoc] using hitems
  | obj fs =>
    cases fs with
    | nil =>
      rw [write, if_pos List.isEmpty_nil]
      exact ⟨.emptyObj isBlanks_nil, by decide⟩
    | cons f fs =>
      have hfields := prints_obj (prints_intercalate .lastField .fields
        (prints_writeFields indent (level + 1) (f :: fs)) (by simp) hbefore hgap hafter)
      rw [write, if_neg (by simp), hseparator]
      simpa only [String.append_assoc] using hfields
  termination_by structural v

theorem prints_writeItems (indent : Option Nat) (level : Nat) (vs : List Json) :
    List.Forall₂ (fun v t => Prints (.value v) t) vs (writeItems indent level vs) := by
  cases vs with
  | nil => exact .nil
  | cons v vs => exact .cons (prints_write indent level v) (prints_writeItems indent level vs)
  termination_by structural vs

theorem prints_writeFields (indent : Option Nat) (level : Nat) (fs : List (String × Json)) :
    List.Forall₂ (fun f t => Prints (.field f.1 f.2) t) fs (writeFields indent level fs) := by
  cases fs with
  | nil => exact .nil
  | cons f fs =>
    obtain ⟨key, v⟩ := f
    exact .cons (prints_field key (prints_write indent level v))
      (prints_writeFields indent level fs)
  termination_by structural fs

end

end GnLang.Json
