/-
A reader of JSON texts.

`Json.read?` reads a JSON text.  It finds the value of every text that the grammar allows
(`read?_of_isText`), so no text is one of two values (`IsText.unique`).

* `readChar`, `readChars` — the characters of a string, up to the closing quote;
* `readInt` — an integer;
* `readList` — what stands between brackets, up to the closing one, by a reader for its items;
* `readValue` — a value, by a bound on how deep it may be nested.
-/
import GnLang.Proofs.Json.Grammar

namespace GnLang.Json

/-! ### The reader -/

/-- Reads four hexadecimal digits. -/
def readUnit : List Char → Option (Nat × List Char)
  | a :: b :: c :: d :: cs => do
    return (((((← hexValue? a) * 16 + (← hexValue? b)) * 16 + (← hexValue? c)) * 16 +
      (← hexValue? d)), cs)
  | _ => none

/-- Reads the second of two units that belong together. -/
def readPair (high : Nat) : List Char → Option (Char × List Char)
  | '\\' :: 'u' :: cs => do
    let (low, cs) ← readUnit cs
    if IsHigh high ∧ IsLow low then some (ofPair high low, cs) else none
  | _ => none

/-- Reads what stands after a backslash. -/
def readEscape : List Char → Option (Char × List Char)
  | 'u' :: cs => do
    let (n, cs) ← readUnit cs
    if IsScalar n then some (.ofNat n, cs) else readPair n cs
  | e :: cs => (shortEscape? e).map (·, cs)
  | [] => none

/-- Reads one character of a string. -/
def readChar : List Char → Option (Char × List Char)
  | '\\' :: cs => readEscape cs
  | c :: cs => if c ≠ '"' ∧ 0x20 ≤ c.toNat then some (c, cs) else none
  | [] => none

/-- Reads the characters of a string and the quote after them; the bound is on the number of
both. -/
def readChars : Nat → List Char → Option (List Char × List Char)
  | 0, _ => none
  | bound + 1, cs =>
    match readChar cs with
    | some (c, cs) => (readChars bound cs).map fun r => (c :: r.1, r.2)
    | none =>
      match cs with
      | '"' :: cs => some ([], cs)
      | _ => none

/-- Reads a string after its opening quote. -/
def readString (cs : List Char) : Option (String × List Char) :=
  (readChars cs.length cs).map fun r => (.ofList r.1, r.2)

/-- Reads decimal digits. -/
def readNat (cs : List Char) : Option (Nat × List Char) :=
  let digits := cs.takeWhile Char.isDigit
  if digits = [] ∨ digits.head? = some '0' ∧ digits ≠ ['0'] then none
  else some (Nat.ofDigitChars 10 digits 0, cs.dropWhile Char.isDigit)

/-- Reads an integer. -/
def readInt : List Char → Option (Int × List Char)
  | '-' :: cs => (readNat cs).map fun r => (-r.1, r.2)
  | cs => (readNat cs).map fun r => (r.1, r.2)

/-- Leaves out the blanks at the start. -/
def skipBlanks (cs : List Char) : List Char := cs.dropWhile isBlank

/-- Reads items with commas between them and the bracket that closes them; the bound is on
their number. -/
def readList {α : Type} (item : List Char → Option (α × List Char)) (close : Char) :
    Nat → List Char → Option (List α × List Char)
  | 0, _ => none
  | bound + 1, cs => do
    let (x, cs) ← item (skipBlanks cs)
    match skipBlanks cs with
    | ',' :: cs => do
      let (xs, cs) ← readList item close bound cs
      return (x :: xs, cs)
    | c :: cs => if c = close then some ([x], cs) else none
    | [] => none

/-- Reads what stands after an opening bracket. -/
def readBracket {α : Type} (item : List Char → Option (α × List Char)) (close : Char)
    (cs : List Char) : Option (List α × List Char) :=
  match skipBlanks cs with
  | [] => none
  | c :: rest => if c = close then some ([], rest) else readList item close cs.length cs

/-- Reads a field of an object. -/
def readField (value : List Char → Option (Json × List Char)) :
    List Char → Option ((String × Json) × List Char)
  | '"' :: cs => do
    let (key, cs) ← readString cs
    match skipBlanks cs with
    | ':' :: cs => do
      let (v, cs) ← value (skipBlanks cs)
      return ((key, v), cs)
    | _ => none
  | _ => none

/-- Reads a value; the bound is on its depth. -/
def readValue : Nat → List Char → Option (Json × List Char)
  | 0, _ => none
  | _ + 1, 'n' :: 'u' :: 'l' :: 'l' :: cs => some (.null, cs)
  | _ + 1, '"' :: cs => (readString cs).map fun r => (.str r.1, r.2)
  | bound + 1, '[' :: cs =>
    (readBracket (readValue bound) ']' cs).map fun r => (.arr r.1, r.2)
  | bound + 1, '\x7b' :: cs =>
    (readBracket (readField (readValue bound)) '\x7d' cs).map fun r => (.obj r.1, r.2)
  | _ + 1, cs => (readInt cs).map fun r => (.int r.1, r.2)

/-- The value that a JSON text stands for. -/
def read? (text : String) : Option Json :=
  match readValue (text.length + 1) (skipBlanks text.toList) with
  | some (v, rest) => if rest.all isBlank then some v else none
  | none => none

/-! ### Strings -/

theorem readUnit_of_isUnit {cs : List Char} {n : Nat} (h : IsUnit cs n) (rest : List Char) :
    readUnit (cs ++ rest) = some (n, rest) := by
  cases h with
  | digits ha hb hc hd =>
    rw [List.cons_append, List.cons_append, List.cons_append, List.singleton_append, readUnit, ha,
      hb, hc, hd]
    rfl

theorem readChar_of_spellsChar {cs : List Char} {c : Char} (h : SpellsChar cs c)
    (rest : List Char) : readChar (cs ++ rest) = some (c, rest) := by
  cases h with
  | plain hquote hbackslash hc =>
    rw [List.singleton_append, readChar, if_pos ⟨hquote, hc⟩]
    exact hbackslash
  | @short e c he =>
    have hne : e ≠ 'u' := by
      rintro rfl
      cases he
    show readEscape (e :: rest) = _
    rw [readEscape, he]
    · rfl
    · exact hne
  | @unit cs n hn hscalar =>
    show readEscape ('u' :: (cs ++ rest)) = _
    rw [readEscape, readUnit_of_isUnit hn]
    exact if_pos hscalar
  | @pair cs ds m n hm hhigh hn hlow =>
    have hnot : ¬ IsScalar m := by
      unfold IsScalar
      unfold IsHigh at hhigh
      omega
    show readEscape ('u' :: (cs ++ '\\' :: 'u' :: ds ++ rest)) = _
    rw [readEscape, List.append_assoc, readUnit_of_isUnit hm]
    refine (if_neg hnot).trans ?_
    show (do let (low, cs) ← readUnit (ds ++ rest); _) = _
    rw [readUnit_of_isUnit hn]
    exact if_pos ⟨hhigh, hlow⟩

theorem SpellsChar.length_pos {cs : List Char} {c : Char} (h : SpellsChar cs c) :
    0 < cs.length := by
  cases h <;> exact Nat.succ_pos _

theorem readChars_of_spellsChars {cs s : List Char} (h : SpellsChars cs s) (rest : List Char) :
    ∀ {bound}, cs.length < bound → readChars bound (cs ++ '"' :: rest) = some (s, rest) := by
  induction h with
  | nil =>
    intro bound hbound
    obtain ⟨bound, rfl⟩ := Nat.exists_eq_add_of_lt hbound
    rfl
  | @cons cs ds s c hc _ ih =>
    intro bound hbound
    obtain ⟨bound, rfl⟩ : ∃ n, bound = n + 1 := Nat.exists_eq_add_one.mpr (by omega)
    have hpos := hc.length_pos
    rw [List.length_append] at hbound
    rw [List.append_assoc, readChars.eq_def]
    dsimp only
    rw [readChar_of_spellsChar hc]
    dsimp only
    rw [ih (by omega)]
    rfl

theorem readString_of_spellsChars {cs : List Char} {s : String} (h : SpellsChars cs s.toList)
    (rest : List Char) : readString (cs ++ '"' :: rest) = some (s, rest) := by
  have hbound : cs.length < (cs ++ '"' :: rest).length := by simp
  rw [readString, readChars_of_spellsChars h rest hbound, Option.map_some, String.ofList_toList]

/-! ### Integers -/

/-- What may follow a number. -/
def NoDigit (rest : List Char) : Prop := ∀ c ∈ rest.head?, c.isDigit = false

theorem readNat_of_spellsNat {cs rest : List Char} {n : Nat} (h : SpellsNat cs n)
    (hrest : NoDigit rest) : readNat (cs ++ rest) = some (n, rest) := by
  have htake : (cs ++ rest).takeWhile Char.isDigit = cs := by
    rw [List.takeWhile_append_of_pos h.isDigit]
    cases rest with
    | nil => simp
    | cons c rest => simp [hrest c rfl]
  have hdrop : (cs ++ rest).dropWhile Char.isDigit = rest := by
    rw [List.dropWhile_append_of_pos h.isDigit]
    cases rest with
    | nil => rfl
    | cons c rest => simp [hrest c rfl]
  have hok : ¬ (cs = [] ∨ cs.head? = some '0' ∧ cs ≠ ['0']) := by
    rintro (hnil | ⟨hzero, hne⟩)
    · exact h.ne_nil hnil
    · exact hne (h.leading hzero)
  rw [readNat, htake, hdrop, if_neg hok, h.value]

theorem SpellsNat.exists_cons {cs : List Char} {n : Nat} (h : SpellsNat cs n) :
    ∃ c ds, cs = c :: ds ∧ c.isDigit = true := by
  obtain ⟨c, ds, rfl⟩ := List.exists_cons_of_ne_nil h.ne_nil
  exact ⟨c, ds, rfl, h.isDigit c List.mem_cons_self⟩

theorem readInt_of_spellsNat {cs rest : List Char} {n : Nat} (h : SpellsNat cs n)
    (hrest : NoDigit rest) : readInt (cs ++ rest) = some ((n : Int), rest) := by
  obtain ⟨c, ds, rfl, hc⟩ := h.exists_cons
  have hne : c ≠ '-' := by
    rintro rfl
    cases hc
  rw [List.cons_append, readInt, ← List.cons_append, readNat_of_spellsNat h hrest]
  · rfl
  · exact fun _ heq => hne (List.cons.inj heq).1

/-! ### Blanks -/

theorem skipBlanks_append {g : List Char} (hg : IsBlanks g) (rest : List Char) :
    skipBlanks (g ++ rest) = skipBlanks rest :=
  List.dropWhile_append_of_pos hg

theorem skipBlanks_cons {c : Char} (hc : isBlank c = false) (rest : List Char) :
    skipBlanks (c :: rest) = c :: rest := by
  rw [skipBlanks, List.dropWhile_cons, if_neg (by simp [hc])]

theorem noDigit_cons {c : Char} (hc : c.isDigit = false) (rest : List Char) :
    NoDigit (c :: rest) := by
  intro d hd
  cases hd
  exact hc

theorem noDigit_of_isBlank {c : Char} (h : isBlank c) : c.isDigit = false := by
  simp only [isBlank, Bool.or_eq_true, decide_eq_true_eq] at h
  rcases h with ((rfl | rfl) | rfl) | rfl <;> rfl

theorem IsBlanks.noDigit {g rest : List Char} (hg : IsBlanks g) (hrest : NoDigit rest) :
    NoDigit (g ++ rest) := by
  cases g with
  | nil => exact hrest
  | cons c g => exact noDigit_cons (noDigit_of_isBlank (hg c List.mem_cons_self)) _

/-! ### Lists -/

/-- The characters begin with one that is no blank and does not close a list. -/
def StartsItem (close : Char) (cs : List Char) : Prop :=
  ∃ c ds, cs = c :: ds ∧ isBlank c = false ∧ c ≠ close

section

variable {α : Type} {item : List Char → Option (α × List Char)} {close : Char} {bound : Nat}
  {x : α} {xs : List α} {cs ds g g' rest : List Char}

theorem readList_last (hclose : isBlank close = false) (hcomma : close ≠ ',') (hg : IsBlanks g)
    (hcs : StartsItem close cs) (hg' : IsBlanks g')
    (hitem : item (cs ++ (g' ++ close :: rest)) = some (x, g' ++ close :: rest)) :
    readList item close (bound + 1) (g ++ (cs ++ g') ++ close :: rest) = some ([x], rest) := by
  obtain ⟨c, ds, rfl, hc, -⟩ := hcs
  have hskip : skipBlanks (g ++ (c :: ds ++ g') ++ close :: rest) =
      c :: ds ++ (g' ++ close :: rest) := by
    rw [List.append_assoc, skipBlanks_append hg, List.append_assoc, List.cons_append,
      skipBlanks_cons hc]
  rw [readList, hskip, hitem]
  show (match skipBlanks (g' ++ close :: rest) with
    | ',' :: cs => _
    | c :: cs => _
    | [] => _) = _
  rw [skipBlanks_append hg', skipBlanks_cons hclose]
  split
  · rename_i heq
    exact absurd (List.cons.inj heq).1 hcomma
  · rename_i heq
    obtain ⟨rfl, rfl⟩ := List.cons.inj heq
    exact if_pos rfl
  · rename_i heq
    cases heq

theorem readList_more (hg : IsBlanks g) (hcs : StartsItem close cs) (hg' : IsBlanks g')
    (hitem : item (cs ++ (g' ++ ',' :: (ds ++ close :: rest))) =
      some (x, g' ++ ',' :: (ds ++ close :: rest)))
    (hrest : readList item close bound (ds ++ close :: rest) = some (xs, rest)) :
    readList item close (bound + 1) (g ++ (cs ++ (g' ++ ',' :: ds)) ++ close :: rest) =
      some (x :: xs, rest) := by
  obtain ⟨c, cs, rfl, hc, -⟩ := hcs
  have hskip : skipBlanks (g ++ (c :: cs ++ (g' ++ ',' :: ds)) ++ close :: rest) =
      c :: cs ++ (g' ++ ',' :: (ds ++ close :: rest)) := by
    rw [List.append_assoc, skipBlanks_append hg, List.append_assoc, List.cons_append,
      skipBlanks_cons hc, List.append_assoc, List.cons_append, List.cons_append]
  rw [readList, hskip, hitem]
  show (match skipBlanks (g' ++ ',' :: (ds ++ close :: rest)) with
    | ',' :: cs => _
    | c :: cs => _
    | [] => _) = _
  rw [skipBlanks_append hg', skipBlanks_cons rfl]
  show (do let (xs, cs) ← readList item close bound (ds ++ close :: rest); _) = _
  rw [hrest]
  rfl

theorem readBracket_nil (hclose : isBlank close = false) (hg : IsBlanks g) :
    readBracket item close (g ++ close :: rest) = some ([], rest) := by
  rw [readBracket, skipBlanks_append hg, skipBlanks_cons hclose]
  exact if_pos rfl

theorem readBracket_of_readList (hg : IsBlanks g) (hcs : StartsItem close cs)
    (h : ∀ bound, (g ++ cs).length < bound →
      readList item close bound (g ++ cs ++ close :: rest) = some (xs, rest)) :
    readBracket item close (g ++ cs ++ close :: rest) = some (xs, rest) := by
  have hlist := h (g ++ cs ++ close :: rest).length (by simp)
  obtain ⟨c, ds, rfl, hc, hne⟩ := hcs
  rw [readBracket]
  rw [List.append_assoc] at hlist ⊢
  rw [skipBlanks_append hg, List.cons_append, skipBlanks_cons hc]
  dsimp only
  rw [if_neg hne]
  exact hlist

end

/-! ### Values -/

/-- What the characters of a form begin with. -/
def Form.Starts : Form → List Char → Prop
  | .value _, cs => StartsItem ']' cs
  | .field .., cs => StartsItem '\x7d' cs
  | .items _, cs => ∃ g ds, cs = g ++ ds ∧ IsBlanks g ∧ StartsItem ']' ds
  | .fields _, cs => ∃ g ds, cs = g ++ ds ∧ IsBlanks g ∧ StartsItem '\x7d' ds

theorem StartsItem.append {close : Char} {cs : List Char} (h : StartsItem close cs)
    (ds : List Char) : StartsItem close (cs ++ ds) := by
  obtain ⟨c, cs, rfl, hc⟩ := h
  exact ⟨c, cs ++ ds, rfl, hc⟩

theorem Spells.starts {φ : Form} {cs : List Char} (h : Spells φ cs) : φ.Starts cs := by
  induction h with
  | null | negative | str | emptyArr | arr | emptyObj | obj | field =>
    exact ⟨_, _, rfl, rfl, by decide⟩
  | nonneg hn =>
    obtain ⟨c, ds, rfl, hc⟩ := hn.exists_cons
    refine ⟨c, ds, rfl, ?_, ?_⟩
    · refine Bool.eq_false_iff.mpr fun hblank => ?_
      rw [noDigit_of_isBlank hblank] at hc
      cases hc
    · rintro rfl
      cases hc
  | lastItem hg _ _ ih | item hg _ _ _ ih | lastField hg _ _ ih | fields hg _ _ _ ih =>
    exact ⟨_, _, rfl, hg, ih.append _⟩

/-- The reader finds what the characters of a form spell. -/
def Form.IsRead : Form → List Char → Prop
  | .value v, cs => ∀ bound rest, cs.length < bound → NoDigit rest →
      readValue bound (cs ++ rest) = some (v, rest)
  | .field key v, cs => ∀ bound rest, cs.length < bound → NoDigit rest →
      readField (readValue bound) (cs ++ rest) = some ((key, v), rest)
  | .items vs, cs => ∀ bound n rest, cs.length < bound → cs.length < n →
      readList (readValue bound) ']' n (cs ++ ']' :: rest) = some (vs, rest)
  | .fields fs, cs => ∀ bound n rest, cs.length < bound → cs.length < n →
      readList (readField (readValue bound)) '\x7d' n (cs ++ '\x7d' :: rest) = some (fs, rest)

theorem readValue_of_spellsNat {cs rest : List Char} {n bound : Nat} (h : SpellsNat cs n)
    (hrest : NoDigit rest) : readValue (bound + 1) (cs ++ rest) = some (.int n, rest) := by
  have hint := readInt_of_spellsNat h hrest
  obtain ⟨c, ds, rfl, hc⟩ := h.exists_cons
  have hne : ∀ d : Char, d.isDigit = false → ∀ es, c :: ds ++ rest ≠ d :: es := by
    rintro d hd es heq
    obtain ⟨rfl, -⟩ := List.cons.inj heq
    rw [hd] at hc
    cases hc
  rw [readValue, hint]
  · rfl
  · exact fun _ => hne 'n' rfl _
  · exact fun _ => hne '"' rfl _
  · exact fun _ => hne '[' rfl _
  · exact fun _ => hne '\x7b' rfl _

theorem readField_of_spells {cs ds g g' rest : List Char} {key : String} {v : Json}
    {value : List Char → Option (Json × List Char)} (hkey : SpellsChars cs key.toList)
    (hg : IsBlanks g) (hg' : IsBlanks g') (hds : StartsItem ']' ds)
    (hvalue : value (ds ++ rest) = some (v, rest)) :
    readField value ('"' :: (cs ++ '"' :: (g ++ ':' :: (g' ++ ds))) ++ rest) =
      some ((key, v), rest) := by
  obtain ⟨c, ds, rfl, hc, -⟩ := hds
  rw [List.cons_append, List.append_assoc, List.cons_append, List.append_assoc, List.cons_append,
    List.append_assoc]
  show (do let (key, cs) ← readString (cs ++ '"' :: _); _) = _
  rw [readString_of_spellsChars hkey]
  show (match skipBlanks (g ++ ':' :: (g' ++ (c :: ds ++ rest))) with
    | ':' :: cs => _
    | _ => none) = _
  rw [skipBlanks_append hg, skipBlanks_cons rfl]
  show (do let (v, cs) ← value (skipBlanks (g' ++ (c :: ds ++ rest))); _) = _
  rw [skipBlanks_append hg', List.cons_append, skipBlanks_cons hc, ← List.cons_append, hvalue]
  rfl

/-- A bound that is large enough for the characters is not zero. -/
theorem exists_bound {cs : List Char} {c : Char} {bound : Nat} (h : (c :: cs).length < bound) :
    ∃ n, bound = n + 1 ∧ cs.length < n := by
  rw [List.length_cons] at h
  exact ⟨bound - 1, by omega, by omega⟩

theorem Spells.isRead {φ : Form} {cs : List Char} (h : Spells φ cs) : φ.IsRead cs := by
  induction h with
  | null =>
    intro bound rest hbound _
    obtain ⟨bound, rfl, -⟩ := exists_bound hbound
    rfl
  | nonneg hn =>
    intro bound rest hbound hrest
    obtain ⟨bound, rfl⟩ := Nat.exists_eq_add_of_lt hbound
    exact readValue_of_spellsNat hn hrest
  | @negative cs n hn =>
    intro bound rest hbound hrest
    obtain ⟨bound, rfl, -⟩ := exists_bound hbound
    show (readInt ('-' :: (cs ++ rest))).map _ = _
    rw [readInt, readNat_of_spellsNat hn hrest]
    rfl
  | @str cs s hs =>
    intro bound rest hbound _
    obtain ⟨bound, rfl, -⟩ := exists_bound hbound
    rw [List.cons_append, List.append_assoc, List.singleton_append]
    show (readString (cs ++ '"' :: rest)).map _ = _
    rw [readString_of_spellsChars hs]
    rfl
  | @emptyArr g hg =>
    intro bound rest hbound _
    obtain ⟨bound, rfl, -⟩ := exists_bound hbound
    rw [List.cons_append, List.append_assoc, List.singleton_append]
    show (readBracket (readValue bound) ']' (g ++ ']' :: rest)).map _ = _
    rw [readBracket_nil rfl hg]
    rfl
  | @arr vs cs hvs ih =>
    intro bound rest hbound _
    obtain ⟨bound, rfl, hbound⟩ := exists_bound hbound
    obtain ⟨g, ds, rfl, hg, hds⟩ := hvs.starts
    rw [List.cons_append, List.append_assoc (g ++ ds), List.singleton_append]
    show (readBracket (readValue bound) ']' (g ++ ds ++ ']' :: rest)).map _ = _
    rw [readBracket_of_readList hg hds fun n hn => ih bound n rest (by simp at hbound ⊢; omega) hn]
    rfl
  | @emptyObj g hg =>
    intro bound rest hbound _
    obtain ⟨bound, rfl, -⟩ := exists_bound hbound
    rw [List.cons_append, List.append_assoc, List.singleton_append]
    show (readBracket (readField (readValue bound)) '\x7d' (g ++ '\x7d' :: rest)).map _ = _
    rw [readBracket_nil rfl hg]
    rfl
  | @obj fs cs hfs ih =>
    intro bound rest hbound _
    obtain ⟨bound, rfl, hbound⟩ := exists_bound hbound
    obtain ⟨g, ds, rfl, hg, hds⟩ := hfs.starts
    rw [List.cons_append, List.append_assoc (g ++ ds), List.singleton_append]
    show (readBracket (readField (readValue bound)) '\x7d' (g ++ ds ++ '\x7d' :: rest)).map _ = _
    rw [readBracket_of_readList hg hds fun n hn => ih bound n rest (by simp at hbound ⊢; omega) hn]
    rfl
  | field hkey hg hg' hv ih =>
    intro bound rest hbound hrest
    exact readField_of_spells hkey hg hg' hv.starts (ih bound rest (by simp at hbound; omega) hrest)
  | lastItem hg hv hg' ih =>
    intro bound n rest hbound hn
    obtain ⟨n, rfl⟩ := Nat.exists_eq_add_of_lt hn
    exact readList_last rfl (by decide) hg hv.starts hg'
      (ih bound _ (by simp at hbound; omega) (hg'.noDigit (noDigit_cons rfl _)))
  | item hg hv hg' _ ih ihs =>
    intro bound n rest hbound hn
    obtain ⟨n, rfl⟩ : ∃ m, n = m + 1 := Nat.exists_eq_add_one.mpr (by omega)
    simp only [List.length_append, List.length_cons] at hbound hn
    exact readList_more hg hv.starts hg'
      (ih bound _ (by omega) (hg'.noDigit (noDigit_cons rfl _)))
      (ihs bound n rest (by omega) (by omega))
  | lastField hg hv hg' ih =>
    intro bound n rest hbound hn
    obtain ⟨n, rfl⟩ := Nat.exists_eq_add_of_lt hn
    exact readList_last rfl (by decide) hg hv.starts hg'
      (ih bound _ (by simp at hbound; omega) (hg'.noDigit (noDigit_cons rfl _)))
  | fields hg hv hg' _ ih ihs =>
    intro bound n rest hbound hn
    obtain ⟨n, rfl⟩ : ∃ m, n = m + 1 := Nat.exists_eq_add_one.mpr (by omega)
    simp only [List.length_append, List.length_cons] at hbound hn
    exact readList_more hg hv.starts hg'
      (ih bound _ (by omega) (hg'.noDigit (noDigit_cons rfl _)))
      (ihs bound n rest (by omega) (by omega))

/-! ### Texts -/

/-- The reader finds the value of a text. -/
theorem read?_of_isText {v : Json} {text : String} (h : IsText v text.toList) :
    read? text = some v := by
  obtain ⟨g, ds, g', hg, hds, hg', htext⟩ := h
  have hlength : ds.length < text.length + 1 := by
    rw [← String.length_toList, htext]
    simp
    omega
  have hrest : NoDigit g' := by
    have hnil : NoDigit [] := fun _ h => by cases h
    simpa using hg'.noDigit hnil
  have hvalue := hds.isRead (text.length + 1) g' hlength hrest
  obtain ⟨c, es, rfl, hc, -⟩ := hds.starts
  rw [read?, htext, skipBlanks_append hg, List.cons_append, skipBlanks_cons hc, ← List.cons_append,
    hvalue]
  exact if_pos (List.all_eq_true.mpr hg')

example : read? " [\"\\ud83d\\ude00\", -1, \x7b\x7d]\n" =
    some (.arr [.str "😀", .int (-1), .obj []]) := rfl

/-- No text is one of two values. -/
theorem IsText.unique {v w : Json} {text : String} (hv : IsText v text.toList)
    (hw : IsText w text.toList) : v = w :=
  Option.some.inj ((read?_of_isText hv).symm.trans (read?_of_isText hw))

end GnLang.Json
