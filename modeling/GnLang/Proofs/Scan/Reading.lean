/-
Reading tokens one character at a time.

The scanner takes what it needs off the front of a text.  Here the same tokens are read
through a cursor, with single reads and with looks at the next two characters: a read at
the end of the text fails (`Cursor.Fault.pastEnd`).  `Cursor.readsTokens_iff` says that
this finds the tokens of the scanner, or its error, and so that no read ever fails.

* `Cursor.between` — the cursor between two parts of a text;
* `Cursor.readWhile`, `Cursor.readGap`, `Cursor.readToken` — the loops, each of which reads a
  character in every round (`Cursor.left_readOne_lt`);
* `Cursor.ReadsTokens` — a finished run of them.
-/
import GnLang.Cursor
import GnLang.Proofs.Scan.Tokens

namespace GnLang.Cursor

/-! ### Single reads -/

/-- What was read, if it could be, and the cursor after it. -/
def succeeded {α : Type} : Except Fault α × Cursor → Except Fault (α × Cursor)
  | (.ok a, c) => .ok (a, c)
  | (.error f, _) => .error f

/-- The next character. -/
def readOne (c : Cursor) : Except Fault (Char × Cursor) := succeeded c.read

/-- How many characters are left, at most. -/
def left (c : Cursor) : Nat := (c.source.length - c.index).toNat

theorem left_readOne_lt {c c' : Cursor} {ch : Char} (h : c.readOne = .ok (ch, c')) :
    c'.left < c.left := by
  rw [readOne, read] at h
  by_cases hend : c.atEnd = true
  · rw [if_pos hend] at h
    cases h
  · rw [if_neg hend] at h
    cases hpick : pick? c.source c.index with
    | none =>
      rw [hpick] at h
      cases h
    | some d =>
      rw [hpick] at h
      cases h
      have hinside : c.index < c.source.length := by simpa [atEnd] using hend
      show (c.source.length - (c.index + 1)).toNat < (c.source.length - c.index).toNat
      omega

/-! ### Loops -/

/-- Reads characters for as long as there is one and `p` holds of it. -/
def readWhile (p : Char → Bool) (c : Cursor) : Except Fault (List Char × Cursor) :=
  if c.atEnd ∨ (c.ahead? 0).all p = false then .ok ([], c)
  else
    match _h : c.readOne with
    | .error f => .error f
    | .ok (ch, c') => (readWhile p c').map fun (chs, c'') => (ch :: chs, c'')
  termination_by c.left
  decreasing_by exact left_readOne_lt _h

/-- Where the loop goes on, it has read a character, and then what it reads from there. -/
theorem exists_of_readWhile {p : Char → Bool} {c c' : Cursor} {chs : List Char}
    (hgoes : ¬ (c.atEnd ∨ (c.ahead? 0).all p = false)) (h : c.readWhile p = .ok (chs, c')) :
    ∃ ch c₁ chs', c.readOne = .ok (ch, c₁) ∧ c₁.readWhile p = .ok (chs', c') := by
  rw [readWhile, if_neg hgoes] at h
  split at h
  · cases h
  · rename_i ch c₁ hread
    cases hrest : readWhile p c₁ with
    | error f =>
      rw [hrest] at h
      cases h
    | ok r =>
      rw [hrest] at h
      cases h
      exact ⟨ch, c₁, r.1, hread, hrest⟩

theorem left_readWhile_le {p : Char → Bool} {c c' : Cursor} {chs : List Char}
    (h : c.readWhile p = .ok (chs, c')) : c'.left ≤ c.left := by
  induction c using readWhile.induct p generalizing chs with
  | case1 c hstops =>
    rw [readWhile, if_pos hstops] at h
    cases h
    exact Nat.le_refl _
  | case2 c hgoes f hread =>
    obtain ⟨ch, c₁, chs', hread', -⟩ := exists_of_readWhile hgoes h
    cases hread.symm.trans hread'
  | case3 c hgoes ch c₁ hread ih =>
    obtain ⟨ch, c₁, chs', hread', hrest⟩ := exists_of_readWhile hgoes h
    cases hread.symm.trans hread'
    exact Nat.le_trans (ih hrest) (Nat.le_of_lt (left_readOne_lt hread))

theorem left_readWhile_lt {p : Char → Bool} {c c' : Cursor} {chs : List Char}
    (hgoes : ¬ (c.atEnd ∨ (c.ahead? 0).all p = false)) (h : c.readWhile p = .ok (chs, c')) :
    c'.left < c.left := by
  obtain ⟨ch, c₁, chs', hread, hrest⟩ := exists_of_readWhile hgoes h
  exact Nat.lt_of_le_of_lt (left_readWhile_le hrest) (left_readOne_lt hread)

/-- Reads on over blanks and comments.  A comment is read up to its newline, which is then
a blank. -/
def readGap (c : Cursor) : Except Fault Cursor :=
  if _hend : c.atEnd then .ok c
  else if (c.ahead? 0).all isBlank then
    match _h : c.readOne with
    | .error f => .error f
    | .ok (_, c') => readGap c'
  else if _hhash : c.ahead? 0 = some '#' then
    match _h : c.readWhile (· != '\n') with
    | .error f => .error f
    | .ok (_, c') => readGap c'
  else .ok c
  termination_by c.left
  decreasing_by
    · exact left_readOne_lt _h
    · exact left_readWhile_lt (by simp [_hend, _hhash]) _h

/-- The token that begins here, told by its first character, or for a symbol by the next
two. -/
def readHere (c : Cursor) : Except Fault (Token × Cursor) := do
  if c.atEnd then pure (.endAt c.pos, c)
  else if (c.ahead? 0).any isIdentStart then
    let (word, c') ← c.readWhile isIdentChar
    pure (.word (String.ofList word) c.pos, c')
  else if (c.ahead? 0).any Char.isDigit then
    let (digits, c') ← c.readWhile Char.isDigit
    pure (.digits (String.ofList digits) c.pos, c')
  else if c.ahead? 0 = some '"' then
    let (_, inside) ← c.readOne
    let (value, closing) ← inside.readWhile (· != '"')
    if closing.atEnd then .error (.lexical (.unclosedString c.pos))
    else
      let (_, c') ← closing.readOne
      pure (.quoted (String.ofList value) c.pos, c')
  else
    match symbolAt? ((c.ahead? 0).toList ++ (c.ahead? 1).toList) with
    | some m =>
      let (_, c') ← succeeded (c.skip m.chars.length)
      pure (.mark m c.pos, c')
    | none =>
      if (c.ahead? 0 = some '&' ∨ c.ahead? 0 = some '|') ∧ c.ahead? 1 = none then
        .error (.lexical (.halfOperator c.pos))
      else
        let (ch, c') ← c.readOne
        pure (.stray ch c.pos, c')

/-- The next token. -/
def readToken (c : Cursor) : Except Fault (Token × Cursor) := do (← c.readGap).readHere

/-- Reading token after token from the cursor on ends with `r`: with all tokens up to the
end of the input, or with what was wrong. -/
inductive ReadsTokens : Cursor → Except Fault (List Token) → Prop where
  | fault {c : Cursor} {f : Fault} : c.readToken = .error f → ReadsTokens c (.error f)
  | last {c c' : Cursor} {t : Token} :
      c.readToken = .ok (t, c') → t.kind = .endOfInput → ReadsTokens c (.ok [t])
  | more {c c' : Cursor} {t : Token} {r : Except Fault (List Token)} :
      c.readToken = .ok (t, c') → t.kind ≠ .endOfInput → ReadsTokens c' r →
      ReadsTokens c (r.map (t :: ·))

theorem ReadsTokens.unique {c : Cursor} {r r' : Except Fault (List Token)}
    (h : ReadsTokens c r) (h' : ReadsTokens c r') : r = r' := by
  induction h generalizing r' with
  | fault hread =>
    cases h' with
    | fault hread' =>
      cases hread.symm.trans hread'
      rfl
    | last hread' _ => cases hread.symm.trans hread'
    | more hread' _ _ => cases hread.symm.trans hread'
  | last hread hk =>
    cases h' with
    | fault hread' => cases hread.symm.trans hread'
    | last hread' _ =>
      cases hread.symm.trans hread'
      rfl
    | more hread' hk' _ =>
      cases hread.symm.trans hread'
      exact absurd hk hk'
  | more hread hk _ ih =>
    cases h' with
    | fault hread' => cases hread.symm.trans hread'
    | last hread' hk' =>
      cases hread.symm.trans hread'
      exact absurd hk' hk
    | more hread' _ hrest =>
      cases hread.symm.trans hread'
      rw [ih hrest]

/-! ### Between two parts of a text -/

/-- The cursor between two parts of a text, at the place `p`. -/
def between (done rest : List Char) (p : Pos) : Cursor := ⟨done ++ rest, done.length, p⟩

variable {done rest : List Char} {p : Pos}

@[simp] theorem pos_between : (between done rest p).pos = p := rfl

@[simp] theorem atEnd_between : (between done rest p).atEnd = rest.isEmpty := by
  rw [between, atEnd, Bool.eq_iff_iff, decide_eq_true_iff, List.isEmpty_iff]
  dsimp only
  rw [List.length_append, ← List.length_eq_zero_iff]
  omega

theorem getElem?_between (i : Nat) : (done ++ rest)[done.length + i]? = rest[i]? := by
  rw [List.getElem?_append_right (Nat.le_add_right _ _), Nat.add_sub_cancel_left]

@[simp] theorem ahead?_between (i : Nat) : (between done rest p).ahead? i = rest[i]? := by
  have hindex : ((done.length : Int) + i).toNat = done.length + i := by omega
  rw [between, ahead?, if_pos (by dsimp only; omega)]
  dsimp only
  rw [hindex, getElem?_between]

@[simp] theorem ahead?_zero_between : (between done rest p).ahead? 0 = rest.head? :=
  (ahead?_between 0).trans List.head?_eq_getElem?.symm

@[simp] theorem ahead?_one_between : (between done rest p).ahead? 1 = rest[1]? :=
  ahead?_between 1

theorem read_between (c : Char) :
    (between done (c :: rest) p).read = (.ok c, between (done ++ [c]) rest (p.next c)) := by
  have hpick : pick? (done ++ c :: rest) done.length = some c :=
    (pick?_natCast _ _).trans (getElem?_between 0)
  rw [read, if_neg (by simp)]
  simp [between, hpick]

theorem readOne_between (c : Char) :
    (between done (c :: rest) p).readOne = .ok (c, between (done ++ [c]) rest (p.next c)) := by
  rw [readOne, read_between, succeeded]

theorem skip_between (cs : List Char) :
    (between done (cs ++ rest) p).skip cs.length =
      (.ok (), between (done ++ cs) rest (p.after cs)) := by
  induction cs generalizing done p with
  | nil => simp [skip]
  | cons c cs ih =>
    rw [List.cons_append, List.length_cons, skip, read_between]
    simp only [ih, List.append_assoc, List.singleton_append, Pos.after_cons]

theorem readWhile_between (done rest : List Char) (p : Pos) (f : Char → Bool) :
    (between done rest p).readWhile f =
      .ok (rest.takeWhile f, between (done ++ rest.takeWhile f) (rest.dropWhile f)
        (p.after (rest.takeWhile f))) := by
  induction rest generalizing done p with
  | nil =>
    rw [readWhile, if_pos (by simp)]
    simp
  | cons c rest ih =>
    by_cases hc : f c = true
    · rw [readWhile, if_neg (by simp [hc])]
      split
      · rename_i hread
        rw [readOne_between] at hread
        cases hread
      · rename_i hread
        rw [readOne_between] at hread
        cases hread
        simp [ih, hc, Except.map]
    · rw [readWhile, if_pos (by simp [hc])]
      simp [hc]

/-! ### Tokens -/

theorem readGap_blank {c : Char} (hc : isBlank c = true) :
    (between done (c :: rest) p).readGap = (between (done ++ [c]) rest (p.next c)).readGap := by
  rw [readGap, dif_neg (by simp), if_pos (by simp [hc])]
  split
  · rename_i hread
    rw [readOne_between] at hread
    cases hread
  · rename_i hread
    rw [readOne_between] at hread
    cases hread
    rfl

theorem readGap_comment {body ds : List Char} (hbody : '\n' ∉ body)
    (hds : ∀ c ∈ ds.head?, c = '\n') :
    (between done ('#' :: (body ++ ds)) p).readGap =
      (between (done ++ '#' :: body) ds (p.after ('#' :: body))).readGap := by
  have hinside : ∀ c ∈ '#' :: body, (c != '\n') = true := by
    refine List.forall_mem_cons.mpr ⟨by decide, fun c hc => bne_iff_ne.mpr ?_⟩
    rintro rfl
    exact hbody hc
  have hstop : ∀ c ∈ ds.head?, (c != '\n') = false := fun c hc => by simp [hds c hc]
  obtain ⟨htake, hdrop⟩ := takeWhile_append_of_clear hinside hstop
  have hcomment := readWhile_between done ('#' :: body ++ ds) p (· != '\n')
  rw [htake, hdrop, List.cons_append] at hcomment
  rw [readGap, dif_neg (by simp), if_neg (by simp [isBlank]), dif_pos (by simp)]
  split
  · rename_i hread
    rw [hcomment] at hread
    cases hread
  · rename_i hread
    rw [hcomment] at hread
    cases hread
    rfl

theorem readGap_between {g : List Char} (hg : IsGap rest g) (hrest : BeginsNoGap rest) :
    (between done (g ++ rest) p).readGap = .ok (between (done ++ g) rest (p.after g)) := by
  induction hg generalizing done p with
  | nil =>
    cases rest with
    | nil =>
      rw [List.nil_append, readGap, dif_pos (by simp)]
      simp
    | cons c rest =>
      obtain ⟨hblank, hhash⟩ := beginsNoGap_cons.mp hrest
      rw [List.nil_append, readGap, dif_neg (by simp), if_neg (by simp [hblank]),
        dif_neg (by simp [hhash])]
      simp
  | @blank c g hc _ ih =>
    rw [List.cons_append, readGap_blank hc, ih, List.append_assoc, Pos.after_cons]
    rfl
  | @comment body g hbody hend _ ih =>
    rw [List.cons_append, List.append_assoc, readGap_comment hbody hend, ih, List.append_assoc,
      ← Pos.after_append]
    rfl

theorem symbolAt?_ahead (c : Char) (cs : List Char) :
    symbolAt? (((between done (c :: cs) p).ahead? 0).toList ++
      ((between done (c :: cs) p).ahead? 1).toList) = symbolAt? (c :: cs) := by
  rw [ahead?_zero_between, ahead?_one_between]
  cases cs <;> rfl

/-- The lexeme that is scanned is read, and what keeps one from being scanned is noticed. -/
theorem readHere_lexeme (done : List Char) (p : Pos) (c : Char) (cs : List Char) :
    ∃ done', (between done (c :: cs) p).readHere =
      match lexeme c cs with
      | .ok l => .ok (⟨l.kind, l.text, p⟩, between done' l.rest (p.after l.taken))
      | .error .string => .error (.lexical (.unclosedString p))
      | .error .operator => .error (.lexical (.halfOperator p)) := by
  rw [readHere, lexeme, if_neg (by simp)]
  by_cases hword : isIdentStart c = true
  · have hc := isIdentChar_of_isIdentStart hword
    have hread := readWhile_between done (c :: cs) p isIdentChar
    rw [List.takeWhile_cons_of_pos hc, List.dropWhile_cons_of_pos hc] at hread
    rw [if_pos (by simp [hword]), if_pos hword, hread]
    exact ⟨_, rfl⟩
  rw [if_neg (by simp [hword]), if_neg hword]
  by_cases hdigit : c.isDigit = true
  · have hread := readWhile_between done (c :: cs) p Char.isDigit
    rw [List.takeWhile_cons_of_pos hdigit, List.dropWhile_cons_of_pos hdigit] at hread
    rw [if_pos (by simp [hdigit]), if_pos hdigit, hread]
    exact ⟨_, rfl⟩
  rw [if_neg (by simp [hdigit]), if_neg hdigit]
  by_cases hquote : c = '"'
  · subst hquote
    have hread := readWhile_between (done ++ ['"']) cs (p.next '"') (· != '"')
    rw [if_pos (by simp), if_pos rfl, readOne_between]
    simp only [bind, Except.bind, hread, atEnd_between]
    cases hclosing : cs.dropWhile (· != '"') with
    | nil => exact ⟨done, rfl⟩
    | cons q rest =>
      rw [readOne_between]
      refine ⟨done ++ ['"'] ++ cs.takeWhile (· != '"') ++ [q], ?_⟩
      simp [Pos.after_append, Token.quoted, pure, Except.pure]
  rw [if_neg (by simpa using hquote), if_neg hquote, symbolAt?_ahead]
  cases hm : symbolAt? (c :: cs) with
  | some m =>
    obtain ⟨⟨rest, hrest⟩, -⟩ := symbolAt?_eq_some.mp hm
    simp only [← hrest, skip_between, List.take_left, List.drop_left]
    exact ⟨_, rfl⟩
  | none =>
    have hlast : (between done (c :: cs) p).ahead? 1 = none ↔ cs = [] := by
      rw [ahead?_one_between]
      cases cs <;> simp
    simp only [hlast, ahead?_zero_between, List.head?_cons, Option.some.injEq]
    by_cases hcut : (c = '&' ∨ c = '|') ∧ cs = []
    · rw [if_pos hcut, if_pos hcut]
      exact ⟨done, rfl⟩
    · rw [if_neg hcut, if_neg hcut, readOne_between]
      exact ⟨_, rfl⟩

theorem readToken_between (done rest : List Char) (p : Pos) :
    ∃ done', (between done rest p).readToken =
      match Scan.token ⟨p, rest⟩ with
      | (.ok t, s) => .ok (t, between done' s.rest s.pos)
      | (.error e, _) => .error (.lexical e) := by
  obtain ⟨g, rest', rfl, hend, hg, hbegins⟩ := Scan.exists_isGap p rest
  have hread : (between done (g ++ rest') p).readToken =
      (between (done ++ g) rest' (p.after g)).readHere := by
    rw [readToken, readGap_between hg hbegins]
    rfl
  rw [hread, Scan.token, Scan.pastGap, hend, Scan.tokenHere]
  cases rest' with
  | nil =>
    rw [readHere, if_pos (by simp)]
    exact ⟨_, rfl⟩
  | cons c cs =>
    obtain ⟨done', hhere⟩ := readHere_lexeme (done ++ g) (p.after g) c cs
    refine ⟨done', hhere.trans ?_⟩
    dsimp only
    generalize lexeme c cs = scanned
    rcases scanned with (_ | _) | l <;> rfl

/-! ### Whole texts -/

theorem exists_readsTokens (acc : List Token) (s : Scan) :
    ∃ r : Except ParseError (List Token), s.tokensOnto acc = r.map (acc.reverse ++ ·) ∧
      ∀ done, ReadsTokens (between done s.rest s.pos) (r.mapError .lexical) := by
  fun_induction Scan.tokensOnto acc s with
  | case1 acc s e r ht =>
    refine ⟨.error e, rfl, fun done => .fault ?_⟩
    obtain ⟨done', hread⟩ := readToken_between done s.rest s.pos
    rw [hread, ht]
  | case2 acc s t r ht hk =>
    refine ⟨.ok [t], by simp [Except.map], fun done => ?_⟩
    obtain ⟨done', hread⟩ := readToken_between done s.rest s.pos
    rw [ht] at hread
    exact .last hread hk
  | case3 acc s t r ht hk ih =>
    obtain ⟨ts, hts, hreads⟩ := ih
    refine ⟨ts.map (t :: ·), ?_, fun done => ?_⟩
    · rw [hts]
      cases ts <;> simp [Except.map]
    · obtain ⟨done', hread⟩ := readToken_between done s.rest s.pos
      rw [ht] at hread
      have hmore := ReadsTokens.more hread hk (hreads done')
      cases ts <;> exact hmore

/-- Reading a text ends, with its tokens or with the error that scanning it ends with: no
single read fails. -/
theorem readsTokens_iff {source : String} {r : Except Fault (List Token)} :
    ReadsTokens (.ofString source) r ↔ r = (scanTokens source).mapError .lexical := by
  obtain ⟨ts, hts, hreads⟩ := exists_readsTokens [] (Scan.ofString source)
  have hscan : scanTokens source = ts := by
    rw [scanTokens, hts]
    cases ts <;> rfl
  have hrun : ReadsTokens (.ofString source) ((scanTokens source).mapError .lexical) := by
    rw [hscan]
    exact hreads []
  constructor
  · intro h
    exact h.unique hrun
  · rintro rfl
    exact hrun

end GnLang.Cursor
