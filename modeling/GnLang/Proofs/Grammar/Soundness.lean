/-
What the rules read, the grammar derives.

A rule is sound for a phrase if it consumes tokens that derive the phrase with the tree
it answers with.  `Sound` says so of one rule, and `SoundAt s d` of the rules that are
used inside a nesting; `soundAt` proves the latter by induction on the nestings left to
open, and everything between is one statement for each rule.

The tokens must be genuine, as those of a text are: a token list made by hand can hold an
operator with the text of another, which no grammar derives.
-/
import GnLang.Proofs.Grammar.Answers
import GnLang.Proofs.Grammar.Derivation
import GnLang.Proofs.Scan.Genuine

namespace GnLang.Grammar

open Rule Token

variable {s : Setting} {d : Nat}

/-- The tokens between `ts` and `rest` form the phrase, with what follows them. -/
def Consumed (s : Setting) (d : Nat) (φ : Phrase) (ts rest : List Token) : Prop :=
  ∃ w, ts = w ++ rest ∧ Derives d φ w (front s rest).kind

/-- Whenever the rule succeeds on genuine tokens, it has consumed a phrase. -/
def Sound (s : Setting) (d : Nat) (φ : Node → Phrase) (r : Rule Node) : Prop :=
  ∀ ts x rest, (∀ t ∈ ts, t.IsGenuine) → r ts = (.ok x, rest) → Consumed s d (φ x) ts rest

/-- Soundness of the rules for the inside of a nesting. -/
structure SoundAt (s : Setting) (d : Nat) : Prop where
  unary : Sound s d .unary (unary s (insideOf s d))
  expression : Sound s d .expression (expression s (insideOf s d))
  statement : Sound s d .statement (statement s (insideOf s d))

/-! ### Repetitions -/

/-- What `Sound` says of a repetition: it has consumed a phrase for the items it adds to
those already done. -/
def SoundOnto (s : Setting) (d : Nat) (φ : List Node → Phrase)
    (r : List Node → Rule (List Node)) : Prop :=
  ∀ ts done xs rest, (∀ t ∈ ts, t.IsGenuine) → r done ts = (.ok xs, rest) →
    ∃ ys, xs = done.reverse ++ ys ∧ Consumed s d (φ ys) ts rest

theorem sound_elementsAt (h : SoundAt s d) : SoundOnto s d .elements (elementsAt s d) := by
  intro ts
  induction hn : ts.length using Nat.strongRecOn generalizing ts with
  | ind n ih =>
    subst hn
    intro done xs rest hts hr
    rcases elementsAt_eq_ok.mp hr with ⟨-, rfl, rfl⟩ | ⟨-, -, x, mid, hx, hrest⟩
    · exact ⟨[], (List.append_nil _).symm, [], rfl, .noElements⟩
    · obtain ⟨w, rfl, hw⟩ := h.expression _ x mid hts hx
      have hlt := hw.length_lt mid
      have hmid := (List.forall_mem_append.mp hts).2
      -- with a comma the rest is shorter by one token more
      rw [afterComma] at hrest
      split at hrest
      · rename_i hcomma
        cases mid with
        | nil => cases hcomma
        | cons t mid =>
          obtain ⟨ht, hmid⟩ := List.forall_mem_cons.mp hmid
          rw [front_cons] at hcomma hw
          rw [hcomma] at hw
          obtain ⟨ys, rfl, w', rfl, hys⟩ :=
            ih _ (Nat.lt_of_succ_lt hlt) mid rfl (x :: done) xs rest hmid hrest
          refine ⟨x :: ys, by simp, w ++ t :: w', by simp, ?_⟩
          rw [eq_mark ht hcomma]
          exact .elementComma hw hys
      · obtain ⟨ys, rfl, w', rfl, hys⟩ := ih _ hlt mid rfl (x :: done) xs rest hmid hrest
        rw [kind_front_append] at hw
        exact ⟨x :: ys, by simp, w ++ w', by simp, .element hw hys⟩

theorem sound_argumentsAt (h : SoundAt s d) :
    SoundOnto s d .arguments (argumentsAt s d) := by
  intro ts
  induction hn : ts.length using Nat.strongRecOn generalizing ts with
  | ind n ih =>
    subst hn
    intro done xs rest hts hr
    rcases argumentsAt_eq_ok.mp hr with
      ⟨-, rfl, rfl⟩ | ⟨-, x, mid, hx, ⟨hcomma, hrest⟩ | ⟨-, rfl, rfl⟩⟩
    · exact ⟨[], (List.append_nil _).symm, [], rfl, .noArguments⟩
    · obtain ⟨w, rfl, hw⟩ := h.expression _ x mid hts hx
      have hlt := hw.length_lt mid
      have hmid := (List.forall_mem_append.mp hts).2
      cases mid with
      | nil => cases hcomma
      | cons t mid =>
        obtain ⟨ht, hmid⟩ := List.forall_mem_cons.mp hmid
        rw [front_cons] at hcomma hw
        rw [hcomma] at hw
        obtain ⟨ys, rfl, w', rfl, hys⟩ :=
          ih _ (Nat.lt_of_succ_lt hlt) mid rfl (x :: done) xs rest hmid hrest
        refine ⟨x :: ys, by simp, w ++ t :: w', by simp, ?_⟩
        rw [eq_mark ht hcomma]
        exact .argument hw hys
    · obtain ⟨w, rfl, hw⟩ := h.expression _ x _ hts hx
      exact ⟨[x], List.reverse_cons, w, rfl, .lastArgument hw⟩

theorem sound_statementsAt (h : SoundAt s d) :
    SoundOnto s d .statements (statementsAt s d) := by
  intro ts
  induction hn : ts.length using Nat.strongRecOn generalizing ts with
  | ind n ih =>
    subst hn
    intro done xs rest hts hr
    rcases statementsAt_eq_ok.mp hr with ⟨-, rfl, rfl⟩ | ⟨-, x, mid, hx, hrest⟩
    · exact ⟨[], (List.append_nil _).symm, [], rfl, .noStatements⟩
    · obtain ⟨w, rfl, hw⟩ := h.statement _ x mid hts hx
      have hmid := (List.forall_mem_append.mp hts).2
      -- a statement is made of tokens, so that the induction hypothesis is for the rest
      obtain ⟨t, u, rfl, -⟩ := hw.starts
      have hlt : mid.length < (t :: u ++ mid).length := by
        rw [List.length_append, List.length_cons]
        omega
      obtain ⟨ys, rfl, w', rfl, hys⟩ := ih _ hlt mid rfl (x :: done) xs rest hmid hrest
      rw [kind_front_append] at hw
      exact ⟨x :: ys, by simp, _, (List.append_assoc _ _ _).symm, .statement hw hys⟩

/-- The operators and operands after `left` are consumed, whatever `left` is. -/
theorem sound_chainAt (h : Sound s d .unary (unary s (insideOf s d))) (left : Node) :
    Sound s d (.chain left) (chainAt s d left) := by
  intro ts
  induction hn : ts.length using Nat.strongRecOn generalizing ts left with
  | ind n ih =>
    subst hn
    intro x rest hts hr
    rcases chainAt_eq_ok.mp hr with ⟨hk, rfl, rfl⟩ | ⟨hk, right, y, mid, hright, hy, hrest⟩
    · exact ⟨[], rfl, .noOperator hk⟩
    · cases ts with
      | nil => cases hk
      | cons t ts =>
        obtain ⟨ht, hts⟩ := List.forall_mem_cons.mp hts
        rw [front_cons] at hk hy
        -- a genuine operator has a text that stands for it, so the tree is the folded one
        obtain ⟨o, ho⟩ := eq_mark_of_isBinary ht hk
        rw [ho] at hy
        cases (binary?_text left o right left.pos).symm.trans hy
        obtain ⟨w, rfl, hw⟩ := h ts right mid hts hright
        have hmid := (List.forall_mem_append.mp hts).2
        have hlt : mid.length < (t :: (w ++ mid)).length := by
          rw [List.length_cons, List.length_append]
          omega
        obtain ⟨w', rfl, hw'⟩ := ih mid.length hlt _ mid rfl x rest hmid hrest
        rw [kind_front_append] at hw
        refine ⟨t :: (w ++ w'), by simp, ?_⟩
        rw [ho]
        exact .operator hw hw'

/-! ### Numbers -/

theorem sound_integer {ts rest : List Token} {x : Node} (hts : ∀ t ∈ ts, t.IsGenuine)
    (hr : integer s ts = (.ok x, rest)) : Consumed s d (.primary x) ts rest := by
  rcases integer_eq_ok.mp hr with ⟨t, rfl, ht, hx⟩ | ⟨m, t, rfl, hm, ht, hx⟩
  · obtain ⟨n, hn⟩ := (hts t (by simp)).numeral ht
    obtain ⟨hfits, rfl⟩ := (integerOf_eq_ok hn).mp hx
    refine ⟨[t], rfl, ?_⟩
    rw [eq_digits ht]
    exact .number hn hfits
  · obtain ⟨n, hn⟩ := (hts t (by simp)).numeral ht
    obtain ⟨hfits, rfl⟩ := (integerOf_eq_ok hn).mp hx
    refine ⟨[m, t], rfl, ?_⟩
    rw [eq_mark (hts m (by simp)) hm, eq_digits ht]
    exact .negative hn hfits

/-! ### Nestings -/

section

variable (ih : ∀ e, d = e + 1 → SoundAt s e)

include ih

theorem sound_bracketedList : Sound s d .primary (bracketedList s (insideOf s d)) := by
  intro ts x rest hts hr
  obtain ⟨e, t, u, mid, xs, rfl, rfl, ht, hxs, hu, rfl⟩ := bracketedList_eq_ok.mp hr
  obtain ⟨hgt, hmid⟩ := List.forall_mem_cons.mp hts
  obtain ⟨ys, rfl, w, rfl, hw⟩ := sound_elementsAt (ih e rfl) _ _ _ _ hmid hxs
  have hgu := hmid u (by simp)
  rw [front_cons, hu] at hw
  refine ⟨t :: (w ++ [u]), by simp, ?_⟩
  rw [eq_mark hgt ht, eq_mark hgu hu]
  exact .list hw

theorem sound_arrayAccess : Sound s d .target (arrayAccess s (insideOf s d)) := by
  intro ts x rest hts hr
  obtain ⟨e, t, u, v, mid, i, rfl, rfl, ht, hu, hi, hv, rfl⟩ := arrayAccess_eq_ok.mp hr
  obtain ⟨-, hts⟩ := List.forall_mem_cons.mp hts
  obtain ⟨hgu, hmid⟩ := List.forall_mem_cons.mp hts
  obtain ⟨w, rfl, hw⟩ := (ih e rfl).expression _ _ _ hmid hi
  have hgv := hmid v (by simp)
  rw [front_cons, hv] at hw
  refine ⟨t :: u :: (w ++ [v]), by simp, ?_⟩
  rw [eq_word ht, eq_mark hgu hu, eq_mark hgv hv]
  exact .arrayAccess hw

theorem sound_parenthesized : Sound s d .primary (parenthesized s (insideOf s d)) := by
  intro ts x rest hts hr
  obtain ⟨e, t, u, mid, rfl, rfl, ht, hx, hu⟩ := parenthesized_eq_ok.mp hr
  obtain ⟨hgt, hmid⟩ := List.forall_mem_cons.mp hts
  obtain ⟨w, rfl, hw⟩ := (ih e rfl).expression _ _ _ hmid hx
  have hgu := hmid u (by simp)
  rw [front_cons, hu] at hw
  refine ⟨t :: (w ++ [u]), by simp, ?_⟩
  rw [eq_mark hgt ht, eq_mark hgu hu]
  exact .parenthesized hw

theorem sound_call : Sound s d .call (call s (insideOf s d)) := by
  intro ts x rest hts hr
  obtain ⟨e, t, u, v, mid, mid', args, rfl, rfl, ht, hu, hargs, hv, hend⟩ := call_eq_ok.mp hr
  obtain ⟨-, hts⟩ := List.forall_mem_cons.mp hts
  obtain ⟨hgu, hmid⟩ := List.forall_mem_cons.mp hts
  obtain ⟨xs, rfl, w, rfl, hw⟩ := sound_argumentsAt (ih e rfl) _ _ _ _ hmid hargs
  obtain ⟨hgv, hmid'⟩ := List.forall_mem_cons.mp (List.forall_mem_append.mp hmid).2
  rw [front_cons, hv] at hw
  -- without a body, what follows is no brace, as the grammar asks
  rcases callEnd_eq_ok.mp hend with ⟨hk, rfl, rfl⟩ | ⟨body, hbody, rfl⟩
  · refine ⟨t :: u :: (w ++ [v]), by simp, ?_⟩
    rw [eq_word ht, eq_mark hgu hu, eq_mark hgv hv]
    exact .plainCall hw hk
  · obtain ⟨e', b, c, mid'', ys, he, rfl, hb, hys, hc, rfl⟩ := block_eq_ok.mp hbody
    cases he
    obtain ⟨hgb, hmid''⟩ := List.forall_mem_cons.mp hmid'
    obtain ⟨ys, rfl, w', rfl, hw'⟩ := sound_statementsAt (ih e rfl) _ _ _ _ hmid'' hys
    have hgc := hmid'' c (by simp)
    rw [front_cons, hc] at hw'
    refine ⟨t :: u :: (w ++ v :: b :: (w' ++ [c])), by simp, ?_⟩
    rw [eq_word ht, eq_mark hgu hu, eq_mark hgv hv, eq_mark hgb hb, eq_mark hgc hc]
    exact .bodyCall hw hw'

/-! ### Operands and expressions -/

/-- A target is consumed unless the word it begins with is that of a call: then the rule
would read the word alone. -/
theorem sound_target {t : Token} {ts rest : List Token} {x : Node}
    (hnext : t.kind = .ident → (front s ts).kind ≠ .symbol .lparen)
    (hts : ∀ u ∈ t :: ts, u.IsGenuine)
    (hr : target s (insideOf s d) (t :: ts) = (.ok x, rest)) :
    Consumed s d (.target x) (t :: ts) rest := by
  rw [target_cons] at hr
  split at hr
  · rename_i ht
    split at hr
    · exact sound_arrayAccess ih _ x rest hts hr
    · obtain ⟨t, u, v, hcons, ht, hu, hv, rfl⟩ := scopeAccess_eq_ok.mp hr
      rw [hcons] at hts ⊢
      have hgu := hts u (by simp)
      refine ⟨[t, u, v], rfl, ?_⟩
      rw [eq_word ht, eq_mark hgu hu, eq_word hv]
      exact .scopeAccess
    · rename_i hbrack hdot
      obtain ⟨t', hcons, -, rfl⟩ := identifier_eq_ok.mp hr
      obtain ⟨rfl, rfl⟩ := List.cons.inj hcons
      refine ⟨[t], rfl, ?_⟩
      rw [eq_word ht]
      exact .identifier (hnext ht) hbrack hdot
  · exact absurd hr (failAt_ne_ok s)

theorem sound_primary : Sound s d .primary (primary s (insideOf s d)) := by
  intro ts x rest hts hr
  cases ts with
  | nil => exact absurd hr (failAt_ne_ok s)
  | cons t ts =>
    rw [primary_cons] at hr
    split at hr
    · exact sound_bracketedList ih _ x rest hts hr
    · obtain ⟨t', hcons, ht, rfl⟩ := string_eq_ok.mp hr
      rw [hcons]
      refine ⟨[t'], rfl, ?_⟩
      rw [eq_quoted ht]
      exact .string
    · split at hr
      · obtain ⟨w, hw, hx⟩ := sound_call ih _ x rest hts hr
        exact ⟨w, hw, .ofCall hx⟩
      · rename_i hnext
        obtain ⟨w, hw, hx⟩ := sound_target ih (fun _ => hnext) hts hr
        exact ⟨w, hw, .ofTarget hx⟩
    · exact sound_parenthesized ih _ x rest hts hr
    · exact sound_integer hts hr
    · exact sound_integer hts hr
    · exact absurd hr (failAt_ne_ok s)

theorem sound_unary : Sound s d .unary (unary s (insideOf s d)) := by
  intro ts x rest hts hr
  rcases unary_eq_ok.mp hr with ⟨-, hx⟩ | ⟨e, t, mid, y, rfl, rfl, hk, hy, hx⟩
  · obtain ⟨w, hw, hx⟩ := sound_primary ih ts x rest hts hx
    exact ⟨w, hw, .ofPrimary hx⟩
  · obtain ⟨hgt, hmid⟩ := List.forall_mem_cons.mp hts
    obtain ⟨o, ho⟩ := eq_mark_of_isUnary hgt hk
    rw [ho] at hx
    cases (unary?_text o y t.pos).symm.trans hx
    obtain ⟨w, rfl, hw⟩ := (ih e rfl).unary mid y rest hmid hy
    refine ⟨t :: w, rfl, ?_⟩
    rw [ho]
    exact .unary hw

theorem sound_expression : Sound s d .expression (expression s (insideOf s d)) := by
  intro ts x rest hts hr
  obtain ⟨left, mid, hleft, hchain⟩ := expression_eq_ok.mp hr
  obtain ⟨w, rfl, hw⟩ := sound_unary ih ts left mid hts hleft
  have hmid := (List.forall_mem_append.mp hts).2
  obtain ⟨w', rfl, hw'⟩ := sound_chainAt (sound_unary ih) left mid x rest hmid hchain
  rw [kind_front_append] at hw
  exact ⟨w ++ w', (List.append_assoc _ _ _).symm, .expression hw hw'⟩

/-! ### Statements -/

theorem sound_statement : Sound s d .statement (statement s (insideOf s d)) := by
  intro ts x rest hts hr
  cases ts with
  | nil =>
    rw [statement_nil] at hr
    exact absurd hr (failAt_ne_ok s)
  | cons t ts =>
    rw [statement_cons] at hr
    split at hr
    · obtain ⟨w, hw, hx⟩ := sound_call ih _ x rest hts hr
      exact ⟨w, hw, .callStatement hx⟩
    · rename_i hnext
      -- the target is no call, since a call would have been read as a statement
      obtain ⟨left, u, mid, value, hleft, hu, hvalue, hx⟩ := assignment_eq_ok.mp hr
      obtain ⟨w, hcons, hw⟩ := sound_target ih (fun ht hk => hnext ⟨ht, hk⟩) hts hleft
      rw [hcons] at hts ⊢
      obtain ⟨hgu, hmid⟩ := List.forall_mem_cons.mp (List.forall_mem_append.mp hts).2
      obtain ⟨o, ho⟩ := eq_mark_of_isAssign hgu hu
      obtain ⟨w', rfl, hw'⟩ := sound_expression ih mid value rest hmid hvalue
      rw [ho] at hx
      cases (assignment?_text (isTarget_of_derives hw) o value left.pos).symm.trans hx
      rw [front_cons, ho, kind_mark] at hw
      refine ⟨w ++ u :: w', by simp, ?_⟩
      rw [ho]
      exact .assignment hw hw'

end

/-- The rules of every nesting are sound: those for one nesting more are made of those for
one nesting less. -/
theorem soundAt (s : Setting) (d : Nat) : SoundAt s d := by
  induction d with
  | zero =>
    have ih : ∀ e, 0 = e + 1 → SoundAt s e := fun e he => absurd he (Nat.zero_ne_add_one e)
    exact ⟨sound_unary ih, sound_expression ih, sound_statement ih⟩
  | succ d hd =>
    have ih : ∀ e, d + 1 = e + 1 → SoundAt s e := fun e he => Nat.succ.inj he ▸ hd
    exact ⟨sound_unary ih, sound_expression ih, sound_statement ih⟩

/-! ### Whole texts -/

/-- Tokens before the end of the input and tokens of a derivation are cut off alike. -/
theorem eq_of_append_eq {w w' rest : List Token} {e : Token}
    (hw : ∀ t ∈ w, t.kind ≠ .endOfInput) (hw' : ∀ t ∈ w', t.kind ≠ .endOfInput)
    (he : e.kind = .endOfInput) (h : w ++ [e] = w' ++ rest)
    (hk : (front s rest).kind = .endOfInput) : w' = w ∧ rest = [e] := by
  -- whichever is cut off first, the end of the input would stand inside the other
  rcases List.append_eq_append_iff.mp h with ⟨u, rfl, hu⟩ | ⟨u, rfl, rfl⟩
  · cases u with
    | nil => exact ⟨List.append_nil w, hu.symm⟩
    | cons t u =>
      obtain ⟨rfl, -⟩ := List.cons.inj hu
      exact absurd he (hw' _ (by simp))
  · cases u with
    | nil => exact ⟨(List.append_nil w').symm, rfl⟩
    | cons t u => exact absurd hk (hw t (by simp))

theorem derives_of_program {w rest : List Token} {e : Token} {x : Node}
    (hw : ∀ t ∈ w, t.kind ≠ .endOfInput) (he : e.kind = .endOfInput)
    (hts : ∀ t ∈ w ++ [e], t.IsGenuine) (hr : program s d (w ++ [e]) = (.ok x, rest)) :
    DerivesProgram d (w ++ [e]) x := by
  obtain ⟨xs, hxs, hk, rfl⟩ := program_eq_ok.mp hr
  obtain ⟨ys, rfl, w', hcons, hys⟩ := sound_statementsAt (soundAt s d) _ _ _ _ hts hxs
  obtain ⟨rfl, rfl⟩ := eq_of_append_eq hw hys.ne_endOfInput he hcons hk
  rw [front_cons, he] at hys
  have hpos : (front s (w' ++ [e])).pos = (w'.headD e).pos := by cases w' <;> rfl
  rw [hpos]
  exact .intro he hys

theorem derives_of_loneExpression {w rest : List Token} {e : Token} {x : Node}
    (hw : ∀ t ∈ w, t.kind ≠ .endOfInput) (he : e.kind = .endOfInput)
    (hts : ∀ t ∈ w ++ [e], t.IsGenuine)
    (hr : loneExpression s d (w ++ [e]) = (.ok x, rest)) :
    DerivesExpression d (w ++ [e]) x := by
  obtain ⟨hread, hk⟩ := loneExpression_eq_ok.mp hr
  obtain ⟨w', hcons, hx⟩ := (soundAt s d).expression _ _ _ hts hread
  obtain ⟨rfl, rfl⟩ := eq_of_append_eq hw hx.ne_endOfInput he hcons hk
  rw [front_cons, he] at hx
  exact .intro he hx

end GnLang.Grammar
