/-
What the rules make of tokens when it is not known what follows them.

Every rule foresees what it makes of the tokens of a text, up to the kinds of tokens that
may follow its phrase: `foresees_unary` and `foresees_expression` for operands and
expressions, `foresees_statements` for statements, and `foresees_items` for a whole
program.  There is one statement for each rule, as for its answers; the nestings that may
still be opened are the induction, in `foresees_insideOf`.

Where a rule is given nothing, or only a word or a sign, it waits for more.  What is
missing there is a mark, an empty string, a zero or a word, and none of these opens a
nesting: whatever has been begun can be completed within the limit.
-/
import GnLang.Proofs.Grammar.Completeness
import GnLang.Proofs.Grammar.Foresight

namespace GnLang.Grammar

open Rule Token

variable {s : Setting} {d : Nat} {S P : TokenKind → Prop} {t e : Token} {u : List Token}

/-! ### At the end of the input -/

/-- What may follow the statements of a program or of a body. -/
def Finishes (k : TokenKind) : Prop := Ends k ∧ k ≠ .ident

theorem finishes_endOfInput : Finishes .endOfInput := ⟨ends_endOfInput, by simp⟩

theorem finishes_rbrace : Finishes (.symbol .rbrace) := ⟨⟨by simp [Trails], rfl⟩, by simp⟩

theorem spellable_empty : (quoted "" .unknown).Spellable :=
  .quoted _ (by simp [Text.IsQuotable])

theorem numeral_zero : Text.Numeral "0" 0 := Text.numeral_toString 0

theorem spellable_zero : (digits "0" .unknown).Spellable := .digits _ numeral_zero

theorem spellable_word : (word "a" .unknown).Spellable :=
  .word _ ⟨'a', [], rfl, by decide, List.forall_mem_nil _⟩

theorem primary_end (inside : Option Inside) (he : e.kind = .endOfInput) :
    primary s inside [e] = (.error (.parse (.unexpected "expression" e)), [e]) := by
  rw [primary_cons, he]
  rfl

theorem unary_end (inside : Option Inside) (he : e.kind = .endOfInput) :
    unary s inside [e] = (.error (.parse (.unexpected "expression" e)), [e]) := by
  rw [unary_cons, he, if_neg (by decide), primary_end inside he]

theorem expression_end (inside : Option Inside) (he : e.kind = .endOfInput) :
    expression s inside [e] = (.error (.parse (.unexpected "expression" e)), [e]) := by
  rw [expression_eq]
  exact bind_of_error (unary_end inside he)

/-! ### Numbers and words -/

theorem foresees_unsigned (negative : Bool) (p : Pos) :
    Foresees s (fun _ => True) (unsigned s negative p) := by
  intro u hu
  cases u with
  | nil =>
    refine .waits ⟨(progresses_unsigned s negative p).advances, fun e he => ?_,
      [digits "0" .unknown], .integer 0 p, List.forall_mem_singleton.mpr spellable_zero, ?_⟩
    · refine .inr ⟨"integer literal", ?_⟩
      refine bind_of_error ?_
      rw [List.nil_append, expect_apply, front_cons, he, if_neg (by simp), failAt_apply, front_cons]
    · intro v _
      have hzero : integerOf negative p "0" = .ok (.integer 0 p) := by
        rw [integerOf_eq numeral_zero]
        cases negative <;> rfl
      exact ⟨trivial, unsigned_eq_ok.mpr ⟨digits "0" .unknown, rfl, rfl, hzero⟩⟩
  | cons t u =>
    obtain ⟨ht, hgenuine⟩ := hu t List.mem_cons_self
    refine decided_expect ht "integer literal" fun hk => ?_
    obtain ⟨n, hn⟩ := hgenuine.numeral hk
    -- a number too large for an integer stays so, whatever follows it
    rw [integerOf_eq hn]
    generalize (if negative then -(n : Int) else n) = m
    by_cases hfits : Node.fitsInteger m = true
    · rw [if_pos hfits]
      exact decided_pure (Node.integer m p) u
    · rw [if_neg hfits]
      exact .refuses fun v => ⟨_, u, rfl, .outOfRange⟩

theorem decided_integer (hu : Proper (t :: u)) :
    Decided s (fun _ => True) (integer s) (t :: u) := by
  by_cases hk : t.kind = .symbol .sub
  · refine .of_eq (List.suffix_cons t u) (fun v => ?_)
      (foresees_unsigned true t.pos u (hu.of_suffix (List.suffix_cons t u)))
    rw [List.cons_append, integer_cons, if_pos hk]
  · refine .of_eq (List.suffix_refl _) (fun v => ?_)
      (foresees_unsigned false t.pos (t :: u) hu)
    rw [List.cons_append, integer_cons, if_neg hk]

theorem decided_string (hk : t.kind = .string) : Decided s P (string s) (t :: u) :=
  .settles (List.suffix_cons t u) fun _ => string_eq_ok.mpr ⟨t, rfl, hk, rfl⟩

theorem decided_identifier (hk : t.kind = .ident) : Decided s P (identifier s) (t :: u) :=
  .settles (List.suffix_cons t u) fun _ => identifier_eq_ok.mpr ⟨t, rfl, hk, rfl⟩

theorem decided_scopeAccess (hu : Proper (t :: u)) (hne : u ≠ []) :
    Decided s (fun _ => True) (scopeAccess s) (t :: u) := by
  cases u with
  | nil => exact absurd rfl hne
  | cons t' u =>
    refine decided_expect (hu t (by simp)).1 _ fun _ => ?_
    refine decided_expect (hu t' (by simp)).1 _ fun _ => ?_
    cases u with
    | nil =>
      refine Waits.decided (S := (· = .ident)) ?_
      refine (waits_expect (t := word "a" .unknown) (by simp) spellable_word _).bind
        (T := fun _ => True) (fun _ _ => waits_pure _ fun _ => id) fun _ _ => trivial
    | cons t'' u => exact decided_expect (hu t'' (by simp)).1 _ fun _ => decided_pure _ u

/-! ### Rounds -/

/-- The end of a round: `a` after a comma, and `b` where there is none. -/
def commaThen {β : Type} (s : Setting) (a b : β) : Rule β := do
  if ← isAt s [.symbol .comma] then
    skip s
    pure a
  else pure b

theorem decided_commaThen {β : Type} (a b : β) (ht : t.kind ≠ .endOfInput) :
    Decided s P (commaThen s a b) (t :: u) := by
  by_cases hk : t.kind = .symbol .comma
  · refine .settles (x := a) (List.suffix_cons t u) fun v => ?_
    rw [commaThen, isAt_bind, run_ite, List.cons_append, front_cons, if_pos (decide_eq_true hk),
      skip_bind s ht, pure_apply]
  · refine .settles (x := b) (List.suffix_refl _) fun v => ?_
    rw [commaThen, isAt_bind, run_ite, List.cons_append, front_cons, if_neg (by simpa using hk),
      pure_apply]

theorem commaThen_apply {β : Type} (a b : β) {ts : List Token}
    (h : (front s ts).kind ≠ .symbol .comma) : commaThen s a b ts = (.ok b, ts) := by
  rw [commaThen, isAt_bind, run_ite, if_neg (by simpa using h), pure_apply]

theorem waits_commaThen {β : Type} {k : TokenKind} (hk : k ≠ .symbol .comma) (a b : β) :
    Waits s (· = k) (· = k) (commaThen s a b) [] := by
  refine ⟨?_, fun e he => .inl ⟨b, ?_⟩, [], b, List.forall_mem_nil _, ?_⟩
  · exact (advances_isAt s _).bind fun _ =>
      ((advances_skip s).bind fun _ => advances_pure _).ite (advances_pure _)
  · exact commaThen_apply a b (by simp [he])
  · rintro v rfl
    exact ⟨rfl, commaThen_apply a b hk⟩

section

variable {item : Rule Node}

/-- An item, and a comma if one follows, are decided before a closing mark. -/
theorem Foresees.thenComma {β : Type} (h : Foresees s Ends item) {k : TokenKind} (hk : Ends k)
    (hcomma : k ≠ .symbol .comma) (a b : Node → β) :
    Foresees s (· = k) (item >>= fun x => commaThen s (a x) (b x)) := by
  refine h.bind (T := (· = k)) (fun x t q _ hq => ?_) (fun x _ => ?_) ?_
  · exact decided_commaThen (a x) (b x) (hq t List.mem_cons_self).1
  · exact waits_commaThen hcomma (a x) (b x)
  · rintro _ rfl
    exact hk

theorem decided_elementRound (h : Foresees s Ends item) (done : List Node) (t : Token)
    (u : List Token) (hu : Proper (t :: u)) :
    Decided s (· = .symbol .rbrack) (elementRound s item done) (t :: u) := by
  by_cases hk : t.kind = .symbol .rbrack
  · exact .settles (List.suffix_refl _) fun v => elementRound_eq_ok.mpr (.inl ⟨hk, rfl, rfl⟩)
  · have hitem := h.thenComma (ends_closing (m := .rbrack) (.inl rfl)) (by simp)
      (fun x => (.inr (x :: done) : List Node ⊕ List Node)) (fun x => .inr (x :: done)) _ hu
    refine hitem.of_eq (List.suffix_refl _) fun v => ?_
    rw [elementRound, isAt_bind, run_ite, List.cons_append, front_cons,
      if_neg (by simpa using hk), isAt_bind, run_ite, front_cons,
      if_neg (by simpa using (hu t List.mem_cons_self).1)]
    rfl

theorem decided_argumentRound (h : Foresees s Ends item) (done : List Node) (t : Token)
    (u : List Token) (hu : Proper (t :: u)) :
    Decided s (· = .symbol .rparen) (argumentRound s item done) (t :: u) := by
  by_cases hk : t.kind = .symbol .rparen
  · exact .settles (List.suffix_refl _) fun v => argumentRound_eq_ok.mpr (.inl ⟨hk, rfl, rfl⟩)
  · have hitem := h.thenComma (ends_closing (m := .rparen) (.inr (.inl rfl))) (by simp)
      (fun x => (.inr (x :: done) : List Node ⊕ List Node)) (fun x => .inl (x :: done).reverse) _ hu
    refine hitem.of_eq (List.suffix_refl _) fun v => ?_
    rw [argumentRound, isAt_bind, run_ite, List.cons_append, front_cons,
      if_neg (by simpa using hk)]
    rfl

theorem decided_chainRound (h : Foresees s Trails item) (left : Node) (t : Token)
    (u : List Token) (hu : Proper (t :: u)) :
    Decided s Trails (chainRound s item left) (t :: u) := by
  by_cases hk : t.kind.isBinary = true
  · obtain ⟨ht, hgenuine⟩ := hu t List.mem_cons_self
    -- the construction of the tree cannot fail, as the operator is genuine
    obtain ⟨o, ho⟩ := eq_mark_of_isBinary hgenuine hk
    have hu' := hu.of_suffix (List.suffix_cons t u)
    refine Decided.of_eq (List.suffix_cons t u) (fun v => ?_)
      ((h u hu').map fun right => .inr (.binary left o right left.pos))
    rw [chainRound, look_bind, run_ite, List.cons_append, front_cons, if_pos hk,
      skip_bind s ht, ho]
    simp only [show (mark o.symbol t.pos).text = o.symbol.text from rfl, binary?_text]
    rfl
  · exact .settles (List.suffix_refl _) fun v =>
      chainRound_eq_ok.mpr (.inl ⟨by simpa using hk, rfl, rfl⟩)

theorem decided_statementRound (h : t.kind = .ident → Decided s Ends item (t :: u))
    (done : List Node) : Decided s Ends (statementRound s item done) (t :: u) := by
  by_cases hk : t.kind = .ident
  · refine ((h hk).map fun x => .inr (x :: done)).of_eq (List.suffix_refl _) fun v => ?_
    rw [statementRound, isAt_bind, run_ite, List.cons_append, front_cons,
      if_pos (decide_eq_true hk)]
  · exact .settles (List.suffix_refl _) fun v =>
      statementRound_eq_ok.mpr (.inl ⟨hk, rfl, rfl⟩)

end

/-! ### Repetitions that are given nothing -/

theorem waits_elementsAt (done : List Node) :
    Waits s (· = .symbol .rbrack) (· = .symbol .rbrack) (elementsAt s d done) [] := by
  refine ⟨?_, fun e he => .inr ⟨"']' to close list", ?_⟩, [], done.reverse,
    List.forall_mem_nil _, ?_⟩
  · exact Advances.repeats (advances_elementRound s
      (progresses_expression s fun _ => progresses_insideOf s d).advances) done
  · rw [elementsAt_eq]
    refine bind_of_error ?_
    rw [List.nil_append, elementRound, isAt_bind, run_ite, front_cons, if_neg (by simp [he]),
      isAt_bind, run_ite, front_cons, if_pos (decide_eq_true he), failAt_apply, front_cons]
  · intro v hv
    exact ⟨hv, elementsAt_eq_ok.mpr (.inl ⟨hv, rfl, rfl⟩)⟩

theorem waits_argumentsAt (done : List Node) :
    Waits s (· = .symbol .rparen) (· = .symbol .rparen) (argumentsAt s d done) [] := by
  refine ⟨?_, fun e he => .inr ⟨"expression", ?_⟩, [], done.reverse, List.forall_mem_nil _, ?_⟩
  · exact Advances.repeats (advances_argumentRound s
      (progresses_expression s fun _ => progresses_insideOf s d).advances) done
  · rw [argumentsAt_eq]
    refine bind_of_error ?_
    rw [List.nil_append, argumentRound, isAt_bind, run_ite, front_cons, if_neg (by simp [he])]
    exact bind_of_error (expression_end _ he)
  · intro v hv
    exact ⟨hv, argumentsAt_eq_ok.mpr (.inl ⟨hv, rfl, rfl⟩)⟩

theorem waits_chainAt (left : Node) : Waits s Ends Ends (chainAt s d left) [] := by
  refine ⟨?_, fun e he => .inl ⟨left, ?_⟩, [], left, List.forall_mem_nil _, ?_⟩
  · exact Advances.repeats (advances_chainRound s
      (progresses_unary s fun _ => progresses_insideOf s d).advances) left
  · refine chainAt_eq_ok.mpr (.inl ⟨?_, rfl, rfl⟩)
    rw [List.nil_append, front_cons, he]
    rfl
  · intro v hv
    exact ⟨hv, chainAt_eq_ok.mpr (.inl ⟨hv.2, rfl, rfl⟩)⟩

theorem waits_statementsAt (done : List Node) :
    Waits s Finishes Finishes (statementsAt s d done) [] := by
  refine ⟨?_, fun e he => .inl ⟨done.reverse, ?_⟩, [], done.reverse, List.forall_mem_nil _, ?_⟩
  · exact Advances.repeats (advances_statementRound s
      (begins_statement s fun _ => progresses_insideOf s d).progresses.advances) done
  · exact statementsAt_eq_ok.mpr (.inl ⟨by simp [he], rfl, rfl⟩)
  · intro v hv
    exact ⟨hv, statementsAt_eq_ok.mpr (.inl ⟨hv.2, rfl, rfl⟩)⟩

/-! ### Nestings -/

/-- What the rules for the inside of a nesting must foresee for those around it. -/
structure ForeseesInside (s : Setting) (d : Nat) : Prop where
  unary : Foresees s Trails (unary s (insideOf s d))
  expression : Foresees s Ends (expression s (insideOf s d))
  statements : Foresees s Finishes (statements s (insideOf s d))

section

variable (h : ∀ c, d = c + 1 → ForeseesInside s c)

include h

/-- The inside of a nesting is foreseen, or too deep. -/
theorem foresees_inside {α : Type} {body : Inside → Rule α}
    (hbody : ∀ c, ForeseesInside s c → Foresees s P (body ⟨unary s (insideOf s c),
      expression s (insideOf s c), statements s (insideOf s c)⟩)) :
    Foresees s P (enter s (insideOf s d) body) := by
  refine foresees_enter fun rules hr => ?_
  cases d with
  | zero => cases hr
  | succ c =>
    cases hr
    exact hbody c (h c rfl)

theorem foresees_listInside :
    Foresees s (fun _ => True) (enter s (insideOf s d) (listInside s)) := by
  refine foresees_inside h fun c hc => ?_
  have helements : Foresees s (· = .symbol .rbrack) (elementsAt s c []) :=
    foresees_repeats (consuming_elementRound s
        (progresses_expression s fun _ => progresses_insideOf s c))
      (decided_elementRound hc.expression) waits_elementsAt (fun _ => id) []
  exact helements.closed rfl _

theorem foresees_callInside :
    Foresees s (fun _ => True) (enter s (insideOf s d) (callInside s)) := by
  refine foresees_inside h fun c hc => ?_
  have harguments : Foresees s (· = .symbol .rparen) (argumentsAt s c []) :=
    foresees_repeats (consuming_argumentRound s
        (progresses_expression s fun _ => progresses_insideOf s c))
      (decided_argumentRound hc.expression) waits_argumentsAt (fun _ => id) []
  exact harguments.closed rfl _

theorem decided_bracketedList (hu : Proper (t :: u)) :
    Decided s (fun _ => True) (bracketedList s (insideOf s d)) (t :: u) := by
  rw [bracketedList_eq]
  refine decided_expect (hu t List.mem_cons_self).1 _ fun _ => ?_
  exact (foresees_listInside h u (hu.of_suffix (List.suffix_cons t u))).map _

theorem decided_block (hu : Proper (t :: u)) :
    Decided s (fun _ => True) (block s (insideOf s d)) (t :: u) := by
  refine decided_expect (hu t List.mem_cons_self).1 _ fun _ => ?_
  refine Decided.map ?_ _
  refine foresees_inside h (fun c hc => ?_) u (hu.of_suffix (List.suffix_cons t u))
  exact hc.statements.closed finishes_rbrace _

theorem decided_callEnd (name opening : Token) (args : List Node) (hu : Proper (t :: u)) :
    Decided s Trails (callEnd s (insideOf s d) name opening args) (t :: u) := by
  by_cases hk : t.kind = .symbol .lbrace
  · have hblock := (decided_block h hu).mono (Q := Trails) fun _ _ => trivial
    refine (hblock.map fun body =>
      .call name.text (.list args opening.pos) (some body) name.pos).of_eq
        (List.suffix_refl _) fun v => ?_
    rw [callEnd, isAt_bind, run_ite, List.cons_append, front_cons, if_pos (decide_eq_true hk)]
  · exact .settles (List.suffix_refl _) fun v => callEnd_eq_ok.mpr (.inl ⟨hk, rfl, rfl⟩)

omit h in
theorem waits_callEnd (name opening : Token) (args : List Node) :
    Waits s Trails Trails (callEnd s (insideOf s d) name opening args) [] := by
  refine ⟨?_, fun e he => .inl ⟨_, callEnd_eq_ok.mpr (.inl ⟨by simp [he], rfl, rfl⟩)⟩, [], _,
    List.forall_mem_nil _, fun v hv => ⟨hv, callEnd_eq_ok.mpr (.inl ⟨hv.2.2.2, rfl, rfl⟩)⟩⟩
  refine (advances_isAt s _).bind fun _ => Advances.ite ?_ (advances_pure _)
  exact (begins_block s fun _ => progresses_insideOf s d).progresses.advances.bind fun _ =>
    advances_pure _

theorem decided_call (hu : Proper (t :: u)) (hne : u ≠ []) :
    Decided s Trails (call s (insideOf s d)) (t :: u) := by
  rw [call_eq]
  cases u with
  | nil => exact absurd rfl hne
  | cons t' u =>
    refine decided_expect (hu t (by simp)).1 _ fun _ => ?_
    refine decided_expect (hu t' (by simp)).1 _ fun _ => ?_
    have hu' : Proper u := fun t'' ht => hu t'' (by simp [ht])
    refine (foresees_callInside h u hu').bind (T := Trails) (fun args t'' q hq _ => ?_)
      (fun args _ => waits_callEnd t t' args) fun _ _ => trivial
    exact decided_callEnd h t t' args (hu'.of_suffix hq)

theorem decided_arrayAccess (hu : Proper (t :: u)) (hne : u ≠ []) :
    Decided s (fun _ => True) (arrayAccess s (insideOf s d)) (t :: u) := by
  cases u with
  | nil => exact absurd rfl hne
  | cons t' u =>
    refine decided_expect (hu t (by simp)).1 _ fun _ => ?_
    refine decided_expect (hu t' (by simp)).1 _ fun _ => ?_
    refine Decided.map ?_ _
    refine foresees_inside h (fun c hc => ?_) u fun t'' ht => hu t'' (by simp [ht])
    exact hc.expression.closed (ends_closing (.inl rfl)) _

theorem decided_parenthesized (hu : Proper (t :: u)) :
    Decided s (fun _ => True) (parenthesized s (insideOf s d)) (t :: u) := by
  refine decided_expect (hu t List.mem_cons_self).1 _ fun _ => ?_
  refine foresees_inside h (fun c hc => ?_) u (hu.of_suffix (List.suffix_cons t u))
  exact hc.expression.closed (ends_closing (.inr (.inl rfl))) _

/-! ### Operands and expressions -/

omit h in
theorem waits_target_word (n : String) (p : Pos) :
    Waits s Trails Trails (target s (insideOf s d)) [word n p] := by
  refine ⟨fun v => ?_, fun e he => .inl ⟨.identifier n p, ?_⟩, [], .identifier n p,
    List.forall_mem_nil _, ?_⟩
  · exact (begins_target s fun _ => progresses_insideOf s d).takes _ v rfl
  · exact target_of_identifier (by simp [he]) (by simp [he])
  · intro v hv
    exact ⟨hv, target_of_identifier hv.2.1 hv.2.2.1⟩

omit h in
theorem waits_primary_word (n : String) (p : Pos) :
    Waits s (fun _ => True) Trails (primary s (insideOf s d)) [word n p] := by
  refine ⟨fun v => ?_, fun e he => .inl ⟨.identifier n p, ?_⟩, [], .identifier n p,
    List.forall_mem_nil _, ?_⟩
  · -- a word before '(' is read as a call, and any other as a target
    rw [List.singleton_append, primary_cons]
    show (ite _ _ _ : Except Failure Node × List Token).2 <:+ v
    split
    · exact (begins_call s fun _ => progresses_insideOf s d).takes _ v rfl
    · exact (begins_target s fun _ => progresses_insideOf s d).takes _ v rfl
  · rw [List.singleton_append, primary_of_target rfl (by simp [he])]
    exact target_of_identifier (by simp [he]) (by simp [he])
  · intro v hv
    refine ⟨trivial, Eq.trans (primary_of_target rfl hv.1) ?_⟩
    exact target_of_identifier hv.2.1 hv.2.2.1

/-- A word and the token after it tell what kind of target they begin. -/
theorem decided_target (hu : Proper (t :: u)) (hk : t.kind = .ident) :
    Decided s Trails (target s (insideOf s d)) (t :: u) := by
  cases u with
  | nil =>
    rw [eq_word hk]
    exact (waits_target_word t.text t.pos).decided
  | cons t' u =>
    have heq : ∀ v, target s (insideOf s d) (t :: t' :: u ++ v) = _ := fun v =>
      (target_cons _ t (t' :: u ++ v)).trans (if_pos hk)
    have hne : t' :: u ≠ [] := List.cons_ne_nil t' u
    have hidentifier := decided_identifier (s := s) (P := Trails) (u := t' :: u) hk
    have hfront : ∀ v, (front s (t' :: u ++ v)).kind = t'.kind := fun _ => rfl
    simp only [hfront] at heq
    cases hk' : t'.kind with
    | symbol m =>
      rw [hk'] at heq
      cases m with
      | lbrack =>
        exact ((decided_arrayAccess h hu hne).mono fun _ _ => trivial).of_eq
          (List.suffix_refl _) heq
      | dot =>
        exact ((decided_scopeAccess hu hne).mono fun _ _ => trivial).of_eq
          (List.suffix_refl _) heq
      | _ => exact hidentifier.of_eq (List.suffix_refl _) heq
    | _ =>
      rw [hk'] at heq
      exact hidentifier.of_eq (List.suffix_refl _) heq

theorem decided_primary (hu : Proper (t :: u)) :
    Decided s Trails (primary s (insideOf s d)) (t :: u) := by
  have heq : ∀ v, primary s (insideOf s d) (t :: u ++ v) = _ := fun v =>
    primary_cons (insideOf s d) t (u ++ v)
  cases hk : t.kind with
  | ident =>
    -- a word at the end may become a call, an index, a scope or nothing of the kind
    cases u with
    | nil =>
      rw [eq_word hk]
      exact .waits (waits_primary_word t.text t.pos)
    | cons t' u =>
      rw [hk] at heq
      dsimp only at heq
      by_cases hcall : t'.kind = .symbol .lparen
      · exact (decided_call h hu (List.cons_ne_nil t' u)).of_eq (List.suffix_refl _) fun v =>
          (heq v).trans (if_pos hcall)
      · exact (decided_target h hu hk).of_eq (List.suffix_refl _) fun v =>
          (heq v).trans (if_neg hcall)
  | string =>
    rw [hk] at heq
    exact (decided_string hk).of_eq (List.suffix_refl _) heq
  | number =>
    rw [hk] at heq
    exact ((decided_integer hu).mono fun _ _ => trivial).of_eq (List.suffix_refl _) heq
  | endOfInput => exact absurd hk (hu t List.mem_cons_self).1
  -- no operand begins with the token, now or later
  | stray | other n =>
    rw [hk] at heq
    exact (decided_failAt (by simp [hk]) _ u).of_eq (List.suffix_refl _) heq
  | symbol m =>
    rw [hk] at heq
    cases m with
    | lbrack =>
      exact ((decided_bracketedList h hu).mono fun _ _ => trivial).of_eq (List.suffix_refl _) heq
    | lparen =>
      exact ((decided_parenthesized h hu).mono fun _ _ => trivial).of_eq (List.suffix_refl _) heq
    | sub => exact ((decided_integer hu).mono fun _ _ => trivial).of_eq (List.suffix_refl _) heq
    | _ => exact (decided_failAt (by simp [hk]) _ u).of_eq (List.suffix_refl _) heq

omit h in
theorem waits_unary : Waits s (fun _ => True) Trails (unary s (insideOf s d)) [] := by
  refine ⟨?_, fun e he => .inr ⟨"expression", unary_end _ he⟩, [quoted "" .unknown],
    .string "" .unknown, List.forall_mem_singleton.mpr spellable_empty, fun v _ => ?_⟩
  · exact (progresses_unary s fun _ => progresses_insideOf s d).advances
  · exact ⟨trivial, (Derives.ofPrimary .string).reads v trivial rfl⟩

theorem foresees_unary : Foresees s Trails (unary s (insideOf s d)) := by
  intro u hu
  cases u with
  | nil => exact .waits waits_unary
  | cons t u =>
    by_cases hk : t.kind.isUnary = true
    · obtain ⟨o, ho⟩ := eq_mark_of_isUnary (hu t List.mem_cons_self).2 hk
      have hoperand : Foresees s Trails (enter s (insideOf s d) fun rules => rules.unary) :=
        foresees_inside h fun c hc => hc.unary
      refine ((hoperand u (hu.of_suffix (List.suffix_cons t u))).map fun x =>
        .unary o x t.pos).of_eq (List.suffix_cons t u) fun v => ?_
      rw [List.cons_append, unary_cons, if_pos hk, ho]
      simp only [show (mark o.symbol t.pos).text = o.symbol.text from rfl, unary?_text]
      rfl
    · refine (decided_primary h hu).of_eq (List.suffix_refl _) fun v => ?_
      rw [List.cons_append, unary_cons, if_neg hk]

theorem foresees_expression : Foresees s Ends (expression s (insideOf s d)) := by
  have hchain : ∀ left, Foresees s Ends (chainAt s d left) :=
    foresees_repeats (consuming_chainRound s
        (progresses_unary s fun _ => progresses_insideOf s d))
      (decided_chainRound (foresees_unary h)) waits_chainAt fun _ hk => hk.1
  rw [expression_eq]
  exact (foresees_unary h).bind (T := Ends) (fun left t q _ hq => hchain left _ hq)
    (fun left _ => waits_chainAt left) fun _ hk => hk.1

/-! ### Statements -/

/-- What follows the target of an assignment. -/
def assigned (s : Setting) (inside : Option Inside) (left : Node) : Rule Node := do
  let t ← look s
  if t.kind.isAssign then
    skip s
    let value ← expression s inside
    ofExcept (Node.assignment? left t.text value left.pos)
  else failAt s "assignment operator ('=', '+=' or '-=')"

omit h in
theorem assignment_eq :
    assignment s (insideOf s d) = target s (insideOf s d) >>= assigned s (insideOf s d) := rfl

omit h in
theorem isTarget_of_target {ts rest : List Token} {x : Node}
    (hx : target s (insideOf s d) ts = (.ok x, rest)) : x.isTarget = true := by
  cases ts with
  | nil => exact absurd hx (failAt_ne_ok s)
  | cons t ts =>
    rw [target_cons] at hx
    generalize (front s ts).kind = k at hx
    split at hx
    · split at hx
      · obtain ⟨_, _, _, _, _, _, -, -, -, -, -, -, rfl⟩ := arrayAccess_eq_ok.mp hx
        rfl
      · obtain ⟨_, _, _, -, -, -, -, rfl⟩ := scopeAccess_eq_ok.mp hx
        rfl
      · obtain ⟨_, -, -, rfl⟩ := identifier_eq_ok.mp hx
        rfl
    · exact absurd hx (failAt_ne_ok s)

omit h in
theorem isTarget_of_canAnswer {x : Node} (hx : CanAnswer Trails (target s (insideOf s d)) x) :
    x.isTarget = true := by
  obtain ⟨ts, rest, hok⟩ := hx .endOfInput ends_endOfInput.1
  exact isTarget_of_target hok

omit h in
/-- An assignment that has only its target is completed by '=' and a string. -/
theorem waits_assigned {left : Node} (hleft : left.isTarget = true) :
    Waits s (· = .symbol .assign) Ends (assigned s (insideOf s d) left) [] := by
  refine ⟨?_, fun e he => .inr ⟨"assignment operator ('=', '+=' or '-=')", ?_⟩,
    [mark .assign .unknown, quoted "" .unknown],
    .assignment left .set (.string "" .unknown) left.pos, ?_, fun v hv => ⟨rfl, ?_⟩⟩
  · refine (advances_look s).bind fun t => Advances.ite ?_ (advances_failAt s _)
    refine (advances_skip s).bind fun _ => ?_
    exact (progresses_expression s fun _ => progresses_insideOf s d).advances.bind fun value =>
      advances_ofExcept _
  · rw [List.nil_append, assigned, look_bind, run_ite, front_cons, he, if_neg (by decide),
      failAt_apply, front_cons]
  · exact List.forall_mem_cons.mpr ⟨.mark .assign _, List.forall_mem_singleton.mpr spellable_empty⟩
  · have hvalue : Derives d (.expression (.string "" .unknown)) [quoted "" .unknown]
        (front s v).kind := .expression (.ofPrimary .string) (.noOperator hv.2)
    have hread : expression s (insideOf s d) (quoted "" .unknown :: v) =
        (.ok (.string "" .unknown), v) := hvalue.reads v trivial rfl
    show assigned s (insideOf s d) left (mark .assign .unknown :: quoted "" .unknown :: v) = _
    rw [assigned, look_bind, run_ite, front_cons, if_pos (by decide), skip_bind s (by simp),
      bind_of_ok hread]
    exact ofExcept_eq_ok.mpr ⟨assignment?_text hleft .set _ _, rfl⟩

theorem decided_assigned {left : Node} (hleft : left.isTarget = true) (hu : Proper (t :: u)) :
    Decided s Ends (assigned s (insideOf s d) left) (t :: u) := by
  obtain ⟨ht, hgenuine⟩ := hu t List.mem_cons_self
  by_cases hk : t.kind.isAssign = true
  · obtain ⟨o, ho⟩ := eq_mark_of_isAssign hgenuine hk
    have hvalue := foresees_expression h u (hu.of_suffix (List.suffix_cons t u))
    refine (hvalue.map fun value => .assignment left o value left.pos).of_eq
      (List.suffix_cons t u) fun v => ?_
    rw [List.cons_append, assigned, look_bind, run_ite, front_cons, if_pos hk, skip_bind s ht, ho]
    simp only [show (mark o.symbol t.pos).text = o.symbol.text from rfl, assignment?_text hleft]
    rfl
  · refine (decided_failAt ht "assignment operator ('=', '+=' or '-=')" u).of_eq
      (List.suffix_refl _) fun v => ?_
    rw [List.cons_append, assigned, look_bind, run_ite, front_cons, if_neg hk]

theorem decided_assignment (hu : Proper (t :: u)) (hk : t.kind = .ident) :
    Decided s Ends (assignment s (insideOf s d)) (t :: u) := by
  have htarget : ∀ k, k = .symbol .assign → Trails k := by
    rintro k rfl
    simp [Trails]
  rw [assignment_eq]
  refine (decided_target h hu hk).bind (fun left t' q hq hok => ?_)
    (fun left hx => waits_assigned (isTarget_of_canAnswer hx)) htarget
  exact decided_assigned h (isTarget_of_target (hok [])) (hu.of_suffix hq)

omit h in
theorem waits_statement_word (n : String) (p : Pos) :
    Waits s (fun _ => True) Ends (statement s (insideOf s d)) [word n p] := by
  have hassignment : ∀ v, (front s v).kind ≠ .symbol .lparen →
      statement s (insideOf s d) (word n p :: v) =
        (target s (insideOf s d) >>= assigned s (insideOf s d)) (word n p :: v) :=
    fun v hv => (statement_cons _ _ v).trans (if_neg fun hc => hv hc.2)
  -- what completes the assignment begins with no '(', which would make it a call
  have hwaits : Waits s Trails Ends (target s (insideOf s d) >>= assigned s (insideOf s d))
      [word n p] := by
    refine (waits_target_word n p).bind
      (fun left hx => waits_assigned (isTarget_of_canAnswer hx)) ?_
    rintro k rfl
    simp [Trails]
  refine ⟨fun v => ?_, fun e he => ?_, ?_⟩
  · exact (begins_statement s fun _ => progresses_insideOf s d).takes _ v rfl
  · rw [List.singleton_append, hassignment [e] (by simp [he])]
    exact hwaits.atEnd e he
  · obtain ⟨c, x, hc, hx⟩ := hwaits.completes
    refine ⟨c, x, hc, fun v hv => ⟨trivial, ?_⟩⟩
    obtain ⟨hstarts, hok⟩ := hx v hv
    exact (hassignment (c ++ v) hstarts.1).trans hok

theorem decided_statement (hu : Proper (t :: u)) (hk : t.kind = .ident) :
    Decided s Ends (statement s (insideOf s d)) (t :: u) := by
  cases u with
  | nil =>
    rw [eq_word hk]
    exact .waits (waits_statement_word t.text t.pos)
  | cons t' u =>
    by_cases hcall : t'.kind = .symbol .lparen
    · refine ((decided_call h hu (List.cons_ne_nil t' u)).mono fun _ hk => hk.1).of_eq
        (List.suffix_refl _) fun v => ?_
      exact (statement_cons _ t _).trans (if_pos ⟨hk, hcall⟩)
    · refine (decided_assignment h hu hk).of_eq (List.suffix_refl _) fun v => ?_
      exact (statement_cons _ t _).trans (if_neg fun hc => hcall hc.2)

theorem foresees_statements : Foresees s Finishes (statements s (insideOf s d)) := by
  rw [statements_eq]
  refine foresees_repeats (consuming_statementRound s
      (begins_statement s fun _ => progresses_insideOf s d).progresses)
    (fun done t u hu => ?_) waits_statementsAt (fun _ hk => hk.1) []
  exact decided_statementRound (decided_statement h hu) done

end

/-! ### Levels -/

theorem foresees_insideOf (d : Nat) : ForeseesInside s d := by
  induction d with
  | zero =>
    have hnone : ∀ c, 0 = c + 1 → ForeseesInside s c := nofun
    exact ⟨foresees_unary hnone, foresees_expression hnone, foresees_statements hnone⟩
  | succ d ih =>
    have hinside : ∀ c, d + 1 = c + 1 → ForeseesInside s c := by
      rintro _ ⟨⟩
      exact ih
    exact ⟨foresees_unary hinside, foresees_expression hinside, foresees_statements hinside⟩

/-! ### Whole texts -/

/-- What must be all of the input is decided or up to what follows, if it can stop at the
end. -/
theorem Foresees.atEnd {α : Type} {r : Rule α} (hr : Foresees s P r) (hP : P .endOfInput) :
    Foresees s (· = .endOfInput) (do let x ← r; ended s; pure x) := by
  refine hr.bind (T := (· = .endOfInput)) (fun x t q _ hq => ?_) (fun x _ => ?_) ?_
  · obtain ⟨ht, -⟩ := hq t List.mem_cons_self
    refine .refuses fun v => ⟨_, t :: q, bind_of_error ?_, .leftOver ht⟩
    rw [List.cons_append, ended, look_bind, run_ite, front_cons, if_neg ht, fail_apply]
  · have hend : ∀ v, (front s v).kind = .endOfInput →
        (do ended s; pure x : Rule α) v = (.ok x, v) :=
      fun v hv => bind_eq_ok.mpr ⟨(), v, ended_eq_ok.mpr ⟨hv, rfl⟩, rfl⟩
    refine ⟨?_, fun e he => .inl ⟨x, hend [e] he⟩, [], x, List.forall_mem_nil _,
      fun v hv => ⟨hv, hend v hv⟩⟩
    refine Advances.bind ?_ fun _ => advances_pure x
    exact (advances_look s).bind fun t => (advances_pure ()).ite (advances_fail _)
  · rintro k rfl
    exact hP

/-- The statements of a whole program. -/
def items (s : Setting) (d : Nat) : Rule (List Node) := do
  let xs ← statements s (insideOf s d)
  ended s
  pure xs

/-- A program is its statements, placed at the first token. -/
theorem program_apply (d : Nat) (ts : List Token) :
    program s d ts = (do let xs ← items s d; pure (Node.list xs (front s ts).pos)) ts := by
  simp only [program, statementList, items, look_bind, bind_assoc, pure_bind]

theorem foresees_items (d : Nat) : Foresees s (· = .endOfInput) (items s d) :=
  (foresees_insideOf d).statements.atEnd finishes_endOfInput

theorem foresees_loneExpression (d : Nat) :
    Foresees s (· = .endOfInput) (loneExpression s d) :=
  (foresees_insideOf d).expression.atEnd ends_endOfInput

theorem items_eq_ok {xs : List Node} {ts rest : List Token} :
    items s d ts = (.ok xs, rest) ↔
      statementsAt s d [] ts = (.ok xs, rest) ∧ (front s rest).kind = .endOfInput := by
  simp only [items, statements_eq, bind_eq_ok, pure_eq_ok, ended_eq_ok]
  constructor
  · rintro ⟨xs, mid, hxs, _, _, ⟨hk, rfl⟩, rfl, rfl⟩
    exact ⟨hxs, hk⟩
  · rintro ⟨hxs, hk⟩
    exact ⟨xs, rest, hxs, (), rest, ⟨hk, rfl⟩, rfl, rfl⟩

/-- Nothing settles that a text is a program before it has ended. -/
theorem items_refuses_or_waits (d : Nat) (hu : Proper u) :
    Refuses (items s d) u ∨ Waits s (fun _ => True) (· = .endOfInput) (items s d) u := by
  cases foresees_items (s := s) d u hu with
  | @settles xs q hq hr =>
    -- no program goes on with a comma
    obtain ⟨-, hk⟩ := items_eq_ok.mp (hr [mark .comma .unknown])
    cases q with
    | nil => exact absurd hk (by simp)
    | cons t q => exact absurd hk (hu t (hq.subset List.mem_cons_self)).1
  | refuses hr => exact .inl hr
  | waits hr => exact .inr hr

theorem program_of_refuses (h : Refuses (items s d) u) (v : List Token) :
    ∃ f q, program s d (u ++ v) = (.error f, q ++ v) ∧ Refusal f q := by
  obtain ⟨f, q, hr, hf⟩ := h v
  rw [program_apply]
  exact ⟨f, q, bind_of_error hr, hf⟩

theorem program_end_of_waits (h : Waits s S P (items s d) u) (he : e.kind = .endOfInput) :
    (∃ x, program s d (u ++ [e]) = (.ok x, [e])) ∨
      ∃ expected, program s d (u ++ [e]) = (.error (.parse (.unexpected expected e)), [e]) := by
  rw [program_apply]
  rcases h.atEnd e he with ⟨xs, hr⟩ | ⟨expected, hr⟩
  · exact .inl ⟨_, bind_of_ok hr⟩
  · exact .inr ⟨expected, bind_of_error hr⟩

theorem exists_program_of_waits (h : Waits s S (· = .endOfInput) (items s d) u) :
    ∃ c, (∀ t ∈ c, t.Spellable) ∧ ∀ e : Token, e.kind = .endOfInput →
      ∃ x, program s d (u ++ (c ++ [e])) = (.ok x, [e]) := by
  obtain ⟨c, xs, hc, hr⟩ := h.completes
  refine ⟨c, hc, fun e he => ?_⟩
  obtain ⟨-, hxs⟩ := hr [e] he
  rw [program_apply]
  exact ⟨_, bind_of_ok hxs⟩

end GnLang.Grammar
