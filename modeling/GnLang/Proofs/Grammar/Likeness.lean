/-
Runs on tokens that are alike.

A rule looks at the kinds of tokens, hands their texts and places on, and looks at neither.
So if two token lists are alike, token by token, what the rules make of them is alike too.
What "alike" means is left open: a `Likeness` says when two places, two strings, two trees
and two failures are alike, and asks only that trees and failures made in the same way of
things that are alike are alike.  It may also let the first of the two runs break off at
some failures, whatever comes of the second.

* `Likeness.OnRules` — on token lists that are alike, two rules do alike;
* `Likeness.OnRules.exists_ok`, `Likeness.OnRules.cases` — so where one succeeds, the other
  does, and where one fails, the other does;
* `alike_program`, `alike_loneExpression` — the rules for whole texts do, under settings
  with the same limit, or with a smaller limit for a run that may break off at it.
-/
import Mathlib.Data.List.Forall2
import GnLang.Proofs.Grammar.Repetition

namespace GnLang

/-- Two tokens are alike if they are of one kind and at places that are alike, with the
same text, or texts that are alike if they are strings. -/
structure Token.Alike (place : Pos → Pos → Prop) (value : String → String → Prop)
    (t u : Token) : Prop where
  kind : t.kind = u.kind
  value : t.kind = .string → value t.text u.text
  text : t.kind ≠ .string → t.text = u.text
  place : place t.pos u.pos

/-- When places, strings, trees and failures of two runs are alike, and at which failures
the first run may break off. -/
structure Likeness where
  place : Pos → Pos → Prop
  value : String → String → Prop
  node : Node → Node → Prop
  failure : Failure → Failure → Prop
  cuts : Failure → Prop
  place_node : ∀ {x y}, node x y → place x.pos y.pos
  isTarget : ∀ {x y}, node x y → x.isTarget = y.isTarget
  typeName : ∀ {x y}, node x y → x.typeName = y.typeName
  identifier : ∀ {n p q}, place p q → node (.identifier n p) (.identifier n q)
  string : ∀ {v v' p q}, value v v' → place p q → node (.string v p) (.string v' q)
  integer : ∀ {v p q}, place p q → node (.integer v p) (.integer v q)
  list : ∀ {xs ys p q}, List.Forall₂ node xs ys → place p q → node (.list xs p) (.list ys q)
  call : ∀ {n a b p q}, node a b → place p q → node (.call n a none p) (.call n b none q)
  bodyCall : ∀ {n a b x y p q}, node a b → node x y → place p q →
    node (.call n a (some x) p) (.call n b (some y) q)
  arrayAccess : ∀ {n i j p q}, node i j → place p q →
    node (.arrayAccess n i p) (.arrayAccess n j q)
  scopeAccess : ∀ {n m p q}, place p q → node (.scopeAccess n m p) (.scopeAccess n m q)
  unary : ∀ {o x y p q}, node x y → place p q → node (.unary o x p) (.unary o y q)
  binary : ∀ {l l' o r r' p q}, node l l' → node r r' → place p q →
    node (.binary l o r p) (.binary l' o r' q)
  assignment : ∀ {t t' o v v' p q}, node t t' → node v v' → place p q →
    node (.assignment t o v p) (.assignment t' o v' q)
  unplaced : ∀ {f}, (∀ e, f ≠ .parse e) → failure f f
  outOfRange : ∀ {text p q}, place p q →
    failure (.parse ⟨.mismatch "64-bit integer" text, p⟩)
      (.parse ⟨.mismatch "64-bit integer" text, q⟩)
  tooDeep : ∀ {n p q}, place p q →
    failure (.parse ⟨.tooDeep n, p⟩) (.parse ⟨.tooDeep n, q⟩)
  found : ∀ {expected t u}, Token.Alike place value t u →
    failure (.parse (.unexpected expected t)) (.parse (.unexpected expected u))
  leftOver : ∀ {t u}, Token.Alike place value t u →
    failure (.parse (.leftOver t)) (.parse (.leftOver u))

namespace Likeness

open Rule

variable (L : Likeness) {α α' β β' : Type}

/-- Two tokens are alike. -/
def OnTokens : Token → Token → Prop := Token.Alike L.place L.value

/-- Under two settings the input ends at places that are alike. -/
def OnSettings (s s' : Grammar.Setting) : Prop := L.place s.endPos s'.endPos

/-- As many nestings may be opened by either run, under the same limit; or no more by the
first run than by the second, and the first may break off where it can open no more. -/
inductive OnDepths (s s' : Grammar.Setting) : Nat → Nat → Prop where
  | same {d : Nat} : s.limit = s'.limit → OnDepths s s' d d
  | cut {d d' : Nat} :
      (∀ p, L.cuts (.parse ⟨.tooDeep s.limit, p⟩)) → d ≤ d' → OnDepths s s' d d'

/-- What two rules answered is alike, and so are the tokens they left, unless the first has
broken off. -/
inductive OnAnswers (R : α → α' → Prop) :
    Except Failure α × List Token → Except Failure α' × List Token → Prop where
  | ok {a : α} {b : α'} {ts us : List Token} :
      R a b → List.Forall₂ L.OnTokens ts us → OnAnswers R (.ok a, ts) (.ok b, us)
  | error {e f : Failure} {ts us : List Token} :
      L.failure e f → List.Forall₂ L.OnTokens ts us → OnAnswers R (.error e, ts) (.error f, us)
  | cut {e : Failure} {ts : List Token} {answer : Except Failure α' × List Token} :
      L.cuts e → OnAnswers R (.error e, ts) answer

/-- On tokens that are alike, the two rules do alike. -/
def OnRules (R : α → α' → Prop) (r : Rule α) (r' : Rule α') : Prop :=
  ∀ ts us : List Token, List.Forall₂ L.OnTokens ts us → L.OnAnswers R (r ts) (r' us)

variable {L} {R : α → α' → Prop} {S : β → β' → Prop}

/-! ### Chains of steps -/

theorem OnRules.pure {a : α} {b : α'} (h : R a b) :
    L.OnRules R (Pure.pure a : Rule α) (Pure.pure b : Rule α') :=
  fun _ _ hts => .ok h hts

theorem OnRules.bind {r : Rule α} {r' : Rule α'} {f : α → Rule β} {f' : α' → Rule β'}
    (hr : L.OnRules R r r') (hf : ∀ a b, R a b → L.OnRules S (f a) (f' b)) :
    L.OnRules S (r >>= f) (r' >>= f') := by
  intro ts us hts
  rw [bind_apply, bind_apply]
  cases h : r ts with
  | mk answer mid =>
    cases h' : r' us with
    | mk answer' mid' =>
      have hmid := hr ts us hts
      rw [h, h'] at hmid
      cases hmid with
      | ok hab hmid => exact hf _ _ hab _ _ hmid
      | error he hmid => exact .error he hmid
      | cut he => exact .cut he

theorem OnRules.ite {c c' : Prop} [Decidable c] [Decidable c'] (hc : c ↔ c') {r₁ r₂ : Rule α}
    {r₁' r₂' : Rule α'} (h₁ : L.OnRules R r₁ r₁') (h₂ : L.OnRules R r₂ r₂') :
    L.OnRules R (if c then r₁ else r₂) (if c' then r₁' else r₂') := by
  by_cases h : c
  · rw [if_pos h, if_pos (hc.mp h)]
    exact h₁
  · rw [if_neg h, if_neg fun h' => h (hc.mpr h')]
    exact h₂

theorem onRules_answer {a : Except Failure α} {b : Except Failure α'}
    (h : L.OnAnswers R (a, []) (b, [])) : L.OnRules R (answer a) (answer b) := by
  intro ts us hts
  cases h with
  | ok h _ => exact .ok h hts
  | error h _ => exact .error h hts
  | cut h => exact .cut h

theorem onRules_remaining : L.OnRules (List.Forall₂ L.OnTokens) remaining remaining :=
  fun _ _ hts => .ok hts hts

/-- Where the first run succeeds, so does the second, with an answer that is alike. -/
theorem OnRules.exists_ok {r : Rule α} {r' : Rule α'} {ts us rest : List Token} {a : α}
    (h : L.OnRules R r r') (hts : List.Forall₂ L.OnTokens ts us) (hr : r ts = (.ok a, rest)) :
    ∃ b rest, r' us = (.ok b, rest) ∧ R a b := by
  have hanswers := h ts us hts
  rw [hr] at hanswers
  generalize r' us = answer at hanswers ⊢
  cases hanswers with
  | ok hab _ => exact ⟨_, _, rfl, hab⟩

/-- Where the first run cannot break off, both succeed or both fail. -/
theorem OnRules.cases {r : Rule α} {r' : Rule α'} {ts us : List Token}
    (hcuts : ∀ e, ¬ L.cuts e) (h : L.OnRules R r r') (hts : List.Forall₂ L.OnTokens ts us) :
    (∃ a b, (r ts).1 = .ok a ∧ (r' us).1 = .ok b ∧ R a b) ∨
      ∃ e f, (r ts).1 = .error e ∧ (r' us).1 = .error f ∧ L.failure e f := by
  have hanswers := h ts us hts
  generalize r ts = answer at hanswers ⊢
  generalize r' us = answer' at hanswers ⊢
  cases hanswers with
  | ok hab _ => exact .inl ⟨_, _, rfl, rfl, hab⟩
  | error hef _ => exact .inr ⟨_, _, rfl, rfl, hef⟩
  | cut he => exact absurd he (hcuts _)

/-- Repetitions of rounds that are alike are alike: both lists of rounds are equally
long. -/
theorem OnRules.repeats {ρ ρ' σ σ' : Type} {P : ρ → ρ' → Prop} {Q : σ → σ' → Prop}
    {round : σ → Rule (ρ ⊕ σ)} {round' : σ' → Rule (ρ' ⊕ σ')} {close : σ → ρ}
    {close' : σ' → ρ'} (hround : ∀ a b, Q a b → L.OnRules (Sum.LiftRel P Q) (round a) (round' b))
    (hclose : ∀ a b, Q a b → P (close a) (close' b)) {a : σ} {b : σ'} (hab : Q a b) :
    L.OnRules P (repeats round close a) (repeats round' close' b) := by
  have honto : ∀ {ts us : List Token}, List.Forall₂ L.OnTokens ts us → ∀ a b, Q a b →
      L.OnRules P (repeatOnto round close ts a) (repeatOnto round' close' us b) := by
    intro ts us hts
    induction hts with
    | nil =>
      intro a b hab
      refine (hround a b hab).bind ?_
      rintro _ _ (h | h)
      · exact .pure h
      · exact .pure (hclose _ _ h)
    | cons _ _ ih =>
      intro a b hab
      refine (hround a b hab).bind ?_
      rintro _ _ (h | h)
      · exact .pure h
      · exact ih _ _ h
  exact onRules_remaining.bind fun ts us hts => honto hts a b hab

end Likeness

namespace Grammar

open Rule Likeness

variable {L : Likeness} {s s' : Setting} {α α' : Type} {R : α → α' → Prop}

variable (hs : L.OnSettings s s')

include hs

/-! ### Steps -/

theorem alike_front {ts us : List Token} (h : List.Forall₂ L.OnTokens ts us) :
    L.OnTokens (front s ts) (front s' us) := by
  cases h with
  | nil => exact ⟨rfl, nofun, fun _ => rfl, hs⟩
  | cons ht _ => exact ht

theorem alike_look : L.OnRules L.OnTokens (look s) (look s') :=
  fun _ _ hts => .ok (alike_front hs hts) hts

omit hs in
theorem alike_follower : L.OnRules Eq follower follower := by
  intro ts us hts
  refine .ok ?_ hts
  cases hts with
  | nil => rfl
  | cons _ hts =>
    cases hts with
    | nil => rfl
    | cons ht _ => exact ht.kind

theorem alike_isAt (kinds : List TokenKind) : L.OnRules Eq (isAt s kinds) (isAt s' kinds) := by
  intro ts us hts
  refine .ok ?_ hts
  rw [(alike_front hs hts).kind]

theorem alike_takeFront : L.OnRules L.OnTokens (takeFront s) (takeFront s') := by
  intro ts us hts
  have hfront := alike_front hs hts
  refine .ok hfront ?_
  rw [hfront.kind]
  split
  · exact hts
  · cases hts with
    | nil => exact .nil
    | cons _ hts => exact hts

theorem alike_skip : L.OnRules Eq (skip s) (skip s') :=
  (alike_takeFront hs).bind fun _ _ _ => .pure rfl

theorem alike_failAt (expected : String) :
    L.OnRules R (failAt s expected) (failAt s' expected) :=
  fun _ _ hts => .error (L.found (alike_front hs hts)) hts

theorem alike_expect (k : TokenKind) (expected : String) :
    L.OnRules (fun t u => L.OnTokens t u ∧ t.kind = k) (expect s [k] expected)
      (expect s' [k] expected) := by
  intro ts us hts
  have hfront := alike_front hs hts
  rw [expect_apply, expect_apply, ← hfront.kind]
  split
  · rename_i hk
    -- only here is the kind of the token known, which tells what of its text is alike
    have htake := alike_takeFront hs ts us hts
    rw [takeFront, takeFront] at htake ⊢
    cases htake with
    | ok ht hrest => exact .ok ⟨ht, hk⟩ hrest
  · exact alike_failAt hs expected ts us hts

theorem alike_ended : L.OnRules Eq (ended s) (ended s') := by
  intro ts us hts
  have hfront := alike_front hs hts
  rw [ended, ended, look_bind, look_bind, hfront.kind]
  split
  · exact .ok rfl hts
  · exact .error (L.leftOver hfront) hts

omit hs

/-! ### Checked construction -/

theorem alike_unary? {t u : Token} {x y : Node} (hk : t.kind.isUnary = true)
    (ht : L.OnTokens t u) (hxy : L.node x y) :
    L.OnRules L.node (ofExcept (Node.unary? t.text x t.pos))
      (ofExcept (Node.unary? u.text y u.pos)) := by
  refine onRules_answer ?_
  rw [← ht.text (by rintro h; rw [h] at hk; cases hk), Node.unary?, Node.unary?]
  split
  · exact .ok (L.unary hxy ht.place) .nil
  · exact .error (L.unplaced nofun) .nil

theorem alike_binary? {t u : Token} {l l' r r' : Node} (hk : t.kind.isBinary = true)
    (ht : L.OnTokens t u) (hl : L.node l l') (hr : L.node r r') :
    L.OnRules L.node (ofExcept (Node.binary? l t.text r l.pos))
      (ofExcept (Node.binary? l' u.text r' l'.pos)) := by
  refine onRules_answer ?_
  rw [← ht.text (by rintro h; rw [h] at hk; cases hk), Node.binary?, Node.binary?]
  split
  · exact .ok (L.binary hl hr (L.place_node hl)) .nil
  · exact .error (L.unplaced nofun) .nil

theorem alike_assignment? {t u : Token} {l l' v v' : Node} (hk : t.kind.isAssign = true)
    (ht : L.OnTokens t u) (hl : L.node l l') (hv : L.node v v') :
    L.OnRules L.node (ofExcept (Node.assignment? l t.text v l.pos))
      (ofExcept (Node.assignment? l' u.text v' l'.pos)) := by
  refine onRules_answer ?_
  rw [← ht.text (by rintro h; rw [h] at hk; cases hk), Node.assignment?, Node.assignment?,
    ← L.isTarget hl, ← L.typeName hl]
  split
  · split
    · exact .ok (L.assignment hl hv (L.place_node hl)) .nil
    · exact .error (L.unplaced nofun) .nil
  · exact .error (L.unplaced nofun) .nil

theorem alike_integerOf {negative : Bool} {p q : Pos} (h : L.place p q) (text : String) :
    L.OnRules L.node (answer (integerOf negative p text))
      (answer (integerOf negative q text)) := by
  refine onRules_answer ?_
  rw [integerOf, integerOf]
  dsimp only
  split
  · exact .error (L.outOfRange h) .nil
  · split
    · exact .error (L.unplaced nofun) .nil
    · rename_i n _
      -- the same number is checked on both sides
      generalize (if negative then -n else n) = v
      by_cases hfits : Node.fitsInteger v = true
      · rw [if_pos hfits, if_pos hfits, Node.integer?, if_pos hfits, Node.integer?, if_pos hfits]
        exact .ok (L.integer h) .nil
      · rw [if_neg hfits, if_neg hfits]
        exact .error (L.outOfRange h) .nil

/-! ### Words, strings and numbers -/

include hs

theorem alike_identifier : L.OnRules L.node (identifier s) (identifier s') := by
  refine (alike_expect hs _ _).bind ?_
  rintro t u ⟨ht, hk⟩
  rw [← ht.text (by simp [hk])]
  exact .pure (L.identifier ht.place)

theorem alike_string : L.OnRules L.node (string s) (string s') := by
  refine (alike_expect hs _ _).bind ?_
  rintro t u ⟨ht, hk⟩
  exact .pure (L.string (ht.value hk) ht.place)

theorem alike_scopeAccess : L.OnRules L.node (scopeAccess s) (scopeAccess s') := by
  refine (alike_expect hs _ _).bind ?_
  rintro t u ⟨ht, hk⟩
  refine (alike_expect hs _ _).bind fun _ _ _ => (alike_expect hs _ _).bind ?_
  rintro t' u' ⟨ht', hk'⟩
  rw [← ht.text (by simp [hk]), ← ht'.text (by simp [hk'])]
  exact .pure (L.scopeAccess ht.place)

theorem alike_integer : L.OnRules L.node (integer s) (integer s') := by
  rw [integer_eq, integer_eq]
  refine (alike_look hs).bind fun start start' hstart => (alike_isAt hs _).bind ?_
  rintro b _ rfl
  have hunsigned : ∀ negative, L.OnRules L.node (unsigned s negative start.pos)
      (unsigned s' negative start'.pos) := by
    intro negative
    refine (alike_expect hs _ _).bind ?_
    rintro t u ⟨ht, hk⟩
    rw [← ht.text (by simp [hk])]
    exact alike_integerOf hstart.place t.text
  exact .ite Iff.rfl ((alike_skip hs).bind fun _ _ _ => hunsigned true) (hunsigned false)

/-! ### Rounds -/

/-- What two rounds hand on is alike: the lists they end with, or the lists so far. -/
abbrev OnLists (L : Likeness) : List Node ⊕ List Node → List Node ⊕ List Node → Prop :=
  Sum.LiftRel (List.Forall₂ L.node) (List.Forall₂ L.node)

theorem alike_elementRound {item item' : Rule Node} (hitem : L.OnRules L.node item item')
    {done done' : List Node} (hdone : List.Forall₂ L.node done done') :
    L.OnRules (OnLists L) (elementRound s item done) (elementRound s' item' done') := by
  refine (alike_isAt hs _).bind ?_
  rintro b _ rfl
  refine .ite Iff.rfl (.pure (.inl (List.rel_reverse hdone))) ((alike_isAt hs _).bind ?_)
  rintro b _ rfl
  refine .ite Iff.rfl (alike_failAt hs _) (hitem.bind fun x y hxy => (alike_isAt hs _).bind ?_)
  rintro b _ rfl
  exact .ite Iff.rfl ((alike_skip hs).bind fun _ _ _ => .pure (.inr (.cons hxy hdone)))
    (.pure (.inr (.cons hxy hdone)))

theorem alike_argumentRound {item item' : Rule Node} (hitem : L.OnRules L.node item item')
    {done done' : List Node} (hdone : List.Forall₂ L.node done done') :
    L.OnRules (OnLists L) (argumentRound s item done) (argumentRound s' item' done') := by
  refine (alike_isAt hs _).bind ?_
  rintro b _ rfl
  refine .ite Iff.rfl (.pure (.inl (List.rel_reverse hdone))) ?_
  refine hitem.bind fun x y hxy => (alike_isAt hs _).bind ?_
  rintro b _ rfl
  exact .ite Iff.rfl ((alike_skip hs).bind fun _ _ _ => .pure (.inr (.cons hxy hdone)))
    (.pure (.inl (List.rel_reverse (.cons hxy hdone))))

theorem alike_chainRound {operand operand' : Rule Node}
    (hoperand : L.OnRules L.node operand operand') {l l' : Node} (hl : L.node l l') :
    L.OnRules (Sum.LiftRel L.node L.node) (chainRound s operand l)
      (chainRound s' operand' l') := by
  refine (alike_look hs).bind fun t u ht => ?_
  by_cases hk : t.kind.isBinary = true
  · rw [if_pos hk, if_pos (ht.kind ▸ hk)]
    refine (alike_skip hs).bind fun _ _ _ => hoperand.bind fun r r' hr => ?_
    exact (alike_binary? hk ht hl hr).bind fun _ _ h => .pure (.inr h)
  · rw [if_neg hk, if_neg (ht.kind ▸ hk)]
    exact .pure (.inl hl)

theorem alike_statementRound {item item' : Rule Node} (hitem : L.OnRules L.node item item')
    {done done' : List Node} (hdone : List.Forall₂ L.node done done') :
    L.OnRules (OnLists L) (statementRound s item done) (statementRound s' item' done') := by
  refine (alike_isAt hs _).bind ?_
  rintro b _ rfl
  exact .ite Iff.rfl (hitem.bind fun x y hxy => .pure (.inr (.cons hxy hdone)))
    (.pure (.inl (List.rel_reverse hdone)))

/-! ### Nestings -/

/-- The rules for the insides of two nestings do alike. -/
structure AlikeInside (L : Likeness) (rules rules' : Inside) : Prop where
  unary : L.OnRules L.node rules.unary rules'.unary
  expression : L.OnRules L.node rules.expression rules'.expression
  statements : L.OnRules (List.Forall₂ L.node) rules.statements rules'.statements

theorem alike_listInside {rules rules' : Inside} (h : AlikeInside L rules rules') :
    L.OnRules (List.Forall₂ L.node) (listInside s rules) (listInside s' rules') := by
  refine (OnRules.repeats (fun _ _ => alike_elementRound hs h.expression)
    (fun _ _ hdone => List.rel_reverse hdone) .nil).bind fun xs ys hxs => ?_
  exact (alike_expect hs _ _).bind fun _ _ _ => .pure hxs

theorem alike_callInside {rules rules' : Inside} (h : AlikeInside L rules rules') :
    L.OnRules (List.Forall₂ L.node) (callInside s rules) (callInside s' rules') := by
  refine (OnRules.repeats (fun _ _ => alike_argumentRound hs h.expression)
    (fun _ _ hdone => List.rel_reverse hdone) .nil).bind fun xs ys hxs => ?_
  exact (alike_expect hs _ _).bind fun _ _ _ => .pure hxs

/-- The rules for the insides of two nestings do alike, if there are any; where only the first
run has none, it may break off. -/
inductive AlikeInsides (L : Likeness) (s s' : Setting) : Option Inside → Option Inside → Prop where
  | none : s.limit = s'.limit → AlikeInsides L s s' none none
  | cut {inside' : Option Inside} :
      (∀ p, L.cuts (.parse ⟨.tooDeep s.limit, p⟩)) → AlikeInsides L s s' none inside'
  | some {rules rules' : Inside} :
      AlikeInside L rules rules' → AlikeInsides L s s' (some rules) (some rules')

variable {inside inside' : Option Inside} (hin : AlikeInsides L s s' inside inside')

include hin

theorem alike_enter {body : Inside → Rule α} {body' : Inside → Rule α'}
    (hbody : ∀ rules rules', AlikeInside L rules rules' → L.OnRules R (body rules) (body' rules')) :
    L.OnRules R (enter s inside body) (enter s' inside' body') := by
  cases hin with
  | none hlimit =>
    refine (alike_look hs).bind fun t u ht => fun ts us hts => ?_
    rw [fail_apply, fail_apply, hlimit]
    exact .error (L.tooDeep ht.place) hts
  | cut hcut =>
    intro ts us _
    rw [enter_none]
    exact .cut (hcut _)
  | some h => exact hbody _ _ h

theorem alike_bracketedList :
    L.OnRules L.node (bracketedList s inside) (bracketedList s' inside') := by
  rw [bracketedList_eq, bracketedList_eq]
  refine (alike_expect hs _ _).bind fun t u ht => ?_
  exact (alike_enter hs hin fun _ _ h => alike_listInside hs h).bind fun xs ys hxs =>
    .pure (L.list hxs ht.1.place)

theorem alike_block : L.OnRules L.node (block s inside) (block s' inside') := by
  refine (alike_expect hs _ _).bind fun t u ht => ?_
  refine (alike_enter hs hin fun rules rules' h => ?_).bind fun xs ys hxs =>
    .pure (L.list hxs ht.1.place)
  refine h.statements.bind fun xs ys hxs => ?_
  exact (alike_expect hs _ _).bind fun _ _ _ => .pure hxs

theorem alike_call : L.OnRules L.node (call s inside) (call s' inside') := by
  rw [call_eq, call_eq]
  refine (alike_expect hs _ _).bind ?_
  rintro t u ⟨ht, hk⟩
  refine (alike_expect hs _ _).bind fun o o' ho => ?_
  refine (alike_enter hs hin fun _ _ h => alike_callInside hs h).bind fun xs ys hxs => ?_
  have hargs := L.list hxs ho.1.place
  rw [callEnd, callEnd, ← ht.text (by simp [hk])]
  refine (alike_isAt hs _).bind ?_
  rintro b _ rfl
  exact .ite Iff.rfl ((alike_block hs hin).bind fun _ _ h => .pure (L.bodyCall hargs h ht.place))
    (.pure (L.call hargs ht.place))

theorem alike_arrayAccess : L.OnRules L.node (arrayAccess s inside) (arrayAccess s' inside') := by
  refine (alike_expect hs _ _).bind ?_
  rintro t u ⟨ht, hk⟩
  rw [← ht.text (by simp [hk])]
  refine (alike_expect hs _ _).bind fun _ _ _ => ?_
  refine (alike_enter hs hin fun rules rules' h => ?_).bind fun i j hij =>
    .pure (L.arrayAccess hij ht.place)
  refine h.expression.bind fun i j hij => ?_
  exact (alike_expect hs _ _).bind fun _ _ _ => .pure hij

theorem alike_parenthesized :
    L.OnRules L.node (parenthesized s inside) (parenthesized s' inside') := by
  refine (alike_expect hs _ _).bind fun _ _ _ => alike_enter hs hin fun rules rules' h => ?_
  refine h.expression.bind fun x y hxy => ?_
  exact (alike_expect hs _ _).bind fun _ _ _ => .pure hxy

/-! ### Expressions -/

theorem alike_primary : L.OnRules L.node (primary s inside) (primary s' inside') := by
  refine (alike_look hs).bind fun t u ht => ?_
  rw [← ht.kind]
  split
  · exact alike_bracketedList hs hin
  · exact alike_string hs
  · refine alike_follower.bind ?_
    rintro k _ rfl
    split
    · exact alike_call hs hin
    · exact alike_arrayAccess hs hin
    · exact alike_scopeAccess hs
    · exact alike_identifier hs
  · exact alike_parenthesized hs hin
  · exact alike_integer hs
  · exact alike_integer hs
  · exact alike_failAt hs _

theorem alike_unary : L.OnRules L.node (unary s inside) (unary s' inside') := by
  refine (alike_look hs).bind fun t u ht => ?_
  by_cases hk : t.kind.isUnary = true
  · rw [if_pos hk, if_pos (ht.kind ▸ hk)]
    refine (alike_skip hs).bind fun _ _ _ => ?_
    exact (alike_enter hs hin fun _ _ h => h.unary).bind fun x y hxy => alike_unary? hk ht hxy
  · rw [if_neg hk, if_neg (ht.kind ▸ hk)]
    exact alike_primary hs hin

theorem alike_expression : L.OnRules L.node (expression s inside) (expression s' inside') := by
  rw [expression_eq, expression_eq]
  refine (alike_unary hs hin).bind fun l l' hl => ?_
  exact .repeats (fun _ _ => alike_chainRound hs (alike_unary hs hin)) (fun _ _ => id) hl

/-! ### Statements -/

theorem alike_target : L.OnRules L.node (target s inside) (target s' inside') := by
  refine (alike_isAt hs _).bind ?_
  rintro b _ rfl
  refine .ite Iff.rfl (alike_follower.bind ?_) (alike_failAt hs _)
  rintro k _ rfl
  split
  · exact alike_arrayAccess hs hin
  · exact alike_scopeAccess hs
  · exact alike_identifier hs

theorem alike_assignment : L.OnRules L.node (assignment s inside) (assignment s' inside') := by
  refine (alike_target hs hin).bind fun l l' hl => (alike_look hs).bind fun t u ht => ?_
  by_cases hk : t.kind.isAssign = true
  · rw [if_pos hk, if_pos (ht.kind ▸ hk)]
    refine (alike_skip hs).bind fun _ _ _ => (alike_expression hs hin).bind fun v v' hv => ?_
    exact alike_assignment? hk ht hl hv
  · rw [if_neg hk, if_neg (ht.kind ▸ hk)]
    exact alike_failAt hs _

theorem alike_statement : L.OnRules L.node (statement s inside) (statement s' inside') := by
  refine (alike_isAt hs _).bind ?_
  rintro b _ rfl
  refine alike_follower.bind ?_
  rintro k _ rfl
  exact .ite Iff.rfl (alike_call hs hin) (alike_assignment hs hin)

theorem alike_statements :
    L.OnRules (List.Forall₂ L.node) (statements s inside) (statements s' inside') := by
  rw [statements_eq, statements_eq]
  exact .repeats (fun _ _ => alike_statementRound hs (alike_statement hs hin))
    (fun _ _ hdone => List.rel_reverse hdone) .nil

theorem alike_statementList :
    L.OnRules L.node (statementList s inside) (statementList s' inside') := by
  refine (alike_look hs).bind fun t u ht => (alike_statements hs hin).bind fun xs ys hxs => ?_
  exact .pure (L.list hxs ht.place)

omit hin

/-! ### Levels -/

/-- The rules for the insides of nestings do alike; a run that may break off can have fewer
nestings left to open. -/
theorem alike_insideOf {d d' : Nat} (hd : L.OnDepths s s' d d') :
    AlikeInsides L s s' (insideOf s d) (insideOf s' d') := by
  induction d generalizing d' with
  | zero =>
    cases hd with
    | same hlimit => exact .none hlimit
    | cut hcut _ => exact .cut hcut
  | succ d ih =>
    obtain ⟨e, rfl, he⟩ : ∃ e, d' = e + 1 ∧ L.OnDepths s s' d e := by
      cases hd with
      | same hlimit => exact ⟨d, rfl, .same hlimit⟩
      | cut hcut hle =>
        obtain ⟨c, rfl⟩ := Nat.exists_eq_add_of_le' hle
        exact ⟨c + d, rfl, .cut hcut (Nat.le_add_left d c)⟩
    have hin := ih he
    exact .some ⟨alike_unary hs hin, alike_expression hs hin, alike_statements hs hin⟩

theorem alike_program {d d' : Nat} (hd : L.OnDepths s s' d d') :
    L.OnRules L.node (program s d) (program s' d') := by
  refine (alike_statementList hs (alike_insideOf hs hd)).bind fun x y hxy => ?_
  exact (alike_ended hs).bind fun _ _ _ => .pure hxy

theorem alike_loneExpression {d d' : Nat} (hd : L.OnDepths s s' d d') :
    L.OnRules L.node (loneExpression s d) (loneExpression s' d') := by
  refine (alike_expression hs (alike_insideOf hs hd)).bind fun x y hxy => ?_
  exact (alike_ended hs).bind fun _ _ _ => .pure hxy

end Grammar

end GnLang
