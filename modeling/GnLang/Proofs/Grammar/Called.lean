/-
Where a name is called.

A token calls a name if it is a word with that text, an opening parenthesis follows it and
no dot precedes it: the second word of a scope is called by nothing, though a parenthesis
may follow it where the comma between two items of a list is left out.

* `callPlaces` — the places of the tokens that call a name, in their order;
* `Derives.finds` — in a phrase they are the places of the calls of that name in its tree,
  in the order of a visit.
-/
import GnLang.Proofs.Grammar.Derivation
import GnLang.Proofs.Tree.Preorder
import GnLang.Target

namespace GnLang

open Token

/-- Whether the token at index `i` is the word `name`, with an opening parenthesis after it
and no dot before it. -/
def isCalledAt (name : String) (ts : List Token) (i : Nat) : Bool :=
  ts[i]?.any (fun t => t.kind = .ident && t.text = name) &&
    ts[i + 1]?.any (fun t => t.kind = .symbol .lparen) &&
    !(0 < i && ts[i - 1]?.any fun t => t.kind = .symbol .dot)

/-- The places of the tokens that call a name, in their order. -/
def callPlaces (name : String) (ts : List Token) : List Pos :=
  ((List.range ts.length).filter (isCalledAt name ts)).filterMap fun i => ts[i]?.map (·.pos)

namespace Grammar

/-! ### The calls among tokens -/

/-- The places of the tokens of `w` that call a name, if a token of kind `k` follows them,
and a dot stands before them if `dotted`. -/
def calledIn (name : String) : (dotted : Bool) → List Token → (k : TokenKind) → List Pos
  | _, [], _ => []
  | dotted, t :: w, k =>
    (if t.kind = .ident ∧ t.text = name ∧ firstKind w k = .symbol .lparen ∧ dotted = false
      then [t.pos] else []) ++ calledIn name (t.kind = .symbol .dot) w k

/-- Whether a dot stands at the end of the tokens, or before them if there are none. -/
def dottedAfter : (dotted : Bool) → List Token → Bool
  | dotted, [] => dotted
  | _, t :: w => dottedAfter (t.kind = .symbol .dot) w

theorem calledIn_append (name : String) (dotted : Bool) (w w' : List Token) (k : TokenKind) :
    calledIn name dotted (w ++ w') k =
      calledIn name dotted w (firstKind w' k) ++ calledIn name (dottedAfter dotted w) w' k := by
  induction w generalizing dotted with
  | nil => rfl
  | cons t w ih =>
    rw [List.cons_append, calledIn, calledIn, dottedAfter, ih, firstKind_append,
      List.append_assoc]

theorem dottedAfter_append (dotted : Bool) (w w' : List Token) :
    dottedAfter dotted (w ++ w') = dottedAfter (dottedAfter dotted w) w' := by
  induction w generalizing dotted with
  | nil => rfl
  | cons t w ih => exact ih _

/-- Whether a token calls the name shows in the token after it and in what stands before. -/
theorem isCalledAt_length (name : String) (before after : List Token) (t : Token) :
    isCalledAt name (before ++ t :: after) before.length =
      decide (t.kind = .ident ∧ t.text = name ∧ firstKind after .endOfInput = .symbol .lparen ∧
        dottedAfter false before = false) := by
  have hat : (before ++ t :: after)[before.length]? = some t := by simp
  have hnext : (before ++ t :: after)[before.length + 1]? = after.head? := by
    rw [List.getElem?_append_right (Nat.le_succ _)]
    cases after <;> simp
  have hlparen : (after.head?.any fun t => t.kind = .symbol .lparen) =
      decide (firstKind after .endOfInput = .symbol .lparen) := by
    cases after <;> rfl
  have hdot : (decide (0 < before.length) &&
      (before ++ t :: after)[before.length - 1]?.any fun t => t.kind = .symbol .dot) =
        dottedAfter false before := by
    rcases List.eq_nil_or_concat before with rfl | ⟨init, u, rfl⟩
    · rfl
    · rw [List.concat_eq_append, dottedAfter_append]
      simp [dottedAfter]
  rw [isCalledAt, hat, hnext, hlparen, hdot]
  simp [Bool.and_assoc, Bool.decide_and]

/-- The places of the tokens that call a name are found by going through the tokens. -/
theorem callPlaces_eq (name : String) (ts : List Token) :
    callPlaces name ts = calledIn name false ts .endOfInput := by
  -- the induction is on the tokens that are left, those gone through stand before them
  have hleft : ∀ after before : List Token, ts = before ++ after →
      ((List.range' before.length after.length).filter (isCalledAt name ts)).filterMap
        (fun i => ts[i]?.map (·.pos)) =
      calledIn name (dottedAfter false before) after .endOfInput := by
    intro after
    induction after with
    | nil => exact fun _ _ => rfl
    | cons t after ih =>
      rintro before rfl
      have hrest := ih (before ++ [t]) (by simp)
      rw [List.length_append, List.length_singleton, dottedAfter_append] at hrest
      rw [List.length_cons, List.range'_succ, List.filter_cons, isCalledAt_length, calledIn]
      by_cases hcall : t.kind = .ident ∧ t.text = name ∧
          firstKind after .endOfInput = .symbol .lparen ∧ dottedAfter false before = false
      · rw [if_pos (decide_eq_true hcall), if_pos hcall, List.filterMap_cons, hrest]
        simp [dottedAfter]
      · rw [if_neg (by simpa using hcall), if_neg hcall, hrest]
        rfl
  rw [callPlaces, List.range_eq_range']
  exact hleft ts [] rfl

/-- Tokens that a token of kind `k` follows call the name at the given places, if no dot
stands before them; and no dot stands at their end. -/
structure CallsAt (name : String) (w : List Token) (k : TokenKind) (ps : List Pos) : Prop where
  places : calledIn name false w k = ps
  dotted : dottedAfter false w = false

namespace CallsAt

variable {name : String} {w w' : List Token} {k : TokenKind} {ps ps' : List Pos}

theorem nil : CallsAt name [] k [] := ⟨rfl, rfl⟩

theorem append (h : CallsAt name w (firstKind w' k) ps) (h' : CallsAt name w' k ps') :
    CallsAt name (w ++ w') k (ps ++ ps') := by
  constructor
  · rw [calledIn_append, h.places, h.dotted, h'.places]
  · rw [dottedAfter_append, h.dotted, h'.dotted]

theorem cons {t : Token} (ht : t.kind ≠ .ident) (hdot : t.kind ≠ .symbol .dot)
    (h : CallsAt name w k ps) : CallsAt name (t :: w) k ps := by
  constructor
  · rw [calledIn, if_neg fun hcall => ht hcall.1, decide_eq_false hdot, h.places, List.nil_append]
  · rw [dottedAfter, decide_eq_false hdot, h.dotted]

theorem mark {m : Symbol} {p : Pos} (hm : m ≠ .dot) (h : CallsAt name w k ps) :
    CallsAt name (Token.mark m p :: w) k ps :=
  h.cons (by simp) (by simpa using hm)

/-- A mark that closes a phrase adds no call. -/
theorem close {m : Symbol} {p : Pos} (hm : m ≠ .dot) (h : CallsAt name w (.symbol m) ps) :
    CallsAt name (w ++ [Token.mark m p]) k ps := by
  have happend : CallsAt name (w ++ [Token.mark m p]) k (ps ++ []) := append h (nil.mark hm)
  rwa [List.append_nil] at happend

theorem word {n : String} {p : Pos} (hk : firstKind w k ≠ .symbol .lparen)
    (h : CallsAt name w k ps) : CallsAt name (Token.word n p :: w) k ps := by
  constructor
  · rw [calledIn, if_neg fun hcall => hk hcall.2.2.1]
    exact h.places
  · exact h.dotted

theorem called {n : String} {p q : Pos} (h : CallsAt name w k ps) :
    CallsAt name (Token.word n p :: Token.mark .lparen q :: w) k
      ((if n = name then [p] else []) ++ ps) := by
  have hrest := h.mark (m := .lparen) (p := q) (by decide)
  constructor
  · rw [calledIn]
    refine congrArg₂ _ ?_ hrest.places
    simp [Token.word]
  · exact hrest.dotted

/-- The second word of a scope is not called, whatever follows it. -/
theorem scope {n m : String} {p q r : Pos} :
    CallsAt name [Token.word n p, Token.mark .dot q, Token.word m r] k [] := by
  constructor <;> simp [calledIn, dottedAfter]

end CallsAt

/-! ### The calls in trees -/

/-- The places of the calls of a name among nodes. -/
def placesIn (name : String) (xs : List Node) : List Pos :=
  (Target.callsOf name xs).map (·.pos)

theorem placesIn_append (name : String) (xs ys : List Node) :
    placesIn name (xs ++ ys) = placesIn name xs ++ placesIn name ys := by
  simp [placesIn, Target.callsOf]

theorem placesIn_cons {x : Node} (hx : x.asCall? = none) (name : String) (xs : List Node) :
    placesIn name (x :: xs) = placesIn name xs := by
  simp [placesIn, Target.callsOf, hx]

theorem placesIn_call (name n : String) (a : Node) (b : Option Node) (p : Pos)
    (xs : List Node) :
    placesIn name (.call n a b p :: xs) = (if n = name then [p] else []) ++ placesIn name xs := by
  simp only [placesIn, Target.callsOf, Node.asCall?, List.filterMap_cons, List.filter_cons]
  by_cases h : n = name <;> simp [h]

/-- The tree of a phrase has calls of the name at the given places, in the order of a
visit.  A chain adds them to those in its first operand. -/
def Phrase.Finds (name : String) (ps : List Pos) : Phrase → Prop
  | .chain l x => placesIn name x.preorder = placesIn name l.preorder ++ ps
  | .expression x | .unary x | .primary x | .target x | .call x | .statement x =>
    placesIn name x.preorder = ps
  | .elements xs | .arguments xs | .statements xs => placesIn name (Node.preorders xs) = ps

/-- The tokens of a phrase call a name where its tree has calls of that name. -/
theorem Derives.finds {d : Nat} {φ : Phrase} {w : List Token} {k : TokenKind} (name : String)
    (h : Derives d φ w k) : ∃ ps, CallsAt name w k ps ∧ φ.Finds name ps := by
  induction h with
  | identifier hk _ _ => exact ⟨[], CallsAt.nil.word hk, rfl⟩
  | @arrayAccess d n i w p q r k _ ih =>
    obtain ⟨ps, hw, hi⟩ := ih
    exact ⟨ps, ((hw.close (by decide)).mark (by decide)).word (by simp),
      (placesIn_cons rfl _ _).trans hi⟩
  | scopeAccess => exact ⟨[], CallsAt.scope, rfl⟩
  | noElements | noArguments | noStatements => exact ⟨[], CallsAt.nil, rfl⟩
  | element _ _ ihx ihxs | statement _ _ ihx ihxs =>
    obtain ⟨ps, hw, hx⟩ := ihx
    obtain ⟨qs, hw', hxs⟩ := ihxs
    refine ⟨ps ++ qs, hw.append hw', (placesIn_append _ _ _).trans ?_⟩
    rw [hx, hxs]
  | elementComma _ _ ihx ihxs | argument _ _ ihx ihxs =>
    obtain ⟨ps, hw, hx⟩ := ihx
    obtain ⟨qs, hw', hxs⟩ := ihxs
    refine ⟨ps ++ qs, CallsAt.append hw (hw'.mark (by decide)), (placesIn_append _ _ _).trans ?_⟩
    rw [hx, hxs]
  | lastArgument _ ih =>
    obtain ⟨ps, hw, hx⟩ := ih
    refine ⟨ps, hw, (placesIn_append _ _ _).trans ?_⟩
    rw [hx]
    exact List.append_nil ps
  | @plainCall d n xs w p q r k _ _ ih =>
    obtain ⟨ps, hw, hxs⟩ := ih
    refine ⟨_, (hw.close (by decide)).called, (placesIn_call _ _ _ _ _ _).trans ?_⟩
    rw [Node.preorder, placesIn_cons rfl, hxs]
  | @bodyCall d n xs ys w w' p q r b c k _ _ ihxs ihys =>
    obtain ⟨ps, hw, hxs⟩ := ihxs
    obtain ⟨qs, hw', hys⟩ := ihys
    have hbody := ((hw'.close (k := k) (p := c) (by decide)).mark (m := .lbrace) (p := b)
      (by decide)).mark (m := .rparen) (p := r) (by decide)
    refine ⟨_, CallsAt.called (hw.append hbody), (placesIn_call _ _ _ _ _ _).trans ?_⟩
    rw [placesIn_append, Node.preorder, Node.preorder, placesIn_cons rfl, placesIn_cons rfl, hxs,
      hys]
  | list _ ih =>
    obtain ⟨ps, hw, hxs⟩ := ih
    exact ⟨ps, (hw.close (by decide)).mark (by decide), (placesIn_cons rfl _ _).trans hxs⟩
  | string => exact ⟨[], CallsAt.nil.cons (by simp) (by simp), rfl⟩
  | number => exact ⟨[], CallsAt.nil.cons (by simp) (by simp), rfl⟩
  | negative =>
    exact ⟨[], (CallsAt.nil.cons (by simp) (by simp)).mark (by decide), rfl⟩
  | parenthesized _ ih =>
    obtain ⟨ps, hw, hx⟩ := ih
    exact ⟨ps, (hw.close (by decide)).mark (by decide), hx⟩
  | ofTarget _ ih | ofCall _ ih | ofPrimary _ ih | callStatement _ ih => exact ih
  | @unary d o x w p k _ ih =>
    obtain ⟨ps, hw, hx⟩ := ih
    exact ⟨ps, hw.mark (by cases o; decide), (placesIn_cons rfl _ _).trans hx⟩
  | noOperator => exact ⟨[], CallsAt.nil, (List.append_nil _).symm⟩
  | @operator d l r x o w w' p k _ _ ihr ihx =>
    obtain ⟨ps, hw, hr⟩ := ihr
    obtain ⟨qs, hw', hx⟩ := ihx
    refine ⟨ps ++ qs, (hw.append hw').mark (by cases o <;> decide), hx.trans ?_⟩
    rw [Node.preorder, placesIn_cons rfl, placesIn_append, hr, List.append_assoc]
  | expression _ _ ihl ihx =>
    obtain ⟨ps, hw, hl⟩ := ihl
    obtain ⟨qs, hw', hx⟩ := ihx
    exact ⟨ps ++ qs, hw.append hw', hx.trans (congrArg (· ++ qs) hl)⟩
  | @assignment d t v o w w' p k _ _ iht ihv =>
    obtain ⟨ps, hw, ht⟩ := iht
    obtain ⟨qs, hw', hv⟩ := ihv
    refine ⟨ps ++ qs, CallsAt.append hw (hw'.mark (by cases o <;> decide)),
      (placesIn_cons rfl _ _).trans ?_⟩
    rw [placesIn_append, ht, hv]

/-- The tokens of a program call a name where the program has calls of that name. -/
theorem DerivesProgram.finds {d : Nat} {ts : List Token} {x : Node} (name : String)
    (h : DerivesProgram d ts x) : placesIn name x.preorder = callPlaces name ts := by
  obtain ⟨he, hxs⟩ := h
  rename_i xs w e
  obtain ⟨ps, hw, hfinds⟩ := hxs.finds name
  have hend : CallsAt name [e] .endOfInput [] :=
    CallsAt.nil.cons (by simp [he]) (by simp [he])
  have hall : CallsAt name (w ++ [e]) .endOfInput (ps ++ []) := .append (by rwa [← he] at hw) hend
  rw [callPlaces_eq, hall.places, List.append_nil, Node.preorder, placesIn_cons rfl]
  exact hfinds

end Grammar

end GnLang
