/-
Which tokens begin a node.

Whether a token does can be told from its kind and from what stands before it, without a
parser: a word does if no dot precedes it, a number if no sign does, a minus sign if it is
not between two operands.  A '[' begins a list unless it follows a word, whose array it then
looks into; a '(' begins the arguments of a call if it follows a word, and otherwise only
groups.  The word after a dot is not such a word.

* `openings` — the tokens that begin a node, in their order;
* `Derives.opens` — in a phrase they begin, one for one and in the same order, the nodes of
  its tree that have a token of their own.
-/
import GnLang.Proofs.Grammar.Derivation
import GnLang.Proofs.Tree.Opened
import Mathlib.Data.List.Forall2

namespace GnLang

open Token

/-- What stands before a token, as far as it decides what the token begins. -/
inductive Before where
  /-- Nothing that an operand could end with: a mark, an operator or nothing at all. -/
  | fresh
  /-- A word that may be called or looked into. -/
  | word
  /-- The end of any other operand. -/
  | operand
  | dot
  /-- A minus sign that is not between two operands. -/
  | sign
  deriving DecidableEq

namespace Before

/-- What stands before the next token, after a token of the kind. -/
def next (b : Before) : TokenKind → Before
  | .ident => if b = dot then operand else word
  | .string | .number | .symbol .rparen | .symbol .rbrack | .symbol .rbrace => operand
  | .symbol .dot => dot
  | .symbol .sub => if b = word ∨ b = operand then fresh else sign
  | _ => fresh

/-- Whether a token of the kind begins a node. -/
def begins (b : Before) : TokenKind → Bool
  | .ident => b ≠ dot
  | .number => b ≠ sign
  | .symbol .sub => ¬ (b = word ∨ b = operand)
  | .symbol .lbrack => b ≠ word
  | .symbol .lparen => b = word
  | .string | .symbol .lbrace | .symbol .not => true
  | _ => false

/-- What stands after the tokens. -/
def after (b : Before) (w : List Token) : Before := w.foldl (fun b t => b.next t.kind) b

end Before

/-- The tokens that begin a node, in their order. -/
def openings (b : Before) : List Token → List Token
  | [] => []
  | t :: w =>
    let rest := openings (b.next t.kind) w
    if b.begins t.kind then t :: rest else rest

theorem openings_append (b : Before) (w w' : List Token) :
    openings b (w ++ w') = openings b w ++ openings (b.after w) w' := by
  induction w generalizing b with
  | nil => rfl
  | cons t w ih =>
    rw [List.cons_append, openings, openings, ih]
    split <;> rfl

theorem Before.after_cons (b : Before) (t : Token) (w : List Token) :
    b.after (t :: w) = (b.next t.kind).after w := rfl

theorem Before.after_append (b : Before) (w w' : List Token) :
    b.after (w ++ w') = (b.after w).after w' :=
  List.foldl_append

/-- The marks that end what another mark has opened. -/
def Symbol.isClosing : Symbol → Bool
  | .rparen | .rbrack | .rbrace => true
  | _ => false

theorem Before.begins_closing (b : Before) {m : Symbol} (hm : m.isClosing = true) :
    b.begins (.symbol m) = false := by
  cases m with
  | rparen | rbrack | rbrace => rfl
  | _ => cases hm

/-- An operand ends with a mark that closes it, whatever stands inside. -/
theorem Before.after_closing (b : Before) (w : List Token) {m : Symbol} (p : Pos)
    (hm : m.isClosing = true) : b.after (w ++ [mark m p]) = .operand := by
  rw [after_append]
  cases m with
  | rparen | rbrack | rbrace => rfl
  | _ => cases hm

theorem Before.next_assign (b : Before) (o : AssignOp) :
    b.begins (.symbol o.symbol) = false ∧ b.next (.symbol o.symbol) = .fresh := by
  cases o <;> exact ⟨rfl, rfl⟩

namespace Grammar

/-! ### Before and after a phrase -/

/-- An operand may begin here with a token of the kind, and would not be taken for more of
what stands before it. -/
def IsFree : Before → TokenKind → Prop
  | .fresh, _ => True
  | .word, k => k ≠ .symbol .lparen ∧ k ≠ .symbol .lbrack ∧ k ≠ .symbol .sub
  | .operand, k => k ≠ .symbol .sub
  | .dot, _ | .sign, _ => False

/-- An operand ends here, and a token of the kind does not go on with it. -/
def IsEnded : Before → TokenKind → Prop
  | .word, k => k ≠ .symbol .lparen ∧ k ≠ .symbol .lbrack
  | .operand, _ => True
  | _, _ => False

/-- No word and no number is left to come. -/
def IsWhole (b : Before) : Prop := b ≠ .dot ∧ b ≠ .sign

theorem IsEnded.isFree {b : Before} {k : TokenKind} (h : IsEnded b k) (hk : k ≠ .symbol .sub) :
    IsFree b k := by
  cases b with
  | word => exact ⟨h.1, h.2, hk⟩
  | operand => exact hk
  | _ => cases h

/-- A bracket that nothing is looked into by begins a list. -/
theorem IsFree.begins_lbrack {b : Before} (h : IsFree b (.symbol .lbrack)) :
    b.begins (.symbol .lbrack) = true := by
  cases b with
  | word => exact absurd rfl h.2.1
  | _ => rfl

/-- A parenthesis that calls nothing begins no node. -/
theorem IsFree.begins_lparen {b : Before} (h : IsFree b (.symbol .lparen)) :
    b.begins (.symbol .lparen) = false := by
  cases b with
  | word => exact absurd rfl h.1
  | _ => rfl

theorem IsFree.eq_fresh {b : Before} (h : IsFree b (.symbol .sub)) : b = .fresh := by
  cases b with
  | fresh => rfl
  | word => exact absurd rfl h.2.2
  | operand => exact absurd rfl h
  | dot | sign => cases h

theorem IsFree.isWhole {b : Before} {k : TokenKind} (h : IsFree b k) : IsWhole b := by
  cases b with
  | dot | sign => cases h
  | _ => exact ⟨nofun, nofun⟩

theorem IsEnded.isWhole {b : Before} {k : TokenKind} (h : IsEnded b k) : IsWhole b := by
  cases b with
  | word | operand => exact ⟨nofun, nofun⟩
  | _ => cases h

theorem IsWhole.isFree {b : Before} (h : IsWhole b) : IsFree b .ident := by
  cases b with
  | fresh => trivial
  | word => exact ⟨nofun, nofun, nofun⟩
  | operand => exact nofun
  | dot => exact absurd rfl h.1
  | sign => exact absurd rfl h.2

theorem IsWhole.next_ident {b : Before} (h : IsWhole b) : b.next .ident = .word :=
  if_neg h.1

theorem IsWhole.after_word {b : Before} (h : IsWhole b) (n : String) (p : Pos)
    (w : List Token) : b.after (word n p :: w) = Before.word.after w := by
  rw [Before.after_cons, kind_word, h.next_ident]

/-- Between operands there is an operator, and a new operand after it. -/
theorem IsEnded.next_operator {b : Before} {k : TokenKind} (h : IsEnded b k) (o : BinaryOp) :
    b.begins (.symbol o.symbol) = false ∧ b.next (.symbol o.symbol) = .fresh := by
  cases b with
  | word | operand => cases o <;> exact ⟨rfl, rfl⟩
  | _ => cases h

/-! ### Nodes and the tokens that begin them -/

/-- The tokens of `w` that begin a node begin `ys`, one for one. -/
def Begins (b : Before) (ys : List (Slot × Node)) (w : List Token) : Prop :=
  List.Forall₂ OpenedBy ys (openings b w)

namespace Begins

variable {b : Before} {y : Slot × Node} {ys ys' : List (Slot × Node)} {t : Token}
  {w w' : List Token}

theorem nil : Begins b [] [] := List.Forall₂.nil

theorem append (h : Begins b ys w) (h' : Begins (b.after w) ys' w') :
    Begins b (ys ++ ys') (w ++ w') := by
  rw [Begins, openings_append]
  exact List.rel_append h h'

theorem cons (ht : b.begins t.kind = true) (hy : OpenedBy y t) (h : Begins (b.next t.kind) ys w) :
    Begins b (y :: ys) (t :: w) := by
  rw [Begins, openings, if_pos ht]
  exact .cons hy h

theorem skip (ht : b.begins t.kind = false) (h : Begins (b.next t.kind) ys w) :
    Begins b ys (t :: w) := by
  rwa [Begins, openings, if_neg (by simp [ht])]

theorem close {m : Symbol} {p : Pos} (hm : m.isClosing = true) (h : Begins b ys w) :
    Begins b ys (w ++ [mark m p]) := by
  have hclosed : Begins b (ys ++ []) (w ++ [mark m p]) :=
    h.append (nil.skip (Before.begins_closing _ hm))
  rwa [List.append_nil] at hclosed

theorem word {n : String} {p : Pos} (hb : IsWhole b) (hy : OpenedBy y (Token.word n p))
    (h : Begins .word ys w) : Begins b (y :: ys) (Token.word n p :: w) := by
  refine cons (decide_eq_true hb.1) hy ?_
  rwa [Token.kind_word, hb.next_ident]

/-- A list is begun by the mark that opens it. -/
theorem list {u : Slot} {xs : List Node} {m : Symbol} {p q : Pos}
    (hb : b.begins (.symbol u.bracket) = true) (hm : m.isClosing = true)
    (h : Begins .fresh (Node.openedAll xs) w) :
    Begins b ((Node.list xs p).opened u) (mark u.bracket p :: (w ++ [mark m q])) := by
  refine cons hb rfl ?_
  have hfresh : b.next (mark u.bracket p).kind = .fresh := by cases u <;> rfl
  rw [hfresh]
  exact h.close hm

end Begins

/-- What stands before the tokens of a phrase, the first of which is of the kind. -/
def Phrase.MayFollow (b : Before) (k : TokenKind) : Phrase → Prop
  | .chain _ _ => IsEnded b k
  | .statement _ | .statements _ => IsWhole b
  | _ => IsFree b k

/-- The tokens of a phrase begin the nodes of its tree, and end so that a token of the kind
may follow.  A chain begins those of the operands that it adds. -/
def Phrase.Opened (b : Before) (w : List Token) (k : TokenKind) : Phrase → Prop
  | .chain l x => (∃ ys, x.opened .item = l.opened .item ++ ys ∧ Begins b ys w) ∧
      IsFree (b.after w) k
  | .expression x => Begins b (x.opened .item) w ∧ IsFree (b.after w) k
  | .unary x | .primary x | .target x | .call x =>
    Begins b (x.opened .item) w ∧ IsEnded (b.after w) k
  | .statement x => Begins b (x.opened .item) w ∧ IsWhole (b.after w)
  | .elements xs | .arguments xs | .statements xs => Begins b (Node.openedAll xs) w

/-- The tokens of a phrase that begin a node begin, one for one, the nodes of its tree that
have a token of their own. -/
theorem Derives.opens {d : Nat} {φ : Phrase} {w : List Token} {k : TokenKind}
    (h : Derives d φ w k) : ∀ b, φ.MayFollow b (firstKind w k) → φ.Opened b w k := by
  induction h with
  | identifier hparen hbrack _ =>
    intro b hb
    have hword : IsWhole b := IsFree.isWhole hb
    refine ⟨Begins.nil.word hword rfl, ?_⟩
    rw [hword.after_word]
    exact ⟨hparen, hbrack⟩
  | scopeAccess =>
    intro b hb
    have hword : IsWhole b := IsFree.isWhole hb
    refine ⟨Begins.word hword rfl (.skip rfl (.skip rfl .nil)), ?_⟩
    rw [hword.after_word]
    trivial
  | @arrayAccess _ n i w p q r _ _ ih =>
    intro b hb
    have hword : IsWhole b := IsFree.isWhole hb
    obtain ⟨hi, -⟩ := ih .fresh trivial
    have hinside : Begins .word (i.opened .item) (mark .lbrack q :: (w ++ [mark .rbrack r])) :=
      .skip rfl (.close rfl hi)
    refine ⟨hinside.word hword rfl, ?_⟩
    rw [hword.after_word, Before.after_cons, Before.after_closing _ _ _ rfl]
    trivial
  | noElements | noArguments | noStatements => exact fun _ _ => Begins.nil
  | element _ _ ihx ihxs =>
    intro b hb
    rw [firstKind_append] at hb
    obtain ⟨hx, hfree⟩ := ihx b hb
    exact hx.append (ihxs _ hfree)
  | elementComma _ _ ihx ihxs | argument _ _ ihx ihxs =>
    intro b hb
    rw [firstKind_append] at hb
    obtain ⟨hx, -⟩ := ihx b hb
    exact hx.append (.skip rfl (ihxs .fresh trivial))
  | lastArgument _ ih =>
    intro b hb
    obtain ⟨hx, -⟩ := ih b hb
    rw [Phrase.Opened, Node.openedAll, Node.openedAll, List.append_nil]
    exact hx
  | @plainCall _ _ _ _ _ q r _ _ _ ih =>
    intro b hb
    have hword : IsWhole b := IsFree.isWhole hb
    have hargs := Begins.list (u := .arguments) (b := .word) (m := .rparen) (p := q) (q := r) rfl
      rfl (ih .fresh trivial)
    refine ⟨hargs.word hword rfl, ?_⟩
    rw [hword.after_word, Before.after_cons, Before.after_closing _ _ _ rfl]
    trivial
  | @bodyCall _ n xs ys w w' p q r b' c k _ _ ihxs ihys =>
    intro b hb
    have hword : IsWhole b := IsFree.isWhole hb
    rw [List.append_cons w]
    have hargs := Begins.list (u := .arguments) (b := .word) (m := .rparen) (p := q) (q := r) rfl
      rfl (ihxs .fresh trivial)
    have hbody := Begins.list (u := .body) (b := .operand) (m := .rbrace) (p := b') (q := c) rfl
      rfl (ihys .fresh ⟨nofun, nofun⟩)
    have hclosed : Before.word.after (mark .lparen q :: (w ++ [mark .rparen r])) = .operand := by
      rw [Before.after_cons, Before.after_closing _ _ _ rfl]
    rw [← hclosed] at hbody
    refine ⟨(Begins.append hargs hbody).word hword rfl, ?_⟩
    rw [hword.after_word, Before.after_cons, Before.after_append, Before.after_cons,
      Before.after_closing _ _ _ rfl]
    trivial
  | list _ ih =>
    intro b hb
    have hlbrack := IsFree.begins_lbrack hb
    refine ⟨Begins.list (u := .item) (m := .rbrack) hlbrack rfl (ih .fresh trivial), ?_⟩
    rw [Before.after_cons, Before.after_closing _ _ _ rfl]
    trivial
  | string => exact fun _ _ => ⟨.cons rfl rfl .nil, trivial⟩
  | number hnumeral _ =>
    intro b hb
    have hword : IsWhole b := IsFree.isWhole hb
    exact ⟨.cons (decide_eq_true hword.2) (.inl ⟨_, _, rfl, hnumeral, rfl⟩) .nil, trivial⟩
  | negative _ _ =>
    intro b hb
    -- after an operand the sign would be an operator
    obtain rfl := IsFree.eq_fresh hb
    exact ⟨.cons rfl (.inr ⟨by omega, rfl⟩) (.skip rfl .nil), trivial⟩
  | parenthesized _ ih =>
    intro b hb
    obtain ⟨hx, -⟩ := ih .fresh trivial
    refine ⟨.skip (IsFree.begins_lparen hb) (.close rfl hx), ?_⟩
    rw [Before.after_cons, Before.after_closing _ _ _ rfl]
    trivial
  | ofTarget _ ih | ofCall _ ih | ofPrimary _ ih => exact ih
  | @unary _ o _ _ _ _ _ ih =>
    intro b hb
    cases o with
    | not =>
      obtain ⟨hx, hended⟩ := ih .fresh trivial
      exact ⟨.cons rfl rfl hx, hended⟩
  | noOperator hk =>
    intro b hb
    -- what follows is no operator, so it is no '-' either
    refine ⟨⟨[], (List.append_nil _).symm, .nil⟩, IsEnded.isFree hb ?_⟩
    rintro rfl
    cases hk
  | @operator _ l r x o w w' p _ _ _ ihr ihx =>
    intro b hb
    obtain ⟨hskip, hfresh⟩ := IsEnded.next_operator hb o
    obtain ⟨hr, hended⟩ := ihr .fresh trivial
    obtain ⟨⟨ys, hys, hrest⟩, hfree⟩ := ihx _ hended
    rw [← Before.after_append, ← hfresh] at hfree
    refine ⟨⟨r.opened .item ++ ys, ?_, .skip hskip ?_⟩, hfree⟩
    · rw [hys, Node.opened, List.append_assoc]
    · rw [kind_mark, hfresh]
      exact hr.append hrest
  | expression _ _ ihl ihx =>
    intro b hb
    rw [firstKind_append] at hb
    obtain ⟨hl, hended⟩ := ihl b hb
    obtain ⟨⟨ys, hys, hrest⟩, hfree⟩ := ihx _ hended
    rw [Phrase.Opened, hys, Before.after_append]
    exact ⟨hl.append hrest, hfree⟩
  | callStatement hcall ih =>
    intro b hb
    -- a statement begins with a word, which is free to stand after any statement
    obtain ⟨t, w', rfl, ht⟩ := hcall.starts
    rw [firstKind_cons, ht] at ih
    obtain ⟨hx, hended⟩ := ih b (IsWhole.isFree hb)
    exact ⟨hx, hended.isWhole⟩
  | @assignment _ _ _ o _ _ _ _ htarget _ iht ihv =>
    intro b hb
    obtain ⟨t, w', rfl, ht⟩ := htarget.starts
    rw [firstKind_cons, ht] at iht
    obtain ⟨hl, -⟩ := iht b (IsWhole.isFree hb)
    obtain ⟨hv, hfree⟩ := ihv .fresh trivial
    obtain ⟨hskip, hfresh⟩ := Before.next_assign (b.after (t :: w')) o
    rw [← hfresh] at hv hfree
    refine ⟨hl.append (.skip hskip hv), ?_⟩
    rw [Before.after_append]
    exact hfree.isWhole
  | statement _ _ ihx ihxs =>
    intro b hb
    obtain ⟨hx, hwhole⟩ := ihx b hb
    exact hx.append (ihxs _ hwhole)

/-- The tokens of a program that begin a node begin those of its statements. -/
theorem Derives.opens_program {d : Nat} {xs : List Node} {w : List Token} {e : Token}
    (h : Derives d (.statements xs) w .endOfInput) (he : e.kind = .endOfInput) :
    List.Forall₂ OpenedBy (Node.openedAll xs) (openings .fresh (w ++ [e])) := by
  have hend : Begins (Before.fresh.after w) [] [e] := .skip (by rw [he]; rfl) .nil
  have hall := Begins.append (h.opens .fresh ⟨nofun, nofun⟩) hend
  rwa [List.append_nil] at hall

end Grammar

end GnLang
