/-
Trees that are read can be written.

`Derives.fits`, by induction on a derivation from genuine tokens: the tree of a phrase is
well formed, and its canonical text needs no more nestings than the phrase was allowed.
Parentheses in the canonical text are those of the phrase: an operand with an operator
between operands can only have been read between parentheses.
-/
import GnLang.Proofs.Read
import GnLang.Proofs.Tree.WellFormed

namespace GnLang.Grammar

open Token

/-- The tree is well formed in the role and can be written with `d` nestings. -/
def Fits (r : Role) (d : Nat) (x : Node) : Prop := WellFormed r x ∧ need x ≤ d

/-- An expression that can be written as an operand with `d` nestings. -/
def FitsOperand (d : Nat) (x : Node) : Prop :=
  WellFormed .expression x ∧ need x + parentheses x ≤ d

/-- What a phrase read with `d` nestings says of its tree. -/
def Phrase.Fits (d : Nat) : Phrase → Prop
  | .expression x => Grammar.Fits .expression d x
  | .chain l x => Grammar.Fits .expression d l → Grammar.Fits .expression d x
  | .unary x | .primary x => FitsOperand d x
  | .target x => Grammar.Fits .expression d x ∧ x.isTarget = true
  | .call x => Grammar.Fits .expression d x ∧ ∃ n a b p, x = .call n a b p
  | .statement x => Grammar.Fits .statement d x
  | .elements xs | .arguments xs => ∀ x ∈ xs, Grammar.Fits .expression d x
  | .statements xs => ∀ x ∈ xs, Grammar.Fits .statement d x

theorem FitsOperand.fits {d : Nat} {x : Node} (h : FitsOperand d x) : Fits .expression d x :=
  ⟨h.1, Nat.le_trans (Nat.le_add_right _ _) h.2⟩

theorem fitsOperand_of_target {d : Nat} {x : Node} (h : Fits .expression d x)
    (ht : x.isTarget = true) : FitsOperand d x := by
  refine ⟨h.1, ?_⟩
  cases x <;> first | exact h.2 | cases ht

/-- A list that is a tree of its own needs one nesting more than its items. -/
theorem need_list_le {d : Nat} {r : Role} {xs : List Node} {p : Pos}
    (h : ∀ x ∈ xs, Fits r d x) : need (.list xs p) ≤ d + 1 := by
  rw [need]
  exact Nat.succ_le_succ (needs_le.mpr fun x hx => (h x hx).2)

/-- The tree of a phrase of genuine tokens can be written with the nestings that the phrase
was allowed. -/
theorem Derives.fits {d : Nat} {φ : Phrase} {w : List Token} {k : TokenKind}
    (h : Derives d φ w k) : (∀ t ∈ w, t.IsGenuine) → φ.Fits d := by
  induction h with
  | @identifier d n p k _ _ _ =>
    intro hw
    have hn := (hw _ List.mem_cons_self).isWord (kind_word n p)
    exact ⟨⟨.identifier hn, Nat.zero_le d⟩, rfl⟩
  | @arrayAccess d n i w p q r k _ ih =>
    intro hw
    obtain ⟨hn, hw⟩ := List.forall_mem_cons.mp hw
    obtain ⟨hi, hneed⟩ :=
      ih (List.forall_mem_append.mp (List.forall_mem_cons.mp hw).2).1
    exact ⟨⟨.arrayAccess (hn.isWord (kind_word n p)) hi, Nat.succ_le_succ hneed⟩, rfl⟩
  | @scopeAccess d n m p q r k =>
    intro hw
    have hn := (hw (word n p) (by simp)).isWord (kind_word n p)
    have hm := (hw (word m r) (by simp)).isWord (kind_word m r)
    exact ⟨⟨.scopeAccess hn hm, Nat.zero_le d⟩, rfl⟩
  | noElements | noArguments | noStatements => exact fun _ => List.forall_mem_nil _
  | element _ _ ihx ihxs =>
    intro hw
    obtain ⟨hx, hxs⟩ := List.forall_mem_append.mp hw
    exact List.forall_mem_cons.mpr ⟨ihx hx, ihxs hxs⟩
  | elementComma _ _ ihx ihxs | argument _ _ ihx ihxs =>
    intro hw
    obtain ⟨hx, hxs⟩ := List.forall_mem_append.mp hw
    exact List.forall_mem_cons.mpr ⟨ihx hx, ihxs (List.forall_mem_cons.mp hxs).2⟩
  | lastArgument _ ih => exact fun hw => List.forall_mem_singleton.mpr (ih hw)
  | @plainCall d n xs w p q r k _ _ ih =>
    intro hw
    obtain ⟨hn, hw⟩ := List.forall_mem_cons.mp hw
    have hxs := ih (List.forall_mem_append.mp (List.forall_mem_cons.mp hw).2).1
    refine ⟨⟨.call (hn.isWord (kind_word n p)) fun x hx => (hxs x hx).1, ?_⟩, _, _, _, _, rfl⟩
    exact need_list_le (p := q) hxs
  | @bodyCall d n xs ys w w' p q r b c k _ _ ihxs ihys =>
    intro hw
    obtain ⟨hn, hw⟩ := List.forall_mem_cons.mp hw
    obtain ⟨hargs, hw⟩ := List.forall_mem_append.mp (List.forall_mem_cons.mp hw).2
    have hbody := (List.forall_mem_cons.mp (List.forall_mem_cons.mp hw).2).2
    have hxs := ihxs hargs
    have hys := ihys (List.forall_mem_append.mp hbody).1
    refine ⟨⟨.bodyCall (hn.isWord (kind_word n p)) (fun x hx => (hxs x hx).1)
      fun y hy => (hys y hy).1, ?_⟩, _, _, _, _, rfl⟩
    exact Nat.max_le.mpr ⟨need_list_le (p := q) hxs, need_list_le (p := b) hys⟩
  | @list d xs w p q k _ ih =>
    intro hw
    have hxs := ih (List.forall_mem_append.mp (List.forall_mem_cons.mp hw).2).1
    exact ⟨.list fun x hx => (hxs x hx).1, need_list_le (p := p) hxs⟩
  | @string d v p k =>
    intro hw
    have hv := (hw _ List.mem_cons_self).isQuotable (kind_quoted v p)
    exact ⟨.string hv, Nat.zero_le d⟩
  | number _ hfits | negative _ hfits => exact fun _ => ⟨.integer hfits, Nat.zero_le _⟩
  | @parenthesized d x w p q k _ ih =>
    intro hw
    obtain ⟨hx, hneed⟩ := ih (List.forall_mem_append.mp (List.forall_mem_cons.mp hw).2).1
    -- the nesting of the parentheses is the one that the canonical text may need
    refine ⟨hx, Nat.add_le_add hneed ?_⟩
    rw [parentheses]
    split <;> decide
  | ofTarget _ ih =>
    intro hw
    obtain ⟨hx, ht⟩ := ih hw
    exact fitsOperand_of_target hx ht
  | ofCall _ ih =>
    intro hw
    obtain ⟨hx, n, a, b, p, rfl⟩ := ih hw
    exact hx
  | @unary d o x w p k _ ih =>
    intro hw
    obtain ⟨hx, hneed⟩ := ih (List.forall_mem_cons.mp hw).2
    exact ⟨.unary hx, Nat.succ_le_succ hneed⟩
  | ofPrimary _ ih => exact ih
  | noOperator => exact fun _ hl => hl
  | operator _ _ ihr ihx =>
    intro hw hl
    -- the right operand is a unary, so that its parentheses are already counted
    obtain ⟨hr, hx⟩ := List.forall_mem_append.mp (List.forall_mem_cons.mp hw).2
    obtain ⟨hr, hneed⟩ := ihr hr
    exact ihx hx ⟨.binary hl.1 hr, Nat.max_le.mpr ⟨hl.2, hneed⟩⟩
  | expression _ _ ihl ihx =>
    intro hw
    obtain ⟨hl, hx⟩ := List.forall_mem_append.mp hw
    exact ihx hx (ihl hl).fits
  | callStatement _ ih =>
    intro hw
    obtain ⟨hx, n, a, b, p, rfl⟩ := ih hw
    exact ⟨.callStatement hx.1, hx.2⟩
  | assignment _ _ iht ihv =>
    intro hw
    obtain ⟨ht, hv⟩ := List.forall_mem_append.mp hw
    obtain ⟨⟨ht, hneed⟩, htarget⟩ := iht ht
    obtain ⟨hv, hneed'⟩ := ihv (List.forall_mem_cons.mp hv).2
    exact ⟨.assignment ht htarget hv, Nat.max_le.mpr ⟨hneed, hneed'⟩⟩
  | statement _ _ ihx ihxs =>
    intro hw
    obtain ⟨hx, hxs⟩ := List.forall_mem_append.mp hw
    exact List.forall_mem_cons.mpr ⟨ihx hx, ihxs hxs⟩

/-- The tree of a whole program is a list of statements that can be written. -/
theorem DerivesProgram.fits {d : Nat} {ts : List Token} {x : Node}
    (h : DerivesProgram d ts x) (hts : ∀ t ∈ ts, t.IsGenuine) :
    ∃ xs p, x = .list xs p ∧ (∀ x ∈ xs, WellFormed .statement x) ∧ needs xs ≤ d := by
  obtain ⟨he, hxs⟩ := h
  have hfits := hxs.fits (List.forall_mem_append.mp hts).1
  exact ⟨_, _, rfl, fun x hx => (hfits x hx).1, needs_le.mpr fun x hx => (hfits x hx).2⟩

theorem DerivesExpression.fits {d : Nat} {ts : List Token} {x : Node}
    (h : DerivesExpression d ts x) (hts : ∀ t ∈ ts, t.IsGenuine) :
    Grammar.Fits .expression d x := by
  obtain ⟨he, hx⟩ := h
  exact hx.fits (List.forall_mem_append.mp hts).1

/-- What is read from a text is a list of statements that can be written within the limit. -/
theorem exists_fits {source : String} {limit : Int} {x : Node}
    (h : readProgram source limit = .ok x) :
    IsLimit limit ∧ ∃ xs p, x = .list xs p ∧ (∀ x ∈ xs, WellFormed .statement x) ∧
      (needs xs : Int) ≤ limit := by
  obtain ⟨hlimit, ts, hts⟩ := exists_of_readProgram h
  obtain ⟨xs, p, rfl, hxs, hneed⟩ :=
    ((readProgram_eq_ok hlimit hts).mp h).fits (isGenuine_of_scanTokens hts)
  have := hlimit.1
  exact ⟨hlimit, xs, p, rfl, hxs, by omega⟩

theorem exists_wellFormed {source : String} {limit : Int} {x : Node}
    (h : readProgram source limit = .ok x) :
    ∃ xs p, x = .list xs p ∧ ∀ x ∈ xs, WellFormed .statement x := by
  obtain ⟨-, xs, p, rfl, hxs, -⟩ := exists_fits h
  exact ⟨xs, p, rfl, hxs⟩

end GnLang.Grammar
