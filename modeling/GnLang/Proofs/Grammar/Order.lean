/-
The places in a tree are in reading order.

The tokens of a text stand one after the other, and so do the nodes of a tree in the order
of a visit.  Two nodes may share a place: an operation between two operands stands where
its left operand does, and an assignment where its target does.  The elements of a list
never share one.

* `Node.IsPlaced` — how the place of a node and those of its parts belong together;
* `StandIn` — nodes that stand at tokens, in their order;
* `Derives.stand` — so do the nodes of every phrase.
-/
import GnLang.Proofs.Grammar.Derivation
import GnLang.Proofs.Scan.Order
import GnLang.Proofs.Tree.Preorder

namespace GnLang

open Token

namespace Node

/-- An operation between two operands stands where the left one does, an assignment where
its target does; the elements of a list stand at later and later places. -/
def IsPlaced : Node → Prop
  | list xs _ => xs.Pairwise (·.pos < ·.pos)
  | binary l _ _ p => p = l.pos
  | assignment t _ _ p => p = t.pos
  | _ => True

/-- The first thing that a visit of a tree sees is its root. -/
theorem preorder_eq_cons (x : Node) : ∃ ys, x.preorder = x :: ys := by
  cases x with
  | call n a b p => cases b <;> exact ⟨_, rfl⟩
  | _ => exact ⟨_, rfl⟩

theorem mem_preorder_self (x : Node) : x ∈ x.preorder := by
  obtain ⟨ys, h⟩ := x.preorder_eq_cons
  rw [h]
  exact List.mem_cons_self

theorem mem_preorders_of_mem {x : Node} {xs : List Node} (h : x ∈ xs) : x ∈ preorders xs := by
  induction h with
  | head xs => exact List.mem_append_left _ x.mem_preorder_self
  | tail _ _ ih => exact List.mem_append_right _ ih

end Node

namespace Grammar

/-! ### Nodes among tokens -/

/-- The nodes stand at tokens of `w`, none of them at an earlier one than those before it;
and their places and those of their parts belong together. -/
structure StandIn (w : List Token) (ns : List Node) : Prop where
  places : ∀ y ∈ ns, ∃ t ∈ w, t.pos = y.pos
  sorted : ns.Pairwise (·.pos ≤ ·.pos)
  placed : ∀ y ∈ ns, y.IsPlaced

namespace StandIn

variable {w w' : List Token} {ns ns' : List Node} {t : Token} {y : Node}

theorem nil : StandIn w [] := ⟨nofun, .nil, nofun⟩

/-- Tokens may stand around those at which the nodes do. -/
theorem within (h : StandIn w ns) (before after : List Token) :
    StandIn (before ++ w ++ after) ns := by
  refine ⟨fun y hy => ?_, h.sorted, h.placed⟩
  obtain ⟨t, ht, hpos⟩ := h.places y hy
  exact ⟨t, by simp [ht], hpos⟩

theorem after (h : StandIn w ns) (before : List Token) : StandIn (before ++ w) ns := by
  have hwithin := h.within before []
  rwa [List.append_nil] at hwithin

theorem append (hw : (w ++ w').Pairwise (·.pos < ·.pos)) (h : StandIn w ns)
    (h' : StandIn w' ns') : StandIn (w ++ w') (ns ++ ns') := by
  obtain ⟨-, -, hlt⟩ := List.pairwise_append.mp hw
  refine ⟨?_, List.pairwise_append.mpr ⟨h.sorted, h'.sorted, fun y hy z hz => ?_⟩,
    List.forall_mem_append.mpr ⟨h.placed, h'.placed⟩⟩
  · exact List.forall_mem_append.mpr ⟨(h.within [] w').places, (h'.after w).places⟩
  · obtain ⟨t, ht, hy⟩ := h.places y hy
    obtain ⟨u, hu, hz⟩ := h'.places z hz
    rw [← hy, ← hz]
    exact (hlt t ht u hu).le

/-- A node that stands where the first of the tokens does. -/
theorem single (hpos : y.pos = t.pos) (hy : y.IsPlaced) : StandIn [t] [y] :=
  ⟨List.forall_mem_singleton.mpr ⟨t, List.mem_singleton_self t, hpos.symm⟩,
    List.pairwise_singleton _ _, List.forall_mem_singleton.mpr hy⟩

theorem cons (hw : (t :: w).Pairwise (·.pos < ·.pos)) (hpos : y.pos = t.pos)
    (hy : y.IsPlaced) (h : StandIn w ns) : StandIn (t :: w) (y :: ns) :=
  append (w := [t]) hw (single hpos hy) h

/-- A node before the others, at the first of the tokens. -/
theorem first (hw : (t :: w).Pairwise (·.pos < ·.pos)) (hpos : y.pos = t.pos)
    (hy : y.IsPlaced) (h : StandIn (t :: w) ns) : StandIn (t :: w) (y :: ns) := by
  obtain ⟨hlater, -⟩ := List.pairwise_cons.mp hw
  refine ⟨List.forall_mem_cons.mpr ⟨⟨t, List.mem_cons_self, hpos.symm⟩, h.places⟩,
    List.pairwise_cons.mpr ⟨fun z hz => ?_, h.sorted⟩, List.forall_mem_cons.mpr ⟨hy, h.placed⟩⟩
  obtain ⟨u, hu, hz⟩ := h.places z hz
  rw [hpos, ← hz]
  rcases List.mem_cons.mp hu with rfl | hu
  · exact le_rfl
  · exact (hlater u hu).le

/-- A node before the others, at the place of the first of them. -/
theorem lean {l : Node} (h : StandIn w (l :: ns)) (hpos : y.pos = l.pos) (hy : y.IsPlaced) :
    StandIn w (y :: l :: ns) := by
  obtain ⟨hlater, -⟩ := List.pairwise_cons.mp h.sorted
  refine ⟨?_, List.pairwise_cons.mpr ⟨?_, h.sorted⟩, List.forall_mem_cons.mpr ⟨hy, h.placed⟩⟩
  · exact List.forall_mem_cons.mpr ⟨hpos ▸ h.places l List.mem_cons_self, h.places⟩
  · exact List.forall_mem_cons.mpr ⟨hpos.le, fun z hz => hpos ▸ hlater z hz⟩

end StandIn

/-! ### Trees of phrases -/

/-- The nodes of the tree of a phrase stand in its tokens, and the trees of a list at later
and later places.  A chain adds nodes at the place of its first operand, and the nodes of
the others, which stand in its tokens. -/
def Phrase.Stands (w : List Token) : Phrase → Prop
  | .chain l x => ∃ ops ns, x.preorder = ops ++ (l.preorder ++ ns) ∧
      (∀ y ∈ ops, y.pos = l.pos ∧ y.IsPlaced) ∧ StandIn w ns
  | .expression x | .unary x | .primary x | .target x | .call x | .statement x =>
    StandIn w x.preorder
  | .elements xs | .arguments xs | .statements xs =>
    StandIn w (Node.preorders xs) ∧ xs.Pairwise (·.pos < ·.pos)

/-- Operations at the place of their first operand may stand before all of its nodes. -/
theorem StandIn.chain {w : List Token} {ops ns : List Node} {l : Node}
    (hops : ∀ y ∈ ops, y.pos = l.pos ∧ y.IsPlaced) (h : StandIn w (l.preorder ++ ns)) :
    StandIn w (ops ++ (l.preorder ++ ns)) := by
  obtain ⟨ys, hys⟩ := l.preorder_eq_cons
  rw [hys, List.cons_append] at h ⊢
  induction ops with
  | nil => exact h
  | cons y ops ih =>
    obtain ⟨hy, hops⟩ := List.forall_mem_cons.mp hops
    have hrest := ih hops
    cases ops with
    | nil => exact hrest.lean hy.1 hy.2
    | cons z ops =>
      have hz := hops z List.mem_cons_self
      exact hrest.lean (hy.1.trans hz.1.symm) hy.2

/-- A tree stands before those after it. -/
theorem StandIn.cons_pairwise {w w' : List Token} {x : Node} {xs : List Node}
    (hw : (w ++ w').Pairwise (·.pos < ·.pos)) (hx : StandIn w x.preorder)
    (hxs : StandIn w' (Node.preorders xs) ∧ xs.Pairwise (·.pos < ·.pos)) :
    StandIn (w ++ w') (Node.preorders (x :: xs)) ∧ (x :: xs).Pairwise (·.pos < ·.pos) := by
  refine ⟨hx.append hw hxs.1, List.pairwise_cons.mpr ⟨fun y hy => ?_, hxs.2⟩⟩
  obtain ⟨t, ht, hpos⟩ := hx.places x x.mem_preorder_self
  obtain ⟨u, hu, hpos'⟩ := hxs.1.places y (Node.mem_preorders_of_mem hy)
  rw [← hpos, ← hpos']
  exact (List.pairwise_append.mp hw).2.2 t ht u hu

/-- A list stands where the mark that opens it does. -/
theorem StandIn.bracketed {w : List Token} {xs : List Node} {m m' : Symbol} {p q : Pos}
    (hw : (mark m p :: (w ++ [mark m' q])).Pairwise (·.pos < ·.pos))
    (h : w.Pairwise (·.pos < ·.pos) →
      StandIn w (Node.preorders xs) ∧ xs.Pairwise (·.pos < ·.pos)) :
    StandIn (mark m p :: (w ++ [mark m' q])) (Node.list xs p).preorder := by
  obtain ⟨hxs, hsorted⟩ := h (List.pairwise_append.mp hw.tail).1
  exact StandIn.cons (y := .list xs p) hw rfl hsorted (hxs.within [] [_])

/-- Where tokens are at later and later places, the nodes of a phrase stand in them. -/
theorem Derives.stands {d : Nat} {φ : Phrase} {w : List Token} {k : TokenKind}
    (h : Derives d φ w k) : w.Pairwise (·.pos < ·.pos) → φ.Stands w := by
  induction h with
  | @identifier _ n p => exact fun _ => StandIn.single (y := .identifier n p) rfl trivial
  | @string _ v p => exact fun _ => StandIn.single (y := .string v p) rfl trivial
  | @number _ n _ p => exact fun _ => StandIn.single (y := .integer n p) rfl trivial
  | @negative _ n _ p =>
    exact fun _ => (StandIn.single (y := .integer (-n) p) (t := mark .sub p) rfl trivial).within
      [] [_]
  | @scopeAccess _ n m p =>
    exact fun _ => (StandIn.single (y := .scopeAccess n m p) (t := word n p) rfl trivial).within
      [] [_, _]
  | noElements | noArguments | noStatements => exact fun _ => ⟨.nil, .nil⟩
  | arrayAccess _ ih =>
    intro hw
    have hinside := (List.pairwise_append.mp hw.tail.tail).1
    exact StandIn.cons hw rfl trivial ((ih hinside).within [_] [_])
  | element _ _ ihx ihxs | statement _ _ ihx ihxs =>
    intro hw
    obtain ⟨hx, hxs, -⟩ := List.pairwise_append.mp hw
    exact StandIn.cons_pairwise hw (ihx hx) (ihxs hxs)
  | @elementComma _ _ _ _ _ p _ _ _ ihx ihxs | @argument _ _ _ _ _ p _ _ _ ihx ihxs =>
    intro hw
    obtain ⟨hx, hxs, -⟩ := List.pairwise_append.mp hw
    obtain ⟨hrest, hsorted⟩ := ihxs hxs.tail
    exact StandIn.cons_pairwise hw (ihx hx) ⟨hrest.after [mark .comma p], hsorted⟩
  | @lastArgument _ x w _ _ ih =>
    intro hw
    rw [← List.append_nil w] at hw ⊢
    exact StandIn.cons_pairwise hw (ih (List.pairwise_append.mp hw).1) ⟨.nil, .nil⟩
  | plainCall _ _ ih =>
    intro hw
    exact StandIn.cons hw rfl trivial (StandIn.bracketed hw.tail ih)
  | @bodyCall _ n xs ys w w' p q r b c k _ _ ihxs ihys =>
    have hsplit : mark .lparen q :: (w ++ mark .rparen r :: mark .lbrace b ::
        (w' ++ [mark .rbrace c])) = (mark .lparen q :: (w ++ [mark .rparen r])) ++
          (mark .lbrace b :: (w' ++ [mark .rbrace c])) := by simp
    rw [hsplit]
    intro hw
    obtain ⟨hargs, hbody, -⟩ := List.pairwise_append.mp hw.tail
    exact StandIn.cons hw rfl trivial
      ((StandIn.bracketed hargs ihxs).append hw.tail (StandIn.bracketed hbody ihys))
  | list _ ih => exact fun hw => StandIn.bracketed hw ih
  | parenthesized _ ih =>
    intro hw
    exact (ih (List.pairwise_append.mp hw.tail).1).within [_] [_]
  | ofTarget _ ih | ofCall _ ih | ofPrimary _ ih | callStatement _ ih => exact ih
  | unary _ ih => exact fun hw => StandIn.cons hw rfl trivial (ih hw.tail)
  | noOperator => exact fun _ => ⟨[], [], (List.append_nil _).symm, nofun, .nil⟩
  | @operator _ l r x o w w' p _ _ _ ihr ihx =>
    intro hw
    obtain ⟨hr, hx, -⟩ := List.pairwise_append.mp hw.tail
    obtain ⟨ops, ns, heq, hops, hns⟩ := ihx hx
    have hafter := ((ihr hr).append hw.tail hns).after [mark o.symbol p]
    refine ⟨ops ++ [.binary l o r l.pos], r.preorder ++ ns, ?_, ?_, hafter⟩
    · rw [heq, Node.preorder]
      simp
    · exact List.forall_mem_append.mpr ⟨hops, List.forall_mem_singleton.mpr ⟨rfl, rfl⟩⟩
  | expression _ _ ihl ihx =>
    intro hw
    obtain ⟨hl, hx, -⟩ := List.pairwise_append.mp hw
    obtain ⟨ops, ns, heq, hops, hns⟩ := ihx hx
    rw [Phrase.Stands, heq]
    exact StandIn.chain hops ((ihl hl).append hw hns)
  | @assignment _ t v o w w' p k _ _ iht ihv =>
    intro hw
    obtain ⟨ht, hv, -⟩ := List.pairwise_append.mp hw
    have hafter := (ihv hv.tail).after [mark o.symbol p]
    have hroot : ∀ y ∈ [Node.assignment t o v t.pos], y.pos = t.pos ∧ y.IsPlaced :=
      List.forall_mem_singleton.mpr ⟨rfl, rfl⟩
    exact StandIn.chain hroot ((iht ht).append hw hafter)

/-- The nodes of a program stand in its tokens, the program itself at the first of them. -/
theorem Derives.stands_program {d : Nat} {xs : List Node} {w : List Token} {e : Token}
    (h : Derives d (.statements xs) w .endOfInput) (hw : (w ++ [e]).Pairwise (·.pos < ·.pos)) :
    StandIn (w ++ [e]) (Node.list xs (w.headD e).pos).preorder := by
  obtain ⟨hxs, hsorted⟩ := h.stands (List.pairwise_append.mp hw).1
  have hall := hxs.within [] [e]
  cases w with
  | nil => exact hall.first (y := .list xs e.pos) hw rfl hsorted
  | cons t w => exact hall.first (y := .list xs t.pos) hw rfl hsorted

end Grammar

end GnLang
