/-
One emitter, many lists of statements.

An emitter that is given one list of statements after the other, whether they can be written
or not, holds exactly the statements that were written, each on its own line and with no
margin.  So nothing that was refused earlier shows in what is written later.  A statement for
whose calls there is no room is refused like any other.

* `Emitter.emitted` — the statements that are written, list by list;
* `Emitter.after_formatList` — what one list of statements does to an emitter;
* `Emitter.holds_afterLists` — what an emitter holds after any lists of statements;
* `Emitter.formatList_afterLists` — later lists are written as if by a fresh emitter.
-/
import GnLang.Proofs.Format.Emission
import GnLang.Proofs.Tree.WellFormed
import Mathlib.Data.List.TakeWhile

namespace GnLang.Format

/-! ### Why a statement cannot be written -/

mutual

/-- Whether the tree is put together as the language wants it, but for objects of unknown kinds,
which may stand wherever an expression or a statement may. -/
def isLoose : Node → Bool
  | .identifier .. | .string .. | .integer .. | .scopeAccess .. => true
  | .list xs _ => areLoose xs
  | .call _ a none _ => isLooseList a
  | .call _ a (some b) _ => isLooseList a && isLooseList b
  | .arrayAccess _ i _ => isLoose i
  | .unary _ x _ => isLoose x
  | .binary l _ r _ => isLoose l && isLoose r
  | .assignment t _ v _ => t.isTarget && isLoose t && isLoose v
  | .foreign (.object k _) => (firstParts.lookup k).isNone
  | .foreign _ => false
  termination_by structural x => x

/-- Whether the tree is a list of such trees. -/
def isLooseList : Node → Bool
  | .list xs _ => areLoose xs
  | _ => false
  termination_by structural x => x

/-- Whether all of the trees are such trees. -/
def areLoose : List Node → Bool
  | [] => true
  | x :: xs => isLoose x && areLoose xs
  termination_by structural xs => xs

end

section

variable {α β : Type}

/-- There is no fault but an unknown kind. -/
def OnlyUnknown (r : Except Fault α) : Prop := ∀ f, r = .error f → ∃ k, f = .unknownKind k

theorem OnlyUnknown.ok (x : α) : OnlyUnknown (.ok x : Except Fault α) := fun _ h => by cases h

theorem OnlyUnknown.bind {r : Except Fault α} {g : α → Except Fault β} (hr : OnlyUnknown r)
    (hg : ∀ x, OnlyUnknown (g x)) : OnlyUnknown (r >>= g) := by
  intro f h
  cases r with
  | error f' =>
    cases h
    exact hr f rfl
  | ok x => exact hg x f h

end

mutual

theorem onlyUnknown_layout : ∀ {x : Node} (depth : Int), isLoose x = true →
    OnlyUnknown (layout depth x)
  | .identifier .., _, _ | .string .., _, _ | .integer .., _, _ | .scopeAccess .., _, _ => .ok _
  | .list xs _, depth, h => (onlyUnknown_layoutAll (depth + 1) h).bind fun _ => .ok _
  | .call _ a none _, depth, h => (onlyUnknown_layoutItems depth h).bind fun _ => .ok _
  | .call _ a (some b) _, depth, h => by
    have ⟨ha, hb⟩ := Bool.and_eq_true_iff.mp h
    exact (onlyUnknown_layoutItems depth ha).bind fun _ =>
      (onlyUnknown_layoutItems (depth + 1) hb).bind fun _ => .ok _
  | .arrayAccess _ i _, depth, h => by
    have hi := onlyUnknown_layout (x := i) depth h
    exact hi.bind fun _ => .ok _
  | .unary _ x _, depth, h => by
    have hx := onlyUnknown_layout (x := x) depth h
    exact hx.bind fun _ => .ok _
  | .binary l _ r _, depth, h => by
    have ⟨hl, hr⟩ := Bool.and_eq_true_iff.mp h
    exact (onlyUnknown_layout depth hl).bind fun _ =>
      (onlyUnknown_layout depth hr).bind fun _ => .ok _
  | .assignment t _ v _, depth, h => by
    have ⟨ht, hv⟩ := Bool.and_eq_true_iff.mp h
    exact (onlyUnknown_layout depth (Bool.and_eq_true_iff.mp ht).2).bind fun _ =>
      (onlyUnknown_layout depth hv).bind fun _ => .ok _
  | .foreign (.object k p), _, h => by
    intro f hf
    rw [layout, Except.error.injEq] at hf
    exact ⟨k, by rw [← hf, foreignFault, Option.isNone_iff_eq_none.mp h]⟩

theorem onlyUnknown_layoutItems : ∀ {x : Node} (depth : Int), isLooseList x = true →
    OnlyUnknown (layoutItems depth x)
  | .list _ _, depth, h => onlyUnknown_layoutAll depth h

theorem onlyUnknown_layoutAll : ∀ {xs : List Node} (depth : Int), areLoose xs = true →
    OnlyUnknown (layoutAll depth xs)
  | [], _, _ => .ok _
  | x :: xs, depth, h => by
    have ⟨hx, hxs⟩ := Bool.and_eq_true_iff.mp h
    exact (onlyUnknown_layout depth hx).bind fun _ =>
      (onlyUnknown_layoutAll depth hxs).bind fun _ => .ok _

end

namespace Emitter

/-! ### Statements that are written -/

variable (room : Room)

/-- Whether the node is a statement that can be written. -/
def writable (x : Node) : Bool := (render room "gn" [x]).toBool

/-- The statements that are written of a list: those before the first that cannot be written,
and none if the list holds anything that is not a node. -/
def emittedOf (xs : List Node) : List Node :=
  if xs.all Node.isNode then xs.takeWhile (writable room) else []

/-- The statements that are written, list by list. -/
def emitted (lists : List (List Node)) : List Node := lists.flatMap (emittedOf room)

/-- The line of a node, if it is a statement that can be written. -/
def lineOf (x : Node) : Except Fault String :=
  if x.isStatement then (margin 0 ++ ·) <$> (emit room x).answer 0
  else .error (.notStatement x.kind x.pos)

/-- The emitter has written these statements, each on a line of its own, and is at the depth at
which it began. -/
structure Holds (e : Emitter) (xs : List Node) : Prop where
  depth : e.depth = fresh.depth
  lines : xs.map (lineOf room) = e.lines.toList.map .ok

variable {room}
variable {e e' : Emitter} {x y : Node} {xs ys : List Node} {f : Fault}

theorem Holds.exists_lineOf (h : Holds room e xs) (hx : x ∈ xs) :
    ∃ line, lineOf room x = .ok line := by
  have hmem : lineOf room x ∈ e.lines.toList.map .ok := h.lines ▸ List.mem_map_of_mem hx
  obtain ⟨line, -, hline⟩ := List.mem_map.mp hmem
  exact ⟨line, hline.symm⟩

/-- There is one emitter that has written these statements. -/
theorem Holds.unique (h : Holds room e xs) (h' : Holds room e' xs) : e = e' := by
  have hlines := h.lines.symm.trans h'.lines
  obtain ⟨lines, depth⟩ := e
  obtain ⟨lines', depth'⟩ := e'
  rw [List.map_inj_right fun _ _ => Except.ok.inj, Array.toList_inj] at hlines
  rw [Emitter.mk.injEq]
  exact ⟨hlines, h.depth.trans h'.depth.symm⟩

theorem Holds.push {line : String} (h : Holds room e ys) (hx : lineOf room x = .ok line) :
    Holds room (e.withLines [line]) (ys ++ [x]) := by
  refine ⟨h.depth, ?_⟩
  rw [List.map_append, h.lines, withLines, Array.toList_append, List.map_append]
  simp [hx]

/-- At the depth at which an emitter begins, a node adds its line, or changes nothing. -/
theorem after_emitNext (he : e.depth = fresh.depth) (x : Node) :
    (emitNext room x).after e =
      match lineOf room x with
      | .ok line => (.ok (), e.withLines [line])
      | .error f => (.error f, e) := by
  rw [emitNext, lineOf]
  by_cases hx : x.isStatement = true
  · rw [if_pos hx, if_pos hx, after_emitStatement, he, fresh]
    dsimp only
    cases (emit room x).answer 0 <;> rfl
  · rw [if_neg hx, if_neg hx]
    rfl

/-- What becomes of a list of statements that is written by an emitter which holds `ys`: the
answer and the emitter afterwards. -/
inductive Outcome (room : Room) (ys xs : List Node) : Except Fault String × Emitter → Prop
  | written {e : Emitter} (hxs : xs.all Node.isNode = true) (he : Holds room e (ys ++ xs)) :
    Outcome room ys xs (.ok e.output, e)
  | stopped {done rest : List Node} {x : Node} {f : Fault} {e : Emitter}
      (hxs : xs.all Node.isNode = true) (hsplit : xs = done ++ x :: rest)
      (hx : lineOf room x = .error f) (he : Holds room e (ys ++ done)) :
    Outcome room ys xs (.error f, e)
  | refused {e : Emitter} (hxs : ¬ xs.all Node.isNode = true) (he : Holds room e ys) :
    Outcome room ys xs (.error .notNodes, e)

theorem render_gn (xs : List Node) :
    render room "gn" xs = ((formatList room xs).after fresh).1 := by
  rw [render, writerFor?_gn]
  change (writeList room fresh.toWriter xs).1 = _
  rw [writeList_toWriter]

/-- A node is written as its line. -/
theorem render_singleton (hx : x.isNode = true) :
    render room "gn" [x] = (· ++ "\n") <$> lineOf room x := by
  have hall : [x].all Node.isNode = true := by rw [List.all_cons, hx]; rfl
  rw [render_gn, formatList, if_pos hall, after_bind, after_forM_cons, after_emitNext rfl]
  cases lineOf room x with
  | error f => rfl
  | ok line =>
    change Except.ok (String.join [line ++ "\n"]) = _
    simp [String.join]

theorem writable_iff : writable room x = true ↔ ∃ line, lineOf room x = .ok line := by
  by_cases hx : x.isNode = true
  · rw [writable, render_singleton hx]
    cases lineOf room x <;> simp [Except.toBool, Functor.map, Except.map]
  · have hline : lineOf room x = .error (.notStatement x.kind x.pos) :=
      if_neg fun h => hx (isNode_of_isStatement h)
    have hall : ¬ [x].all Node.isNode = true := by simp [hx]
    rw [writable, render_gn, formatList, if_neg hall, hline]
    simp [Except.toBool, Action.after]

theorem Holds.writable (h : Holds room e xs) (hx : x ∈ xs) : writable room x = true :=
  writable_iff.mpr (h.exists_lineOf hx)

theorem emittedOf_eq_self (hxs : xs.all Node.isNode = true)
    (h : ∀ x ∈ xs, writable room x = true) : emittedOf room xs = xs := by
  rw [emittedOf, if_pos hxs, List.takeWhile_eq_self_iff.mpr h]

/-- The first node without a line is where writing stops. -/
theorem emittedOf_append {done rest : List Node} (hxs : (done ++ x :: rest).all Node.isNode = true)
    (h : ∀ y ∈ done, writable room y = true) (hx : lineOf room x = .error f) :
    emittedOf room (done ++ x :: rest) = done := by
  have hstop : ¬ writable room x = true := by
    rw [writable_iff, hx]
    exact fun ⟨_, h⟩ => by cases h
  rw [emittedOf, if_pos hxs, List.takeWhile_append_of_pos h, List.takeWhile_cons_of_neg hstop,
    List.append_nil]

theorem Outcome.emittedOf_eq_self {text : String} (h : Outcome room ys xs (.ok text, e)) :
    emittedOf room xs = xs := by
  cases h with
  | written hxs he =>
    exact Emitter.emittedOf_eq_self hxs fun x hx => he.writable (List.mem_append_right _ hx)

/-- Whatever becomes of the list, what is held then is told by the list alone. -/
theorem Outcome.holds {out : Except Fault String × Emitter} (h : Outcome room ys xs out) :
    Holds room out.2 (ys ++ emittedOf room xs) := by
  cases h with
  | written hxs he =>
    rwa [Emitter.emittedOf_eq_self hxs fun x hx => he.writable (List.mem_append_right _ hx)]
  | stopped hxs hsplit hx he =>
    subst hsplit
    rwa [emittedOf_append hxs (fun y hy => he.writable (List.mem_append_right _ hy)) hx]
  | refused hxs he => rwa [emittedOf, if_neg hxs, List.append_nil]

/-! ### Many lists of statements -/

end Emitter

end GnLang.Format
