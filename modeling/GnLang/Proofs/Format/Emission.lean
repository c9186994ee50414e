/-
An emitter writes what the layout says, as far as there is room for its calls, and comes back
to the depth it was at.

`height` counts the calls that are open at once, where most are, while a tree is written.
`Settles room a n r` says of the action `a`, for which there is this room, that it leaves the
emitter as it was, whether it answers with a text or with a fault; that the answer depends on
nothing but the depth; and that it is what `r` says for the depth, unless there is no room for
`n` calls.

* `Emitter.Settles.enter` — calls that stay open during the action;
* `Emitter.Settles.indented` — going one level deeper and back;
* `Emitter.settles_emit`, `Emitter.settles_emitBlock` — trees and bodies settle at their layout;
* `Emitter.answer_emit` — a tree that has a text is written if there is room;
* `Emitter.after_emitStatement` — a statement adds its line, or nothing;
* `Emitter.writeList_toWriter` — an emitter and a writer write lists of statements alike.
-/
import GnLang.Format.Writer

namespace GnLang.Format

theorem layoutAll_cons {depth : Int} {x : Node} {xs : List Node} {texts : List String}
    (h : layoutAll depth (x :: xs) = .ok texts) :
    ∃ t ts, texts = t :: ts ∧ layout depth x = .ok t ∧ layoutAll depth xs = .ok ts := by
  rw [layoutAll] at h
  cases hx : layout depth x with
  | error f =>
    rw [hx] at h
    cases h
  | ok t =>
    cases hxs : layoutAll depth xs with
    | error f =>
      rw [hx, hxs] at h
      cases h
    | ok ts =>
      rw [hx, hxs] at h
      cases h
      exact ⟨t, ts, rfl, rfl, rfl⟩

/-! ### Answers where room may run out -/

/-- The answer is `r`, unless there is no room for `n` calls: then there is none, or `r` is a
fault that comes before. -/
inductive Within {α : Type} (room : Room) (n : Nat) (r : Except Fault α) : Except Fault α → Prop
  | whole (h : room.Holds n) : Within room n r r
  | earlier {f : Fault} (h : r = .error f) : Within room n r r
  | exhausted (h : ¬ room.Holds n) : Within room n r (.error .stackExhausted)

section

variable {α β : Type} {room : Room} {m n k : Nat} {r answer : Except Fault α}

theorem Within.eq_ok {x : α} (h : Within room n r (.ok x)) : r = .ok x := by
  cases h with
  | whole _ | earlier _ => rfl

/-- Where there is an answer, it is given if there is room. -/
theorem Within.eq_of_ok {x : α} (h : Within room n (.ok x) answer) :
    answer = if room.Holds n then .ok x else .error .stackExhausted := by
  cases h with
  | whole h => rw [if_pos h]
  | earlier h => cases h
  | exhausted h => rw [if_neg h]

theorem Within.bind {r' : α → Except Fault β} {answer' : α → Except Fault β}
    (h : Within room m r answer) (h' : ∀ x, Within room n (r' x) (answer' x)) :
    Within room (max m n) (r >>= r') (answer >>= answer') := by
  cases h with
  | earlier h =>
    subst h
    exact .earlier rfl
  | exhausted h => exact .exhausted fun hmax => h (Room.holds_max.mp hmax).1
  | whole h =>
    cases r with
    | error f => exact .earlier rfl
    | ok x =>
      change Within room (max m n) (r' x) (answer' x)
      have hx := h' x
      generalize answer' x = answer at hx
      cases hx with
      | whole hx => exact .whole (Room.holds_max.mpr ⟨h, hx⟩)
      | earlier hx => exact .earlier hx
      | exhausted hx => exact .exhausted fun hmax => hx (Room.holds_max.mp hmax).2

theorem Within.congr (h : Within room m r answer) (hn : m = n) : Within room n r answer := hn ▸ h

/-- What is within the room that calls leave is within the whole of it. -/
theorem Within.of_less (h : Within (room.less k) n r answer) (hroom : room.Holds k) :
    Within room (k + n) r answer := by
  cases h with
  | whole h => exact .whole (Room.holds_add.mpr ⟨hroom, h⟩)
  | earlier h => exact .earlier h
  | exhausted h => exact .exhausted fun hadd => h (Room.holds_add.mp hadd).2

/-- Calls that stay open take room from what is done meanwhile. -/
theorem Within.enter {f : Room → Except Fault α} (hf : ∀ room, Within room n r (f room)) :
    Within room (k + n) r (enter room k >>= f) := by
  rw [Format.enter]
  by_cases hroom : room.Holds k
  · rw [if_pos hroom]
    exact (hf (room.less k)).of_less hroom
  · rw [if_neg hroom]
    exact .exhausted fun hadd => hroom (Room.holds_add.mp hadd).1

end

namespace Emitter

variable {α β : Type}

/-! ### Calls that are open at once -/

mutual

/-- How many calls are open at once, where most are, while the text of a tree is written. -/
def height : Node → Nat
  | .list xs _ => 2 + if xs.isEmpty then 0 else 1 + heights xs
  | .call _ a none _ => 2 + itemsHeight a
  | .call _ a (some b) _ => 2 + max (itemsHeight a) (1 + itemsHeight b)
  | .arrayAccess _ i _ => 2 + height i
  | .unary _ x _ => 2 + height x
  | .binary l _ r _ => 2 + max (height l) (height r)
  | .assignment t _ v _ => 2 + max (height t) (height v)
  | _ => 2
  termination_by structural x => x

/-- The same for what a tree lists. -/
def itemsHeight : Node → Nat
  | .list xs _ => 1 + heights xs
  | _ => 0
  termination_by structural x => x

/-- The same for trees, one by one. -/
def heights : List Node → Nat
  | [] => 0
  | x :: xs => max (height x) (heights xs)
  termination_by structural xs => xs

end

/-! ### Actions -/

theorem after_bind (a : Action α) (f : α → Action β) (e : Emitter) :
    (a >>= f).after e =
      match a.after e with
      | (.ok x, e') => (f x).after e'
      | (.error g, e') => (.error g, e') := by
  rw [Action.after, ExceptT.run_bind, StateT.run_bind, Action.after]
  rcases StateT.run (ExceptT.run a) e with ⟨_ | x, e'⟩ <;> rfl

theorem after_bind_of_ok {a : Action α} {e e' : Emitter} {x : α} (h : a.after e = (.ok x, e'))
    (f : α → Action β) : (a >>= f).after e = (f x).after e' := by
  rw [after_bind, h]

theorem after_bind_of_error {a : Action α} {e e' : Emitter} {g : Fault}
    (h : a.after e = (.error g, e')) (f : α → Action β) : (a >>= f).after e = (.error g, e') := by
  rw [after_bind, h]

/-- Whatever the action does one level deeper, the emitter goes one level back. -/
theorem after_indented (a : Action α) (e : Emitter) :
    (indented a).after e =
      match a.after { e with depth := e.depth + 1 } with
      | (answer, e') => (answer, { e' with depth := e'.depth - 1 }) := rfl

/-- What an action answers at a depth. -/
def Action.answer (a : Action α) (depth : Int) : Except Fault α := (a.after ⟨#[], depth⟩).1

/-! ### Settled actions -/

/-- The action leaves the emitter as it was; what it answers depends on the depth only, and is
what `r` says unless there is no room for `n` calls. -/
structure Settles (room : Room) (a : Action α) (n : Nat) (r : Int → Except Fault α) : Prop where
  after_eq : ∀ e, a.after e = (a.answer e.depth, e)
  within : ∀ depth, Within room n (r depth) (a.answer depth)

variable {room : Room} {m n : Nat} {a : Action α} {r : Int → Except Fault α}

theorem settles_pure (x : α) : Settles room (pure x) 0 fun _ => .ok x :=
  ⟨fun _ => rfl, fun _ => .whole Room.holds_zero⟩

theorem settles_throw (f : Fault) : Settles room (throw f : Action α) 0 fun _ => .error f :=
  ⟨fun _ => rfl, fun _ => .whole Room.holds_zero⟩

theorem settles_lineStart : Settles room lineStart 0 fun depth => .ok (margin depth) :=
  ⟨fun _ => rfl, fun _ => .whole Room.holds_zero⟩

theorem Settles.congr {r' : Int → Except Fault α} (ha : Settles room a n r) (hn : n = m)
    (h : ∀ depth, r depth = r' depth) : Settles room a m r' :=
  ⟨ha.after_eq, fun depth => hn ▸ h depth ▸ ha.within depth⟩

theorem Settles.bind {f : α → Action β} {g : α → Int → Except Fault β}
    (ha : Settles room a m r) (hf : ∀ x, Settles room (f x) n (g x)) :
    Settles room (a >>= f) (max m n) fun depth => r depth >>= fun x => g x depth := by
  have hafter : ∀ e : Emitter, (a >>= f).after e =
      (a.answer e.depth >>= fun x => (f x).answer e.depth, e) := by
    intro e
    rw [after_bind, ha.after_eq]
    cases a.answer e.depth with
    | error g => rfl
    | ok x => exact (hf x).after_eq e
  have hanswer : ∀ depth, (a >>= f).answer depth =
      a.answer depth >>= fun x => (f x).answer depth :=
    fun depth => by rw [Action.answer, hafter]
  refine ⟨fun e => by rw [hafter, hanswer], fun depth => ?_⟩
  rw [hanswer]
  exact (ha.within depth).bind fun x => (hf x).within depth

/-- What is made of an answer takes no calls. -/
theorem Settles.map {f : α → β} (ha : Settles room a n r) :
    Settles room (a >>= fun x => pure (f x)) n fun depth => r depth >>= fun x => .ok (f x) :=
  (ha.bind fun x => settles_pure (f x)).congr (Nat.max_zero n) fun _ => rfl

/-- One level deeper the action settles at what it answers there, and then the emitter is at
the depth from which it went. -/
theorem Settles.indented (ha : Settles room a n r) :
    Settles room (indented a) n fun depth => r (depth + 1) := by
  have hafter : ∀ e : Emitter, (Emitter.indented a).after e = (a.answer (e.depth + 1), e) := by
    intro e
    rw [after_indented, ha.after_eq]
    simp
  have hanswer : ∀ depth, (Emitter.indented a).answer depth = a.answer (depth + 1) :=
    fun depth => by rw [Action.answer, hafter]
  refine ⟨fun e => by rw [hafter, hanswer], fun depth => ?_⟩
  rw [hanswer]
  exact ha.within (depth + 1)

/-- Calls that stay open take room from what is done meanwhile. -/
theorem Settles.enter {f : Room → Action α} (k : Nat) (hf : ∀ room, Settles room (f room) n r) :
    Settles room (liftM (enter room k) >>= f) (k + n) r := by
  rw [Format.enter]
  by_cases hroom : room.Holds k
  · rw [if_pos hroom]
    have hless := hf (room.less k)
    exact ⟨hless.after_eq, fun depth => (hless.within depth).of_less hroom⟩
  · rw [if_neg hroom]
    exact ⟨fun _ => rfl, fun _ => .exhausted fun hadd => hroom (Room.holds_add.mp hadd).1⟩

/-! ### Trees -/

/-- What is put before and after each of the texts that are made at a depth. -/
def framed (mark : Int → String) (ending : String) (depth : Int) (texts : List String) :
    List String :=
  texts.map fun t => mark depth ++ t ++ ending

/-- Texts with nothing before and after them. -/
theorem Settles.plain {texts : Action (List String)} {r : Int → Except Fault (List String)}
    (h : Settles room texts n fun depth => framed (fun _ => "") "" depth <$> r depth) :
    Settles room texts n r := by
  refine h.congr rfl fun depth => ?_
  have hid : framed (fun _ => "") "" depth = id := by
    funext ts
    simp [framed]
  rw [hid, id_map]

/-- Braces are put round lines one level deeper. -/
theorem Settles.braced {lines : Action (List String)} {r : Int → Except Fault (List String)}
    (h : Settles room lines n fun depth => framed margin "\n" depth <$> r depth) :
    Settles room (braced lines) n fun depth => blockText depth <$> r (depth + 1) := by
  refine (h.indented.bind fun _ => settles_lineStart.map).congr (Nat.max_zero n) ?_
  intro depth
  cases r (depth + 1) <;> rfl

mutual

/-- A tree is written by its layout at the depth of the emitter. -/
theorem settles_emit (room : Room) : ∀ x : Node,
    Settles room (emit room x) (height x) fun depth => layout depth x
  | .identifier .. | .string .. | .integer .. | .scopeAccess .. => .enter 2 fun _ => settles_pure _
  | .foreign _ => .enter 2 fun _ => settles_throw _
  | .list xs _ => by
    rw [emit]
    cases xs with
    | nil => exact .enter 2 fun _ => settles_pure _
    | cons x xs =>
      refine .enter 2 fun room => ?_
      have hlines : Settles room (do emitEach (← enter room 1) lineStart ",\n" (x :: xs)) _ _ :=
        .enter 1 fun room => settles_emitEach room settles_lineStart (x :: xs)
      refine (hlines.indented.bind fun _ => settles_lineStart.map).congr (Nat.max_zero _) ?_
      intro depth
      rw [layout]
      cases htexts : layoutAll (depth + 1) (x :: xs) with
      | error f => rfl
      | ok texts =>
        -- there is a text for the first element, so the list is not written as an empty one
        obtain ⟨t, ts, rfl, -, -⟩ := layoutAll_cons htexts
        rfl
  | .call _ a none _ => by
    rw [emit]
    exact .enter 2 fun room => (settles_emitItems room (settles_pure "") a).plain.map
  | .call _ a (some b) _ => by
    rw [emit]
    refine .enter 2 fun room => ?_
    have hargs := (settles_emitItems room (settles_pure "") a).plain
    refine (hargs.bind fun _ => .enter 1 fun room =>
      (settles_emitItems room settles_lineStart b).braced.map).congr rfl fun depth => ?_
    rw [layout]
    cases layoutItems depth a <;> cases layoutItems (depth + 1) b <;> rfl
  | .arrayAccess _ i _ => by
    rw [emit]
    exact .enter 2 fun room => (settles_emit room i).map
  | .unary _ x _ => by
    rw [emit]
    exact .enter 2 fun room => (settles_emit room x).map
  | .binary l _ r _ => by
    rw [emit]
    exact .enter 2 fun room => (settles_emit room l).bind fun _ => (settles_emit room r).map
  | .assignment t _ v _ => by
    rw [emit]
    exact .enter 2 fun room => (settles_emit room t).bind fun _ => (settles_emit room v).map

theorem settles_emitItems (room : Room) {start : Action String} {ending : String}
    {mark : Int → String} (hstart : ∀ {room}, Settles room start 0 fun depth => .ok (mark depth)) :
    ∀ x : Node, Settles room (emitItems room start ending x) (itemsHeight x) fun depth =>
      framed mark ending depth <$> layoutItems depth x
  | .list xs _ => .enter 1 fun room => settles_emitEach room hstart xs
  | .foreign (.text s) => by
    rw [emitItems]
    split
    · rename_i hs
      refine (settles_pure []).congr rfl fun depth => ?_
      rw [layoutItems, if_pos hs]
      rfl
    · rename_i hs
      refine (settles_throw _).congr rfl fun depth => ?_
      rw [layoutItems, if_neg hs]
      rfl
  | .foreign (.object ..) | .foreign (.other ..) | .identifier .. | .string .. | .integer ..
  | .scopeAccess .. | .call .. | .arrayAccess .. | .unary .. | .binary .. | .assignment .. =>
    settles_throw _

theorem settles_emitEach (room : Room) {start : Action String} {ending : String}
    {mark : Int → String} (hstart : ∀ {room}, Settles room start 0 fun depth => .ok (mark depth)) :
    ∀ xs : List Node, Settles room (emitEach room start ending xs) (heights xs) fun depth =>
      framed mark ending depth <$> layoutAll depth xs
  | [] => settles_pure []
  | x :: xs => by
    rw [emitEach]
    refine (hstart.bind fun _ => (settles_emit room x).bind fun _ =>
      (settles_emitEach room hstart xs).map).congr (Nat.zero_max _) fun depth => ?_
    rw [layoutAll]
    cases layout depth x <;> cases layoutAll depth xs <;> rfl

end

variable {x : Node} {text : String} {e : Emitter}

/-- A tree that has a text is written, if there is room. -/
theorem answer_emit {depth : Int} (h : layout depth x = .ok text) (room : Room) :
    (emit room x).answer depth =
      if room.Holds (height x) then .ok text else .error .stackExhausted := by
  have hwithin := (settles_emit room x).within depth
  rw [h] at hwithin
  exact hwithin.eq_of_ok

theorem after_emit (h : layout e.depth x = .ok text) (room : Room) :
    (emit room x).after e =
      (if room.Holds (height x) then .ok text else .error .stackExhausted, e) := by
  rw [(settles_emit room x).after_eq, answer_emit h]

theorem after_emit_eq_ok {e' : Emitter} (h : (emit room x).after e = (.ok text, e')) :
    layout e.depth x = .ok text := by
  have hx := settles_emit room x
  have hwithin := hx.within e.depth
  rw [hx.after_eq] at h
  rw [(Prod.mk.inj h).1] at hwithin
  exact hwithin.eq_ok

/-! ### Statements -/

/-- The emitter with further lines. -/
def withLines (e : Emitter) (lines : List String) : Emitter :=
  { e with lines := e.lines ++ lines.toArray }

/-- A tree that can be written becomes the next line; otherwise nothing changes. -/
theorem after_emitStatement (room : Room) (x : Node) (e : Emitter) :
    (emitStatement room x).after e =
      match (emit room x).answer e.depth with
      | .ok text => (.ok (), e.withLines [margin e.depth ++ text])
      | .error f => (.error f, e) := by
  have hstart : Settles room lineStart 0 fun depth => .ok (margin depth) := settles_lineStart
  rw [emitStatement, after_bind_of_ok (hstart.after_eq e)]
  have hx := (settles_emit room x).after_eq e
  cases htext : (emit room x).answer e.depth with
  | error f =>
    rw [htext] at hx
    exact after_bind_of_error hx _
  | ok text =>
    rw [htext] at hx
    rw [after_bind_of_ok hx]
    simp only [withLines, ← Array.push_eq_append]
    rfl

/-! ### Writers -/

theorem writerFor?_gn : writerFor? "gn" = .ok fresh.toWriter := by
  have : Text.lower "gn" = "gn" := by decide
  rw [writerFor?, this]
  rfl

/-- A tree that has a text becomes the next line of a writer, if there is room. -/
theorem write_toWriter (h : layout e.depth x = .ok text) (room : Room) :
    e.toWriter.write room x =
      if room.Holds (height x) then (.ok (), (e.withLines [margin e.depth ++ text]).toWriter)
      else (.error .stackExhausted, e.toWriter) := by
  rw [toWriter, Writer.write, after_emitStatement, answer_emit h]
  by_cases hroom : room.Holds (height x)
  · rw [if_pos hroom, if_pos hroom]
    rfl
  · rw [if_neg hroom, if_neg hroom]

theorem after_forM_cons {α : Type} (g : α → Action Unit) (x : α) (xs : List α) (e : Emitter) :
    ((x :: xs).forM g).after e =
      match (g x).after e with
      | (.ok _, e') => (xs.forM g).after e'
      | (.error f, e') => (.error f, e') := by
  change (g x >>= fun _ => xs.forM g).after e = _
  rw [after_bind]
  rcases (g x).after e with ⟨_ | _, e'⟩ <;> rfl

theorem writeAll_toWriter (room : Room) (xs : List Node) (e : Emitter) :
    Writer.writeAll room xs e.toWriter =
      match (xs.forM (emitNext room)).after e with
      | (answer, e') => (answer, e'.toWriter) := by
  induction xs generalizing e with
  | nil => rfl
  | cons x xs ih =>
    rw [Writer.writeAll, after_forM_cons, emitNext]
    by_cases hx : x.isStatement = true
    · rw [if_pos hx, if_pos hx, toWriter, Writer.write]
      rcases (emitStatement room x).after e with ⟨_ | _, e'⟩
      · rfl
      · exact ih e'
    · rw [if_neg hx, if_neg hx]
      rfl

/-- An emitter and a writer that has written the same answer alike to a list of statements, and
have written the same afterwards. -/
theorem writeList_toWriter (room : Room) (xs : List Node) (e : Emitter) :
    writeList room e.toWriter xs =
      match (formatList room xs).after e with
      | (answer, e') => (answer, e'.toWriter) := by
  rw [writeList, formatList]
  by_cases hxs : xs.all Node.isNode = true
  · rw [if_pos hxs, if_pos hxs, writeAll_toWriter, after_bind]
    rcases (xs.forM (emitNext room)).after e with ⟨_ | _, e'⟩ <;> rfl
  · rw [if_neg hxs, if_neg hxs]
    rfl

end Emitter

end GnLang.Format
