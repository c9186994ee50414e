/-
Programs in every format.

What is read from a text holds nothing but statements that can be written, so no writer
refuses it, and all that can be missing is the room for the calls.

* `within_recordable` — what turning a tree into a JSON value comes to;
* `writeList_json` — the JSON text of a list of statements;
* `exists_render` — a program that is read has a text in each format there is, and is written
  if there is room.
-/
import GnLang.Proofs.Concatenation
import GnLang.Proofs.Tree.Record

namespace GnLang.Format

open Grammar Writer

variable {source : String} {limit : Int} {x : Node} {xs : List Node} {room : Room}
  {indent : Option Int}

/-! ### Trees that have a record -/

/-- Only nodes have a record. -/
def refuse : Option Node.Foreign → Except Fault Unit
  | none => .ok ()
  | some f => .error (.lacks f.typeName "to_dict")

theorem refuse_or (f g : Option Node.Foreign) :
    refuse (f.or g) = refuse f >>= fun _ => refuse g := by
  cases f <;> rfl

/-- The height of a node's record, by those of its parts. -/
theorem Within.record {n : Nat} {r : Except Fault Unit} {f : Room → Except Fault Unit}
    {k : String} {parts : List (String × Json)} {p : Pos}
    (h : ∀ room, Within room n r (f room)) (hn : n = Json.heightFields parts) :
    Within room (Node.record k parts p).height r (Format.enter room 1 >>= f) := by
  rw [Node.height_record, ← hn]
  exact .enter h

mutual

/-- A tree is turned into its record unless something in it is not a node, as far as there is
room for the arrays and objects of the record. -/
theorem within_recordable (room : Room) : ∀ x : Node,
    Within room x.toJson.height (refuse x.foreign?) (recordable room x)
  | .identifier .. | .string .. | .integer .. | .scopeAccess .. =>
    .record (n := 0) (fun _ => .whole Room.holds_zero) rfl
  | .list xs _ => by
    rw [Node.toJson, Node.height_record]
    -- there is one call more for the elements, as there is one array
    refine (Within.enter (k := 2) fun room => within_recordableAll room xs).congr ?_
    simp only [Json.heightFields, Json.height, Nat.max_zero]
    omega
  | .call _ a none _ => .record (fun room => within_recordable room a) (by simp)
  | .call _ a (some b) _ => by
    rw [Node.foreign?, refuse_or]
    exact .record (fun room =>
      (within_recordable room a).bind fun _ => within_recordable room b) (by simp)
  | .arrayAccess _ i _ => .record (fun room => within_recordable room i) (by simp)
  | .unary _ x _ => .record (fun room => within_recordable room x) (by simp)
  | .binary l _ r _ => by
    rw [Node.foreign?, refuse_or]
    exact .record (fun room =>
      (within_recordable room l).bind fun _ => within_recordable room r) (by simp)
  | .assignment t _ v _ => by
    rw [Node.foreign?, refuse_or]
    exact .record (fun room =>
      (within_recordable room t).bind fun _ => within_recordable room v) (by simp)
  | .foreign _ => .earlier rfl

theorem within_recordableAll (room : Room) : ∀ xs : List Node,
    Within room (Json.heightItems (Node.toJsonAll xs)) (refuse (Node.foreignIn? xs))
      (recordableAll room xs)
  | [] => .whole Room.holds_zero
  | x :: xs => by
    rw [Node.foreignIn?, refuse_or]
    exact (within_recordable room x).bind fun _ => within_recordableAll room xs

end

theorem record?_eq (h : x.foreign? = none) (room : Room) :
    record? room x =
      if room.Holds x.toJson.height then .ok x.toJson else .error .stackExhausted := by
  have hx := within_recordable room x
  rw [h] at hx
  rw [record?, hx.eq_of_ok]
  split <;> rfl

/-- What has a record holds nothing but nodes. -/
theorem foreign?_eq_none_of_record? {v : Json} (h : record? room x = .ok v) :
    x.foreign? = none := by
  have hx := within_recordable room x
  rw [record?] at h
  cases hok : recordable room x with
  | error f =>
    rw [hok] at h
    cases h
  | ok _ =>
    rw [hok] at hx
    have hrefuse := hx.eq_ok
    cases hforeign : x.foreign? with
    | none => rfl
    | some f =>
      rw [hforeign] at hrefuse
      cases hrefuse

/-! ### Lists of statements -/

theorem writerFor?_json : writerFor? "json" = .ok (.json #[] (some defaultIndent)) := by
  have hname : Text.lower "json" = "json" := by decide
  have hne : ¬ "json" = "gn" := by decide
  rw [writerFor?, hname, if_neg hne, if_pos rfl]

/-- Calls and assignments that hold nothing but nodes are written as their records. -/
theorem adds_json (room : Room) (indent : Option Int)
    (h : ∀ x ∈ xs, x.isStatement = true ∧ x.foreign? = none) (done : Array Json) :
    Adds room xs (Json.heightItems (xs.map Node.toJson)) (.json done indent)
      (.json (done ++ (xs.map Node.toJson).toArray) indent) := by
  induction xs generalizing done with
  | nil =>
    rw [List.map_nil, Array.append_empty]
    exact .nil
  | cons x xs ih =>
    obtain ⟨hx, hxs⟩ := List.forall_mem_cons.mp h
    have hwrite : (Writer.json done indent).write room x =
        if room.Holds x.toJson.height then (.ok (), .json (done ++ [x.toJson].toArray) indent)
        else (.error .stackExhausted, .json done indent) := by
      rw [write, record?_eq hx.2]
      by_cases hroom : room.Holds x.toJson.height
      · simp [hroom]
      · rw [if_neg hroom, if_neg hroom]
    have hdone : done ++ ((x :: xs).map Node.toJson).toArray =
        done ++ [x.toJson].toArray ++ (xs.map Node.toJson).toArray := by simp
    rw [hdone]
    exact .cons hx.1 hwrite (ih hxs _)

/-- The JSON text of statements that hold nothing but nodes is that of their records, if there
is room for it. -/
theorem writeList_json (h : ∀ x ∈ xs, x.isStatement = true ∧ x.foreign? = none) (room : Room)
    (indent : Option Int) :
    (writeList room (.json #[] indent) xs).1 =
      if room.Holds (jsonCalls + (Json.arr (xs.map Node.toJson)).height) then
        .ok (Json.write (indent.map Int.toNat) 0 (.arr (xs.map Node.toJson)) ++ "\n")
      else .error .stackExhausted := by
  rw [(adds_json room indent h #[]).writeList fun x hx => (h x hx).1, Array.empty_append]
  by_cases hroom : room.Holds (Json.heightItems (xs.map Node.toJson))
  · rw [if_pos hroom]
    simp only [output, enter]
    split <;> rfl
  · -- the text takes more calls than any of the records
    have hnot : ¬ room.Holds (jsonCalls + (Json.arr (xs.map Node.toJson)).height) :=
      fun hall => hroom (hall.mono (by rw [Json.height]; omega))
    rw [if_neg hroom, if_neg hnot]

/-- A program that is read can be written in every format, if there is room for it. -/
theorem exists_render (h : readProgram source limit = .ok x) {format : String}
    (hformat : format ∈ names) :
    ∃ text, ∀ room, items? x >>= render room format =
      if room.Holds (heightIn format x) then .ok text else .error .stackExhausted := by
  rcases List.mem_cons.mp hformat with rfl | hformat
  · exact exists_formatted h
  · obtain rfl := List.mem_singleton.mp hformat
    obtain ⟨xs, p, rfl, hxs⟩ := exists_wellFormed h
    have hjson := writeList_json fun x hx => ⟨(hxs x hx).isStatement, (hxs x hx).foreign?_eq_none⟩
    refine ⟨_, fun room => Eq.trans ?_ (hjson room (some defaultIndent))⟩
    show (do (writeList room (← writerFor? "json") xs).1) = _
    rw [writerFor?_json]
    rfl

end GnLang.Format
