/-
Statements written as JSON.

Nothing is lost: whatever the indent, the text is one JSON value in ASCII characters and a
newline, the value is the array of the records of the statements, and no other statements
have the text.  There must be room for the records, though, and the strings must be texts:
`writeList_json_chain`.

* `isStatement_of_writeList` — what a writer of JSON takes;
* `isText_write` — what it writes, as a JSON text;
* `writeList_json_lossless` — the whole of it.
-/
import GnLang.Proofs.Format.Chains
import GnLang.Proofs.Json.Points
import GnLang.Proofs.Json.Reader

namespace GnLang.Format

open Text Writer

variable {xs ys : List Node} {x : Node} {w : Writer} {indent : Option Int} {room : Room}

theorem isStatement_of_writeAll {done : Array Json}
    (h : writeAll room xs (.json done indent) = (.ok (), w)) :
    ∀ x ∈ xs, x.isStatement = true ∧ x.foreign? = none := by
  induction xs generalizing done with
  | nil => exact fun _ hx => by cases hx
  | cons x xs ih =>
    rw [writeAll] at h
    by_cases hx : x.isStatement = true
    · rw [if_pos hx, write] at h
      cases hrecord : record? room x with
      | ok v =>
        rw [hrecord] at h
        exact List.forall_mem_cons.mpr ⟨⟨hx, foreign?_eq_none_of_record? hrecord⟩, ih h⟩
      | error f =>
        rw [hrecord] at h
        cases h
    · rw [if_neg hx] at h
      cases h

/-- Only calls and assignments that hold nothing but nodes are written as JSON. -/
theorem isStatement_of_writeList {text : String}
    (h : (writeList room (.json #[] indent) xs).1 = .ok text) :
    ∀ x ∈ xs, x.isStatement = true ∧ x.foreign? = none := by
  rw [writeList] at h
  by_cases hnode : xs.all Node.isNode = true
  · rw [if_pos hnode] at h
    cases hall : writeAll room xs (.json #[] indent) with
    | mk answer w =>
      cases answer with
      | ok _ => exact isStatement_of_writeAll hall
      | error f =>
        rw [hall] at h
        cases h
  · rw [if_neg hnode] at h
    cases h

/-- The text of an array with its newline is a JSON text for the array. -/
theorem isText_write (indent : Option Nat) (v : Json) :
    Json.IsText v (Json.write indent 0 v ++ "\n").toList := by
  refine ⟨[], _, ['\n'], Json.isBlanks_nil, (Json.prints_write indent 0 _).spells, by decide, ?_⟩
  rw [String.toList_append]
  rfl

theorem records_inj (hxs : ∀ x ∈ xs, x.foreign? = none) (hys : ∀ y ∈ ys, y.foreign? = none)
    (h : Json.arr (xs.map Node.toJson) = .arr (ys.map Node.toJson)) : xs = ys := by
  refine Node.toJsonAll_inj (foreignIn?_eq_none hxs) (foreignIn?_eq_none hys) ?_
  rw [Node.toJsonAll_eq_map, Node.toJsonAll_eq_map, Json.arr.inj h]

/-- Calls and assignments that hold nothing but nodes are written in ASCII, as one JSON value
and a newline, if there is room for their records inside one another, and are not written
otherwise.  The value is the array of the records, in which no object has two fields of one
name.  The reader finds that value in the text, and the grammar allows no other.  No other
statements have the text, with that indent or another. -/
theorem writeList_json_lossless (h : ∀ x ∈ xs, x.isStatement = true ∧ x.foreign? = none)
    (indent : Option Int) :
    ∃ text, (∀ room, (writeList room (.json #[] indent) xs).1 =
        if room.Holds (jsonCalls + (Json.arr (xs.map Node.toJson)).height) then .ok (text ++ "\n")
        else .error .stackExhausted) ∧
      IsAscii (text ++ "\n") ∧
      Json.Spells (.value (.arr (xs.map Node.toJson))) text.toList ∧
      (Json.arr (xs.map Node.toJson)).DistinctKeys ∧
      Json.read? (text ++ "\n") = some (.arr (xs.map Node.toJson)) ∧
      (∀ v, Json.IsText v (text ++ "\n").toList → v = .arr (xs.map Node.toJson)) ∧
      ∀ ys room indent', (writeList room (.json #[] indent') ys).1 = .ok (text ++ "\n") →
        ys = xs := by
  have hprints := Json.prints_write (indent.map Int.toNat) 0 (.arr (xs.map Node.toJson))
  have htext := isText_write (indent.map Int.toNat) (.arr (xs.map Node.toJson))
  refine ⟨_, fun room => writeList_json h room indent, hprints.isAscii.append (by decide),
    hprints.spells, ?_, Json.read?_of_isText htext, fun v hv => hv.unique htext, ?_⟩
  · refine .arr fun v hv => ?_
    obtain ⟨x, -, rfl⟩ := List.mem_map.mp hv
    exact x.distinctKeys_toJson
  · intro ys room indent' hys
    have hstatements := isStatement_of_writeList hys
    -- their text is a text of both arrays, which are therefore one
    rw [writeList_json hstatements] at hys
    split at hys
    · have htext' := isText_write (indent'.map Int.toNat) (.arr (ys.map Node.toJson))
      rw [Except.ok.inj hys] at htext'
      exact records_inj (fun y hy => (hstatements y hy).2) (fun x hx => (h x hx).2)
        (htext'.unique htext)
    · cases hys

/-- A string of characters that are all escaped, in a call without a body; a body that is
empty makes another text. -/
theorem writeList_json_lossless_body :
    let args := Node.list [.string "\"\n😀" ⟨1, 3⟩] ⟨1, 2⟩
    let x := Node.call "f" args none ⟨1, 1⟩
    let y := Node.call "f" args (some (.list [] ⟨2, 5⟩)) ⟨1, 1⟩
    (x.isStatement = true ∧ x.foreign? = none) ∧
      ∃ text, (writeList .usual (.json #[] none) [x]).1 = .ok text ∧ IsAscii text ∧
        Json.read? text = some (.arr [x.toJson]) ∧
        (writeList .usual (.json #[] none) [y]).1 ≠ .ok text := by
  intro args x y
  have hx : ∀ z ∈ [x], z.isStatement = true ∧ z.foreign? = none :=
    List.forall_mem_singleton.mpr ⟨rfl, rfl⟩
  obtain ⟨text, htext, hascii, -, -, hread, -, honly⟩ := writeList_json_lossless hx none
  refine ⟨⟨rfl, rfl⟩, _, (htext .usual).trans (if_pos (by decide)), hascii, hread, fun hsame => ?_⟩
  have hbody : y = x := (List.cons.inj (honly [y] .usual none hsame)).1
  exact Option.some_ne_none _ (Node.call.inj hbody).2.2.1

/-- A chain has no text without room for its record. -/
theorem writeList_json_of_not_holds {n : Nat} (hroom : ¬ room.Holds (n + 6))
    (indent : Option Int) :
    (writeList room (.json #[] indent) [assignedChain n]).1 = .error .stackExhausted := by
  have hx := (wellFormed_assignedChain n).foreign?_eq_none
  have hheight : jsonCalls + (Json.arr ([assignedChain n].map Node.toJson)).height = n + 6 := by
    rw [List.map_singleton, Json.height, Json.heightItems, height_toJson_assignedChain, jsonCalls,
      Json.heightItems]
    omega
  rw [writeList_json (List.forall_mem_singleton.mpr ⟨rfl, hx⟩), hheight, if_neg hroom]

/-- There is not room enough for the record of a chain of 2000 operators.  And two halves of a
surrogate pair, which no text holds, would be written like the character that they make. -/
theorem writeList_json_chain :
    (assignedChain 2000).isStatement = true ∧ (assignedChain 2000).foreign? = none ∧
      (∀ indent, (writeList .usual (.json #[] indent) [assignedChain 2000]).1 =
        .error .stackExhausted) ∧
      [0xd83d, 0xde00].flatMap Json.escapePoint = "😀".toList.flatMap Json.escape := by
  have hpair : [0xd83d, 0xde00].flatMap Json.escapePoint =
      (Utf8.points "😀").flatMap Json.escapePoint :=
    (Json.escapePoints_eq_iff (by decide) (by decide)).mpr (by decide)
  exact ⟨rfl, (wellFormed_assignedChain 2000).foreign?_eq_none,
    fun indent => writeList_json_of_not_holds (by decide) indent,
    hpair.trans (Json.escapePoints_points "😀")⟩

end GnLang.Format
