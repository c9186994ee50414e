/-
Writing trees and reading them back.

* `Writer.Adds` — statements that a writer writes one after the other, if there is room;
* `formattedIn_eq` — the canonical text of a list of statements, line by line, and the room
  that it takes;
* `exists_readExpression_of_writes` — a text that writes an expression is read as that
  expression;
* `exists_readProgram_of_writesAll` — a text that writes statements is read as that program.
-/
import GnLang.Proofs.Format.Emission
import GnLang.Proofs.Format.Laid
import GnLang.Proofs.Format.Placeless
import GnLang.Proofs.Read
import GnLang.Proofs.Tree.Parsed

namespace GnLang.Format

open Grammar Scan Token

/-- The canonical text of a program: of what its tree lists, if there is room for it. -/
def formattedIn (room : Room) (x : Node) : Except Fault String := items? x >>= render room "gn"

/-- The canonical text of a program, whatever room it takes. -/
def formatted (x : Node) : Except Fault String := formattedIn .unlimited x

/-- How many calls are open at once, where most are, while a program is written in a format. -/
def heightIn (format : String) : Node → Nat
  | .list xs _ =>
    if format = "gn" then Emitter.heights xs
    else Writer.jsonCalls + (Json.arr (xs.map Node.toJson)).height
  | _ => 0

/-! ### The text of a list of statements -/

/-- The canonical texts of statements as the lines of a program. -/
def programText (texts : List String) : String :=
  String.join (texts.map fun t => margin 0 ++ t ++ "\n")

/-- The writer gets from `w` to `w'` by writing the statements, if there is room for `n` calls,
and does not write all of them otherwise. -/
structure Writer.Adds (room : Room) (xs : List Node) (n : Nat) (w w' : Writer) : Prop where
  of_holds : room.Holds n → writeAll room xs w = (.ok (), w')
  of_not_holds : ¬ room.Holds n → (writeAll room xs w).1 = .error .stackExhausted

section

variable {room : Room} {x : Node} {xs : List Node} {m n : Nat} {w w' w'' : Writer}

theorem Writer.Adds.nil : Adds room [] 0 w w :=
  ⟨fun _ => rfl, fun h => absurd Room.holds_zero h⟩

theorem Writer.Adds.cons (hx : x.isStatement = true)
    (hwrite : w.write room x =
      if room.Holds m then (.ok (), w') else (.error .stackExhausted, w))
    (h : Adds room xs n w' w'') : Adds room (x :: xs) (max m n) w w'' := by
  by_cases hm : room.Holds m
  · have hall : writeAll room (x :: xs) w = writeAll room xs w' := by
      rw [writeAll, if_pos hx, hwrite, if_pos hm]
    refine ⟨fun hroom => ?_, fun hroom => ?_⟩
    · rw [hall, h.of_holds (Room.holds_max.mp hroom).2]
    · rw [hall, h.of_not_holds fun hn => hroom (Room.holds_max.mpr ⟨hm, hn⟩)]
  · refine ⟨fun hroom => absurd (Room.holds_max.mp hroom).1 hm, fun _ => ?_⟩
    rw [writeAll, if_pos hx, hwrite, if_neg hm]

theorem Writer.Adds.writeList (h : Adds room xs n w w')
    (hxs : ∀ x ∈ xs, x.isStatement = true) :
    (writeList room w xs).1 =
      if room.Holds n then w'.output room else .error .stackExhausted := by
  have hnode : xs.all Node.isNode = true :=
    List.all_eq_true.mpr fun x hx => isNode_of_isStatement (hxs x hx)
  rw [Format.writeList, if_pos hnode]
  by_cases hroom : room.Holds n
  · rw [h.of_holds hroom, if_pos hroom]
  · have hstop := h.of_not_holds hroom
    rw [if_neg hroom]
    generalize writeAll room xs w = out at hstop
    obtain ⟨answer, w⟩ := out
    cases hstop
    rfl

end

/-- Statements are written line by line. -/
theorem adds_source (room : Room) {xs : List Node} :
    ∀ {texts : List String} (lines : Array String), (∀ x ∈ xs, x.isStatement = true) →
      layoutAll 0 xs = .ok texts →
      Writer.Adds room xs (Emitter.heights xs) (Emitter.toWriter ⟨lines, 0⟩)
        (Emitter.toWriter ⟨lines ++ (texts.map (margin 0 ++ ·)).toArray, 0⟩) := by
  induction xs with
  | nil =>
    intro texts lines _ htexts
    cases htexts
    rw [List.map_nil, Array.append_empty]
    exact .nil
  | cons x xs ih =>
    intro texts lines hstatement htexts
    obtain ⟨hx, hxs⟩ := List.forall_mem_cons.mp hstatement
    obtain ⟨t, texts, rfl, ht, htexts⟩ := layoutAll_cons htexts
    have hlines : lines ++ ((t :: texts).map (margin 0 ++ ·)).toArray =
        lines ++ [margin 0 ++ t].toArray ++ (texts.map (margin 0 ++ ·)).toArray := by simp
    rw [hlines]
    exact .cons hx (Emitter.write_toWriter ht room) (ih _ hxs htexts)

/-- A program of statements has its lines as its text, if there is room for all of them. -/
theorem formattedIn_eq {xs : List Node} {p : Pos} {texts : List String}
    (h : ∀ x ∈ xs, WellFormed .statement x) (htexts : layoutAll 0 xs = .ok texts) (room : Room) :
    formattedIn room (.list xs p) =
      if room.Holds (heightIn "gn" (.list xs p)) then .ok (programText texts)
      else .error .stackExhausted := by
  have hstatements : ∀ x ∈ xs, x.isStatement = true := fun x hx => (h x hx).isStatement
  -- the writer is found by its name, and then asked for all statements at once
  show (do (writeList room (← writerFor? "gn") xs).1) = _
  rw [Emitter.writerFor?_gn, heightIn, if_pos rfl]
  refine ((adds_source room #[] hstatements htexts).writeList hstatements).trans ?_
  congr 1
  simp [Emitter.toWriter, Writer.output, Emitter.output, programText, Function.comp_def]

theorem formatted_eq {xs : List Node} {p : Pos} {texts : List String}
    (h : ∀ x ∈ xs, WellFormed .statement x) (htexts : layoutAll 0 xs = .ok texts) :
    formatted (.list xs p) = .ok (programText texts) :=
  (formattedIn_eq h htexts .unlimited).trans (if_pos trivial)

theorem formattedIn_eq_ok {xs : List Node} {p : Pos} {room : Room} {text : String}
    (h : ∀ x ∈ xs, WellFormed .statement x) :
    formattedIn room (.list xs p) = .ok text ↔
      formatted (.list xs p) = .ok text ∧ room.Holds (heightIn "gn" (.list xs p)) := by
  obtain ⟨texts, htexts, -⟩ := exists_lines h
  rw [formattedIn_eq h htexts, formatted_eq h htexts]
  by_cases hroom : room.Holds (heightIn "gn" (.list xs p))
  · simp [hroom]
  · simp [hroom]

theorem heightIn_placeless (x : Node) : heightIn "gn" x.placeless = heightIn "gn" x := by
  cases x with
  | list xs p =>
    rw [Node.placeless, heightIn, heightIn, if_pos rfl, if_pos rfl, Emitter.heights_placeless]
  | call n a b p => cases b <;> rfl
  | foreign f => cases f <;> rfl
  | _ => rfl

/-- The text of a program depends on no places, nor does the room that it takes. -/
theorem formattedIn_eq_of_placeless {x y : Node} {xs ys : List Node} {p q : Pos}
    (hx : x = .list xs p) (hy : y = .list ys q) (hxs : ∀ x ∈ xs, WellFormed .statement x)
    (hys : ∀ y ∈ ys, WellFormed .statement y) (h : x.placeless = y.placeless) (room : Room) :
    formattedIn room x = formattedIn room y := by
  have hheight : heightIn "gn" x = heightIn "gn" y := by
    rw [← heightIn_placeless, h, heightIn_placeless]
  subst hx hy
  rw [Node.placeless, Node.placeless, Node.list.injEq] at h
  obtain ⟨texts, htexts, -⟩ := exists_lines hxs
  have htexts' : layoutAll 0 ys = .ok texts := by
    rw [← htexts, ← layoutAll_placeless, ← h.1, layoutAll_placeless]
  rw [formattedIn_eq hxs htexts, formattedIn_eq hys htexts', hheight]

/-! ### Reading a text that spells tokens -/

section

variable {x : Node} {xs : List Node} {d : Nat} {limit : Int} {text : String}
  {N : List Char → Prop}

theorem exists_of_writes (h : Writes (Extends d) x text.toList) :
    ∃ ts y, scanTokens text = .ok ts ∧ DerivesExpression d ts y ∧ y.placeless = x.placeless := by
  obtain ⟨y, w, hw, hy, hC⟩ := h .start
  have hts := scanTokens_of_spells hw (by simp [Clear])
  exact ⟨_, y, hts, .intro rfl (hC.expression ends_endOfInput), hy⟩

theorem exists_of_laid (h : Laid d x text.toList) :
    ∃ ts y, scanTokens text = .ok ts ∧ DerivesExpression d ts y ∧ y.placeless = x.placeless :=
  exists_of_writes h.expression

/-- A text that writes an expression is read as that expression. -/
theorem exists_readExpression_of_writes (hlimit : IsLimit limit)
    (h : Writes (Extends limit.toNat) x text.toList) :
    ∃ y, readExpression text limit = .ok y ∧ y.same x = true := by
  obtain ⟨ts, y, hts, hy, hyx⟩ := exists_of_writes h
  have hfits := hy.fits (isGenuine_of_scanTokens hts)
  exact ⟨y, (readExpression_eq_ok hlimit hts).mpr hy,
    Node.same_of_placeless_eq hfits.1.foreign?_eq_none hyx⟩

/-- A statement on its own is a program of one statement. -/
theorem exists_of_statement (h : Writes (States d) x text.toList) :
    ∃ w e x', scanTokens text = .ok (w ++ [e]) ∧ e.kind = .endOfInput ∧
      Derives d (.statement x') w .endOfInput ∧ x'.placeless = x.placeless := by
  obtain ⟨x', w, hw, hx, hC⟩ := h .start
  have hts := scanTokens_of_spells hw (by simp [Clear])
  exact ⟨w, _, x', hts, rfl, hC _ ends_endOfInput, hx⟩

/-- The canonical text of a statement is read as the program of that statement. -/
theorem exists_readProgram_of_statement {depth : Int} (hlimit : IsLimit limit)
    (hx : WellFormed .statement x) (htext : layout depth x = .ok text) (hneed : need x ≤ limit)
    (p : Pos) :
    ∃ y, readProgram text limit = .ok y ∧ y.placeless = (Node.list [x] p).placeless := by
  have hlaid : LaidOut .statement x text := laidOut_of_layout hx htext
  have hd : need x ≤ limit.toNat := by omega
  obtain ⟨w, e, x', hts, he, hx', hxx'⟩ := exists_of_statement (hlaid _ hd)
  refine ⟨_, (readProgram_eq_ok hlimit hts).mpr (.intro he hx'.statements_singleton), ?_⟩
  rw [Node.placeless, Node.placeless, Node.placelessAll, Node.placelessAll, hxx']
  rfl

theorem exists_of_writesAll
    (h : WritesAll N (fun ys w => Derives d (.statements ys) w .endOfInput) xs text.toList)
    (hN : N []) (p : Pos) :
    ∃ ts y, scanTokens text = .ok ts ∧ DerivesProgram d ts y ∧
      y.placeless = (Node.list xs p).placeless := by
  obtain ⟨ys, w, hw, hys, hC⟩ := h .start
  have hts := scanTokens_of_spells hw hN
  refine ⟨_, _, hts, .intro rfl hC, ?_⟩
  rw [Node.placeless, Node.placeless, hys]

/-- A text that writes statements is read as the program of these statements. -/
theorem exists_readProgram_of_writesAll (hlimit : IsLimit limit)
    (h : WritesAll N (fun ys w => Derives limit.toNat (.statements ys) w .endOfInput) xs
      text.toList) (hN : N []) (p : Pos) :
    ∃ y, readProgram text limit = .ok y ∧ y.same (.list xs p) = true := by
  obtain ⟨ts, y, hts, hy, hyx⟩ := exists_of_writesAll h hN p
  obtain ⟨ys, q, rfl, hys, -⟩ := hy.fits (isGenuine_of_scanTokens hts)
  exact ⟨_, (readProgram_eq_ok hlimit hts).mpr hy,
    Node.same_of_placeless_eq (foreignIn?_eq_none fun y hy => (hys y hy).foreign?_eq_none) hyx⟩

end

theorem toList_programText (texts : List String) : (programText texts).toList =
    texts.flatMap fun t => (margin 0).toList ++ t.toList ++ ['\n'] := by
  rw [programText, toList_join_map]
  simp [String.toList_append]

theorem exists_of_laidOut {xs : List Node} {p : Pos} {d : Nat} {texts : List String}
    (h : List.Forall₂ (LaidOut .statement) xs texts) (hd : needs xs ≤ d) :
    ∃ ts y, scanTokens (programText texts) = .ok ts ∧ DerivesProgram d ts y ∧
      y.placeless = (Node.list xs p).placeless := by
  have hwrites := writes_statements (N := fun _ => True) (isBlank_margin 0) (laidAs_of_needs h hd)
  rw [← toList_programText] at hwrites
  exact exists_of_writesAll (hwrites.imp fun _ _ h => h _ ends_endOfInput) trivial p

end GnLang.Format
