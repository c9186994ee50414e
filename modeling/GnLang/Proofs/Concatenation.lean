/-
Programs one after the other.

A program that goes on, on a new line, with another program is a program: the tokens of the
first stay what they are, those of the second are the same wherever they stand, and
statements may be followed by statements.  Only the lines of the second are other ones.  The
canonical text of both is that of the first program and then that of the second.

* `readProgram_append` — what is read from both texts together, place by place;
* `exists_readProgram_append` — the same up to places;
* `Format.formattedIn_append` — what is written for it;
* `Format.exists_formatted_append` — both.
-/
import GnLang.Proofs.Format.Written
import GnLang.Proofs.Grammar.Moved
import GnLang.Proofs.Scan.Extension

namespace GnLang

open Grammar

namespace Grammar

/-- The tokens of two programs, the end of the first apart, are a program, which stands where
the first of its statements does. -/
theorem DerivesProgram.append {d : Nat} {w v : List Token} {e e' : Token} {xs ys : List Node}
    {p q : Pos} (hx : DerivesProgram d (w ++ [e]) (.list xs p))
    (hy : DerivesProgram d (v ++ [e']) (.list ys q)) (he' : e'.kind = .endOfInput) :
    DerivesProgram d (w ++ (v ++ [e'])) (.list (xs ++ ys) (if xs.isEmpty then q else p)) := by
  obtain ⟨xs', hxs, hlist⟩ := hx.exists_statements
  obtain ⟨ys', hys, hlist'⟩ := hy.exists_statements
  cases hlist
  cases hlist'
  have hprogram := DerivesProgram.intro he' (hxs.statements_append hys ends_endOfInput)
  rw [List.append_assoc] at hprogram
  cases w with
  | nil =>
    obtain rfl := hxs.statements_eq_nil.mpr rfl
    exact hprogram
  | cons t w =>
    have hne : xs.isEmpty = false := List.isEmpty_eq_false_iff.mpr fun hnil =>
      nomatch hxs.statements_eq_nil.mp hnil
    rw [hne]
    exact hprogram

end Grammar

/-- After a text and a newline stands the same program as elsewhere, further down. -/
theorem readProgram_newline {a b : String} {limit : Int} {xs ys : List Node} {p q : Pos}
    (hx : readProgram a limit = .ok (.list xs p)) (hy : readProgram b limit = .ok (.list ys q)) :
    readProgram (a ++ "\n" ++ b) limit =
      .ok (.list (xs ++ ys.map (.moved (.below (a.toList.count '\n' + 1))))
        (if xs.isEmpty then q.below (a.toList.count '\n' + 1) else p)) := by
  obtain ⟨hlimit, ts, hts⟩ := exists_of_readProgram hx
  obtain ⟨-, us, hus⟩ := exists_of_readProgram hy
  obtain ⟨w, e, rfl, -⟩ := scanTokens_eq_append hts
  generalize hdown : Pos.below (a.toList.count '\n' + 1) = down
  -- the tokens of the first text are kept, and those of the second are found again below
  have hplace : down .start = (Pos.start.after a.toList).next '\n' := by
    rw [← hdown, Pos.next_after_start]
  obtain ⟨vs, hvs, hmoved⟩ := (scanTokens_eq_ok.mp hus).exists_move
    (R := fun p q => down p = q) (fun c h => by rw [← h, ← hdown, Pos.below_next]) hplace
  have hboth : scanTokens (a ++ "\n" ++ b) = .ok (w ++ vs) :=
    (keepsTokens_of_scanTokens hts b _).mpr ⟨vs, rfl, hvs⟩
  -- the second tokens are a program there, too
  rw [readProgram_eq hlimit hus] at hy
  let s : Setting := ⟨down (settingOf us limit).endPos, limit.toNat⟩
  have hend : down (settingOf us limit).endPos = s.endPos := rfl
  obtain ⟨rest, hthere⟩ := program_moved hend rfl hmoved (Prod.ext hy rfl)
  obtain ⟨v, r, rfl, hv⟩ := hvs.eq_append
  have hbelow := derives_of_program hv rfl hvs.isGenuine hthere
  rw [Node.moved, Node.movedAll_eq_map] at hbelow
  exact (readProgram_eq_ok hlimit hboth).mpr
    (((readProgram_eq_ok hlimit hts).mp hx).append hbelow rfl)

/-- Two programs, one after the other on a new line, are the program of the statements of
both, the places of the second ones apart. -/
theorem exists_readProgram_append {a b : String} {limit : Int} {x y : Node}
    (hx : readProgram a limit = .ok x) (hy : readProgram b limit = .ok y) :
    ∃ xs ys p q r, x = .list xs p ∧ (Node.list ys q).placeless = y.placeless ∧
      readProgram (a ++ "\n" ++ b) limit = .ok (.list (xs ++ ys) r) := by
  obtain ⟨xs, p, rfl, -⟩ := exists_wellFormed hx
  obtain ⟨ys, q, rfl, -⟩ := exists_wellFormed hy
  refine ⟨xs, _, p, q, _, rfl, ?_, readProgram_newline hx hy⟩
  rw [Node.placeless, ← Node.movedAll_eq_map, Node.placelessAll_movedAll, ← Node.placeless]

/-- Two programs, one after the other on a new line, are one program: the statements of the
first, each where it was, and then those of the second, in the same columns, but further down
by the newlines of the first text and one more. -/
theorem readProgram_append {a b : String} {limit : Int} {x y : Node}
    (hx : readProgram a limit = .ok x) (hy : readProgram b limit = .ok y) :
    ∃ xs ys p q, x = .list xs p ∧ y = .list ys q ∧
      readProgram (a ++ "\n" ++ b) limit =
        .ok (.list (xs ++ ys.map (.moved (.below (a.toList.count '\n' + 1))))
          (if xs.isEmpty then q.below (a.toList.count '\n' + 1) else p)) := by
  obtain ⟨xs, p, rfl, -⟩ := exists_wellFormed hx
  obtain ⟨ys, q, rfl, -⟩ := exists_wellFormed hy
  exact ⟨xs, ys, p, q, rfl, rfl, readProgram_newline hx hy⟩

/-- The first text may end inside a comment, and its last word does not go on with the call
that follows. -/
theorem readProgram_append_word :
    (∃ x, readProgram "x = a\n# f" 1 = .ok x) ∧ (∃ y, readProgram "f(1)" 1 = .ok y) ∧
      readProgram "x = a\n# f\nf(1)" 1 = .ok (.list
        [.assignment (.identifier "x" ⟨1, 1⟩) .set (.identifier "a" ⟨1, 5⟩) ⟨1, 1⟩,
          .call "f" (.list [.integer 1 ⟨3, 3⟩] ⟨3, 2⟩) none ⟨3, 1⟩] ⟨1, 1⟩) := by
  have hword : scanTokens "x = a\n# f" = .ok
      [.word "x" ⟨1, 1⟩, .mark .assign ⟨1, 3⟩, .word "a" ⟨1, 5⟩, .endAt ⟨2, 4⟩] :=
    scanTokens_eq_ok.mpr (by decide)
  have hcall : scanTokens "f(1)" = .ok [.word "f" ⟨1, 1⟩, .mark .lparen ⟨1, 2⟩,
      .digits "1" ⟨1, 3⟩, .mark .rparen ⟨1, 4⟩, .endAt ⟨1, 5⟩] :=
    scanTokens_eq_ok.mpr (by decide)
  have hlimit : IsLimit 1 := by decide
  have hx : readProgram "x = a\n# f" 1 = .ok (.list
      [.assignment (.identifier "x" ⟨1, 1⟩) .set (.identifier "a" ⟨1, 5⟩) ⟨1, 1⟩] ⟨1, 1⟩) :=
    (readProgram_eq hlimit hword).trans rfl
  have hy : readProgram "f(1)" 1 = .ok (.list
      [.call "f" (.list [.integer 1 ⟨1, 3⟩] ⟨1, 2⟩) none ⟨1, 1⟩] ⟨1, 1⟩) :=
    (readProgram_eq hlimit hcall).trans rfl
  obtain ⟨xs, ys, p, q, hxs, hys, hboth⟩ := readProgram_append hx hy
  cases hxs
  cases hys
  exact ⟨⟨_, hx⟩, ⟨_, hy⟩, hboth⟩

namespace Format

theorem layoutAll_append {xs ys : List Node} {depth : Int} {texts texts' : List String}
    (h : layoutAll depth xs = .ok texts) (h' : layoutAll depth ys = .ok texts') :
    layoutAll depth (xs ++ ys) = .ok (texts ++ texts') := by
  induction xs generalizing texts with
  | nil =>
    cases h
    exact h'
  | cons x xs ih =>
    obtain ⟨t, ts, rfl, ht, hts⟩ := layoutAll_cons h
    rw [List.cons_append, layoutAll, ht, ih hts]
    rfl

theorem programText_append (texts texts' : List String) :
    programText (texts ++ texts') = programText texts ++ programText texts' := by
  rw [programText, List.map_append, String.join_append]
  rfl

theorem Emitter.heights_append (xs ys : List Node) :
    heights (xs ++ ys) = max (heights xs) (heights ys) := by
  induction xs with
  | nil => exact (Nat.zero_max _).symm
  | cons x xs ih => rw [List.cons_append, heights, heights, ih, Nat.max_assoc]

/-- The text of statements is that of the first and then that of the others, and where there is
room for both there is room for it. -/
theorem formattedIn_append {xs ys : List Node} {p q : Pos} {s t : String} {room : Room}
    (hxs : ∀ x ∈ xs, WellFormed .statement x) (hys : ∀ y ∈ ys, WellFormed .statement y)
    (hs : formattedIn room (.list xs p) = .ok s) (ht : formattedIn room (.list ys q) = .ok t)
    (r : Pos) : formattedIn room (.list (xs ++ ys) r) = .ok (s ++ t) := by
  obtain ⟨texts, htexts, -⟩ := exists_lines hxs
  obtain ⟨texts', htexts', -⟩ := exists_lines hys
  obtain ⟨hs, hroom⟩ := (formattedIn_eq_ok hxs).mp hs
  obtain ⟨ht, hroom'⟩ := (formattedIn_eq_ok hys).mp ht
  rw [formatted_eq hxs htexts] at hs
  rw [formatted_eq hys htexts'] at ht
  cases hs
  cases ht
  have hboth : room.Holds (heightIn "gn" (.list (xs ++ ys) r)) := by
    rw [heightIn, if_pos rfl, Emitter.heights_append]
    exact Room.holds_max.mpr ⟨hroom, hroom'⟩
  rw [formattedIn_eq (List.forall_mem_append.mpr ⟨hxs, hys⟩) (layoutAll_append htexts htexts'),
    if_pos hboth, programText_append]

/-- The empty text is a program, and is its canonical text, for which there is always room. -/
theorem exists_formatted_empty {limit : Int} (hlimit : IsLimit limit) (room : Room) :
    ∃ x, readProgram "" limit = .ok x ∧ formattedIn room x = .ok "" := by
  have hts : scanTokens "" = .ok [.endAt ⟨1, 1⟩] := scanTokens_eq_ok.mpr (.last rfl rfl)
  have hprogram : DerivesProgram limit.toNat [.endAt ⟨1, 1⟩] (.list [] ⟨1, 1⟩) :=
    .intro (e := .endAt ⟨1, 1⟩) rfl .noStatements
  exact ⟨_, (readProgram_eq_ok hlimit hts).mpr hprogram, rfl⟩

/-- What is read from a text has a canonical text, which is written if there is room. -/
theorem exists_formatted {source : String} {limit : Int} {x : Node}
    (h : readProgram source limit = .ok x) :
    ∃ text, ∀ room, formattedIn room x =
      if room.Holds (heightIn "gn" x) then .ok text else .error .stackExhausted := by
  obtain ⟨xs, p, rfl, hxs⟩ := exists_wellFormed h
  obtain ⟨texts, htexts, -⟩ := exists_lines hxs
  exact ⟨_, formattedIn_eq hxs htexts⟩

/-- The canonical text of two programs, one after the other on a new line, is that of the
first and then that of the second. -/
theorem exists_formatted_append {a b : String} {limit : Int} {x y : Node} {s t : String}
    {room : Room} (hx : readProgram a limit = .ok x) (hy : readProgram b limit = .ok y)
    (hs : formattedIn room x = .ok s) (ht : formattedIn room y = .ok t) :
    ∃ z, readProgram (a ++ "\n" ++ b) limit = .ok z ∧ formattedIn room z = .ok (s ++ t) := by
  obtain ⟨xs, ys, p, q, r, rfl, hplaceless, hz⟩ := exists_readProgram_append hx hy
  obtain ⟨zs, _, hlist, hzs⟩ := exists_wellFormed hz
  cases hlist
  obtain ⟨hxs, hys⟩ := List.forall_mem_append.mp hzs
  obtain ⟨ys', q', rfl, hys'⟩ := exists_wellFormed hy
  rw [← formattedIn_eq_of_placeless rfl rfl hys hys' hplaceless] at ht
  exact ⟨_, hz, formattedIn_append hxs hys hs ht r⟩

end Format

end GnLang
