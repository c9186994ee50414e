/-
Texts that stop too early.

A text that has tokens but holds no program is unfinished if some text, put after it on a
new line, makes it a program.  `readProgram` says of exactly these texts that they stopped
too early (`readProgram_unfinished`); of all others it names something that no text put
after them can mend.  So whoever types a program line by line is asked for another line
only if there is one to ask for, within the same limit of nestings.
-/
import GnLang.Proofs.Grammar.Decisions
import GnLang.Proofs.Grammar.Places
import GnLang.Proofs.Read
import GnLang.Proofs.Scan.Extension

namespace GnLang

open Grammar

variable {source : String} {limit : Int}

theorem isIncomplete_unexpected {e : Token} (he : e.kind = .endOfInput) (expected : String) :
    (Failure.parse (.unexpected expected e)).IsIncomplete := by
  rw [ParseError.unexpected, if_pos he]
  exact ⟨_, _, rfl⟩

/-- If the tokens that a text keeps are refused, no text after it makes it a program. -/
theorem readProgram_ne_ok_of_refuses {s : Setting} {w : List Token} {q : Pos}
    (hkeeps : KeepsTokens source w q) (h : Refuses (items s limit.toNat) w) (more : String)
    (x : Node) : readProgram (source ++ "\n" ++ more) limit ≠ .ok x := by
  intro hx
  obtain ⟨hlimit, us, hus⟩ := exists_of_readProgram hx
  obtain ⟨v, rfl, -⟩ := (hkeeps more us).mp hus
  -- the longer text is read under its own setting, the refusal is known under this one
  obtain ⟨rest, hok⟩ := ((readProgram_eq_ok hlimit hus).mp hx).reads s
  obtain ⟨f, _, hr, -⟩ := program_of_refuses h v
  cases hr.symm.trans hok

/-- If the tokens that a text keeps wait for more, some text after it makes it a program. -/
theorem exists_readProgram_of_waits {s : Setting} {w : List Token} {q : Pos}
    (hlimit : IsLimit limit) (hs : s.limit = limit.toNat) (hkeeps : KeepsTokens source w q)
    (h : Waits s (fun _ => True) (· = .endOfInput) (items s limit.toNat) w) :
    ∃ more x, readProgram (source ++ "\n" ++ more) limit = .ok x := by
  obtain ⟨c, hc, hprogram⟩ := exists_program_of_waits h
  -- the missing tokens have a text, though it puts them at places of its own
  obtain ⟨cs, v, hv, hsame⟩ := Scan.exists_spells hc q
  have hyields := hv [] [.endAt (q.after cs)] trivial (.last rfl rfl)
  rw [List.append_nil] at hyields
  have hus := (hkeeps (String.ofList cs) _).mpr ⟨_, rfl, by rwa [String.toList_ofList]⟩
  have hsames : List.Forall₂ Token.SameLexeme (w ++ (c ++ [.endAt (q.after cs)]))
      (w ++ (v ++ [.endAt (q.after cs)])) :=
    List.rel_append (List.forall₂_same.mpr fun t _ => .refl t)
      (List.rel_append hsame (.cons (.refl _) .nil))
  have hlimits : s.limit = (settingOf (w ++ (v ++ [.endAt (q.after cs)])) limit).limit := hs
  obtain ⟨x, hx⟩ := hprogram (.endAt (q.after cs)) rfl
  obtain ⟨y, _, hy, -⟩ := exists_program_of_sameLexemes hlimits hsames hx
  refine ⟨String.ofList cs, y, ?_⟩
  rw [readProgram_eq hlimit hus, hy]

/-- A text whose tokens are refused is no program, whatever comes after it. -/
theorem readProgram_of_refuses {w : List Token} {e : Token} {q : Pos}
    (hlimit : IsLimit limit) (hts : scanTokens source = .ok (w ++ [e]))
    (hkeeps : KeepsTokens source w q)
    (h : Refuses (items (settingOf (w ++ [e]) limit) limit.toNat) w) :
    (∃ f, readProgram source limit = .error f ∧ ¬ f.IsIncomplete) ∧
      ∀ more x, readProgram (source ++ "\n" ++ more) limit ≠ .ok x := by
  refine ⟨?_, readProgram_ne_ok_of_refuses hkeeps h⟩
  obtain ⟨f, rest, hr, hf⟩ := program_of_refuses h [e]
  rw [readProgram_eq hlimit hts, hr]
  exact ⟨f, rfl, hf.not_isIncomplete⟩

/-- A text whose tokens wait for more is a program or stopped too early, and some text after
it makes it a program. -/
theorem readProgram_of_waits {w : List Token} {e : Token} {q : Pos} (hlimit : IsLimit limit)
    (hts : scanTokens source = .ok (w ++ [e])) (he : e.kind = .endOfInput)
    (hkeeps : KeepsTokens source w q)
    (h : Waits (settingOf (w ++ [e]) limit) (fun _ => True) (· = .endOfInput)
      (items (settingOf (w ++ [e]) limit) limit.toNat) w) :
    ((∃ x, readProgram source limit = .ok x) ∨
        ∃ f, readProgram source limit = .error f ∧ f.IsIncomplete) ∧
      ∃ more x, readProgram (source ++ "\n" ++ more) limit = .ok x := by
  refine ⟨?_, exists_readProgram_of_waits hlimit rfl hkeeps h⟩
  rw [readProgram_eq hlimit hts]
  rcases program_end_of_waits h he with ⟨x, hr⟩ | ⟨expected, hr⟩
  · rw [hr]
    exact .inl ⟨x, rfl⟩
  · rw [hr]
    exact .inr ⟨_, rfl, isIncomplete_unexpected he expected⟩

/-- Some text after a text that has tokens makes it a program exactly if it is one or stopped
too early. -/
theorem exists_more_iff {ts : List Token} (hlimit : IsLimit limit)
    (hts : scanTokens source = .ok ts) :
    (∃ more x, readProgram (source ++ "\n" ++ more) limit = .ok x) ↔
      (∃ x, readProgram source limit = .ok x) ∨
        ∃ f, readProgram source limit = .error f ∧ f.IsIncomplete := by
  obtain ⟨w, e, q, rfl, he, hkeeps⟩ := exists_keepsTokens hts
  rcases items_refuses_or_waits (s := settingOf (w ++ [e]) limit) limit.toNat
    (proper_of_scanTokens hts) with hrefuses | hwaits
  · obtain ⟨⟨f, hf, hcomplete⟩, hnever⟩ := readProgram_of_refuses hlimit hts hkeeps hrefuses
    rw [hf]
    refine iff_of_false ?_ ?_
    · rintro ⟨more, x, hx⟩
      exact hnever more x hx
    · rintro (⟨x, hx⟩ | ⟨g, hg, hincomplete⟩)
      · cases hx
      · cases hg
        exact hcomplete hincomplete
  · obtain ⟨hnow, hlater⟩ := readProgram_of_waits hlimit hts he hkeeps hwaits
    exact iff_of_true hlater hnow

/-- A text that has tokens is said to stop too early exactly if it holds no program but
does once some text follows it on a new line; when anything else is said to be wrong with
it, no text that follows it helps. -/
theorem readProgram_unfinished {ts : List Token} (hlimit : IsLimit limit)
    (hts : scanTokens source = .ok ts) :
    ((∃ f, readProgram source limit = .error f ∧ f.IsIncomplete) ↔
      (∀ x, readProgram source limit ≠ .ok x) ∧
        ∃ more x, readProgram (source ++ "\n" ++ more) limit = .ok x) ∧
    ∀ f, readProgram source limit = .error f → ¬ f.IsIncomplete →
      ∀ more x, readProgram (source ++ "\n" ++ more) limit ≠ .ok x := by
  obtain ⟨w, e, q, rfl, he, hkeeps⟩ := exists_keepsTokens hts
  rcases items_refuses_or_waits (s := settingOf (w ++ [e]) limit) limit.toNat
    (proper_of_scanTokens hts) with hrefuses | hwaits
  · obtain ⟨⟨f, hf, hcomplete⟩, hnever⟩ := readProgram_of_refuses hlimit hts hkeeps hrefuses
    refine ⟨⟨?_, ?_⟩, fun _ _ _ => hnever⟩
    · rintro ⟨g, hg, hincomplete⟩
      cases hf.symm.trans hg
      exact absurd hincomplete hcomplete
    · rintro ⟨-, more, x, hx⟩
      exact absurd hx (hnever more x)
  · obtain ⟨hnow, hlater⟩ := readProgram_of_waits hlimit hts he hkeeps hwaits
    rcases hnow with ⟨x, hx⟩ | ⟨f, hf, hincomplete⟩
    · rw [hx]
      refine ⟨⟨?_, ?_⟩, ?_⟩
      · rintro ⟨f, hf, -⟩
        cases hf
      · rintro ⟨hnot, -⟩
        exact absurd rfl (hnot x)
      · intro f hf
        cases hf
    · rw [hf]
      refine ⟨⟨?_, ?_⟩, ?_⟩
      · rintro -
        exact ⟨by simp, hlater⟩
      · rintro -
        exact ⟨f, rfl, hincomplete⟩
      · intro g hg hcomplete
        cases hg
        exact absurd hincomplete hcomplete

/-- A comment at the end hides nothing: the call can be closed on the next line, within the
one nesting that it has opened. -/
theorem readProgram_unfinished_call :
    IsLimit 1 ∧ (∃ ts, scanTokens "f(x # half" = .ok ts) ∧
      (∀ x, readProgram "f(x # half" 1 ≠ .ok x) ∧
      ∃ more x, readProgram ("f(x # half" ++ "\n" ++ more) 1 = .ok x := by
  have hlimit : IsLimit 1 := by decide
  have hts : scanTokens "f(x # half" = .ok
      [.word "f" ⟨1, 1⟩, .mark .lparen ⟨1, 2⟩, .word "x" ⟨1, 3⟩, .endAt ⟨1, 11⟩] := by
    rw [scanTokens_eq_ok]
    repeat' first
      | exact .last rfl rfl
      | refine .more rfl (by decide) ?_
  have hread : readProgram "f(x # half" 1 = .error (.parse
      ⟨.incomplete "Expected ')' to close call arguments, got end of input", ⟨1, 11⟩⟩) :=
    (readProgram_eq hlimit hts).trans rfl
  exact ⟨hlimit, ⟨_, hts⟩, (readProgram_unfinished hlimit hts).1.mp ⟨_, hread, _, _, rfl⟩⟩

end GnLang
