/-
The targets of a program stand where its text calls their name.

Nothing is lost between a text and the targets taken from it: the calls that a visit of the
program finds are those of the tokens that call the name, in their order, however deeply
they are nested (`collect_called`).
-/
import GnLang.Proofs.Grammar.Called
import GnLang.Proofs.Tree.Parsed
import GnLang.Proofs.Tree.Targets

namespace GnLang

open Grammar

variable {source : String} {limit : Int} {x : Node}

/-- A program that is read is a tree of nodes, and its calls are proper. -/
theorem properCalls_of_readProgram (h : readProgram source limit = .ok x) :
    x.foreign? = none ∧ ProperCalls x.preorder := by
  obtain ⟨xs, p, rfl, hxs⟩ := exists_wellFormed h
  exact ⟨foreignIn?_eq_none fun x hx => (hxs x hx).foreign?_eq_none,
    properCalls_of_statements hxs⟩

/-- The calls of a name in a program that is read stand, one for one and in their order,
where its tokens call the name.  The targets that they declare are one for each of them, in
the same order, unless one of them declares none, which is then a fault of the program. -/
theorem collect_called (h : readProgram source limit = .ok x) (name : String) :
    ∃ ts calls, scanTokens source = .ok ts ∧ Target.eachCall x name .ok = .ok calls ∧
      calls.map (·.pos) = callPlaces name ts ∧
      ((∃ f, Target.collect x name = .error f ∧ f.isOfProgram = true) ∨
        ∃ targets, Target.collect x name = .ok targets ∧
          List.Forall₂ (fun c t => Target.ofCall? c = .ok t) calls targets) := by
  obtain ⟨hnodes, hproper⟩ := properCalls_of_readProgram h
  obtain ⟨hlimit, ts, hts⟩ := exists_of_readProgram h
  refine ⟨ts, Target.callsOf name x.preorder, hts, ?_, ?_, ?_⟩
  · rw [Target.eachCall_eq hnodes, mapM_eq_ok]
    exact List.forall₂_same.mpr fun _ _ => rfl
  · exact ((readProgram_eq_ok hlimit hts).mp h).finds name
  · cases hcollect : Target.collect x name with
    | error f => exact .inl ⟨f, rfl, Target.isOfProgram_of_collect hnodes hproper hcollect⟩
    | ok targets =>
      rw [Target.collect, Target.eachCall_eq hnodes] at hcollect
      exact .inr ⟨targets, rfl, mapM_eq_ok.mp hcollect⟩

/-- The word after a dot is not called, though an item in parentheses follows it. -/
theorem collect_called_scope :
    ∃ x calls, readProgram "x = [y.f (z), f()]" 2 = .ok x ∧
      Target.eachCall x "f" .ok = .ok calls ∧ calls.map (·.pos) = [⟨1, 15⟩] := by
  have hlimit : IsLimit 2 := by decide
  have hts : scanTokens "x = [y.f (z), f()]" = .ok
      ([.word "x" ⟨1, 1⟩, .mark .assign ⟨1, 3⟩, .mark .lbrack ⟨1, 5⟩, .word "y" ⟨1, 6⟩,
        .mark .dot ⟨1, 7⟩, .word "f" ⟨1, 8⟩, .mark .lparen ⟨1, 10⟩, .word "z" ⟨1, 11⟩,
        .mark .rparen ⟨1, 12⟩, .mark .comma ⟨1, 13⟩, .word "f" ⟨1, 15⟩, .mark .lparen ⟨1, 16⟩,
        .mark .rparen ⟨1, 17⟩, .mark .rbrack ⟨1, 18⟩] ++ [.endAt ⟨1, 19⟩]) := by
    rw [scanTokens_eq_ok]
    repeat' first
      | exact .last rfl rfl
      | refine .more rfl (by decide) ?_
  have hscope : Derives 1 (.expression (.scopeAccess "y" "f" ⟨1, 6⟩))
      [.word "y" ⟨1, 6⟩, .mark .dot ⟨1, 7⟩, .word "f" ⟨1, 8⟩] (.symbol .lparen) :=
    .expression (.ofPrimary (.ofTarget .scopeAccess)) (.noOperator rfl)
  have hz : Derives 0 (.expression (.identifier "z" ⟨1, 11⟩)) [.word "z" ⟨1, 11⟩]
      (.symbol .rparen) :=
    .expression (.ofPrimary (.ofTarget (.identifier (by decide) (by decide) (by decide))))
      (.noOperator rfl)
  have hparenthesized := Derives.expression
    (.ofPrimary (.parenthesized (p := ⟨1, 10⟩) (q := ⟨1, 12⟩) (k := .symbol .comma) hz))
    (.noOperator rfl)
  have hcall : Derives 1 (.expression (.call "f" (.list [] ⟨1, 16⟩) none ⟨1, 15⟩))
      [.word "f" ⟨1, 15⟩, .mark .lparen ⟨1, 16⟩, .mark .rparen ⟨1, 17⟩] (.symbol .rbrack) :=
    .expression (.ofPrimary (.ofCall (.plainCall .noArguments (by decide)))) (.noOperator rfl)
  have hlist := Derives.list (p := ⟨1, 5⟩) (q := ⟨1, 18⟩) (k := .endOfInput)
    (.element hscope (.elementComma (p := ⟨1, 13⟩) hparenthesized (.element hcall .noElements)))
  have htarget : Derives 2 (.target (.identifier "x" ⟨1, 1⟩)) [.word "x" ⟨1, 1⟩]
      (.symbol AssignOp.set.symbol) := .identifier (by decide) (by decide) (by decide)
  have hprogram := DerivesProgram.intro (e := .endAt ⟨1, 19⟩) rfl
    (.statement (.assignment (p := ⟨1, 3⟩) htarget
      (.expression (.ofPrimary hlist) (.noOperator rfl))) .noStatements)
  have hread := (readProgram_eq_ok hlimit hts).mpr hprogram
  obtain ⟨ts, calls, hts', hcalls, hplaces, -⟩ := collect_called hread "f"
  cases hts.symm.trans hts'
  exact ⟨_, calls, hread, hcalls, hplaces.trans (by decide)⟩

end GnLang
