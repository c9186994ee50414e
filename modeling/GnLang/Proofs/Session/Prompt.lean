/-
When a session asks for more, and whether more can help.

A session that asks for more lines has kept lines that are an incomplete program.  If these
lines have tokens, some further lines complete them.  If they break off inside a string,
further lines complete them exactly if nothing but the string is in the way: if they are a
program, or an incomplete one, once the string is closed on the next line
(`Session.canComplete_of_asks`).
-/
import GnLang.Proofs.CutOff
import GnLang.Proofs.Session.Turns

namespace GnLang.Session

variable {config : Config} {limit : Int} {s : Session} {lines : List String}

/-! ### Lines -/

theorem joined_append {more : List String} (hlines : lines ≠ []) (hmore : more ≠ []) :
    joined (lines ++ more) = joined lines ++ "\n" ++ joined more :=
  String.intercalate_append_of_ne_nil hlines hmore

/-- Every text is some lines, joined. -/
theorem exists_lines (cs : List Char) :
    ∃ lines, lines ≠ [] ∧ (∀ line ∈ lines, '\n' ∉ line.toList) ∧
      joined lines = String.ofList cs := by
  induction cs with
  | nil => exact ⟨[""], by simp, by simp, rfl⟩
  | cons c cs ih =>
    obtain ⟨lines, hne, hlines, hjoined⟩ := ih
    by_cases hc : c = '\n'
    · refine ⟨"" :: lines, by simp, List.forall_mem_cons.mpr ⟨by simp, hlines⟩, ?_⟩
      rw [joined, String.intercalate_cons_of_ne_nil hne, hc, String.ofList_cons, ← hjoined]
      rfl
    · -- the character goes on with the first line
      obtain ⟨line, rest, rfl⟩ := List.exists_cons_of_ne_nil hne
      obtain ⟨hline, hrest⟩ := List.forall_mem_cons.mp hlines
      refine ⟨(String.singleton c ++ line) :: rest, by simp, ?_, ?_⟩
      · refine List.forall_mem_cons.mpr ⟨?_, hrest⟩
        simp [hline, Ne.symm hc]
      · rw [joined, String.intercalate_cons_append, String.ofList_cons, ← hjoined]
        rfl

/-! ### Completing what is kept -/

/-- Some further lines make a program of the lines. -/
def CanComplete (limit : Int) (lines : List String) : Prop :=
  ∃ more, (∀ line ∈ more, '\n' ∉ line.toList) ∧
    ∃ x, readProgram (joined (lines ++ more)) limit = .ok x

theorem canComplete_iff (hlines : lines ≠ [])
    (hnot : ∀ x, readProgram (joined lines) limit ≠ .ok x) :
    CanComplete limit lines ↔
      ∃ more x, readProgram (joined lines ++ "\n" ++ more) limit = .ok x := by
  constructor
  · rintro ⟨more, -, x, hx⟩
    cases more with
    | nil =>
      rw [List.append_nil] at hx
      exact absurd hx (hnot x)
    | cons line more =>
      rw [joined_append hlines (List.cons_ne_nil line more)] at hx
      exact ⟨_, x, hx⟩
  · rintro ⟨more, x, hx⟩
    obtain ⟨rest, hne, hrest, hjoined⟩ := exists_lines more.toList
    refine ⟨rest, hrest, x, ?_⟩
    rwa [joined_append hlines hne, hjoined, String.ofList_toList]

/-- Lines that break off inside a string can be completed exactly if they can once the
string is closed on the next line. -/
theorem canComplete_iff_of_string (hlimit : IsLimit limit) (hlines : lines ≠ []) {p : Pos}
    (h : scanTokens (joined lines) = .error (.unclosedString p)) :
    CanComplete limit lines ↔
      (∃ x, readProgram (joined (lines ++ ["\""])) limit = .ok x) ∨
        ∃ f, readProgram (joined (lines ++ ["\""])) limit = .error f ∧ f.IsIncomplete := by
  rw [canComplete_iff hlines (by simp [readProgram_of_scanTokens_eq_error h]),
    exists_more_iff_of_string hlimit h, joined_append hlines (List.cons_ne_nil _ _)]
  rfl

/-- Lines that break off inside an operator cannot be completed. -/
theorem not_canComplete_of_operator (hlines : lines ≠ []) {p : Pos}
    (h : scanTokens (joined lines) = .error (.halfOperator p)) : ¬ CanComplete limit lines := by
  rw [canComplete_iff hlines (by simp [readProgram_of_scanTokens_eq_error h])]
  rintro ⟨more, x, hx⟩
  exact readProgram_ne_ok_of_operator h more x hx

/-! ### At a prompt for more lines -/

theorem exists_of_prompt (h : s.Stands limit) (hprompt : s.prompt = "... ")
    (hheld : s.held = none) : s.lines ≠ [] ∧
      ∃ f, readProgram (joined s.lines) limit = .error f ∧ f.IsIncomplete := by
  cases h with
  | fresh => exact absurd hprompt (by decide)
  | holds _ _ => cases hheld
  | waits hf hincomplete => exact ⟨by simp, _, hf, hincomplete⟩

/-- Wherever a session asks for more lines to complete what is kept, and whatever was typed
before: what is kept is an incomplete program.  If it has tokens, some further lines make it
a program; if it breaks off inside a string, some do exactly if a quote on the next line
leaves a program, or again an incomplete one. -/
theorem canComplete_of_asks {events : List Event} (hconfig : config.limit = some limit)
    (hlimit : IsLimit limit) (hrun : Leads config fresh events s)
    (hprompt : s.prompt = "... ") (hheld : s.held = none) :
    (∃ f, readProgram (joined s.lines) limit = .error f ∧ f.IsIncomplete) ∧
      (∀ ts, scanTokens (joined s.lines) = .ok ts → CanComplete limit s.lines) ∧
      ∀ p, scanTokens (joined s.lines) = .error (.unclosedString p) →
        (CanComplete limit s.lines ↔
          (∃ x, readProgram (joined (s.lines ++ ["\""])) limit = .ok x) ∨
            ∃ f, readProgram (joined (s.lines ++ ["\""])) limit = .error f ∧
              f.IsIncomplete) := by
  have hstands := stands_of_leads hconfig hrun .fresh
  obtain ⟨hlines, f, hf, hincomplete⟩ := exists_of_prompt hstands hprompt hheld
  refine ⟨⟨f, hf, hincomplete⟩, fun ts hts => ?_, fun p hp => ?_⟩
  · rw [canComplete_iff hlines (by simp [hf]), exists_more_iff hlimit hts]
    exact .inr ⟨f, hf, hincomplete⟩
  · exact canComplete_iff_of_string hlimit hlines hp

/-- An open call can be completed, and so can an open string in one. -/
theorem canComplete_call_string : CanComplete 1 ["f("] ∧ CanComplete 1 ["f(\"a"] := by
  have hlimit : IsLimit 1 := by decide
  let config : Config := ⟨some "gn", false, some 1, .usual⟩
  constructor
  · have hts : scanTokens (joined ["f("]) =
        .ok [.word "f" ⟨1, 1⟩, .mark .lparen ⟨1, 2⟩, .endAt ⟨1, 3⟩] := by decide +kernel
    have hread := (readProgram_eq hlimit hts).trans rfl
    have hrun : Leads config fresh [.line "f("] ⟨["f("], none⟩ :=
      .step (next_step_of_isIncomplete rfl rfl (by decide +kernel) hread ⟨_, _, rfl⟩) .here
    exact (canComplete_of_asks rfl hlimit hrun rfl rfl).2.1 _ hts
  · have hcut : scanTokens (joined ["f(\"a"]) = .error (.unclosedString ⟨1, 3⟩) := by
      decide +kernel
    have hread := readProgram_of_scanTokens_eq_error hcut 1
    have hrun : Leads config fresh [.line "f(\"a"] ⟨["f(\"a"], none⟩ :=
      .step (next_step_of_isIncomplete rfl rfl (by decide +kernel) hread ⟨_, _, rfl⟩) .here
    have hts : scanTokens (joined (["f(\"a"] ++ ["\""])) =
        .ok [.word "f" ⟨1, 1⟩, .mark .lparen ⟨1, 2⟩, .quoted "a\n" ⟨1, 3⟩, .endAt ⟨2, 2⟩] := by
      decide +kernel
    have hclosed := (readProgram_eq hlimit hts).trans rfl
    exact ((canComplete_of_asks rfl hlimit hrun rfl rfl).2.2 _ hcut).mpr
      (.inr ⟨_, hclosed, _, _, rfl⟩)

/-- A session asks for more although nothing completes what is kept: after a string that is
open where no program can go on, and after half an operator. -/
theorem asks_without_completion :
    (Leads ⟨some "gn", false, some 100, .usual⟩ fresh [.line "] \""] ⟨["] \""], none⟩ ∧
      prompt ⟨["] \""], none⟩ = "... " ∧
      readProgram (joined ["] \""]) 100 = .error (.parse (.unclosedString ⟨1, 3⟩)) ∧
      ¬ CanComplete 100 ["] \""]) ∧
    (Leads ⟨some "gn", false, some 100, .usual⟩ fresh [.line "x = 1 &"] ⟨["x = 1 &"], none⟩ ∧
      prompt ⟨["x = 1 &"], none⟩ = "... " ∧
      readProgram (joined ["x = 1 &"]) 100 = .error (.parse (.halfOperator ⟨1, 7⟩)) ∧
      ¬ CanComplete 100 ["x = 1 &"]) := by
  have hlimit : IsLimit 100 := by decide
  constructor
  · have hcut : scanTokens (joined ["] \""]) = .error (.unclosedString ⟨1, 3⟩) := by
      decide +kernel
    have hread := readProgram_of_scanTokens_eq_error hcut 100
    refine ⟨.step (next_step_of_isIncomplete rfl rfl (by decide +kernel) hread ⟨_, _, rfl⟩) .here,
      rfl, hread, ?_⟩
    have hts : scanTokens (joined (["] \""] ++ ["\""])) =
        .ok [.mark .rbrack ⟨1, 1⟩, .quoted "\n" ⟨1, 3⟩, .endAt ⟨2, 2⟩] := by decide +kernel
    have hclosed : readProgram (joined (["] \""] ++ ["\""])) 100 =
        .error (.parse (.leftOver (.mark .rbrack ⟨1, 1⟩))) := (readProgram_eq hlimit hts).trans rfl
    rw [canComplete_iff_of_string hlimit (List.cons_ne_nil _ _) hcut, hclosed]
    simp [Failure.IsIncomplete, ParseError.leftOver]
  · have hcut : scanTokens (joined ["x = 1 &"]) = .error (.halfOperator ⟨1, 7⟩) := by
      decide +kernel
    have hread := readProgram_of_scanTokens_eq_error hcut 100
    exact ⟨.step (next_step_of_isIncomplete rfl rfl (by decide +kernel) hread ⟨_, _, rfl⟩) .here,
      rfl, hread, not_canComplete_of_operator (List.cons_ne_nil _ _) hcut⟩

end GnLang.Session
