/-
Texts that break off inside a token, and what may follow them on a new line.

Scanning comes before parsing, so a text that breaks off inside a string or an operator is
said to stop too early whatever stands before.  Whether more text helps is another matter.
A string goes on to the next quote, and what it holds does not matter: some text helps
exactly if a quote on the next line does not leave something else wrong
(`exists_more_iff_of_string`).  Half an operator is not completed by what stands on the next
line, so that nothing helps (`readProgram_ne_ok_of_operator`).
-/
import GnLang.Proofs.Grammar.Strings
import GnLang.Proofs.Scan.Broken
import GnLang.Proofs.Unfinished

namespace GnLang

open Grammar

variable {source : String} {limit : Int} {p : Pos}

/-- If one of two texts of kindred tokens is a program, so is the other. -/
theorem exists_readProgram_of_kindred {source' : String} {ts us : List Token} {x : Node}
    (hlimit : IsLimit limit) (hts : scanTokens source = .ok ts)
    (hus : scanTokens source' = .ok us) (h : List.Forall₂ Token.Kindred ts us)
    (hx : readProgram source limit = .ok x) : ∃ y, readProgram source' limit = .ok y := by
  rw [readProgram_eq hlimit hts] at hx
  have hlimits : (settingOf ts limit).limit = (settingOf us limit).limit := rfl
  obtain ⟨y, _, hy⟩ := exists_program_of_kindred hlimits h (Prod.ext hx rfl)
  refine ⟨y, ?_⟩
  rw [readProgram_eq hlimit hus, hy]

/-- Whatever closes a string that is cut off, a quote on the next line closes it, too, and
the same can follow. -/
theorem exists_readProgram_of_string (h : scanTokens source = .error (.unclosedString p))
    {more : String} {x : Node} (hx : readProgram (source ++ "\n" ++ more) limit = .ok x) :
    ∃ rest y, readProgram (source ++ "\n" ++ "\"" ++ "\n" ++ rest) limit = .ok y := by
  obtain ⟨hlimit, us, hus⟩ := exists_of_readProgram hx
  obtain ⟨w, cs, htokens⟩ := scanTokens_newline_of_string h
  obtain ⟨inside, rest, t, v, -, -, ht, rfl, hv⟩ := (htokens more us).mp hus
  let u : Token := .quoted (String.ofList (cs ++ ['\n'])) p
  -- what follows the string has the same tokens after a quote on the next line
  obtain ⟨v', hv', hmoved⟩ := hv.exists_move (R := fun _ _ => True) (fun _ h => h)
    (q := (u.pos.after u.chars).next '\n') trivial
  have hnewline : Scan.Yields ⟨u.pos.after u.chars, '\n' :: rest⟩ v' :=
    hv'.of_token_eq (Scan.token_gap (.blank rfl .nil) _)
  have hus' : scanTokens (source ++ "\n" ++ "\"" ++ "\n" ++ String.ofList rest) =
      .ok (w ++ u :: v') := by
    have hmore : ("\"" ++ "\n" ++ String.ofList rest).toList = '"' :: '\n' :: rest := by simp
    have htext : source ++ "\n" ++ "\"" ++ "\n" ++ String.ofList rest =
        source ++ "\n" ++ ("\"" ++ "\n" ++ String.ofList rest) := by
      simp only [String.append_assoc]
    rw [htext, htokens]
    exact ⟨[], _, u, v', hmore, by simp, rfl, rfl, hnewline⟩
  have hkindred : List.Forall₂ Token.Kindred (w ++ t :: v) (w ++ u :: v') := by
    refine List.rel_append (List.forall₂_same.mpr fun t _ => (Token.SameLexeme.refl t).kindred)
      (.cons ?_ (hmoved.imp fun _ _ h => h.1.kindred))
    rw [ht]
    exact Token.kindred_quoted ..
  obtain ⟨y, hy⟩ := exists_readProgram_of_kindred hlimit hus hus' hkindred hx
  exact ⟨_, y, hy⟩

/-- Some text after a string that is cut off makes a program exactly if, once the string is
closed on the next line, there is a program or one that stopped too early. -/
theorem exists_more_iff_of_string (hlimit : IsLimit limit)
    (h : scanTokens source = .error (.unclosedString p)) :
    (∃ more x, readProgram (source ++ "\n" ++ more) limit = .ok x) ↔
      (∃ x, readProgram (source ++ "\n" ++ "\"") limit = .ok x) ∨
        ∃ f, readProgram (source ++ "\n" ++ "\"") limit = .error f ∧ f.IsIncomplete := by
  obtain ⟨w, cs, htokens⟩ := scanTokens_newline_of_string h
  have hclosed := (htokens "\"" _).mpr ⟨[], [], _, _, rfl, by simp, rfl, rfl, .last rfl rfl⟩
  rw [← exists_more_iff hlimit hclosed]
  constructor
  · rintro ⟨more, x, hx⟩
    exact exists_readProgram_of_string h hx
  · rintro ⟨more, x, hx⟩
    rw [String.append_assoc, String.append_assoc] at hx
    exact ⟨_, x, hx⟩

/-- No text after half an operator makes a program. -/
theorem readProgram_ne_ok_of_operator (h : scanTokens source = .error (.halfOperator p))
    (more : String) (x : Node) : readProgram (source ++ "\n" ++ more) limit ≠ .ok x := by
  intro hx
  obtain ⟨hlimit, us, hus⟩ := exists_of_readProgram hx
  obtain ⟨c, hstray⟩ := mem_stray_of_operator h
  exact ((readProgram_eq_ok hlimit hus).mp hx).ne_stray _ (hstray more us hus) rfl

end GnLang
