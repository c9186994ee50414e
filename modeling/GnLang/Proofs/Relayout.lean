/-
Texts laid out anew.

The tokens of a text can be written again with any blanks and comments between them, as
long as something stands after each token: `Relaid w cs`.  Then they are the same tokens,
since each is the longest lexeme before a gap, whatever stood after it in the first text
(`exists_spells_relaid`).  What is read from the two texts differs at most in its places,
be it a tree or a failure: `readProgram_relaid`.
-/
import GnLang.Proofs.Grammar.Places
import GnLang.Proofs.Read
import GnLang.Proofs.Scan.Spells
import GnLang.Proofs.Tree.Parsed

namespace GnLang

open Grammar Scan Token

/-! ### Layouts -/

/-- Blanks, and comments each of which ends with its line. -/
inductive IsSpacing : List Char → Prop where
  | nil : IsSpacing []
  | blank {c : Char} {g : List Char} : isBlank c = true → IsSpacing g → IsSpacing (c :: g)
  | comment {body g : List Char} :
      '\n' ∉ body → IsSpacing g → IsSpacing ('#' :: (body ++ '\n' :: g))

/-- The characters of the tokens, some spacing after each of them. -/
inductive Relaid : List Token → List Char → Prop where
  | nil : Relaid [] []
  | cons {t : Token} {w : List Token} {g cs : List Char} :
      IsSpacing g → g ≠ [] → Relaid w cs → Relaid (t :: w) (t.chars ++ g ++ cs)

theorem IsSpacing.isGap {g : List Char} (h : IsSpacing g) (rest : List Char) : IsGap rest g := by
  induction h with
  | nil => exact .nil
  | blank hc _ ih => exact .blank hc ih
  | @comment body g hbody _ ih => exact .comment hbody (by simp) (.blank rfl ih)

/-- Every token stays the longest lexeme when spacing follows it. -/
theorem IsSpacing.isLongest {g rest rest' : List Char} {t : Token} (h : IsSpacing g)
    (hne : g ≠ []) (ht : t.IsLongest rest) : t.IsLongest (g ++ rest') := by
  refine ht.of_next (fun c hc => .inr ?_) (by simp [hne])
  cases h with
  | nil => exact absurd rfl hne
  | blank hblank _ => exact .inl (Option.some.inj hc ▸ hblank)
  | comment _ _ => exact .inr (Option.some.inj hc).symm

/-- Tokens laid out anew are spelled by the new text, at other places. -/
theorem exists_spells_relaid {w : List Token} {cs : List Char} (h : Relaid w cs)
    (hw : ∀ t ∈ w, ∃ rest, t.IsLongest rest) :
    ∀ p, ∃ v, Spells (fun _ => True) p cs v ∧ List.Forall₂ SameLexeme w v := by
  induction h with
  | nil => exact fun p => ⟨[], spells_nil, .nil⟩
  | @cons t w g cs hg hne _ ih =>
    intro p
    obtain ⟨⟨rest, ht⟩, hw⟩ := List.forall_mem_cons.mp hw
    let u : Token := ⟨t.kind, t.text, p⟩
    have hsame : t.SameLexeme u := ⟨rfl, rfl⟩
    have hu : Spells (fun rest => ∃ rest', rest = g ++ rest') p t.chars [u] := by
      refine spells_token (t := u) ?_
      rintro _ ⟨rest', rfl⟩
      exact (hg.isLongest hne ht).move hsame
    have hspacing : Spells (fun _ => True) (p.after t.chars) g [] :=
      spells_gap fun rest _ => hg.isGap rest
    have hfirst := hu.append hspacing fun rest _ => ⟨rest, rfl⟩
    obtain ⟨v, hv, hsames⟩ := ih hw (p.after (t.chars ++ g))
    exact ⟨u :: v, hfirst.append hv fun _ _ => trivial, .cons hsame hsames⟩

/-- A text laid out anew has the same tokens, at other places. -/
theorem exists_scanTokens_relaid {source : String} {w : List Token} {e : Token}
    {g cs : List Char} (hts : scanTokens source = .ok (w ++ [e])) (hg : IsSpacing g)
    (hcs : Relaid w cs) :
    ∃ us, scanTokens (String.ofList (g ++ cs)) = .ok us ∧
      List.Forall₂ SameLexeme (w ++ [e]) us := by
  obtain ⟨w', p, heq, hnotEnd⟩ := scanTokens_eq_append hts
  obtain ⟨rfl, he⟩ := List.append_inj' heq rfl
  cases he
  have hw : ∀ t ∈ w, ∃ rest, t.IsLongest rest := fun t ht =>
    (scanTokens_eq_ok.mp hts).isLongest t (List.mem_append_left _ ht) (hnotEnd t ht)
  obtain ⟨v, hv, hsame⟩ := exists_spells_relaid hcs hw (Pos.start.after g)
  have hgap : Spells (fun _ => True) .start g [] := spells_gap fun rest _ => hg.isGap rest
  have hspells := hgap.append hv fun _ _ => trivial
  rw [← String.toList_ofList (l := g ++ cs)] at hspells
  refine ⟨_, scanTokens_of_spells hspells trivial, ?_⟩
  exact List.rel_append hsame (.cons ⟨rfl, rfl⟩ .nil)

/-! ### What is read -/

/-- Trees that differ at most in their places, or failures that do. -/
inductive SameOutcome : Except Failure Node → Except Failure Node → Prop where
  | tree {x y : Node} : x.same y = true → SameOutcome (.ok x) (.ok y)
  | failure {f g : Failure} : f.placeless = g.placeless → SameOutcome (.error f) (.error g)

/-- Tokens of the same kinds and texts have the same outcome. -/
theorem sameOutcome_of_sameLexemes {source source' : String} {ts us : List Token}
    (hts : scanTokens source = .ok ts) (hus : scanTokens source' = .ok us)
    (h : List.Forall₂ SameLexeme ts us) (limit : Int) :
    SameOutcome (readProgram source limit) (readProgram source' limit) := by
  by_cases hlimit : IsLimit limit
  · have hs : forgetful.OnSettings (settingOf ts limit) (settingOf us limit) := trivial
    have hfirst := readProgram_eq hlimit hts
    rw [hfirst, readProgram_eq hlimit hus]
    rcases (alike_program hs (.same (d := limit.toNat) rfl)).cases (fun _ => id)
      (forall₂_forgetful h) with ⟨x, y, hx, hy, hxy⟩ | ⟨f, g, hf, hg, hfg⟩
    · obtain ⟨xs, q, rfl, hxs⟩ := exists_wellFormed (hfirst.trans hx)
      rw [hx, hy]
      exact .tree (Node.same_of_placeless_eq
        (foreignIn?_eq_none fun x hx => (hxs x hx).foreign?_eq_none) hxy)
    · rw [hf, hg]
      exact .failure hfg
  · rw [readProgram_of_not_isLimit hlimit hts, readProgram_of_not_isLimit hlimit hus]
    exact .failure rfl

/-- A text laid out anew has the same tokens but for their places, and what is read from it,
by any limit, differs at most in its places. -/
theorem readProgram_relaid {source : String} {w : List Token} {e : Token} {g cs : List Char}
    (hts : scanTokens source = .ok (w ++ [e])) (hg : IsSpacing g) (hcs : Relaid w cs) :
    (∃ us, scanTokens (String.ofList (g ++ cs)) = .ok us ∧
        List.Forall₂ SameLexeme (w ++ [e]) us) ∧
      ∀ limit, SameOutcome (readProgram source limit)
        (readProgram (String.ofList (g ++ cs)) limit) := by
  obtain ⟨us, hus, hsame⟩ := exists_scanTokens_relaid hts hg hcs
  exact ⟨⟨us, hus, hsame⟩, sameOutcome_of_sameLexemes hts hus hsame⟩

/-- A lone '&' is refused in the same words with other characters around it, and what a
comment holds does not count. -/
theorem readProgram_relaid_stray :
    (∃ ts, scanTokens "a&b" = .ok ts) ∧ IsSpacing "#\"(\n".toList ∧
      Relaid [.word "a" ⟨1, 1⟩, .stray '&' ⟨1, 2⟩, .word "b" ⟨1, 3⟩] "a #&\n&\tb\r".toList ∧
      SameOutcome (readProgram "a&b" 1) (readProgram "#\"(\na #&\n&\tb\r" 1) := by
  have hts : scanTokens "a&b" = .ok
      ([.word "a" ⟨1, 1⟩, .stray '&' ⟨1, 2⟩, .word "b" ⟨1, 3⟩] ++ [.endAt ⟨1, 4⟩]) := by
    rw [scanTokens_eq_ok]
    repeat' first
      | exact .last rfl rfl
      | refine .more rfl (by decide) ?_
  have hg : IsSpacing "#\"(\n".toList := @IsSpacing.comment ['"', '('] [] (by decide) .nil
  have hcomment : IsSpacing [' ', '#', '&', '\n'] :=
    .blank rfl (@IsSpacing.comment ['&'] [] (by decide) .nil)
  have htab : IsSpacing ['\t'] := .blank rfl .nil
  have hreturn : IsSpacing ['\r'] := .blank rfl .nil
  have hcs : Relaid [.word "a" ⟨1, 1⟩, .stray '&' ⟨1, 2⟩, .word "b" ⟨1, 3⟩]
      "a #&\n&\tb\r".toList :=
    .cons hcomment (by simp) (.cons htab (by simp) (.cons hreturn (by simp) .nil))
  have htext : String.ofList ("#\"(\n".toList ++ "a #&\n&\tb\r".toList) =
      "#\"(\na #&\n&\tb\r" := rfl
  refine ⟨⟨_, hts⟩, hg, hcs, ?_⟩
  rw [← htext]
  exact (readProgram_relaid hts hg hcs).2 1

end GnLang
