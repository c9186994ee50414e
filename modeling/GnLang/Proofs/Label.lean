/-
The crate names of labels that spell their target out.

The label of a directory names its default target, which has the name of the directory.  To
spell that target out adds a part that repeats the one before it, and of more than two parts
such a part is dropped: `crateName_target`.  A directory of which the last two names are the
same loses the last by the same rule, unless the target is spelled out.

* `Text.wordsAt_intercalate` — names between separators are found again;
* `crateName_directory`, `crateName_spelled` — the crate names of the two spellings.
-/
import Mathlib.Data.List.TakeWhile
import GnLang.Label
import GnLang.Proofs.Except

namespace GnLang

/-! ### Names between separators -/

namespace Text

variable {sep : Char}

theorem splitAt_of_not_mem {cs : List Char} (h : sep ∉ cs) : splitAt sep cs = [cs] := by
  induction cs with
  | nil => rfl
  | cons c cs ih =>
    obtain ⟨hc, hcs⟩ := not_or.mp fun hmem => h (List.mem_cons.mpr hmem)
    rw [splitAt, if_neg (Ne.symm hc), ih hcs]

theorem splitAt_append {cs : List Char} (h : sep ∉ cs) (ds : List Char) :
    splitAt sep (cs ++ sep :: ds) = cs :: splitAt sep ds := by
  induction cs with
  | nil => rw [List.nil_append, splitAt, if_pos rfl]
  | cons c cs ih =>
    obtain ⟨hc, hcs⟩ := not_or.mp fun hmem => h (List.mem_cons.mpr hmem)
    rw [List.cons_append, splitAt, if_neg (Ne.symm hc), ih hcs]

/-- Pieces that are joined by a separator are found again by splitting at it. -/
theorem splitAt_intercalate {pieces : List (List Char)} (hne : pieces ≠ [])
    (h : ∀ p ∈ pieces, sep ∉ p) : splitAt sep ([sep].intercalate pieces) = pieces := by
  induction pieces with
  | nil => exact absurd rfl hne
  | cons p pieces ih =>
    obtain ⟨hp, hpieces⟩ := List.forall_mem_cons.mp h
    cases pieces with
    | nil => rw [List.intercalate_singleton, splitAt_of_not_mem hp]
    | cons q pieces =>
      rw [List.intercalate_cons_cons, List.append_assoc, List.singleton_append,
        splitAt_append hp, ih (List.cons_ne_nil q pieces) hpieces]

theorem wordsAt_intercalate {pieces : List (List Char)} (h : ∀ p ∈ pieces, p ≠ [] ∧ sep ∉ p) :
    wordsAt sep ([sep].intercalate pieces) = pieces := by
  cases pieces with
  | nil => rfl
  | cons p pieces =>
    rw [wordsAt, splitAt_intercalate (List.cons_ne_nil p pieces) fun q hq => (h q hq).2,
      List.filter_eq_self]
    intro q hq
    simpa using (h q hq).1

theorem not_mem_intercalate {c : Char} {pieces : List (List Char)} (hc : c ≠ sep)
    (h : ∀ p ∈ pieces, c ∉ p) : c ∉ [sep].intercalate pieces := by
  induction pieces with
  | nil => exact List.not_mem_nil
  | cons p pieces ih =>
    obtain ⟨hp, hpieces⟩ := List.forall_mem_cons.mp h
    cases pieces with
    | nil => rwa [List.intercalate_singleton]
    | cons q pieces =>
      rw [List.intercalate_cons_cons, List.append_assoc, List.singleton_append,
        List.mem_append, List.mem_cons]
      rintro (hmem | hmem | hmem)
      · exact hp hmem
      · exact hc hmem
      · exact ih hpieces hmem

end Text

namespace Label

/-- A name that can stand between the slashes of a label. -/
def IsName (name : String) : Prop :=
  name.toList ≠ [] ∧ '/' ∉ name.toList ∧ ':' ∉ name.toList

instance (name : String) : Decidable (IsName name) :=
  inferInstanceAs (Decidable (_ ∧ _ ∧ _))

/-- The label of a directory, by the names on the way to it from the source root. -/
def directory (names : List String) : String := "//" ++ "/".intercalate names

variable {names : List String} {name : String}

/-! ### Parts -/

theorem forall_bne_of_not_mem {c : Char} {cs : List Char} (h : c ∉ cs) :
    ∀ d ∈ cs, (d != c) = true := by
  intro d hd
  exact bne_iff_ne.mpr (ne_of_mem_of_not_mem hd h)

theorem parts_of_not_mem {cs : List Char} (h : ':' ∉ cs) : parts cs = Text.wordsAt '/' cs := by
  have hcolon := forall_bne_of_not_mem h
  simp [parts, List.takeWhile_eq_self_iff.mpr hcolon, List.dropWhile_eq_nil_iff.mpr hcolon]

theorem parts_colon {cs target : List Char} (h : ':' ∉ cs) (htarget : target ≠ []) :
    parts (cs ++ ':' :: target) = Text.wordsAt '/' cs ++ [target] := by
  have hcolon := forall_bne_of_not_mem h
  simp [parts, List.takeWhile_append_of_pos hcolon, List.dropWhile_append_of_pos hcolon, htarget]

/-- The parts of a directory are its names. -/
theorem wordsAt_directory (h : ∀ n ∈ names, IsName n) :
    Text.wordsAt '/' ("/".intercalate names).toList = names.map String.toList := by
  rw [String.toList_intercalate]
  refine Text.wordsAt_intercalate (List.forall_mem_map.mpr ?_)
  intro n hn
  exact ⟨(h n hn).1, (h n hn).2.1⟩

theorem colon_not_mem_directory (h : ∀ n ∈ names, IsName n) :
    ':' ∉ ("/".intercalate names).toList := by
  rw [String.toList_intercalate]
  refine Text.not_mem_intercalate (by decide) (List.forall_mem_map.mpr ?_)
  intro n hn
  exact (h n hn).2.2

/-- The names, one after the other, that are left of the names of a label: a last one that
repeats the one before it is dropped if there are more than two. -/
def kept (names : List String) (name : String) : List String :=
  if 2 ≤ names.length ∧ names.getLast? = some name then names else names ++ [name]

theorem collapse_concat (names : List String) (name : String) :
    collapse ((names ++ [name]).map String.toList) = (kept names name).map String.toList := by
  rcases List.eq_nil_or_concat names with rfl | ⟨init, before, rfl⟩
  · rfl
  · rcases List.eq_nil_or_concat init with rfl | ⟨init, first, rfl⟩
    · rfl
    · have hreverse : ((((init.concat first).concat before) ++ [name]).map String.toList).reverse =
          name.toList :: before.toList :: first.toList :: (init.map String.toList).reverse := by
        simp
      rw [collapse, hreverse, kept]
      simp only [List.length_concat, Nat.le_add_left, true_and]
      by_cases hsame : before = name
      · simp [hsame]
      · simp [hsame, String.toList_inj]

/-! ### Crate names -/

/-- The crate name of a label joins what is kept of its names. -/
theorem crateName_of_parts {s : String}
    (h : parts s.toList = (names ++ [name]).map String.toList) :
    crateName ("//" ++ s) = .ok ("_".intercalate (kept names name)) := by
  have hlist : ("//" ++ s).toList = '/' :: '/' :: s.toList := by rw [String.toList_append]; rfl
  have hne : parts s.toList ≠ [] := by simp [h]
  rw [crateName, hlist]
  simp only
  rw [h, collapse_concat]
  simp

/-- The label of a directory. -/
theorem crateName_directory (h : ∀ n ∈ names ++ [name], IsName n) :
    crateName (directory (names ++ [name])) = .ok ("_".intercalate (kept names name)) := by
  refine crateName_of_parts ?_
  rw [parts_of_not_mem (colon_not_mem_directory h), wordsAt_directory h]

/-- The label of a directory with a target spelled out. -/
theorem crateName_spelled (h : ∀ n ∈ names, IsName n) {target : String} (ht : IsName target) :
    crateName (directory names ++ ":" ++ target) = .ok ("_".intercalate (kept names target)) := by
  have hparts : parts ("/".intercalate names ++ (":" ++ target)).toList =
      (names ++ [target]).map String.toList := by
    have hlist : ("/".intercalate names ++ (":" ++ target)).toList =
        ("/".intercalate names).toList ++ ':' :: target.toList := by
      rw [String.toList_append, String.toList_append]
      rfl
    rw [hlist, parts_colon (colon_not_mem_directory h) ht.1, wordsAt_directory h]
    simp
  rw [directory, String.append_assoc, String.append_assoc]
  exact crateName_of_parts hparts

theorem intercalate_concat_ne (hne : names ≠ []) (name : String) :
    "_".intercalate (names ++ [name]) ≠ "_".intercalate names := by
  rw [String.intercalate_append_of_ne_nil hne (List.cons_ne_nil name [])]
  intro h
  have hlength := congrArg String.length h
  simp only [String.length_append] at hlength
  have : "_".length = 1 := rfl
  omega

/-- Spelling out the default target of a directory within a directory adds nothing to the
names that are joined: they are those of the directory, all of them.  The label without the
target has the same crate name, unless the rule for repeated names drops the last name of the
directory itself. -/
theorem crateName_defaultTarget {names : List String} {name : String} (hne : names ≠ [])
    (h : ∀ n ∈ names ++ [name], IsName n) :
    crateName (directory (names ++ [name]) ++ ":" ++ name) =
        .ok ("_".intercalate (names ++ [name])) ∧
      (crateName (directory (names ++ [name]) ++ ":" ++ name) =
          crateName (directory (names ++ [name])) ↔
        ¬ (2 ≤ names.length ∧ names.getLast? = some name)) := by
  have hspelled : crateName (directory (names ++ [name]) ++ ":" ++ name) =
      .ok ("_".intercalate (names ++ [name])) := by
    have hlength := List.length_pos_iff.mpr hne
    rw [crateName_spelled h (h name (by simp)), kept, if_pos ⟨by simp; omega, by simp⟩]
  refine ⟨hspelled, ?_⟩
  rw [hspelled, crateName_directory h, Except.ok.injEq, kept]
  split
  · rename_i hrepeated
    exact iff_of_false (intercalate_concat_ne hne name) (not_not.mpr hrepeated)
  · rename_i hrepeated
    exact iff_of_true rfl hrepeated

/-- The shortest directory that repeats its parent keeps both names in both spellings. -/
theorem crateName_defaultTarget_twice :
    (["a"] ≠ [] ∧ ∀ n ∈ ["a", "a"], IsName n) ∧ crateName "//a/a:a" = .ok "a_a" ∧
      crateName "//a/a:a" = crateName "//a/a" := by
  have hname : ∀ n ∈ ["a"] ++ ["a"], IsName n := by decide
  obtain ⟨hspelled, hsame⟩ := crateName_defaultTarget (List.cons_ne_nil "a" []) hname
  exact ⟨⟨List.cons_ne_nil "a" [], hname⟩, hspelled, hsame.mpr (by decide)⟩

/-- Where the directory repeats its parent, the rule drops the target in one spelling and the
directory in the other.  Neither is dropped where only two parts are there. -/
theorem crateName_defaultTarget_repeated :
    (∀ n ∈ ["x", "a", "a"], IsName n) ∧
      crateName (directory ["x", "a", "a"] ++ ":" ++ "a") = .ok "x_a_a" ∧
      crateName (directory ["x", "a", "a"]) = .ok "x_a" ∧
      IsName "a" ∧ crateName (directory ["a"] ++ ":" ++ "a") = .ok "a_a" ∧
      crateName (directory ["a"]) = .ok "a" := by
  decide

end Label

end GnLang
