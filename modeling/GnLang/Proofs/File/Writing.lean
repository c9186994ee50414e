/-
Writing a file changes that file and nothing else.

A file is put where its path leads.  All directories on the way exist already
(`hasAbove_of_locate`), so that no directory comes into being with the file, and what is
at every other location stays as it was: `entry?_of_write`.

So the path leads to the file from then on, and the text is read from it, except that its
line ends have become newlines: `read_of_write`.

Code points that are no text cannot be written, but the file is emptied before that is found:
`writePoints_of_not_character`.
-/
import Mathlib.Data.List.Infix
import GnLang.File.Store
import GnLang.Proofs.Text.Utf8

namespace GnLang.File.Store

variable {s s' : Store} {l l' : Location} {e : Entry}

/-! ### Putting an entry -/

/-- The entry, unless one is put in its place. -/
def replacing (l : Location) (e : Entry) (old : Location × Entry) : Location × Entry :=
  if old.1 == l then (l, e) else old

theorem replacing_fst (l : Location) (e : Entry) (old : Location × Entry) :
    (replacing l e old).1 = old.1 := by
  rw [replacing]
  split
  · rename_i h
    exact (eq_of_beq h).symm
  · rfl

theorem find?_map_replacing (l l' : Location) (e : Entry) (entries : List (Location × Entry)) :
    (entries.map (replacing l e)).find? (·.1 == l') =
      (entries.find? (·.1 == l')).map (replacing l e) := by
  rw [List.find?_map]
  congr 2
  funext old
  rw [Function.comp_apply, replacing_fst]

/-- What is put at a location is there. -/
theorem entry?_put (s : Store) (l : Location) (e : Entry) :
    Store.entry? (s.put l e) l = some e := by
  have hfind : (s.put l e).entries.find? (·.1 == l) = some (l, e) := by
    cases hold : s.entries.find? (·.1 == l) with
    | none =>
      have hnew : s.entries.any (·.1 == l) = false := by simpa using hold
      rw [put, if_neg (by simp [hnew]), List.find?_append, hold]
      simp
    | some old =>
      have hkey : (old.1 == l) = true := by simpa using List.find?_some hold
      have hany : s.entries.any (·.1 == l) = true :=
        List.any_eq_true.mpr ⟨old, List.mem_of_find?_eq_some hold, hkey⟩
      rw [put, if_pos hany]
      show (s.entries.map (replacing l e)).find? (·.1 == l) = _
      rw [find?_map_replacing, hold, Option.map_some, replacing, if_pos hkey]
  unfold entry?
  rw [hfind]

/-- If something is at every location above, what is at other locations stays. -/
theorem entry?_put_of_ne (hne : l' ≠ l) (habove : l' <+: l → s.entry? l' ≠ none) :
    Store.entry? (s.put l e) l' = s.entry? l' := by
  rw [put]
  split
  · -- the locations are the ones they were before
    show Store.entry? ⟨s.entries.map (replacing l e)⟩ l' = _
    unfold entry?
    rw [find?_map_replacing, List.any_map]
    have hany : ((fun e : Location × Entry => l'.isPrefixOf e.1) ∘ replacing l e) =
        fun e => l'.isPrefixOf e.1 := by
      funext old
      rw [Function.comp_apply, replacing_fst]
    rw [hany]
    cases hold : s.entries.find? (·.1 == l') with
    | none => rfl
    | some old =>
      have hkey : old.1 = l' := by simpa using List.find?_some hold
      rw [Option.map_some, replacing, if_neg (by simpa [hkey] using hne)]
  · unfold entry?
    rw [List.find?_append, List.any_append]
    cases hold : s.entries.find? (·.1 == l') with
    | some old => rfl
    | none =>
      -- a location above the new file is one where something was
      have hfind : [(l, e)].find? (·.1 == l') = none := by simpa using hne.symm
      rw [Option.none_or, hfind]
      by_cases hunder : l' <+: l
      · have hthere := habove hunder
        unfold entry? at hthere
        rw [hold] at hthere
        dsimp only at hthere
        split at hthere
        · rename_i hdirectory
          rw [if_pos hdirectory, if_pos]
          rw [← Bool.or_assoc, hdirectory, Bool.true_or]
        · exact absurd rfl hthere
      · have hnot : l'.isPrefixOf l = false :=
          Bool.eq_false_iff.mpr fun h => hunder (List.isPrefixOf_iff_prefix.mp h)
        simp only [List.any_cons, List.any_nil, hnot, Bool.or_false]

/-! ### Following a path -/

/-- Something is at every location above. -/
def HasAbove (s : Store) (l : Location) : Prop := ∀ l', l' <+: l → l' ≠ l → s.entry? l' ≠ none

theorem hasAbove_nil : s.HasAbove [] := fun _ hunder hne => absurd (List.prefix_nil.mp hunder) hne

theorem HasAbove.concat (h : s.HasAbove l) (hl : s.entry? l ≠ none) (name : String) :
    s.HasAbove (l ++ [name]) := by
  intro l' hunder hne
  rcases List.prefix_concat_iff.mp hunder with heq | hunder
  · exact absurd heq hne
  · by_cases hl' : l' = l
    · rwa [hl']
    · exact h l' hunder hl'

theorem HasAbove.step (h : s.HasAbove l) (hl : s.entry? l ≠ none) (name : String) :
    s.HasAbove (l.step name) := by
  rw [Location.step]
  split
  · rw [Location.parent]
    split
    · exact h
    · split
      · exact h.concat hl _
      · rcases List.eq_nil_or_concat l with rfl | ⟨init, last, rfl⟩
        · exact hasAbove_nil
        · rw [List.concat_eq_append] at h ⊢
          rw [List.dropLast_concat]
          refine fun l' hunder hne => h l' (hunder.trans (List.prefix_append _ _)) ?_
          -- a proper prefix of the directory is shorter than what is in it
          rintro rfl
          exact absurd hunder.length_le (by simp)
  · exact h.concat hl name

theorem hasAbove_of_follow {path : String} {names : List String}
    (h : s.follow path l names = .ok l') (hl : s.HasAbove l) : s.HasAbove l' := by
  induction names generalizing l with
  | nil =>
    cases h
    exact hl
  | cons name names ih =>
    rw [follow] at h
    split at h
    · rename_i hdirectory
      split at h
      · exact ih h (hl.step (by rw [hdirectory]; nofun) name)
      · cases h
    · cases h
    · cases h

/-- There is something at every location above the one that a path leads to. -/
theorem hasAbove_of_locate {p : Path} (h : s.locate p = .ok l) : s.HasAbove l := by
  have hworking : s.entry? [] ≠ none := by
    unfold entry?
    split
    · nofun
    · simp [Location.isAbove]
  rw [locate] at h
  split at h
  · cases h
  · split at h
    · cases h
    · refine hasAbove_of_follow h ?_
      split
      · exact hasAbove_nil
      · exact hasAbove_nil.concat hworking "/"

/-! ### Writing a text -/

theorem openAt_eq_ok {path : String} : s.openAt path = .ok l ↔
    s.locate (.ofString path) = .ok l ∧ s.entry? l ≠ some .directory := by
  rw [openAt]
  cases hlocate : s.locate (.ofString path) with
  | error f => exact iff_of_false nofun fun h => nomatch h.1
  | ok l' =>
    dsimp only [bind, Except.bind]
    split
    · rename_i hdirectory
      refine iff_of_false nofun fun ⟨hl, hfile⟩ => ?_
      cases hl
      exact hfile hdirectory
    · rename_i hfile
      constructor
      · intro h
        cases h
        exact ⟨rfl, hfile⟩
      · exact fun h => h.1

/-- A text is written where its path leads, unless there is a directory. -/
theorem write_eq_ok {path text : String} :
    s.write path text = (.ok (), s') ↔ ∃ l, s.locate (.ofString path) = .ok l ∧
      s.entry? l ≠ some .directory ∧ s' = s.put l (.file (Text.Utf8.encode text.toList)) := by
  rw [write, writePoints, Text.Utf8.encodePoints_points]
  dsimp only
  cases hopen : s.openAt path with
  | error f =>
    refine iff_of_false nofun ?_
    rintro ⟨l, hlocate, hfile, -⟩
    cases hopen.symm.trans (openAt_eq_ok.mpr ⟨hlocate, hfile⟩)
  | ok l =>
    obtain ⟨hlocate, hfile⟩ := openAt_eq_ok.mp hopen
    constructor
    · intro h
      cases h
      exact ⟨l, hlocate, hfile, rfl⟩
    · rintro ⟨l', hlocate', -, rfl⟩
      cases hlocate.symm.trans hlocate'
      rfl

/-- A text that cannot be written leaves the files as they were. -/
theorem eq_of_write_error {path text : String} {f : Fault}
    (h : s.write path text = (.error f, s')) : s' = s := by
  rw [write, writePoints, Text.Utf8.encodePoints_points] at h
  cases hopen : s.openAt path with
  | error g =>
    rw [hopen] at h
    cases h
    rfl
  | ok l =>
    rw [hopen] at h
    cases h

/-- Code points that are no text are not written, but the file is empty then. -/
theorem writePoints_of_not_character {path : String} {ps : List Nat}
    (hopen : s.openAt path = .ok l) (hps : ∃ n ∈ ps, Text.Utf8.character? n = none) :
    ∃ f, s.writePoints path ps = (.error (.notEncoded f), s.put l (.file [])) := by
  obtain ⟨f, hf⟩ := Text.Utf8.exists_encodePoints_error_iff.mpr hps
  refine ⟨f, ?_⟩
  rw [writePoints, hopen, hf]

/-- What a text is written to then holds that text, and whatever is elsewhere stays as it
was. -/
theorem entry?_of_write {path text : String} (h : s.write path text = (.ok (), s')) :
    ∃ l, s.locate (.ofString path) = .ok l ∧
      s'.entry? l = some (.file (Text.Utf8.encode text.toList)) ∧
      ∀ l', l' ≠ l → s'.entry? l' = s.entry? l' := by
  obtain ⟨l, hlocate, -, rfl⟩ := write_eq_ok.mp h
  exact ⟨l, hlocate, entry?_put s l _, fun l' hne =>
    entry?_put_of_ne hne fun hunder => hasAbove_of_locate hlocate l' hunder hne⟩

/-! ### Reading it back -/

/-- A path leads where it did as long as all directories stay. -/
theorem follow_of_directories {path : String} {names : List String}
    (hstay : ∀ m, s.entry? m = some .directory → s'.entry? m = some .directory)
    (h : s.follow path l names = .ok l') : s'.follow path l names = .ok l' := by
  induction names generalizing l with
  | nil => exact h
  | cons name names ih =>
    rw [follow] at h ⊢
    split at h
    · rename_i hdirectory
      split at h
      · rename_i hshort
        rw [hstay l hdirectory]
        exact (if_pos hshort).trans (ih h)
      · cases h
    · cases h
    · cases h

theorem locate_of_directories {p : Path}
    (hstay : ∀ m, s.entry? m = some .directory → s'.entry? m = some .directory)
    (h : s.locate p = .ok l) : s'.locate p = .ok l := by
  rw [locate] at h ⊢
  split at h
  · cases h
  · rename_i hnul
    rw [if_neg hnul]
    split at h
    · cases h
    · rename_i hlong
      rw [if_neg hlong]
      exact follow_of_directories hstay h

/-- The path leads to the file that was written by it. -/
theorem locate_of_write {path text : String} (h : s.write path text = (.ok (), s')) :
    ∃ l, s'.locate (.ofString path) = .ok l ∧
      s'.entry? l = some (.file (Text.Utf8.encode text.toList)) := by
  obtain ⟨l, hlocate, hfile, -⟩ := write_eq_ok.mp h
  obtain ⟨l', hlocate', hthere, helse⟩ := entry?_of_write h
  cases hlocate.symm.trans hlocate'
  refine ⟨l, locate_of_directories (fun m hm => ?_) hlocate, hthere⟩
  rw [helse m fun heq => hfile (heq ▸ hm), hm]

/-- The bytes of a file are those of the text that was written to it. -/
theorem readBytes_of_write {path text : String} (h : s.write path text = (.ok (), s')) :
    s'.readBytes (.ofString path) = .ok (Text.Utf8.encode text.toList) := by
  obtain ⟨l, hlocate, hthere⟩ := locate_of_write h
  rw [readBytes, hlocate]
  dsimp only [bind, Except.bind]
  rw [hthere]

/-- What is read from a file is the text that was written to it, with its line ends made
newlines. -/
theorem read_of_write {path text : String} (h : s.write path text = (.ok (), s')) :
    s'.read path = .ok (String.ofList (Text.unifyLineEnds text.toList)) := by
  rw [read, readBytes_of_write h]
  dsimp only [bind, Except.bind]
  rw [textOf, Text.Utf8.decode_encode]

/-- A file that was written can be written again. -/
theorem exists_write_of_write {path text : String} (h : s.write path text = (.ok (), s'))
    (text' : String) : ∃ s'', s'.write path text' = (.ok (), s'') := by
  obtain ⟨l, hlocate, hthere⟩ := locate_of_write h
  exact ⟨_, write_eq_ok.mpr ⟨l, hlocate, by rw [hthere]; nofun, rfl⟩⟩

end GnLang.File.Store
