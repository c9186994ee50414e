/-
A file that was written is read again.

A text that is written to a file is read with its line ends made newlines, so what was written
for a program is read as that program with the line ends in its strings made newlines.

* `read_back` — what is read from the canonical text with its line ends made newlines;
* `Job.execute_rereads` — a text is formatted into a file, the file is read, and then it is
  formatted in place: the program and the bytes stay exactly if no string of the program
  holds a carriage return;
* `Job.execute_rereads_carriageReturn` — a program of which neither stays.
-/
import GnLang.Command.Job
import GnLang.Proofs.Concatenation
import GnLang.Proofs.File.Writing
import GnLang.Proofs.Format.LineEnds
import GnLang.Proofs.Format.RoundTrip

namespace GnLang

open Format Grammar Text

variable {source path text : String} {limit : Int} {x : Node} {files after : File.Store}
  {room : Room}

/-- The canonical text of a program that was read, with its line ends made newlines, is read as
the program with the line ends in its strings made newlines, and is its canonical text. -/
theorem read_back (hread : readProgram source limit = .ok x)
    (htext : formattedIn room x = .ok text) :
    ∃ y, readProgram (unified text) limit = .ok y ∧ y.same (x.mapStrings unified) = true ∧
      formattedIn room y = .ok (unified text) := by
  obtain ⟨hlimit, xs, p, rfl, hxs, hneed⟩ := exists_fits hread
  have hunified := wellFormed_unified hxs
  rw [← needs_mapStringsAll unified] at hneed
  obtain ⟨text', ys, q, htext', hread', hys, hsame⟩ := readProgram_formatted hlimit hunified hneed p
  have hthere := formattedIn_unified hxs htext
  have heq : text' = unified text := Except.ok.inj <|
    (htext' .unlimited).symm.trans ((formattedIn_eq_ok hunified).mp hthere).1
  rw [heq] at hread'
  refine ⟨_, hread', hsame, ?_⟩
  rw [formattedIn_eq_of_placeless rfl rfl hys hunified (Node.placeless_eq_of_same hsame)]
  exact hthere

/-- No string of the tree holds a carriage return. -/
def Node.KeepsLineEnds (x : Node) : Prop := ∀ v ∈ x.strings, '\r' ∉ v.toList

instance (x : Node) : Decidable x.KeepsLineEnds :=
  inferInstanceAs (Decidable (∀ v ∈ x.strings, '\r' ∉ v.toList))

theorem Node.keepsLineEnds_iff : x.KeepsLineEnds ↔ ∀ v ∈ x.strings, unified v = v :=
  forall₂_congr fun _ _ => unified_eq_self_iff.symm

/-- The canonical text stays as it is when its line ends are made newlines exactly if no string
of the program holds a carriage return. -/
theorem unified_formatted_eq_iff (hread : readProgram source limit = .ok x)
    (htext : formattedIn room x = .ok text) : unified text = text ↔ x.KeepsLineEnds := by
  obtain ⟨-, xs, p, rfl, hxs, -⟩ := exists_fits hread
  have htext := ((formattedIn_eq_ok hxs).mp htext).1
  have htext' := formatted_unified hxs htext
  rw [Node.keepsLineEnds_iff]
  constructor
  · intro h
    -- one text cannot be that of two programs
    rw [h] at htext'
    exact Node.placeless_mapStrings_eq_iff.mp
      (placeless_eq_of_formatted (wellFormed_unified hxs) hxs htext' htext)
  · intro h
    have hself : (Node.list xs p).mapStrings unified = .list xs p := Node.mapStrings_eq_self h
    rw [Node.mapStrings] at hself
    rw [hself] at htext'
    exact Except.ok.inj (htext'.symm.trans htext)

namespace Job

/-- Formats a text and writes it to a file. -/
def formatText (source path : String) (limit : Int) : Job :=
  ⟨source, true, some "gn", some path, false, some limit⟩

/-- Formats a file in place. -/
def formatFile (path : String) (limit : Int) : Job :=
  ⟨path, false, some "gn", some path, false, some limit⟩

/-- A job that formats its source makes the canonical text, if there is room. -/
theorem run_of_format (job : Job) (room : Room) (files : File.Store) {log : List Log.Entry}
    (hlist : job.listTargets = false) (hformat : job.format = some "gn")
    (hlimit : job.limit = some limit)
    (hsource : job.readSource files.read = (.ok source, log))
    (hread : readProgram source limit = .ok x) :
    ∃ log, job.run room files.read = ((formattedIn room x).mapError .format, log) := by
  have hwrite : job.write room x = ((formattedIn room x).mapError .format, []) := by
    rw [write, if_neg (by simp [hlist]), hformat]
    rfl
  rw [run, hsource, hlimit]
  dsimp only [readProgramWithin]
  rw [hread]
  dsimp only
  rw [hwrite]
  exact ⟨_, rfl⟩

/-- What a job has made, it writes. -/
theorem execute_of_run (job : Job) {log : List Log.Entry} (hout : job.target? = some path)
    (hrun : job.run room files.read = (.ok text, log)) :
    ((job.execute room files).fault = none ↔
        ∃ after, files.write path text = (.ok (), after)) ∧
      ∀ after, files.write path text = (.ok (), after) →
        (job.execute room files).files = after := by
  rw [execute, hrun]
  dsimp only
  rw [hout]
  dsimp only
  rcases files.write path text with ⟨_ | _, after⟩
  · exact ⟨iff_of_false nofun nofun, nofun⟩
  · exact ⟨iff_of_true rfl ⟨after, rfl⟩, fun _ h => (Prod.mk.inj h).2⟩

theorem target?_of_endsWith (hpath : path.endsWith ".gn" = true) {job : Job}
    (hout : job.out = some path) : job.target? = some path := by
  have hne : path.isEmpty = false := by
    by_contra h
    have hempty : path = "" := by simpa using h
    subst hempty
    exact absurd hpath (by decide)
  rw [target?, hout, Option.filter_some, hne]
  rfl

theorem run_formatText (room : Room) (files : File.Store)
    (hread : readProgram source limit = .ok x) (path : String) :
    ∃ log, (formatText source path limit).run room files.read =
      ((formattedIn room x).mapError .format, log) :=
  run_of_format _ room files rfl rfl rfl rfl hread

/-- A text that is read is formatted into a file if its canonical text can be written there. -/
theorem execute_formatText (room : Room) (files : File.Store)
    (hread : readProgram source limit = .ok x) (htext : formattedIn room x = .ok text)
    (hpath : path.endsWith ".gn" = true) :
    (((formatText source path limit).execute room files).fault = none ↔
        ∃ after, files.write path text = (.ok (), after)) ∧
      ∀ after, files.write path text = (.ok (), after) →
        ((formatText source path limit).execute room files).files = after := by
  obtain ⟨log, hrun⟩ := run_formatText room files hread path
  rw [htext] at hrun
  exact execute_of_run _ (target?_of_endsWith hpath rfl) hrun

/-- Without room for the program the job fails. -/
theorem exists_formatted_of_execute (hread : readProgram source limit = .ok x)
    (hdone : ((formatText source path limit).execute room files).fault = none) :
    ∃ text, formattedIn room x = .ok text := by
  obtain ⟨log, hrun⟩ := run_formatText room files hread path
  cases htext : formattedIn room x with
  | ok text => exact ⟨text, rfl⟩
  | error f =>
    rw [htext] at hrun
    rw [execute, hrun] at hdone
    cases hdone

/-- The file to which the canonical text of a program was written holds the program with the line
ends in its strings made newlines, and formatting it in place makes its line ends newlines. -/
theorem exists_reread (hread : readProgram source limit = .ok x)
    (htext : formattedIn room x = .ok text) (hpath : path.endsWith ".gn" = true)
    (hwrite : files.write path text = (.ok (), after)) :
    ∃ y, readProgramFile after path limit = .ok y ∧ y.same (x.mapStrings unified) = true ∧
      (y.same x = true ↔ x.KeepsLineEnds) ∧
      ((formatFile path limit).execute room after).fault = none ∧
      ((formatFile path limit).execute room after).files.readBytes (.ofString path) =
        .ok (Utf8.encode (unified text).toList) := by
  obtain ⟨y, hy, hsame, htext'⟩ := read_back hread htext
  have hfile : after.read path = .ok (unified text) := File.Store.read_of_write hwrite
  obtain ⟨twice, hwrite'⟩ := File.Store.exists_write_of_write hwrite (unified text)
  have hsource : (formatFile path limit).readSource after.read =
      (.ok (unified text), [Log.reading path]) := by
    have hsuffix : isSourcePath path = true := by simp [isSourcePath, suffixes, hpath]
    show (if isSourcePath path = true then _ else _) = _
    rw [if_pos hsuffix]
    show ((after.read path).mapError Fault.file, _) = _
    rw [hfile]
    rfl
  obtain ⟨log, hrun⟩ := run_of_format (formatFile path limit) room after rfl rfl rfl hsource hy
  rw [htext'] at hrun
  obtain ⟨hfault, hfiles⟩ := execute_of_run _ (target?_of_endsWith hpath rfl) hrun
  refine ⟨y, ?_, hsame, ?_, hfault.mpr ⟨_, hwrite'⟩, ?_⟩
  · rw [readProgramFile, hfile]
    show (readProgram (unified text) limit).mapError _ = _
    rw [hy]
    rfl
  · rw [Node.keepsLineEnds_iff, ← Node.placeless_mapStrings_eq_iff,
      ← Node.placeless_eq_of_same hsame]
    obtain ⟨ys, q, rfl, hys⟩ := exists_wellFormed hy
    exact ⟨Node.placeless_eq_of_same, Node.same_of_placeless_eq
      (foreignIn?_eq_none fun y hy => (hys y hy).foreign?_eq_none)⟩
  · rw [hfiles _ hwrite', File.Store.readBytes_of_write hwrite']

/-- A text is formatted into a file, and then the file is formatted in place.  The file holds the
program with the line ends in its strings made newlines, and it stays as it is exactly if no
string of the program holds a carriage return. -/
theorem execute_rereads (hread : readProgram source limit = .ok x)
    (hpath : path.endsWith ".gn" = true)
    (hdone : ((formatText source path limit).execute room files).fault = none) :
    let after := ((formatText source path limit).execute room files).files
    let again := (formatFile path limit).execute room after
    ∃ y bytes, readProgramFile after path limit = .ok y ∧
      y.same (x.mapStrings unified) = true ∧ (y.same x = true ↔ x.KeepsLineEnds) ∧
      after.readBytes (.ofString path) = .ok bytes ∧ again.fault = none ∧
      (again.files.readBytes (.ofString path) = .ok bytes ↔ x.KeepsLineEnds) := by
  obtain ⟨text, htext⟩ := exists_formatted_of_execute hread hdone
  obtain ⟨hfault, hfiles⟩ := execute_formatText room files hread htext hpath
  obtain ⟨after, hwrite⟩ := hfault.mp hdone
  obtain ⟨y, hy, hsame, hkeeps, hdone', hagain⟩ := exists_reread hread htext hpath hwrite
  intro written again
  obtain rfl : written = after := hfiles after hwrite
  refine ⟨y, _, hy, hsame, hkeeps, File.Store.readBytes_of_write hwrite, hdone', ?_⟩
  rw [hagain, Except.ok.injEq, Utf8.encode_inj, String.toList_inj,
    unified_formatted_eq_iff hread htext]

/-- A carriage return before the body is between tokens, and the newline in the string is kept,
in a file that the path leads to by way of a directory. -/
theorem execute_rereads_body :
    let job := formatText "f(\"x\ny\")\r\n\x7b\x7d" "d/../x.gn" 1
    let files : File.Store := ⟨[(["d"], .directory)]⟩
    let after := (job.execute .usual files).files
    (job.execute .usual files).fault = none ∧
      ∃ x y bytes, readProgram "f(\"x\ny\")\r\n\x7b\x7d" 1 = .ok x ∧
        readProgramFile after "d/../x.gn" 1 = .ok y ∧ y.same x = true ∧
        after.readBytes (.ofString "d/../x.gn") = .ok bytes ∧
        ((formatFile "d/../x.gn" 1).execute .usual after).files.readBytes (.ofString "d/../x.gn") =
          .ok bytes := by
  have hts : scanTokens "f(\"x\ny\")\r\n\x7b\x7d" = .ok
      [.word "f" ⟨1, 1⟩, .mark .lparen ⟨1, 2⟩, .quoted "x\ny" ⟨1, 3⟩, .mark .rparen ⟨2, 3⟩,
        .mark .lbrace ⟨3, 1⟩, .mark .rbrace ⟨3, 2⟩, .endAt ⟨3, 3⟩] :=
    scanTokens_eq_ok.mpr (by decide)
  have hread : readProgram "f(\"x\ny\")\r\n\x7b\x7d" 1 = .ok (.list
      [.call "f" (.list [.string "x\ny" ⟨1, 3⟩] ⟨1, 2⟩) (some (.list [] ⟨3, 1⟩)) ⟨1, 1⟩]
      ⟨1, 1⟩) := (readProgram_eq (by decide) hts).trans rfl
  have hpath : "d/../x.gn".endsWith ".gn" = true := endsWith_iff.mpr (by decide)
  have hlocate : File.Store.locate ⟨[(["d"], .directory)]⟩ (.ofString "d/../x.gn") =
      .ok ["x.gn"] := by
    rw [File.Store.locate, String.contains_char_eq]
    rfl
  have hdone := (execute_formatText .usual _ hread rfl hpath).1.mpr
    ⟨_, File.Store.write_eq_ok.mpr ⟨_, hlocate, by decide, rfl⟩⟩
  obtain ⟨y, bytes, hy, -, hsame, hbytes, -, hagain⟩ := execute_rereads hread hpath hdone
  exact ⟨hdone, _, y, bytes, hread, hy, hsame.mpr (by decide), hbytes, hagain.mpr (by decide)⟩

/-- In place of a carriage return in a string the file is read with a newline, and formatting
the file in place puts the newline there. -/
theorem execute_rereads_carriageReturn :
    let job := formatText "a = \"\r\"" "x.gn" Grammar.defaultLimit
    let after := (job.execute .usual ⟨[]⟩).files
    (job.execute .usual ⟨[]⟩).fault = none ∧
      (∃ x y, readProgram "a = \"\r\"" = .ok x ∧
        readProgramFile after "x.gn" Grammar.defaultLimit = .ok y ∧ y.same x = false) ∧
      after.readBytes (.ofString "x.gn") = .ok (Utf8.encode "a = \"\r\"\n".toList) ∧
      ((formatFile "x.gn" Grammar.defaultLimit).execute .usual after).files.readBytes
        (.ofString "x.gn") = .ok (Utf8.encode "a = \"\n\"\n".toList) := by
  have hts : scanTokens "a = \"\r\"" = .ok [.word "a" ⟨1, 1⟩, .mark .assign ⟨1, 3⟩,
      .quoted "\r" ⟨1, 5⟩, .endAt ⟨1, 8⟩] :=
    scanTokens_eq_ok.mpr (by decide)
  have hread : readProgram "a = \"\r\"" = .ok (.list
      [.assignment (.identifier "a" ⟨1, 1⟩) .set (.string "\r" ⟨1, 5⟩) ⟨1, 1⟩] ⟨1, 1⟩) :=
    (readProgram_eq (by decide) hts).trans rfl
  have hpath : "x.gn".endsWith ".gn" = true := endsWith_iff.mpr (by decide)
  have hlocate : File.Store.locate ⟨[]⟩ (.ofString "x.gn") = .ok ["x.gn"] := by
    rw [File.Store.locate, String.contains_char_eq]
    rfl
  obtain ⟨after, hwrite⟩ : ∃ after,
      File.Store.write ⟨[]⟩ "x.gn" "a = \"\r\"\n" = (.ok (), after) :=
    ⟨_, File.Store.write_eq_ok.mpr ⟨_, hlocate, by decide, rfl⟩⟩
  have htext : formattedIn .usual (.list [.assignment (.identifier "a" ⟨1, 1⟩) .set
      (.string "\r" ⟨1, 5⟩) ⟨1, 1⟩] ⟨1, 1⟩) = .ok "a = \"\r\"\n" := rfl
  obtain ⟨hfault, hfiles⟩ := execute_formatText .usual ⟨[]⟩ hread htext hpath
  obtain ⟨y, hy, -, hkeeps, -, hagain⟩ := exists_reread hread htext hpath hwrite
  dsimp only
  rw [hfiles _ hwrite]
  have hnot : y.same _ = false := Bool.eq_false_iff.mpr (mt hkeeps.mp (by decide))
  exact ⟨hfault.mpr ⟨_, hwrite⟩, ⟨_, y, hread, hy, hnot⟩, File.Store.readBytes_of_write hwrite,
    hagain⟩

end Job

end GnLang
