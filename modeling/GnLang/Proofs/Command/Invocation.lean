/-
A run that executes a job either fails, with nothing done, or does all of its work.

A job goes through stages: the suffix of its path is checked, its source is read, parsed
and made into a text, and the text is printed or written to a file.

* `Job.Makes` — the text that a job makes;
* `Job.FailsWith` — the first stage that fails, with its fault;
* `Job.Exceeds` — a program for which there is no room;
* `Command.Concludes` — what a run leaves behind that ends in one of the two ways;
* `Command.invoke_concludes` — every run on a source does, as long as the command line
  unsets neither the format nor the limit, and there is room for the program.

Otherwise the run breaks off.  A text is a sequence of characters here; where it comes from
elsewhere it may hold halves of surrogate pairs, and then the file that it is written to is
emptied before it is found that they have no bytes.  `Command.invoke_breaks_off` has one of
each.
-/
import GnLang.Command.Program
import GnLang.Proofs.Calls
import GnLang.Proofs.Command.Arguments
import GnLang.Proofs.File.Writing
import GnLang.Proofs.Format.Chains
import GnLang.Proofs.Text.LineEnd
import GnLang.Proofs.Totality

namespace GnLang

open Grammar

namespace Job

variable (job : Job) (room : Room) (files : File.Store)

/-! ### Stages -/

/-- The source of the job: the text that was given, or what a file with the suffix of source
files holds. -/
inductive HasSource : String → Prop where
  | text : job.isText = true → HasSource job.source
  | file {source : String} : job.isText = false → isSourcePath job.source = true →
      files.read job.source = .ok source → HasSource source

/-- The source of the job is read as the program `x`. -/
def Parses (x : Node) : Prop :=
  ∃ source limit, job.HasSource files source ∧ job.limit = some limit ∧
    readProgram source limit = .ok x

/-- The text that the job makes: a list of targets, or the program in a format. -/
inductive Makes : String → Prop where
  | targets {x : Node} {targets : List Target} {text : String} :
      job.Parses files x → job.listTargets = true →
      Target.collect x Target.callName = .ok targets →
      Target.describeAll targets = .ok text → Makes text
  | program {x : Node} {format text : String} :
      job.Parses files x → job.listTargets = false → job.format = some format →
      Format.items? x >>= Format.render room format = .ok text → Makes text

/-- The job fails with the fault of the first stage that does. -/
inductive FailsWith : Fault → Prop where
  | suffix : job.isText = false → isSourcePath job.source = false → FailsWith .unsupported
  | read {f : File.Fault} : job.isText = false → isSourcePath job.source = true →
      files.read job.source = .error f → FailsWith (.file f)
  | parse {source : String} {limit : Int} {f : Failure} :
      job.HasSource files source → job.limit = some limit →
      readProgram source limit = .error f → FailsWith (.parse f)
  | target {x : Node} {f : Target.Fault} :
      job.Parses files x → job.listTargets = true →
      Target.collect x Target.callName = .error f → FailsWith (.target f)
  | label {x : Node} {targets : List Target} {f : Label.Fault} :
      job.Parses files x → job.listTargets = true →
      Target.collect x Target.callName = .ok targets →
      Target.describeAll targets = .error f → FailsWith (.label f)
  | write {text path : String} {f : File.Fault} {after : File.Store} :
      job.Makes room files text → job.target? = some path →
      files.write path text = (.error f, after) → FailsWith (.file f)

/-- The source of the job is a program that is to be written in a format, but there is no room
for the calls that write it. -/
def Exceeds : Prop :=
  ∃ x format, job.Parses files x ∧ job.listTargets = false ∧ job.format = some format ∧
    ¬ room.Holds (Format.heightIn format x)

variable {job room files} {format : String} {limit : Int}

/-! ### Making the text -/

/-- A job has a source, or the first two stages tell why not. -/
theorem readSource_cases (job : Job) (room : Room) (files : File.Store) :
    (∃ source log, job.readSource files.read = (.ok source, log) ∧ job.HasSource files source) ∨
      ∃ f log, job.readSource files.read = (.error f, log) ∧ job.FailsWith room files f ∧
        Command.isReported f = true := by
  rw [readSource]
  cases htext : job.isText with
  | true => exact .inl ⟨_, _, rfl, .text htext⟩
  | false =>
    cases hsuffix : isSourcePath job.source with
    | false => exact .inr ⟨_, _, rfl, .suffix htext hsuffix, rfl⟩
    | true =>
      cases hread : files.read job.source with
      | ok source => exact .inl ⟨_, _, rfl, .file htext hsuffix hread⟩
      | error f => exact .inr ⟨_, _, rfl, .read htext hsuffix hread, rfl⟩

theorem HasSource.exists_readSource {source : String} (h : job.HasSource files source) :
    ∃ log, job.readSource files.read = (.ok source, log) := by
  rw [readSource]
  cases h with
  | text htext => exact ⟨_, if_pos htext⟩
  | file htext hsuffix hread =>
    rw [if_neg (by simp [htext]), if_pos hsuffix, hread]
    exact ⟨_, rfl⟩

/-- A text is made of every program for which there is room, unless its targets are at fault. -/
theorem write_cases {x : Node} (hformat : job.format = some format)
    (hname : format ∈ Format.names) (hroom : ¬ job.Exceeds room files)
    (hx : job.Parses files x) :
    (∃ text log, job.write room x = (.ok text, log) ∧ job.Makes room files text) ∨
      ∃ f log, job.write room x = (.error f, log) ∧ job.FailsWith room files f ∧
        Command.isReported f = true := by
  have ⟨source, limit, _, _, hread⟩ := hx
  cases hlist : job.listTargets with
  | true =>
    cases hcollect : Target.collect x Target.callName with
    | error f =>
      obtain ⟨hnodes, hproper⟩ := properCalls_of_readProgram hread
      refine .inr ⟨.target f, [], ?_, .target hx hlist hcollect,
        Target.isOfProgram_of_collect hnodes hproper hcollect⟩
      rw [write, if_pos hlist, hcollect]
    | ok targets =>
      have hwrite : job.write room x =
          ((Target.describeAll targets).mapError .label, [Log.found targets.length]) := by
        rw [write, if_pos hlist, hcollect]
      rw [hwrite]
      cases hdescribe : Target.describeAll targets with
      | error f => exact .inr ⟨_, _, rfl, .label hx hlist hcollect hdescribe, rfl⟩
      | ok text => exact .inl ⟨_, _, rfl, .targets hx hlist hcollect hdescribe⟩
  | false =>
    obtain ⟨text, htext⟩ := Format.exists_render hread hname
    have hfits : room.Holds (Format.heightIn format x) :=
      not_not.mp fun h => hroom ⟨x, format, hx, hlist, hformat, h⟩
    have hthere := (htext room).trans (if_pos hfits)
    refine .inl ⟨text, [], ?_, .program hx hlist hformat hthere⟩
    have hrender : Format.items? x >>= Format.renderIn room job.format = .ok text := by
      rw [hformat]
      exact hthere
    rw [write, if_neg (by simp [hlist]), hrender]
    rfl

theorem isReportedFailure_of_isSyntactic {f : Failure} (h : f.IsSyntactic) :
    Command.isReportedFailure f = true := by
  cases h <;> rfl

/-- A job makes a text, or one of its stages fails. -/
theorem run_cases (hformat : job.format = some format) (hname : format ∈ Format.names)
    (hjob : job.limit = some limit) (hlimit : IsLimit limit) (hroom : ¬ job.Exceeds room files) :
    (∃ text log, job.run room files.read = (.ok text, log) ∧ job.Makes room files text) ∨
      ∃ f log, job.run room files.read = (.error f, log) ∧ job.FailsWith room files f ∧
        Command.isReported f = true := by
  rw [run]
  rcases readSource_cases job room files with
    ⟨source, log, hsource, hhas⟩ | ⟨f, log, hsource, hfails⟩
  · rw [hsource, hjob]
    dsimp only [readProgramWithin]
    cases hread : readProgram source limit with
    | error f =>
      exact .inr ⟨_, _, rfl, .parse hhas hjob hread,
        isReportedFailure_of_isSyntactic (isSyntactic_of_readProgram hlimit hread)⟩
    | ok x =>
      dsimp only
      rcases write_cases hformat hname hroom ⟨source, limit, hhas, hjob, hread⟩ with
        ⟨text, more, hwrite, hmakes⟩ | ⟨f, more, hwrite, hfails⟩
      · rw [hwrite]
        exact .inl ⟨_, _, rfl, hmakes⟩
      · rw [hwrite]
        exact .inr ⟨_, _, rfl, hfails⟩
  · rw [hsource]
    exact .inr ⟨f, log, rfl, hfails⟩

/-- A job for which there is no room makes no text. -/
theorem exists_run_of_exceeds (hname : ∀ format ∈ job.format, format ∈ Format.names)
    (h : job.Exceeds room files) :
    ∃ log, job.run room files.read = (.error (.format .stackExhausted), log) := by
  obtain ⟨x, format, ⟨source, limit, hsource, hjob, hread⟩, hlist, hformat, hroom⟩ := h
  obtain ⟨log, hsource⟩ := hsource.exists_readSource
  obtain ⟨text, htext⟩ := Format.exists_render hread (hname format hformat)
  have hrender : Format.items? x >>= Format.renderIn room job.format = .error .stackExhausted := by
    rw [hformat]
    exact (htext room).trans (if_neg hroom)
  rw [run, hsource, hjob]
  dsimp only [readProgramWithin]
  rw [hread]
  dsimp only
  rw [write, if_neg (by simp [hlist]), hrender]
  exact ⟨_, rfl⟩

end Job

namespace Command

/-! ### Runs -/

/-- What a run of a job leaves behind.  It fails with the fault of the first stage that does,
and nothing is printed and no file touched; or else the text that it makes is printed, or is
in the file it was to be written to, and no other file is touched. -/
inductive Concludes (job : Job) (room : Room) (files : File.Store) : Outcome → Prop where
  | failed {f : Job.Fault} {log : List Log.Entry} : job.FailsWith room files f →
      Concludes job room files ⟨.exit 1, "", "error: " ++ f.text ++ "\n", log, files⟩
  | printed {text : String} {log : List Log.Entry} :
      job.Makes room files text → job.target? = none →
      Concludes job room files ⟨.exit 0, text, "", log, files⟩
  | written {text path : String} {l : File.Location} {log : List Log.Entry}
      {after : File.Store} :
      job.Makes room files text → job.target? = some path →
      files.locate (.ofString path) = .ok l →
      after.entry? l = some (.file (Text.Utf8.encode text.toList)) →
      (∀ l', l' ≠ l → after.entry? l' = files.entry? l') →
      Concludes job room files ⟨.exit 0, "", "", log, after⟩

variable {job : Job} {room : Room} {files : File.Store} {format : String} {limit : Int}

theorem Concludes.withLog {r : Outcome} (h : Concludes job room files r)
    (log : List Log.Entry) : Concludes job room files { r with log := log } := by
  cases h with
  | failed h => exact .failed h
  | printed h hnone => exact .printed h hnone
  | written h hsome hl htext hsame => exact .written h hsome hl htext hsame

theorem runJob_concludes (hformat : job.format = some format) (hname : format ∈ Format.names)
    (hjob : job.limit = some limit) (hlimit : IsLimit limit) (hroom : ¬ job.Exceeds room files) :
    Concludes job room files (runJob job room files) := by
  rw [runJob, Job.execute]
  rcases Job.run_cases hformat hname hjob hlimit hroom with
    ⟨text, log, hrun, hmakes⟩ | ⟨f, log, hrun, hfails, hreported⟩
  · rw [hrun]
    cases htarget : job.target? with
    | none => exact .printed hmakes htarget
    | some path =>
      dsimp only
      rcases hwrite : files.write path text with ⟨f | _, after⟩
      · obtain rfl := File.Store.eq_of_write_error hwrite
        exact .failed (.write hmakes htarget hwrite)
      · obtain ⟨l, hl, htext, hsame⟩ := File.Store.entry?_of_write hwrite
        exact .written hmakes htarget hl htext hsame
  · rw [hrun]
    dsimp only
    rw [if_pos hreported]
    exact .failed hfails

theorem exists_runJob_of_exceeds (hname : ∀ format ∈ job.format, format ∈ Format.names)
    (h : job.Exceeds room files) :
    ∃ log, runJob job room files = ⟨.broken (.format .stackExhausted), "", "", log, files⟩ := by
  obtain ⟨log, hrun⟩ := Job.exists_run_of_exceeds hname h
  rw [runJob, Job.execute, hrun]
  exact ⟨log, rfl⟩

theorem exists_invoke_of_exceeds {args : List String} {o : Options} {source : String}
    (hargs : parseArguments args = .ok o) (hbatch : o.interactive = false)
    (hsource : o.source = some source) (h : (o.job source).Exceeds room files)
    (typed : List Session.Event) : ∃ log, invoke room args files typed =
      ⟨.broken (.format .stackExhausted), "", "", log, files⟩ := by
  obtain ⟨log, hrun⟩ := exists_runJob_of_exceeds (isValid_of_parseArguments hargs).format h
  rw [invoke, hargs]
  dsimp only
  rw [runOptions, hbatch, hsource]
  dsimp only
  rw [hrun]
  exact ⟨_, rfl⟩

/-- Every run on a source, with a command line that unsets neither the format nor the limit,
fails with nothing done or does all of its work, if there is room for the program.  If there is
none, it breaks off with nothing done. -/
theorem invoke_concludes {args : List String} {o : Options} {source : String}
    (hargs : parseArguments args = .ok o) (hbatch : o.interactive = false)
    (hsource : o.source = some source) (hformat : o.format ≠ none) (hlimit : o.limit ≠ none)
    (room : Room) (files : File.Store) (typed : List Session.Event) :
    (¬ (o.job source).Exceeds room files →
      Concludes (o.job source) room files (invoke room args files typed)) ∧
    ((o.job source).Exceeds room files → ∃ log, invoke room args files typed =
      ⟨.broken (.format .stackExhausted), "", "", log, files⟩) := by
  have hvalid := isValid_of_parseArguments hargs
  obtain ⟨format, hformat⟩ := Option.ne_none_iff_exists'.mp hformat
  obtain ⟨limit, hlimit⟩ := Option.ne_none_iff_exists'.mp hlimit
  have hjob : (o.job source).limit = some (limit : Int) := by
    rw [Options.job, hlimit]
    rfl
  refine ⟨fun hroom => ?_, fun hroom => exists_invoke_of_exceeds hargs hbatch hsource hroom typed⟩
  have hrun : Concludes (o.job source) room files (runJob (o.job source) room files) :=
    runJob_concludes hformat (hvalid.format format hformat) hjob (hvalid.limit limit hlimit) hroom
  rw [invoke, hargs]
  dsimp only
  rw [runOptions, hbatch, hsource]
  exact hrun.withLog _

/-- A text on the command line needs no file. -/
theorem invoke_concludes_text :
    ∃ o, parseArguments ["-s", "a = b"] = .ok o ∧
      ¬ (o.job "a = b").Exceeds .usual ⟨[]⟩ ∧
      Concludes (o.job "a = b") .usual ⟨[]⟩ (invoke .usual ["-s", "a = b"] ⟨[]⟩ []) := by
  have hargs : parseArguments ["-s", "a = b"] =
      .ok { Options.default with source := some "a = b", isText := true } := by decide +kernel
  have hts : scanTokens "a = b" = .ok
      [.word "a" ⟨1, 1⟩, .mark .assign ⟨1, 3⟩, .word "b" ⟨1, 5⟩, .endAt ⟨1, 6⟩] :=
    scanTokens_eq_ok.mpr (by decide)
  have hread : readProgram "a = b" Grammar.defaultLimit = .ok (.list
      [.assignment (.identifier "a" ⟨1, 1⟩) .set (.identifier "b" ⟨1, 5⟩) ⟨1, 1⟩] ⟨1, 1⟩) :=
    (readProgram_eq (by decide) hts).trans rfl
  have hroom : ¬ (Options.job { Options.default with source := some "a = b", isText := true }
      "a = b").Exceeds .usual ⟨[]⟩ := by
    rintro ⟨x, format, ⟨source, limit, hsource, hlimit, hread'⟩, -, hformat, hnot⟩
    cases hformat
    cases hlimit
    cases hsource with
    | text _ =>
      obtain rfl := Except.ok.inj (hread.symm.trans hread')
      exact hnot (by decide)
    | file htext => cases htext
  exact ⟨_, hargs, hroom, (invoke_concludes hargs rfl rfl nofun nofun .usual ⟨[]⟩ []).1 hroom⟩

/-- There are files of which one holds a chain for which there is no room. -/
theorem exists_exceeds_chain {n : Nat} (job : Job) (hsource : job.source = "x.gn")
    (htext : job.isText = false) (hlist : job.listTargets = false)
    (hformat : job.format = some "gn") (hjob : job.limit = some limit) (hlimit : IsLimit limit)
    (hroom : ¬ room.Holds (2 * n + 4)) :
    ∃ files : File.Store, files.read "x.gn" = .ok (Format.assignedText n) ∧
      job.Exceeds room files := by
  obtain ⟨x, hread, hnot, -⟩ := Format.exists_chain_without_room hlimit hroom
  have hlocate : File.Store.locate ⟨[]⟩ (.ofString "x.gn") = .ok ["x.gn"] := by
    rw [File.Store.locate, String.contains_char_eq]
    rfl
  obtain ⟨files, hwrite⟩ : ∃ files,
      File.Store.write ⟨[]⟩ "x.gn" (Format.assignedText n) = (.ok (), files) :=
    ⟨_, File.Store.write_eq_ok.mpr ⟨_, hlocate, by decide, rfl⟩⟩
  have hfile := File.Store.read_of_write hwrite
  rw [Text.unifyLineEnds_eq_self (Format.not_mem_assignedText n), String.ofList_toList] at hfile
  have hsuffix : Job.isSourcePath job.source = true := by
    have hends : "x.gn".endsWith ".gn" = true := Text.endsWith_iff.mpr (by decide)
    simp [Job.isSourcePath, Job.suffixes, hsource, hends]
  exact ⟨files, hfile, x, "gn",
    ⟨_, limit, .file htext hsuffix (hsource ▸ hfile), hjob, hread⟩, hlist, hformat, hnot⟩

/-- Runs that break off.  There is no room to write a chain of 600 operators.  Two dashes in
place of the limit unset it, though the text is refused whatever the limit is.  And half of a
surrogate pair has no bytes, which is found when the file has been emptied. -/
theorem invoke_breaks_off :
    (∃ files log, files.read "x.gn" = .ok (Format.assignedText 600) ∧
      invoke .usual ["x.gn"] files [] = ⟨.broken (.format .stackExhausted), "", "", log, files⟩) ∧
    (∃ o, parseArguments ["--max-depth=--", "-s", "]"] = .ok o ∧ o.interactive = false ∧
      o.source = some "]") ∧
    (invoke .usual ["--max-depth=--", "-s", "]"] ⟨[]⟩ []).ending = .broken (.parse .noLimit) ∧
    ∃ f after, File.Store.writePoints ⟨[(["x.gn"], .file [97])]⟩ "x.gn" [34, 0xdc80, 34] =
        (.error f, after) ∧ after.entry? ["x.gn"] = some (.file []) := by
  have hpath : parseArguments ["x.gn"] =
      .ok { Options.default with source := some "x.gn" } := by decide +kernel
  have hunset : parseArguments ["--max-depth=--", "-s", "]"] =
      .ok { Options.default with source := some "]", isText := true, limit := none } := by
    decide +kernel
  refine ⟨?_, ⟨_, hunset, rfl, rfl⟩, by decide +kernel, ?_⟩
  · obtain ⟨files, hfile, hexceeds⟩ := exists_exceeds_chain
      (Options.job { Options.default with source := some "x.gn" } "x.gn") rfl rfl rfl rfl rfl
      (by decide : IsLimit Grammar.defaultLimit) (by decide : ¬ Room.usual.Holds (2 * 600 + 4))
    obtain ⟨log, hrun⟩ := exists_invoke_of_exceeds hpath rfl rfl hexceeds []
    exact ⟨files, log, hfile, hrun⟩
  · have hlocate : File.Store.locate ⟨[(["x.gn"], .file [97])]⟩ (.ofString "x.gn") =
        .ok ["x.gn"] := by
      rw [File.Store.locate, String.contains_char_eq]
      rfl
    have hopen := File.Store.openAt_eq_ok.mpr ⟨hlocate, by decide⟩
    have hhalf : ∃ n ∈ [34, 0xdc80, 34], Text.Utf8.character? n = none :=
      ⟨0xdc80, by decide, by decide⟩
    obtain ⟨f, hwrite⟩ := File.Store.writePoints_of_not_character hopen hhalf
    exact ⟨_, _, hwrite, File.Store.entry?_put _ _ _⟩

end Command

end GnLang
