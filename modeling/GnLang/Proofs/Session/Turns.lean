/-
What an interactive session can do.

* `Session.Parses` — what comes of keeping a line, case by case;
* `Session.Stands` — how a session stands at a prompt: with nothing kept, with a program held
  back, or with lines that are an incomplete program;
* `Session.stands_of_step`, `Session.stands_of_leads` — every step leads to a session that
  stands so, and so does every run;
* `Session.printed_of_asks`, `Session.transcriptFrom_of_ends` — a whole session goes by its
  steps.
-/
import GnLang.Proofs.Format.Chains
import GnLang.Proofs.Grammar.Foresight
import GnLang.Session

namespace GnLang.Session

variable {config : Config} {limit : Int} {s s' : Session}

/-- What is kept, as one text. -/
def joined (lines : List String) : String := "\n".intercalate lines

/-! ### Keeping a line -/

/-- The lines that are kept when a line comes with the trimmed text `command`: a program that
is held back is shown, and its lines are forgotten, unless the line goes on with it. -/
def keptBefore (s : Session) (command : String) : List String :=
  if s.held.isSome && !command.startsWith "\x7b" then [] else s.lines

/-- What comes of the lines that are kept when the last of them is a line whose trimmed text
is `command`. -/
inductive Parses (config : Config) (limit : Int) (lines : List String) (command : String) :
    Turn → Prop where
  /-- The program is held back. -/
  | holds {x : Node} {log : List Log.Entry} :
      readProgram (joined lines) limit = .ok x → command.endsWith ")" = true →
      Parses config limit lines command ⟨[], log, .ask ⟨lines, some x⟩⟩
  /-- The program is shown. -/
  | shows {x : Node} {log : List Log.Entry} :
      readProgram (joined lines) limit = .ok x → command.endsWith ")" = false →
      Parses config limit lines command { showThen config x ⟨[], [], .ask fresh⟩ with log }
  /-- More lines are waited for. -/
  | waits {f : Failure} {log : List Log.Entry} :
      readProgram (joined lines) limit = .error f → f.IsIncomplete →
      Parses config limit lines command ⟨[], log, .ask ⟨lines, none⟩⟩
  /-- The error is shown, and the lines are forgotten. -/
  | fails {e : ParseError} {log : List Log.Entry} :
      readProgram (joined lines) limit = .error (.parse e) →
      ¬ (Failure.parse e).IsIncomplete →
      Parses config limit lines command ⟨[.problem e], log, .ask fresh⟩
  /-- The session breaks off. -/
  | breaks {f : Failure} {log : List Log.Entry} :
      readProgram (joined lines) limit = .error f → (∀ e, f ≠ .parse e) →
      Parses config limit lines command ⟨[], log, .broken (.parse f)⟩

theorem parses_parseLine (hlimit : config.limit = some limit) (kept : List String)
    (line command : String) :
    Parses config limit (kept ++ [line]) command (parseLine config kept line command) := by
  rw [parseLine, hlimit]
  dsimp only [readProgramWithin]
  cases h : readProgram ("\n".intercalate (kept ++ [line])) limit with
  | ok x =>
    dsimp only
    by_cases hclose : command.endsWith ")" = true
    · rw [if_pos hclose]
      exact .holds h hclose
    · rw [if_neg hclose]
      exact .shows h (by simpa using hclose)
  | error f =>
    cases f with
    | parse e =>
      obtain ⟨reason, p⟩ := e
      cases reason with
      | incomplete text => exact .waits h ⟨text, p, rfl⟩
      | _ => exact .fails h (by simp [Failure.IsIncomplete])
    | _ => exact .breaks h nofun

/-! ### At a prompt -/

/-- How a session stands at a prompt: nothing is kept; or a program is held back whose last
line ends in ')'; or what is kept is an incomplete program. -/
inductive Stands (limit : Int) : Session → Prop where
  | fresh : Stands limit fresh
  | holds {kept : List String} {line : String} {x : Node} :
      (Text.trim line).endsWith ")" = true →
      readProgram (joined (kept ++ [line])) limit = .ok x →
      Stands limit ⟨kept ++ [line], some x⟩
  | waits {kept : List String} {line : String} {f : Failure} :
      readProgram (joined (kept ++ [line])) limit = .error f → f.IsIncomplete →
      Stands limit ⟨kept ++ [line], none⟩

theorem next_showThen {x : Node} {t : Turn} (h : (showThen config x t).next = .ask s) :
    t.next = .ask s := by
  rw [showThen] at h
  split at h
  · exact h
  · cases h

theorem stands_of_takeLine (hlimit : config.limit = some limit) {kept : List String}
    {line : String} (h : (takeLine config kept line (Text.trim line)).next = .ask s) :
    s.Stands limit := by
  rw [takeLine] at h
  split at h
  · cases h
  split at h
  · cases h
    exact .fresh
  have hparses := parses_parseLine hlimit kept line (Text.trim line)
  generalize parseLine config kept line (Text.trim line) = t at h hparses
  cases hparses with
  | holds hx hclose =>
    cases h
    exact .holds hclose hx
  | shows hx _ =>
    cases next_showThen h
    exact .fresh
  | waits hf hincomplete =>
    cases h
    exact .waits hf hincomplete
  | fails _ _ =>
    cases h
    exact .fresh
  | breaks _ _ => cases h

/-- A line that makes an incomplete program of what is kept is kept, too, unless it is one
that a session at its start takes for a command. -/
theorem next_step_of_isIncomplete (hlimit : config.limit = some limit) {line : String}
    {f : Failure} (hheld : s.held = none)
    (hcommand : s.lines = [] → Text.trim line ∉ ["", "quit", "exit"])
    (hf : readProgram (joined (s.lines ++ [line])) limit = .error f) (h : f.IsIncomplete) :
    (step config s (.line line)).next = .ask ⟨s.lines ++ [line], none⟩ := by
  have hkeeps : takeLine config s.lines line (Text.trim line) =
      parseLine config s.lines line (Text.trim line) := by
    rw [takeLine]
    cases hlines : s.lines with
    | nil => simp_all
    | cons _ _ => rfl
  rw [step, hheld]
  dsimp only
  rw [hkeeps]
  have hparses := parses_parseLine hlimit s.lines line (Text.trim line)
  generalize parseLine config s.lines line (Text.trim line) = t at hparses
  cases hparses with
  | holds hx _ | shows hx _ => cases hf.symm.trans hx
  | waits _ _ => rfl
  | fails hf' hcomplete =>
    cases hf.symm.trans hf'
    exact absurd h hcomplete
  | breaks hf' hparse =>
    cases hf.symm.trans hf'
    obtain ⟨text, p, rfl⟩ := h
    exact absurd rfl (hparse _)

/-- Leaving asks for no other line. -/
theorem next_leave : (step config s .leave).next ≠ .ask s' := by
  intro h
  rw [step] at h
  split at h
  · cases h
  · cases next_showThen h

/-- However a session stands, a step that asks for another line leads to one that stands as
sessions do. -/
theorem stands_of_step (hlimit : config.limit = some limit) {e : Event}
    (h : (step config s e).next = .ask s') : s'.Stands limit := by
  cases e with
  | line line =>
    rw [step] at h
    split at h
    · exact stands_of_takeLine hlimit h
    split at h
    · exact stands_of_takeLine hlimit h
    · exact stands_of_takeLine hlimit (next_showThen h)
  | leave => exact absurd h next_leave

/-- Event by event, the session goes on from one prompt to another. -/
inductive Leads (config : Config) : Session → List Event → Session → Prop where
  | here {s : Session} : Leads config s [] s
  | step {s s' s'' : Session} {e : Event} {events : List Event} :
      (step config s e).next = .ask s' → Leads config s' events s'' →
      Leads config s (e :: events) s''

/-- Whatever is typed, a session that stands as sessions do goes on to one that does. -/
theorem stands_of_leads (hlimit : config.limit = some limit) {events : List Event}
    (h : Leads config s events s') (hs : s.Stands limit) : s'.Stands limit := by
  induction h with
  | here => exact hs
  | step hnext _ ih => exact ih (stands_of_step hlimit hnext)

/-! ### Whole sessions -/

/-- All that a session printed. -/
def Transcript.printed (t : Transcript) : List Message := t.prompts.flatMap Prod.fst ++ t.rest

theorem printed_close (printed : List Message) (s : Session) (t : Turn) :
    (transcriptFrom.close printed s t).printed = printed ++ t.printed := by
  simp [transcriptFrom.close, Transcript.printed]

theorem printed_of_asks {e : Event} (h : (step config s e).next = .ask s')
    (printed : List Message) (events : List Event) :
    (transcriptFrom config printed s (e :: events)).printed =
      printed ++ (transcriptFrom config (step config s e).printed s' events).printed := by
  rw [transcriptFrom]
  simp only [h, Transcript.printed, List.flatMap_cons, List.append_assoc]

theorem fault_of_asks {e : Event} (h : (step config s e).next = .ask s')
    (printed : List Message) (events : List Event) :
    (transcriptFrom config printed s (e :: events)).fault =
      (transcriptFrom config (step config s e).printed s' events).fault := by
  rw [transcriptFrom]
  simp only [h]

theorem transcriptFrom_of_ends {e : Event} (h : ∀ s', (step config s e).next ≠ .ask s')
    (printed : List Message) (events : List Event) :
    transcriptFrom config printed s (e :: events) =
      transcriptFrom.close printed s (step config s e) := by
  rw [transcriptFrom]
  split
  · rename_i hnext
    exact absurd hnext (h _)
  · rfl

/-- What was printed before the session went on belongs to what it printed. -/
theorem mem_printed {m : Message} {printed : List Message} (hm : m ∈ printed)
    (events : List Event) : m ∈ (transcriptFrom config printed s events).printed := by
  cases events with
  | nil =>
    rw [transcriptFrom, printed_close]
    exact List.mem_append_left _ hm
  | cons e events =>
    by_cases hasks : ∃ s', (step config s e).next = .ask s'
    · obtain ⟨s', hnext⟩ := hasks
      rw [printed_of_asks hnext]
      exact List.mem_append_left _ hm
    · rw [transcriptFrom_of_ends (not_exists.mp hasks), printed_close]
      exact List.mem_append_left _ hm

/-! ### A chain that is typed -/

/-- A session by which there is no room to show a chain breaks off when the chain is typed. -/
theorem exists_step_chain {n : Nat} (hformat : config.format = some "gn")
    (hverbose : config.verbose = false) (hlimit : config.limit = some limit)
    (hkeeps : IsLimit limit) (hroom : ¬ config.room.Holds (2 * n + 4)) :
    ∃ log, step config fresh (.line (Format.assignedText n)) =
      ⟨[], log, .broken (.format .stackExhausted)⟩ := by
  obtain ⟨x, hread, -, hstop⟩ := Format.exists_chain_without_room hkeeps hroom
  have hdisplay : display config x = ([], some (.format .stackExhausted)) := by
    have hrender : Format.items? x >>= Format.renderIn config.room config.format =
        .error .stackExhausted := by
      rw [hformat]
      exact hstop
    rw [display, hrender, hverbose]
    rfl
  -- the chain is neither blank nor a command
  have hquit : Format.assignedText n ≠ "quit" := Format.assignedText_ne (by decide)
  have hexit : Format.assignedText n ≠ "exit" := Format.assignedText_ne (by decide)
  have hblank : Format.assignedText n ≠ "" := Format.assignedText_ne (by decide)
  have hparses := parses_parseLine hlimit [] (Format.assignedText n) (Format.assignedText n)
  rw [step, Format.trim_assignedText]
  dsimp only [fresh]
  rw [takeLine, if_neg (by simp [hquit, hexit]), if_neg (by simp [hblank])]
  generalize parseLine config [] (Format.assignedText n) (Format.assignedText n) = t at hparses
  have hjoined : joined ([] ++ [Format.assignedText n]) = Format.assignedText n :=
    String.intercalate_singleton
  cases hparses with
  | holds _ hclose => cases hclose.symm.trans (Format.endsWith_assignedText n)
  | shows hx _ =>
    rw [hjoined, hread] at hx
    cases hx
    rw [showThen, hdisplay]
    exact ⟨_, rfl⟩
  | waits hf _ | fails hf _ | breaks hf _ =>
    rw [hjoined, hread] at hf
    cases hf

theorem exists_transcript_chain {n : Nat} (hformat : config.format = some "gn")
    (hverbose : config.verbose = false) (hlimit : config.limit = some limit)
    (hkeeps : IsLimit limit) (hroom : ¬ config.room.Holds (2 * n + 4)) (events : List Event) :
    (∀ s, (step config fresh (.line (Format.assignedText n))).next ≠ .ask s) ∧
      ∃ log, transcript config (.line (Format.assignedText n) :: events) =
        ⟨[([.greeting], "gn> ")], [], log, some (.format .stackExhausted)⟩ := by
  obtain ⟨log, hstep⟩ := exists_step_chain hformat hverbose hlimit hkeeps hroom
  have hends : ∀ s, (step config fresh (.line (Format.assignedText n))).next ≠ .ask s := by
    rw [hstep]
    nofun
  refine ⟨hends, log, ?_⟩
  rw [transcript, transcriptFrom_of_ends hends, hstep]
  rfl

end GnLang.Session
