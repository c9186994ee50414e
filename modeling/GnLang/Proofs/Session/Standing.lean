/-
How a session goes, whatever is typed.

With a format there is and a limit there is, only a program for which there is no room breaks a
session off.  At each prompt it stands in exactly one of three ways, it says farewell once, and
after an error it stands as at its start.  A program that is held back is shown at the next line,
unless this goes on with it, and then no more.

* `Session.Standing` — the three ways in which a session stands at a prompt;
* `Session.ComesTo` — the programs that a turn comes to show;
* `Session.sound_step` — what one turn can do;
* `Session.moments` — the prompts of a session, with what is to come;
* `Session.printed_of_held` — what becomes of a program that is held back;
* `Session.transcript_stands` — whole sessions;
* `Session.transcript_stands_chain` — one that breaks off.
-/
import GnLang.Proofs.Session.Turns
import GnLang.Proofs.Totality

namespace GnLang.Session

open Grammar

variable {config : Config} {limit : Int} {s s' : Session}

/-! ### At a prompt -/

/-- The ways in which a session stands at a prompt. -/
inductive Standing where
  | idle | holding | waiting
  deriving DecidableEq, Repr

/-- The session stands so: with nothing kept; or with the program held back that the kept lines
are, of which the last ends in ')'; or with kept lines that are an incomplete program. -/
def Standing.On (limit : Int) (s : Session) : Standing → Prop
  | idle => s.prompt = "gn> " ∧ s.lines = [] ∧ s.held = none
  | holding => s.prompt = "... " ∧ ∃ kept line x, s.lines = kept ++ [line] ∧
      (Text.trim line).endsWith ")" = true ∧ s.held = some x ∧
      readProgram (joined s.lines) limit = .ok x
  | waiting => s.prompt = "... " ∧ s.lines ≠ [] ∧ s.held = none ∧
      ∃ f, readProgram (joined s.lines) limit = .error f ∧ f.IsIncomplete

theorem prompt_of_keeps (kept : List String) (line : String) (held : Option Node) :
    prompt ⟨kept ++ [line], held⟩ = "... " := by
  simp [prompt]

/-- No session stands in two of the ways. -/
theorem Stands.existsUnique_standing (h : s.Stands limit) : ∃! k, Standing.On limit s k := by
  cases h with
  | fresh =>
    refine ⟨.idle, ⟨rfl, rfl, rfl⟩, fun k hk => ?_⟩
    cases k with
    | idle => rfl
    | holding =>
      obtain ⟨-, _, _, _, -, -, hheld, -⟩ := hk
      cases hheld
    | waiting => exact absurd rfl hk.2.1
  | @holds kept line x hclose hx =>
    refine ⟨.holding, ⟨prompt_of_keeps .., kept, line, x, rfl, hclose, rfl, hx⟩, fun k hk => ?_⟩
    cases k with
    | idle => cases hk.2.2
    | holding => rfl
    | waiting => cases hk.2.2.1
  | @waits kept line f hf hincomplete =>
    refine ⟨.waiting, ⟨prompt_of_keeps .., by simp, rfl, f, hf, hincomplete⟩, fun k hk => ?_⟩
    cases k with
    | idle => exact absurd hk.2.1 (by simp)
    | holding =>
      obtain ⟨-, _, _, _, -, -, hheld, -⟩ := hk
      cases hheld
    | waiting => rfl

theorem Stands.exists_read {x : Node} (h : s.Stands limit) (hx : s.held = some x) :
    ∃ source, readProgram source limit = .ok x := by
  cases h with
  | fresh | waits => cases hx
  | holds _ hread =>
    cases hx
    exact ⟨_, hread⟩

/-! ### One turn -/

/-- The message neither reports an error nor ends the session. -/
def Message.IsPlain : Message → Prop
  | .problem _ | .farewell _ => False
  | _ => True

/-- Sessions by this configuration can show and parse what is typed. -/
structure Config.IsSound (config : Config) (limit : Int) : Prop where
  limit_eq : config.limit = some limit
  isLimit : IsLimit limit
  format : ∃ f ∈ Format.names, config.format = some f

/-- There is room to show the program: in full, if trees are also written out so, and in the
format. -/
structure Config.HasRoom (config : Config) (x : Node) : Prop where
  full : config.verbose = true → config.room.Holds x.debugHeight
  text : ∀ format ∈ config.format, config.room.Holds (Format.heightIn format x)

/-- The person is going to type a line that begins with a brace. -/
def goesOn : List Event → Bool
  | .line line :: _ => (Text.trim line).startsWith "\x7b"
  | _ => false

/-- The event makes the session show the program, if there is room: one that is held back and
not gone on with, or the one that the kept lines are with the line that is typed. -/
inductive ComesTo (limit : Int) (s : Session) (x : Node) : Event → Prop where
  | held {e : Event} : s.held = some x → goesOn [e] = false → ComesTo limit s x e
  | typed {line : String} :
      readProgram (joined (s.keptBefore (Text.trim line) ++ [line])) limit = .ok x →
      ComesTo limit s x (.line line)

/-- A turn that goes well, if it comes to show only such programs: it leads to another prompt, at
the start again if an error was reported, or it says farewell, or there is no room for one of
the programs. -/
inductive Turn.Sound (config : Config) (limit : Int) (programs : Node → Prop) : Turn → Prop where
  | asks {printed : List Message} {log : List Log.Entry} {s : Session} :
      s.Stands limit → (∀ b, .farewell b ∉ printed) →
      ((∃ e, .problem e ∈ printed) → s = Session.fresh) →
      Sound config limit programs ⟨printed, log, .ask s⟩
  | ends {printed : List Message} {log : List Log.Entry} {b : Bool} :
      (∀ m ∈ printed, m.IsPlain) →
      Sound config limit programs ⟨printed ++ [.farewell b], log, .finished⟩
  | breaks {printed : List Message} {log : List Log.Entry} {x : Node} :
      (∀ m ∈ printed, m.IsPlain) → programs x → ¬ config.HasRoom x →
      Sound config limit programs ⟨printed, log, .broken (.format .stackExhausted)⟩

variable {programs programs' : Node → Prop}

theorem Turn.Sound.of_log {t : Turn} (h : t.Sound config limit programs)
    (log : List Log.Entry) : Turn.Sound config limit programs { t with log } := by
  cases h with
  | asks hs hbye hproblem => exact .asks hs hbye hproblem
  | ends hplain => exact .ends hplain
  | breaks hplain hx hroom => exact .breaks hplain hx hroom

theorem Turn.Sound.imp {t : Turn} (h : t.Sound config limit programs)
    (himp : ∀ x, programs x → programs' x) : t.Sound config limit programs' := by
  cases h with
  | asks hs hbye hproblem => exact .asks hs hbye hproblem
  | ends hplain => exact .ends hplain
  | breaks hplain hx hroom => exact .breaks hplain (himp _ hx) hroom

theorem Turn.Sound.after {t : Turn} {printed : List Message}
    (h : t.Sound config limit programs) (hplain : ∀ m ∈ printed, m.IsPlain) :
    (t.after printed).Sound config limit programs := by
  cases h with
  | asks hs hbye hproblem =>
    refine .asks hs (fun b hb => ?_) fun ⟨e, he⟩ => ?_
    · rcases List.mem_append.mp hb with hb | hb
      · exact hplain _ hb
      · exact hbye b hb
    · rcases List.mem_append.mp he with he | he
      · exact (hplain _ he).elim
      · exact hproblem ⟨e, he⟩
  | ends hends =>
    rw [Turn.after, ← List.append_assoc]
    exact .ends (List.forall_mem_append.mpr ⟨hplain, hends⟩)
  | breaks hbreaks hx hroom =>
    exact .breaks (List.forall_mem_append.mpr ⟨hplain, hbreaks⟩) hx hroom

/-- Trees are written out in full if that is asked for and there is room. -/
theorem dump_cases (config : Config) (x : Node) :
    let dump : Except Format.Fault (List Message) :=
      if config.verbose then (fun text => [.dumped text]) <$> Format.dump config.room x
      else .ok []
    (∃ ms, dump = .ok ms ∧ (∀ m ∈ ms, m.IsPlain) ∧
      (config.verbose = true → config.room.Holds x.debugHeight)) ∨
    dump = .error .stackExhausted ∧
      ¬ (config.verbose = true → config.room.Holds x.debugHeight) := by
  intro dump
  rw [show dump = if config.verbose then _ else _ from rfl, Format.dump, Format.enter]
  cases config.verbose with
  | false => exact .inl ⟨[], rfl, List.forall_mem_nil _, fun h => absurd h Bool.false_ne_true⟩
  | true =>
    by_cases hroom : config.room.Holds x.debugHeight
    · rw [if_pos hroom]
      exact .inl ⟨_, rfl, List.forall_mem_singleton.mpr trivial, fun _ => hroom⟩
    · rw [if_neg hroom]
      exact .inr ⟨rfl, fun h => hroom (h rfl)⟩

/-- What is printed to show a program that was read is no error and no farewell, and there is no
fault if there is room. -/
theorem display_of_read (hconfig : config.IsSound limit) {source : String} {x : Node}
    (hx : readProgram source limit = .ok x) :
    (∀ m ∈ (display config x).1, m.IsPlain) ∧
      (config.HasRoom x ∧ (display config x).2 = none ∨
        ¬ config.HasRoom x ∧ (display config x).2 = some (.format .stackExhausted)) := by
  obtain ⟨f, hf, hformat⟩ := hconfig.format
  obtain ⟨text, htext⟩ := Format.exists_render hx hf
  have hrender : Format.items? x >>= Format.renderIn config.room config.format =
      if config.room.Holds (Format.heightIn f x) then .ok text else .error .stackExhausted := by
    rw [hformat]
    exact htext config.room
  rw [display, hrender]
  rcases dump_cases config x with ⟨ms, hdump, hplain, hfull⟩ | ⟨hdump, hfull⟩
  · rw [hdump]
    by_cases hroom : config.room.Holds (Format.heightIn f x)
    · rw [if_pos hroom]
      refine ⟨List.forall_mem_append.mpr ⟨hplain, List.forall_mem_singleton.mpr trivial⟩,
        .inl ⟨⟨hfull, fun g hg => ?_⟩, rfl⟩⟩
      obtain rfl : f = g := Option.some.inj (hformat.symm.trans hg)
      exact hroom
    · rw [if_neg hroom]
      exact ⟨hplain, .inr ⟨fun h => hroom (h.text f hformat), rfl⟩⟩
  · rw [hdump]
    exact ⟨List.forall_mem_nil _, .inr ⟨fun h => hfull h.full, rfl⟩⟩

/-- A program that was read is shown, and the turn goes on, or there is no room for it. -/
theorem showThen_of_read (hconfig : config.IsSound limit) {source : String} {x : Node}
    (hx : readProgram source limit = .ok x) (t : Turn) :
    config.HasRoom x ∧ showThen config x t = t.after (display config x).1 ∨
      ¬ config.HasRoom x ∧
        showThen config x t = ⟨(display config x).1, [], .broken (.format .stackExhausted)⟩ := by
  have hcases := (display_of_read hconfig hx).2
  rw [showThen]
  generalize display config x = d at hcases
  obtain ⟨printed, fault⟩ := d
  rcases hcases with ⟨hroom, rfl⟩ | ⟨hroom, rfl⟩
  · exact .inl ⟨hroom, rfl⟩
  · exact .inr ⟨hroom, rfl⟩

theorem sound_showThen (hconfig : config.IsSound limit) {source : String} {x : Node} {t : Turn}
    (hx : readProgram source limit = .ok x) (hprogram : programs x)
    (ht : t.Sound config limit programs) : (showThen config x t).Sound config limit programs := by
  have hplain := (display_of_read hconfig hx).1
  rcases showThen_of_read hconfig hx t with ⟨-, hshow⟩ | ⟨hroom, hshow⟩
  · rw [hshow]
    exact ht.after hplain
  · rw [hshow]
    exact .breaks hplain hprogram hroom

theorem sound_parseLine (hconfig : config.IsSound limit) (kept : List String) (line : String) :
    (parseLine config kept line (Text.trim line)).Sound config limit
      fun x => readProgram (joined (kept ++ [line])) limit = .ok x := by
  have hparses := parses_parseLine hconfig.limit_eq kept line (Text.trim line)
  generalize parseLine config kept line (Text.trim line) = t at hparses
  cases hparses with
  | holds hx hclose => exact .asks (.holds hclose hx) (by simp) (by simp)
  | shows hx _ =>
    exact (sound_showThen hconfig hx hx (.asks .fresh (by simp) (by simp))).of_log _
  | waits hf hincomplete => exact .asks (.waits hf hincomplete) (by simp) (by simp)
  | fails _ _ => exact .asks .fresh (by simp) fun _ => rfl
  -- only a failure that is no syntax error breaks a session off, and reading has none
  | breaks hf hparse =>
    cases isSyntactic_of_readProgram hconfig.isLimit hf <;> exact absurd rfl (hparse _)

theorem sound_farewell (b : Bool) :
    Turn.Sound config limit programs ⟨[.farewell b], [], .finished⟩ := by
  have h : Turn.Sound config limit programs ⟨[] ++ [.farewell b], [], .finished⟩ :=
    .ends (List.forall_mem_nil _)
  exact h

theorem sound_takeLine (hconfig : config.IsSound limit) (kept : List String) (line : String) :
    (takeLine config kept line (Text.trim line)).Sound config limit
      fun x => readProgram (joined (kept ++ [line])) limit = .ok x := by
  rw [takeLine]
  split
  · exact sound_farewell false
  split
  · exact .asks .fresh (by simp) (by simp)
  · exact sound_parseLine hconfig kept line

/-- However a session stands, its turn goes well. -/
theorem sound_step (hconfig : config.IsSound limit) (hs : s.Stands limit) (e : Event) :
    (step config s e).Sound config limit fun x => s.ComesTo limit x e := by
  cases e with
  | line line =>
    have htake : (takeLine config (s.keptBefore (Text.trim line)) line
        (Text.trim line)).Sound config limit fun x => s.ComesTo limit x (.line line) :=
      (sound_takeLine hconfig _ line).imp fun _ => .typed
    rw [step]
    rw [keptBefore] at htake
    cases hheld : s.held with
    | none =>
      rw [hheld] at htake
      exact htake
    | some x =>
      rw [hheld] at htake
      obtain ⟨_, hread⟩ := hs.exists_read hheld
      dsimp only [Option.isSome, Bool.true_and] at htake ⊢
      -- a line that begins with a brace goes on with the program that is held back
      by_cases hbrace : (Text.trim line).startsWith "\x7b" = true
      · rw [if_neg (by simp [hbrace])] at htake
        rw [if_pos hbrace]
        exact htake
      · rw [if_pos (by simp [hbrace])] at htake
        rw [if_neg hbrace]
        exact sound_showThen hconfig hread (.held hheld (Bool.eq_false_iff.mpr hbrace)) htake
  | leave =>
    rw [step]
    cases hheld : s.held with
    | none => exact sound_farewell true
    | some x =>
      obtain ⟨_, hread⟩ := hs.exists_read hheld
      exact sound_showThen hconfig hread (.held hheld rfl) (sound_farewell true)

/-! ### The prompts of a session -/

/-- A moment at which a session asks for a line: what was printed since the last one, how the
session stands, and what the person is going to do. -/
structure Moment where
  printed : List Message
  session : Session
  coming : List Event

/-- The moments of the session from `s` on, with `printed` since the last prompt. -/
def moments (config : Config) (printed : List Message) (s : Session) : List Event → List Moment
  | [] => [⟨printed, s, []⟩]
  | e :: events =>
    ⟨printed, s, e :: events⟩ ::
      match (step config s e).next with
      | .ask s' => moments config (step config s e).printed s' events
      | _ => []

theorem prompts_transcriptFrom (config : Config) (printed : List Message) (s : Session)
    (events : List Event) :
    (transcriptFrom config printed s events).prompts =
      (moments config printed s events).map fun m => (m.printed, m.session.prompt) := by
  induction events generalizing printed s with
  | nil => rfl
  | cons e events ih =>
    rw [transcriptFrom, moments]
    cases hnext : (step config s e).next with
    | ask s' =>
      dsimp only
      rw [ih, List.map_cons]
    | finished => simp [transcriptFrom.close]
    | broken f => simp [transcriptFrom.close]

/-- A moment at which a session goes well. -/
structure Moment.Sound (limit : Int) (m : Moment) : Prop where
  stands : m.session.Stands limit
  noFarewell : ∀ b, .farewell b ∉ m.printed
  fresh_of_problem : (∃ e, .problem e ∈ m.printed) → m.session = fresh

/-- How a session ends: with its farewell, and nothing but programs before it; or at a program
for which there is no room. -/
inductive Transcript.Ends (config : Config) (limit : Int) (ms : List Moment) (t : Transcript) :
    Prop where
  | well {printed : List Message} {b : Bool} : t.fault = none →
      t.rest = printed ++ [.farewell b] → (∀ m ∈ printed, m.IsPlain) → Ends config limit ms t
  | breaks {m : Moment} {x : Node} : t.fault = some (.format .stackExhausted) →
      (∀ m ∈ t.rest, m.IsPlain) → m ∈ ms →
      m.session.ComesTo limit x (m.coming.headD .leave) → ¬ config.HasRoom x →
      Ends config limit ms t

/-- The last turn of a session ends it. -/
theorem ends_close {t : Turn} {e : Event}
    (h : t.Sound config limit fun x => s.ComesTo limit x e) (hends : ∀ s', t.next ≠ .ask s')
    {printed : List Message} {events : List Event} (he : events.headD .leave = e)
    {ms : List Moment} (hms : ⟨printed, s, events⟩ ∈ ms) :
    (transcriptFrom.close printed s t).Ends config limit ms := by
  cases h with
  | asks => exact absurd rfl (hends _)
  | ends hplain => exact .well rfl rfl hplain
  | breaks hplain hx hroom => exact .breaks rfl hplain hms (he ▸ hx) hroom

theorem Turn.Sound.moment {t : Turn} (h : t.Sound config limit programs)
    (hnext : t.next = .ask s') (events : List Event) :
    Moment.Sound limit ⟨t.printed, s', events⟩ := by
  cases h with
  | asks hs hbye hproblem =>
    cases hnext
    exact ⟨hs, hbye, hproblem⟩
  | ends | breaks => cases hnext

/-- A session that stands as sessions do goes well, whatever is typed. -/
theorem sound_transcriptFrom (hconfig : config.IsSound limit) {printed : List Message}
    {events : List Event} (h : Moment.Sound limit ⟨printed, s, events⟩) :
    (transcriptFrom config printed s events).Ends config limit
        (moments config printed s events) ∧
      ∀ m ∈ moments config printed s events, m.Sound limit := by
  induction events generalizing printed s with
  | nil =>
    refine ⟨ends_close (sound_step hconfig h.stands .leave) (fun _ => next_leave) rfl
      List.mem_cons_self, ?_⟩
    intro m hm
    rwa [List.mem_singleton.mp hm]
  | cons e events ih =>
    have hstep := sound_step hconfig h.stands e
    by_cases hasks : ∃ s', (step config s e).next = .ask s'
    · obtain ⟨s', hnext⟩ := hasks
      obtain ⟨hends, hmoments⟩ := ih (hstep.moment hnext events)
      rw [transcriptFrom, moments]
      simp only [hnext]
      refine ⟨?_, List.forall_mem_cons.mpr ⟨h, hmoments⟩⟩
      cases hends with
      | well hfault hrest hplain => exact .well hfault hrest hplain
      | breaks hfault hplain hm hx hroom =>
        exact .breaks hfault hplain (List.mem_cons_of_mem _ hm) hx hroom
    · have hnext := not_exists.mp hasks
      rw [transcriptFrom_of_ends hnext, moments]
      refine ⟨ends_close hstep hnext rfl List.mem_cons_self,
        List.forall_mem_cons.mpr ⟨h, fun m hm => ?_⟩⟩
      split at hm
      next hask => exact absurd hask (hnext _)
      next => cases hm

/-! ### Programs that are held back -/

/-- What was printed before is printed first. -/
theorem printed_transcriptFrom (printed : List Message) (s : Session) (events : List Event) :
    (transcriptFrom config printed s events).printed =
      printed ++ (transcriptFrom config [] s events).printed := by
  cases events with
  | nil => rw [transcriptFrom, transcriptFrom, printed_close, printed_close, List.nil_append]
  | cons e events =>
    by_cases hasks : ∃ s', (step config s e).next = .ask s'
    · obtain ⟨s', hnext⟩ := hasks
      rw [printed_of_asks hnext, printed_of_asks hnext, List.nil_append]
    · have hnext := not_exists.mp hasks
      rw [transcriptFrom_of_ends hnext, transcriptFrom_of_ends hnext, printed_close,
        printed_close, List.nil_append]

/-- If the next turn goes as from `s₀`, but something is shown first, then so does the whole
session. -/
theorem printed_of_after {shown : List Message} {s₀ : Session} {events : List Event}
    (h : step config s (events.headD .leave) =
      (step config s₀ (events.headD .leave)).after shown) :
    (transcriptFrom config [] s events).printed =
      shown ++ (transcriptFrom config [] s₀ events).printed := by
  cases events with
  | nil =>
    change step config s .leave = _ at h
    rw [transcriptFrom, transcriptFrom, printed_close, printed_close, h]
    rfl
  | cons e events =>
    change step config s e = (step config s₀ e).after shown at h
    by_cases hasks : ∃ s', (step config s₀ e).next = .ask s'
    · obtain ⟨s', hnext⟩ := hasks
      have hnext' : (step config s e).next = .ask s' := by rw [h]; exact hnext
      rw [printed_of_asks hnext, printed_of_asks hnext', printed_transcriptFrom, h,
        printed_transcriptFrom (step config s₀ e).printed, List.nil_append, List.nil_append,
        Turn.after, List.append_assoc]
    · have hnext := not_exists.mp hasks
      have hnext' : ∀ s', (step config s e).next ≠ .ask s' := by rw [h]; exact hnext
      rw [transcriptFrom_of_ends hnext, transcriptFrom_of_ends hnext', printed_close,
        printed_close, h]
      rfl

theorem printed_of_step {s₀ : Session} {events : List Event}
    (h : step config s (events.headD .leave) = step config s₀ (events.headD .leave)) :
    (transcriptFrom config [] s events).printed = (transcriptFrom config [] s₀ events).printed :=
  printed_of_after (h.trans rfl : _ = Turn.after [] _)

/-- A turn that breaks the session off is its last one. -/
theorem printed_of_broken {printed : List Message} {log : List Log.Entry} {f : Fault}
    {events : List Event} (h : step config s (events.headD .leave) = ⟨printed, log, .broken f⟩) :
    (transcriptFrom config [] s events).printed = printed := by
  cases events with
  | nil =>
    change step config s .leave = _ at h
    rw [transcriptFrom, printed_close, h]
    rfl
  | cons e events =>
    change step config s e = _ at h
    have hnext : ∀ s', (step config s e).next ≠ .ask s' := by
      rw [h]
      intro s' hs'
      cases hs'
    rw [transcriptFrom_of_ends hnext, printed_close, h]
    rfl

/-- A session goes on with a program that is held back as if it had kept its lines only; or it
shows the program and then goes on as if it had just begun, if there is room for it. -/
theorem printed_of_held (hconfig : config.IsSound limit) (hs : s.Stands limit) {x : Node}
    (hx : s.held = some x) (events : List Event) :
    (transcriptFrom config [] s events).printed =
      if goesOn events then (transcriptFrom config [] ⟨s.lines, none⟩ events).printed
      else (display config x).1 ++
        if (display config x).2 = none then (transcriptFrom config [] fresh events).printed
        else [] := by
  obtain ⟨_, hread⟩ := hs.exists_read hx
  by_cases hgoes : goesOn events = true
  · rw [if_pos hgoes]
    refine printed_of_step ?_
    cases events with
    | nil => cases hgoes
    | cons e events =>
      cases e with
      | leave => cases hgoes
      | line line =>
        change (Text.trim line).startsWith "\x7b" = true at hgoes
        change step config s (.line line) = step config ⟨s.lines, none⟩ (.line line)
        rw [step, step, hx]
        dsimp only
        rw [if_pos hgoes]
  · rw [if_neg hgoes]
    -- the program is shown first, whatever the next turn does then
    have hstep : step config s (events.headD .leave) =
        showThen config x (step config fresh (events.headD .leave)) := by
      cases events with
      | nil =>
        rw [List.headD, step, hx]
        rfl
      | cons e events =>
        cases e with
        | leave =>
          rw [List.headD, step, hx]
          rfl
        | line line =>
          change ¬ (Text.trim line).startsWith "\x7b" = true at hgoes
          rw [List.headD, step, hx]
          dsimp only
          rw [if_neg hgoes]
          rfl
    have hfault := (display_of_read hconfig hread).2
    rcases showThen_of_read hconfig hread (step config fresh (events.headD .leave)) with
      ⟨hroom, hshow⟩ | ⟨hroom, hshow⟩
    · rw [if_pos ((hfault.resolve_right fun h => h.1 hroom).2)]
      exact printed_of_after (hstep.trans hshow)
    · have hbroken := (hfault.resolve_left fun h => hroom h.1).2
      rw [if_neg (by rw [hbroken]; exact Option.some_ne_none _), List.append_nil]
      exact printed_of_broken (hstep.trans hshow)

/-! ### Whole sessions -/

/-- **How a session goes.**  Whatever is typed, what a session prints ends with its one farewell,
unless it comes to show a program for which there is no room: then it breaks off without one.
At each prompt it stands in exactly one of the three ways; if an error was reported since the last
one, as at its start.  A program that is held back there is shown at most once: the session goes
on without it, or shows it and begins anew. -/
theorem transcript_stands (hconfig : config.IsSound limit) (events : List Event) :
    let t := transcript config events
    let ms := moments config [.greeting] fresh events
    ((t.fault = none ∧ ∃ printed b, t.printed = printed ++ [.farewell b] ∧
          ∀ b', .farewell b' ∉ printed) ∨
        (t.fault = some (.format .stackExhausted) ∧ (∀ b, .farewell b ∉ t.printed) ∧
          ∃ m ∈ ms, ∃ x, m.session.ComesTo limit x (m.coming.headD .leave) ∧
            ¬ config.HasRoom x)) ∧
      (∀ e, .problem e ∉ t.rest) ∧
      t.prompts = ms.map (fun m => (m.printed, m.session.prompt)) ∧
      ∀ m ∈ ms,
        (∃! k, Standing.On limit m.session k) ∧
        (∀ e, .problem e ∈ m.printed → m.session = fresh) ∧
        ∀ x, m.session.held = some x →
          ((display config x).2 = none ↔ config.HasRoom x) ∧
          (transcriptFrom config [] m.session m.coming).printed =
            if goesOn m.coming then
              (transcriptFrom config [] ⟨m.session.lines, none⟩ m.coming).printed
            else (display config x).1 ++
              if (display config x).2 = none then
                (transcriptFrom config [] fresh m.coming).printed
              else [] := by
  intro t ms
  have hstart : Moment.Sound limit ⟨[.greeting], fresh, events⟩ := ⟨.fresh, by simp, by simp⟩
  have hprompts : t.prompts = ms.map (fun m => (m.printed, m.session.prompt)) :=
    prompts_transcriptFrom config [.greeting] fresh events
  obtain ⟨hends, hmoments⟩ := sound_transcriptFrom hconfig hstart
  change t.Ends config limit ms at hends
  -- no farewell stands before a prompt
  have hbefore : ∀ b, .farewell b ∉ t.prompts.flatMap Prod.fst := by
    intro b hb
    rw [hprompts, List.flatMap_map] at hb
    obtain ⟨m, hm, hbm⟩ := List.mem_flatMap.mp hb
    exact (hmoments m hm).noFarewell b hbm
  refine ⟨?_, fun e he => ?_, hprompts, fun m hm => ?_⟩
  · cases hends with
    | @well printed b hfault hrest hplain =>
      refine .inl ⟨hfault, t.prompts.flatMap Prod.fst ++ printed, b, ?_, fun b' hb' => ?_⟩
      · rw [Transcript.printed, hrest, ← List.append_assoc]
      · rcases List.mem_append.mp hb' with hb' | hb'
        · exact hbefore b' hb'
        · exact hplain _ hb'
    | breaks hfault hplain hm hx hroom =>
      refine .inr ⟨hfault, fun b hb => ?_, _, hm, _, hx, hroom⟩
      rcases List.mem_append.mp hb with hb | hb
      · exact hbefore b hb
      · exact hplain _ hb
  · cases hends with
    | well hfault hrest hplain =>
      rw [hrest] at he
      rcases List.mem_append.mp he with he | he
      · exact hplain _ he
      · cases List.mem_singleton.mp he
    | breaks _ hplain _ _ _ => exact hplain _ he
  · have hsound := hmoments m hm
    refine ⟨hsound.stands.existsUnique_standing, fun e he => hsound.fresh_of_problem ⟨e, he⟩,
      fun x hx => ⟨?_, printed_of_held hconfig hsound.stands hx m.coming⟩⟩
    obtain ⟨_, hread⟩ := hsound.stands.exists_read hx
    rcases (display_of_read hconfig hread).2 with ⟨hroom, hnone⟩ | ⟨hroom, hsome⟩
    · exact iff_of_true hnone hroom
    · exact iff_of_false (by rw [hsome]; exact Option.some_ne_none _) hroom

/-- A call is held back, an error follows it, and the person leaves in the middle of a list. -/
theorem transcript_stands_interrupt :
    let config : Config := ⟨some "json", true, some 100, .usual⟩
    let events : List Event := [.line "f()", .line "]", .line "x = [", .leave, .line "quit"]
    config.IsSound 100 ∧ (transcript config events).fault = none ∧
      (∃ printed b, (transcript config events).printed = printed ++ [.farewell b] ∧
        ∀ b', .farewell b' ∉ printed) ∧
      ∀ m ∈ moments config [.greeting] fresh events, ∃! k, Standing.On 100 m.session k := by
  intro config events
  have hconfig : config.IsSound 100 := ⟨rfl, by decide, "json", by decide, rfl⟩
  have hfault : (transcript config events).fault = none := by decide +kernel
  obtain ⟨hends, -, -, hmoments⟩ := transcript_stands hconfig events
  rcases hends with ⟨-, hbye⟩ | ⟨hbroken, -⟩
  · exact ⟨hconfig, hfault, hbye, fun m hm => (hmoments m hm).1⟩
  · cases hfault.symm.trans hbroken

/-- A chain of 600 operators breaks the session off, which says no farewell. -/
theorem transcript_stands_chain :
    let config : Config := ⟨some "gn", false, some 100, .usual⟩
    let events : List Event := [.line (Format.assignedText 600), .line "quit"]
    config.IsSound 100 ∧
      (transcript config events).fault = some (.format .stackExhausted) ∧
      (transcript config events).printed = [.greeting] := by
  intro config events
  have hroom : ¬ config.room.Holds (2 * 600 + 4) := by decide
  obtain ⟨-, log, htranscript⟩ :=
    exists_transcript_chain rfl rfl rfl (by decide : IsLimit 100) hroom [.line "quit"]
  change transcript config events = _ at htranscript
  rw [htranscript]
  exact ⟨⟨rfl, by decide, "gn", by decide, rfl⟩, rfl, rfl⟩

end GnLang.Session
