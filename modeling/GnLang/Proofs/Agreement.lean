/-
An interactive session agrees with reading its lines at once.

The lines that a session keeps leave it in portions, each a program that is shown
(`Session.delivers_step`).  Programs can be put one after the other, and so can their
texts.  So what a session has shown when it ends is the canonical text of all the lines it
has kept, read as one program: `transcript_agrees`.  Only a program for which there is no room
breaks the session off (`transcript_agrees_chain`), and what it has shown then is the canonical
text of the lines before that program.
-/
import GnLang.Proofs.Concatenation
import GnLang.Proofs.Session.Turns

namespace GnLang.Session

open Format

/-! ### What can be seen of a session -/

/-- The program that a message shows, if it shows one. -/
def Message.shown? : Message → Option String
  | .shown text => some text
  | _ => none

/-- The programs that messages show, one after the other. -/
def shownText (messages : List Message) : String := String.join (messages.filterMap Message.shown?)

/-- The session that shows programs in their canonical text and nothing else. -/
def canonical (limit : Int) (room : Room) : Config := ⟨some "gn", false, some limit, room⟩

/-- What a line adds to those that are kept: itself, unless none are kept and it is blank or
a word that ends the session. -/
def addition (kept : List String) (line : String) : List String :=
  if kept.isEmpty && ["", "quit", "exit"].contains (Text.trim line) then [] else [line]

/-- What an event adds to the lines that are kept. -/
def added (s : Session) : Event → List String
  | .line line => addition (s.keptBefore (Text.trim line)) line
  | .leave => []

variable (config : Config)

/-- All lines that are added from `s` on, until the session ends. -/
def keptLines (s : Session) : List Event → List String
  | [] => []
  | e :: events => added s e ++
    match (step config s e).next with
    | .ask s' => keptLines s' events
    | _ => []

/-- The session at its last prompt. -/
def lastPrompt (s : Session) : List Event → Session
  | [] => s
  | e :: events =>
    match (step config s e).next with
    | .ask s' => lastPrompt s' events
    | _ => s

/-- Lines are kept that are no whole program. -/
def IsPending (s : Session) : Prop := s.lines ≠ [] ∧ s.held = none

variable {config} {limit : Int} {room : Room} {s s' : Session} {lines lines' : List String}
  {text text' : String}

theorem keptLines_of_asks {e : Event} (h : (step config s e).next = .ask s')
    (events : List Event) :
    keptLines config s (e :: events) = added s e ++ keptLines config s' events := by
  rw [keptLines, h]

theorem keptLines_of_ends {e : Event} (h : ∀ s', (step config s e).next ≠ .ask s')
    (events : List Event) : keptLines config s (e :: events) = added s e := by
  rw [keptLines]
  split
  · exact absurd ‹_› (h _)
  · exact List.append_nil _

theorem lastPrompt_of_asks {e : Event} (h : (step config s e).next = .ask s')
    (events : List Event) :
    lastPrompt config s (e :: events) = lastPrompt config s' events := by
  rw [lastPrompt, h]

theorem lastPrompt_of_ends {e : Event} (h : ∀ s', (step config s e).next ≠ .ask s')
    (events : List Event) : lastPrompt config s (e :: events) = s := by
  rw [lastPrompt]
  split
  · exact absurd ‹_› (h _)
  · rfl

theorem shownText_append (ms ms' : List Message) :
    shownText (ms ++ ms') = shownText ms ++ shownText ms' := by
  rw [shownText, List.filterMap_append, String.join_append]
  rfl

/-! ### Lines and what was shown of them -/

/-- The text that was shown is that of the lines. -/
inductive Agrees (limit : Int) (room : Room) : List String → String → Prop where
  | nothing : Agrees limit room [] ""
  | program {lines : List String} {x : Node} {text : String} :
      lines ≠ [] → readProgram (joined lines) limit = .ok x → formattedIn room x = .ok text →
      Agrees limit room lines text

theorem Agrees.append (h : Agrees limit room lines text) (h' : Agrees limit room lines' text') :
    Agrees limit room (lines ++ lines') (text ++ text') := by
  cases h with
  | nothing => rwa [List.nil_append, String.empty_append]
  | program hlines hx htext =>
    cases h' with
    | nothing =>
      rw [List.append_nil, String.append_empty]
      exact .program hlines hx htext
    | program hlines' hx' htext' =>
      obtain ⟨z, hz, hzs⟩ := exists_formatted_append hx hx' htext htext'
      rw [joined, joined, ← String.intercalate_append_of_ne_nil hlines hlines'] at hz
      exact .program (by simp [hlines]) hz hzs

/-- Some of the lines are a program for which there is no room, and the text that was shown is
that of the lines before it. -/
inductive Stops (limit : Int) (room : Room) (text : String) : List String → Prop where
  | program {gone portion rest : List String} {x : Node} :
      Agrees limit room gone text → readProgram (joined portion) limit = .ok x →
      ¬ room.Holds (heightIn "gn" x) → Stops limit room text (gone ++ (portion ++ rest))

theorem Stops.after (h : Agrees limit room lines text) (h' : Stops limit room text' lines') :
    Stops limit room (text ++ text') (lines ++ lines') := by
  cases h' with
  | program hgone hx hroom =>
    rw [← List.append_assoc]
    exact .program (h.append hgone) hx hroom

/-- Of all lines there were, those that have left the session agree with what the turn
shows; the others stay in it, unless there is no room for a program that they are. -/
inductive Delivers (limit : Int) (room : Room) (lines : List String) (t : Turn) : Prop where
  | asks {gone : List String} {s' : Session} :
      t.next = .ask s' → lines = gone ++ s'.lines →
      Agrees limit room gone (shownText t.printed) → Delivers limit room lines t
  | ends : t.next = .finished → Agrees limit room lines (shownText t.printed) →
      Delivers limit room lines t
  | breaks : t.next = .broken (.format .stackExhausted) →
      Stops limit room (shownText t.printed) lines → Delivers limit room lines t

/-- No parse fails in the turn but for want of more lines. -/
structure Turn.IsClean (t : Turn) : Prop where
  noProblem : ∀ e, .problem e ∉ t.printed
  noFault : ∀ f, t.next ≠ .broken (.parse f)

theorem Turn.IsClean.of_after {t : Turn} {ms : List Message} (h : (t.after ms).IsClean) :
    t.IsClean :=
  ⟨fun e he => h.noProblem e (List.mem_append_right _ he), h.noFault⟩

/-- A program that was read is shown if there is room for it. -/
theorem showThen_canonical {source : String} {x : Node} (hx : readProgram source limit = .ok x)
    (t : Turn) :
    (∃ text, formattedIn room x = .ok text ∧
      showThen (canonical limit room) x t = t.after [.shown text]) ∨
    ¬ room.Holds (heightIn "gn" x) ∧
      showThen (canonical limit room) x t = ⟨[], [], .broken (.format .stackExhausted)⟩ := by
  obtain ⟨text, htext⟩ := exists_formatted hx
  by_cases hroom : room.Holds (heightIn "gn" x)
  · have hrender : items? x >>= renderIn (canonical limit room).room
        (canonical limit room).format = .ok text := (htext room).trans (if_pos hroom)
    refine .inl ⟨text, hrender, ?_⟩
    rw [showThen, display, hrender]
    rfl
  · have hrender : items? x >>= renderIn (canonical limit room).room
        (canonical limit room).format = .error .stackExhausted := (htext room).trans (if_neg hroom)
    refine .inr ⟨hroom, ?_⟩
    rw [showThen, display, hrender]
    rfl

/-- A program that is shown first delivers its lines. -/
theorem Delivers.after {x : Node} {t : Turn} (hlines : lines ≠ [])
    (hx : readProgram (joined lines) limit = .ok x) (htext : formattedIn room x = .ok text)
    (h : Delivers limit room lines' t) :
    Delivers limit room (lines ++ lines') (t.after [.shown text]) := by
  have hagrees : Agrees limit room lines text := .program hlines hx htext
  have hshown : shownText (t.after [.shown text]).printed = text ++ shownText t.printed := by
    rw [Turn.after, shownText_append]
    simp [shownText, Message.shown?]
  cases h with
  | @asks gone s' hnext hall hgone =>
    have hall' : lines ++ lines' = (lines ++ gone) ++ s'.lines := by
      rw [hall, List.append_assoc]
    refine .asks hnext hall' ?_
    rw [hshown]
    exact hagrees.append hgone
  | ends hnext hgone =>
    refine .ends hnext ?_
    rw [hshown]
    exact hagrees.append hgone
  | breaks hnext hstops =>
    refine .breaks hnext ?_
    rw [hshown]
    exact hstops.after hagrees

/-- A program delivers its lines when it comes to be shown, whether there is room for it or
not. -/
theorem delivers_showThen {x : Node} {t : Turn} (hlines : lines ≠ [])
    (hx : readProgram (joined lines) limit = .ok x)
    (hclean : (showThen (canonical limit room) x t).IsClean)
    (h : t.IsClean → Delivers limit room lines' t) :
    Delivers limit room (lines ++ lines') (showThen (canonical limit room) x t) := by
  rcases showThen_canonical hx t with ⟨text, htext, hshow⟩ | ⟨hroom, hshow⟩
  · rw [hshow] at hclean ⊢
    exact (h hclean.of_after).after hlines hx htext
  · rw [hshow]
    have hstops : Stops limit room "" ([] ++ (lines ++ lines')) := .program .nothing hx hroom
    exact .breaks rfl hstops

/-! ### Steps -/

theorem delivers_parseLine {kept : List String} {line command : String}
    (hclean : (parseLine (canonical limit room) kept line command).IsClean) :
    Delivers limit room (kept ++ [line]) (parseLine (canonical limit room) kept line command) := by
  have hlimit : (canonical limit room).limit = some limit := rfl
  have hparses := parses_parseLine hlimit kept line command
  generalize parseLine (canonical limit room) kept line command = t at hclean hparses
  cases hparses with
  | holds _ _ => exact .asks rfl rfl .nothing
  | @shows x log hx _ =>
    have hasks : Delivers limit room [] ⟨[], [], .ask fresh⟩ := .asks rfl rfl .nothing
    have hshown := delivers_showThen (by simp) hx ⟨hclean.noProblem, hclean.noFault⟩
      fun _ => hasks
    rw [List.append_nil] at hshown
    cases hshown with
    | asks hnext hall hgone => exact .asks hnext hall hgone
    | ends hnext hgone => exact .ends hnext hgone
    | breaks hnext hstops => exact .breaks hnext hstops
  | waits _ _ => exact .asks rfl rfl .nothing
  | fails _ _ => exact absurd List.mem_cons_self (hclean.noProblem _)
  | breaks _ _ => exact absurd rfl (hclean.noFault _)

theorem delivers_takeLine {kept : List String} {line : String}
    (hclean : (takeLine (canonical limit room) kept line (Text.trim line)).IsClean) :
    Delivers limit room (kept ++ addition kept line)
      (takeLine (canonical limit room) kept line (Text.trim line)) := by
  rw [takeLine] at hclean ⊢
  split
  case isTrue hquit =>
    simp only [Bool.and_eq_true, Bool.or_eq_true, List.isEmpty_iff, beq_iff_eq] at hquit
    obtain ⟨rfl, hword⟩ := hquit
    have hadds : addition [] line = [] := by
      rcases hword with hword | hword <;> simp [addition, hword]
    rw [hadds]
    exact .ends rfl .nothing
  case isFalse hquit =>
    rw [if_neg hquit] at hclean
    split
    case isTrue hblank =>
      simp only [Bool.and_eq_true, List.isEmpty_iff, String.isEmpty_iff] at hblank
      obtain ⟨rfl, hword⟩ := hblank
      have hadds : addition [] line = [] := by simp [addition, hword]
      rw [hadds]
      exact .asks rfl rfl .nothing
    case isFalse hblank =>
      rw [if_neg hblank] at hclean
      have hadds : addition kept line = [line] := by
        refine if_neg ?_
        simp only [Bool.and_eq_true, Bool.or_eq_true, List.isEmpty_iff, beq_iff_eq,
          String.isEmpty_iff] at hquit hblank
        simp only [Bool.and_eq_true, List.isEmpty_iff, List.contains_iff_mem, List.mem_cons,
          List.not_mem_nil, or_false]
        rintro ⟨hkept, hword | hword | hword⟩
        · exact hblank ⟨hkept, hword⟩
        · exact hquit ⟨hkept, .inl hword⟩
        · exact hquit ⟨hkept, .inr hword⟩
      rw [hadds]
      exact delivers_parseLine hclean

/-- However a session stands, a step delivers the lines that were kept and what is added to
them. -/
theorem delivers_step (hs : s.Stands limit) {e : Event}
    (hclean : (step (canonical limit room) s e).IsClean) (hleave : e = .leave → ¬ s.IsPending) :
    Delivers limit room (s.lines ++ added s e) (step (canonical limit room) s e) := by
  cases e with
  | line line =>
    cases hs with
    | fresh => exact delivers_takeLine hclean
    | waits _ _ => exact delivers_takeLine hclean
    | @holds kept last x _ hx =>
      rw [step] at hclean ⊢
      rw [added, keptBefore]
      dsimp only [Option.isSome, Bool.true_and] at hclean ⊢
      by_cases hbrace : (Text.trim line).startsWith "\x7b" = true
      · -- the line goes on with the program
        rw [if_pos hbrace] at hclean ⊢
        rw [if_neg (by simp [hbrace])]
        exact delivers_takeLine hclean
      · rw [if_neg hbrace] at hclean ⊢
        rw [if_pos (by simp [hbrace])]
        exact delivers_showThen (by simp) hx hclean delivers_takeLine
  | leave =>
    cases hs with
    | fresh => exact .ends rfl .nothing
    | waits _ _ => exact absurd ⟨by simp, rfl⟩ (hleave rfl)
    | holds _ hx =>
      rw [step] at hclean ⊢
      exact delivers_showThen (by simp) hx hclean fun _ => .ends rfl .nothing

/-! ### Whole sessions -/

/-- No parse fails in the session but for want of more lines. -/
structure Transcript.IsClean (t : Transcript) : Prop where
  noProblem : ∀ e, .problem e ∉ t.printed
  noFault : ∀ f, t.fault ≠ some (.parse f)

/-- What a session shows after `printed` is the text of the lines, unless there is no room for
some of them. -/
def Transcript.Shows (limit : Int) (room : Room) (printed : List Message) (lines : List String)
    (t : Transcript) : Prop :=
  ∃ text, shownText t.printed = shownText printed ++ text ∧
    (t.fault = none ∧ Agrees limit room lines text ∨
      t.fault = some (.format .stackExhausted) ∧ Stops limit room text lines)

theorem Delivers.shows_close {t : Turn} (h : Delivers limit room lines t)
    (hends : ∀ s', t.next ≠ .ask s') (printed : List Message) (s : Session) :
    (transcriptFrom.close printed s t).Shows limit room printed lines := by
  refine ⟨shownText t.printed, by rw [printed_close, shownText_append], ?_⟩
  cases h with
  | asks hnext _ _ => exact absurd hnext (hends _)
  | ends hnext hagrees =>
    refine .inl ⟨?_, hagrees⟩
    rw [transcriptFrom.close, hnext]
  | breaks hnext hstops =>
    refine .inr ⟨?_, hstops⟩
    rw [transcriptFrom.close, hnext]

theorem Turn.IsClean.of_close {t : Turn} {printed : List Message}
    (h : (transcriptFrom.close printed s t).IsClean) : t.IsClean := by
  refine ⟨fun e he => h.noProblem e ?_, fun f hf => h.noFault f ?_⟩
  · rw [printed_close]
    exact List.mem_append_right _ he
  · rw [transcriptFrom.close, hf]

theorem Transcript.IsClean.of_asks {e : Event} {printed : List Message} {events : List Event}
    (hnext : (step config s e).next = .ask s')
    (h : (transcriptFrom config printed s (e :: events)).IsClean) :
    (step config s e).IsClean ∧
      (transcriptFrom config (step config s e).printed s' events).IsClean := by
  have hthen : (transcriptFrom config (step config s e).printed s' events).IsClean := by
    refine ⟨fun f hf => h.noProblem f ?_, fun f hf => h.noFault f ?_⟩
    · rw [printed_of_asks hnext]
      exact List.mem_append_right _ hf
    · rw [fault_of_asks hnext]
      exact hf
  exact ⟨⟨fun f hf => hthen.noProblem f (mem_printed hf events), by simp [hnext]⟩, hthen⟩

theorem Delivers.shows_asks {e : Event} {printed : List Message} {events : List Event}
    (h : Delivers limit room lines (step config s e)) (hnext : (step config s e).next = .ask s')
    (hthen : (transcriptFrom config (step config s e).printed s' events).Shows limit room
      (step config s e).printed (s'.lines ++ lines')) :
    (transcriptFrom config printed s (e :: events)).Shows limit room printed
      (lines ++ lines') := by
  obtain ⟨text, htext, hthen⟩ := hthen
  cases h with
  | @asks gone _ hnext' hall hgone =>
    cases hnext.symm.trans hnext'
    have hlines : lines ++ lines' = gone ++ (s'.lines ++ lines') := by
      rw [hall, List.append_assoc]
    refine ⟨_, by rw [printed_of_asks hnext, shownText_append, htext], ?_⟩
    rw [fault_of_asks hnext, hlines]
    exact hthen.imp (fun h => ⟨h.1, hgone.append h.2⟩) fun h => ⟨h.1, h.2.after hgone⟩
  | ends hends _ => cases hnext.symm.trans hends
  | breaks hbreaks _ => cases hnext.symm.trans hbreaks

/-- However a session stands, what it shows until it ends is the text of the lines it keeps
and of those that it still adds to them. -/
theorem shows_transcriptFrom {events : List Event} {printed : List Message}
    (hs : s.Stands limit)
    (hclean : (transcriptFrom (canonical limit room) printed s events).IsClean)
    (hpending : ¬ (lastPrompt (canonical limit room) s events).IsPending) :
    (transcriptFrom (canonical limit room) printed s events).Shows limit room printed
      (s.lines ++ keptLines (canonical limit room) s events) := by
  induction events generalizing printed s with
  | nil =>
    rw [transcriptFrom] at hclean ⊢
    have hdelivers := delivers_step (e := .leave) hs (.of_close hclean) fun _ => hpending
    exact hdelivers.shows_close (fun _ => next_leave) printed s
  | cons e events ih =>
    by_cases hasks : ∃ s', (step (canonical limit room) s e).next = .ask s'
    · obtain ⟨s', hnext⟩ := hasks
      obtain ⟨hturn, hthen⟩ := hclean.of_asks hnext
      have hleave : e = .leave → ¬ s.IsPending := by
        rintro rfl
        exact absurd hnext next_leave
      rw [lastPrompt_of_asks hnext] at hpending
      rw [keptLines_of_asks hnext, ← List.append_assoc]
      exact (delivers_step hs hturn hleave).shows_asks hnext
        (ih (stands_of_step rfl hnext) hthen hpending)
    · have hends := not_exists.mp hasks
      rw [transcriptFrom_of_ends hends] at hclean ⊢
      rw [lastPrompt_of_ends hends] at hpending
      rw [keptLines_of_ends hends]
      exact (delivers_step hs (.of_close hclean) fun _ => hpending).shows_close hends printed s

/-- A session in which no parse fails, but for want of lines that follow, and which does not
end while it waits for some, has shown the canonical text of all the lines it kept, read as
one program.  Or it broke off: then there was no room for a program that some of its lines are,
and it has shown the canonical text of the lines before it.  The limit must be one that can be
kept; a session finds out as soon as it keeps a line. -/
theorem transcript_agrees {events : List Event}
    (hlimit : IsLimit limit ∨ keptLines (canonical limit room) fresh events ≠ [])
    (hclean : (transcript (canonical limit room) events).IsClean)
    (hpending : ¬ (lastPrompt (canonical limit room) fresh events).IsPending) :
    let kept := keptLines (canonical limit room) fresh events
    let t := transcript (canonical limit room) events
    (t.fault = none ∧ ∃ x, readProgram (joined kept) limit = .ok x ∧
        formattedIn room x = .ok (shownText t.printed)) ∨
      (t.fault = some (.format .stackExhausted) ∧
        Stops limit room (shownText t.printed) kept) := by
  intro kept t
  obtain ⟨text, htext, hshows⟩ := shows_transcriptFrom .fresh hclean hpending
  have hshown : shownText t.printed = text := htext.trans (String.empty_append)
  rw [hshown]
  change t.fault = none ∧ Agrees limit room kept text ∨ _ at hshows
  refine hshows.imp (fun h => ⟨h.1, ?_⟩) id
  have hagrees := h.2
  change IsLimit limit ∨ kept ≠ [] at hlimit
  generalize kept = lines at hlimit hagrees
  cases hagrees with
  | nothing => exact exists_formatted_empty (hlimit.resolve_right (not_not_intro rfl)) room
  | program _ hx hxs => exact ⟨_, hx, hxs⟩

/-- A call gets the body on the lines after it, and a call that is held back is shown when
the session ends. -/
theorem transcript_agrees_body :
    let config := canonical 2 .usual
    let events : List Event := ["f()", "\x7b", "\x7d", "", "g()", "quit"].map .line
    IsLimit 2 ∧ (transcript config events).IsClean ∧ (transcript config events).fault = none ∧
      ∃ x, readProgram (joined ["f()", "\x7b", "\x7d", "g()"]) 2 = .ok x ∧
        formattedIn .usual x = .ok "f() \x7b\n\x7d\ng()\n" := by
  intro config events
  have hlimit : IsLimit 2 := by decide
  have hprinted : (transcript config events).printed =
      [.greeting, .shown "f() \x7b\n\x7d\n", .shown "g()\n", .farewell false] := by
    decide +kernel
  have hfault : (transcript config events).fault = none := by decide +kernel
  have hkept : keptLines config fresh events = ["f()", "\x7b", "\x7d", "g()"] := by
    decide +kernel
  have hheld : (lastPrompt config fresh events).held.isSome = true := by decide +kernel
  have hclean : (transcript config events).IsClean := by
    constructor
    · rw [hprinted]
      simp
    · rw [hfault]
      simp
  have hpending : ¬ (lastPrompt config fresh events).IsPending := by
    rintro ⟨-, hnone⟩
    rw [hnone] at hheld
    cases hheld
  rcases transcript_agrees (.inl hlimit) hclean hpending with ⟨-, x, hx, hxs⟩ | ⟨hbroken, -⟩
  · rw [hkept] at hx
    rw [hprinted] at hxs
    exact ⟨hlimit, hclean, hfault, x, hx, hxs⟩
  · cases hfault.symm.trans hbroken

theorem added_assignedText (n : Nat) :
    added fresh (.line (assignedText n)) = [assignedText n] := by
  have hquit : assignedText n ≠ "quit" := assignedText_ne (by decide)
  have hexit : assignedText n ≠ "exit" := assignedText_ne (by decide)
  have hblank : assignedText n ≠ "" := assignedText_ne (by decide)
  refine if_neg ?_
  simp [keptBefore, fresh, trim_assignedText, hquit, hexit, hblank]

/-- A chain of 600 operators breaks the session off, though it parses and no lines are pending:
nothing is shown of it, and there is no room for its canonical text either. -/
theorem transcript_agrees_chain :
    let config := canonical 100 .usual
    let events : List Event := [.line (assignedText 600)]
    IsLimit 100 ∧ (transcript config events).IsClean ∧
      ¬ (lastPrompt config fresh events).IsPending ∧
      (transcript config events).fault = some (.format .stackExhausted) ∧
      shownText (transcript config events).printed = "" ∧
      ∃ x, readProgram (joined (keptLines config fresh events)) 100 = .ok x ∧
        formattedIn .usual x = .error .stackExhausted := by
  intro config events
  have hlimit : IsLimit 100 := by decide
  have hroom : ¬ config.room.Holds (2 * 600 + 4) := by decide
  obtain ⟨hends, log, htranscript⟩ := exists_transcript_chain rfl rfl rfl hlimit hroom []
  obtain ⟨x, hread, -, hstop⟩ := exists_chain_without_room hlimit hroom
  have hlast : lastPrompt config fresh events = fresh := lastPrompt_of_ends hends []
  have hkept : keptLines config fresh events = [assignedText 600] :=
    (keptLines_of_ends hends []).trans (added_assignedText 600)
  have hjoined : joined [assignedText 600] = assignedText 600 := String.intercalate_singleton
  change transcript config events = _ at htranscript
  rw [htranscript, hlast, hkept, hjoined]
  exact ⟨hlimit, ⟨by simp [Transcript.printed], by simp⟩, fun h => h.1 rfl, rfl, rfl, x, hread,
    hstop⟩

end GnLang.Session
