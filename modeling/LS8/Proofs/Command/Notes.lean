import LS8.Command

/-!
# Notes and the log

Among the notes of a command are the events of its log, which only show if the log writes them
down.

- `Log.Quiet`: a log that keeps to warnings, as it does without a filter
  (`Logger.quiet_of_unset`);
- `Calm`: notes with no event that is a warning, so that a quiet log adds nothing to the notes of
  the command itself (`Note.join_of_quiet`);
- `own`: these notes. Their text is that of all notes with a silent log (`Note.join_silent`).
-/

namespace LS8

/-- The log keeps to warnings: it writes nothing down of any other event. -/
def Log.Quiet (log : Log) : Prop :=
  ∀ n event, event.level ≠ .warn → log n event = ""

/-- The logger treats the filter `warn` as it should: only warnings pass it. -/
def Logger.KeepsToWarnings (logger : Logger) : Prop :=
  (logger.log defaultFilter).Quiet

/-- Without a filter the log keeps to warnings. -/
theorem Logger.quiet_of_unset {logger : Logger} {e : Environment} (h : logger.KeepsToWarnings)
    (hunset : e.text? "LS8_LOG" = none) : (logger.logIn e).Quiet := by
  rw [logIn, filterIn, hunset]
  exact h

namespace Command

variable {log : Log} {notes more : List Note}

/-- No event in the notes is a warning. -/
def Calm (notes : List Note) : Prop :=
  ∀ event, Note.logged event ∈ notes → event.level ≠ .warn

/-- The notes of the command itself. -/
def own (notes : List Note) : List Note :=
  notes.filter Note.isOwn

theorem Calm.append (h : Calm notes) (hmore : Calm more) : Calm (notes ++ more) := by
  intro event hmem
  rcases List.mem_append.1 hmem with hmem | hmem
  · exact h event hmem
  · exact hmore event hmem

theorem calm_nil : Calm [] := nofun

/-- Notes of the command itself tell the log nothing. -/
theorem calm_of_isOwn (h : ∀ note ∈ notes, note.isOwn = true) : Calm notes :=
  fun _ hmem => absurd (h _ hmem) Bool.false_ne_true

theorem calm_logged {events : List LogEvent} (h : ∀ event ∈ events, event.level ≠ .warn) :
    Calm (events.map .logged) := by
  intro event hmem
  obtain ⟨_, hevent, heq⟩ := List.mem_map.1 hmem
  cases heq
  exact h event hevent

theorem own_of_isOwn (h : ∀ note ∈ notes, note.isOwn = true) : own notes = notes :=
  List.filter_eq_self.2 h

theorem own_append (notes more : List Note) : own (notes ++ more) = own notes ++ own more :=
  List.filter_append ..

theorem own_logged (events : List LogEvent) : own (events.map .logged) = [] := by
  rw [own, List.filter_eq_nil_iff]
  intro note hmem
  obtain ⟨event, -, rfl⟩ := List.mem_map.1 hmem
  exact Bool.false_ne_true

namespace Note

theorem join_cons (log : Log) (note : Note) (notes : List Note) :
    join log (note :: notes) = note.text log 0 ++ join (fun n => log (n + 1)) notes := by
  have hshift : (fun n => text log (n + 1)) = text fun n => log (n + 1) := by
    funext n note
    cases note <;> rfl
  rw [join, List.mapIdx_cons, String.join_cons, hshift, join]

/-- A quiet log adds nothing to calm notes. -/
theorem join_of_quiet (hlog : log.Quiet) (hcalm : Calm notes) :
    join log notes = join .silent notes := by
  induction notes generalizing log with
  | nil => rfl
  | cons note notes ih =>
    have htext : note.text log 0 = note.text .silent 0 := by
      cases note with
      | logged event => exact hlog 0 event (hcalm event List.mem_cons_self)
      | _ => rfl
    rw [join_cons, join_cons, htext, ih (fun n => hlog (n + 1)) fun event hmem =>
      hcalm event (List.mem_cons_of_mem note hmem)]
    rfl

/-- With a silent log only the notes of the command itself show. -/
theorem join_silent (notes : List Note) :
    join .silent notes = String.join ((own notes).map (text .silent 0)) := by
  induction notes with
  | nil => rfl
  | cons note notes ih =>
    rw [join_cons]
    cases note with
    | logged event => exact String.empty_append.trans ih
    | traced line => exact congrArg (_ ++ ·) ih |>.trans String.join_cons.symm
    | profiled report => exact congrArg (_ ++ ·) ih |>.trans String.join_cons.symm

end Note

end Command

end LS8
