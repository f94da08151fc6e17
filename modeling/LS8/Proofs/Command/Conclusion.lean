import LS8.Proofs.Command.Session
import LS8.Proofs.Command.Telling
import LS8.Proofs.Machine.Profiling
import LS8.Proofs.Profile.Report

/-!
# How a program that is run concludes

The run of a program concludes by a halt, by a fault or at the limit on instructions, unless it
goes on for ever (`concludes_or_neverStops`). When and how it does depends on the program, the
limit and the device alone. What a mode of running adds is beside the output:

- `Accounts`: what there is to be on standard error, without regard to how it is put together;
- `runImage?_of_concludes`: the output, the notes and the failure of an image that is run;
- `runWith?_of_settings_error`, `runWith?_of_image_error`, `runWith?_of_disasm` and
  `runWith?_of_run`: the stages of the command up to there;
- `run?_observes_only`: tracing, counting and the form of the reports change neither what a
  program prints nor the exit code.
-/

namespace LS8.Command

open Machine (loaded)

variable {m : Machine} {image : Image} {limit : Option Nat} {n n' : Nat} {ending ending' : Ending}
  {p : Option Profile} {mode : Mode} {out : StandardOutput} {c : Completion}

/-! ## Conclusions -/

/-- How the run of a started machine concludes under a limit: after how many instructions
begun, and in which way. -/
inductive Concludes (m : Machine) (limit : Option Nat) : Nat → Ending → Prop where
  | halts {k : Nat} (h : m.HaltsAt k) (hlimit : ∀ N ∈ limit, k ≤ N) :
    Concludes m limit k .halted
  | faults {k : Nat} {f : Fault} (h : m.FaultsAt k f) (hlimit : ∀ N ∈ limit, k < N) :
    Concludes m limit (k + 1) (.faulted f)
  | limited {N : Nat} (h : m.Proceeds N) (hlimit : limit = some N) :
    Concludes m limit N (.limitReached N (m.after N).pc)

/-- **Every run concludes**, unless there is no limit and it never stops. -/
theorem concludes_or_neverStops (m : Machine) (limit : Option Nat) :
    (∃ n ending, Concludes m limit n ending) ∨ (limit = none ∧ m.NeverStops) := by
  cases limit with
  | none =>
    have hnone : ∀ {P : Nat → Prop}, ∀ N ∈ (none : Option Nat), P N := by
      rintro P N ⟨⟩
    rcases m.ends_or_neverStops with ⟨k, h⟩ | ⟨k, f, h⟩ | h
    · exact .inl ⟨_, _, .halts h hnone⟩
    · exact .inl ⟨_, _, .faults h hnone⟩
    · exact .inr ⟨rfl, h⟩
  | some N =>
    have hsome : ∀ {P : Nat → Prop}, P N → ∀ N' ∈ some N, P N' := by
      rintro P hN _ ⟨⟩
      exact hN
    left
    rcases m.ends_or_neverStops with ⟨k, h⟩ | ⟨k, f, h⟩ | h
    · rcases Nat.lt_or_ge N k with hlt | hle
      · exact ⟨_, _, .limited (Session.proceeds_of_limit_lt (.inl ⟨k, h, hlt⟩)) rfl⟩
      · exact ⟨_, _, .halts h (hsome hle)⟩
    · rcases Nat.lt_or_ge k N with hlt | hle
      · exact ⟨_, _, .faults h (hsome hlt)⟩
      · exact ⟨_, _, .limited (h.1.mono hle) rfl⟩
    · exact ⟨_, _, .limited (h N) rfl⟩

/-- A profile makes no difference to how a run concludes. -/
theorem Concludes.withProfile (h : Concludes m limit n ending) (p : Option Profile) :
    Concludes (m.withProfile p) limit n ending := by
  cases h with
  | halts h hlimit => exact .halts (Machine.haltsAt_withProfile_iff.2 h) hlimit
  | faults h hlimit => exact .faults (Machine.faultsAt_withProfile_iff.2 h) hlimit
  | limited h hlimit =>
    have hpc : (m.after n).pc = ((m.withProfile p).after n).pc := by
      rw [Machine.after_withProfile]
      rfl
    rw [hpc]
    exact .limited (Machine.proceeds_withProfile_iff.2 h) hlimit

/-- The session of a machine ends as its run concludes. -/
theorem Concludes.session (h : Concludes m.start limit n ending) (hm : m.steps = 0)
    (tracing : Bool) :
    ∃ s, Session.run? limit tracing m = some s ∧
      s.Left (m.start.after n) (Session.lines tracing m.start n) ending := by
  have hsteps : ∀ n, m.steps + n = n := by
    intro n
    rw [hm, Nat.zero_add]
  cases h with
  | halts h hlimit =>
    refine Session.run?_of_haltsAt h ?_
    rwa [hsteps]
  | faults h hlimit =>
    refine Session.run?_of_faultsAt h ?_
    rwa [hsteps]
  | limited h hlimit =>
    subst hlimit
    have hsession : ∃ s, Session.run? (some (m.steps + n)) tracing m = some s ∧ _ :=
      Session.run?_of_proceeds h
    rwa [hsteps] at hsession

/-- A run concludes in one way only. -/
theorem Concludes.unique (h : Concludes m.start limit n ending) (hm : m.steps = 0)
    (h' : Concludes m.start limit n' ending') : n' = n ∧ ending' = ending := by
  -- both are what the one session with its trace says
  obtain ⟨s, hs, hleft⟩ := h.session hm true
  obtain ⟨s', hs', hleft'⟩ := h'.session hm true
  obtain rfl := Option.some.inj (hs.symm.trans hs')
  have hlength := congrArg List.length (hleft'.own.symm.trans hleft.own)
  simp only [Session.lines, if_true, List.length_map, List.length_range] at hlength
  exact ⟨hlength, hleft'.ending.symm.trans hleft.ending⟩

/-- A run that concludes without a limit stops. -/
theorem Concludes.not_neverStops (h : Concludes m none n ending) : ¬ m.NeverStops := by
  intro hnever
  cases h with
  | halts h => exact h.not_proceeds (hnever _)
  | faults h => exact h.not_proceeds (hnever _)
  | limited h hlimit => cases hlimit

/-! ## What is printed and noted -/

/-- What a program prints in its first `n` steps: each number in decimal on a line of its own. -/
def outputText (m : Machine) (n : Nat) : String :=
  String.join ((m.printed n).map fun v => Numeral.decimal v.toNat ++ "\n")

/-- The text is the report on what was executed in the first `n` steps, if it is counted. -/
def Profiles (counting : Bool) (m : Machine) (n : Nat) (text : String) : Prop :=
  if counting then
    ∃ rows, Profile.Reports (m.executed n) rows ∧ text.toList = rows.flatMap (· ++ ['\n'])
  else text = ""

/-- The text is a report on how a run ended. There is none if the program halted. -/
inductive Ending.Reported (describe : Malformation → String) (style : Failure.Style) :
    Ending → String → Prop
  | halted : Reported describe style .halted ""
  | faulted {f : Fault} {text : String} (h : (Failure.fault f).Reports describe style text) :
    Reported describe style (.faulted f) text
  | limitReached {limit address : Nat} {text : String}
    (h : (Failure.stepLimit limit address).Reports describe style text) :
    Reported describe style (.limitReached limit address) text

/-- The text is an account of the first `n` steps of a run that ended so: the trace and the
profile, each if the mode asks for it, and then the report on a failure. -/
def Accounts (describe : Malformation → String) (style : Failure.Style) (mode : Mode)
    (m : Machine) (n : Nat) (ending : Ending) (text : String) : Prop :=
  ∃ lines profile report,
    text = String.join (lines.map (· ++ "\n")) ++ profile ++ report ∧
    Traces mode.trace m n lines ∧ Profiles mode.stats m n profile ∧
    ending.Reported describe style report

/-- Standard error is an account of the first `n` steps if the log keeps to warnings. With any
other log it still is but for the lines of the log, which stand between the others. -/
structure Answer.AccountsFor (answer : Answer) (w : Wording) (style : Failure.Style) (mode : Mode)
    (m : Machine) (n : Nat) (ending : Ending) : Prop where
  quiet : ∀ log : Log, log.Quiet →
    Accounts w.malformation style mode m n ending (answer.errorsUnder w log)
  logged : ∃ notes report,
    Accounts w.malformation style mode m n ending (Note.join .silent notes ++ report) ∧
    ∀ log, answer.errorsUnder w log = Note.join log notes ++ report

/-- What is reported on an ending is a report on it. -/
theorem Ending.reported_report {w : Wording} (h : c.failure = ending.failure?) :
    ending.Reported w.malformation c.style (c.reportWith w.malformation) := by
  unfold Completion.reportWith
  rw [h]
  cases ending with
  | halted => exact .halted
  | faulted f => exact .faulted (Failure.reports_report _ _ _)
  | limitReached limit address => exact .limitReached (Failure.reports_report _ _ _)

/-! ## The run of an image -/

section Notes

variable {log : Log} (w : Wording)

/-- Events that are logged in front are no notes of the command itself. -/
theorem own_after_logged (events : List LogEvent) (c : Completion) :
    own (c.after (events.map .logged)).entries = own c.entries := by
  show own (events.map .logged ++ c.entries) = own c.entries
  rw [own_append, own_logged, List.nil_append]

/-- What the command notes if all its notes are for the log. -/
theorem Completion.notes_of_own (h : own c.entries = []) : c.notes = "" := by
  rw [Completion.notes, Note.join_silent, h]
  rfl

/-- Standard error begins with the notes, if standard output took what there was. -/
theorem Completion.errorsUnder_eq (log : Log) (htorn : c.torn = none) :
    c.errorsUnder w log = Note.join log c.entries ++ c.reportWith w.malformation := by
  rw [errorsUnder, htorn, Option.map_none, Option.getD_none, String.append_empty]

theorem Completion.errorsUnder_silent (htorn : c.torn = none) :
    c.errorsUnder w .silent = c.errorsWith w.malformation :=
  errorsUnder_eq w .silent htorn

/-- A report is the last that goes to standard error. -/
theorem Completion.errorsUnder_of_failure {failure : Failure} (log : Log)
    (hfailure : c.failure = some failure) (htorn : c.torn = none) :
    c.errorsUnder w log = Note.join log c.entries ++ failure.report w.malformation c.style := by
  rw [errorsUnder_eq w log htorn, reportWith, hfailure]

/-- A log that keeps to warnings has nothing to add if there are none. -/
theorem Completion.errorsUnder_of_quiet (hlog : log.Quiet) (hcalm : Calm c.entries)
    (htorn : c.torn = none) : c.errorsUnder w log = c.errorsWith w.malformation := by
  rw [errorsUnder_eq w log htorn, Note.join_of_quiet hlog hcalm]
  rfl

end Notes

/-- The report on what was executed in the first `n` steps. -/
def profileText (m : Machine) (n : Nat) : String :=
  (Profile.empty.recordAll (m.executed n)).report

theorem profiles_profileText (counting : Bool) (m : Machine) (n : Nat) :
    Profiles counting m n (if counting then profileText m n else "") := by
  cases counting with
  | false => exact rfl
  | true => exact ⟨_, Profile.reports_rows _, Profile.toList_report _⟩

/-- The notes of a mode on the first `n` steps. -/
def observed (mode : Mode) (m : Machine) (n : Nat) : List Note :=
  (Session.lines mode.trace m n).map .traced
    ++ if mode.stats then [.profiled (profileText m n)] else []

/-- What is completed is the run of a started machine that ended so after `n` steps. Beside its
notes it logged no warning. -/
structure Completion.Concluded (c : Completion) (mode : Mode) (m : Machine) (n : Nat)
    (ending : Ending) : Prop where
  output : c.output = (m.after n).device.contents
  own : own c.entries = observed mode m n
  calm : Calm c.entries
  failure : c.failure = ending.failure?
  torn : c.torn = none

namespace Completion.Concluded

theorem code (h : c.Concluded mode m n ending) : c.code = if ending = .halted then 0 else 1 := by
  unfold Completion.code
  rw [h.torn, h.failure]
  cases ending <;> rfl

/-- Events that are logged in front, and the style of the report, make no difference. -/
theorem after_logged (h : c.Concluded mode m n ending) {events : List LogEvent}
    (hevents : ∀ event ∈ events, event.level ≠ .warn) (style : Failure.Style) :
    Completion.Concluded { c.after (events.map .logged) with style } mode m n ending :=
  ⟨h.output, (own_after_logged events c).trans h.own, (calm_logged hevents).append h.calm,
    h.failure, h.torn⟩

theorem notes (h : c.Concluded mode m n ending) : c.notes =
    String.join ((Session.lines mode.trace m n).map (· ++ "\n"))
      ++ if mode.stats then profileText m n else "" := by
  rw [Completion.notes, Note.join_silent, h.own, observed, List.map_append, String.join_append,
    List.map_map]
  cases mode.stats <;> rfl

/-- **What the command itself puts on standard error is an account** of the run. -/
theorem accounts (h : c.Concluded mode m n ending) (w : Wording) :
    Accounts w.malformation c.style mode m n ending (c.errorsWith w.malformation) := by
  refine ⟨_, _, _, ?_, Session.traces_lines _ _ _, profiles_profileText mode.stats m n,
    Ending.reported_report h.failure⟩
  rw [errorsWith, h.notes]

/-- The log comes in between, if it has anything to say. -/
theorem accountsFor (h : c.Concluded mode m n ending) (w : Wording) :
    (Answer.completed c).AccountsFor w c.style mode m n ending := by
  refine ⟨fun log hlog => ?_, c.entries, _, h.accounts w, fun log => errorsUnder_eq w log h.torn⟩
  show Accounts _ _ _ _ _ _ (c.errorsUnder w log)
  rw [errorsUnder_of_quiet w hlog h.calm h.torn]
  exact h.accounts w

end Completion.Concluded

theorem lines_withProfile (tracing : Bool) (m : Machine) (p : Option Profile) (n : Nat) :
    Session.lines tracing (m.withProfile p) n = Session.lines tracing m n := by
  have hline : ∀ j, ((m.withProfile p).after j).traceLine = (m.after j).traceLine := by
    intro j
    rw [Machine.after_withProfile, Machine.traceLine_withProfile]
  simp only [Session.lines, hline]

/-- The session of an image in a mode, seen from its machine without a profile. -/
theorem Concludes.session_loaded {device : Device}
    (h : Concludes (loaded device false image).start mode.limit n ending) :
    let m := (loaded device false image).start
    let p : Option Profile := if mode.stats then some .empty else none
    ∃ s, Session.run? mode.limit mode.trace (loaded device mode.stats image) = some s ∧
      s.Left ((m.after n).withProfile (p.map (·.recordAll (m.executed n))))
        (Session.lines mode.trace m n) ending := by
  intro m p
  have hloaded : loaded device mode.stats image = (loaded device false image).withProfile p :=
    Machine.loaded_eq_withProfile device image mode.stats
  obtain ⟨s, hs, hleft⟩ :=
    Concludes.session (m := (loaded device false image).withProfile p) (h.withProfile p) rfl
      mode.trace
  have hafter : ((loaded device false image).withProfile p).start.after n =
      (m.after n).withProfile (p.map (·.recordAll (m.executed n))) := m.after_withProfile p n
  refine ⟨s, hloaded ▸ hs, ?_⟩
  rw [← hafter, ← lines_withProfile mode.trace m p n]
  exact hleft

/-- **An image that is run** prints what its program prints, whatever the mode. -/
theorem runImage?_of_concludes (program : Path) (hfit : image.bytes.length ≤ Memory.size)
    (h : Concludes (loaded out.device false image).start mode.limit n ending) :
    ∃ c, runImage? out program image mode = some c ∧
      c.Concluded mode (loaded out.device false image).start n ending := by
  obtain ⟨s, hs, hleft⟩ := h.session_loaded
  have hprofile : (s.machine.profile.map fun profile => Note.profiled profile.report).toList =
      if mode.stats then [.profiled (profileText (loaded out.device false image).start n)]
      else [] := by
    rw [hleft.machine]
    cases mode.stats <;> rfl
  have hown : ∀ note ∈
      (s.machine.profile.map fun profile => Note.profiled profile.report).toList,
      note.isOwn = true := by
    intro note hmem
    obtain ⟨profile, -, rfl⟩ := Option.map_eq_some_iff.1 (Option.mem_toList.1 hmem)
    rfl
  refine ⟨s.completion, ?_, ?_, ?_, hleft.calm.append (calm_of_isOwn hown),
    congrArg Ending.failure? hleft.ending, rfl⟩
  · rw [runImage?_of_fits out program mode hfit, hs, Option.map_some]
  · exact congrArg (·.device.contents) hleft.machine
  · rw [Session.completion, own_append, hleft.own, own_of_isOwn hown, hprofile, observed]

theorem runImage?_of_neverStops (program : Path) (hfit : image.bytes.length ≤ Memory.size)
    (hlimit : mode.limit = none) (h : (loaded out.device false image).start.NeverStops) :
    runImage? out program image mode = none := by
  have hsession : Session.run? none mode.trace (loaded out.device mode.stats image) = none :=
    Session.run?_of_neverStops (Machine.neverStops_withProfile_iff.2 h)
  rw [runImage?_of_fits out program mode hfit, hlimit, hsession, Option.map_none]

/-- An image that does not fit is not run. -/
theorem runImage?_of_size_lt (out : StandardOutput) (program : Path)
    (h : Memory.size < image.bytes.length) :
    runImage? out program image mode = some {
      failure := some (.loading program image.bytes.length (.outOfBounds Memory.size)) } := by
  have hload : ((Machine.initial out.device mode.stats).load image).fault =
      some (.outOfBounds Memory.size) := Memory.fault_load_of_size_lt h
  unfold runImage?
  simp only [hload]

/-! ## The stages of the command -/

variable {read : Reader} {fs : FileSystem} {e : Environment} {line : List String} {a : Arguments}
  {l : LoadedSettings} {failure : Failure} {imageError : ImageError}

/-- Settings are loaded from the working directory. -/
theorem loadSettings_eq_ok_iff : loadSettings fs e = .ok l ↔
    ∃ directory, fs.workingDirectory = .ok directory ∧
      LoadedSettings.fromDirectory fs e directory = .ok l := by
  unfold loadSettings
  cases fs.workingDirectory with
  | error failure => simp
  | ok directory =>
    cases h : LoadedSettings.fromDirectory fs e directory <;> simp [h, Except.mapError]

/-- Settings are not loaded if it is not known where to look for them, or if something is wrong
with them. -/
theorem loadSettings_eq_error_iff : loadSettings fs e = .error failure ↔
    (∃ unknown, fs.workingDirectory = .error unknown ∧ failure = .workingDirectory unknown) ∨
    ∃ directory error, fs.workingDirectory = .ok directory ∧
      LoadedSettings.fromDirectory fs e directory = .error error ∧ failure = .settings error := by
  unfold loadSettings
  cases fs.workingDirectory with
  | error unknown => simp [eq_comm]
  | ok directory =>
    cases h : LoadedSettings.fromDirectory fs e directory <;> simp [h, Except.mapError, eq_comm]

/-- How the failures of a command are reported once its settings are loaded. -/
def styleOf (out : StandardOutput) (e : Environment) (a : Arguments) (s : Settings) :
    Failure.Style :=
  ⟨a.json || jsonByDefault e || s.json, coloured out e⟩

/-- What is logged before an image is run or listed. -/
def preparation (l : LoadedSettings) (a : Arguments) (image : Image) : List LogEvent :=
  (l.root.map .settingsLoaded).toList
    ++ [.imageLoaded (Path.ofString a.program) image.bytes.length]

theorem level_of_mem_root (l : LoadedSettings) :
    ∀ event ∈ (l.root.map LogEvent.settingsLoaded).toList, event.level ≠ .warn := by
  intro event hmem
  obtain ⟨root, -, rfl⟩ := Option.map_eq_some_iff.1 (Option.mem_toList.1 hmem)
  exact nofun

theorem level_of_mem_preparation (l : LoadedSettings) (a : Arguments) (image : Image) :
    ∀ event ∈ preparation l a image, event.level ≠ .warn :=
  List.forall_mem_append.2 ⟨level_of_mem_root l, List.forall_mem_singleton.2 nofun⟩

theorem runWith?_of_usage_error {usageError : UsageError} (h : read line = .error usageError) :
    runWith? read fs e line out = some (.usage usageError) := by
  simp only [runWith?, h]

theorem runWith?_of_settings_error (ha : read line = .ok (.execute a))
    (h : loadSettings fs e = .error failure) :
    runWith? read fs e line out = some (.completed {
      failure := some failure, style := ⟨a.json || jsonByDefault e, coloured out e⟩ }) := by
  simp only [runWith?, ha, complete?, h, Option.map_some]

/-- The note on the settings is all that is logged if there is no image. -/
theorem runWith?_of_image_error (ha : read line = .ok (.execute a))
    (hl : loadSettings fs e = .ok l)
    (h : Image.ofFile fs (Path.ofString a.program) = .error imageError) :
    runWith? read fs e line out = some (.completed {
      entries := ((l.root.map LogEvent.settingsLoaded).toList).map .logged
      failure := some (.image imageError), style := styleOf out e a l.settings }) := by
  simp only [runWith?, ha, complete?, hl, execute?, h, Option.map_some]
  cases l.root <;> rfl

theorem runWith?_of_disasm (ha : read line = .ok (.execute a)) (hdisasm : a.disasm = true)
    (hl : loadSettings fs e = .ok l)
    (himage : Image.ofFile fs (Path.ofString a.program) = .ok image) :
    runWith? read fs e line out = some (.completed {
      (list out image).after ((preparation l a image).map .logged) with
      style := styleOf out e a l.settings }) := by
  simp only [runWith?, ha, complete?, hl, execute?, himage, hdisasm, if_true, Option.map_some]
  cases hroot : l.root <;> simp [preparation, hroot, Completion.after, styleOf]

/-- An image that is to be run is run in the mode that the arguments and the settings give. -/
theorem runWith?_of_run (ha : read line = .ok (.execute a)) (hdisasm : a.disasm = false)
    (hl : loadSettings fs e = .ok l)
    (himage : Image.ofFile fs (Path.ofString a.program) = .ok image) :
    runWith? read fs e line out =
      (runImage? out (Path.ofString a.program) image (Mode.ofArguments a l.settings)).map fun c =>
        .completed { c.after ((preparation l a image).map .logged) with
          style := styleOf out e a l.settings } := by
  simp only [runWith?, ha, complete?, hl, execute?, himage, hdisasm, Bool.false_eq_true, if_false,
    Option.map_map]
  refine congrArg (Option.map · _) (funext fun c => ?_)
  cases hroot : l.root <;> simp [preparation, hroot, Completion.after, styleOf]

/-- What is completed after the settings are loaded is reported in the one style. -/
theorem style_of_runWith? (ha : read line = .ok (.execute a)) (hl : loadSettings fs e = .ok l)
    (h : runWith? read fs e line out = some (.completed c)) :
    c.style = styleOf out e a l.settings := by
  simp only [runWith?, ha, complete?, hl, Option.map_map] at h
  obtain ⟨c', -, hc⟩ := Option.map_eq_some_iff.1 h
  obtain rfl := Answer.completed.inj hc
  rfl

/-- **How a run concludes, the answer says.** -/
theorem runWith?_of_concludes (ha : read line = .ok (.execute a))
    (hdisasm : a.disasm = false) (hl : loadSettings fs e = .ok l)
    (himage : Image.ofFile fs (Path.ofString a.program) = .ok image)
    (hfit : image.bytes.length ≤ Memory.size)
    (h : Concludes (loaded out.device false image).start
      (Mode.ofArguments a l.settings).limit n ending) :
    ∃ c, runWith? read fs e line out = some (.completed c) ∧
      c.style = styleOf out e a l.settings ∧
      c.Concluded (Mode.ofArguments a l.settings) (loaded out.device false image).start n
        ending := by
  obtain ⟨c, hc, hconcluded⟩ := runImage?_of_concludes (Path.ofString a.program) hfit h
  refine ⟨_, ?_, rfl, hconcluded.after_logged (level_of_mem_preparation l a image) _⟩
  rw [runWith?_of_run ha hdisasm hl himage, hc, Option.map_some]
  rfl

/-- **Tracing, counting and the form of reports only observe.** How an image that fits concludes
is settled by its bytes, the limit and the device, before anything is known of the other settings
and of where they come from. Every command line that runs it within that limit, however it is
read, leaves on standard output what the program prints and nothing else, which is all of it if
the device takes everything. It exits with 0 if the program halted and with 1 if not. On standard
error there are the trace lines if the mode asks for them, then the profile if it asks for one,
and then one report if the run failed. The log adds nothing if it keeps to warnings, as it does by
default; else its lines stand between the others. -/
theorem run?_observes_only (image : Image) (hfit : image.bytes.length ≤ 256)
    (limit : Option Nat) (out : StandardOutput) :
    let m := (loaded out.device false image).start
    (limit = none ∧ m.NeverStops) ∨
    ∃ n ending, Concludes m limit n ending ∧
      ∀ (read : Reader) fs e line a l, read line = .ok (.execute a) → a.disasm = false →
        loadSettings fs e = .ok l →
        Image.ofFile fs (Path.ofString a.program) = .ok image →
        (Mode.ofArguments a l.settings).limit = limit →
        ∃ answer, runWith? read fs e line out = some answer ∧
          answer.code = (if ending = .halted then 0 else 1) ∧
          ∀ w, answer.outputWith w = (m.after n).device.contents ∧
            (out.device.Unlimited → answer.outputWith w = outputText m n) ∧
            answer.AccountsFor w (styleOf out e a l.settings) (Mode.ofArguments a l.settings) m n
              ending := by
  intro m
  rcases concludes_or_neverStops m limit with ⟨n, ending, h⟩ | h
  · refine .inr ⟨n, ending, h, fun read fs e line a l ha hdisasm hl himage hlimit => ?_⟩
    rw [← hlimit] at h
    obtain ⟨c, hc, hstyle, hconcluded⟩ := runWith?_of_concludes ha hdisasm hl himage hfit h
    have houtput : c.output = (m.after n).device.contents := hconcluded.output
    refine ⟨_, hc, hconcluded.code, fun w => ⟨houtput, fun hout => ?_, ?_⟩⟩
    · exact houtput.trans (contents_after hout rfl n)
    · rw [← hstyle]
      exact hconcluded.accountsFor w
  · exact .inl h

/-- The files that stand at the given paths, seen from the top directory. -/
def filesAt (files : List (String × String)) : FileSystem where
  workingDirectory := .ok (Path.ofString "/")
  lookup path := match files.lookup path.text with
    | some text => .ok (.file text.toUTF8)
    | none => .error .notFound

/-- The image `printsFive` as a text. -/
def printsFiveText : String :=
  "10000010 # LDI R0,5\n0000000000\n00000101\n01000111 # PRN R0\n00000000\n00000001 # HLT\n"

/-- What an answer puts on standard error can be evaluated together with it. -/
theorem errorsUnder_of_run? {answer : Answer} {w : Wording} {log : Log} {text : String}
    (h : run? fs e line = some answer)
    (htext : (run? fs e line).map (·.errorsUnder w log) = some text) :
    answer.errorsUnder w log = text := by
  rw [h] at htext
  exact Option.some.inj htext

/-- A logger that writes down warnings, and under the filter `trace` everything. -/
def plainLogger : Logger where
  isFilter text := text == "warn" || text == "trace"
  log filter _ event := if filter == "trace" || event.level == .warn then "event\n" else ""

theorem keepsToWarnings_plainLogger : plainLogger.KeepsToWarnings := by
  intro n event hlevel
  cases event with
  | imageTooLong => exact absurd rfl hlevel
  | _ => rfl

/-- The program prints the same whether it is run silently, or is traced and counted. It still does
if it is stopped before its last instruction, but then that is reported. -/
theorem run?_observes_only_printsFive :
    let files := filesAt [("p", printsFiveText)]
    let counting : Environment := ⟨[("LS8_STATS", "yes".toUTF8)]⟩
    let m := (loaded {} false printsFive).start
    (∃ quiet, run? files ⟨[]⟩ ["p"] = some quiet ∧ quiet.code = 0 ∧
      quiet.outputWith .plain = "5\n" ∧
      quiet.errorsUnder .plain (plainLogger.logIn ⟨[]⟩) = "" ∧
      Accounts Malformation.message ⟨false, false⟩ ⟨false, false, none⟩ m 3 .halted "") ∧
    (∃ loud, run? files counting ["--trace", "p", "--json"] = some loud ∧ loud.code = 0 ∧
      loud.outputWith .plain = "5\n" ∧
      Accounts Malformation.message ⟨true, false⟩ ⟨true, true, none⟩ m 3 .halted
        (loud.errorsUnder .plain (plainLogger.logIn counting))) ∧
    ∃ stopped text, run? files ⟨[]⟩ ["-t", "--max-steps=2", "p"] = some stopped ∧
      stopped.code = 1 ∧ stopped.outputWith .plain = "5\n" ∧
      stopped.errorsUnder .plain (plainLogger.logIn ⟨[]⟩) = text ∧
      text = "TRACE: 00 | 82 00 05 | 00 00 00 00 00 00 00 F4\n"
        ++ "TRACE: 03 | 47 00 01 | 05 00 00 00 00 00 00 F4\n"
        ++ "error: step limit of 2 instructions reached at address 5\n" ∧
      Accounts Malformation.message ⟨false, false⟩ ⟨true, false, some 2⟩ m 2
        (.limitReached 2 5) text := by
  intro files counting m
  have hsilent : (plainLogger.logIn ⟨[]⟩).Quiet :=
    Logger.quiet_of_unset keepsToWarnings_plainLogger (by decide +kernel)
  have hcounting : (plainLogger.logIn counting).Quiet :=
    Logger.quiet_of_unset keepsToWarnings_plainLogger (by decide +kernel)
  have hunlimited : (StandardOutput.device {}).Unlimited := ⟨rfl, rfl⟩
  have hhalts : Concludes m none 3 .halted :=
    .halts ⟨2, rfl, by decide +kernel, by decide +kernel⟩ nofun
  have hends : ¬ m.NeverStops := fun hnever => absurd (hnever 3) (by decide +kernel)
  have hpc : (m.after 2).pc = 5 := by decide +kernel
  have hstopped : Concludes m (some 2) 2 (.limitReached 2 (m.after 2).pc) :=
    .limited (by decide +kernel) rfl
  obtain ⟨n, ending, h, hanswers⟩ :=
    (run?_observes_only printsFive (by decide) none {}).resolve_left fun h => hends h.2
  obtain ⟨rfl, rfl⟩ := hhalts.unique rfl h
  obtain ⟨n, ending, h', hanswers'⟩ :=
    (run?_observes_only printsFive (by decide) (some 2) {}).resolve_left nofun
  obtain ⟨rfl, rfl⟩ := hstopped.unique rfl h'
  refine ⟨?_, ?_, ?_⟩
  · obtain ⟨quiet, hquiet, hcode, htexts⟩ :=
      hanswers Arguments.parse files ⟨[]⟩ ["p"] { program := "p" } ⟨{}, none⟩ (by decide +kernel)
        rfl (by decide +kernel) (by decide +kernel) rfl
    obtain ⟨-, houtput, herrors⟩ := htexts .plain
    have htext : quiet.errorsUnder .plain (plainLogger.logIn ⟨[]⟩) = "" :=
      errorsUnder_of_run? hquiet (by decide +kernel)
    refine ⟨quiet, hquiet, hcode, (houtput hunlimited).trans (by decide +kernel), htext, ?_⟩
    rw [← htext]
    exact herrors.quiet _ hsilent
  · obtain ⟨loud, hloud, hcode, htexts⟩ :=
      hanswers Arguments.parse files counting ["--trace", "p", "--json"]
        { program := "p", trace := true, json := true }
        ⟨{ run := some { stats := some true } }, none⟩ (by decide +kernel) rfl
        (by decide +kernel) (by decide +kernel) rfl
    obtain ⟨-, houtput, herrors⟩ := htexts .plain
    exact ⟨loud, hloud, hcode, (houtput hunlimited).trans (by decide +kernel),
      herrors.quiet _ hcounting⟩
  · obtain ⟨stopped, hstopped, hcode, htexts⟩ :=
      hanswers' Arguments.parse files ⟨[]⟩ ["-t", "--max-steps=2", "p"]
        { program := "p", trace := true, maxSteps := some 2 } ⟨{}, none⟩ (by decide +kernel) rfl
        (by decide +kernel) (by decide +kernel) rfl
    obtain ⟨-, houtput, herrors⟩ := htexts .plain
    rw [hpc] at herrors
    exact ⟨stopped, _, hstopped, hcode, (houtput hunlimited).trans (by decide +kernel), rfl,
      errorsUnder_of_run? hstopped (by decide +kernel), herrors.quiet _ hsilent⟩

end LS8.Command
