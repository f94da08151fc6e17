import LS8.Proofs.Command.Verdict

/-!
# Which setting is in force

A setting can come from an argument, from a variable of the environment and from the settings
file. `InForce` says which of them counts: a limit given as an argument goes before one in the
variable, and that before one in the file; an argument can only switch tracing and counting on,
while a variable can also switch off what the file switches on; and each of the three can ask
for reports in JSON.

- `inForce_of_loaded`: the mode and the style of a command are those in force;
- `run?_under_settings`: and so the command runs and reports, also when the settings cannot be
  loaded.
-/

namespace LS8.Command

open Machine (loaded)

variable {fs : FileSystem} {e : Environment} {line : List String} {a : Arguments} {F : Settings}
  {l : LoadedSettings} {directory : Path} {out : StandardOutput} {name : String} {inFile : Bool}

/-! ## The sources -/

/-- A switch is on by a variable that reads true, or by the file if the variable is unset. -/
def SwitchedOn (e : Environment) (name : String) (inFile : Bool) : Prop :=
  (∃ text, e.text? name = some text ∧ text.toLower ∈ ["true", "1", "yes", "on"]) ∨
    (e.text? name = none ∧ inFile = true)

/-- The environment asks for reports in JSON, in any mixture of capitals. -/
def AsksForJson (e : Environment) : Prop :=
  ∃ text, e.text? "LS8_DIAGNOSTICS" = some text ∧ text.toLower = "json"

/-- The mode and the form of reports that the arguments `a`, the environment `e` and the
settings `F` of the file put in force. -/
structure InForce (a : Arguments) (e : Environment) (F : Settings) (mode : Mode) (json : Bool) :
    Prop where
  /-- A limit that is given as an argument. -/
  limit_argument : ∀ N, a.maxSteps = some N → mode.limit = some N
  /-- Without one, a limit that the variable sets. -/
  limit_variable : a.maxSteps = none → ∀ text, e.text? "LS8_MAX_STEPS" = some text →
    ∃ N, Settings.limitOfText text = .ok N ∧ mode.limit = some N
  /-- Without either, the limit in the file, which may have none. -/
  limit_file : a.maxSteps = none → e.text? "LS8_MAX_STEPS" = none → mode.limit = F.maxSteps
  limit_positive : ∀ N ∈ mode.limit, 1 ≤ N
  trace : mode.trace = true ↔ a.trace = true ∨ SwitchedOn e "LS8_TRACE" F.trace
  stats : mode.stats = true ↔ a.stats = true ∨ SwitchedOn e "LS8_STATS" F.stats
  json : json = true ↔ a.json = true ∨ AsksForJson e ∨ F.json = true

theorem switchedOn_iff :
    ((e.text? name).map Settings.isOn).getD inFile = true ↔ SwitchedOn e name inFile := by
  cases h : e.text? name with
  | none => simp [SwitchedOn, h]
  | some text => simp [SwitchedOn, h, Settings.isOn]

theorem jsonByDefault_iff : jsonByDefault e = true ↔ AsksForJson e := by
  unfold jsonByDefault AsksForJson
  cases e.text? "LS8_DIAGNOSTICS" with
  | none => simp
  | some text => simp

/-! ## What the command makes of them -/

/-- A limit in loaded settings is positive, be it from the variable or from the file. -/
theorem one_le_of_overrides {s : Settings} {N : Nat}
    (hF : LoadedSettings.fileSettings fs directory = .ok F)
    (hover : Settings.Overrides e F s) (hN : s.maxSteps = some N) : 1 ≤ N := by
  cases hset : e.text? "LS8_MAX_STEPS" with
  | none =>
    rw [hover.limit_of_unset hset] at hN
    exact LoadedSettings.one_le_of_fileSettings hF hN
  | some text =>
    obtain ⟨N', hN', hlimit⟩ := hover.limit_of_set text hset
    obtain rfl := Option.some.inj (hlimit.symm.trans hN)
    exact Settings.one_le_of_limitOfText hN'

/-- **The mode and the style of a command are those in force.** -/
theorem inForce_of_loaded (out : StandardOutput) (ha : Arguments.parse line = .ok (.execute a))
    (hF : LoadedSettings.fileSettings fs directory = .ok F)
    (hl : F.override e = .ok l.settings) :
    InForce a e F (Mode.ofArguments a l.settings) (styleOf out e a l.settings).json := by
  have hover := Settings.Overrides.of_override hl
  have hlimit : (Mode.ofArguments a l.settings).limit = a.maxSteps.or l.settings.maxSteps := rfl
  refine ⟨fun N hN => ?_, fun hnone text htext => ?_, fun hnone hunset => ?_, fun N hN => ?_,
    ?_, ?_, ?_⟩
  · rw [hlimit, hN, Option.some_or]
  · rw [hlimit, hnone, Option.none_or]
    exact hover.limit_of_set text htext
  · rw [hlimit, hnone, Option.none_or]
    exact hover.limit_of_unset hunset
  · rw [hlimit] at hN
    cases hargument : a.maxSteps with
    | some N' =>
      rw [hargument, Option.some_or] at hN
      exact Arguments.one_le_of_parse ha N (hargument.trans hN)
    | none =>
      rw [hargument, Option.none_or] at hN
      exact one_le_of_overrides hF hover hN
  · show (a.trace || l.settings.trace) = true ↔ _
    rw [Bool.or_eq_true, hover.trace, switchedOn_iff]
  · show (a.stats || l.settings.stats) = true ↔ _
    rw [Bool.or_eq_true, hover.stats, switchedOn_iff]
  · show (a.json || jsonByDefault e || l.settings.json) = true ↔ _
    rw [Bool.or_eq_true, Bool.or_eq_true, jsonByDefault_iff, hover.json, or_assoc]

/-- **The settings in force, from end to end.** If the settings can be loaded, `F` being those
of the file, an image is run in the mode that is in force, and every failure is reported in the
form that is, behind whatever was noted or logged. If they cannot be loaded, that is all that is
reported, and only the arguments and the environment decide on the form. -/
theorem run?_under_settings (ha : Arguments.parse line = .ok (.execute a)) (fs : FileSystem)
    (e : Environment) (out : StandardOutput) :
    (∀ l, loadSettings fs e = .ok l →
      ∃ directory F mode json, fs.workingDirectory = .ok directory ∧
        LoadedSettings.fileSettings fs directory = .ok F ∧ InForce a e F mode json ∧
        (∀ image, a.disasm = false → Image.ofFile fs (Path.ofString a.program) = .ok image →
          run? fs e line out =
            (runImage? out (Path.ofString a.program) image mode).map fun c =>
              .completed { c.after ((preparation l a image).map .logged) with
                style := ⟨json, coloured out e⟩ }) ∧
        ∀ c failure, run? fs e line out = some (.completed c) → c.failure = some failure →
          ∀ describe, ∃ report, report = failure.report describe ⟨json, coloured out e⟩ ∧
            failure.Reports describe ⟨json, coloured out e⟩ report ∧
            c.errorsWith describe = c.notes ++ report ∧
            ∀ w log, w.malformation = describe →
              c.errorsUnder w log = Note.join log c.entries ++ report) ∧
    ∀ failure, loadSettings fs e = .error failure →
      ∃ c json, run? fs e line out = some (.completed c) ∧
        (json = true ↔ a.json = true ∨ AsksForJson e) ∧
        ∀ describe, ∃ report, report = failure.report describe ⟨json, coloured out e⟩ ∧
          failure.Reports describe ⟨json, coloured out e⟩ report ∧
          c.errorsWith describe = report ∧
          ∀ w log, w.malformation = describe → c.errorsUnder w log = report := by
  constructor
  · intro l hl
    obtain ⟨directory, hdirectory, hdirectorySettings⟩ := loadSettings_eq_ok_iff.1 hl
    obtain ⟨F, hF, hsettings, -⟩ := LoadedSettings.fromDirectory_eq_ok_iff.1 hdirectorySettings
    refine ⟨directory, F, _, _, hdirectory, hF, inForce_of_loaded out ha hF hsettings,
      fun image hdisasm himage => ?_, fun c failure hc hfailure describe => ?_⟩
    · exact runWith?_of_run ha hdisasm hl himage
    · have hstyle := style_of_runWith? ha hl hc
      refine ⟨_, rfl, failure.reports_report _ _, ?_, ?_⟩
      · rw [Completion.errorsWith, Completion.reportWith, hfailure, hstyle]
        rfl
      · rintro w log rfl
        rw [c.errorsUnder_of_failure w log hfailure (torn_of_failure hc hfailure), hstyle]
        rfl
  · intro failure hfailure
    refine ⟨_, a.json || jsonByDefault e, runWith?_of_settings_error ha hfailure, ?_,
      fun describe => ⟨_, rfl, failure.reports_report _ _, String.empty_append, ?_⟩⟩
    · rw [Bool.or_eq_true, jsonByDefault_iff]
    · rintro w log rfl
      exact (Completion.errorsUnder_of_failure w log rfl rfl).trans String.empty_append

/-- A settings file that sets everything. -/
def everythingSet : String :=
  "[run]\nmax_steps = 9\ntrace = true\nstats = true\n[output]\njson = true\n"

/-- Variables of which one limits, one switches off and one is no text. -/
def mixedVariables : Environment :=
  ⟨[("LS8_MAX_STEPS", " 2 ".toUTF8), ("LS8_TRACE", "No".toUTF8), ("LS8_STATS", ⟨#[0xff]⟩)]⟩

/-- The limit is the one in the variable, the profile is the one that the file asks for, and so is
the form of the report. -/
theorem run?_under_settings_mixed :
    let files := filesAt [("p", printsFiveText), ("/ls8.toml", everythingSet)]
    ∃ (mode : Mode) (json : Bool),
      mode.limit = some 2 ∧ mode.trace = false ∧ mode.stats = true ∧ json = true ∧
      run? files mixedVariables ["p"] =
        (runImage? {} (Path.ofString "p") printsFive mode).map (fun c =>
          .completed { c.after [.logged (.settingsLoaded (Path.ofString "/")),
            .logged (.imageLoaded (Path.ofString "p") 6)] with style := ⟨json, false⟩ }) ∧
      ∃ answer profile, run? files mixedVariables ["p"] = some answer ∧ answer.code = 1 ∧
        answer.outputWith .plain = "5\n" ∧
        Profiles true (loaded {} false printsFive).start 2 profile ∧
        answer.errorsWith .plain = profile
          ++ "\x7b\"message\":\"step limit of 2 instructions reached at address 5\"\x7d\n" := by
  intro files
  have hparse : Arguments.parse ["p"] = .ok (.execute { program := "p" }) := by decide +kernel
  have hfile : LoadedSettings.fileSettings files (Path.ofString "/") =
      .ok ⟨some ⟨some 9, some true, some true⟩, some ⟨some true⟩⟩ := by decide +kernel
  obtain ⟨hloaded, -⟩ := run?_under_settings hparse files mixedVariables {}
  obtain ⟨directory, F, ⟨trace, stats, limit⟩, json, hdirectory, hF, hforce, hrun, -⟩ := hloaded
    ⟨⟨some ⟨some 2, some false, some true⟩, some ⟨some true⟩⟩, some (Path.ofString "/")⟩
    (by decide +kernel)
  obtain rfl : Path.ofString "/" = directory := Except.ok.inj hdirectory
  obtain rfl := Except.ok.inj (hfile.symm.trans hF)
  obtain ⟨N, hN, rfl⟩ := hforce.limit_variable rfl " 2 " (by decide +kernel)
  have htwo : Settings.limitOfText " 2 " = .ok 2 := by decide +kernel
  obtain rfl := Except.ok.inj (htwo.symm.trans hN)
  obtain rfl : trace = false := by
    refine Bool.eq_false_iff.2 fun htrace => ?_
    rcases hforce.trace.1 htrace with hargument | ⟨text, htext, hon⟩ | ⟨hunset, -⟩
    · cases hargument
    · have hno : mixedVariables.text? "LS8_TRACE" = some "No" := by decide +kernel
      obtain rfl := Option.some.inj (hno.symm.trans htext)
      revert hon
      decide +kernel
    · revert hunset
      decide +kernel
  obtain rfl : stats = true := hforce.stats.2 (.inr (.inr ⟨by decide +kernel, rfl⟩))
  obtain rfl : json = true := hforce.json.2 (.inr (.inr rfl))
  let mode : Mode := ⟨false, true, some 2⟩
  let out : StandardOutput := {}
  let m := (loaded out.device false printsFive).start
  have hanswer := hrun printsFive rfl (by decide +kernel)
  have hfit : printsFive.bytes.length ≤ Memory.size := by decide
  have hlimited : Concludes m mode.limit 2 (.limitReached 2 (m.after 2).pc) :=
    .limited (by decide +kernel) rfl
  obtain ⟨c, hc, hconcluded⟩ :
      ∃ c, runImage? out (Path.ofString "p") printsFive mode = some c ∧ c.Concluded mode m 2 _ :=
    runImage?_of_concludes (Path.ofString "p") hfit hlimited
  let l : LoadedSettings := ⟨⟨some ⟨some 2, some false, some true⟩, some ⟨some true⟩⟩,
    some (Path.ofString "/")⟩
  have hcompleted : run? files mixedVariables ["p"] = some (.completed {
      c.after ((preparation l { program := "p" } printsFive).map .logged) with
      style := ⟨true, false⟩ }) := by
    rw [hanswer, hc]
    rfl
  have hloud := hconcluded.after_logged
    (level_of_mem_preparation l { program := "p" } printsFive) ⟨true, false⟩
  have houtput : (m.after 2).device.contents = "5\n" := by decide +kernel
  have hpc : (m.after 2).pc = 5 := by decide +kernel
  have hreport : Failure.report Malformation.message ⟨true, false⟩ (.stepLimit 2 5) =
      "\x7b\"message\":\"step limit of 2 instructions reached at address 5\"\x7d\n" := by
    decide +kernel
  refine ⟨mode, true, rfl, rfl, rfl, rfl, hanswer, _, _, hcompleted, hloud.code,
    hloud.output.trans houtput, profiles_profileText true m 2, ?_⟩
  refine (Completion.errorsUnder_silent .plain hloud.torn).trans ?_
  rw [Completion.errorsWith, hloud.notes, Completion.reportWith, hloud.failure, hpc]
  exact congrArg₂ (· ++ ·) String.empty_append hreport

end LS8.Command
