import LS8.Proofs.Command.Arguments
import LS8.Proofs.Command.Conclusion
import LS8.Proofs.Settings.Loading

/-!
# What decides how the command ends

Several things can be wrong with a command line at once. The first of them decides, in the order
of the rules of `Decides`: the arguments, the settings, the image, its length, and then how its
program concludes. Nothing that comes later leaves any trace in the answer.

- `exists_decides` and `Decides.unique`: exactly one rule applies;
- `yields_of_decides`: the answer is what the rule says;
- `first_failure_decides`: both of it, for every command line, environment and file system, and
  however the command line is read.
-/

namespace LS8.Command

open Machine (loaded)

/-- What decides how the command ends. -/
inductive Verdict where
  /-- The arguments make no sense. -/
  | usage (error : UsageError)
  /-- The version or the help is asked for. -/
  | inquiry
  /-- Something is wrong before the program starts. -/
  | failed (failure : Failure)
  /-- The image is listed. -/
  | listed (image : Image)
  /-- The program is run and concludes. -/
  | ran (image : Image) (mode : Mode) (n : Nat) (ending : Ending)
  /-- The program is run and never stops. -/
  | endless

/-- The settings cannot be loaded: it is not known where to look for them, the file is at fault,
or the variable with the limit. -/
inductive SettingsFail (fs : FileSystem) (e : Environment) : Failure → Prop where
  | workingDirectory {failure : ReadFailure} (h : fs.workingDirectory = .error failure) :
    SettingsFail fs e (.workingDirectory failure)
  | file {directory : Path} {error : SettingsError} (h : fs.workingDirectory = .ok directory)
    (hfile : LoadedSettings.fileSettings fs directory = .error error) :
    SettingsFail fs e (.settings error)
  | limitVariable {directory : Path} {F : Settings} {text : String} {error : SettingsError}
    (h : fs.workingDirectory = .ok directory)
    (hfile : LoadedSettings.fileSettings fs directory = .ok F)
    (htext : e.text? "LS8_MAX_STEPS" = some text)
    (hlimit : Settings.limitOfText text = .error error) :
    SettingsFail fs e (.settings error)

/-- Arguments, settings and image are in order. -/
structure Ready (read : Reader) (fs : FileSystem) (e : Environment) (line : List String)
    (a : Arguments) (l : LoadedSettings) (image : Image) : Prop where
  arguments : read line = .ok (.execute a)
  settings : loadSettings fs e = .ok l
  image : Image.ofFile fs (Path.ofString a.program) = .ok image

/-- The rules on what decides, the first one first. Each needs that those before it have nothing
to say. -/
inductive Decides (read : Reader) (fs : FileSystem) (e : Environment) (line : List String)
    (out : StandardOutput) : Verdict → Prop where
  | usage {error : UsageError} (h : read line = .error error) :
    Decides read fs e line out (.usage error)
  | inquiry (h : read line = .ok .version ∨ read line = .ok .help) :
    Decides read fs e line out .inquiry
  | settings {a : Arguments} {failure : Failure} (ha : read line = .ok (.execute a))
    (h : SettingsFail fs e failure) :
    Decides read fs e line out (.failed failure)
  | image {a : Arguments} {l : LoadedSettings} {error : ImageError}
    (ha : read line = .ok (.execute a)) (hl : loadSettings fs e = .ok l)
    (h : Image.ofFile fs (Path.ofString a.program) = .error error) :
    Decides read fs e line out (.failed (.image error))
  | listed {a : Arguments} {l : LoadedSettings} {image : Image}
    (h : Ready read fs e line a l image) (hdisasm : a.disasm = true) :
    Decides read fs e line out (.listed image)
  | tooLong {a : Arguments} {l : LoadedSettings} {image : Image}
    (h : Ready read fs e line a l image) (hdisasm : a.disasm = false)
    (hlong : 256 < image.bytes.length) :
    Decides read fs e line out
      (.failed (.loading (Path.ofString a.program) image.bytes.length (.outOfBounds 256)))
  | ran {a : Arguments} {l : LoadedSettings} {image : Image} {n : Nat} {ending : Ending}
    (h : Ready read fs e line a l image) (hdisasm : a.disasm = false)
    (hfit : image.bytes.length ≤ 256)
    (hrun : Concludes (loaded out.device false image).start (Mode.ofArguments a l.settings).limit
      n ending) :
    Decides read fs e line out (.ran image (Mode.ofArguments a l.settings) n ending)
  | endless {a : Arguments} {l : LoadedSettings} {image : Image}
    (h : Ready read fs e line a l image) (hdisasm : a.disasm = false)
    (hfit : image.bytes.length ≤ 256) (hlimit : (Mode.ofArguments a l.settings).limit = none)
    (hrun : (loaded out.device false image).start.NeverStops) :
    Decides read fs e line out .endless

/-- Standard error is a report on a failure if the log keeps to warnings. With any other log the
report still is the last, and only the lines of the log stand before it. -/
structure Answer.OnlyReports (answer : Answer) (w : Wording) (style : Failure.Style)
    (failure : Failure) : Prop where
  quiet : ∀ log : Log, log.Quiet → failure.Reports w.malformation style (answer.errorsUnder w log)
  logged : ∃ notes report, own notes = [] ∧ failure.Reports w.malformation style report ∧
    ∀ log, answer.errorsUnder w log = Note.join log notes ++ report

/-- What a verdict means for the answer: the exit code, standard output and standard error. Of a
listing nothing is said but what the log has to say, which is nothing if it keeps to warnings and
the image could be run. -/
def Verdict.Yields (out : StandardOutput) : Verdict → Option Answer → Prop
  | usage error, result => ∃ answer ∈ result, answer.code = 2 ∧
    ∀ w, answer.outputWith w = "" ∧ ∀ log, answer.errorsUnder w log = w.usage error
  | inquiry, result => ∃ answer ∈ result, answer.code = 0
  | failed failure, result => ∃ answer ∈ result, ∃ style, answer.code = 1 ∧
    ∀ w, answer.outputWith w = "" ∧ answer.OnlyReports w style failure
  | listed image, result => ∃ answer ∈ result, out.device.Unlimited → answer.code = 0 ∧
    ∀ w, answer.outputWith w = image.listing ∧ answer.errorsWith w = "" ∧
      ∀ log : Log, log.Quiet → image.bytes.length ≤ 256 → answer.errorsUnder w log = ""
  | ran image mode n ending, result => ∃ answer ∈ result, ∃ style,
    answer.code = (if ending = .halted then 0 else 1) ∧
    ∀ w, answer.outputWith w = ((loaded out.device false image).start.after n).device.contents ∧
      (out.device.Unlimited →
        answer.outputWith w = outputText (loaded out.device false image).start n) ∧
      answer.AccountsFor w style mode (loaded out.device false image).start n ending
  | endless, result => result = none

variable {read : Reader} {fs : FileSystem} {e : Environment} {line : List String}
  {out : StandardOutput} {a a' : Arguments} {l l' : LoadedSettings} {image image' : Image}
  {failure : Failure} {verdict verdict' : Verdict} {c : Completion}

/-! ## Exactly one rule applies -/

/-- Loading the settings fails for the reasons given, and for no other. -/
theorem settingsFail_iff : SettingsFail fs e failure ↔ loadSettings fs e = .error failure := by
  rw [loadSettings_eq_error_iff]
  simp only [LoadedSettings.fromDirectory_eq_error_iff, Settings.override_eq_error_iff]
  constructor
  · intro h
    cases h with
    | workingDirectory h => exact .inl ⟨_, h, rfl⟩
    | file h hfile => exact .inr ⟨_, _, h, .inl hfile, rfl⟩
    | limitVariable h hfile htext hlimit =>
      exact .inr ⟨_, _, h, .inr ⟨_, hfile, _, htext, hlimit⟩, rfl⟩
  · rintro (⟨unknown, h, rfl⟩ | ⟨directory, error, h, hfile | ⟨F, hfile, text, htext, hlimit⟩, rfl⟩)
    · exact .workingDirectory h
    · exact .file h hfile
    · exact .limitVariable h hfile htext hlimit

theorem exists_decides (read : Reader) (fs : FileSystem) (e : Environment) (line : List String)
    (out : StandardOutput) : ∃ verdict, Decides read fs e line out verdict := by
  cases harguments : read line with
  | error error => exact ⟨_, .usage harguments⟩
  | ok request =>
    cases request with
    | version => exact ⟨_, .inquiry (.inl harguments)⟩
    | help => exact ⟨_, .inquiry (.inr harguments)⟩
    | execute a =>
      cases hsettings : loadSettings fs e with
      | error failure => exact ⟨_, .settings harguments (settingsFail_iff.2 hsettings)⟩
      | ok l =>
        cases himage : Image.ofFile fs (Path.ofString a.program) with
        | error error => exact ⟨_, .image harguments hsettings himage⟩
        | ok image =>
          have hready : Ready read fs e line a l image := ⟨harguments, hsettings, himage⟩
          cases hdisasm : a.disasm with
          | true => exact ⟨_, .listed hready hdisasm⟩
          | false =>
            rcases Nat.lt_or_ge 256 image.bytes.length with hlong | hfit
            · exact ⟨_, .tooLong hready hdisasm hlong⟩
            · rcases concludes_or_neverStops (loaded out.device false image).start
                (Mode.ofArguments a l.settings).limit with ⟨n, ending, hrun⟩ | ⟨hlimit, hrun⟩
              · exact ⟨_, .ran hready hdisasm hfit hrun⟩
              · exact ⟨_, .endless hready hdisasm hfit hlimit hrun⟩

theorem Ready.unique (h : Ready read fs e line a l image) (h' : Ready read fs e line a' l' image') :
    a' = a ∧ l' = l ∧ image' = image := by
  obtain rfl : a = a' := by
    have hsame := h.arguments.symm.trans h'.arguments
    cases hsame
    rfl
  have hl : l = l' := Except.ok.inj (h.settings.symm.trans h'.settings)
  have himage : image = image' := Except.ok.inj (h.image.symm.trans h'.image)
  exact ⟨rfl, hl.symm, himage.symm⟩

theorem Decides.unique (h : Decides read fs e line out verdict)
    (h' : Decides read fs e line out verdict') : verdict' = verdict := by
  -- a later rule needs a check to have passed that an earlier one needs to have failed
  cases h with
  | usage h => cases h' <;> grind [Ready]
  | inquiry h => cases h' <;> grind [Ready]
  | settings ha h => cases h' <;> grind [settingsFail_iff, Ready]
  | image ha hl h => cases h' <;> grind [settingsFail_iff, Ready]
  | listed h hdisasm => cases h' <;> grind [settingsFail_iff, Ready]
  | tooLong h hdisasm hlong => cases h' <;> grind [settingsFail_iff, Ready]
  | ran h hdisasm hfit hrun =>
    cases h' with
    | ran h' _ _ hrun' =>
      obtain ⟨rfl, rfl, rfl⟩ := h.unique h'
      obtain ⟨rfl, rfl⟩ := hrun.unique rfl hrun'
      rfl
    | endless h' _ _ hlimit hnever =>
      obtain ⟨rfl, rfl, rfl⟩ := h.unique h'
      rw [hlimit] at hrun
      exact absurd hnever hrun.not_neverStops
    | _ => grind [settingsFail_iff, Ready]
  | endless h hdisasm hfit hlimit hnever =>
    cases h' with
    | ran h' _ _ hrun =>
      obtain ⟨rfl, rfl, rfl⟩ := h.unique h'
      rw [hlimit] at hrun
      exact absurd hnever hrun.not_neverStops
    | _ => grind [settingsFail_iff, Ready]

/-! ## The answer -/

/-- A command that fails before its program starts prints nothing and reports the failure. -/
theorem yields_failed (hown : own c.entries = []) (hcalm : Calm c.entries) (houtput : c.output = "")
    (hfailure : c.failure = some failure) (htorn : c.torn = none) :
    (Verdict.failed failure).Yields out (some (.completed c)) := by
  have hcode : c.code = 1 := by
    simp [Completion.code, hfailure, htorn]
  refine ⟨_, rfl, c.style, hcode, fun w => ⟨houtput, fun log hlog => ?_, c.entries, _, hown,
    failure.reports_report _ _, fun log => c.errorsUnder_of_failure w log hfailure htorn⟩⟩
  have hreport : c.errorsWith w.malformation = failure.report w.malformation c.style := by
    rw [Completion.errorsWith, Completion.notes_of_own hown, String.empty_append,
      Completion.reportWith, hfailure]
  show failure.Reports w.malformation c.style (c.errorsUnder w log)
  rw [Completion.errorsUnder_of_quiet w hlog hcalm htorn, hreport]
  exact failure.reports_report _ _

theorem own_list (out : StandardOutput) (image : Image) : own (list out image).entries = [] := by
  unfold list
  dsimp only
  split <;> rfl

/-- Only of an image that is too long to be run the log is warned. -/
theorem calm_list (out : StandardOutput) (hfit : image.bytes.length ≤ Memory.size) :
    Calm (list out image).entries := by
  unfold list
  dsimp only
  rw [if_neg (Nat.not_lt.2 hfit)]
  exact calm_nil

/-- What takes everything takes a listing. -/
theorem list_of_unlimited (hout : out.device.Unlimited) (image : Image) :
    (list out image).output = image.listing ∧ (list out image).torn = none := by
  have hcontents : Device.contents { out.device with
      written := out.device.written ++ Utf8.encode image.listing } = image.listing := by
    rw [Device.contents_append_encode, Device.contents, out.device_new]
    exact String.empty_append
  simp only [list, Device.write_of_unlimited hout, hcontents, and_self]

/-- A listing is all that is printed, and nothing is reported. -/
theorem yields_listed (hown : own c.entries = [])
    (hcalm : image.bytes.length ≤ Memory.size → Calm c.entries) (hfailure : c.failure = none)
    (hlisting : out.device.Unlimited → c.output = image.listing ∧ c.torn = none) :
    (Verdict.listed image).Yields out (some (.completed c)) := by
  refine ⟨_, rfl, fun hout => ?_⟩
  obtain ⟨houtput, htorn⟩ := hlisting hout
  have hcode : c.code = 0 := by
    simp [Completion.code, hfailure, htorn]
  have herrors : ∀ describe, c.errorsWith describe = "" := by
    intro describe
    rw [Completion.errorsWith, Completion.notes_of_own hown, String.empty_append,
      Completion.reportWith, hfailure]
  refine ⟨hcode, fun w => ⟨houtput, ?_, fun log hlog hfit => ?_⟩⟩
  · exact (Completion.errorsUnder_silent w htorn).trans (herrors _)
  · exact (Completion.errorsUnder_of_quiet w hlog (hcalm hfit) htorn).trans (herrors _)

/-- **The answer is what the rule says.** -/
theorem yields_of_decides (h : Decides read fs e line out verdict) :
    verdict.Yields out (runWith? read fs e line out) := by
  cases h with
  | usage h => exact ⟨_, runWith?_of_usage_error h, rfl, fun w => ⟨rfl, fun log => rfl⟩⟩
  | inquiry h =>
    rcases h with h | h
    · have hanswer : runWith? read fs e line out = some .version := by simp only [runWith?, h]
      exact ⟨_, hanswer, rfl⟩
    · have hanswer : runWith? read fs e line out = some .help := by simp only [runWith?, h]
      exact ⟨_, hanswer, rfl⟩
  | settings ha h =>
    rw [runWith?_of_settings_error ha (settingsFail_iff.1 h)]
    exact yields_failed rfl calm_nil rfl rfl rfl
  | image ha hl h =>
    rw [runWith?_of_image_error ha hl h]
    exact yields_failed (own_logged _) (calm_logged (level_of_mem_root _)) rfl rfl rfl
  | listed h hdisasm =>
    rw [runWith?_of_disasm h.arguments hdisasm h.settings h.image]
    refine yields_listed ((own_after_logged _ _).trans (own_list _ _)) (fun hfit => ?_) rfl
      fun hout => list_of_unlimited hout _
    exact (calm_logged (level_of_mem_preparation _ _ _)).append (calm_list _ hfit)
  | tooLong h hdisasm hlong =>
    rw [runWith?_of_run h.arguments hdisasm h.settings h.image, runImage?_of_size_lt _ _ hlong]
    exact yields_failed (own_after_logged _ _)
      ((calm_logged (level_of_mem_preparation _ _ _)).append calm_nil) rfl rfl rfl
  | ran h hdisasm hfit hrun =>
    obtain ⟨c, hc, -, hconcluded⟩ :=
      runWith?_of_concludes h.arguments hdisasm h.settings h.image hfit hrun
    refine ⟨_, hc, c.style, hconcluded.code, fun w => ⟨hconcluded.output, fun hout => ?_,
      hconcluded.accountsFor w⟩⟩
    exact hconcluded.output.trans (contents_after hout rfl _)
  | endless h hdisasm hfit hlimit hnever =>
    rw [runWith?_of_run h.arguments hdisasm h.settings h.image,
      runImage?_of_neverStops _ hfit hlimit hnever]
    exact rfl

/-- What is completed has a failure that comes before its program starts, or it is a listing, or
the run of a program. Only a run has notes of its own. -/
theorem completed_cases (h : runWith? read fs e line out = some (.completed c)) :
    ∃ a, read line = .ok (.execute a) ∧
      ((∃ failure, c.failure = some failure ∧ own c.entries = [] ∧ c.torn = none ∧
        (SettingsFail fs e failure ∨
          (∃ error, Image.ofFile fs (Path.ofString a.program) = .error error ∧
            failure = .image error) ∨
          ∃ count, failure = .loading (Path.ofString a.program) count (.outOfBounds 256))) ∨
      (c.failure = none ∧ own c.entries = []) ∨
      ∃ image mode n ending,
        Concludes (loaded out.device false image).start mode.limit n ending ∧
        c.Concluded mode (loaded out.device false image).start n ending) := by
  obtain ⟨verdict, hverdict⟩ := exists_decides read fs e line out
  cases hverdict with
  | usage h' =>
    rw [runWith?_of_usage_error h'] at h
    cases h
  | inquiry h' => rcases h' with h' | h' <;> simp [runWith?, h'] at h
  | settings ha hfail =>
    rw [runWith?_of_settings_error ha (settingsFail_iff.1 hfail)] at h
    cases h
    exact ⟨_, ha, .inl ⟨_, rfl, rfl, rfl, .inl hfail⟩⟩
  | image ha hl himage =>
    rw [runWith?_of_image_error ha hl himage] at h
    cases h
    exact ⟨_, ha, .inl ⟨_, rfl, own_logged _, rfl, .inr (.inl ⟨_, himage, rfl⟩)⟩⟩
  | listed hready hdisasm =>
    rw [runWith?_of_disasm hready.arguments hdisasm hready.settings hready.image] at h
    cases h
    exact ⟨_, hready.arguments, .inr (.inl ⟨rfl, (own_after_logged _ _).trans (own_list _ _)⟩)⟩
  | tooLong hready hdisasm hlong =>
    rw [runWith?_of_run hready.arguments hdisasm hready.settings hready.image,
      runImage?_of_size_lt _ _ hlong] at h
    cases h
    exact ⟨_, hready.arguments, .inl ⟨_, rfl, own_after_logged _ _, rfl, .inr (.inr ⟨_, rfl⟩)⟩⟩
  | ran hready hdisasm hfit hrun =>
    obtain ⟨c', hc', -, hconcluded⟩ :=
      runWith?_of_concludes hready.arguments hdisasm hready.settings hready.image hfit hrun
    cases h.symm.trans hc'
    exact ⟨_, hready.arguments, .inr (.inr ⟨_, _, _, _, hrun, hconcluded⟩)⟩
  | endless hready hdisasm hfit hlimit hnever =>
    rw [runWith?_of_run hready.arguments hdisasm hready.settings hready.image,
      runImage?_of_neverStops _ hfit hlimit hnever] at h
    cases h

/-- Standard output took what there was if there is a failure to report. -/
theorem torn_of_failure (h : runWith? read fs e line out = some (.completed c))
    (hfailure : c.failure = some failure) : c.torn = none := by
  obtain ⟨a, -, hcases⟩ := completed_cases h
  rcases hcases with ⟨_, -, -, htorn, -⟩ | ⟨hnone, -⟩ | ⟨_, _, _, _, -, hconcluded⟩
  · exact htorn
  · cases hnone.symm.trans hfailure
  · exact hconcluded.torn

/-- **The first failure decides**, whatever else is wrong: for every command line, environment
and file system exactly one rule applies, and the answer is what it says. This is so however the
command line is read. As the command reads it, a command line without a word that asks about the
command is not answered with the version or the help. -/
theorem first_failure_decides (read : Reader) (fs : FileSystem) (e : Environment)
    (line : List String) (out : StandardOutput) :
    (∃! verdict, Decides read fs e line out verdict) ∧
    (∀ verdict, Decides read fs e line out verdict →
      verdict.Yields out (runWith? read fs e line out)) ∧
    ((∀ word ∈ line, ¬ Arguments.Inquires word) →
      ¬ Decides Arguments.parse fs e line out .inquiry) := by
  refine ⟨?_, fun verdict h => yields_of_decides h, fun hwords h => ?_⟩
  · obtain ⟨verdict, h⟩ := exists_decides read fs e line out
    exact ⟨verdict, h, fun verdict' h' => h.unique h'⟩
  · cases h with
    | inquiry h =>
      obtain ⟨word, hmem, hword⟩ := Arguments.exists_inquires_of_parse h
      exact hwords word hmem hword

/-- Nothing is in order here: the settings file, the variable and the image, of which the file
decides. An argument that would set the limit aside does not help, nor does listing. -/
theorem first_failure_decides_severalAtOnce :
    let files := filesAt [("/ls8.toml", "[run]\nmax_steps = 0\n")]
    let environment : Environment := ⟨[("LS8_MAX_STEPS", "none".toUTF8)]⟩
    (∃ answer style,
      run? files environment ["--max-steps=1", "--disasm", "missing"] = some answer ∧
      answer.code = 1 ∧ answer.outputWith .plain = "" ∧
      answer.errorsUnder .plain (plainLogger.logIn environment) =
        "error: Invalid value for 'run.max_steps': must be greater than zero\n" ∧
      (Failure.settings (.invalidValue "run.max_steps" "must be greater than zero")).Reports
        Malformation.message style
        (answer.errorsUnder .plain (plainLogger.logIn environment))) ∧
    ∃ answer, run? files environment ["--max-steps=0", "missing"] = some answer ∧
      answer.code = 2 ∧ answer.outputWith .plain = "" := by
  intro files environment
  have hlog : (plainLogger.logIn environment).Quiet :=
    Logger.quiet_of_unset keepsToWarnings_plainLogger (by decide +kernel)
  constructor
  · obtain ⟨-, hyields, -⟩ := first_failure_decides Arguments.parse files environment
      ["--max-steps=1", "--disasm", "missing"] {}
    have ha : Arguments.parse ["--max-steps=1", "--disasm", "missing"] =
        .ok (.execute { program := "missing", disasm := true, maxSteps := some 1 }) := by
      decide +kernel
    have hfile : LoadedSettings.fileSettings files (Path.ofString "/") =
        .error (.invalidValue "run.max_steps" "must be greater than zero") := by decide +kernel
    obtain ⟨answer, hanswer, style, hcode, htexts⟩ := hyields _ (.settings ha (.file rfl hfile))
    obtain ⟨houtput, herrors⟩ := htexts .plain
    exact ⟨answer, style, hanswer, hcode, houtput,
      errorsUnder_of_run? hanswer (by decide +kernel), herrors.quiet _ hlog⟩
  · obtain ⟨-, hyields, -⟩ :=
      first_failure_decides Arguments.parse files environment ["--max-steps=0", "missing"] {}
    have h : Arguments.parse ["--max-steps=0", "missing"] = .error (.invalidLimit "0") := by
      decide +kernel
    obtain ⟨answer, hanswer, hcode, htexts⟩ := hyields _ (.usage h)
    exact ⟨answer, hanswer, hcode, (htexts .plain).1⟩

end LS8.Command
