import LS8.Proofs.Command.Report
import LS8.Proofs.Image.Language
import LS8.Proofs.Settings.Nearest
import LS8.Proofs.Settings.Variables

/-!
# How many lines a report has

A report in text is meant to be a single line. Nothing in it is escaped, however, so a text from
outside that is quoted in it can bring line feeds of its own: the path of the program, the value
of the variable with the limit, and what the operating system or the output device says.

- `Arises`: the failures that a command can end with, and `arises_of_runWith?` that there are no
  others;
- `Quotes`: the texts from outside in the report on a failure;
- `report_singleLine_iff`: a report is a single line exactly if none of these texts has a line
  feed. Whatever is wrong with the contents of an image or with a run is told in a single line.
-/

namespace LS8.Command

/-- The text is one line, with the only line feed at its end. -/
def SingleLine (text : String) : Prop :=
  ∃ line, text = line ++ "\n" ∧ '\n' ∉ line.toList

/-- The failures of a command with the given arguments. -/
inductive Arises (e : Environment) (a : Arguments) : Failure → Prop where
  | workingDirectory (failure : ReadFailure) : Arises e a (.workingDirectory failure)
  | limitVariable (text : String) (h : e.text? "LS8_MAX_STEPS" = some text) :
    Arises e a (.settings (.invalidValue "LS8_MAX_STEPS"
      ("'" ++ text ++ "' is not a positive integer")))
  | settingsFile (failure : ReadFailure) : Arises e a (.settings (.unreadable failure))
  | malformed (file : Path) (what : Malformation) : Arises e a (.settings (.malformed file what))
  | zeroLimit : Arises e a
      (.settings (.invalidValue "run.max_steps" "must be greater than zero"))
  | imageFile (failure : ReadFailure) :
    Arises e a (.image (.unreadable (Path.ofString a.program) failure))
  | token (number : Nat) (token : String) (h : ∀ c ∈ token.toList, Text.isBlank c = false) :
    Arises e a (.image (.invalidByte number token))
  | tooLong (count : Nat) :
    Arises e a (.loading (Path.ofString a.program) count (.outOfBounds 256))
  | fault (f : Fault) : Arises e a (.fault f)
  | stepLimit (limit address : Nat) : Arises e a (.stepLimit limit address)

/-- The texts from outside that the report on a failure quotes as they are. -/
inductive Quotes (e : Environment) (a : Arguments) : Failure → String → Prop where
  /-- What the variable holds that should be a limit. -/
  | limitVariable (text reason : String) (h : e.text? "LS8_MAX_STEPS" = some text) :
    Quotes e a (.settings (.invalidValue "LS8_MAX_STEPS" reason)) text
  /-- The path of the image, as it stands on the command line. -/
  | unreadable (path : Path) (failure : ReadFailure) :
    Quotes e a (.image (.unreadable path failure)) a.program
  | tooLong (path : Path) (count : Nat) (f : Fault) : Quotes e a (.loading path count f) a.program
  /-- What the operating system says of the working directory, or of a file. -/
  | ofWorkingDirectory (text : String) : Quotes e a (.workingDirectory (.other text)) text
  | ofSettings (text : String) : Quotes e a (.settings (.unreadable (.other text))) text
  | ofImage (path : Path) (text : String) :
    Quotes e a (.image (.unreadable path (.other text))) text
  /-- What the device says that does not take the output. -/
  | ofDevice (reason : String) : Quotes e a (.fault (.outputFailed reason)) reason

variable {read : Reader} {fs : FileSystem} {e : Environment} {line : List String}
  {out : StandardOutput} {a : Arguments} {c : Completion} {failure : Failure} {m : Machine}
  {limit : Option Nat} {n : Nat} {ending : Ending} {f : Fault}

/-! ## The failures of a command -/

/-- Whatever is wrong with settings, it is not that a file is missing. -/
theorem arises_of_settingsFail (a : Arguments) (h : SettingsFail fs e failure) :
    Arises e a failure := by
  cases h with
  | workingDirectory => exact .workingDirectory _
  | @file directory error h hfile =>
    unfold LoadedSettings.fileSettings at hfile
    cases hnearest : LoadedSettings.nearest? fs directory with
    | none =>
      simp only [hnearest] at hfile
      cases hfile
    | some root =>
      simp only [hnearest] at hfile
      obtain ⟨-, -, ⟨entry, hentry⟩, -⟩ := LoadedSettings.nearest?_eq_some_iff.1 hnearest
      cases Settings.unusable_of_ofFile hentry hfile with
      | directory | locked | notText => exact .settingsFile _
      | malformed => exact .malformed _ _
      | zeroLimit => exact .zeroLimit
  | limitVariable h hfile htext hlimit =>
    obtain ⟨-, rfl⟩ := Settings.limitOfText_eq_error_iff.1 hlimit
    exact .limitVariable _ htext

/-- A token has no blanks, so it cannot go over more than one line. -/
theorem arises_of_image_error (e : Environment) {imageError : ImageError}
    (h : Image.ofFile fs (Path.ofString a.program) = .error imageError) :
    Arises e a (.image imageError) := by
  unfold Image.ofFile at h
  cases htext : fs.readText (Path.ofString a.program) with
  | error failure =>
    simp only [htext] at h
    obtain rfl := Except.error.inj h
    exact .imageFile failure
  | ok text =>
    simp only [htext] at h
    obtain ⟨k, t, ⟨⟨imageLine, -, htoken⟩, -⟩, rfl⟩ := Image.parse_eq_error_iff.1 h
    obtain ⟨-, -, -, -, -, -, -, -, hblank, -⟩ := htoken
    refine .token _ _ ?_
    rwa [String.toList_ofList]

theorem arises_of_concludes (e : Environment) (a : Arguments) (h : Concludes m limit n ending)
    (hfailure : ending.failure? = some failure) : Arises e a failure := by
  cases h with
  | halts => cases hfailure
  | faults =>
    obtain rfl := Option.some.inj hfailure
    exact .fault _
  | limited =>
    obtain rfl := Option.some.inj hfailure
    exact .stepLimit _ _

/-- **A command fails in these ways only.** -/
theorem arises_of_runWith? (ha : read line = .ok (.execute a))
    (h : runWith? read fs e line out = some (.completed c)) (hfailure : c.failure = some failure) :
    Arises e a failure := by
  obtain ⟨a', ha', hcases⟩ := completed_cases h
  cases ha.symm.trans ha'
  rcases hcases with ⟨failure', hfailure', -, -, hbefore⟩ | ⟨hnone, -⟩ |
    ⟨image, mode, n, ending, hrun, hconcluded⟩
  · obtain rfl := Option.some.inj (hfailure'.symm.trans hfailure)
    rcases hbefore with hfail | ⟨error, himage, rfl⟩ | ⟨count, rfl⟩
    · exact arises_of_settingsFail a hfail
    · exact arises_of_image_error e himage
    · exact .tooLong count
  · cases hnone.symm.trans hfailure
  · exact arises_of_concludes e a hrun (hconcluded.failure.symm.trans hfailure)

/-! ## The line feeds of a report -/

theorem singleLine_lineFeed_iff {text : String} :
    SingleLine (text ++ "\n") ↔ '\n' ∉ text.toList := by
  constructor
  · rintro ⟨line, heq, hline⟩
    obtain rfl := (String.append_left_inj "\n").1 heq
    exact hline
  · exact fun h => ⟨text, rfl, h⟩

/-- The report on a failure has as many lines as the texts in it. -/
theorem mem_toList_text_iff (describe : Malformation → String) (failure : Failure) :
    '\n' ∈ (failure.text describe).toList ↔
      ∃ text ∈ failure.chain describe, '\n' ∈ text.toList := by
  rw [Failure.text, String.toList_intercalate, Text.mem_intercalate_iff (by decide)]
  simp

/-- Only what is wrong with a settings file is worded by others. -/
theorem text_eq_text (describe describe' : Malformation → String)
    (htoml : ∀ file what, failure ≠ .settings (.malformed file what)) :
    failure.text describe = failure.text describe' := by
  unfold Failure.text
  cases failure with
  | settings error =>
    cases error with
    | malformed file what => exact absurd rfl (htoml file what)
    | _ => rfl
  | _ => rfl

/-- Of what is said of a file, only the words of the operating system are not known. -/
theorem lineFeed_mem_message_iff {failure : ReadFailure} : '\n' ∈ failure.message.toList ↔
    ∃ text, failure = .other text ∧ '\n' ∈ text.toList := by
  cases failure with
  | other text =>
    show '\n' ∈ text.toList ↔ _
    simp
  | _ => simp [ReadFailure.message]

section Messages

variable (describe : Malformation → String)

theorem lineFeed_mem_invalidValue_iff (field reason : String) :
    '\n' ∈ (Failure.text describe (.settings (.invalidValue field reason))).toList ↔
      '\n' ∈ field.toList ∨ '\n' ∈ reason.toList := by
  rw [mem_toList_text_iff]
  show (∃ message ∈ ["Invalid value for '" ++ field ++ "': " ++ reason],
    '\n' ∈ message.toList) ↔ _
  simp

theorem lineFeed_mem_settings_iff (failure : ReadFailure) :
    '\n' ∈ (Failure.text describe (.settings (.unreadable failure))).toList ↔
      ∃ text, failure = .other text ∧ '\n' ∈ text.toList := by
  rw [mem_toList_text_iff]
  show (∃ message ∈ ["Failed to read configuration file: " ++ failure.message, failure.message],
    '\n' ∈ message.toList) ↔ _
  simp [lineFeed_mem_message_iff]

theorem lineFeed_mem_workingDirectory_iff (failure : ReadFailure) :
    '\n' ∈ (Failure.text describe (.workingDirectory failure)).toList ↔
      ∃ text, failure = .other text ∧ '\n' ∈ text.toList := by
  rw [mem_toList_text_iff]
  show (∃ message ∈ [failure.message], '\n' ∈ message.toList) ↔ _
  simp [lineFeed_mem_message_iff]

theorem lineFeed_mem_image_iff (path : Path) (failure : ReadFailure) :
    '\n' ∈ (Failure.text describe (.image (.unreadable path failure))).toList ↔
      '\n' ∈ path.text.toList ∨ ∃ text, failure = .other text ∧ '\n' ∈ text.toList := by
  rw [mem_toList_text_iff]
  show (∃ message ∈ ["failed to read program image " ++ path.text ++ ": " ++ failure.message,
    failure.message], '\n' ∈ message.toList) ↔ _
  simp [lineFeed_mem_message_iff]

theorem lineFeed_notMem_decimal (n : Nat) : '\n' ∉ (Numeral.decimal n).toList :=
  fun hfeed => absurd (Numeral.isAlphanum_of_mem_decimal hfeed) (by decide)

theorem lineFeed_mem_invalidByte_iff (number : Nat) (token : String) :
    '\n' ∈ (Failure.text describe (.image (.invalidByte number token))).toList ↔
      '\n' ∈ token.toList := by
  rw [mem_toList_text_iff]
  show (∃ message ∈ ["line " ++ Numeral.decimal number ++ ": '" ++ token ++
    "' is not a binary byte"], '\n' ∈ message.toList) ↔ _
  simp [lineFeed_notMem_decimal]

theorem lineFeed_notMem_fault (h : f.IsOfMachine) :
    '\n' ∉ (Failure.text describe (.fault f)).toList := by
  rw [mem_toList_text_iff]
  show ¬ ∃ message ∈ f.message :: Failure.causeOfFault f, '\n' ∈ message.toList
  have hmessage := Fault.lineFeed_notMem_message h
  cases f with
  | outputFailed reason => exact h.elim
  | _ => simpa [Failure.causeOfFault] using hmessage

theorem lineFeed_mem_outputFailed_iff (reason : String) :
    '\n' ∈ (Failure.text describe (.fault (.outputFailed reason))).toList ↔
      '\n' ∈ reason.toList := by
  rw [mem_toList_text_iff]
  show (∃ message ∈ ["failed to write output: " ++ reason, reason], '\n' ∈ message.toList) ↔ _
  simp

theorem lineFeed_mem_loading_iff (path : Path) (count : Nat) (h : f.IsOfMachine) :
    '\n' ∈ (Failure.text describe (.loading path count f)).toList ↔ '\n' ∈ path.text.toList := by
  have hfault := lineFeed_notMem_fault describe h
  rw [mem_toList_text_iff] at hfault ⊢
  show (∃ message ∈ ("program image " ++ path.text ++ " does not fit in memory (" ++
    Numeral.decimal count ++ " bytes)") :: Failure.chain describe (.fault f),
      '\n' ∈ message.toList) ↔ _
  rw [List.exists_mem_cons_iff, or_iff_left hfault]
  simp [lineFeed_notMem_decimal]

theorem lineFeed_notMem_stepLimit (limit address : Nat) :
    '\n' ∉ (Failure.text describe (.stepLimit limit address)).toList := by
  rw [mem_toList_text_iff]
  show ¬ ∃ message ∈ ["step limit of " ++ Numeral.decimal limit ++
    " instructions reached at address " ++ Numeral.decimal address], '\n' ∈ message.toList
  simp [lineFeed_notMem_decimal]

end Messages

/-- **A failure is told in a single line** exactly if no text that it quotes has a line feed. -/
theorem lineFeed_mem_text_iff (h : Arises e a failure) (describe : Malformation → String)
    (htoml : ∀ file what, failure ≠ .settings (.malformed file what)) :
    '\n' ∈ (failure.text describe).toList ↔
      ∃ text, Quotes e a failure text ∧ '\n' ∈ text.toList := by
  have hnothing : ∀ {failure}, '\n' ∉ (Failure.text describe failure).toList →
      (∀ text, ¬ Quotes e a failure text) → ('\n' ∈ (Failure.text describe failure).toList ↔
        ∃ text, Quotes e a failure text ∧ '\n' ∈ text.toList) := by
    intro failure hfeed hnone
    refine iff_of_false hfeed ?_
    rintro ⟨text, hquotes, -⟩
    exact hnone text hquotes
  cases h with
  | workingDirectory failure =>
    rw [lineFeed_mem_workingDirectory_iff]
    constructor
    · rintro ⟨text, rfl, hfeed⟩
      exact ⟨text, .ofWorkingDirectory text, hfeed⟩
    · rintro ⟨text, hquotes, hfeed⟩
      cases hquotes
      exact ⟨text, rfl, hfeed⟩
  | limitVariable text htext =>
    rw [lineFeed_mem_invalidValue_iff]
    constructor
    · exact fun hfeed => ⟨text, .limitVariable text _ htext, by simpa using hfeed⟩
    · rintro ⟨text', hquotes, hfeed⟩
      cases hquotes with
      | limitVariable _ _ htext' =>
        obtain rfl := Option.some.inj (htext.symm.trans htext')
        exact .inr (by simpa using hfeed)
  | settingsFile failure =>
    rw [lineFeed_mem_settings_iff]
    constructor
    · rintro ⟨text, rfl, hfeed⟩
      exact ⟨text, .ofSettings text, hfeed⟩
    · rintro ⟨text, hquotes, hfeed⟩
      cases hquotes
      exact ⟨text, rfl, hfeed⟩
  | malformed file what => exact absurd rfl (htoml file what)
  | zeroLimit =>
    refine hnothing ?_ fun text hquotes => ?_
    · rw [lineFeed_mem_invalidValue_iff]
      simp
    · generalize hfield : "run.max_steps" = field at hquotes
      cases hquotes
      exact absurd hfield (by decide)
  | imageFile failure =>
    rw [lineFeed_mem_image_iff, Path.text_ofString]
    constructor
    · rintro (hfeed | ⟨text, rfl, hfeed⟩)
      · exact ⟨_, .unreadable _ failure, hfeed⟩
      · exact ⟨text, .ofImage _ text, hfeed⟩
    · rintro ⟨text, hquotes, hfeed⟩
      cases hquotes with
      | unreadable => exact .inl hfeed
      | ofImage => exact .inr ⟨text, rfl, hfeed⟩
  | token number token hblank =>
    refine hnothing ?_ (by rintro text ⟨⟩)
    rw [lineFeed_mem_invalidByte_iff]
    exact fun hfeed => absurd (hblank '\n' hfeed) (by decide)
  | tooLong count =>
    have hfault : (Fault.outOfBounds 256).IsOfMachine := trivial
    rw [lineFeed_mem_loading_iff describe _ _ hfault, Path.text_ofString]
    constructor
    · exact fun hfeed => ⟨_, .tooLong _ _ _, hfeed⟩
    · rintro ⟨text, hquotes, hfeed⟩
      cases hquotes
      exact hfeed
  | fault f =>
    cases f with
    | outputFailed reason =>
      rw [lineFeed_mem_outputFailed_iff]
      constructor
      · exact fun hfeed => ⟨reason, .ofDevice reason, hfeed⟩
      · rintro ⟨text, hquotes, hfeed⟩
        cases hquotes
        exact hfeed
    | _ => exact hnothing (lineFeed_notMem_fault describe trivial) (by rintro text ⟨⟩)
  | stepLimit limit address =>
    exact hnothing (lineFeed_notMem_stepLimit describe limit address) (by rintro text ⟨⟩)

/-- **A report in text is a single line** exactly if the texts that it quotes have no line feed.
Every command that exits with 1 has a failure to report, behind whole lines. If the report is in
text and is not about the syntax of a settings file, then it is `error:`, which may be coloured,
and the message that tells the failure. It is the last that goes to standard error, whatever was
logged before. The path of the program, the variable with the limit and the words of the operating
system and of the device stand in the message as they are; nothing else in it has a line feed. -/
theorem report_singleLine_iff (read : Reader) (fs : FileSystem) (e : Environment)
    (line : List String) (out : StandardOutput) (answer : Answer)
    (hanswer : runWith? read fs e line out = some answer) (hcode : answer.code = 1) :
    ∃ a c failure, read line = .ok (.execute a) ∧ answer = .completed c ∧
      c.failure = some failure ∧ WholeLines c.notes ∧
      (c.style.json = false → (∀ file what, failure ≠ .settings (.malformed file what)) →
        ∃ message, (∀ describe, failure.Says describe message) ∧
          (∀ w, answer.errorsWith w =
            c.notes ++ (Failure.label c.style.colour ++ " " ++ message ++ "\n")) ∧
          (∀ w log, answer.errorsUnder w log =
            Note.join log c.entries ++ (Failure.label c.style.colour ++ " " ++ message ++ "\n")) ∧
          (SingleLine (Failure.label c.style.colour ++ " " ++ message ++ "\n") ↔
            ∀ text, Quotes e a failure text → '\n' ∉ text.toList)) := by
  obtain ⟨a, c, failure, ha, rfl, hfailure, htorn⟩ := exists_failure_of_code hanswer hcode
  refine ⟨a, c, failure, ha, rfl, hfailure, wholeLines_of_runWith? hanswer, fun hjson htoml => ?_⟩
  have harises : Arises e a failure := arises_of_runWith? ha hanswer hfailure
  have hlogged : ∀ w log, c.errorsUnder w log = Note.join log c.entries ++
      (Failure.label c.style.colour ++ " " ++ failure.text Malformation.message ++ "\n") := by
    intro w log
    rw [c.errorsUnder_of_failure w log hfailure htorn,
      text_eq_text Malformation.message w.malformation htoml]
    simp [Failure.report, hjson]
  refine ⟨failure.text Malformation.message, fun describe => ?_, fun w => hlogged w .silent,
    hlogged, ?_⟩
  · rw [text_eq_text Malformation.message describe htoml]
    exact failure.says_text describe
  · have hlabel : '\n' ∉ (Failure.label c.style.colour).toList := by
      cases c.style.colour <;> decide
    rw [singleLine_lineFeed_iff, String.toList_append, String.toList_append, List.mem_append,
      List.mem_append, lineFeed_mem_text_iff harises _ htoml]
    simp [hlabel]

/-- A bad word in an image is reported in a single line. A bad value of the variable is not if it
has a line feed, even if the line feed is where blanks are allowed. -/
theorem report_singleLine_iff_variable :
    (∃ message, SingleLine ("error:" ++ " " ++ message ++ "\n") ∧
      (run? (filesAt [("p", "1\n10z #\n")]) ⟨[]⟩ ["p"]).map Answer.errors =
        some ("" ++ ("error:" ++ " " ++ message ++ "\n"))) ∧
    ∃ message, ¬ SingleLine ("error:" ++ " " ++ message ++ "\n") ∧
      (run? (filesAt []) ⟨[("LS8_MAX_STEPS", "0\n".toUTF8)]⟩ ["p"]).map Answer.errors =
        some ("" ++ ("error:" ++ " " ++ message ++ "\n")) := by
  constructor
  · have hrun : run? (filesAt [("p", "1\n10z #\n")]) ⟨[]⟩ ["p"] = some (.completed {
        failure := some (.image (.invalidByte 2 "10z")) }) := by decide +kernel
    obtain ⟨a, c, failure, -, hanswer, hfailure, -, hreport⟩ :=
      report_singleLine_iff _ _ _ _ _ _ hrun rfl
    cases hanswer
    cases hfailure
    obtain ⟨message, -, herrors, -, hsingle⟩ := hreport rfl (by rintro file what ⟨⟩)
    refine ⟨message, hsingle.2 (by rintro text ⟨⟩), ?_⟩
    rw [hrun, Option.map_some]
    exact congrArg some (herrors _)
  · have hrun : run? (filesAt []) ⟨[("LS8_MAX_STEPS", "0\n".toUTF8)]⟩ ["p"] =
        some (.completed { failure := some (.settings (.invalidValue "LS8_MAX_STEPS"
          "'0\n' is not a positive integer")) }) := by decide +kernel
    have htext : Environment.text? ⟨[("LS8_MAX_STEPS", "0\n".toUTF8)]⟩ "LS8_MAX_STEPS" =
        some "0\n" := by decide +kernel
    obtain ⟨a, c, failure, -, hanswer, hfailure, -, hreport⟩ :=
      report_singleLine_iff _ _ _ _ _ _ hrun rfl
    cases hanswer
    cases hfailure
    obtain ⟨message, -, herrors, -, hsingle⟩ := hreport rfl (by rintro file what ⟨⟩)
    refine ⟨message, fun h => ?_, ?_⟩
    · exact absurd (hsingle.1 h "0\n" (.limitVariable _ _ htext)) (by decide)
    · rw [hrun, Option.map_some]
      exact congrArg some (herrors _)

/-- An image is missing whose name has a line feed: its report is over two lines. -/
theorem not_singleLine_missing :
    ∃ answer, run? (filesAt []) ⟨[]⟩ ["a\nb"] = some answer ∧ answer.code = 1 ∧
      answer.errors = "error: failed to read program image a\nb: "
        ++ "No such file or directory (os error 2): No such file or directory (os error 2)\n" ∧
      ¬ SingleLine answer.errors := by
  have hrun : run? (filesAt []) ⟨[]⟩ ["a\nb"] = some (.completed {
      failure := some (.image (.unreadable (Path.ofString "a\nb") .notFound)) }) := by
    decide +kernel
  have herrors : Answer.errors (.completed {
      failure := some (.image (.unreadable (Path.ofString "a\nb") .notFound)) }) =
      "error: failed to read program image a\nb: "
        ++ "No such file or directory (os error 2): No such file or directory (os error 2)"
        ++ "\n" := by decide +kernel
  refine ⟨_, hrun, rfl, herrors, ?_⟩
  rw [herrors, singleLine_lineFeed_iff]
  decide +kernel

end LS8.Command
