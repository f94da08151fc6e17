import LS8.Command
import LS8.Proofs.Fault.Message
import LS8.Proofs.Json.Recovery

/-!
# What a report tells

A report is a message behind `error:`, or a line of JSON. `Failure.Reports` says which texts are a
report on a failure, without regard to how they are put together, and `Failure.reports_report` that
the text put together is one:

- `Failure.Says` are the messages, one form for each kind of failure; what is behind a failure is
  told behind a colon;
- `IsDiagnostic` are the members of the JSON object on a fault. On any other failure the object
  just has the message.
-/

namespace LS8

/-- The words in which a fault is told. What a device said is told once more, as the cause. -/
inductive Fault.Says : Fault → String → Prop
  | ofMachine {f : Fault} (h : f.IsOfMachine) : Says f f.message
  | outputFailed (reason : String) : Says (.outputFailed reason)
      ("failed to write output: " ++ reason ++ ": " ++ reason)

namespace Command

open Json (Document fieldDocument)

variable {failure : Failure} {f : Fault} {describe : Malformation → String}
  {style : Failure.Style}

/-! ## Messages -/

/-- The words in which a failure is told, where `describe` words what is wrong with a settings
file. What the operating system said of a file is told once more, as the cause. -/
inductive Failure.Says (describe : Malformation → String) : Failure → String → Prop
  | workingDirectory (failure : ReadFailure) :
    Says describe (.workingDirectory failure) failure.message
  | notFound (path : Path) : Says describe (.settings (.notFound path))
      ("Configuration file not found: " ++ path.text)
  | settings (failure : ReadFailure) : Says describe (.settings (.unreadable failure))
      ("Failed to read configuration file: " ++ failure.message ++ ": " ++ failure.message)
  | malformed (file : Path) (what : Malformation) : Says describe (.settings (.malformed file what))
      ("Invalid TOML syntax in " ++ file.text ++ ": " ++ describe what)
  | invalidValue (field reason : String) : Says describe (.settings (.invalidValue field reason))
      ("Invalid value for '" ++ field ++ "': " ++ reason)
  | image (path : Path) (failure : ReadFailure) : Says describe (.image (.unreadable path failure))
      ("failed to read program image " ++ path.text ++ ": " ++ failure.message ++ ": "
        ++ failure.message)
  | invalidByte (number : Nat) (token : String) : Says describe (.image (.invalidByte number token))
      ("line " ++ Numeral.decimal number ++ ": '" ++ token ++ "' is not a binary byte")
  | loading (program : Path) (count : Nat) {f : Fault} {words : String} (h : f.Says words) :
    Says describe (.loading program count f)
      ("program image " ++ program.text ++ " does not fit in memory (" ++ Numeral.decimal count
        ++ " bytes): " ++ words)
  | fault {f : Fault} {words : String} (h : f.Says words) : Says describe (.fault f) words
  | stepLimit (limit address : Nat) : Says describe (.stepLimit limit address)
      ("step limit of " ++ Numeral.decimal limit ++ " instructions reached at address "
        ++ Numeral.decimal address)

theorem says_intercalate (f : Fault) :
    f.Says (String.intercalate ": " (f.message :: Failure.causeOfFault f)) := by
  cases f with
  | outputFailed reason => exact .outputFailed reason
  | _ => exact .ofMachine trivial

/-- **The text of a failure tells it.** -/
theorem Failure.says_text (describe : Malformation → String) (failure : Failure) :
    failure.Says describe (failure.text describe) := by
  cases failure with
  | workingDirectory failure => exact .workingDirectory failure
  | settings error =>
    cases error with
    | notFound path => exact .notFound path
    | unreadable failure => exact .settings failure
    | malformed file what => exact .malformed file what
    | invalidValue field reason => exact .invalidValue field reason
  | image error =>
    cases error with
    | unreadable path failure => exact .image path failure
    | invalidByte number token => exact .invalidByte number token
  | loading program count f =>
    have htext : Failure.text describe (.loading program count f) =
        "program image " ++ program.text ++ " does not fit in memory (" ++ Numeral.decimal count
          ++ " bytes): " ++ String.intercalate ": " (f.message :: Failure.causeOfFault f) := by
      unfold Failure.text
      rw [Failure.chain, String.intercalate_cons_cons]
      simp [String.append_assoc]
    rw [htext]
    exact .loading program count (says_intercalate f)
  | fault f => exact .fault (says_intercalate f)
  | stepLimit limit address => exact .stepLimit limit address

/-! ## Diagnostics -/

/-- A fault is at the root of a failure, be it that an image was not loaded or that it was not
run to its end. -/
inductive Failure.StemsFrom (f : Fault) : Failure → Prop
  | fault : StemsFrom f (.fault f)
  | loading (program count) : StemsFrom f (.loading program count f)

/-- The members are the diagnostic of a fault: its code and its message, the version of this form
of reports, and the address and the opcode if the fault is about them. -/
structure IsDiagnostic (f : Fault) (members : List (String × Document)) : Prop where
  keys_nodup : (members.map Prod.fst).Nodup
  keys : ∀ key ∈ members.map Prod.fst,
    key ∈ ["address", "code", "diag_version", "message", "opcode"]
  version : members.lookup "diag_version" = some (.number 1 0)
  code : members.lookup "code" = some (.string f.code)
  message : members.lookup "message" = some (.string f.message)
  address : members.lookup "address" = f.address?.map fun address => .number address 0
  opcode : members.lookup "opcode" =
    f.opcode?.map fun opcode => .string (Numeral.binaryByte opcode)

theorem isDiagnostic_fields (f : Fault) :
    IsDiagnostic f ((Diagnostic.ofFault f).fields.map fieldDocument) := by
  have hkeys : (((Diagnostic.ofFault f).fields.map fieldDocument).map Prod.fst).Sublist
      ["address", "code", "diag_version", "message", "opcode"] := by
    unfold Diagnostic.fields
    cases (Diagnostic.ofFault f).address <;> cases (Diagnostic.ofFault f).opcode <;>
      simp [fieldDocument]
  refine ⟨hkeys.nodup (by decide), hkeys.subset, ?_, ?_, ?_, ?_, ?_⟩
  all_goals cases f <;> rfl

theorem Failure.fault?_eq_some_iff : failure.fault? = some f ↔ failure.StemsFrom f := by
  constructor
  · intro h
    cases failure with
    | fault f' =>
      obtain rfl := Option.some.inj h
      exact .fault
    | loading program count f' =>
      obtain rfl := Option.some.inj h
      exact .loading program count
    | workingDirectory | settings | image | stepLimit => cases h
  · intro h
    cases h <;> rfl

/-! ## Reports -/

/-- The text is a report on a failure, its line feed included: the message behind `error:`, which
may be bold and red, or one line that is read as a JSON object. -/
inductive Failure.Reports (describe : Malformation → String) (failure : Failure) :
    Failure.Style → String → Prop
  | plain {message : String} (h : failure.Says describe message) :
    Reports describe failure ⟨false, false⟩ ("error: " ++ message ++ "\n")
  | coloured {message : String} (h : failure.Says describe message) :
    Reports describe failure ⟨false, true⟩ ("\x1b[1;31merror:\x1b[0m " ++ message ++ "\n")
  | diagnostic {colour : Bool} {f : Fault} {line : String} {members : List (String × Document)}
    (h : failure.StemsFrom f) (hline : '\n' ∉ line.toList)
    (hread : Json.read line = some (.object members)) (hmembers : IsDiagnostic f members) :
    Reports describe failure ⟨true, colour⟩ (line ++ "\n")
  | message {colour : Bool} {line message : String} (h : ∀ f, ¬ failure.StemsFrom f)
    (hline : '\n' ∉ line.toList)
    (hread : Json.read line = some (.object [("message", .string message)]))
    (hmessage : failure.Says describe message) :
    Reports describe failure ⟨true, colour⟩ (line ++ "\n")

theorem Failure.report_of_fault (hjson : style.json = true) (h : failure.fault? = some f) :
    failure.report describe style = Json.object (Diagnostic.ofFault f).fields ++ "\n" := by
  simp only [Failure.report, hjson, if_true, h, Diagnostic.json]

theorem Failure.report_of_no_fault (hjson : style.json = true) (h : failure.fault? = none) :
    failure.report describe style =
      Json.object [("message", .text (failure.text describe))] ++ "\n" := by
  simp only [Failure.report, hjson, if_true, h]

/-- **What is reported is a report.** -/
theorem Failure.reports_report (describe : Malformation → String) (style : Failure.Style)
    (failure : Failure) : failure.Reports describe style (failure.report describe style) := by
  obtain ⟨json, colour⟩ := style
  have hsays := failure.says_text describe
  cases json with
  | false =>
    cases colour with
    | false => exact .plain hsays
    | true => exact .coloured hsays
  | true =>
    cases hfault : failure.fault? with
    | some f =>
      rw [Failure.report_of_fault rfl hfault]
      exact .diagnostic (Failure.fault?_eq_some_iff.1 hfault) (Json.lineFeed_notMem_object _)
        (Json.read_object _) (isDiagnostic_fields f)
    | none =>
      have hnone : ∀ f, ¬ failure.StemsFrom f := by
        intro f hf
        rw [Failure.fault?_eq_some_iff.2 hf] at hfault
        cases hfault
      rw [Failure.report_of_no_fault rfl hfault]
      exact .message hnone (Json.lineFeed_notMem_object _) (Json.read_object _) hsays

end Command

end LS8
