import LS8.Command.Session
import LS8.Diagnostic
import LS8.Settings.Error

/-!
# Error reports

What can go wrong once the arguments are understood, and how it is reported: as
one line of text behind `error:`, or as one line of JSON.

The text names every cause down to the last one, each behind a colon, so that the
failure of a file shows both within the message and as the cause behind it. The
JSON report of a fault is its `Diagnostic`; any other failure has its text as the
only field.
-/

namespace LS8.Command

/-- Why the emulator fails. -/
inductive Failure where
  /-- It is not known where to look for settings. -/
  | workingDirectory (failure : ReadFailure)
  | settings (error : SettingsError)
  | image (error : ImageError)
  /-- The image does not fit into memory. -/
  | loading (program : Path) (count : Nat) (fault : Fault)
  | fault (fault : Fault)
  | stepLimit (limit address : Nat)
deriving DecidableEq, Repr

namespace Failure

/-- The cause behind the message of a fault: what the device said. -/
def causeOfFault : Fault → List String
  | .outputFailed reason => [reason]
  | _ => []

/-- The messages of a failure and of the causes behind it, the outermost first, where
`describe` words what is wrong with a settings file. -/
def chain (describe : Malformation → String) : Failure → List String
  | workingDirectory failure => [failure.message]
  | settings error => error.messageWith describe :: match error with
    | .unreadable failure => [failure.message]
    | _ => []
  | image error => error.message :: match error with
    | .unreadable _ failure => [failure.message]
    | _ => []
  | loading program count f =>
    ("program image " ++ program.text ++ " does not fit in memory (" ++ Numeral.decimal count
      ++ " bytes)") :: f.message :: causeOfFault f
  | fault f => f.message :: causeOfFault f
  | stepLimit limit address =>
    ["step limit of " ++ Numeral.decimal limit ++ " instructions reached at address "
      ++ Numeral.decimal address]

/-- The text of a failure, all causes in one line. -/
def text (describe : Malformation → String) (failure : Failure) : String :=
  String.intercalate ": " (failure.chain describe)

/-- The fault at the root of a failure. -/
def fault? : Failure → Option Fault
  | loading _ _ f | fault f => some f
  | _ => none

/-- How failures are reported. -/
structure Style where
  json : Bool
  colour : Bool
deriving DecidableEq, Repr

/-- The word in front of a report in text, bold and red if it is to be coloured. -/
def label (colour : Bool) : String :=
  if colour then "\x1b[1;31merror:\x1b[0m" else "error:"

/-- The report of a failure, its line feed included. -/
def report (describe : Malformation → String) (style : Style) (failure : Failure) : String :=
  if style.json then
    (match failure.fault? with
      | some f => (Diagnostic.ofFault f).json
      | none => Json.object [("message", .text (failure.text describe))]) ++ "\n"
  else
    label style.colour ++ " " ++ failure.text describe ++ "\n"

end Failure

end LS8.Command
