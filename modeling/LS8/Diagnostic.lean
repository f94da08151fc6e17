import LS8.Fault
import LS8.Text.Json

/-!
# Diagnostics

The structured report of a fault: a stable code, the message, and the address
and opcode where the fault has them. `Diagnostic.json` writes it as one line.
-/

namespace LS8

/-- A fault, ready to be reported to a program. -/
structure Diagnostic where
  version : Nat
  code : String
  message : String
  address : Option Nat
  /-- The opcode byte in binary, such as `0b11111111`. -/
  opcode : Option String
deriving DecidableEq, Repr

/-- The stable code of each cause. -/
def Fault.code : Fault → String
  | .outOfBounds _ => "E0001"
  | .unsupportedAlu _ => "E0002"
  | .unknownOpcode _ _ => "E0003"
  | .invalidRegister _ => "E0004"
  | .outputFailed _ => "E0005"

namespace Diagnostic

/-- The version of this report's form. -/
def currentVersion : Nat := 1

/-- The report of a fault. -/
def ofFault (f : Fault) : Diagnostic where
  version := currentVersion
  code := f.code
  message := f.message
  address := f.address?
  opcode := f.opcode?.map Numeral.binaryByte

/-- The fields that are present, in alphabetical order of their names. -/
def fields (d : Diagnostic) : List (String × Json.Value) :=
  (d.address.map fun a => ("address", Json.Value.number a)).toList
    ++ [("code", .text d.code), ("diag_version", .number d.version), ("message", .text d.message)]
    ++ (d.opcode.map fun o => ("opcode", Json.Value.text o)).toList

/-- The report as a line of JSON, without the line feed. -/
def json (d : Diagnostic) : String :=
  Json.object d.fields

end Diagnostic

end LS8
