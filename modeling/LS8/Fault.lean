import LS8.Text.Numeral

/-!
# Faults

A fault ends the run of a machine. `Fault` lists the causes, `Fault.message`
words them, and `Fault.address?` and `Fault.opcode?` give the numbers that a
report can show beside the message.

`Outcome` is what an operation leaves behind that may stop half-way: the state
reached, and the fault that stopped it, if any. The state after a fault is
observable, so it is part of the result.
-/

namespace LS8

/-- Why a machine cannot go on. -/
inductive Fault where
  /-- A cell beyond the end of memory was touched. -/
  | outOfBounds (address : Nat)
  /-- The arithmetic unit does not know the operation. -/
  | unsupportedAlu (opcode : UInt8)
  /-- The byte at the address is no opcode. -/
  | unknownOpcode (opcode : UInt8) (address : Nat)
  /-- There is no register of this number. -/
  | invalidRegister (index : UInt8)
  /-- The output device refused. -/
  | outputFailed (reason : String)
deriving DecidableEq, Repr

namespace Fault

/-- The message of a fault, one line without a final line feed. -/
def message : Fault → String
  | outOfBounds address => "memory address " ++ Numeral.hexAddress address ++ " out of bounds"
  | unsupportedAlu opcode => "unsupported ALU operation " ++ Numeral.binaryByte opcode
  | unknownOpcode opcode address =>
    "unknown instruction " ++ Numeral.binaryByte opcode ++ " at address " ++ Numeral.decimal address
  | invalidRegister index => "invalid register R" ++ Numeral.decimal index.toNat
  | outputFailed reason => "failed to write output: " ++ reason

/-- The memory address that the fault is about. -/
def address? : Fault → Option Nat
  | outOfBounds address | unknownOpcode _ address => some address
  | _ => none

/-- The opcode byte that the fault is about. -/
def opcode? : Fault → Option UInt8
  | unsupportedAlu opcode | unknownOpcode opcode _ => some opcode
  | _ => none

end Fault

/-- The state that an operation reached, and the fault that stopped it there. -/
structure Outcome (σ : Type) where
  state : σ
  fault : Option Fault := none
deriving DecidableEq, Repr

end LS8
