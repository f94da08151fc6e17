import LS8.Log
import LS8.Machine.Run

/-!
# What a run tells the log

An instruction is logged once it is decoded, before it is executed, and so is the
fault that stops a machine. A run that nobody supervises also logs that it begins,
and that it has come to a halt.
-/

namespace LS8.Machine

/-- What is logged of the next instruction before it is executed. -/
def decoded? (m : Machine) : Option LogEvent :=
  match Instruction.decode m.memory m.pc with
  | .ok i => some (.executing m.pc i)
  | .error _ => none

/-- What is logged in at most `n` steps, as long as the machine is running. What was
logged before is in `told`, the last event first. -/
def tellFor : Nat → List LogEvent → Machine → List LogEvent
  | 0, told, _ => told
  | n + 1, told, m =>
    match m.status with
    | .stopped => told
    | .running =>
      let told := m.decoded?.toList ++ told
      match m.step with
      | ⟨m', none⟩ => tellFor n told m'
      | ⟨m', some fault⟩ => .stoppedByFault m'.pc fault :: told

/-- What is logged in a run with the given outcome. -/
def runEvents (m : Machine) (outcome : Outcome Machine) : List LogEvent :=
  .started m.pc :: (tellFor m.horizon [] m.start).reverse
    ++ match outcome.fault with
      | some _ => []
      | none => [.halted outcome.state.pc outcome.state.steps]

end LS8.Machine
