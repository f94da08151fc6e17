import LS8.Machine

/-!
# Runs

Many steps in a row.

- `Machine.stepMany` takes a number of steps, whether the machine is running or
  not, and ends early only at a fault;
- `Machine.runFor` steps as long as the machine is running, for a limited number
  of steps;
- `Machine.run?` starts the machine and lets it run until it stops. It has an
  answer for every machine: what a step does depends on finitely many
  configurations, so a machine that is still running after `Machine.horizon`
  steps has been in one of them twice and never stops.
-/

namespace LS8.Machine

/-- At most `n` steps, up to the first fault. -/
def stepMany : Nat → Machine → Outcome Machine
  | 0, m => ⟨m, none⟩
  | n + 1, m =>
    match m.step with
    | ⟨m', none⟩ => stepMany n m'
    | ⟨m', some fault⟩ => ⟨m', some fault⟩

/-- At most `n` steps, as long as the machine is running. -/
def runFor : Nat → Machine → Outcome Machine
  | 0, m => ⟨m, none⟩
  | n + 1, m =>
    match m.status with
    | .stopped => ⟨m, none⟩
    | .running =>
      match m.step with
      | ⟨m', none⟩ => runFor n m'
      | ⟨m', some fault⟩ => ⟨m', some fault⟩

/-- The number of program counters, memories and registers that a running machine
can have after a step: its program counter is at most 256. -/
def configurations : Nat := 257 * Nat.pow 256 (Memory.size + Registers.count)

/-- A number of steps after which a machine that is still running never stops. The
limits of the device count too, because each printed line uses them up. -/
def horizon (m : Machine) : Nat :=
  configurations * (m.device.capacity.getD 0 + 1) * (m.device.flushes.getD 0 + 1)

/-- The outcome of a run, if the machine has stopped. -/
def ended? (outcome : Outcome Machine) : Option (Outcome Machine) :=
  match outcome.state.status with
  | .stopped => some outcome
  | .running => none

/-- Starts the machine and runs it until it stops; `none` if it never does. -/
def run? (m : Machine) : Option (Outcome Machine) :=
  ended? (m.start.runFor m.horizon)

end LS8.Machine
