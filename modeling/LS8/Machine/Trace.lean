import LS8.Machine

/-!
# Trace lines

One line shows what the next step of a machine depends on: the program counter,
the three bytes from there on, and the registers. Cells beyond the end of memory
are shown as `--`.

`Machine.traceFor` runs a machine and notes the line before each step.
-/

namespace LS8.Machine

/-- A byte in a trace line: two hexadecimal digits, or `--` where there is none. -/
def traceByte : Option UInt8 → String
  | some byte => Numeral.hexUpper byte.toNat
  | none => "--"

/-- The trace line of a machine, without a line feed. -/
def traceLine (m : Machine) : String :=
  "TRACE: " ++ Numeral.hexUpper m.pc
    ++ " | " ++ traceByte (m.memory.peek? m.pc)
    ++ " " ++ traceByte (m.memory.peek? (m.pc + 1))
    ++ " " ++ traceByte (m.memory.peek? (m.pc + 2))
    ++ " |" ++ String.join (m.registers.toList.map fun value => " " ++ Numeral.hexUpper value.toNat)

/-- At most `n` steps, as long as the machine is running, with the trace lines of
the states before them. The line of a step that faults is among them. -/
def traceFor : Nat → Machine → List String × Outcome Machine
  | 0, m => ([], ⟨m, none⟩)
  | n + 1, m =>
    match m.status with
    | .stopped => ([], ⟨m, none⟩)
    | .running =>
      match m.step with
      | ⟨m', none⟩ =>
        let (lines, outcome) := traceFor n m'
        (m.traceLine :: lines, outcome)
      | ⟨m', some fault⟩ => ([m.traceLine], ⟨m', some fault⟩)

end LS8.Machine
