/-!
# Settings

How a program is to be run and reported. Every setting may be left open, and so
may each of the two sections as a whole: a section that is present without any
setting differs from one that is absent.

`Settings.merge` lays one group of settings over another.
-/

namespace LS8

/-- The section on running. -/
structure RunSettings where
  /-- Give up after this many instructions. -/
  maxSteps : Option Nat := none
  /-- Print a line on the machine before each instruction. -/
  trace : Option Bool := none
  /-- Print how often each opcode was executed. -/
  stats : Option Bool := none
deriving DecidableEq, Repr, Inhabited

/-- The section on reporting. -/
structure OutputSettings where
  /-- Report errors as JSON. -/
  json : Option Bool := none
deriving DecidableEq, Repr, Inhabited

/-- All settings. -/
structure Settings where
  run : Option RunSettings := none
  output : Option OutputSettings := none
deriving DecidableEq, Repr, Inhabited

namespace Settings

/-! ## Laying settings over one another -/

/-- The settings of `upper` where it has them, else those of `lower`. -/
def mergeRun (lower upper : RunSettings) : RunSettings where
  maxSteps := upper.maxSteps.or lower.maxSteps
  trace := upper.trace.or lower.trace
  stats := upper.stats.or lower.stats

/-- Lays `upper` over `lower`. A section on running is present as soon as either
side has one; a section on reporting that holds nothing is not carried over. -/
def merge (lower upper : Settings) : Settings where
  run := match upper.run with
    | none => lower.run
    | some run => some (mergeRun (lower.run.getD {}) run)
  output := match upper.output with
    | some ⟨some json⟩ => some ⟨some json⟩
    | _ => lower.output

/-! ## What is in force -/

/-- The limit on instructions, if there is one. -/
def maxSteps (s : Settings) : Option Nat := s.run.bind (·.maxSteps)

/-- Whether to trace; no, unless set. -/
def trace (s : Settings) : Bool := (s.run.bind (·.trace)).getD false

/-- Whether to print counts; no, unless set. -/
def stats (s : Settings) : Bool := (s.run.bind (·.stats)).getD false

/-- Whether to report errors as JSON; no, unless set. -/
def json (s : Settings) : Bool := (s.output.bind (·.json)).getD false

end Settings

end LS8
