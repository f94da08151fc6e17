import LS8.Environment
import LS8.Instruction
import LS8.Path

/-!
# The log

Beside what it prints, the emulator tells a log what it does. It only names the
events: which of them are written down, and in which words, is up to a `Logger`
that others provide. A logger goes by the filter in the variable `LS8_LOG`.
-/

namespace LS8

/-- How grave an event is. -/
inductive Level where
  | trace
  | debug
  | warn
deriving DecidableEq, Repr

/-- What the log is told. -/
inductive LogEvent where
  | settingsLoaded (root : Path)
  | imageLoaded (path : Path) (count : Nat)
  /-- The image that is listed is too long to be run. -/
  | imageTooLong (count : Nat)
  | started (pc : Nat)
  | executing (pc : Nat) (instruction : Instruction)
  | halted (pc steps : Nat)
  | stoppedByFault (pc : Nat) (fault : Fault)
deriving DecidableEq, Repr

/-- How grave an event is. -/
def LogEvent.level : LogEvent → Level
  | imageTooLong _ => .warn
  | settingsLoaded _ | imageLoaded _ _ | started _ | halted _ _ | stoppedByFault _ _ => .debug
  | executing _ _ => .trace

/-- What is written down of an event: a line, or nothing. A line carries the time, so
it also depends on how much was put on standard error before. -/
abbrev Log : Type := Nat → LogEvent → String

/-- The log that writes nothing down. -/
def Log.silent : Log := fun _ _ => ""

/-- Who writes the log. -/
structure Logger where
  /-- Whether a text is a filter. -/
  isFilter : String → Bool
  /-- The log under a filter. -/
  log : String → Log

namespace Logger

/-- The filter that is in force if none is given. -/
def defaultFilter : String := "warn"

/-- The filter in force: what the variable says, if that is a filter. -/
def filterIn (logger : Logger) (e : Environment) : String :=
  match e.text? "LS8_LOG" with
  | some text => if logger.isFilter text then text else defaultFilter
  | none => defaultFilter

/-- The log in an environment. -/
def logIn (logger : Logger) (e : Environment) : Log :=
  logger.log (logger.filterIn e)

end Logger

end LS8
