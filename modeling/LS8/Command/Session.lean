import LS8.Machine.Log
import LS8.Machine.Trace

/-!
# Sessions

A session runs a machine under supervision: it can note the trace line before
each instruction, and it can give up after a number of instructions. If it is to do
neither, it just lets the machine run.

The limit is checked before each instruction. A machine that halts, or faults,
with its last permitted instruction has therefore not run into the limit.

What goes to standard error meanwhile is kept as `Note`s. The events of the log are
among them, at the place where the log would write them.
-/

namespace LS8.Command

/-! ## Notes -/

/-- A piece of what goes to standard error before a report. -/
inductive Note where
  | traced (line : String)
  | profiled (report : String)
  /-- The log is told of an event. -/
  | logged (event : LogEvent)
deriving DecidableEq, Repr

namespace Note

/-- Whether the note is the command's own, not one of the log. -/
def isOwn : Note → Bool
  | traced _ | profiled _ => true
  | logged _ => false

/-- The text of a note that is the `n`th. -/
def text (log : Log) (n : Nat) : Note → String
  | traced line => line ++ "\n"
  | profiled report => report
  | logged event => log n event

/-- The text of notes, one behind the other. -/
def join (log : Log) (notes : List Note) : String :=
  String.join (notes.mapIdx (text log))

end Note

/-! ## Sessions -/

/-- How a session ended. -/
inductive Ending where
  | halted
  | faulted (fault : Fault)
  | limitReached (limit address : Nat)
deriving DecidableEq, Repr

/-- What is left of a session. -/
structure Session where
  machine : Machine
  /-- What was noted, the first note first. -/
  notes : List Note
  ending : Ending
deriving DecidableEq, Repr

namespace Session

/-- Whether a limit is used up. -/
def exhausted (limit : Option Nat) (m : Machine) : Bool :=
  match limit with
  | some limit => limit ≤ m.steps
  | none => false

/-- What is noted of an instruction before it is executed. -/
def stepNotes (tracing : Bool) (m : Machine) : List Note :=
  (if tracing then [.traced m.traceLine] else []) ++ m.decoded?.toList.map .logged

/-- Lets a machine run for at most `fuel` instructions. What was noted before is in
`noted`, the last note first. Nothing results if the machine is then still running
within its limit. -/
def continueFor (limit : Option Nat) (tracing : Bool) :
    Nat → List Note → Machine → Option Session
  | fuel, noted, m =>
    match m.status with
    | .stopped => some ⟨m, noted.reverse, .halted⟩
    | .running =>
      -- an instruction beyond the limit is not even noted
      if exhausted limit m then
        some ⟨m, noted.reverse, .limitReached (limit.getD 0) m.pc⟩
      else match fuel with
        | 0 => none
        | fuel + 1 =>
          let noted := (stepNotes tracing m).reverse ++ noted
          match m.step with
          | ⟨m', none⟩ => continueFor limit tracing fuel noted m'
          | ⟨m', some fault⟩ =>
            some ⟨m', (.logged (.stoppedByFault m'.pc fault) :: noted).reverse, .faulted fault⟩

/-- The number of instructions after which a session is over, or never will be: up
to the limit, and without a limit up to the horizon of the machine. -/
def span (limit : Option Nat) (m : Machine) : Nat :=
  match limit with
  | some limit => limit - m.steps
  | none => m.horizon

/-- Starts a machine and supervises it until the session is over; nothing results if
it never is. -/
def supervise? (limit : Option Nat) (tracing : Bool) (m : Machine) : Option Session :=
  continueFor limit tracing (span limit m) [] m.start

/-- What is left of a run that was not supervised. -/
def ofRun (m : Machine) (outcome : Outcome Machine) : Session where
  machine := outcome.state
  notes := (m.runEvents outcome).map .logged
  ending := match outcome.fault with
    | some fault => .faulted fault
    | none => .halted

/-- Runs a machine from its start until the session is over; nothing results if it never
is. If there is nothing to supervise, the machine is left to itself. -/
def run? (limit : Option Nat) (tracing : Bool) (m : Machine) : Option Session :=
  if !tracing && limit.isNone then m.run?.map (ofRun m)
  else supervise? limit tracing m

end Session

end LS8.Command
