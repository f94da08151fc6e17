import LS8.Proofs.Machine.TraceLine

/-!
# What is done to a machine

From outside, a machine is loaded, started, stepped, run, moved to another address and written
to, in any order (`Machine.Operation`). All of this may fail, and then goes on.

A `Machine.Chronicle` is a machine together with what its operations reported and what
happened to it: a machine is started, and it attempts steps. A run is a start and then as many
steps as it takes (`Machine.exists_events_run`), so nothing else happens to a machine, and the
machine in the middle of a run is the one after a start and some steps.

Statements about all that can be done to a machine are proved for one operation and carried
along a chronicle by `Machine.Chronicle.follow?_induction`.
-/

namespace LS8.Machine

/-! ## Operations -/

/-- What can be done to a machine from outside. -/
inductive Operation where
  | load (image : Image)
  | start
  | step
  | run
  | setPc (pc : Nat)
  | poke (address : Nat) (value : UInt8)
deriving DecidableEq, Repr

/-- The outcome of an operation; nothing results from a run that never stops. -/
def perform? (m : Machine) : Operation → Option (Outcome Machine)
  | .load image => some (m.load image)
  | .start => some ⟨m.start, none⟩
  | .step => some m.step
  | .run => m.run?
  | .setPc pc => some ⟨m.setPc pc, none⟩
  | .poke address value => some (m.poke address value)

/-! ## Events -/

/-- What happens to a machine. -/
inductive Event where
  /-- It was started. -/
  | started
  /-- It attempted a step: what it decoded, and the fault that the step ended in, if any. -/
  | stepped (decoded : Except Fault Instruction) (fault : Option Fault)
deriving DecidableEq, Repr

/-- The event of the next step. -/
def stepEvent (m : Machine) : Event := .stepped m.fetch m.step.fault

/-- The events of the first `n` steps. -/
def stepEvents (m : Machine) (n : Nat) : List Event :=
  (List.range n).map fun j => (m.after j).stepEvent

/-- The number of steps that a run attempts. It is noted by one trace line each. -/
def attempts (m : Machine) : Nat := (m.start.traceFor m.horizon).1.length

/-- What happens in an operation. -/
def events (m : Machine) : Operation → List Event
  | .start => [.started]
  | .step => [m.stepEvent]
  | .run => .started :: m.start.stepEvents m.attempts
  | .load _ | .setPc _ | .poke _ _ => []

section Runs

variable {m : Machine} {outcome : Outcome Machine} {n : Nat}

theorem stepEvents_succ (m : Machine) (n : Nat) :
    m.stepEvents (n + 1) = m.stepEvents n ++ [(m.after n).stepEvent] := by
  rw [stepEvents, List.range_succ, List.map_append]
  rfl

theorem snd_traceFor (m : Machine) (n : Nat) : (m.traceFor n).2 = m.runFor n := by
  induction n generalizing m with
  | zero => rfl
  | succ n ih =>
    cases hm : m.status with
    | stopped => rw [traceFor_of_stopped hm, runFor_of_stopped hm]
    | running =>
      rcases hs : m.step with ⟨m', _ | f⟩
      · rw [runFor_of_step hm hs, ← ih, traceFor, hm, hs]
      · rw [runFor_of_step_fault hm hs, traceFor, hm, hs]

/-- A run that ends has one line for each of its steps. -/
theorem exists_last_of_runFor (hm : m.status = .running) (h : m.runFor n = outcome)
    (hend : outcome.state.status = .stopped) :
    ∃ k, m.Proceeds k ∧ ¬ (m.after k).GoesOn ∧ outcome = (m.after k).step ∧
      (m.traceFor n).1.length = k + 1 := by
  have htraced : m.traceFor n = ((m.traceFor n).1, outcome) :=
    Prod.ext rfl ((snd_traceFor m n).trans h)
  obtain ⟨k, hk, hlast, hlines, houtcome⟩ := exists_last_of_traceFor hm htraced hend
  refine ⟨k, hk, hlast, houtcome, ?_⟩
  rw [hlines, length_traceLines]

theorem ended?_eq_some_iff {outcome' : Outcome Machine} :
    ended? outcome' = some outcome ↔ outcome' = outcome ∧ outcome'.state.status = .stopped := by
  cases h : outcome'.state.status with
  | stopped => simp [ended?_of_stopped h]
  | running => simp [ended?_of_running h]

/-- A run attempts as many steps as it takes to the first one after which the machine does not
go on. -/
theorem exists_attempts (h : m.run? = some outcome) :
    ∃ k, m.start.Proceeds k ∧ ¬ (m.start.after k).GoesOn ∧ outcome = (m.start.after k).step ∧
      m.attempts = k + 1 := by
  obtain ⟨hrun, hstopped⟩ := ended?_eq_some_iff.1 h
  rw [hrun] at hstopped
  exact exists_last_of_runFor rfl hrun hstopped

/-- **A run is a start and some steps**: those before the last one succeed without halting, and
after the last one the machine does not go on. -/
theorem exists_events_run (h : m.run? = some outcome) :
    ∃ k, m.start.Proceeds k ∧ ¬ (m.start.after k).GoesOn ∧ outcome = (m.start.after k).step ∧
      m.events .run = .started :: m.start.stepEvents (k + 1) := by
  obtain ⟨k, hk, hlast, houtcome, hattempts⟩ := exists_attempts h
  refine ⟨k, hk, hlast, houtcome, ?_⟩
  rw [events, hattempts]

end Runs

/-! ## Chronicles -/

/-- A machine, with what has become of it so far. -/
structure Chronicle where
  machine : Machine
  /-- The fault that each operation reported, if any, the first operation first. -/
  reports : List (Option Fault) := []
  /-- What happened, the first event first. -/
  events : List Event := []
deriving DecidableEq, Repr

namespace Chronicle

variable {c c' : Chronicle} {op : Operation} {ops : List Operation}

/-- One operation more. -/
def next? (c : Chronicle) (op : Operation) : Option Chronicle :=
  (c.machine.perform? op).map fun outcome =>
    ⟨outcome.state, c.reports ++ [outcome.fault], c.events ++ c.machine.events op⟩

/-- Operations one after the other, whatever they report; nothing results if one of them is a
run that never stops. -/
def follow? (c : Chronicle) : List Operation → Option Chronicle
  | [] => some c
  | op :: ops => (c.next? op).bind (follow? · ops)

theorem next?_eq_some_iff : c.next? op = some c' ↔
    ∃ outcome, c.machine.perform? op = some outcome ∧
      ⟨outcome.state, c.reports ++ [outcome.fault], c.events ++ c.machine.events op⟩ = c' :=
  Option.map_eq_some_iff

/-- What each operation preserves holds along the whole chronicle. -/
theorem follow?_induction {P : Chronicle → Prop}
    (hnext : ∀ c op c', P c → c.next? op = some c' → P c') (hc : P c)
    (h : c.follow? ops = some c') : P c' := by
  induction ops generalizing c with
  | nil =>
    obtain rfl := Option.some.inj h
    exact hc
  | cons op ops ih =>
    obtain ⟨c₁, hop, hrest⟩ := Option.bind_eq_some_iff.1 h
    exact ih (hnext c op c₁ hc hop) hrest

end Chronicle

/-- The chronicle of a machine that nothing was done to before. -/
def chronicle? (m : Machine) (ops : List Operation) : Option Chronicle :=
  Chronicle.follow? { machine := m } ops

end LS8.Machine
