import LS8.Proofs.Machine.Execution

/-!
# Trajectories

`Machine.after m n` is the machine after `n` steps. A step that faults is a step
too: it leaves the stopped machine, from where one may step on. Statements about
runs of successful steps carry `Machine.Succeeds`, and `Machine.Succeeds.executes`
opens such a run at any of its steps.
-/

namespace LS8.Machine

open Memory (size)

variable {m : Machine} {f : Fault} {n k : Nat}

/-- The machine after `n` steps, whatever they report. -/
def after (m : Machine) : Nat → Machine
  | 0 => m
  | n + 1 => (m.after n).step.state

@[simp] theorem after_zero (m : Machine) : m.after 0 = m := rfl

theorem after_succ (m : Machine) (n : Nat) : m.after (n + 1) = (m.after n).step.state := rfl

theorem after_add (m : Machine) (n k : Nat) : m.after (n + k) = (m.after n).after k := by
  induction k with
  | zero => rfl
  | succ k ih => rw [← Nat.add_assoc, after_succ, ih, after_succ]

theorem after_succ_eq_after_step (m : Machine) (n : Nat) :
    m.after (n + 1) = m.step.state.after n := by
  rw [Nat.add_comm, after_add]
  rfl

theorem pc_after_le (hm : m.pc ≤ size) (n : Nat) : (m.after n).pc ≤ size := by
  induction n with
  | zero => exact hm
  | succ n ih => exact pc_step_le ih

/-- None of the first `n` steps faults. -/
def Succeeds (m : Machine) (n : Nat) : Prop :=
  ∀ i, i < n → (m.after i).step.fault = none

instance (m : Machine) (n : Nat) : Decidable (m.Succeeds n) :=
  inferInstanceAs (Decidable (∀ i, i < n → (m.after i).step.fault = none))

/-- A step without a fault is known by the state that it leaves. -/
theorem step_eq_of_fault_eq_none (h : m.step.fault = none) : m.step = ⟨m.step.state, none⟩ := by
  rw [← h]

theorem executes_of_fault_eq_none (h : m.step.fault = none) :
    ∃ i, m.fetch = .ok i ∧ Executes m i m.step.state :=
  step_eq_ok_iff.1 (step_eq_of_fault_eq_none h)

/-- A fault stops the machine. -/
theorem status_of_fault (h : m.step.fault = some f) : m.step.state.status = .stopped := by
  have hs : m.step = ⟨m.step.state, some f⟩ := by rw [← h]
  rcases step_eq_fault_iff.1 hs with ⟨-, hm⟩ | ⟨i, -, hx⟩
  · rw [hm]
    rfl
  · exact status_of_refuses hx

/-- Each step of a successful run executes the instruction fetched before it. -/
theorem Succeeds.executes (h : m.Succeeds n) (hk : k < n) :
    ∃ i, (m.after k).fetch = .ok i ∧ Executes (m.after k) i (m.after (k + 1)) :=
  executes_of_fault_eq_none (h k hk)

end LS8.Machine
