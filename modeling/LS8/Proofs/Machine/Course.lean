import LS8.Machine.Run
import LS8.Proofs.Machine.Trajectory

/-!
# How a run goes on

A running machine goes on until it halts or faults. Seen from any machine:

- `Machine.Proceeds m n`: the first `n` steps succeed and none of them halts;
- `Machine.HaltsAt m k`: the run ends with a halt as its `k`-th instruction;
- `Machine.FaultsAt m k f`: it ends with the fault `f`, after `k` successful steps;
- `Machine.NeverStops m`: it does not end.

One of the last three is true (`Machine.ends_or_neverStops`). As long as a machine
proceeds, `Machine.runFor` follows its trajectory.

`Machine.loaded` is the machine that most statements about runs start from.
-/

namespace LS8.Machine

variable {m m' : Machine} {i : Instruction} {f : Fault} {n j k : Nat}

/-- A new machine that an image was loaded into. -/
def loaded (device : Device) (profiling : Bool) (image : Image) : Machine :=
  ((initial device profiling).load image).state

/-! ## Proceeding -/

/-- The next step succeeds and does not halt. -/
def GoesOn (m : Machine) : Prop :=
  m.step.fault = none ∧ m.fetch ≠ .ok .hlt

instance (m : Machine) : Decidable m.GoesOn :=
  inferInstanceAs (Decidable (_ ∧ _))

/-- The first `n` steps succeed, and none of them halts. -/
def Proceeds (m : Machine) (n : Nat) : Prop :=
  ∀ j, j < n → (m.after j).GoesOn

instance (m : Machine) (n : Nat) : Decidable (m.Proceeds n) :=
  inferInstanceAs (Decidable (∀ j, j < n → (m.after j).GoesOn))

/-- The run ends with a halt as its `k`-th instruction. -/
def HaltsAt (m : Machine) (k : Nat) : Prop :=
  ∃ j, k = j + 1 ∧ m.Proceeds j ∧ (m.after j).fetch = .ok .hlt

/-- The run ends with the fault `f`, after `k` steps that succeed. -/
def FaultsAt (m : Machine) (k : Nat) (f : Fault) : Prop :=
  m.Proceeds k ∧ (m.after k).step.fault = some f

/-- The run does not end. -/
def NeverStops (m : Machine) : Prop :=
  ∀ n, m.Proceeds n

theorem GoesOn.executes (h : m.GoesOn) :
    ∃ i, m.fetch = .ok i ∧ i ≠ .hlt ∧ Executes m i m.step.state := by
  obtain ⟨i, hf, hx⟩ := executes_of_fault_eq_none h.1
  refine ⟨i, hf, ?_, hx⟩
  rintro rfl
  exact h.2 hf

theorem goesOn_of_executes (hf : m.fetch = .ok i) (hi : i ≠ .hlt) (hx : Executes m i m') :
    m.GoesOn := by
  refine ⟨by rw [step_of_executes hf hx], fun hhlt => ?_⟩
  exact hi (Except.ok.inj (hf.symm.trans hhlt))

theorem proceeds_zero : m.Proceeds 0 :=
  fun _ h => absurd h (Nat.not_lt_zero _)

theorem Proceeds.mono (h : m.Proceeds n) (hk : k ≤ n) : m.Proceeds k :=
  fun j hj => h j (Nat.lt_of_lt_of_le hj hk)

theorem Proceeds.succeeds (h : m.Proceeds n) : m.Succeeds n :=
  fun k hk => (h k hk).1

theorem proceeds_succ : m.Proceeds (n + 1) ↔ m.Proceeds n ∧ (m.after n).GoesOn := by
  constructor
  · intro h
    exact ⟨h.mono (Nat.le_succ n), h n (Nat.lt_succ_self n)⟩
  · rintro ⟨h, hlast⟩ j hj
    rcases Nat.lt_or_eq_of_le (Nat.le_of_lt_succ hj) with hlt | rfl
    · exact h j hlt
    · exact hlast

theorem Proceeds.of_step (h : m.GoesOn) (hrest : m.step.state.Proceeds n) :
    m.Proceeds (n + 1) := by
  intro j hj
  cases j with
  | zero => exact h
  | succ j =>
    rw [after_succ_eq_after_step]
    exact hrest j (Nat.lt_of_succ_lt_succ hj)

theorem Proceeds.status (h : m.Proceeds n) (hm : m.status = .running) :
    (m.after n).status = .running := by
  induction n with
  | zero => exact hm
  | succ n ih =>
    obtain ⟨hbefore, hlast⟩ := proceeds_succ.1 h
    obtain ⟨i, -, hi, hx⟩ := hlast.executes
    rw [after_succ, status_of_executes hx hi]
    exact ih hbefore

theorem Proceeds.steps (h : m.Proceeds n) : (m.after n).steps = m.steps + n := by
  induction n with
  | zero => rfl
  | succ n ih =>
    obtain ⟨hbefore, hlast⟩ := proceeds_succ.1 h
    obtain ⟨i, -, -, hx⟩ := hlast.executes
    rw [after_succ, steps_of_executes hx, ih hbefore, Nat.add_assoc]

/-! ## How it ends -/

/-- A machine that does not go on halts or faults. -/
theorem not_goesOn (h : ¬ m.GoesOn) : m.fetch = .ok .hlt ∨ ∃ f, m.step.fault = some f := by
  by_cases hhlt : m.fetch = .ok .hlt
  · exact .inl hhlt
  · cases hf : m.step.fault with
    | none => exact absurd ⟨hf, hhlt⟩ h
    | some f => exact .inr ⟨f, rfl⟩

/-- **Every run ends in one way or does not end.** -/
theorem ends_or_neverStops (m : Machine) :
    (∃ k, m.HaltsAt k) ∨ (∃ k f, m.FaultsAt k f) ∨ m.NeverStops := by
  by_cases hall : ∀ j, (m.after j).GoesOn
  · exact .inr (.inr fun _ j _ => hall j)
  · -- the first step that does not go on ends the run
    obtain ⟨j, hj⟩ := Classical.not_forall.1 hall
    induction j using Nat.strongRecOn with
    | ind j ih =>
      by_cases hbefore : m.Proceeds j
      · rcases not_goesOn hj with hhlt | ⟨f, hf⟩
        · exact .inl ⟨j + 1, j, rfl, hbefore, hhlt⟩
        · exact .inr (.inl ⟨j, f, hbefore, hf⟩)
      · obtain ⟨k, hk⟩ := Classical.not_forall.1 hbefore
        obtain ⟨hlt, hk⟩ := Classical.not_imp.1 hk
        exact ih k hlt hk

/-- The instruction that halts leaves the machine stopped and is counted. -/
theorem HaltsAt.executes (h : m.HaltsAt k) :
    ∃ j, k = j + 1 ∧ m.Proceeds j ∧ Executes (m.after j) .hlt (m.after k) ∧
      (m.after j).step = ⟨m.after k, none⟩ := by
  obtain ⟨j, rfl, hbefore, hhlt⟩ := h
  have hs := step_of_executes hhlt .hlt
  have hafter := congrArg Outcome.state hs
  refine ⟨j, rfl, hbefore, ?_, ?_⟩
  · rw [after_succ, hafter]
    exact .hlt
  · rw [after_succ, hs]

theorem HaltsAt.not_proceeds (h : m.HaltsAt k) : ¬ m.Proceeds k := by
  obtain ⟨j, rfl, -, hhlt⟩ := h
  exact fun hall => (proceeds_succ.1 hall).2.2 hhlt

theorem FaultsAt.not_proceeds (h : m.FaultsAt k f) : ¬ m.Proceeds (k + 1) := by
  intro hall
  have hgoes := (proceeds_succ.1 hall).2.1
  rw [h.2] at hgoes
  cases hgoes

theorem FaultsAt.step_eq (h : m.FaultsAt k f) :
    (m.after k).step = ⟨m.after (k + 1), some f⟩ := by
  rw [after_succ, ← h.2]

/-! ## Running along the trajectory -/

theorem runFor_of_stopped (hm : m.status = .stopped) : m.runFor n = ⟨m, none⟩ := by
  cases n with
  | zero => rfl
  | succ n => simp only [runFor, hm]

theorem runFor_of_step {m' : Machine} (hm : m.status = .running) (hs : m.step = ⟨m', none⟩) :
    m.runFor (n + 1) = m'.runFor n := by
  simp only [runFor, hm, hs]

theorem runFor_of_step_fault {m' : Machine} (hm : m.status = .running)
    (hs : m.step = ⟨m', some f⟩) : m.runFor (n + 1) = ⟨m', some f⟩ := by
  simp only [runFor, hm, hs]

/-- A run of a machine that proceeds can be entered at any of its states. -/
theorem runFor_add (hm : m.status = .running) (h : m.Proceeds j) (n : Nat) :
    m.runFor (j + n) = (m.after j).runFor n := by
  induction j generalizing n with
  | zero => rw [Nat.zero_add, after_zero]
  | succ j ih =>
    obtain ⟨hbefore, hlast⟩ := proceeds_succ.1 h
    rw [show j + 1 + n = j + (n + 1) by omega, ih hbefore,
      runFor_of_step (hbefore.status hm) (step_eq_of_fault_eq_none hlast.1), after_succ]

theorem Proceeds.runFor (h : m.Proceeds n) (hm : m.status = .running) :
    m.runFor n = ⟨m.after n, none⟩ := by
  rw [← Nat.add_zero n, runFor_add hm h 0]
  rfl

theorem HaltsAt.runFor (h : m.HaltsAt k) (hm : m.status = .running) (hk : k ≤ n) :
    m.runFor n = ⟨m.after k, none⟩ := by
  obtain ⟨j, rfl, hbefore, hx, hs⟩ := h.executes
  rw [show n = j + (n - j - 1 + 1) by omega, runFor_add hm hbefore,
    runFor_of_step (hbefore.status hm) hs, runFor_of_stopped (status_of_executes_hlt hx)]

theorem FaultsAt.runFor (h : m.FaultsAt k f) (hm : m.status = .running) (hk : k < n) :
    m.runFor n = ⟨m.after (k + 1), some f⟩ := by
  rw [show n = k + (n - k - 1 + 1) by omega, runFor_add hm h.1,
    runFor_of_step_fault (h.1.status hm) h.step_eq]

end LS8.Machine
