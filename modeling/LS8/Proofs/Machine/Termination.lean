import LS8.Proofs.Machine.Horizon
import LS8.Proofs.Machine.InstructionSet

/-!
# Only calls and returns can loop

Every instruction but a call and a return moves the program counter up, and an instruction
that was decoded ends at 256 or below. So what is left between the program counter and 256
bounds the steps up to the next call or return. What the program stores in memory plays no
part in this, not even where it stores over the code ahead.

- `Machine.Jumps m`: the next instruction is a call or a return;
- `Machine.pc_lt_of_not_jumps`: a step that succeeds and is none moves the program counter up;
- `Machine.pc_add_le`: a run of them moves it up by at least one for each step;
- `Machine.only_jumps_loop`: without calls and returns a run ends, and in any run they are
  never more than 256 steps away.
-/

namespace LS8.Machine

open Memory (size)

variable {m m' : Machine} {i : Instruction} {n k : Nat}

/-- The next instruction is a call or a return. -/
def Jumps (m : Machine) : Prop :=
  ∃ i, m.fetch = .ok i ∧ (i.opcode = .call ∨ i.opcode = .ret)

instance (m : Machine) : Decidable m.Jumps :=
  match hf : m.fetch with
  | .ok i => decidable_of_iff (i.opcode = .call ∨ i.opcode = .ret) (by simp [Jumps, hf])
  | .error _ => isFalse (by simp [Jumps, hf])

/-! ## One step -/

/-- A step that succeeds and is no call or return moves the program counter up. -/
theorem pc_lt_of_not_jumps (hs : m.step.fault = none) (hj : ¬ m.Jumps) :
    m.pc < m.step.state.pc := by
  obtain ⟨i, hf, hx⟩ := executes_of_fault_eq_none hs
  have hsets : i.opcode.setsPc = false := by
    refine Bool.eq_false_iff.2 fun hsets => ?_
    exact hj ⟨i, hf, (Opcode.setsPc_iff _).1 hsets⟩
  rw [pc_of_executes hx, hsets, if_neg Bool.false_ne_true, Opcode.length]
  omega

/-! ## Runs -/

/-- **Without calls and returns the program counter counts the steps**, by induction on
their number. -/
theorem pc_add_le (h : m.Succeeds n) (hj : ∀ k < n, ¬ (m.after k).Jumps) :
    m.pc + n ≤ (m.after n).pc := by
  induction n with
  | zero => exact Nat.le_refl _
  | succ n ih =>
    have hbefore := ih (fun k hk => h k (Nat.lt_succ_of_lt hk))
      fun k hk => hj k (Nat.lt_succ_of_lt hk)
    have hlast := pc_lt_of_not_jumps (h n (Nat.lt_succ_self n)) (hj n (Nat.lt_succ_self n))
    rw [after_succ]
    omega

/-- More steps than there are cells contain a call or a return. -/
theorem Succeeds.exists_jumps (h : m.Succeeds n) (hn : size < n) :
    ∃ k < n, (m.after k).Jumps := by
  by_contra hno
  have hj : ∀ k < n, ¬ (m.after k).Jumps := fun k hk hjump => hno ⟨k, hk, hjump⟩
  obtain ⟨i, hf, -⟩ := h.executes (Nat.zero_lt_of_lt hn)
  have hstart : m.pc < size := pc_lt_of_fetch hf
  have hend := pc_after_le (Nat.le_of_lt hstart) n
  have hcount := pc_add_le h hj
  omega

/-- **Only calls and returns can loop.** From a program counter `pc` at 256 or below, a run
without them makes at most `256 - pc` successful steps, each of which moves the program
counter up. So a machine that never executes one comes to the end of its run, and of any
257 successful steps in a row at least one is a call or a return. -/
theorem only_jumps_loop :
    (∀ (m : Machine) (n : Nat), m.pc ≤ 256 → m.Succeeds n →
      (∀ k < n, ¬ (m.after k).Jumps) →
      n ≤ 256 - m.pc ∧ ∀ k < n, (m.after k).pc < (m.after (k + 1)).pc) ∧
    (∀ m : Machine, (∀ k, m.start.Proceeds (k + 1) → ¬ (m.start.after k).Jumps) →
      ∃ outcome, m.run? = some outcome) ∧
    ∀ (m : Machine) (n j : Nat), m.Succeeds n → j + 257 ≤ n →
      ∃ k, j ≤ k ∧ k < j + 257 ∧ (m.after k).Jumps := by
  refine ⟨fun m n hm h hj => ⟨?_, fun k hk => ?_⟩, fun m hno => ?_, fun m n j h hn => ?_⟩
  · have hcount := pc_add_le h hj
    have hend : (m.after n).pc ≤ 256 := pc_after_le hm n
    omega
  · exact pc_lt_of_not_jumps (h k hk) (hj k hk)
  · refine Option.ne_none_iff_exists'.1 fun hnone => ?_
    have hnever := run?_eq_none_iff.1 hnone
    obtain ⟨k, -, hjump⟩ := (hnever 257).succeeds.exists_jumps (Nat.lt_succ_self size)
    exact hno k (hnever (k + 1)) hjump
  · have hwindow : (m.after j).Succeeds 257 := by
      intro k hk
      rw [← after_add]
      exact h (j + k) (by omega)
    obtain ⟨k, hk, hjump⟩ := hwindow.exists_jumps (Nat.lt_succ_self size)
    rw [← after_add] at hjump
    exact ⟨j + k, Nat.le_add_right j k, Nat.add_lt_add_left hk j, hjump⟩

/-- `LDI R0,1` and `PUSH R0` in front of a `RET`, with the stack pointer behind it: what is
pushed makes the `RET` an `HLT`. -/
def mendsItself : Machine :=
  { loaded {} false ⟨[0x82, 0x00, 0x01, 0x45, 0x00, 0x11]⟩ with
    registers := Registers.initial.setSp 6 }

/-- `PUSH R0` and a `RET` that goes back to it. -/
def goesRound : Machine := loaded {} false ⟨[0x45, 0x00, 0x11]⟩

theorem neverStops_goesRound : goesRound.NeverStops := by
  have hcells : (goesRound.after 2).memory.cells.toList =
      (goesRound.after 0).memory.cells.toList := by decide +kernel
  refine neverStops_of_alike (j := 0) (k := 2) (by decide +kernel) (by decide) ?_
  exact ⟨by decide +kernel, congrArg Memory.mk (Vector.toList_inj.1 hcells), by decide +kernel,
    by decide +kernel, by decide +kernel⟩

theorem only_jumps_loop_selfModifying :
    (3 ≤ 256 - mendsItself.pc ∧ (mendsItself.after 2).pc < (mendsItself.after 3).pc) ∧
    (∃ outcome, mendsItself.run? = some outcome) ∧
    ∃ k, 40 ≤ k ∧ k < 297 ∧ (goesRound.after k).Jumps := by
  obtain ⟨hbound, hends, hwindow⟩ := only_jumps_loop
  obtain ⟨hsteps, hrises⟩ := hbound mendsItself 3 (by decide +kernel) (by decide +kernel)
    (by decide +kernel)
  refine ⟨⟨hsteps, hrises 2 (by decide)⟩, hends mendsItself ?_, ?_⟩
  · intro k hk
    -- the third step halts
    have hstops : ¬ mendsItself.start.Proceeds 3 := by decide +kernel
    have hlt : k < 2 := by
      refine Nat.lt_of_not_le fun hle => ?_
      exact hstops (hk.mono (Nat.succ_le_succ hle))
    have hall : ∀ k < 2, ¬ (mendsItself.start.after k).Jumps := by decide +kernel
    exact hall k hlt
  · exact hwindow goesRound 297 40 (neverStops_goesRound 297).succeeds (by decide)

end LS8.Machine
