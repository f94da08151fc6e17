import Mathlib.Control.Monad.Basic
import LS8.Machine
import LS8.Proofs.Instruction.Decoding

/-!
# What one step can do

`Machine.step` as two relations with one rule for each course of an instruction:

- `Machine.Executes m i m'`: the instruction `i` succeeds in `m` and leaves `m'`;
- `Machine.Refuses m i f m'`: it ends in the fault `f` and leaves `m'`.

`Machine.step_eq_ok_iff` and `Machine.step_eq_fault_iff` say that a step does just
this with the instruction that is fetched. Everything that holds of all steps is
proved from these two by cases on the rules, and no later proof opens
`Machine.execute` again.
-/

namespace LS8.Machine

open Memory (size)

variable {m m' : Machine} {i : Instruction} {f : Fault}

/-- The instruction at the program counter. -/
def fetch (m : Machine) : Except Fault Instruction :=
  Instruction.decode m.memory m.pc

theorem peek?_of_fetch (hf : m.fetch = .ok i) : m.memory.peek? m.pc = some i.opcode.byte :=
  (Instruction.holds_encode_iff.1 (Instruction.decode_eq_ok_iff.1 hf)).1

theorem pc_lt_of_fetch (hf : m.fetch = .ok i) : m.pc < size :=
  Memory.lt_size_of_peek?_eq_some (peek?_of_fetch hf)

/-- The byte in the cell at the stack pointer. -/
def top (m : Machine) : UInt8 :=
  m.memory.get m.registers.sp

/-- The stack pointer is a byte, so there is always a cell to read. -/
theorem readAtSp_eq (m : Machine) : m.readAtSp = .ok m.top := by
  rw [readAtSp, Memory.read_toNat, top]

/-- There is always a cell to store in. -/
theorem storeAtSp_eq (m : Machine) (value : UInt8) :
    m.storeAtSp value = ⟨{ m with memory := m.memory.set m.registers.sp value }, none⟩ := by
  rw [storeAtSp, poke, Memory.write_toNat]

/-- The registers with the stack pointer moved down by one. -/
def lowered (m : Machine) : Registers :=
  m.registers.setSp (m.registers.sp - 1)

/-- The register that a push reads, the stack pointer being lowered already. -/
theorem pushed_of_get_lowered {reg value : UInt8} (hget : m.lowered.get reg = .ok value) :
    (if reg = 7 then m.registers.sp - 1 else (m.registers.get reg).toOption.getD 0) = value := by
  rw [lowered, Registers.get_setSp] at hget
  by_cases hreg : reg = 7
  · rw [if_pos hreg] at hget ⊢
    exact Except.ok.inj hget
  · rw [if_neg hreg] at hget ⊢
    rw [hget]
    rfl

/-- `i` succeeds in `m` and leaves `m'`. -/
inductive Executes (m : Machine) : Instruction → Machine → Prop
  | hlt : Executes m .hlt { m.count .hlt with status := .stopped, pc := m.pc + 1 }
  | ldi {reg value registers} (hset : m.registers.set reg value = .ok registers) :
    Executes m (.ldi reg value) { m.count .ldi with registers := registers, pc := m.pc + 3 }
  | prn {reg value device} (hget : m.registers.get reg = .ok value)
      (hprint : m.device.print (printedLine value) = (device, none)) :
    Executes m (.prn reg) { m.count .prn with device := device, pc := m.pc + 2 }
  | alu {op a b registers} (happly : Alu.apply op m.registers a b = .ok registers) :
    Executes m (.alu op a b)
      { m.count op.opcode with registers := registers, pc := m.pc + 3 }
  | push {reg value} (hget : m.lowered.get reg = .ok value) :
    Executes m (.push reg)
      { m.count .push with
        registers := m.lowered
        memory := m.memory.set (m.registers.sp - 1) value
        pc := m.pc + 2 }
  | pop {reg registers} (hset : m.registers.set reg m.top = .ok registers) :
    Executes m (.pop reg)
      { m.count .pop with registers := registers.setSp (registers.sp + 1), pc := m.pc + 2 }
  | call {reg target} (hfit : m.pc + 2 < size) (hget : m.lowered.get reg = .ok target) :
    Executes m (.call reg)
      { m.count .call with
        registers := m.lowered
        memory := m.memory.set (m.registers.sp - 1) (UInt8.ofNat (m.pc + 2))
        pc := target.toNat }
  | ret :
    Executes m .ret
      { m.count .ret with
        registers := m.registers.setSp (m.registers.sp + 1)
        pc := m.top.toNat }

/-- `i` ends in the fault `f` in `m` and leaves `m'`. -/
inductive Refuses (m : Machine) : Instruction → Fault → Machine → Prop
  | ldi {reg value f} (hset : m.registers.set reg value = .error f) :
    Refuses m (.ldi reg value) f (m.count .ldi).stop
  | prn {reg f} (hget : m.registers.get reg = .error f) :
    Refuses m (.prn reg) f (m.count .prn).stop
  | output {reg value device reason} (hget : m.registers.get reg = .ok value)
      (hprint : m.device.print (printedLine value) = (device, some reason)) :
    Refuses m (.prn reg) (.outputFailed reason) { (m.count .prn).stop with device := device }
  | alu {op a b f} (happly : Alu.apply op m.registers a b = .error f) :
    Refuses m (.alu op a b) f (m.count op.opcode).stop
  | push {reg f} (hget : m.lowered.get reg = .error f) :
    Refuses m (.push reg) f { (m.count .push).stop with registers := m.lowered }
  | pop {reg f} (hset : m.registers.set reg m.top = .error f) :
    Refuses m (.pop reg) f (m.count .pop).stop
  | returnAddress {reg} (hfit : size ≤ m.pc + 2) :
    Refuses m (.call reg) (.outOfBounds (m.pc + 2)) (m.count .call).stop
  | call {reg f} (hfit : m.pc + 2 < size) (hget : m.lowered.get reg = .error f) :
    Refuses m (.call reg) f
      { (m.count .call).stop with
        registers := m.lowered
        memory := m.memory.set (m.registers.sp - 1) (UInt8.ofNat (m.pc + 2)) }

/-! ## Every instruction takes one of the courses -/

theorem executes_or_refuses (m : Machine) (i : Instruction) :
    (∃ m', Executes m i m') ∨ ∃ f m', Refuses m i f m' := by
  cases i with
  | hlt => exact .inl ⟨_, .hlt⟩
  | ldi reg value =>
    cases hset : m.registers.set reg value with
    | ok registers => exact .inl ⟨_, .ldi hset⟩
    | error f => exact .inr ⟨f, _, .ldi hset⟩
  | prn reg =>
    cases hget : m.registers.get reg with
    | error f => exact .inr ⟨f, _, .prn hget⟩
    | ok value =>
      rcases hprint : m.device.print (printedLine value) with ⟨device, failure⟩
      cases failure with
      | none => exact .inl ⟨_, .prn hget hprint⟩
      | some reason => exact .inr ⟨_, _, .output hget hprint⟩
  | alu op a b =>
    cases happly : Alu.apply op m.registers a b with
    | ok registers => exact .inl ⟨_, .alu happly⟩
    | error f => exact .inr ⟨f, _, .alu happly⟩
  | push reg =>
    cases hget : m.lowered.get reg with
    | ok value => exact .inl ⟨_, .push hget⟩
    | error f => exact .inr ⟨f, _, .push hget⟩
  | pop reg =>
    cases hset : m.registers.set reg m.top with
    | ok registers => exact .inl ⟨_, .pop hset⟩
    | error f => exact .inr ⟨f, _, .pop hset⟩
  | call reg =>
    by_cases hfit : m.pc + 2 < size
    · cases hget : m.lowered.get reg with
      | ok target => exact .inl ⟨_, .call hfit hget⟩
      | error f => exact .inr ⟨f, _, .call hfit hget⟩
    · exact .inr ⟨_, _, .returnAddress (Nat.le_of_not_lt hfit)⟩
  | ret => exact .inl ⟨_, .ret⟩

/-! ## A step takes the course of the instruction fetched -/

@[simp] theorem memory_count (m : Machine) (o : Opcode) : (m.count o).memory = m.memory := rfl

@[simp] theorem registers_count (m : Machine) (o : Opcode) :
    (m.count o).registers = m.registers := rfl

@[simp] theorem pc_count (m : Machine) (o : Opcode) : (m.count o).pc = m.pc := rfl

@[simp] theorem device_count (m : Machine) (o : Opcode) : (m.count o).device = m.device := rfl

theorem step_of_fetch_error (hf : m.fetch = .error f) : m.step = ⟨m.stop, some f⟩ := by
  unfold fetch at hf
  simp only [step, hf]

theorem step_of_execute {m₁ : Machine} (hf : m.fetch = .ok i)
    (he : (m.count i.opcode).execute i = ⟨m₁, none⟩) :
    m.step = ⟨m₁.advance i.opcode, none⟩ := by
  unfold fetch at hf
  simp only [step, hf, he]

theorem step_of_execute_fault {m₁ : Machine} (hf : m.fetch = .ok i)
    (he : (m.count i.opcode).execute i = ⟨m₁, some f⟩) : m.step = ⟨m₁.stop, some f⟩ := by
  unfold fetch at hf
  simp only [step, hf, he]

/-- Calling and returning set the program counter; every other instruction moves
it behind itself. -/
theorem advance_eq (m : Machine) (o : Opcode) :
    m.advance o = if o = .call ∨ o = .ret then m else { m with pc := m.pc + o.length } := by
  unfold advance
  by_cases h : o = .call ∨ o = .ret
  · rw [if_pos h, if_pos ((Opcode.setsPc_iff o).2 h)]
  · rw [if_neg h, if_neg (fun hsets => h ((Opcode.setsPc_iff o).1 hsets))]

theorem step_of_executes (hf : m.fetch = .ok i) (h : Executes m i m') :
    m.step = ⟨m', none⟩ := by
  cases h with
  | hlt =>
    rw [step_of_execute hf rfl, Instruction.opcode, advance_eq, if_neg (by decide),
      Opcode.length_eq]
    rfl
  | @ldi reg value registers hset =>
    have he : (m.count .ldi).execute (.ldi reg value)
        = ⟨{ m.count .ldi with registers := registers }, none⟩ := by
      simp only [execute, registers_count, hset, withRegisters]
    rw [step_of_execute hf he, Instruction.opcode, advance_eq, if_neg (by decide), Opcode.length_eq]
    rfl
  | @prn reg value device hget hprint =>
    have he : (m.count .prn).execute (.prn reg)
        = ⟨{ m.count .prn with device := device }, none⟩ := by
      simp only [execute, registers_count, hget, print, device_count, hprint, Option.map_none]
    rw [step_of_execute hf he, Instruction.opcode, advance_eq, if_neg (by decide), Opcode.length_eq]
    rfl
  | @alu op a b registers happly =>
    have he : (m.count op.opcode).execute (.alu op a b)
        = ⟨{ m.count op.opcode with registers := registers }, none⟩ := by
      simp only [execute, Alu.ofOpcode_opcode, registers_count, happly, withRegisters]
    have hmoves : ¬ (op.opcode = .call ∨ op.opcode = .ret) := by
      rintro (h | h)
      · exact op.opcode_ne rfl h
      · exact op.opcode_ne rfl h
    rw [step_of_execute hf he, Instruction.opcode, advance_eq, if_neg hmoves, Alu.length_opcode]
    rfl
  | @push reg value hget =>
    have he : (m.count .push).execute (.push reg)
        = (m.count .push).lowerSp.storeAtSp value := by
      have hget' : (m.count .push).lowerSp.registers.get reg = .ok value := hget
      simp only [execute, hget']
    rw [storeAtSp_eq] at he
    rw [step_of_execute hf he, Instruction.opcode, advance_eq, if_neg (by decide), Opcode.length_eq]
    simp only [lowerSp, lowered, Registers.sp_setSp, registers_count, memory_count, pc_count]
  | @pop reg registers hset =>
    have he : (m.count .pop).execute (.pop reg)
        = ⟨{ m.count .pop with registers := registers }.raiseSp, none⟩ := by
      have hset' : (m.count .pop).registers.set reg (m.count .pop).top = .ok registers := hset
      simp only [execute, readAtSp_eq, hset']
    rw [step_of_execute hf he, Instruction.opcode, advance_eq, if_neg (by decide), Opcode.length_eq]
    rfl
  | @call reg target hfit hget =>
    have he : (m.count .call).execute (.call reg)
        = ⟨{ (m.count .call).lowerSp with
              memory := m.memory.set (m.count .call).lowerSp.registers.sp (UInt8.ofNat (m.pc + 2))
              pc := target.toNat }, none⟩ := by
      have hget' : (m.count .call).lowerSp.registers.get reg = .ok target := hget
      simp only [execute, pc_count, Opcode.length_eq, if_pos hfit, storeAtSp_eq, hget']
      rfl
    rw [step_of_execute hf he, Instruction.opcode, advance_eq, if_pos (by decide)]
    simp only [lowerSp, lowered, Registers.sp_setSp, registers_count]
  | ret =>
    have he : (m.count .ret).execute .ret
        = ⟨{ (m.count .ret).raiseSp with pc := m.top.toNat }, none⟩ := by
      simp only [execute, readAtSp_eq]
      rfl
    rw [step_of_execute hf he, Instruction.opcode, advance_eq, if_pos (by decide)]
    rfl

theorem step_of_refuses (hf : m.fetch = .ok i) (h : Refuses m i f m') :
    m.step = ⟨m', some f⟩ := by
  cases h with
  | ldi hset =>
    refine step_of_execute_fault hf ?_
    simp only [Instruction.opcode, execute, registers_count, hset, withRegisters]
  | prn hget =>
    refine step_of_execute_fault hf ?_
    simp only [Instruction.opcode, execute, registers_count, hget]
  | @output reg value device reason hget hprint =>
    have he : (m.count .prn).execute (.prn reg)
        = ⟨{ m.count .prn with device := device }, some (.outputFailed reason)⟩ := by
      simp only [execute, registers_count, hget, print, device_count, hprint, Option.map_some]
    rw [step_of_execute_fault hf he]
    rfl
  | alu happly =>
    refine step_of_execute_fault hf ?_
    simp only [Instruction.opcode, execute, Alu.ofOpcode_opcode, registers_count, happly,
      withRegisters]
  | @push reg f hget =>
    have he : (m.count .push).execute (.push reg) = ⟨(m.count .push).lowerSp, some f⟩ := by
      have hget' : (m.count .push).lowerSp.registers.get reg = .error f := hget
      simp only [execute, hget']
    rw [step_of_execute_fault hf he]
    rfl
  | @pop reg f hset =>
    have hset' : (m.count .pop).registers.set reg (m.count .pop).top = .error f := hset
    refine step_of_execute_fault hf ?_
    simp only [Instruction.opcode, execute, readAtSp_eq, hset']
  | @returnAddress reg hfit =>
    refine step_of_execute_fault hf ?_
    simp only [Instruction.opcode, execute, pc_count, Opcode.length_eq,
      if_neg (Nat.not_lt.2 hfit)]
  | @call reg f hfit hget =>
    have he : (m.count .call).execute (.call reg)
        = ⟨{ (m.count .call).lowerSp with
              memory := m.memory.set (m.count .call).lowerSp.registers.sp
                (UInt8.ofNat (m.pc + 2)) }, some f⟩ := by
      have hget' : (m.count .call).lowerSp.registers.get reg = .error f := hget
      simp only [execute, pc_count, Opcode.length_eq, if_pos hfit, storeAtSp_eq, hget']
      rfl
    rw [step_of_execute_fault hf he]
    simp only [stop, lowerSp, lowered, Registers.sp_setSp, registers_count]

/-! ## All that a step can do -/

/-- **A step that succeeds** executes the instruction at the program counter. -/
theorem step_eq_ok_iff : m.step = ⟨m', none⟩ ↔ ∃ i, m.fetch = .ok i ∧ Executes m i m' := by
  constructor
  · intro h
    cases hf : m.fetch with
    | error f =>
      rw [step_of_fetch_error hf] at h
      cases h
    | ok i =>
      rcases executes_or_refuses m i with ⟨m₁, hx⟩ | ⟨f, m₁, hx⟩
      · rw [step_of_executes hf hx] at h
        cases h
        exact ⟨i, rfl, hx⟩
      · rw [step_of_refuses hf hx] at h
        cases h
  · rintro ⟨i, hf, hx⟩
    exact step_of_executes hf hx

/-- **A step that faults** finds no instruction, or one that is refused. -/
theorem step_eq_fault_iff : m.step = ⟨m', some f⟩ ↔
    (m.fetch = .error f ∧ m' = m.stop) ∨ ∃ i, m.fetch = .ok i ∧ Refuses m i f m' := by
  constructor
  · intro h
    cases hf : m.fetch with
    | error f' =>
      rw [step_of_fetch_error hf] at h
      cases h
      exact .inl ⟨rfl, rfl⟩
    | ok i =>
      rcases executes_or_refuses m i with ⟨m₁, hx⟩ | ⟨f', m₁, hx⟩
      · rw [step_of_executes hf hx] at h
        cases h
      · rw [step_of_refuses hf hx] at h
        cases h
        exact .inr ⟨i, rfl, hx⟩
  · rintro (⟨hf, rfl⟩ | ⟨i, hf, hx⟩)
    · exact step_of_fetch_error hf
    · exact step_of_refuses hf hx

/-! ## What every instruction keeps -/

/-- Only halting changes the status. -/
theorem status_of_executes (hx : Executes m i m') (hi : i ≠ .hlt) : m'.status = m.status := by
  cases hx with
  | hlt => exact absurd rfl hi
  | _ => rfl

theorem steps_of_executes (hx : Executes m i m') : m'.steps = m.steps + 1 := by
  cases hx <;> rfl

theorem status_of_executes_hlt (hx : Executes m .hlt m') : m'.status = .stopped := by
  cases hx
  rfl

theorem status_of_refuses (hx : Refuses m i f m') : m'.status = .stopped := by
  cases hx <;> rfl

theorem pc_of_refuses (hx : Refuses m i f m') : m'.pc = m.pc := by
  cases hx <;> rfl

/-- Whatever an instruction does, it leaves the program counter at 256 or below. -/
theorem pc_le_of_executes (hf : m.fetch = .ok i) (hx : Executes m i m') : m'.pc ≤ size := by
  have hlen := Instruction.add_length_le_of_decode hf
  cases hx with
  | @alu op a b registers happly =>
    rw [Instruction.opcode, Alu.length_opcode] at hlen
    exact hlen
  | call hfit hget => exact Nat.le_of_lt (UInt8.toNat_lt _)
  | ret => exact Nat.le_of_lt (UInt8.toNat_lt _)
  | _ =>
    rw [Opcode.length_eq] at hlen
    exact hlen

theorem pc_step_le (h : m.pc ≤ size) : m.step.state.pc ≤ size := by
  rcases hs : m.step with ⟨m', _ | f⟩
  · obtain ⟨i, hf, hx⟩ := step_eq_ok_iff.1 hs
    exact pc_le_of_executes hf hx
  · rcases step_eq_fault_iff.1 hs with ⟨-, rfl⟩ | ⟨i, -, hx⟩
    · exact h
    · show m'.pc ≤ size
      rw [pc_of_refuses hx]
      exact h

end LS8.Machine
