import LS8.Proofs.Machine.Output

/-!
# The faults of reachable machines

- `Machine.Reachable`: what a machine at power-on becomes by loading, starting and
  stepping, in any order and also after faults. Nothing but the program moves its
  program counter, which therefore stays at most 256 (`Reachable.pc_le`).
- `Machine.Reports m f`: the state that the fault `f` of the next step speaks of.
- `Machine.fault_iff_reports`: with a device that never fails, a step from a
  reachable machine faults with `f` exactly if `m.Reports f`. So a fault tells the
  truth, and the faults of the arithmetic unit and of the device never occur.
-/

namespace LS8

open Memory (size)

namespace Instruction

/-- The register operands of an instruction, in order. -/
def registerOperands : Instruction → List UInt8
  | .hlt | .ret => []
  | .ldi reg _ | .prn reg | .push reg | .pop reg | .call reg => [reg]
  | .alu _ a b => [a, b]

/-- The first register operand that names no register. -/
def invalidRegister? (i : Instruction) : Option UInt8 :=
  i.registerOperands.find? (Registers.count ≤ ·.toNat)

end Instruction

namespace Machine

variable {m m' : Machine} {i : Instruction} {f : Fault} {device : Device}

/-- What becomes of a machine with the given device that is only loaded, started and
stepped. -/
inductive Reachable (device : Device) : Machine → Prop
  | powerOn (profiling : Bool) : Reachable device (initial device profiling)
  | load {m : Machine} (h : Reachable device m) (image : Image) :
    Reachable device (m.load image).state
  | start {m : Machine} (h : Reachable device m) : Reachable device m.start
  | step {m : Machine} (h : Reachable device m) : Reachable device m.step.state

/-- The fault `f` is what is wrong with the next step of `m`:

- the byte at the program counter is no opcode;
- an address without a cell is needed. The first of them is 256, and what needs it
  is the opcode, an operand, or a call whose return address would be 256;
- the instruction names a register that does not exist, and no register before it
  is missing. A call that cannot return is not looked at so closely. -/
def Reports (m : Machine) : Fault → Prop
  | .unknownOpcode byte address =>
    address = m.pc ∧ m.memory.peek? m.pc = some byte ∧ ∀ o : Opcode, o.byte ≠ byte
  | .outOfBounds address =>
    address = 256 ∧
      (m.pc = 256 ∨
        (∃ o : Opcode, m.memory.peek? m.pc = some o.byte ∧ 255 < m.pc + o.operandCount) ∨
        (m.pc = 254 ∧ m.memory.peek? 254 = some Opcode.call.byte))
  | .invalidRegister index =>
    ∃ i, m.fetch = .ok i ∧ i.invalidRegister? = some index ∧ ¬ (m.pc = 254 ∧ i.opcode = .call)
  | .unsupportedAlu _ => False
  | .outputFailed _ => False

/-! ## The program counter -/

theorem Reachable.pc_le (h : Reachable device m) : m.pc ≤ size := by
  induction h with
  | powerOn profiling => exact Nat.zero_le _
  | load _ _ ih => exact ih
  | start _ ih => exact ih
  | step _ ih => exact pc_step_le ih

theorem Reachable.after (h : Reachable device m) (n : Nat) : Reachable device (m.after n) := by
  induction n with
  | zero => exact h
  | succ n ih => exact ih.step

theorem Reachable.unlimited (hd : device.Unlimited) (h : Reachable device m) :
    m.device.Unlimited := by
  induction h with
  | powerOn profiling => exact hd
  | load _ _ ih => exact ih
  | start _ ih => exact ih
  | step _ ih => exact unlimited_step ih

/-! ## What an instruction can find wrong -/

/-- An instruction succeeds only if all of its registers exist. -/
theorem invalidRegister?_of_executes (hx : Executes m i m') : i.invalidRegister? = none := by
  have single : ∀ {reg : UInt8}, reg.toNat < Registers.count →
      [reg].find? (Registers.count ≤ ·.toNat) = none := by
    intro reg hlt
    simp [Nat.not_le.2 hlt]
  cases hx with
  | hlt | ret => rfl
  | ldi hset => exact single (Registers.lt_count_of_set_eq_ok hset)
  | prn hget hprint => exact single (Registers.lt_count_of_get_eq_ok hget)
  | alu happly =>
    obtain ⟨x, y, ha, hb, -⟩ := Alu.apply_eq_ok_iff.1 happly
    have ha' := Registers.lt_count_of_get_eq_ok ha
    have hb' := Registers.lt_count_of_get_eq_ok hb
    simp [Instruction.invalidRegister?, Instruction.registerOperands, Nat.not_le.2 ha',
      Nat.not_le.2 hb']
  | push hget => exact single (Registers.lt_count_of_get_eq_ok hget)
  | pop hset => exact single (Registers.lt_count_of_set_eq_ok hset)
  | call hfit hget => exact single (Registers.lt_count_of_get_eq_ok hget)

/-- On an unlimited device an instruction is refused for two reasons: it is a call
whose return address is no byte, or one of its registers does not exist. -/
theorem refuses_cases (hd : m.device.Unlimited) (hx : Refuses m i f m') :
    (i.opcode = .call ∧ size ≤ m.pc + 2 ∧ f = .outOfBounds (m.pc + 2)) ∨
    ∃ index, i.invalidRegister? = some index ∧ f = .invalidRegister index ∧
      (i.opcode = .call → m.pc + 2 < size) := by
  have single : ∀ {reg : UInt8}, Registers.count ≤ reg.toNat →
      [reg].find? (Registers.count ≤ ·.toNat) = some reg := by
    intro reg hle
    simp [hle]
  cases hx with
  | ldi hset =>
    obtain ⟨hle, rfl⟩ := Registers.set_eq_error_iff.1 hset
    exact .inr ⟨_, single hle, rfl, nofun⟩
  | prn hget =>
    obtain ⟨hle, rfl⟩ := Registers.get_eq_error_iff.1 hget
    exact .inr ⟨_, single hle, rfl, nofun⟩
  | output hget hprint =>
    rw [Device.print_of_unlimited hd] at hprint
    exact absurd (Prod.mk.inj hprint).2 nofun
  | @alu op a b f happly =>
    have hop : (Instruction.alu op a b).opcode = .call → m.pc + 2 < size :=
      fun h => absurd h (op.opcode_ne rfl)
    rcases Alu.apply_eq_error_iff.1 happly with ha | ⟨⟨x, ha⟩, hb⟩
    · obtain ⟨hle, rfl⟩ := Registers.get_eq_error_iff.1 ha
      exact .inr ⟨_, by simp [Instruction.invalidRegister?, Instruction.registerOperands, hle],
        rfl, hop⟩
    · obtain ⟨hle, rfl⟩ := Registers.get_eq_error_iff.1 hb
      have ha' := Registers.lt_count_of_get_eq_ok ha
      exact .inr ⟨_, by simp [Instruction.invalidRegister?, Instruction.registerOperands, hle,
        Nat.not_le.2 ha'], rfl, hop⟩
  | push hget =>
    obtain ⟨hle, rfl⟩ := Registers.get_eq_error_iff.1 hget
    exact .inr ⟨_, single hle, rfl, nofun⟩
  | pop hset =>
    obtain ⟨hle, rfl⟩ := Registers.set_eq_error_iff.1 hset
    exact .inr ⟨_, single hle, rfl, nofun⟩
  | returnAddress hfit => exact .inl ⟨rfl, hfit, rfl⟩
  | call hfit hget =>
    obtain ⟨hle, rfl⟩ := Registers.get_eq_error_iff.1 hget
    exact .inr ⟨_, single hle, rfl, fun _ => hfit⟩

/-! ## Reports are true -/

/-- A call whose return address is no byte stands just below the last cell. -/
theorem pc_eq_of_fetch_call (hf : m.fetch = .ok i) (ho : i.opcode = .call) :
    size ≤ m.pc + 2 ↔ m.pc = 254 := by
  have hlen := Instruction.add_length_le_of_decode hf
  rw [ho, Opcode.length_eq] at hlen
  have hlen' : m.pc + 2 ≤ 256 := hlen
  show 256 ≤ m.pc + 2 ↔ m.pc = 254
  omega

theorem reports_of_fetch_error (hpc : m.pc ≤ size) (hf : m.fetch = .error f) : m.Reports f := by
  rcases Instruction.decode_eq_error_iff.1 hf with ⟨hle, rfl⟩ | ⟨byte, hb, hno, rfl⟩ |
    ⟨o, hb, hbeyond, rfl⟩
  · have heq : m.pc = 256 := Nat.le_antisymm hpc hle
    exact ⟨heq, .inl heq⟩
  · exact ⟨rfl, hb, hno⟩
  · exact ⟨rfl, .inr (.inl ⟨o, hb, Nat.lt_of_succ_le hbeyond⟩)⟩

theorem reports_of_refuses (hd : m.device.Unlimited) (hf : m.fetch = .ok i)
    (hx : Refuses m i f m') : m.Reports f := by
  rcases refuses_cases hd hx with ⟨ho, hle, rfl⟩ | ⟨index, hindex, rfl, hcall⟩
  · have hpc := (pc_eq_of_fetch_call hf ho).1 hle
    refine ⟨by rw [hpc], .inr (.inr ⟨hpc, ?_⟩)⟩
    rw [← hpc, peek?_of_fetch hf, ho]
  · refine ⟨i, hf, hindex, fun ⟨hpc, ho⟩ => ?_⟩
    exact absurd (hcall ho) (Nat.not_lt.2 ((pc_eq_of_fetch_call hf ho).2 hpc))

/-- The fault of a step is one that its state speaks of. -/
theorem reports_of_fault (hd : m.device.Unlimited) (hpc : m.pc ≤ size)
    (h : m.step.fault = some f) : m.Reports f := by
  rcases hs : m.step with ⟨m', fault⟩
  rw [hs] at h
  obtain rfl : fault = some f := h
  rcases step_eq_fault_iff.1 hs with ⟨hf, -⟩ | ⟨i, hf, hx⟩
  · exact reports_of_fetch_error hpc hf
  · exact reports_of_refuses hd hf hx

/-! ## What is wrong is reported -/

/-- A call whose return address is no byte faults, whatever its register is. -/
theorem fault_of_call_below_end (hf : m.fetch = .ok i) (ho : i.opcode = .call)
    (hpc : m.pc = 254) : m.step.fault = some (.outOfBounds 256) := by
  -- the return address is looked at before the register, so no other fault can come
  have hle : size ≤ m.pc + 2 := (pc_eq_of_fetch_call hf ho).2 hpc
  cases i with
  | call reg => rw [step_of_refuses hf (.returnAddress hle), hpc]
  | alu op a b => exact absurd ho (op.opcode_ne rfl)
  | _ => cases ho

/-- A register that does not exist makes any other instruction fault. -/
theorem fault_of_invalidRegister {index : UInt8} (hd : m.device.Unlimited)
    (hf : m.fetch = .ok i) (hindex : i.invalidRegister? = some index)
    (hcall : ¬ (m.pc = 254 ∧ i.opcode = .call)) :
    m.step.fault = some (.invalidRegister index) := by
  rcases executes_or_refuses m i with ⟨m', hx⟩ | ⟨f, m', hx⟩
  · rw [invalidRegister?_of_executes hx] at hindex
    cases hindex
  · rw [step_of_refuses hf hx]
    rcases refuses_cases hd hx with ⟨ho, hle, -⟩ | ⟨index', hindex', rfl, -⟩
    · exact absurd ⟨(pc_eq_of_fetch_call hf ho).1 hle, ho⟩ hcall
    · rw [Option.some.inj (hindex'.symm.trans hindex)]

theorem fault_of_reports (hd : m.device.Unlimited) (h : m.Reports f) :
    m.step.fault = some f := by
  -- each fault comes from the first check that its state fails
  cases f with
  | unknownOpcode byte address =>
    obtain ⟨rfl, hb, hno⟩ := h
    rw [step_of_fetch_error (Instruction.decode_of_not_opcode hb hno)]
  | outOfBounds address =>
    obtain ⟨rfl, hpc | ⟨o, hb, hbeyond⟩ | ⟨hpc, hb⟩⟩ := h
    · rw [step_of_fetch_error (Instruction.decode_of_size_le (Nat.le_of_eq hpc.symm)), hpc]
    · rw [step_of_fetch_error (Instruction.decode_of_operands_beyond hb hbeyond)]
    · have hb' : m.memory.peek? m.pc = some Opcode.call.byte := hpc ▸ hb
      have hwithin : m.pc + Opcode.call.operandCount < size := by
        rw [hpc]
        decide
      obtain ⟨i, hf, ho, -⟩ := Instruction.decode_of_operands_within hb' hwithin
      exact fault_of_call_below_end hf ho hpc
  | invalidRegister index =>
    obtain ⟨i, hf, hindex, hcall⟩ := h
    exact fault_of_invalidRegister hd hf hindex hcall
  | unsupportedAlu opcode => exact h.elim
  | outputFailed reason => exact h.elim

/-- The stack is never out of bounds: every byte that the stack pointer can hold is
the address of a cell. -/
theorem fault_ne_outOfBounds_of_stack (hf : m.fetch = .ok i)
    (ho : i.opcode = .push ∨ i.opcode = .pop ∨ i.opcode = .ret) (address : Nat) :
    m.step.fault ≠ some (.outOfBounds address) := by
  intro hfault
  rcases executes_or_refuses m i with ⟨m', hx⟩ | ⟨f, m', hx⟩
  · rw [step_of_executes hf hx] at hfault
    cases hfault
  · rw [step_of_refuses hf hx] at hfault
    obtain rfl := Option.some.inj hfault
    cases hx with
    | push hget =>
      obtain ⟨-, hne⟩ := Registers.get_eq_error_iff.1 hget
      cases hne
    | pop hset =>
      obtain ⟨-, hne⟩ := Registers.set_eq_error_iff.1 hset
      cases hne
    | @alu op =>
      rcases ho with h | h | h
      · exact absurd h (op.opcode_ne rfl)
      · exact absurd h (op.opcode_ne rfl)
      · exact absurd h (op.opcode_ne rfl)
    | _ => rcases ho with h | h | h <;> cases h

/-- **Reachable machines report the truth.** Their program counter is at most 256.
With a device that never fails, a step reports the fault that its state speaks of,
and no other: an unknown opcode at the program counter, an address that is exactly
256, or the first register operand that does not exist. Pushing, popping and
returning never go out of bounds, whatever the stack pointer holds. -/
theorem fault_iff_reports (h : Reachable device m) :
    m.pc ≤ 256 ∧
    (device.Unlimited → ∀ f, m.step.fault = some f ↔ m.Reports f) ∧
    ∀ i, m.fetch = .ok i → i.opcode = .push ∨ i.opcode = .pop ∨ i.opcode = .ret →
      ∀ sp address, { m with registers := m.registers.setSp sp }.step.fault
        ≠ some (.outOfBounds address) := by
  refine ⟨h.pc_le, fun hd f => ?_, fun i hf ho sp address => ?_⟩
  · have hd' := h.unlimited hd
    exact ⟨reports_of_fault hd' h.pc_le, fault_of_reports hd'⟩
  · exact fault_ne_outOfBounds_of_stack (m := { m with registers := m.registers.setSp sp }) hf ho
      address

/-- A machine that is about to call from its last two cells: `LDI R0,254`, `PUSH R0`,
`CALL R0`, and at address 254 a `CALL` of a register that does not exist. -/
def callsAtEnd : Machine :=
  let code := [0x82, 0x00, 0xFE, 0x45, 0x00, 0x50, 0x00] ++ List.replicate 247 0 ++ [0x50, 0x09]
  ((initial {} false).load ⟨code⟩).state.start

theorem fault_iff_reports_callsAtEnd :
    (callsAtEnd.after 3).pc = 254 ∧
      (callsAtEnd.after 3).step.fault = some (.outOfBounds 256) ∧
      ¬ (callsAtEnd.after 3).Reports (.invalidRegister 9) ∧
      { callsAtEnd.after 1 with
          registers := (callsAtEnd.after 1).registers.setSp 0 }.step.fault
        ≠ some (.outOfBounds 255) := by
  have hreach : Reachable {} callsAtEnd := .start (.load (.powerOn false) _)
  have hpc : (callsAtEnd.after 3).pc = 254 := by decide +kernel
  obtain ⟨-, hiff, -⟩ := fault_iff_reports (hreach.after 3)
  have hfault : (callsAtEnd.after 3).step.fault = some (.outOfBounds 256) := by
    refine (hiff ⟨rfl, rfl⟩ _).2 ⟨rfl, .inr (.inr ⟨hpc, ?_⟩)⟩
    decide +kernel
  refine ⟨hpc, hfault, fun h => ?_, ?_⟩
  · have hother := (hiff ⟨rfl, rfl⟩ _).2 h
    rw [hfault] at hother
    cases hother
  · obtain ⟨-, -, hstack⟩ := fault_iff_reports (hreach.after 1)
    have hpush : (callsAtEnd.after 1).fetch = .ok (.push 0) := by decide +kernel
    exact hstack _ hpush (.inl rfl) 0 255

end Machine

end LS8
