import LS8.Proofs.Machine.Faults

/-!
# What a fault leaves behind

A fault stops the machine at the instruction that it is about. What the instruction had
done before stays done.

- Where no instruction can be decoded, nothing but the status is touched;
- a decoded instruction is counted before it is executed, so it is counted even if it is
  refused (`Machine.steps_of_refuses`, `Machine.grows_of_refuses`);
- `Machine.Residue` lists what refused instructions leave in the registers and in
  memory: a push has lowered the stack pointer, a call has pushed its return address
  completely, and every other instruction has done nothing.

`Machine.aftermath_of_fault` puts this together, for every machine and every device.
-/

namespace LS8

open Memory (size)

/-- After one more execution of `o`, in a machine that may or may not keep a profile. -/
def Profile.Grows (o : Opcode) : Option Profile → Option Profile → Prop
  | none, after => after = none
  | some p, after => ∃ p', after = some p' ∧ p'.total = p.total + 1 ∧
    ∀ o', p'.count o' = if o' = o then p.count o + 1 else p.count o'

theorem Profile.grows_map_record (o : Opcode) (p : Option Profile) :
    Profile.Grows o p (p.map (·.record o)) := by
  cases p with
  | none => rfl
  | some p => exact ⟨p.record o, rfl, rfl, p.count_record o⟩

namespace Machine

variable {m m' : Machine} {i : Instruction} {f : Fault} {reg : UInt8}

/-- What a refused instruction leaves of the registers and the memory of `m`, if it ends
in the fault `f` and leaves the machine `m'`. -/
inductive Residue (m : Machine) (f : Fault) (m' : Machine) : Instruction → Prop
  /-- A push of a register that does not exist has lowered the stack pointer. -/
  | push {reg : UInt8} (hreg : 8 ≤ reg.toNat)
      (hregisters : m'.registers = m.registers.setSp (m.registers.sp - 1))
      (hmemory : m'.memory = m.memory) : Residue m f m' (.push reg)
  /-- A call through a register that does not exist has pushed the return address. -/
  | call {reg : UInt8} (hreg : 8 ≤ reg.toNat) (hpc : m.pc ≤ 253)
      (hregisters : m'.registers = m.registers.setSp (m.registers.sp - 1))
      (hmemory : m'.memory = m.memory.set (m.registers.sp - 1) (UInt8.ofNat (m.pc + 2))) :
      Residue m f m' (.call reg)
  /-- All else, also a call whose return address would be 256, has done nothing. -/
  | nothing {i : Instruction} (hpush : i.opcode ≠ .push)
      (hcall : i.opcode = .call → m.pc = 254 ∧ f = .outOfBounds 256)
      (hregisters : m'.registers = m.registers) (hmemory : m'.memory = m.memory) :
      Residue m f m' i

theorem steps_of_refuses (hx : Refuses m i f m') : m'.steps = m.steps + 1 := by
  cases hx <;> rfl

theorem grows_of_refuses (hx : Refuses m i f m') :
    Profile.Grows i.opcode m.profile m'.profile := by
  have hprofile : m'.profile = m.profile.map (·.record i.opcode) := by
    cases hx <;> rfl
  rw [hprofile]
  exact Profile.grows_map_record _ _

/-- A call is not refused for its register unless it has room for the return address. -/
theorem residue_of_refuses (hf : m.fetch = .ok i) (hx : Refuses m i f m') :
    Residue m f m' i := by
  cases hx with
  | push hget => exact .push (Registers.get_eq_error_iff.1 hget).1 rfl rfl
  | call hfit hget =>
    have hpc : m.pc ≤ 253 := Nat.le_of_lt_succ (Nat.lt_of_add_lt_add_right hfit)
    exact .call (Registers.get_eq_error_iff.1 hget).1 hpc rfl rfl
  | returnAddress hfit =>
    have hpc : m.pc = 254 := (pc_eq_of_fetch_call hf rfl).1 hfit
    exact .nothing nofun (fun _ => ⟨hpc, by rw [hpc]⟩) rfl rfl
  | @alu op =>
    exact .nothing (op.opcode_ne rfl) (fun ho => absurd ho (op.opcode_ne rfl)) rfl rfl
  | _ => exact .nothing nofun nofun rfl rfl

/-! ## Which of the residues there are -/

/-- Lowering the stack pointer makes no register of a byte that names none. -/
theorem get_lowered_of_count_le (m : Machine) (h : Registers.count ≤ reg.toNat) :
    m.lowered.get reg = .error (.invalidRegister reg) :=
  Registers.get_of_count_le h

theorem fault_of_push_missing (hf : m.fetch = .ok (.push reg)) (hreg : 8 ≤ reg.toNat) :
    m.step.fault = some (.invalidRegister reg) := by
  rw [step_of_refuses hf (.push (m.get_lowered_of_count_le hreg))]

theorem fault_of_call_missing (hf : m.fetch = .ok (.call reg)) (hreg : 8 ≤ reg.toNat)
    (hpc : m.pc ≤ 253) : m.step.fault = some (.invalidRegister reg) := by
  have hfit : m.pc + 2 < size := Nat.add_lt_add_right (Nat.lt_succ_of_le hpc) 2
  rw [step_of_refuses hf (.call hfit (m.get_lowered_of_count_le hreg))]

/-- **What a fault leaves behind.** A step that faults leaves the machine stopped, with
the program counter at the instruction. If no instruction was decoded, all else is as it
was. If one was, it has been counted, and registers and memory are as they were but for
the residue of a push or a call. These residues do occur: a push of a register that does
not exist, and a call through one, fault. A call at 254 faults too, for its return
address and whatever its register is. -/
theorem aftermath_of_fault (m : Machine) :
    (∀ f m', m.step = ⟨m', some f⟩ →
      m'.status = .stopped ∧ m'.pc = m.pc ∧
      (∀ f', m.fetch = .error f' → m' = { m with status := .stopped }) ∧
      ∀ i, m.fetch = .ok i →
        m'.steps = m.steps + 1 ∧ Profile.Grows i.opcode m.profile m'.profile ∧
        Residue m f m' i) ∧
    (∀ f, m.fetch = .error f → m.step.fault = some f) ∧
    (∀ reg, m.fetch = .ok (.push reg) → 8 ≤ reg.toNat →
      m.step.fault = some (.invalidRegister reg)) ∧
    (∀ reg, m.fetch = .ok (.call reg) → 8 ≤ reg.toNat → m.pc ≤ 253 →
      m.step.fault = some (.invalidRegister reg)) ∧
    ∀ reg, m.fetch = .ok (.call reg) → m.pc = 254 → m.step.fault = some (.outOfBounds 256) := by
  refine ⟨fun f m' h => ?_, fun f hf => by rw [step_of_fetch_error hf],
    fun reg => fault_of_push_missing, fun reg => fault_of_call_missing,
    fun reg hf => fault_of_call_below_end hf rfl⟩
  rcases step_eq_fault_iff.1 h with ⟨hf, rfl⟩ | ⟨i, hf, hx⟩
  · refine ⟨rfl, rfl, fun _ _ => rfl, fun i hi => ?_⟩
    cases hi.symm.trans hf
  · refine ⟨status_of_refuses hx, pc_of_refuses hx, fun f' hf' => ?_, fun i' hi' => ?_⟩
    · cases hf.symm.trans hf'
    · obtain rfl := Except.ok.inj (hf.symm.trans hi')
      exact ⟨steps_of_refuses hx, grows_of_refuses hx, residue_of_refuses hf hx⟩

/-- A machine with a profile that is about to execute `CALL R9` at address 253. -/
def callsMissing : Machine :=
  { initial {} true with memory := (Memory.zero.set 253 0x50).set 254 9, pc := 253 }

theorem aftermath_of_fault_callsMissing :
    callsMissing.step.fault = some (.invalidRegister 9) ∧
      callsMissing.step.state.pc = 253 ∧ callsMissing.step.state.steps = 1 ∧
      (∃ p, callsMissing.step.state.profile = some p ∧ p.count .call = 1) ∧
      callsMissing.step.state.registers.sp = 0xF3 ∧
      callsMissing.step.state.memory.get 0xF3 = 255 := by
  have hf : callsMissing.fetch = .ok (.call 9) := by decide +kernel
  obtain ⟨hafter, -, -, hcall, -⟩ := aftermath_of_fault callsMissing
  have hfault := hcall 9 hf (by decide) (by decide)
  have hstep : callsMissing.step = ⟨callsMissing.step.state, some (.invalidRegister 9)⟩ := by
    rw [← hfault]
  obtain ⟨-, hpc, -, hdecoded⟩ := hafter _ _ hstep
  obtain ⟨hsteps, hgrows, hresidue⟩ := hdecoded _ hf
  obtain ⟨p, hp, -, hcount⟩ := hgrows
  refine ⟨hfault, hpc, hsteps, ⟨p, hp, hcount .call⟩, ?_⟩
  cases hresidue with
  | call hreg _ hregisters hmemory =>
    rw [hregisters, hmemory]
    decide +kernel
  | nothing _ hnot => exact absurd (hnot rfl).1 (by decide)

end Machine

end LS8
