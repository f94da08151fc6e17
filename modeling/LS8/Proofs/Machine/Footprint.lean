import Mathlib.Data.Set.Defs
import LS8.Proofs.Instruction.Encoding
import LS8.Proofs.Machine.Trajectory

/-!
# What a run depends on

A run depends on the cells that it reads, and on those only as long as it has not
written them itself.

- `Machine.reads`, `Machine.writes`: the cells that the next step reads and writes. It
  reads the opcode and the operands that the opcode declares, and the top of the stack
  if it pops or returns; it writes below the stack if it pushes or calls;
- `Machine.AgreeOutside D m m₁`: the machines differ in the cells of `D` at most;
- `AgreeOutside.step`: a step that reads no cell of `D` does the same in both, and where
  it writes they agree from then on;
- `Machine.agreeOutside_of_ignores`: so does a run that reads the cells of `D` only after
  it has written them, by induction on its length.
-/

namespace LS8

open Memory (size)

namespace Machine

variable {m m' m₁ : Machine} {i : Instruction} {f : Fault} {D : Set Nat} {n k : Nat}

/-! ## Reading and writing -/

/-- Whether an instruction reads the cell at the stack pointer. -/
def readsTop : Instruction → Bool
  | .pop _ | .ret => true
  | _ => false

/-- The byte that an instruction puts below the stack, if it comes that far. It may
still be refused after that. -/
def stored? (m : Machine) : Instruction → Option UInt8
  | .push reg => (m.lowered.get reg).toOption
  | .call _ => if m.pc + 2 < size then some (UInt8.ofNat (m.pc + 2)) else none
  | _ => none

/-- The cells that the next step reads: those that decoding looks at, and the top of the
stack. -/
def reads (m : Machine) : List Nat :=
  let code := (List.range' m.pc (Instruction.extent m.memory m.pc)).filter (· < size)
  match m.fetch with
  | .ok i => if readsTop i then code ++ [m.registers.sp.toNat] else code
  | .error _ => code

/-- The cells that the next step writes. -/
def writes (m : Machine) : List Nat :=
  match m.fetch with
  | .ok i => if (m.stored? i).isSome then [(m.registers.sp - 1).toNat] else []
  | .error _ => []

/-- Another memory with what an instruction stores in it. -/
def overwrite (m : Machine) (i : Instruction) (memory : Memory) : Memory :=
  match m.stored? i with
  | some v => memory.set (m.registers.sp - 1) v
  | none => memory

/-! ## The same instruction in another memory -/

/-- The machine with another memory. -/
def withMemory (m : Machine) (memory : Memory) : Machine :=
  { m with memory := memory }

/-- An instruction that succeeds does so in every memory with the same top of the stack,
and leaves that memory with what it stores. -/
theorem executes_withMemory {memory : Memory} (hx : Executes m i m')
    (htop : readsTop i = true → memory.get m.registers.sp = m.top) :
    Executes (m.withMemory memory) i (m'.withMemory (m.overwrite i memory)) := by
  have hpushed : ∀ {reg v : UInt8}, m.lowered.get reg = .ok v →
      m.overwrite (.push reg) memory = memory.set (m.registers.sp - 1) v := by
    intro reg v hget
    rw [overwrite, stored?, hget]
    rfl
  cases hx with
  | hlt => exact .hlt
  | ldi hset => exact .ldi hset
  | prn hget hprint => exact .prn hget hprint
  | alu happly => exact .alu happly
  | push hget =>
    rw [hpushed hget]
    exact .push hget
  | pop hset =>
    rw [← htop rfl] at hset
    exact .pop hset
  | call hfit hget =>
    rw [overwrite, stored?, if_pos hfit]
    exact .call hfit hget
  | ret =>
    rw [← htop rfl]
    exact .ret

/-- An instruction that is refused is refused in every memory, for the same reason. -/
theorem refuses_withMemory {memory : Memory} (hx : Refuses m i f m') :
    Refuses (m.withMemory memory) i f (m'.withMemory (m.overwrite i memory)) := by
  cases hx with
  | ldi hset => exact .ldi hset
  | prn hget => exact .prn hget
  | output hget hprint => exact .output hget hprint
  | alu happly => exact .alu happly
  | push hget =>
    rw [overwrite, stored?, hget]
    exact .push hget
  | pop hset =>
    -- the popped byte has no part in it
    exact .pop (Registers.set_eq_error_iff.2 (Registers.set_eq_error_iff.1 hset))
  | returnAddress hfit =>
    rw [overwrite, stored?, if_neg (Nat.not_lt.2 hfit)]
    exact .returnAddress hfit
  | call hfit hget =>
    rw [overwrite, stored?, if_pos hfit]
    exact .call hfit hget

/-- Another memory with what the next step stores in it. -/
def written (m : Machine) (memory : Memory) : Memory :=
  match m.fetch with
  | .ok i => m.overwrite i memory
  | .error _ => memory

/-- **A step in another memory**, as long as it finds the same instruction there and, if
it looks at the top of the stack, the same top. -/
theorem step_withMemory {memory : Memory} (hfetch : (m.withMemory memory).fetch = m.fetch)
    (htop : ∀ i, m.fetch = .ok i → readsTop i = true → memory.get m.registers.sp = m.top) :
    (m.withMemory memory).step = ⟨m.step.state.withMemory (m.written memory), m.step.fault⟩ := by
  cases hf : m.fetch with
  | error f =>
    rw [step_of_fetch_error hf, step_of_fetch_error (hfetch.trans hf), written, hf]
    rfl
  | ok i =>
    rw [written, hf]
    rcases executes_or_refuses m i with ⟨m', hx⟩ | ⟨f, m', hx⟩
    · rw [step_of_executes hf hx, step_of_executes (hfetch.trans hf)
        (executes_withMemory hx (htop i hf))]
    · rw [step_of_refuses hf hx, step_of_refuses (hfetch.trans hf) (refuses_withMemory hx)]

/-- The memory that a step leaves is the one before with what the step stores in it. -/
theorem memory_step (m : Machine) : m.step.state.memory = m.written m.memory := by
  have hself : m.step = ⟨m.step.state.withMemory (m.written m.memory), m.step.fault⟩ :=
    step_withMemory rfl fun _ _ _ => rfl
  rw [hself]
  rfl

/-! ## Cells outside a set -/

/-- The machines are equal, but for the contents of the cells of `D`. -/
structure AgreeOutside (D : Set Nat) (m m₁ : Machine) : Prop where
  pc : m₁.pc = m.pc
  registers : m₁.registers = m.registers
  status : m₁.status = m.status
  steps : m₁.steps = m.steps
  profile : m₁.profile = m.profile
  device : m₁.device = m.device
  cells : ∀ a, a ∉ D → m₁.memory.peek? a = m.memory.peek? a

theorem AgreeOutside.eq_withMemory (h : AgreeOutside D m m₁) : m₁ = m.withMemory m₁.memory := by
  cases m
  cases m₁
  obtain ⟨rfl, rfl, rfl, rfl, rfl, rfl, -⟩ := h
  rfl

/-- With its two sources, decoding and the stack. -/
theorem mem_reads_iff {a : Nat} : a ∈ m.reads ↔
    (m.pc ≤ a ∧ a < m.pc + Instruction.extent m.memory m.pc ∧ a < size) ∨
      ∃ i, m.fetch = .ok i ∧ readsTop i = true ∧ a = m.registers.sp.toNat := by
  have hcode : a ∈ (List.range' m.pc (Instruction.extent m.memory m.pc)).filter (· < size) ↔
      m.pc ≤ a ∧ a < m.pc + Instruction.extent m.memory m.pc ∧ a < size := by
    rw [List.mem_filter, List.mem_range'_1, decide_eq_true_iff, and_assoc]
  unfold reads
  cases hf : m.fetch with
  | error f => simp [hcode]
  | ok i => by_cases htop : readsTop i = true <;> simp [hcode, htop]

/-- What a step stores, it stores in both memories. -/
theorem peek?_written {M M₁ : Memory} (hcells : ∀ a, a ∉ D → M₁.peek? a = M.peek? a) {a : Nat}
    (ha : ¬ (a ∈ D ∧ a ∉ m.writes)) : (m.written M₁).peek? a = (m.written M).peek? a := by
  unfold written
  unfold writes at ha
  cases hf : m.fetch with
  | error f =>
    rw [hf] at ha
    exact hcells a fun h => ha ⟨h, List.not_mem_nil⟩
  | ok i =>
    rw [hf] at ha
    cases hs : m.stored? i with
    | none =>
      simp only [hs, Option.isSome_none] at ha
      simp only [overwrite, hs]
      exact hcells a fun h => ha ⟨h, List.not_mem_nil⟩
    | some v =>
      simp only [hs, Option.isSome_some, if_true, List.mem_singleton] at ha
      simp only [overwrite, hs, Memory.peek?_set]
      by_cases hcell : (m.registers.sp - 1).toNat = a
      · rw [if_pos hcell, if_pos hcell]
      · rw [if_neg hcell, if_neg hcell]
        exact hcells a fun h => ha ⟨h, Ne.symm hcell⟩

/-- **A step that reads no cell of `D`** reports the same in both machines, and they agree
afterwards, also on the cell of `D` that it may have written. -/
theorem AgreeOutside.step (h : AgreeOutside D m m₁) (hreads : ∀ a ∈ m.reads, a ∉ D) :
    m₁.step.fault = m.step.fault ∧
      AgreeOutside {a | a ∈ D ∧ a ∉ m.writes} m.step.state m₁.step.state := by
  have hfetch : (m.withMemory m₁.memory).fetch = m.fetch := by
    refine Instruction.decode_congr fun a hle hlt => ?_
    by_cases ha : a < size
    · exact h.cells a (hreads a (mem_reads_iff.2 (.inl ⟨hle, hlt, ha⟩)))
    · have hend := Nat.le_of_not_lt ha
      rw [Memory.peek?_eq_none_iff.2 hend, Memory.peek?_eq_none_iff.2 hend]
  have htop : ∀ i, m.fetch = .ok i → readsTop i = true → m₁.memory.get m.registers.sp = m.top := by
    intro i hf hi
    have hcell := h.cells _ (hreads _ (mem_reads_iff.2 (.inr ⟨i, hf, hi, rfl⟩)))
    rw [Memory.peek?_toNat, Memory.peek?_toNat] at hcell
    exact Option.some.inj hcell
  rw [h.eq_withMemory, step_withMemory hfetch htop]
  refine ⟨rfl, rfl, rfl, rfl, rfl, rfl, rfl, fun a ha => ?_⟩
  rw [memory_step]
  exact peek?_written h.cells ha

/-! ## Runs -/

theorem AgreeOutside.mono {D' : Set Nat} (h : AgreeOutside D m m₁) (hD : ∀ a, a ∈ D → a ∈ D') :
    AgreeOutside D' m m₁ :=
  ⟨h.pc, h.registers, h.status, h.steps, h.profile, h.device,
    fun a ha => h.cells a fun ha' => ha (hD a ha')⟩

/-- In its next `n` steps the machine reads no cell of `D` that it has not written
before. -/
def Ignores (m : Machine) (D : Set Nat) (n : Nat) : Prop :=
  ∀ k, k < n → ∀ a, a ∈ (m.after k).reads → a ∈ D → ∃ j, j < k ∧ a ∈ (m.after j).writes

/-- The cells of `D` that `k` steps have not written. -/
def exposed (m : Machine) (D : Set Nat) (k : Nat) : Set Nat :=
  {a | a ∈ D ∧ ∀ j, j < k → a ∉ (m.after j).writes}

/-- A step of a run removes the cells that it writes. -/
theorem mem_exposed_succ {a : Nat} :
    a ∈ m.exposed D (k + 1) ↔ a ∈ m.exposed D k ∧ a ∉ (m.after k).writes := by
  constructor
  · rintro ⟨ha, hno⟩
    exact ⟨⟨ha, fun j hj => hno j (Nat.lt_succ_of_lt hj)⟩, hno k (Nat.lt_succ_self k)⟩
  · rintro ⟨⟨ha, hno⟩, hk⟩
    refine ⟨ha, fun j hj => ?_⟩
    obtain hj | rfl := Nat.lt_succ_iff_lt_or_eq.1 hj
    · exact hno j hj
    · exact hk

/-- What has been written does not count: no cell that is still exposed is read. -/
theorem Ignores.notMem_exposed (hD : m.Ignores D n) (hk : k < n) :
    ∀ a ∈ (m.after k).reads, a ∉ m.exposed D k := by
  rintro a ha ⟨haD, hno⟩
  obtain ⟨j, hj, hwrites⟩ := hD k hk a ha haD
  exact hno j hj hwrites

/-- By induction on the number of steps: the two runs agree outside the cells of `D` that
have not been written so far. -/
theorem agreeOutside_exposed (h : AgreeOutside D m m₁) (hD : m.Ignores D n) (hk : k ≤ n) :
    AgreeOutside (m.exposed D k) (m.after k) (m₁.after k) := by
  induction k with
  | zero => exact h.mono fun a ha => ⟨ha, fun j hj => absurd hj (Nat.not_lt_zero j)⟩
  | succ k ih =>
    have hagree := ih (Nat.le_of_succ_le hk)
    exact (hagree.step (hD.notMem_exposed hk)).2.mono fun a ha => mem_exposed_succ.2 ha

/-- Beyond the opcode and the operands that it declares, a step reads at most the top of
the stack. -/
theorem reads_of_opcode {o : Opcode} {a : Nat} (hb : m.memory.peek? m.pc = some o.byte)
    (ha : a ∈ m.reads) (hbeyond : m.pc + o.operandCount < a) :
    (o = .pop ∨ o = .ret) ∧ a = m.registers.sp.toNat := by
  rcases mem_reads_iff.1 ha with ⟨-, hlt, -⟩ | ⟨i, hf, htop, rfl⟩
  · rw [Instruction.extent_of_opcode hb, Opcode.length] at hlt
    omega
  · obtain rfl := Opcode.byte_injective (Option.some.inj (hb.symm.trans (peek?_of_fetch hf)))
    refine ⟨?_, rfl⟩
    cases i with
    | pop reg => exact .inl rfl
    | ret => exact .inr rfl
    | _ => cases htop

/-- An instruction without operands is decoded in every cell that has its opcode, the
last one included. -/
theorem fetch_of_operandCount_eq_zero (hb : m.memory.peek? m.pc = some i.opcode.byte)
    (h : i.opcode.operandCount = 0) : m.fetch = .ok i := by
  refine Instruction.decode_eq_ok_iff.2 (Instruction.holds_encode_iff.2 ⟨hb, fun j hj => ?_⟩)
  rw [Instruction.length_operands, h] at hj
  exact absurd hj (Nat.not_lt_zero j)

/-- **Cells that are not read do not matter.** If a machine reads the cells of `D` only
after it has written them, then with any other contents of these cells its steps report the
same and leave the same machine, output included, but for those cells. The operands that an
opcode does not declare are never read; so a halt and a return succeed in any cell. -/
theorem agreeOutside_of_ignores :
    (∀ (D : Set Nat) (m m₁ : Machine) (n : Nat), AgreeOutside D m m₁ → m.Ignores D n →
      (∀ k, k < n → (m₁.after k).step.fault = (m.after k).step.fault) ∧
      ∀ k, k ≤ n → AgreeOutside D (m.after k) (m₁.after k)) ∧
    (∀ (m : Machine) (o : Opcode), m.memory.peek? m.pc = some o.byte →
      ∀ a ∈ m.reads, m.pc + o.operandCount < a →
        (o = .pop ∨ o = .ret) ∧ a = m.registers.sp.toNat) ∧
    ∀ (m : Machine) (o : Opcode), m.memory.peek? m.pc = some o.byte →
      o = .hlt ∨ o = .ret → m.step.fault = none := by
  refine ⟨fun D m m₁ n h hD => ⟨fun k hk => ?_, fun k hk => ?_⟩,
    fun m o hb a => reads_of_opcode hb, fun m o hb ho => ?_⟩
  · have hagree := agreeOutside_exposed h hD (Nat.le_of_lt hk)
    exact (hagree.step (hD.notMem_exposed hk)).1
  · exact (agreeOutside_exposed h hD hk).mono fun a ha => ha.1
  · obtain rfl | rfl := ho
    · have hf : m.fetch = .ok .hlt := fetch_of_operandCount_eq_zero hb rfl
      rw [step_of_executes hf .hlt]
    · have hf : m.fetch = .ok .ret := fetch_of_operandCount_eq_zero hb rfl
      rw [step_of_executes hf .ret]

/-- A machine that is about to execute `PUSH R0`, `POP R1` and `HLT`. -/
def pushesPops : Machine :=
  { initial {} false with
    memory := ((((Memory.zero.set 0 0x45).set 1 0).set 2 0x46).set 3 1).set 4 1 }

/-- The machine with other contents in the last cell, where it finds a halt, and in the cell
that it pushes to and pops from. -/
def pushesPopsOther : Machine :=
  pushesPops.withMemory ((pushesPops.memory.set 0xF3 77).set 255 1)

theorem agreeOutside_of_ignores_pushesPops :
    pushesPops.Ignores {a | 5 ≤ a} 3 ∧
      AgreeOutside {a | 5 ≤ a} (pushesPops.after 3) (pushesPopsOther.after 3) ∧
      (pushesPopsOther.setPc 255).step.fault = none := by
  have hignores : pushesPops.Ignores {a | 5 ≤ a} 3 := by
    change ∀ k, k < 3 → ∀ a, a ∈ (pushesPops.after k).reads → 5 ≤ a →
      ∃ j, j < k ∧ a ∈ (pushesPops.after j).writes
    decide +kernel
  have hagree : AgreeOutside {a | 5 ≤ a} pushesPops pushesPopsOther := by
    refine ⟨rfl, rfl, rfl, rfl, rfl, rfl, fun a ha => ?_⟩
    have hlt : a < 5 := Nat.lt_of_not_le ha
    have htop : (0xF3 : UInt8).toNat ≠ a := Nat.ne_of_gt (Nat.lt_trans hlt (by decide))
    have hlast : (255 : UInt8).toNat ≠ a := Nat.ne_of_gt (Nat.lt_trans hlt (by decide))
    rw [pushesPopsOther, withMemory, Memory.peek?_set, if_neg hlast, Memory.peek?_set, if_neg htop]
  obtain ⟨hruns, -, hlegal⟩ := agreeOutside_of_ignores
  refine ⟨hignores, (hruns _ _ _ 3 hagree hignores).2 3 (Nat.le_refl 3), ?_⟩
  exact hlegal _ .hlt (by decide +kernel) (.inl rfl)

end Machine

end LS8
