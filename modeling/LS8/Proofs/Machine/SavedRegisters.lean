import LS8.Proofs.Instruction.Encoding
import LS8.Proofs.Machine.Trajectory

/-!
# Saving registers

A program that pushes registers, does something else, and pops them in the opposite order
has them back. This holds of R7 too, which is the stack pointer: what a push stores of it is
its value after the push, and that is the value from which a pop moves on.

- `Machine.Arranged`: the code of the pushes and of the pops is in memory, and the cells that
  are pushed to are none of its cells;
- `Machine.Restored`: the state that the pops are to leave;
- `Arranged.push`, `Restored.pop`: what the first push and the last pop do to the two, with
  the same for the other registers in between;
- `Machine.pops_restore_pushed`: the pushes and the pops succeed, and the registers are back.
-/

namespace LS8.Machine

open Memory (size)

variable {m m' m₁ m₂ : Machine} {i : Instruction} {program : List Instruction}
  {reg value : UInt8} {regs rest : List UInt8} {scratch : Registers} {n q : Nat}

/-! ## Executing a list of instructions -/

/-- The next steps execute the instructions of a list, in order, and all of them succeed. -/
def Performs (m : Machine) (program : List Instruction) : Prop :=
  ∀ k i, program[k]? = some i → (m.after k).fetch = .ok i ∧ (m.after k).step.fault = none

theorem performs_nil : m.Performs [] :=
  fun _ _ h => absurd h nofun

theorem Performs.cons (hf : m.fetch = .ok i) (hx : Executes m i m₁) (h : m₁.Performs program) :
    m.Performs (i :: program) := by
  have hstep := step_of_executes hf hx
  intro k i' hi
  cases k with
  | zero =>
    obtain rfl := Option.some.inj hi
    exact ⟨hf, by rw [after_zero, hstep]⟩
  | succ k =>
    rw [after_succ_eq_after_step, hstep]
    exact h k i' hi

theorem Performs.concat (h : m.Performs program) (hn : program.length = n)
    (hf : (m.after n).fetch = .ok i) (hx : Executes (m.after n) i m₁) :
    m.Performs (program ++ [i]) := by
  subst hn
  intro k i' hi
  rcases Nat.lt_trichotomy k program.length with hlt | rfl | hgt
  · rw [List.getElem?_append_left hlt] at hi
    exact h k i' hi
  · rw [List.getElem?_concat_length] at hi
    obtain rfl := Option.some.inj hi
    exact ⟨hf, by rw [step_of_executes hf hx]⟩
  · rw [List.getElem?_eq_none (by simp; omega)] at hi
    cases hi

/-- The code of instructions that have one operand each. -/
theorem length_encodeAll_map {f : UInt8 → Instruction} (hf : ∀ reg, (f reg).encode.length = 2)
    (regs : List UInt8) : (Instruction.encodeAll (regs.map f)).length = 2 * regs.length := by
  induction regs with
  | nil => rfl
  | cons reg rest ih =>
    rw [List.map_cons, Instruction.encodeAll_cons, List.length_append, hf, ih, List.length_cons]
    omega

/-! ## The cells that are pushed to -/

/-- The `n` cells below the stack pointer, the nearest first. Below cell 0 lies cell 255. -/
def below (sp : UInt8) (n : Nat) : List UInt8 :=
  (List.range n).map fun j => sp - UInt8.ofNat (j + 1)

theorem below_succ (sp : UInt8) (n : Nat) : below sp (n + 1) = (sp - 1) :: below (sp - 1) n := by
  have hnext : ∀ j, sp - UInt8.ofNat (j + 1 + 1) = sp - 1 - UInt8.ofNat (j + 1) := by
    intro j
    rw [UInt8.ofNat_add]
    grind
  simp only [below, List.range_succ_eq_map, List.map_cons, List.map_map]
  exact congrArg₂ _ rfl (List.map_congr_left fun j _ => hnext j)

/-- Less than a whole memory further down lies another cell. -/
theorem sp_notMem_below (sp : UInt8) (hn : n < size) : sp ∉ below sp n := by
  have hn : n < 256 := hn
  intro hmem
  obtain ⟨j, hj, he⟩ := List.mem_map.1 hmem
  have hlt := List.mem_range.1 hj
  have := congrArg UInt8.toNat he
  simp [UInt8.toNat_sub] at this
  omega

/-! ## Before and after -/

/-- The registers `regs` are pushed from the program counter on and popped in the opposite
order from address `q` on, and no cell of this code is one of those that are pushed to. -/
structure Arranged (m : Machine) (regs : List UInt8) (q : Nat) : Prop where
  pushes : m.memory.Holds m.pc (Instruction.encodeAll (regs.map .push))
  pops : m.memory.Holds q (Instruction.encodeAll (regs.reverse.map .pop))
  apart : ∀ a ∈ below m.registers.sp regs.length,
    ¬ (m.pc ≤ a.toNat ∧ a.toNat < m.pc + 2 * regs.length) ∧
      ¬ (q ≤ a.toNat ∧ a.toNat < q + 2 * regs.length)

/-- `m'` is what the pops from address `q` on leave, if `m` was the machine before the pushes
and `scratch` are the registers that the pops found. -/
structure Restored (m : Machine) (regs : List UInt8) (scratch : Registers) (q : Nat)
    (m' : Machine) : Prop where
  restores : ∀ reg ∈ regs, m'.registers.get reg = m.registers.get reg
  sp : m'.registers.sp = m.registers.sp
  keeps : ∀ reg : UInt8, reg.toNat < 7 → reg ∉ regs → m'.registers.get reg = scratch.get reg
  pc : m'.pc = q + 2 * regs.length
  cells : ∀ a, a ∉ below m.registers.sp regs.length → m'.memory.get a = m.memory.get a

/-- The machine goes on at address `q` with other registers. -/
def resumed (m : Machine) (scratch : Registers) (q : Nat) : Machine :=
  { m with registers := scratch, pc := q }

/-! ## The code -/

theorem encodeAll_pushes (reg : UInt8) (rest : List UInt8) :
    Instruction.encodeAll ((reg :: rest).map .push) =
      (Instruction.push reg).encode ++ Instruction.encodeAll (rest.map .push) :=
  Instruction.encodeAll_cons _ _

theorem encodeAll_pops (reg : UInt8) (rest : List UInt8) :
    Instruction.encodeAll ((reg :: rest).reverse.map .pop) =
      Instruction.encodeAll (rest.reverse.map .pop) ++ (Instruction.pop reg).encode := by
  rw [List.reverse_cons, List.map_append, Instruction.encodeAll_append]
  exact congrArg _ (List.append_nil _)

/-- The code is still there as long as only the cells below the stack pointer change. -/
theorem Arranged.holds (h : m.Arranged regs q)
    (hcells : ∀ a, a ∉ below m.registers.sp regs.length → m'.memory.get a = m.memory.get a) :
    m'.memory.Holds m.pc (Instruction.encodeAll (regs.map .push)) ∧
      m'.memory.Holds q (Instruction.encodeAll (regs.reverse.map .pop)) := by
  refine ⟨h.pushes.congr fun c hle hlt => hcells c fun hc => (h.apart c hc).1 ⟨hle, ?_⟩,
    h.pops.congr fun c hle hlt => hcells c fun hc => (h.apart c hc).2 ⟨hle, ?_⟩⟩
  · rwa [length_encodeAll_map fun _ => rfl] at hlt
  · rwa [length_encodeAll_map fun _ => rfl, List.length_reverse] at hlt

theorem Arranged.fetch_push (h : m.Arranged (reg :: rest) q) : m.fetch = .ok (.push reg) := by
  have hcode := h.pushes
  rw [encodeAll_pushes, Memory.holds_append] at hcode
  exact Instruction.decode_eq_ok_iff.2 hcode.1

/-- Code within memory is so short that the cells below the stack pointer are distinct. -/
theorem Arranged.length_lt (h : m.Arranged (reg :: rest) q) : rest.length < size := by
  have hend := h.pushes.add_length_le (List.cons_ne_nil _ _)
  rw [length_encodeAll_map fun _ => rfl, List.length_cons] at hend
  omega

/-! ## One register more -/

theorem get_lowered (hreg : reg ≠ 7) : m.lowered.get reg = m.registers.get reg := by
  rw [lowered, Registers.get_setSp, if_neg hreg]

theorem sp_lowered (m : Machine) : m.lowered.sp = m.registers.sp - 1 :=
  Registers.sp_setSp _ _

/-- What a push leaves. -/
theorem pushed_of_executes (hx : Executes m (.push reg) m₁) :
    m₁.pc = m.pc + 2 ∧ m₁.registers = m.lowered ∧ ∃ value, m.lowered.get reg = .ok value ∧
      m₁.memory = m.memory.set (m.registers.sp - 1) value := by
  cases hx with
  | push hget => exact ⟨rfl, rfl, _, hget, rfl⟩

theorem cells_of_push (hx : Executes m (.push reg) m₁) {a : UInt8}
    (ha : a ∉ below m.registers.sp (n + 1)) : m₁.memory.get a = m.memory.get a := by
  obtain ⟨-, -, value, -, hmemory⟩ := pushed_of_executes hx
  rw [below_succ] at ha
  rw [hmemory, Memory.get_set_of_ne _ _ (Ne.symm (List.ne_of_not_mem_cons ha))]

/-- **After the first push** the others are left. -/
theorem Arranged.push (h : m.Arranged (reg :: rest) q) (hx : Executes m (.push reg) m₁) :
    m₁.Arranged rest q := by
  obtain ⟨hpc, hregisters, -⟩ := pushed_of_executes hx
  obtain ⟨hpushes, hpops⟩ := h.holds fun a ha => cells_of_push hx ha
  rw [encodeAll_pushes, Memory.holds_append] at hpushes
  rw [encodeAll_pops, Memory.holds_append] at hpops
  have hapart := h.apart
  rw [List.length_cons, below_succ] at hapart
  refine ⟨by rw [hpc]; exact hpushes.2, hpops.1, fun a ha => ?_⟩
  rw [hregisters, sp_lowered] at ha
  have := hapart a (List.mem_cons_of_mem _ ha)
  omega

/-- The first push and what comes between it and the last pop. -/
theorem Restored.cells_of_push (h : m₁.Restored rest scratch q m₂)
    (hx : Executes m (.push reg) m₁) {a : UInt8}
    (ha : a ∉ below m.registers.sp (rest.length + 1)) : m₂.memory.get a = m.memory.get a := by
  obtain ⟨-, hregisters, -⟩ := pushed_of_executes hx
  have hrest := ha
  rw [below_succ, ← sp_lowered, ← hregisters] at hrest
  rw [h.cells a (List.not_mem_of_not_mem_cons hrest), Machine.cells_of_push hx ha]

theorem Arranged.fetch_pop (h : m.Arranged (reg :: rest) q) (hx : Executes m (.push reg) m₁)
    (hrestored : m₁.Restored rest scratch q m₂) : m₂.fetch = .ok (.pop reg) := by
  obtain ⟨-, hpops⟩ := h.holds fun a ha => hrestored.cells_of_push hx ha
  rw [encodeAll_pops, Memory.holds_append, length_encodeAll_map fun _ => rfl, List.length_reverse,
    ← hrestored.pc] at hpops
  exact Instruction.decode_eq_ok_iff.2 hpops.2

/-- **The last pop** gives back what the first push has stored. -/
theorem Restored.pop (h : m₁.Restored rest scratch q m₂) (hx : Executes m (.push reg) m₁)
    (hreg : reg.toNat < 8) (hlen : rest.length < size) :
    ∃ m₃, Executes m₂ (.pop reg) m₃ ∧ m.Restored (reg :: rest) scratch q m₃ := by
  obtain ⟨-, hregisters, value, hget, hmemory⟩ := pushed_of_executes hx
  have hsp₁ : m₁.registers.sp = m.registers.sp - 1 := by rw [hregisters, sp_lowered]
  have hsp₂ : m₂.registers.sp = m.registers.sp - 1 := h.sp.trans hsp₁
  have htop : m₂.top = value := by
    have huntouched : m.registers.sp - 1 ∉ below m₁.registers.sp rest.length := by
      rw [hsp₁]
      exact sp_notMem_below _ hlen
    rw [top, hsp₂, h.cells _ huntouched, hmemory, Memory.get_set_self]
  obtain ⟨registers, hset⟩ := m₂.registers.exists_set_of_lt value hreg
  -- the stack pointer is lowered, whether it was popped itself or not
  have hsp : registers.sp = m.registers.sp - 1 := by
    by_cases hseven : reg = 7
    · subst hseven
      rw [Registers.get_sp, sp_lowered] at hget
      rw [Registers.set_sp] at hset
      rw [← Except.ok.inj hset, Registers.sp_setSp, Except.ok.inj hget]
    · rw [Registers.sp_of_set hset hseven, hsp₂]
  have hraised : registers.sp + 1 = m.registers.sp := by rw [hsp, UInt8.sub_add_cancel]
  have hother : ∀ r : UInt8, r ≠ 7 → (registers.setSp (registers.sp + 1)).get r =
      if reg = r then .ok value else m₂.registers.get r := by
    intro r hr
    rw [Registers.get_setSp, if_neg hr, Registers.get_of_set hset]
  refine ⟨_, .pop (by rwa [htop]), fun r hr => ?_, ?_, fun r hlt hr => ?_, ?_, fun a ha => ?_⟩
  · by_cases hseven : r = 7
    · rw [hraised, hseven, Registers.get_sp, Registers.get_sp, Registers.sp_setSp]
    · rw [hother r hseven, ← get_lowered (m := m) hseven]
      by_cases heq : reg = r
      · rw [if_pos heq, ← heq, hget]
      · rw [if_neg heq, h.restores r ((List.mem_cons.1 hr).resolve_left (Ne.symm heq)), hregisters]
  · rw [hraised, Registers.sp_setSp]
  · have hseven : r ≠ 7 := by
      rintro rfl
      exact absurd hlt (by decide)
    rw [hother r hseven, if_neg (Ne.symm (List.ne_of_not_mem_cons hr)),
      h.keeps r hlt (List.not_mem_of_not_mem_cons hr)]
  · show m₂.pc + 2 = q + 2 * (rest.length + 1)
    rw [h.pc]
    omega
  · exact h.cells_of_push hx ha

/-! ## All registers -/

/-- **Registers that are pushed and popped in the opposite order are back.** Take registers
that exist, in any order and any of them several times, with the code that pushes them at
the program counter and the code that pops them at an address `q`, both apart from the
cells that are pushed to. All pushes succeed. Whatever the other registers hold then, all
pops from `q` on succeed too. They leave the registers of the list and the stack pointer as
they were before the pushes, all other registers as they found them, and nothing else in
memory changed than the cells that were pushed to. -/
theorem pops_restore_pushed (hregs : ∀ reg ∈ regs, reg.toNat < 8) (h : m.Arranged regs q) :
    m.Performs (regs.map .push) ∧
    ∀ scratch : Registers, scratch.sp = (m.after regs.length).registers.sp →
      ((m.after regs.length).resumed scratch q).Performs (regs.reverse.map .pop) ∧
      m.Restored regs scratch q (((m.after regs.length).resumed scratch q).after regs.length) := by
  induction regs generalizing m with
  | nil =>
    refine ⟨performs_nil, fun scratch hsp => ⟨performs_nil, ?_⟩⟩
    exact ⟨fun reg hreg => absurd hreg List.not_mem_nil, hsp, fun _ _ _ => rfl, rfl,
      fun _ _ => rfl⟩
  | cons reg rest ih =>
    obtain ⟨hreg, hrest⟩ := List.forall_mem_cons.1 hregs
    have hf := h.fetch_push
    obtain ⟨m₁, hx⟩ : ∃ m₁, Executes m (.push reg) m₁ := ⟨_, .push (Registers.get_of_lt hreg)⟩
    obtain ⟨hpushes, hpops⟩ := ih hrest (h.push hx)
    refine ⟨hpushes.cons hf hx, fun scratch hsp => ?_⟩
    rw [List.length_cons, after_succ_eq_after_step, step_of_executes hf hx] at hsp ⊢
    obtain ⟨hperforms, hrestored⟩ := hpops scratch hsp
    obtain ⟨m₃, hx₂, hall⟩ := hrestored.pop hx hreg h.length_lt
    have hf₂ := h.fetch_pop hx hrestored
    have hlength : (rest.reverse.map Instruction.pop).length = rest.length := by
      rw [List.length_map, List.length_reverse]
    rw [List.reverse_cons, List.map_append, after_succ, step_of_executes hf₂ hx₂]
    exact ⟨hperforms.concat hlength hf₂ hx₂, hall⟩

/-- A machine with its stack pointer at 1 that is about to push R3, R7 and R3 again. The code
is at address 2, the pops behind it. -/
def savesAcrossEnd : Machine :=
  { ((initial {} false).load ⟨[0, 0] ++ Instruction.encodeAll
      [.push 3, .push 7, .push 3, .pop 3, .pop 7, .pop 3]⟩).state with
    registers := ⟨#v[0, 0, 0, 9, 0, 0, 0, 1]⟩
    pc := 2 }

/-- R3 and the stack pointer are back, R0 is as the pops found it. -/
theorem pops_restore_pushed_acrossEnd :
    savesAcrossEnd.Arranged [3, 7, 3] 8 ∧
    let restored := ((savesAcrossEnd.after 3).resumed ⟨#v[5, 5, 5, 5, 5, 5, 5, 254]⟩ 8).after 3
    restored.registers.get 3 = .ok 9 ∧ restored.registers.sp = 1 ∧
      restored.registers.get 0 = .ok 5 ∧ restored.pc = 14 := by
  have harranged : savesAcrossEnd.Arranged [3, 7, 3] 8 :=
    ⟨Memory.slice_eq_iff_holds.1 (by decide +kernel),
      Memory.slice_eq_iff_holds.1 (by decide +kernel), by decide +kernel⟩
  have hregs : ∀ reg ∈ ([3, 7, 3] : List UInt8), reg.toNat < 8 := by simp
  obtain ⟨-, hpops⟩ := pops_restore_pushed hregs harranged
  obtain ⟨-, hrestored⟩ := hpops ⟨#v[5, 5, 5, 5, 5, 5, 5, 254]⟩ (by decide +kernel)
  refine ⟨harranged, (hrestored.restores 3 (by decide)).trans ?_, hrestored.sp.trans ?_,
    (hrestored.keeps 0 (by decide) (by decide)).trans ?_, hrestored.pc⟩
  all_goals rfl

end LS8.Machine
