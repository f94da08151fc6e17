import Mathlib.Logic.Function.Basic
import LS8.Proofs.Instruction.Encoding
import LS8.Proofs.Machine.Horizon
import LS8.Proofs.Machine.Transcript

/-!
# Straight-line programs

A program that only loads, prints, adds and multiplies computes with natural numbers
without a bound, and its bytes are these numbers modulo 256.

- `Numbers`, `Instruction.evaluate` and `Instruction.prints`: the computation without a
  bound;
- `Registers.Represents`: registers that hold numbers modulo 256, which every straight
  instruction preserves (`Machine.executes_straight`);
- `Machine.follows_straight`: so does a list of them, wherever it stands in memory;
- `Machine.run?_straightLine`: a whole program, from power-on to its `HLT`.
-/

namespace LS8

open Memory (size)

/-- What registers would hold without a bound. -/
abbrev Numbers : Type := UInt8 → Nat

/-- The numbers at power-on. -/
def Numbers.initial : Numbers := fun reg => if reg = 7 then 244 else 0

namespace Alu

/-- What an operation does without a bound. -/
def total : Alu → Nat → Nat → Nat
  | add, x, y => x + y
  | mul, x, y => x * y

/-- Both operations may be done modulo 256 from the beginning. -/
theorem compute_ofNat (op : Alu) (x y : Nat) :
    op.compute (UInt8.ofNat x) (UInt8.ofNat y) = UInt8.ofNat (op.total x y) := by
  cases op with
  | add => exact (UInt8.ofNat_add x y).symm
  | mul => exact (UInt8.ofNat_mul x y).symm

end Alu

namespace Instruction

/-- Loads, prints, adds or multiplies registers that exist. -/
def Straight : Instruction → Prop
  | .ldi reg _ | .prn reg => reg.toNat < Registers.count
  | .alu _ a b => a.toNat < Registers.count ∧ b.toNat < Registers.count
  | .hlt | .push _ | .pop _ | .call _ | .ret => False

instance (i : Instruction) : Decidable i.Straight := by
  cases i <;> unfold Straight <;> infer_instance

theorem Straight.ne_hlt {i : Instruction} (h : i.Straight) : i ≠ .hlt := by
  rintro rfl
  exact h

/-- What an instruction makes of numbers. -/
def evaluate (i : Instruction) (v : Numbers) : Numbers :=
  match i with
  | .ldi reg value => Function.update v reg value.toNat
  | .alu op a b => Function.update v a (op.total (v a) (v b))
  | _ => v

/-- The numbers that an instruction prints. -/
def prints (i : Instruction) (v : Numbers) : List Nat :=
  match i with
  | .prn reg => [v reg]
  | _ => []

/-- What a list of instructions makes of numbers. -/
def evaluateAll : List Instruction → Numbers → Numbers
  | [], v => v
  | i :: rest, v => evaluateAll rest (i.evaluate v)

/-- The numbers that a list of instructions prints. -/
def printsAll : List Instruction → Numbers → List Nat
  | [], _ => []
  | i :: rest, v => i.prints v ++ printsAll rest (i.evaluate v)

end Instruction

/-- Each register holds its number modulo 256. -/
def Registers.Represents (r : Registers) (v : Numbers) : Prop :=
  ∀ reg : UInt8, reg.toNat < count → r.get reg = .ok (UInt8.ofNat (v reg))

namespace Registers

variable {r r' : Registers} {v : Numbers} {reg : UInt8}

theorem represents_initial : Registers.initial.Represents Numbers.initial := by
  intro reg hreg
  have hzero : Registers.initial = (⟨Vector.replicate count 0⟩ : Registers).setSp 244 := by
    decide
  rw [hzero, get_setSp]
  by_cases h : reg = 7
  · rw [if_pos h, Numbers.initial, if_pos h]
    rfl
  · rw [if_neg h, Numbers.initial, if_neg h, get_of_lt hreg]
    simp

/-- A register set to a number modulo 256 represents the number. -/
theorem Represents.set {n : Nat} (h : r.Represents v)
    (hset : r.set reg (UInt8.ofNat n) = .ok r') :
    r'.Represents (Function.update v reg n) := by
  intro other hother
  rw [get_of_set hset, Function.update_apply]
  by_cases heq : reg = other
  · rw [if_pos heq, if_pos heq.symm]
  · rw [if_neg heq, if_neg (Ne.symm heq)]
    exact h other hother

end Registers

namespace Machine

variable {m m' m₁ m₂ : Machine} {i : Instruction} {v w : Numbers} {a b : Nat}
  {xs ys : List Nat}

/-- `m'` is `m` moved on by `a` bytes, with registers for the numbers `v` and with `xs`
printed. -/
structure Follows (m : Machine) (v : Numbers) (a : Nat) (xs : List Nat) (m' : Machine) :
    Prop where
  registers : m'.registers.Represents v
  pc : m'.pc = m.pc + a
  memory : m'.memory = m.memory
  unlimited : m'.device.Unlimited
  written : m'.device.written.toList =
    m.device.written.toList ++ xs.flatMap fun n => printedLine (UInt8.ofNat n)

theorem Follows.trans (h : Follows m v a xs m₁) (h₁ : Follows m₁ w b ys m₂) :
    Follows m w (a + b) (xs ++ ys) m₂ where
  registers := h₁.registers
  pc := by rw [h₁.pc, h.pc, Nat.add_assoc]
  memory := h₁.memory.trans h.memory
  unlimited := h₁.unlimited
  written := by rw [h₁.written, h.written, List.flatMap_append, List.append_assoc]

/-- **A straight instruction computes modulo 256.** -/
theorem executes_straight (hi : i.Straight) (hr : m.registers.Represents v)
    (hd : m.device.Unlimited) :
    ∃ m', Executes m i m' ∧ Follows m (i.evaluate v) i.encode.length (i.prints v) m' := by
  cases i with
  | ldi reg value =>
    obtain ⟨registers, hset⟩ := m.registers.exists_set_of_lt value hi
    have hnumber : m.registers.set reg (UInt8.ofNat value.toNat) = .ok registers := by
      rw [UInt8.ofNat_toNat]
      exact hset
    exact ⟨_, .ldi hset, hr.set hnumber, rfl, rfl, hd, (List.append_nil _).symm⟩
  | prn reg =>
    refine ⟨_, .prn (hr reg hi) (Device.print_of_unlimited hd _), hr, rfl, rfl, hd, ?_⟩
    simp [Instruction.prints]
  | alu op a b =>
    have ha := hr a hi.1
    have hb := hr b hi.2
    obtain ⟨registers, hset⟩ :=
      m.registers.exists_set_of_lt (UInt8.ofNat (op.total (v a) (v b))) hi.1
    -- both registers are read before the first is set, so they may be the same
    have happly : op.apply m.registers a b = .ok registers := by
      refine Alu.apply_eq_ok_iff.2 ⟨_, _, ha, hb, ?_⟩
      rw [Alu.compute_ofNat]
      exact hset
    exact ⟨_, .alu happly, hr.set hset, rfl, rfl, hd, (List.append_nil _).symm⟩
  | hlt | push reg | pop reg | call reg | ret => exact hi.elim

/-- **Straight instructions compute modulo 256**, wherever they stand in memory. -/
theorem follows_straight {program : List Instruction} (hstraight : ∀ i ∈ program, i.Straight)
    (hr : m.registers.Represents v) (hd : m.device.Unlimited)
    (hcode : m.memory.Holds m.pc (Instruction.encodeAll program)) :
    m.Proceeds program.length ∧
      Follows m (Instruction.evaluateAll program v) (Instruction.encodeAll program).length
        (Instruction.printsAll program v) (m.after program.length) := by
  induction program generalizing m v with
  | nil => exact ⟨proceeds_zero, hr, rfl, rfl, hd, (List.append_nil _).symm⟩
  | cons i rest ih =>
    obtain ⟨hi, hrest⟩ := List.forall_mem_cons.1 hstraight
    rw [Instruction.encodeAll_cons, Memory.holds_append] at hcode
    -- the rest stands behind the first instruction, and that is where it leaves the machine
    have hf : m.fetch = .ok i := Instruction.decode_eq_ok_iff.2 hcode.1
    obtain ⟨m₁, hx, hfirst⟩ := executes_straight hi hr hd
    have hgoes : m.GoesOn := goesOn_of_executes hf hi.ne_hlt hx
    have hstep : m.step.state = m₁ := by rw [step_of_executes hf hx]
    have hcode₁ : m₁.memory.Holds m₁.pc (Instruction.encodeAll rest) := by
      rw [hfirst.memory, hfirst.pc]
      exact hcode.2
    obtain ⟨hproceeds, hfollows⟩ := ih hrest hfirst.registers hfirst.unlimited hcode₁
    refine ⟨.of_step hgoes (hstep ▸ hproceeds), ?_⟩
    rw [List.length_cons, after_succ_eq_after_step, hstep, Instruction.encodeAll_cons,
      List.length_append]
    exact hfirst.trans hfollows

/-! ## Whole programs -/

/-- Straight instructions with `HLT` behind them run to the `HLT`. -/
theorem haltsAt_straight {program : List Instruction} (hstraight : ∀ i ∈ program, i.Straight)
    (hr : m.registers.Represents v) (hd : m.device.Unlimited)
    (hcode : m.memory.Holds m.pc (Instruction.encodeAll (program ++ [.hlt]))) :
    m.HaltsAt (program.length + 1) ∧
      Follows m (Instruction.evaluateAll program v)
        (Instruction.encodeAll (program ++ [.hlt])).length (Instruction.printsAll program v)
        (m.after (program.length + 1)) := by
  have hsplit : Instruction.encodeAll (program ++ [.hlt]) =
      Instruction.encodeAll program ++ Instruction.hlt.encode :=
    Instruction.encodeAll_append program [.hlt]
  rw [hsplit, Memory.holds_append] at hcode
  obtain ⟨hproceeds, hfollows⟩ := follows_straight hstraight hr hd hcode.1
  have hhlt : (m.after program.length).fetch = .ok .hlt := by
    refine Instruction.decode_eq_ok_iff.2 ?_
    rw [hfollows.memory, hfollows.pc]
    exact hcode.2
  refine ⟨⟨_, rfl, hproceeds, hhlt⟩, ?_⟩
  -- `HLT` moves on by its own byte and does nothing else to what is followed
  have hlast : Follows (m.after program.length) (Instruction.evaluateAll program v)
      Instruction.hlt.encode.length [] (m.after (program.length + 1)) := by
    rw [after_succ, step_of_executes hhlt .hlt]
    exact ⟨hfollows.registers, rfl, rfl, hfollows.unlimited, (List.append_nil _).symm⟩
  have hall := hfollows.trans hlast
  rw [List.append_nil] at hall
  rw [hsplit, List.length_append]
  exact hall

/-- **A straight-line program computes modulo 256.** Its bytes, with those of `HLT`
behind them, are loaded without a fault and run to the `HLT`. What is printed and what
the registers hold in the end are the results without a bound, modulo 256. Every
instruction is counted, and memory is what was loaded. -/
theorem run?_straightLine {program : List Instruction} (hstraight : ∀ i ∈ program, i.Straight)
    (hfit : (Instruction.encodeAll (program ++ [.hlt])).length ≤ 256) (profiling : Bool) :
    let code := Instruction.encodeAll (program ++ [.hlt])
    ((initial {} profiling).load ⟨code⟩).fault = none ∧
    ∃ final, (loaded {} profiling ⟨code⟩).run? = some ⟨final, none⟩ ∧
      final.device.contents = printedText (Instruction.printsAll program Numbers.initial) ∧
      (∀ reg : UInt8, reg.toNat < 8 → final.registers.get reg =
        .ok (UInt8.ofNat (Instruction.evaluateAll program Numbers.initial reg % 256))) ∧
      final.steps = program.length + 1 ∧
      final.pc = code.length ∧
      final.status = .stopped ∧
      ∀ address, address < 256 → final.memory.peek? address = some (code.getD address 0) := by
  intro code
  have hload : ((initial {} profiling).load ⟨code⟩).fault = none :=
    Memory.fault_load_eq_none_iff.2 hfit
  have hcode : (loaded {} profiling ⟨code⟩).start.memory.Holds 0 code := Memory.holds_load hfit
  obtain ⟨hhalts, hfollows⟩ :=
    haltsAt_straight hstraight Registers.represents_initial ⟨rfl, rfl⟩ hcode
  obtain ⟨j, hj, hproceeds, hx, -⟩ := hhalts.executes
  obtain rfl := Nat.succ.inj hj
  refine ⟨hload, _, run?_of_haltsAt hhalts, ?_, fun reg hreg => ?_, ?_, ?_, ?_, ?_⟩
  · rw [Device.contents, hfollows.written]
    exact decodeLossy_printedLines _
  · rw [hfollows.registers reg hreg]
    exact congrArg Except.ok UInt8.ofNat_mod_size.symm
  · rw [steps_of_executes hx, hproceeds.steps]
    exact congrArg (· + 1) (Nat.zero_add _)
  · rw [hfollows.pc]
    exact Nat.zero_add _
  · exact status_of_executes_hlt hx
  · intro address haddress
    rw [hfollows.memory]
    exact Memory.peek?_load_zero haddress

/-- `LDI R0,200`, `LDI R1,100`, `ADD R0,R1`, `MUL R0,R0`, `PRN R0`: prints the square
of 300. -/
def squareOfSum : List Instruction :=
  [.ldi 0 200, .ldi 1 100, .alu .add 0 1, .alu .mul 0 0, .prn 0]

theorem run?_straightLine_squareOfSum :
    Instruction.printsAll squareOfSum Numbers.initial = [90000] ∧
    ∃ final, (loaded {} false ⟨Instruction.encodeAll (squareOfSum ++ [.hlt])⟩).run? =
        some ⟨final, none⟩ ∧
      final.device.contents = "144\n" ∧ final.registers.get 0 = .ok 144 ∧ final.pc = 15 := by
  have hstraight : ∀ i ∈ squareOfSum, i.Straight := by decide
  obtain ⟨-, final, hrun, hcontents, hregisters, -, hpc, -⟩ :=
    run?_straightLine hstraight (by decide) false
  refine ⟨by decide, final, hrun, ?_, ?_, hpc⟩
  · rw [hcontents]
    decide +kernel
  · rw [hregisters 0 (by decide)]
    decide +kernel

end Machine

end LS8
