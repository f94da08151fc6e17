import LS8.Proofs.Machine.Faults

/-!
# The instruction set

What one step does, read off a table. `Machine.row` has a row for each opcode and
mentions only what the opcode changes; how long the instruction is and whether it moves
the program counter itself is in the bits of the opcode byte (`Row.Leaves`).

- `Row.Leaves row b m m'`: `m'` is `m` with the changes of the row; its other cells and
  registers, its output and its status are those of `m`;
- `Machine.step_leaves_row`: every step that succeeds does what the row of its opcode
  says, whatever the memory, the registers and the program counter are.

The stack pointer is R7. An instruction that moves the stack and names R7 sees it moved
already if it pushes, and moves it afterwards if it pops.
-/

namespace LS8

/-- What an opcode does, given its operands. -/
structure Row where
  /-- The registers that are named, all of which have to exist. -/
  names : List UInt8 := []
  /-- The byte that goes into the cell below the stack pointer. -/
  stores : Option UInt8 := none
  /-- The register that is set and what it is set to. -/
  sets : Option (UInt8 × UInt8) := none
  /-- What the stack pointer is moved by after that, modulo 256. -/
  moves : UInt8 := 0
  /-- Where the program counter goes, if the opcode sets it. -/
  target : UInt8 := 0
  /-- The number that is printed. -/
  prints : Option UInt8 := none
  stops : Bool := false

namespace Machine

variable {m m' : Machine} {i : Instruction}

/-! ## The table -/

/-- The byte that stands `k` cells behind the program counter. -/
def byteBehind (m : Machine) (k : Nat) : UInt8 :=
  (m.memory.peek? (m.pc + k)).getD 0

/-- What a register holds. -/
def value (m : Machine) (reg : UInt8) : UInt8 :=
  (m.registers.get reg).toOption.getD 0

/-- What a register holds once the stack pointer has been lowered. -/
def pushed (m : Machine) (reg : UInt8) : UInt8 :=
  if reg = 7 then m.registers.sp - 1 else m.value reg

/-- **The instruction set**: the row of an opcode with the operands `x` and `y`. -/
def row (m : Machine) (x y : UInt8) : Opcode → Row
  | .hlt => { stops := true }
  | .ldi => { names := [x], sets := some (x, y) }
  | .prn => { names := [x], prints := some (m.value x) }
  | .add => { names := [x, y], sets := some (x, m.value x + m.value y) }
  | .mul => { names := [x, y], sets := some (x, m.value x * m.value y) }
  | .push => { names := [x], stores := some (m.pushed x), moves := -1 }
  | .pop => { names := [x], sets := some (x, m.top), moves := 1 }
  | .call =>
    { names := [x], stores := some (UInt8.ofNat (m.pc + 2)), moves := -1, target := m.pushed x }
  | .ret => { moves := 1, target := m.top }

end Machine

namespace Row

variable {row : Row} {b : UInt8} {m m' : Machine}

/-- What a cell holds afterwards. Only the cell below the stack pointer can change. -/
def cell (row : Row) (m : Machine) (a : UInt8) : UInt8 :=
  if a = m.registers.sp - 1 then row.stores.getD (m.memory.get a) else m.memory.get a

/-- What a register holds before the stack pointer is moved. -/
def result (row : Row) (m : Machine) (reg : UInt8) : UInt8 :=
  match row.sets with
  | some (destination, v) => if reg = destination then v else m.value reg
  | none => m.value reg

/-- What a register holds afterwards. -/
def register (row : Row) (m : Machine) (reg : UInt8) : UInt8 :=
  if reg = 7 then row.result m reg + row.moves else row.result m reg

/-- The bytes that are printed: the decimal digits of a number, in ASCII, and a line feed. -/
def printed (row : Row) : List UInt8 :=
  match row.prints with
  | some v => (Nat.toDigits 10 v.toNat).map (fun digit => UInt8.ofNat digit.toNat) ++ [10]
  | none => []

/-- `m'` is what a row leaves of `m`, if the opcode is the byte `b`. Bits 6 and 7 of the
byte count the operands to be stepped over, unless bit 4 is set. -/
structure Leaves (row : Row) (b : UInt8) (m m' : Machine) : Prop where
  names : ∀ reg ∈ row.names, reg.toNat < 8
  steps : m'.steps = m.steps + 1
  pc : m'.pc =
    if b &&& 0b00010000 = 0 then m.pc + 1 + (b >>> 6).toNat else row.target.toNat
  cells : ∀ a, m'.memory.get a = row.cell m a
  registers : ∀ reg : UInt8, reg.toNat < 8 → m'.registers.get reg = .ok (row.register m reg)
  written : m'.device.written.toList = m.device.written.toList ++ row.printed
  status : m'.status = if row.stops then .stopped else m.status

end Row

namespace Machine

variable {m m' : Machine} {i : Instruction}

/-- The row of an instruction. -/
def rowOf (m : Machine) (i : Instruction) : Row :=
  m.row (i.operands.getD 0 0) (i.operands.getD 1 0) i.opcode

theorem value_of_get {reg v : UInt8} (h : m.registers.get reg = .ok v) : m.value reg = v := by
  rw [value, h]
  rfl

theorem get_eq_value {reg : UInt8} (h : reg.toNat < Registers.count) :
    m.registers.get reg = .ok (m.value reg) := by
  rw [value, Registers.get_of_lt h]
  rfl

theorem pushed_eq {reg v : UInt8} (h : m.lowered.get reg = .ok v) : m.pushed reg = v :=
  pushed_of_get_lowered h

/-- An instruction that succeeds names only registers that exist. -/
theorem names_of_executes (hx : Executes m i m') :
    ∀ reg ∈ (m.rowOf i).names, reg.toNat < Registers.count := by
  have hnames : (m.rowOf i).names = i.registerOperands := by
    cases i with
    | alu op a b => cases op <;> rfl
    | _ => rfl
  intro reg hreg
  rw [hnames] at hreg
  have hvalid := List.find?_eq_none.1 (invalidRegister?_of_executes hx) reg hreg
  exact Nat.lt_of_not_le fun hle => hvalid (decide_eq_true hle)

/-- Every instruction that does not set the program counter moves it by its length. -/
theorem pc_of_executes (hx : Executes m i m') :
    m'.pc = if i.opcode.setsPc then (m.rowOf i).target.toNat else m.pc + i.opcode.length := by
  cases hx with
  | @alu op a b registers happly =>
    rw [Instruction.opcode, Alu.length_opcode]
    cases op <;> rfl
  | call hfit hget =>
    rw [Instruction.opcode, if_pos (by decide)]
    exact congrArg UInt8.toNat (pushed_eq hget).symm
  | ret => rfl
  | _ =>
    rw [Instruction.opcode, Opcode.length_eq]
    rfl

theorem cells_of_executes (hx : Executes m i m') (a : UInt8) :
    m'.memory.get a = (m.rowOf i).cell m a := by
  -- a row that stores something stores it where the instruction does
  have hstore : ∀ (row : Row) (v : UInt8), row.stores = some v →
      (m.memory.set (m.registers.sp - 1) v).get a = row.cell m a := by
    intro row v hrow
    rw [Memory.get_set, Row.cell, hrow, Option.getD_some]
    exact if_congr eq_comm rfl rfl
  have hkeep : ∀ row : Row, row.stores = none → m.memory.get a = row.cell m a := by
    intro row hrow
    rw [Row.cell, hrow, Option.getD_none, ite_self]
  cases hx with
  | push hget => exact hstore _ _ (congrArg some (pushed_eq hget))
  | call hfit hget => exact hstore _ _ rfl
  | @alu op a b registers happly => cases op <;> exact hkeep _ rfl
  | _ => exact hkeep _ rfl

theorem result_of_none {row : Row} {reg : UInt8} (hrow : row.sets = none)
    (hreg : reg.toNat < Registers.count) : m.registers.get reg = .ok (row.result m reg) := by
  simp only [Row.result, hrow]
  exact get_eq_value hreg

theorem result_of_set {row : Row} {destination v reg : UInt8} {r : Registers}
    (hrow : row.sets = some (destination, v)) (hset : m.registers.set destination v = .ok r)
    (hreg : reg.toNat < Registers.count) : r.get reg = .ok (row.result m reg) := by
  rw [Registers.get_of_set hset]
  simp only [Row.result, hrow]
  by_cases h : reg = destination
  · rw [if_pos h.symm, if_pos h]
  · rw [if_neg (Ne.symm h), if_neg h, get_eq_value hreg]

/-- Registers of which a row has set one, and in which it then moves the stack pointer. -/
theorem register_of_moved {row : Row} {r : Registers} {reg k : UInt8}
    (hr : ∀ reg : UInt8, reg.toNat < Registers.count → r.get reg = .ok (row.result m reg))
    (hrow : row.moves = k) (hreg : reg.toNat < Registers.count) :
    (r.setSp (r.sp + k)).get reg = .ok (row.register m reg) := by
  rw [Registers.get_setSp, Row.register, hrow]
  by_cases h : reg = 7
  · subst h
    have hsp : r.sp = row.result m 7 := Except.ok.inj ((Registers.get_sp r).symm.trans (hr 7 hreg))
    rw [if_pos rfl, if_pos rfl, hsp]
  · rw [if_neg h, if_neg h, hr reg hreg]

/-- Registers in which a row leaves the stack pointer where it is. -/
theorem register_of_unmoved {row : Row} {r : Registers} {reg : UInt8}
    (hr : r.get reg = .ok (row.result m reg)) (hrow : row.moves = 0) :
    r.get reg = .ok (row.register m reg) := by
  rw [Row.register, hrow, UInt8.add_zero, ite_self, hr]

theorem registers_of_executes (hx : Executes m i m') {reg : UInt8}
    (hreg : reg.toNat < Registers.count) :
    m'.registers.get reg = .ok ((m.rowOf i).register m reg) := by
  have hlower : m.lowered = m.registers.setSp (m.registers.sp + (-1)) := by
    rw [lowered, UInt8.sub_eq_add_neg]
  cases hx with
  | hlt =>
    show m.registers.get reg = _
    exact register_of_unmoved (result_of_none rfl hreg) rfl
  | prn hget hprint =>
    show m.registers.get reg = _
    exact register_of_unmoved (result_of_none rfl hreg) rfl
  | ldi hset => exact register_of_unmoved (result_of_set rfl hset hreg) rfl
  | @alu op a b registers happly =>
    -- both operands are read before the first is set, so they may be the same
    obtain ⟨x, y, ha, hb, hset⟩ := Alu.apply_eq_ok_iff.1 happly
    rw [← value_of_get ha, ← value_of_get hb] at hset
    cases op with
    | add => exact register_of_unmoved (result_of_set rfl hset hreg) rfl
    | mul => exact register_of_unmoved (result_of_set rfl hset hreg) rfl
  | push hget =>
    show m.lowered.get reg = _
    rw [hlower]
    exact register_of_moved (fun _ => result_of_none rfl) rfl hreg
  | call hfit hget =>
    show m.lowered.get reg = _
    rw [hlower]
    exact register_of_moved (fun _ => result_of_none rfl) rfl hreg
  | pop hset => exact register_of_moved (fun _ => result_of_set rfl hset) rfl hreg
  | ret =>
    show (m.registers.setSp (m.registers.sp + 1)).get reg = _
    exact register_of_moved (fun _ => result_of_none rfl) rfl hreg

theorem written_of_executes (hx : Executes m i m') :
    m'.device.written.toList = m.device.written.toList ++ (m.rowOf i).printed := by
  cases hx with
  | @prn reg v device hget hprint =>
    obtain ⟨-, -, rfl⟩ := Device.print_eq_ok_iff.1 hprint
    have hprinted : (m.rowOf (.prn reg)).printed = printedLine v := by
      rw [← value_of_get hget, printedLine, List.map_append]
      rfl
    rw [hprinted]
    exact Array.toList_appendList
  | @alu op a b registers happly => cases op <;> exact (List.append_nil _).symm
  | _ => exact (List.append_nil _).symm

theorem halted_of_executes (hx : Executes m i m') :
    m'.status = if (m.rowOf i).stops then .stopped else m.status := by
  cases hx with
  | @alu op a b registers happly => cases op <;> rfl
  | _ => rfl

theorem byteBehind_eq {k : Nat} {v : UInt8} (h : m.memory.peek? (m.pc + k) = some v) :
    m.byteBehind k = v := by
  rw [byteBehind, h, Option.getD_some]

/-- Of the bytes behind the opcode a row takes only those that are operands. -/
theorem row_of_fetch (hf : m.fetch = .ok i) :
    m.row (m.byteBehind 1) (m.byteBehind 2) i.opcode = m.rowOf i := by
  have hoperands := (Instruction.holds_encode_iff.1 (Instruction.decode_eq_ok_iff.1 hf)).2
  cases i with
  | hlt | ret => rfl
  | ldi x y | alu op x y =>
    obtain ⟨hx, hrest⟩ := Memory.holds_cons.1 hoperands
    obtain ⟨hy, -⟩ := Memory.holds_cons.1 hrest
    rw [byteBehind_eq hx, byteBehind_eq hy]
    rfl
  | prn x | push x | pop x | call x =>
    obtain ⟨hx, -⟩ := Memory.holds_cons.1 hoperands
    rw [byteBehind_eq hx]
    rfl

/-- The bits of the opcode byte say how the program counter goes on. -/
theorem next_eq (m : Machine) (o : Opcode) (target : Nat) :
    (if o.byte &&& 0b00010000 = 0 then m.pc + 1 + (o.byte >>> 6).toNat else target) =
      if o.setsPc then target else m.pc + o.length := by
  rw [Opcode.length, Opcode.operandCount, Nat.add_assoc, Nat.add_comm 1]
  by_cases h : o.byte &&& 0b00010000 = 0
  · rw [if_pos h, if_neg (by rw [Opcode.setsPc, h]; decide)]
  · rw [if_neg h, if_pos (by rw [Opcode.setsPc]; exact bne_iff_ne.2 h)]

theorem leaves_of_executes (hf : m.fetch = .ok i) (hx : Executes m i m') :
    (m.row (m.byteBehind 1) (m.byteBehind 2) i.opcode).Leaves i.opcode.byte m m' := by
  rw [row_of_fetch hf]
  exact {
    names := names_of_executes hx
    steps := steps_of_executes hx
    pc := (pc_of_executes hx).trans (next_eq m _ _).symm
    cells := cells_of_executes hx
    registers := fun _ => registers_of_executes hx
    written := written_of_executes hx
    status := halted_of_executes hx }

/-- A call that succeeds has a return address that fits into a byte. -/
theorem returnAddress_lt_of_executes (hx : Executes m i m') (ho : i.opcode = .call) :
    m.pc + 2 < Memory.size := by
  cases hx with
  | call hfit hget => exact hfit
  | @alu op a b registers happly => exact absurd ho (op.opcode_ne rfl)
  | _ => cases ho

/-- **A step does what its row says.** A step that succeeds finds an opcode at the program
counter. It is counted, it changes what the row of the opcode mentions, with the bytes
behind it as operands, and it changes nothing else. A call stores the address behind
itself, which is a byte. Where the operand is R7, a push stores the stack pointer that it
leaves, a pop leaves the popped byte plus one, and a call goes to the stack pointer that
it leaves. -/
theorem step_leaves_row (h : m.step = ⟨m', none⟩) :
    ∃ o : Opcode, m.memory.peek? m.pc = some o.byte ∧
      (m.row (m.byteBehind 1) (m.byteBehind 2) o).Leaves o.byte m m' ∧
      (o = .call → (m'.memory.get (m.registers.sp - 1)).toNat = m.pc + 2) ∧
      (m.byteBehind 1 = 7 →
        (o = .push → m'.memory.get (m.registers.sp - 1) = m.registers.sp - 1) ∧
        (o = .pop → m'.registers.get 7 = .ok (m.top + 1)) ∧
        (o = .call → m'.pc = (m.registers.sp - 1).toNat)) := by
  obtain ⟨i, hf, hx⟩ := step_eq_ok_iff.1 h
  have hleaves := leaves_of_executes hf hx
  refine ⟨i.opcode, peek?_of_fetch hf, hleaves, fun ho => ?_,
    fun hseven => ⟨fun ho => ?_, fun ho => ?_, fun ho => ?_⟩⟩
  · have hfit := returnAddress_lt_of_executes hx ho
    rw [hleaves.cells, ho, Row.cell, if_pos rfl]
    exact UInt8.toNat_ofNat_of_lt hfit
  · rw [hleaves.cells, ho, hseven, Row.cell, if_pos rfl]
    rfl
  · rw [hleaves.registers 7 (by decide), ho, hseven]
    rfl
  · rw [hleaves.pc, ho, hseven, if_neg (by decide)]
    rfl

/-- A machine that is about to execute `CALL R7` at address 0, with its stack pointer at
1: the return address goes over the opcode, and the call goes there. -/
def callsItself : Machine :=
  { ((initial {} false).load ⟨[0x50, 0x07]⟩).state with registers := Registers.initial.setSp 1 }

/-- A machine that has executed `LDI R0,205` and is about to execute `PRN R0`. -/
def aboutToPrint : Machine :=
  ((initial {} false).load ⟨[0x82, 0x00, 205, 0x47, 0x00]⟩).state.step.state

theorem step_leaves_row_callsItself :
    (callsItself.step = ⟨callsItself.step.state, none⟩ ∧
      (callsItself.step.state.memory.get 0).toNat = 2 ∧ callsItself.step.state.pc = 0 ∧
      callsItself.step.state.registers.get 7 = .ok 0) ∧
    aboutToPrint.step = ⟨aboutToPrint.step.state, none⟩ ∧
      aboutToPrint.step.state.device.written.toList = "205\n".toList.map (UInt8.ofNat ·.toNat) ∧
      aboutToPrint.step.state.pc = 5 := by
  constructor
  · have hfault : callsItself.step.fault = none := by decide +kernel
    have hstep := step_eq_of_fault_eq_none hfault
    obtain ⟨o, hbyte, hleaves, hstored, hseven⟩ := step_leaves_row hstep
    have ho : o = .call := by
      refine Opcode.byte_injective (Option.some.inj (hbyte.symm.trans ?_))
      decide +kernel
    refine ⟨hstep, hstored ho, (hseven (by decide +kernel)).2.2 ho, ?_⟩
    rw [hleaves.registers 7 (by decide), ho]
    decide +kernel
  · have hfault : aboutToPrint.step.fault = none := by decide +kernel
    have hstep := step_eq_of_fault_eq_none hfault
    obtain ⟨o, hbyte, hleaves, -⟩ := step_leaves_row hstep
    have ho : o = .prn := by
      refine Opcode.byte_injective (Option.some.inj (hbyte.symm.trans ?_))
      decide +kernel
    refine ⟨hstep, ?_, ?_⟩
    · rw [hleaves.written, ho]
      decide +kernel
    · rw [hleaves.pc, ho]
      decide +kernel

end Machine

end LS8
