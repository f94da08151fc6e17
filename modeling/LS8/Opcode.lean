/-!
# Opcodes

The nine operations of the machine. The byte of an opcode describes the
instruction that it begins:

- bits 6 and 7 hold the number of operand bytes (`Opcode.operandCount`);
- bit 5 marks the operations of the arithmetic unit (`Opcode.isAlu`);
- bit 4 marks those that set the program counter themselves (`Opcode.setsPc`);
- the bits below tell apart the operations that agree in all of this.

Main statement: `Opcode.ofByte?_eq_some_iff`, an opcode is found by its byte and
by no other.
-/

namespace LS8

/-- The operations of the machine. -/
inductive Opcode where
  /-- Halt. -/
  | hlt
  /-- Load an immediate value into a register. -/
  | ldi
  /-- Print a register in decimal. -/
  | prn
  /-- Add one register to another. -/
  | add
  /-- Multiply one register by another. -/
  | mul
  /-- Push a register onto the stack. -/
  | push
  /-- Pop the top of the stack into a register. -/
  | pop
  /-- Call the subroutine whose address a register holds. -/
  | call
  /-- Return from a subroutine. -/
  | ret
deriving DecidableEq, Repr, Inhabited

namespace Opcode

/-- Every opcode, in the order of the table. -/
def all : List Opcode := [hlt, ldi, prn, add, mul, push, pop, call, ret]

/-- The byte that stands for an opcode in memory. -/
def byte : Opcode → UInt8
  | hlt => 0b00000001
  | ldi => 0b10000010
  | prn => 0b01000111
  | add => 0b10100000
  | mul => 0b10100010
  | push => 0b01000101
  | pop => 0b01000110
  | call => 0b01010000
  | ret => 0b00010001

/-- The opcode that a byte stands for, if any. -/
def ofByte? (b : UInt8) : Option Opcode :=
  all.find? (·.byte == b)

/-- The name of an opcode in a listing. -/
def mnemonic : Opcode → String
  | hlt => "HLT"
  | ldi => "LDI"
  | prn => "PRN"
  | add => "ADD"
  | mul => "MUL"
  | push => "PUSH"
  | pop => "POP"
  | call => "CALL"
  | ret => "RET"

theorem ofByte?_eq_some_iff {b : UInt8} {o : Opcode} : ofByte? b = some o ↔ o.byte = b := by
  constructor
  · intro h
    have hb := List.find?_some (show all.find? (fun x => x.byte == b) = some o from h)
    exact eq_of_beq hb
  · rintro rfl
    cases o <;> rfl

@[simp] theorem ofByte?_byte (o : Opcode) : ofByte? o.byte = some o :=
  ofByte?_eq_some_iff.2 rfl

theorem byte_injective {o o' : Opcode} (h : o.byte = o'.byte) : o = o' :=
  Option.some.inj ((ofByte?_byte o).symm.trans (h ▸ ofByte?_byte o'))

/-- An opcode is found by its name as well. -/
theorem find?_mnemonic (o : Opcode) : all.find? (·.mnemonic == o.mnemonic) = some o := by
  cases o <;> rfl

theorem mnemonic_injective {o o' : Opcode} (h : o.mnemonic = o'.mnemonic) : o = o' :=
  Option.some.inj ((find?_mnemonic o).symm.trans (h ▸ find?_mnemonic o'))

/-! ## The description in the byte -/

/-- The number of operand bytes, from bits 6 and 7. -/
def operandCount (o : Opcode) : Nat := (o.byte >>> 6).toNat

/-- Whether the operation belongs to the arithmetic unit: bit 5. -/
def isAlu (o : Opcode) : Bool := o.byte &&& 0b00100000 != 0

/-- Whether the operation sets the program counter itself: bit 4. -/
def setsPc (o : Opcode) : Bool := o.byte &&& 0b00010000 != 0

/-- The length of an instruction, the opcode byte included. -/
def length (o : Opcode) : Nat := o.operandCount + 1

/-- The number of operands, read off the bytes. -/
theorem operandCount_eq (o : Opcode) : o.operandCount = match o with
    | hlt | ret => 0
    | prn | push | pop | call => 1
    | ldi | add | mul => 2 := by
  cases o <;> decide

theorem operandCount_le_two (o : Opcode) : o.operandCount ≤ 2 := by
  cases o <;> decide

/-- Only calling and returning set the program counter. -/
theorem setsPc_iff (o : Opcode) : o.setsPc = true ↔ o = call ∨ o = ret := by
  cases o <;> decide

end Opcode

end LS8
