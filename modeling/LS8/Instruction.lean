import LS8.Alu
import LS8.Memory

/-!
# Instructions

An opcode together with the operands that it declares. `Instruction.encode`
gives the bytes of an instruction, `Instruction.decode` reads one from memory,
and `Instruction.text` is its line in a listing.

Decoding reads the opcode byte first and then exactly the operand bytes that the
opcode declares, in order; it never looks further ahead.
-/

namespace LS8

/-- An instruction. Register operands are bytes and are checked only when the
instruction is executed. -/
inductive Instruction where
  | hlt
  | ldi (reg value : UInt8)
  | prn (reg : UInt8)
  | alu (op : Alu) (a b : UInt8)
  | push (reg : UInt8)
  | pop (reg : UInt8)
  | call (reg : UInt8)
  | ret
deriving DecidableEq, Repr, Inhabited

namespace Instruction

/-- The instruction with the given opcode and operands. Operands that the opcode
does not declare are ignored. -/
def ofParts (o : Opcode) (a b : UInt8) : Instruction :=
  match o with
  | .hlt => hlt
  | .ldi => ldi a b
  | .prn => prn a
  | .add => alu .add a b
  | .mul => alu .mul a b
  | .push => push a
  | .pop => pop a
  | .call => call a
  | .ret => ret

/-- The opcode of an instruction. -/
def opcode : Instruction → Opcode
  | hlt => .hlt
  | ldi _ _ => .ldi
  | prn _ => .prn
  | alu op _ _ => op.opcode
  | push _ => .push
  | pop _ => .pop
  | call _ => .call
  | ret => .ret

/-- The operand bytes of an instruction, in order. -/
def operands : Instruction → List UInt8
  | hlt | ret => []
  | prn reg | push reg | pop reg | call reg => [reg]
  | ldi reg value => [reg, value]
  | alu _ a b => [a, b]

/-- The bytes of an instruction, the opcode first. -/
def encode (i : Instruction) : List UInt8 :=
  i.opcode.byte :: i.operands

theorem length_operands (i : Instruction) : i.operands.length = i.opcode.operandCount := by
  cases i with
  | alu op a b => cases op <;> simp [opcode, Alu.opcode, operands, Opcode.operandCount_eq]
  | _ => simp [opcode, operands, Opcode.operandCount_eq]

theorem length_encode (i : Instruction) : i.encode.length = i.opcode.length := by
  simp [encode, length_operands, Opcode.length]

/-- The opcode of an instruction is the one that it was made with. -/
@[simp] theorem opcode_ofParts (o : Opcode) (a b : UInt8) : (ofParts o a b).opcode = o := by
  cases o <;> rfl

/-- An instruction is its opcode with its operands. -/
theorem ofParts_operands (i : Instruction) :
    ofParts i.opcode (i.operands.getD 0 0) (i.operands.getD 1 0) = i := by
  cases i with
  | alu op a b => cases op <;> rfl
  | _ => rfl

/-- The operands of an instruction are those that its opcode declares. -/
theorem operands_ofParts (o : Opcode) (a b : UInt8) :
    (ofParts o a b).operands = [a, b].take o.operandCount := by
  cases o <;> simp [ofParts, operands, Opcode.operandCount_eq]

/-- The instruction at an address. A byte that is no opcode is a fault even
where its operands would also lie beyond the end of memory. -/
def decode (m : Memory) (address : Nat) : Except Fault Instruction := do
  let byte ← m.read address
  match Opcode.ofByte? byte with
  | none => .error (.unknownOpcode byte address)
  | some o =>
    let a ← if 0 < o.operandCount then m.read (address + 1) else pure 0
    let b ← if 1 < o.operandCount then m.read (address + 2) else pure 0
    pure (ofParts o a b)

/-- A register as an operand. -/
def registerName (reg : UInt8) : String :=
  "R" ++ Numeral.decimal reg.toNat

/-- The written form of the operands. -/
def operandText : Instruction → String
  | hlt | ret => ""
  | prn reg | push reg | pop reg | call reg => " " ++ registerName reg
  | ldi reg value => " " ++ registerName reg ++ "," ++ Numeral.decimal value.toNat
  | alu _ a b => " " ++ registerName a ++ "," ++ registerName b

/-- The written form of an instruction: the mnemonic, and the operands if there
are any. -/
def text (i : Instruction) : String :=
  i.opcode.mnemonic ++ i.operandText

end Instruction

end LS8
