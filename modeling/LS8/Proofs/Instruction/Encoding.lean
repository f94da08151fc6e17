import LS8.Proofs.Instruction.Decoding

/-!
# Encoding and decoding

The bytes of an instruction and the instruction in memory determine each other.

- `Instruction.decode_writeAll_encode`: an instruction that is written to memory is
  decoded there; nothing else that memory holds has a part in it.
- `Instruction.decode_inverts_encode`: this, its converse and the three ways in which
  decoding fails, over all memories and addresses.
- `Instruction.extent` counts the bytes that decoding looks at, also when it fails.
  Memories that agree on these are decoded alike (`Instruction.decode_congr`).
-/

namespace LS8.Instruction

open Memory (size)

variable {m m' : Memory} {a : Nat} {i : Instruction}

/-- The bytes of a list of instructions. -/
def encodeAll (program : List Instruction) : List UInt8 :=
  program.flatMap encode

theorem encodeAll_cons (i : Instruction) (rest : List Instruction) :
    encodeAll (i :: rest) = i.encode ++ encodeAll rest :=
  List.flatMap_cons

theorem encodeAll_append (program rest : List Instruction) :
    encodeAll (program ++ rest) = encodeAll program ++ encodeAll rest :=
  List.flatMap_append

/-! ## There and back -/

/-- **An instruction that is written to memory is decoded there.** -/
theorem decode_writeAll_encode (h : a + i.encode.length ≤ size) :
    decode (m.writeAll a i.encode).state a = .ok i :=
  decode_eq_ok_iff.2 (Memory.holds_writeAll h)

/-- The cells that an instruction was decoded from are its encoding. -/
theorem slice_of_decode (h : decode m a = .ok i) : m.slice a i.opcode.length = i.encode := by
  rw [← length_encode]
  exact Memory.slice_eq_iff_holds.2 (decode_eq_ok_iff.1 h)

/-- **Decoding inverts encoding, and encoding inverts decoding.** Wherever an
instruction fits, writing its bytes changes no other cell, and it is decoded from them.
What is decoded from a memory has the cells there as its encoding, as many as its opcode
says. Decoding fails at an address without a cell, at a byte that is no opcode, and at
an opcode with operands beyond the last cell, each with its own fault. -/
theorem decode_inverts_encode :
    (∀ (i : Instruction) (m : Memory) (a : Nat), a + i.encode.length ≤ 256 →
      (m.writeAll a i.encode).fault = none ∧
      (∀ address, address < a ∨ a + i.encode.length ≤ address →
        (m.writeAll a i.encode).state.peek? address = m.peek? address) ∧
      decode (m.writeAll a i.encode).state a = .ok i) ∧
    (∀ (m : Memory) (a : Nat) (i : Instruction), decode m a = .ok i →
      i.encode = m.slice a i.opcode.length ∧ i.encode.length = i.opcode.length) ∧
    ∀ (m : Memory) (a : Nat) (f : Fault), decode m a = .error f ↔
      (256 ≤ a ∧ f = .outOfBounds a) ∨
      (∃ byte, m.peek? a = some byte ∧ (∀ o : Opcode, o.byte ≠ byte) ∧
        f = .unknownOpcode byte a) ∨
      (∃ o : Opcode, m.peek? a = some o.byte ∧ 256 ≤ a + o.operandCount ∧
        f = .outOfBounds 256) := by
  refine ⟨fun i m a h => ⟨?_, fun address haddress => ?_, decode_writeAll_encode h⟩,
    fun m a i h => ⟨(slice_of_decode h).symm, length_encode i⟩,
    fun m a f => decode_eq_error_iff⟩
  · rw [Memory.fault_writeAll, if_pos (.inr h)]
  · rw [Memory.peek?_writeAll, if_neg (by omega)]

/-- A memory in which no byte is an opcode. -/
def noCode : Memory := ⟨Vector.replicate size 0xFF⟩

theorem decode_inverts_encode_topOfMemory :
    decode (noCode.writeAll 253 [0xA2, 4, 200]).state 253 = .ok (.alu .mul 4 200) ∧
      encode (.alu .mul 4 200) = (noCode.writeAll 253 [0xA2, 4, 200]).state.slice 253 3 ∧
      decode (noCode.writeAll 254 [0xA2, 4]).state 254 = .error (.outOfBounds 256) ∧
      decode (noCode.writeAll 254 [0xA2, 4]).state 253 = .error (.unknownOpcode 0xFF 253) := by
  obtain ⟨hwritten, hread, hfails⟩ := decode_inverts_encode
  have hmul := (hwritten (.alu .mul 4 200) noCode 253 (by decide)).2.2
  refine ⟨hmul, (hread _ _ _ hmul).1, ?_, ?_⟩
  · exact (hfails _ _ _).2 (.inr (.inr ⟨.mul, by decide +kernel, by decide, rfl⟩))
  · refine (hfails _ _ _).2 (.inr (.inl ⟨0xFF, by decide +kernel, ?_, rfl⟩))
    rintro (_ | _) <;> decide

/-! ## What decoding looks at -/

/-- How many bytes decoding looks at: the opcode and the operands that it declares, or
only a byte that is no opcode. -/
def extent (m : Memory) (a : Nat) : Nat :=
  match (m.peek? a).bind Opcode.ofByte? with
  | some o => o.length
  | none => 1

theorem extent_of_opcode {o : Opcode} (h : m.peek? a = some o.byte) : extent m a = o.length := by
  rw [extent, h, Option.bind_some, Opcode.ofByte?_byte]

theorem extent_pos (m : Memory) (a : Nat) : 0 < extent m a := by
  unfold extent
  split
  · exact Nat.succ_pos _
  · exact Nat.one_pos

theorem extent_le_three (m : Memory) (a : Nat) : extent m a ≤ 3 := by
  unfold extent
  split
  · next o _ => exact Nat.succ_le_succ o.operandCount_le_two
  · exact Nat.succ_le_succ (Nat.zero_le 2)

/-- **Decoding looks at nothing beyond its extent.** -/
theorem decode_congr
    (h : ∀ address, a ≤ address → address < a + extent m a → m'.peek? address = m.peek? address) :
    decode m' a = decode m a := by
  by_cases ha : size ≤ a
  · rw [decode_of_size_le ha, decode_of_size_le ha]
  obtain ⟨byte, hb⟩ := m.exists_peek?_of_lt (Nat.lt_of_not_le ha)
  have hb' : m'.peek? a = some byte := by
    rw [h a (Nat.le_refl a) (Nat.lt_add_of_pos_right (extent_pos m a)), hb]
  rcases Opcode.exists_byte_eq_or_forall_ne byte with ⟨o, rfl⟩ | hno
  · rw [extent_of_opcode hb, Opcode.length] at h
    by_cases hfit : a + o.operandCount < size
    · obtain ⟨i, hi, rfl, hoperands⟩ := decode_of_operands_within hb hfit
      rw [hi, decode_eq_ok_iff, holds_encode_iff]
      refine ⟨hb', fun j hj => ?_⟩
      have hcount := i.length_operands
      rw [h (a + 1 + j) (by omega) (by omega), hoperands j hj]
    · have hbeyond := Nat.le_of_not_lt hfit
      rw [decode_of_operands_beyond hb hbeyond, decode_of_operands_beyond hb' hbeyond]
  · rw [decode_of_not_opcode hb hno, decode_of_not_opcode hb' hno]

end LS8.Instruction
