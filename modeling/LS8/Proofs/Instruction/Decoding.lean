import LS8.Instruction
import LS8.Proofs.Memory.Contents

/-!
# Decoding

- `Instruction.decode_eq_ok_iff`: decoding finds an instruction exactly where its
  bytes stand, whatever the other cells hold.
- `Instruction.decode_eq_error_iff`: the three ways in which decoding fails. No
  cell at the address, a byte that is no opcode, and operands beyond the last
  cell; the second comes before the third.
-/

namespace LS8

open Memory (size)

namespace Opcode

theorem ofByte?_eq_none_iff {b : UInt8} : ofByte? b = none ↔ ∀ o : Opcode, o.byte ≠ b := by
  constructor
  · intro h o ho
    rw [ofByte?_eq_some_iff.2 ho] at h
    cases h
  · intro h
    cases hb : ofByte? b with
    | none => rfl
    | some o => exact absurd (ofByte?_eq_some_iff.1 hb) (h o)

/-- A byte is the byte of some opcode or of none. -/
theorem exists_byte_eq_or_forall_ne (b : UInt8) :
    (∃ o : Opcode, o.byte = b) ∨ ∀ o : Opcode, o.byte ≠ b := by
  cases hb : ofByte? b with
  | none => exact .inr (ofByte?_eq_none_iff.1 hb)
  | some o => exact .inl ⟨o, ofByte?_eq_some_iff.1 hb⟩

/-- The length of an instruction, read off the opcode. -/
theorem length_eq (o : Opcode) : o.length = match o with
    | hlt | ret => 1
    | prn | push | pop | call => 2
    | ldi | add | mul => 3 := by
  cases o <;> decide

theorem operandCount_cases (o : Opcode) :
    o.operandCount = 0 ∨ o.operandCount = 1 ∨ o.operandCount = 2 := by
  have := o.operandCount_le_two
  omega

end Opcode

namespace Instruction

variable {m : Memory} {a : Nat}

/-! ## The course of decoding -/

/-- Beyond the last cell nothing is decoded. -/
theorem decode_of_size_le (h : size ≤ a) : decode m a = .error (.outOfBounds a) := by
  simp [decode, Memory.read_of_size_le h, bind, Except.bind]

/-- A byte that is no opcode is refused before any operand is looked at. -/
theorem decode_of_not_opcode {byte : UInt8} (hb : m.peek? a = some byte)
    (h : ∀ o : Opcode, o.byte ≠ byte) : decode m a = .error (.unknownOpcode byte a) := by
  simp [decode, Memory.read_eq_ok_iff.2 hb, Opcode.ofByte?_eq_none_iff.2 h, bind, Except.bind]

/-- An operand beyond the last cell is looked for at the first address without a
cell, since operands are read in order. -/
theorem decode_of_operands_beyond {o : Opcode} (hb : m.peek? a = some o.byte)
    (h : size ≤ a + o.operandCount) : decode m a = .error (.outOfBounds size) := by
  have ha : a < size := Memory.lt_size_of_peek?_eq_some hb
  rcases o.operandCount_cases with h0 | h1 | h2
  · omega
  · have hsize : a + 1 = size := by omega
    simp [decode, Memory.read_eq_ok_iff.2 hb, h1, hsize,
      Memory.read_of_size_le (Nat.le_refl size), bind, Except.bind]
  · by_cases hsize : a + 1 = size
    · simp [decode, Memory.read_eq_ok_iff.2 hb, h2, hsize,
        Memory.read_of_size_le (Nat.le_refl size), bind, Except.bind]
    · have hsize' : a + 2 = size := by omega
      obtain ⟨x, hx⟩ := m.exists_peek?_of_lt (show a + 1 < size by omega)
      simp [decode, Memory.read_eq_ok_iff.2 hb, h2, Memory.read_eq_ok_iff.2 hx, hsize',
        Memory.read_of_size_le (Nat.le_refl size), bind, Except.bind]

/-- With all its operands in memory, an opcode is decoded to an instruction that
has just these operands. -/
theorem decode_of_operands_within {o : Opcode} (hb : m.peek? a = some o.byte)
    (h : a + o.operandCount < size) :
    ∃ i, decode m a = .ok i ∧ i.opcode = o ∧ m.Holds (a + 1) i.operands := by
  rcases o.operandCount_cases with h0 | h1 | h2
  · refine ⟨ofParts o 0 0, ?_, opcode_ofParts o 0 0, ?_⟩
    · simp [decode, Memory.read_eq_ok_iff.2 hb, h0, pure, Except.pure, bind, Except.bind]
    · rw [operands_ofParts, h0]
      exact Memory.holds_nil
  · obtain ⟨x, hx⟩ := m.exists_peek?_of_lt (show a + 1 < size by omega)
    refine ⟨ofParts o x 0, ?_, opcode_ofParts o x 0, ?_⟩
    · simp [decode, Memory.read_eq_ok_iff.2 hb, h1, Memory.read_eq_ok_iff.2 hx, pure,
        Except.pure, bind, Except.bind]
    · rw [operands_ofParts, h1]
      exact Memory.holds_cons.2 ⟨hx, Memory.holds_nil⟩
  · obtain ⟨x, hx⟩ := m.exists_peek?_of_lt (show a + 1 < size by omega)
    obtain ⟨y, hy⟩ := m.exists_peek?_of_lt (show a + 2 < size by omega)
    refine ⟨ofParts o x y, ?_, opcode_ofParts o x y, ?_⟩
    · simp [decode, Memory.read_eq_ok_iff.2 hb, h2, Memory.read_eq_ok_iff.2 hx,
        Memory.read_eq_ok_iff.2 hy, pure, Except.pure, bind, Except.bind]
    · rw [operands_ofParts, h2]
      exact Memory.holds_cons.2 ⟨hx, Memory.holds_cons.2 ⟨hy, Memory.holds_nil⟩⟩

/-! ## What is decoded, and what is not -/

/-- An instruction is determined by its opcode and its operands. -/
theorem eq_of_opcode_of_operands {i i' : Instruction} (ho : i.opcode = i'.opcode)
    (h : i.operands = i'.operands) : i = i' := by
  rw [← ofParts_operands i, ← ofParts_operands i', ho, h]

/-- The bytes of an instruction are its opcode and the operands behind it. -/
theorem holds_encode_iff {i : Instruction} :
    m.Holds a i.encode ↔ m.peek? a = some i.opcode.byte ∧ m.Holds (a + 1) i.operands :=
  Memory.holds_cons

/-- **Decoding finds an instruction exactly where its bytes stand.** -/
theorem decode_eq_ok_iff {i : Instruction} : decode m a = .ok i ↔ m.Holds a i.encode := by
  constructor
  · intro h
    by_cases ha : size ≤ a
    · rw [decode_of_size_le ha] at h
      cases h
    obtain ⟨byte, hb⟩ := m.exists_peek?_of_lt (Nat.lt_of_not_le ha)
    rcases Opcode.exists_byte_eq_or_forall_ne byte with ⟨o, rfl⟩ | hno
    · by_cases hfit : a + o.operandCount < size
      · obtain ⟨i', hi', rfl, hoperands⟩ := decode_of_operands_within hb hfit
        obtain rfl := Except.ok.inj (hi'.symm.trans h)
        exact holds_encode_iff.2 ⟨hb, hoperands⟩
      · rw [decode_of_operands_beyond hb (Nat.le_of_not_lt hfit)] at h
        cases h
    · rw [decode_of_not_opcode hb hno] at h
      cases h
  · intro h
    obtain ⟨hb, hoperands⟩ := holds_encode_iff.1 h
    have hfit := h.add_length_le (List.cons_ne_nil _ _)
    rw [length_encode, Opcode.length] at hfit
    obtain ⟨i', hi', ho, hoperands'⟩ := decode_of_operands_within hb (by omega)
    have heq : i'.operands = i.operands :=
      hoperands'.unique hoperands (by rw [length_operands, length_operands, ho])
    rw [hi', eq_of_opcode_of_operands ho heq]

/-- **How decoding fails**: at an address without a cell, at a byte that is no
opcode, and at an opcode whose operands reach beyond the last cell. -/
theorem decode_eq_error_iff {f : Fault} :
    decode m a = .error f ↔
      (size ≤ a ∧ f = .outOfBounds a) ∨
      (∃ byte, m.peek? a = some byte ∧ (∀ o : Opcode, o.byte ≠ byte) ∧
        f = .unknownOpcode byte a) ∨
      (∃ o : Opcode, m.peek? a = some o.byte ∧ size ≤ a + o.operandCount ∧
        f = .outOfBounds size) := by
  constructor
  · intro h
    by_cases ha : size ≤ a
    · rw [decode_of_size_le ha] at h
      exact .inl ⟨ha, (Except.error.inj h).symm⟩
    obtain ⟨byte, hb⟩ := m.exists_peek?_of_lt (Nat.lt_of_not_le ha)
    rcases Opcode.exists_byte_eq_or_forall_ne byte with ⟨o, rfl⟩ | hno
    · by_cases hfit : a + o.operandCount < size
      · obtain ⟨i, hi, -, -⟩ := decode_of_operands_within hb hfit
        rw [hi] at h
        cases h
      · have hbeyond := Nat.le_of_not_lt hfit
        rw [decode_of_operands_beyond hb hbeyond] at h
        exact .inr (.inr ⟨o, hb, hbeyond, (Except.error.inj h).symm⟩)
    · rw [decode_of_not_opcode hb hno] at h
      exact .inr (.inl ⟨byte, hb, hno, (Except.error.inj h).symm⟩)
  · rintro (⟨ha, rfl⟩ | ⟨byte, hb, hno, rfl⟩ | ⟨o, hb, hbeyond, rfl⟩)
    · exact decode_of_size_le ha
    · exact decode_of_not_opcode hb hno
    · exact decode_of_operands_beyond hb hbeyond

/-- A decoded instruction lies within memory. -/
theorem add_length_le_of_decode {i : Instruction} (h : decode m a = .ok i) :
    a + i.opcode.length ≤ size := by
  have := (decode_eq_ok_iff.1 h).add_length_le (List.cons_ne_nil _ _)
  rwa [length_encode] at this

end Instruction

end LS8
