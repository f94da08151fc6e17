import LS8.Proofs.Listing.Text

/-!
# Listings and decoding agree

A listing divides an image by the bytes of the image; a machine decodes from memory, where
zeros follow the image. `Image.decode_of_listed` says that they agree at the address of
every line, and how far they do where the image ends within an instruction.
-/

namespace LS8.Image

open Listing
open Memory (size)

variable {image : Image} {a : Nat} {c : Content} {i : Instruction} {byte : UInt8} {o : Opcode}

/-- What memory holds once an image was loaded into it. -/
def inMemory (image : Image) : Memory :=
  (Memory.zero.load image.bytes).state

/-- What a line shows is in memory at its address, and what it says about the bytes behind
is true of the image. -/
theorem holds_of_listed (hfit : image.bytes.length ≤ size)
    (h : (Line.mk a c).text ∈ image.listed) :
    image.inMemory.Holds a c.bytes ∧ c.Claims (image.bytes.drop (a + c.bytes.length)) := by
  obtain ⟨before, behind, hbytes, haddress, hclaims⟩ :=
    (lists_lines 0 image.bytes).exists_of_mem (text_mem_listed.1 h)
  obtain rfl : a = before.length := haddress.trans (Nat.zero_add _)
  have hholds : image.inMemory.Holds 0 image.bytes := Memory.holds_load hfit
  rw [hbytes, Memory.holds_append, Memory.holds_append, Nat.zero_add] at hholds
  refine ⟨hholds.1.2, ?_⟩
  rw [hbytes, ← List.length_append, List.drop_left]
  exact hclaims

/-- The operands of a truncated instruction are the bytes of the image that are there, and
zeros. -/
theorem decode_of_truncated (hpeek : image.inMemory.peek? a = some o.byte)
    (hwithin : a + o.operandCount < size) :
    ∃ i, Instruction.decode image.inMemory a = .ok i ∧ i.opcode = o ∧
      ∀ j < o.operandCount, i.operands[j]? = some (image.bytes.getD (a + 1 + j) 0) := by
  obtain ⟨i, hdecode, rfl, hoperands⟩ := Instruction.decode_of_operands_within hpeek hwithin
  refine ⟨i, hdecode, rfl, ?_⟩
  intro j hj
  have hcell : image.inMemory.peek? (a + 1 + j) = some (image.bytes.getD (a + 1 + j) 0) :=
    Memory.peek?_load_zero (by omega)
  rw [← i.length_operands] at hj
  rw [List.getElem?_eq_getElem hj, ← hoperands j hj, hcell]

/-- **Listing and machine agree.** Every line of a listing is of one of three forms. Where
it shows an instruction, this is the one that is decoded at its address; where it shows a
byte, decoding fails for this byte. Where it shows a truncated instruction, its opcode is
in memory and its operands reach to the end of the image or beyond. If they also reach
beyond the end of memory, decoding fails for that, and otherwise it finds zeros for the
operands that are missing. -/
theorem decode_of_listed (hfit : image.bytes.length ≤ 256) :
    (Memory.zero.load image.bytes).fault = none ∧
    (∀ line ∈ image.listed, ∃ a,
      (∃ i : Instruction, line = Numeral.hexUpper a ++ "  " ++ i.text) ∨
      (∃ byte, line = Numeral.hexUpper a ++ "  " ++ (".byte " ++ Numeral.binaryByte byte)) ∨
      ∃ o : Opcode, line = Numeral.hexUpper a ++ "  " ++ ("<truncated " ++ o.mnemonic ++ ">")) ∧
    (∀ a (i : Instruction), Numeral.hexUpper a ++ "  " ++ i.text ∈ image.listed →
      Instruction.decode image.inMemory a = .ok i) ∧
    (∀ a byte,
      Numeral.hexUpper a ++ "  " ++ (".byte " ++ Numeral.binaryByte byte) ∈ image.listed →
      Instruction.decode image.inMemory a = .error (.unknownOpcode byte a)) ∧
    ∀ a (o : Opcode),
      Numeral.hexUpper a ++ "  " ++ ("<truncated " ++ o.mnemonic ++ ">") ∈ image.listed →
      image.inMemory.peek? a = some o.byte ∧ image.bytes.length ≤ a + o.operandCount ∧
      (256 ≤ a + o.operandCount →
        Instruction.decode image.inMemory a = .error (.outOfBounds 256)) ∧
      (a + o.operandCount < 256 →
        ∃ i, Instruction.decode image.inMemory a = .ok i ∧ i.opcode = o ∧
          ∀ j < o.operandCount, i.operands[j]? = some (image.bytes.getD (a + 1 + j) 0)) := by
  refine ⟨Memory.fault_load_eq_none_iff.2 hfit, ?_, ?_, ?_, ?_⟩
  · intro line hline
    rw [listed_eq] at hline
    obtain ⟨⟨a, c⟩, -, rfl⟩ := List.mem_map.1 hline
    refine ⟨a, ?_⟩
    cases c with
    | instruction i => exact .inl ⟨i, rfl⟩
    | data byte => exact .inr (.inl ⟨byte, rfl⟩)
    | truncated o => exact .inr (.inr ⟨o, rfl⟩)
  · intro a i hline
    have hline : (Line.mk a (.instruction i)).text ∈ image.listed := hline
    exact Instruction.decode_eq_ok_iff.2 (holds_of_listed hfit hline).1
  · intro a byte hline
    have hline : (Line.mk a (.data byte)).text ∈ image.listed := hline
    obtain ⟨hholds, hbyte⟩ := holds_of_listed hfit hline
    exact Instruction.decode_of_not_opcode (Memory.holds_cons.1 hholds).1 hbyte
  · intro a o hline
    have hline : (Line.mk a (.truncated o)).text ∈ image.listed := hline
    obtain ⟨hholds, hshort⟩ := holds_of_listed hfit hline
    have hpeek : image.inMemory.peek? a = some o.byte := (Memory.holds_cons.1 hholds).1
    have hlength : (image.bytes.drop (a + 1)).length < o.operandCount := hshort
    rw [List.length_drop] at hlength
    exact ⟨hpeek, by omega, Instruction.decode_of_operands_beyond hpeek, decode_of_truncated hpeek⟩

/-- A byte that is no opcode in front, `LDI R1` without its value behind. -/
def endsInLoad : Image := ⟨[0xFF, 0x82, 1]⟩

/-- 255 bytes of `RET`, and `ADD` in the last cell. -/
def endsInAdd : Image := ⟨List.replicate 255 0x11 ++ [0xA0]⟩

theorem decode_of_listed_truncated :
    Instruction.decode endsInLoad.inMemory 0 = .error (.unknownOpcode 0xFF 0) ∧
    (∃ i, Instruction.decode endsInLoad.inMemory 1 = .ok i ∧ i.operands[1]? = some 0) ∧
    Instruction.decode endsInAdd.inMemory 254 = .ok .ret ∧
    Instruction.decode endsInAdd.inMemory 255 = .error (.outOfBounds 256) := by
  obtain ⟨-, -, -, hdata, htruncated⟩ :=
    decode_of_listed (show endsInLoad.bytes.length ≤ 256 by decide)
  obtain ⟨-, -, hinstruction, -, hbeyond⟩ :=
    decode_of_listed (show endsInAdd.bytes.length ≤ 256 by decide +kernel)
  have hstray : (Line.mk 0 (.data 0xFF)).text ∈ endsInLoad.listed :=
    text_mem_listed.2 (by decide +kernel)
  have hload : (Line.mk 1 (.truncated .ldi)).text ∈ endsInLoad.listed :=
    text_mem_listed.2 (by decide +kernel)
  have hret : (Line.mk 254 (.instruction .ret)).text ∈ endsInAdd.listed :=
    text_mem_listed.2 (by decide +kernel)
  have hadd : (Line.mk 255 (.truncated .add)).text ∈ endsInAdd.listed :=
    text_mem_listed.2 (by decide +kernel)
  refine ⟨hdata 0 0xFF hstray, ?_, hinstruction 254 .ret hret, ?_⟩
  · obtain ⟨-, -, -, hdecode⟩ := htruncated 1 .ldi hload
    obtain ⟨i, hi, -, hoperands⟩ := hdecode (by decide)
    exact ⟨i, hi, hoperands 1 (by decide)⟩
  · exact (hbeyond 255 .add hadd).2.2.1 (by decide)

end LS8.Image
