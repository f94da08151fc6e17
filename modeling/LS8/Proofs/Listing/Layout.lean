import LS8.Listing
import LS8.Proofs.Instruction.Decoding

/-!
# How a listing divides an image

- `Listing.Lists a bytes ls` has one rule for each kind of line. It holds of the lines that
  `Listing.lines` finds (`lists_lines`), and the facts below are proved by induction on it.
- `Lists.exists_of_mem`: each line shows bytes that stand in the image at its address.
- `Lists.shown_eq_of_complete`, `Lists.shown_of_truncated`: one behind the other, the bytes
  shown are the image, or the image up to the opcode of the truncated line.
-/

namespace LS8.Listing

/-- The bytes that a line shows; of a truncated instruction, the opcode. -/
def Content.bytes : Content → List UInt8
  | instruction i => i.encode
  | data byte => [byte]
  | truncated o => [o.byte]

/-- What a line with this content says about the bytes behind those that it shows. -/
def Content.Claims : Content → List UInt8 → Prop
  | instruction _, _ => True
  | data byte, _ => ∀ o : Opcode, o.byte ≠ byte
  | truncated o, behind => behind.length < o.operandCount

/-- The bytes that lines show, one behind the other. -/
def shown (ls : List Line) : List UInt8 :=
  ls.flatMap (·.content.bytes)

/-- `ls` are the lines of `bytes`, the first of which has the address `a`. -/
inductive Lists : Nat → List UInt8 → List Line → Prop
  | nil {a} : Lists a [] []
  | instruction {a i behind ls} (hrest : Lists (a + i.encode.length) behind ls) :
    Lists a (i.encode ++ behind) (⟨a, .instruction i⟩ :: ls)
  | data {a byte behind ls} (hbyte : ∀ o : Opcode, o.byte ≠ byte)
      (hrest : Lists (a + 1) behind ls) :
    Lists a (byte :: behind) (⟨a, .data byte⟩ :: ls)
  | truncated {a o behind} (hshort : behind.length < o.operandCount) :
    Lists a (o.byte :: behind) [⟨a, .truncated o⟩]

variable {a t : Nat} {bytes behind : List UInt8} {ls : List Line} {line : Line} {o : Opcode}

/-- Cut off its operands and put them in front again. -/
theorem encode_ofParts_append (h : o.operandCount ≤ behind.length) :
    (Instruction.ofParts o (behind.getD 0 0) (behind.getD 1 0)).encode
      ++ behind.drop o.operandCount = o.byte :: behind := by
  have hcut : [behind.getD 0 0, behind.getD 1 0].take o.operandCount
      = behind.take o.operandCount := by
    have hcount := o.operandCount_le_two
    refine List.ext_getElem (by simp; omega) fun j hj hj' => ?_
    rw [List.length_take] at hj'
    have hcases : j = 0 ∨ j = 1 := by omega
    rcases hcases with rfl | rfl
    · simp [List.getD_eq_getElem?_getD, List.getElem?_eq_getElem (show 0 < behind.length by omega)]
    · simp [List.getD_eq_getElem?_getD, List.getElem?_eq_getElem (show 1 < behind.length by omega)]
  rw [Instruction.encode, Instruction.opcode_ofParts, Instruction.operands_ofParts, hcut,
    List.cons_append, List.take_append_drop]

/-- The lines of an image are laid out by these rules. -/
theorem lists_lines (a : Nat) (bytes : List UInt8) : Lists a bytes (lines a bytes) := by
  fun_induction lines a bytes with
  | case1 a => exact .nil
  | case2 a byte rest hbyte ih => exact .data (Opcode.ofByte?_eq_none_iff.1 hbyte) ih
  | case3 a byte rest o hbyte hshort =>
    obtain rfl := Opcode.ofByte?_eq_some_iff.1 hbyte
    exact .truncated hshort
  | case4 a byte rest o hbyte hlong i ih =>
    obtain rfl := Opcode.ofByte?_eq_some_iff.1 hbyte
    have hlength : i.encode.length = o.length := by
      rw [Instruction.length_encode, Instruction.opcode_ofParts]
    rw [← encode_ofParts_append (Nat.le_of_not_lt hlong)]
    rw [← hlength] at ih ⊢
    exact .instruction ih

/-- **A line shows what stands at its address**, and what it says about the bytes behind
that is true. -/
theorem Lists.exists_of_mem (h : Lists a bytes ls) (hline : line ∈ ls) :
    ∃ before behind, bytes = before ++ line.content.bytes ++ behind ∧
      line.address = a + before.length ∧ line.content.Claims behind := by
  induction h with
  | nil => cases hline
  | @instruction a i behind ls hrest ih =>
    rcases List.mem_cons.1 hline with rfl | hmem
    · exact ⟨[], behind, rfl, rfl, trivial⟩
    · obtain ⟨before, after, rfl, haddress, hclaims⟩ := ih hmem
      refine ⟨i.encode ++ before, after, by simp, ?_, hclaims⟩
      rw [haddress, List.length_append, Nat.add_assoc]
  | @data a byte behind ls hbyte hrest ih =>
    rcases List.mem_cons.1 hline with rfl | hmem
    · exact ⟨[], behind, rfl, rfl, hbyte⟩
    · obtain ⟨before, after, rfl, haddress, hclaims⟩ := ih hmem
      refine ⟨byte :: before, after, rfl, ?_, hclaims⟩
      rw [haddress, List.length_cons, Nat.add_assoc, Nat.add_comm 1]
  | @truncated a o behind hshort =>
    obtain rfl := List.mem_singleton.1 hline
    exact ⟨[], behind, rfl, rfl, hshort⟩

/-! ## All lines together -/

/-- Lines without a truncated one show everything. -/
theorem Lists.shown_eq_of_complete (h : Lists a bytes ls)
    (hcomplete : ∀ line ∈ ls, ∀ o, line.content ≠ .truncated o) : shown ls = bytes := by
  induction h with
  | nil => rfl
  | instruction hrest ih =>
    rw [shown, List.flatMap_cons, ← shown, ih (List.forall_mem_cons.1 hcomplete).2]
    rfl
  | data hbyte hrest ih =>
    rw [shown, List.flatMap_cons, ← shown, ih (List.forall_mem_cons.1 hcomplete).2]
    rfl
  | truncated hshort => exact absurd rfl (hcomplete _ List.mem_cons_self _)

/-- A truncated line is the last, and with it the lines show everything up to its opcode. -/
theorem Lists.shown_of_truncated (h : Lists a bytes ls) (ht : ⟨t, .truncated o⟩ ∈ ls) :
    a + (shown ls).length = t + 1 ∧ shown ls <+: bytes := by
  induction h with
  | nil => cases ht
  | @instruction a i behind ls hrest ih =>
    obtain ⟨hlength, hprefix⟩ := ih ((List.mem_cons.1 ht).resolve_left nofun)
    rw [shown, List.flatMap_cons, ← shown]
    refine ⟨?_, (List.prefix_append_right_inj _).2 hprefix⟩
    rw [List.length_append, ← Nat.add_assoc]
    exact hlength
  | @data a byte behind ls hbyte hrest ih =>
    obtain ⟨hlength, hprefix⟩ := ih ((List.mem_cons.1 ht).resolve_left nofun)
    rw [shown, List.flatMap_cons, ← shown]
    refine ⟨?_, (List.prefix_append_right_inj [byte]).2 hprefix⟩
    rw [List.length_append, ← Nat.add_assoc]
    exact hlength
  | @truncated a o' behind hshort =>
    cases List.mem_singleton.1 ht
    exact ⟨rfl, ⟨behind, rfl⟩⟩

end LS8.Listing
