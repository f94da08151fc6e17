import Mathlib.Algebra.GroupWithZero.Nat
import LS8.Proofs.Instruction.Encoding
import LS8.Proofs.Listing.Recovery

/-!
# What a listing covers

- `Listing.Line.span` is how many bytes of an image a line stands for. `Listing.Covers` says
  that lines stand for all bytes, one line behind the other; the lines of an image do
  (`Listing.Lists.covers`).
- `Listing.Lists.eq_nil_of_truncated`, `Listing.Lists.truncated_iff`: a truncated line is the
  last, and it is there exactly if the image ends within an instruction.
- `Listing.lines_encode_append`, `Listing.lines_append`: the lines of an instruction with
  bytes behind it, and of an image with another behind it.
- `Image.listing_covers_once` puts this together.
-/

namespace LS8

namespace Listing

variable {a n : Nat} {bytes xs : List UInt8} {ls : List Line} {line : Line} {o : Opcode}

/-! ## Spans -/

/-- How many bytes a line stands for, in an image of `total` bytes: a byte of data, an
instruction with its operands, or all that is left of a truncated one. -/
def Line.span (total : Nat) (line : Line) : Nat :=
  match line.content with
  | .instruction i => i.opcode.length
  | .data _ => 1
  | .truncated _ => total - line.address

/-- From address `a` on, the lines stand for the bytes of an image of `total` bytes. Each
stands at the address behind the line before it and for at least one byte, and behind the
last line nothing is left. -/
def Covers (total : Nat) : Nat → List Line → Prop
  | a, [] => a = total
  | a, line :: rest =>
    line.address = a ∧ 0 < line.span total ∧ Covers total (a + line.span total) rest

/-- **The lines of an image cover it.** -/
theorem Lists.covers (h : Lists a bytes ls) : Covers (a + bytes.length) a ls := by
  induction h with
  | nil => rfl
  | @instruction a i behind ls hrest ih =>
    refine ⟨rfl, Nat.succ_pos _, ?_⟩
    show Covers _ (a + i.opcode.length) ls
    rw [List.length_append, ← Nat.add_assoc, ← Instruction.length_encode]
    exact ih
  | @data a byte behind ls hbyte hrest ih =>
    refine ⟨rfl, Nat.one_pos, ?_⟩
    rw [List.length_cons, Nat.add_comm behind.length, ← Nat.add_assoc]
    exact ih
  | @truncated a o behind hshort =>
    have hspan : Line.span (a + (o.byte :: behind).length) ⟨a, .truncated o⟩ =
        (o.byte :: behind).length := Nat.add_sub_cancel_left _ _
    refine ⟨rfl, ?_, ?_⟩
    · rw [hspan]
      exact Nat.succ_pos _
    · rw [hspan]
      rfl

/-! ## Truncated lines -/

/-- No line follows a truncated one. -/
theorem Lists.eq_nil_of_truncated {before behind : List Line} (h : Lists a bytes ls)
    (hls : ls = before ++ line :: behind) (hline : line.content = .truncated o) : behind = [] := by
  induction h generalizing before with
  | nil => exact absurd hls.symm (by simp)
  | instruction hrest ih | data hbyte hrest ih =>
    cases before with
    | nil =>
      obtain ⟨rfl, -⟩ := List.cons.inj hls
      cases hline
    | cons first before => exact ih (List.cons.inj hls).2
  | truncated hshort =>
    cases before with
    | nil => exact (List.cons.inj hls).2.symm
    | cons first before => exact absurd (List.cons.inj hls).2.symm (by simp)

/-- **A line is truncated exactly if it begins with an opcode that has not all its operands
behind it.** -/
theorem Lists.truncated_iff (h : Lists 0 bytes ls) (hline : line ∈ ls) :
    line.content = .truncated o ↔
      bytes[line.address]? = some o.byte ∧
        (bytes.drop (line.address + 1)).length < o.operandCount := by
  obtain ⟨before, behind, hbytes, haddress, hclaims⟩ := h.exists_of_mem hline
  rw [Nat.zero_add] at haddress
  have hdrop : bytes.drop line.address = line.content.bytes ++ behind := by
    rw [hbytes, haddress, List.append_assoc, List.drop_left]
  rw [← List.head?_drop, ← List.drop_drop, hdrop]
  -- the three kinds of lines begin with an opcode, with no opcode, and with an opcode
  cases hc : line.content with
  | instruction i =>
    constructor
    · intro he
      cases he
    · rintro ⟨hfirst, hshort⟩
      obtain rfl : i.opcode = o := Opcode.byte_injective (Option.some.inj hfirst)
      have hoperands := i.length_operands
      rw [Content.bytes, Instruction.encode, List.cons_append, List.drop_one, List.tail_cons,
        List.length_append] at hshort
      omega
  | data byte =>
    rw [hc] at hclaims
    constructor
    · intro he
      cases he
    · rintro ⟨hfirst, -⟩
      exact absurd (Option.some.inj hfirst).symm (hclaims o)
  | truncated o' =>
    rw [hc] at hclaims
    constructor
    · intro he
      cases he
      exact ⟨rfl, hclaims⟩
    · rintro ⟨hfirst, -⟩
      obtain rfl : o' = o := Opcode.byte_injective (Option.some.inj hfirst)
      rfl

/-! ## Lines put together -/

/-- An instruction is a line, whatever stands behind it. -/
theorem lines_encode_append (a : Nat) (i : Instruction) (behind : List UInt8) :
    lines a (i.encode ++ behind) =
      ⟨a, .instruction i⟩ :: lines (a + i.encode.length) behind := by
  have hoperands : Instruction.ofParts i.opcode ((i.operands ++ behind).getD 0 0)
      ((i.operands ++ behind).getD 1 0) = i := by
    cases i with
    | alu op x y => cases op <;> rfl
    | _ => rfl
  have hlong : ¬ (i.operands ++ behind).length < i.opcode.operandCount := by
    rw [List.length_append, i.length_operands]
    omega
  rw [Instruction.encode, List.cons_append, lines]
  simp only [Opcode.ofByte?_byte, if_neg hlong, hoperands]
  rw [← i.length_operands, List.drop_left, List.length_cons, i.length_operands, Opcode.length]

/-- So is a byte that is no opcode. -/
theorem lines_data_cons (a : Nat) {byte : UInt8} (h : ∀ o : Opcode, o.byte ≠ byte)
    (behind : List UInt8) :
    lines a (byte :: behind) = ⟨a, .data byte⟩ :: lines (a + 1) behind := by
  rw [lines]
  simp only [Opcode.ofByte?_eq_none_iff.2 h]

/-- **What stands behind an image has lines of its own**, if no instruction reaches into it. -/
theorem Lists.lines_append (h : Lists a bytes ls)
    (hcomplete : ∀ line ∈ ls, ∀ o, line.content ≠ .truncated o) (behind : List UInt8) :
    lines a (bytes ++ behind) = ls ++ lines (a + bytes.length) behind := by
  induction h with
  | nil => rfl
  | instruction hrest ih =>
    rw [List.append_assoc, lines_encode_append, ih (List.forall_mem_cons.1 hcomplete).2,
      List.length_append, Nat.add_assoc, List.cons_append]
  | @data a byte rest ls hbyte hrest ih =>
    rw [List.cons_append, lines_data_cons a hbyte, ih (List.forall_mem_cons.1 hcomplete).2,
      List.length_cons, Nat.add_assoc, Nat.add_comm 1, List.cons_append]
  | truncated hshort => exact absurd rfl (hcomplete _ List.mem_cons_self _)

/-- A line further up. -/
def Line.shift (n : Nat) (line : Line) : Line :=
  { line with address := line.address + n }

/-- The lines of bytes further up are their lines, further up. -/
theorem lines_add (a n : Nat) (bytes : List UInt8) :
    lines (a + n) bytes = (lines a bytes).map (Line.shift n) := by
  fun_induction lines a bytes with
  | case1 a => rw [lines, List.map_nil]
  | case2 a byte rest hbyte ih =>
    rw [List.map_cons, ← ih, lines_data_cons _ (Opcode.ofByte?_eq_none_iff.1 hbyte),
      Nat.add_right_comm]
    rfl
  | case3 a byte rest o hbyte hshort =>
    rw [lines]
    simp only [hbyte, if_pos hshort]
    rfl
  | case4 a byte rest o hbyte hlong i ih =>
    rw [lines]
    simp only [hbyte, if_neg hlong]
    rw [List.map_cons, ← ih, Nat.add_right_comm]
    rfl

/-- **Instructions one behind the other have a line each**, at the sum of the lengths before
it. -/
theorem lines_encodeAll (a : Nat) (program : List Instruction) :
    (lines a (Instruction.encodeAll program)).length = program.length ∧
    ∀ (k : Nat) (i : Instruction), program[k]? = some i →
      (lines a (Instruction.encodeAll program))[k]? =
        some ⟨a + ((program.take k).map (·.opcode.length)).sum, .instruction i⟩ := by
  induction program generalizing a with
  | nil => exact ⟨by rw [Instruction.encodeAll, List.flatMap_nil, lines]; rfl, nofun⟩
  | cons first rest ih =>
    obtain ⟨hlength, hlines⟩ := ih (a + first.encode.length)
    rw [Instruction.encodeAll_cons, lines_encode_append]
    refine ⟨congrArg (· + 1) hlength, fun k i hi => ?_⟩
    cases k with
    | zero =>
      obtain rfl := Option.some.inj hi
      rfl
    | succ k =>
      rw [List.getElem?_cons_succ, hlines k i hi, List.take_succ_cons, List.map_cons,
        List.sum_cons, first.length_encode, Nat.add_assoc]

end Listing

namespace Image

open Listing

/-- **A listing covers the image once, and listings compose.**

- The lines of an image of any length stand for all of its bytes, one line behind the other,
  and each shows the address where it begins. A line is truncated exactly if it begins with
  an opcode that has fewer bytes behind it than it has operands, and no line follows it.
- Instructions one behind the other are listed as they are, each at the sum of the lengths
  before it.
- If no line of an image is truncated, then an image behind it is listed behind it, with all
  addresses moved up by the length of the first. -/
theorem listing_covers_once :
    (∀ image : Image,
      (image.listed = (lines 0 image.bytes).map fun line =>
        Numeral.hexUpper line.address ++ "  " ++ line.content.text) ∧
      Covers image.bytes.length 0 (lines 0 image.bytes) ∧
      (∀ line ∈ lines 0 image.bytes, ∀ o, line.content = .truncated o ↔
        image.bytes[line.address]? = some o.byte ∧
          (image.bytes.drop (line.address + 1)).length < o.operandCount) ∧
      ∀ before line behind o, lines 0 image.bytes = before ++ line :: behind →
        line.content = .truncated o → behind = []) ∧
    (∀ program : List Instruction,
      (Image.mk (Instruction.encodeAll program)).listed.length = program.length ∧
      ∀ k i, program[k]? = some i →
        (Image.mk (Instruction.encodeAll program)).listed[k]? =
          some (Numeral.hexUpper ((program.take k).map (·.opcode.length)).sum ++ "  " ++ i.text)) ∧
    ∀ image image' : Image, ¬ image.Truncated →
      (Image.mk (image.bytes ++ image'.bytes)).listing =
        image.listing ++ String.join ((lines 0 image'.bytes).map fun line =>
          (line.shift image.bytes.length).text ++ "\n") := by
  refine ⟨fun image => ⟨listed_eq image, ?_, fun line hline o => ?_, ?_⟩, fun program => ?_,
    fun image image' hcomplete => ?_⟩
  · have hcovers := (lists_lines 0 image.bytes).covers
    rwa [Nat.zero_add] at hcovers
  · exact (lists_lines 0 image.bytes).truncated_iff hline
  · intro before line behind o hls hline
    exact (lists_lines 0 image.bytes).eq_nil_of_truncated hls hline
  · obtain ⟨hlength, hlines⟩ := lines_encodeAll 0 program
    rw [listed_eq, List.length_map]
    refine ⟨hlength, fun k i hi => ?_⟩
    rw [List.getElem?_map, hlines k i hi, Nat.zero_add]
    rfl
  · rw [listing, (lists_lines 0 image.bytes).lines_append (content_ne_truncated hcomplete),
      lines_add, List.map_append, List.map_map, String.join_append]
    rfl

theorem listing_covers_once_spliced :
    Covers 3 0 (lines 0 stray.bytes) ∧
    (stray.bytes[1]? = some Opcode.ldi.byte ∧ (stray.bytes.drop 2).length < 2) ∧
    (Image.mk (Instruction.encodeAll [.ldi 1 7, .hlt])).listed[1]? = some "03  HLT" ∧
    (Image.mk ([0xFF, 0x01] ++ stray.bytes)).listing =
      "00  .byte 0b11111111\n01  HLT\n02  .byte 0b11111111\n03  <truncated LDI>\n" := by
  obtain ⟨hcovers, hprogram, happend⟩ := listing_covers_once
  obtain ⟨-, hspans, htruncated, -⟩ := hcovers stray
  have hlast : Line.mk 1 (.truncated .ldi) ∈ lines 0 stray.bytes := by decide +kernel
  have hcomplete : ¬ (Image.mk [0xFF, 0x01]).Truncated := by
    rintro ⟨a, o, hmem⟩
    have hlines : lines 0 [0xFF, 0x01] = [⟨0, .data 0xFF⟩, ⟨1, .instruction .hlt⟩] := by
      decide +kernel
    have hmem := text_mem_listed.1 hmem
    rw [hlines] at hmem
    simp at hmem
  refine ⟨hspans, (htruncated _ hlast .ldi).1 rfl, ?_, ?_⟩
  · rw [(hprogram [.ldi 1 7, .hlt]).2 1 .hlt rfl]
    decide +kernel
  · rw [happend ⟨[0xFF, 0x01]⟩ stray hcomplete]
    decide +kernel

end Image

end LS8
