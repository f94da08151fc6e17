import LS8.Proofs.Listing.Text

/-!
# What a listing keeps

A listing keeps every byte of an image but the operands of a truncated instruction.

- `Image.bytes_eq_of_not_truncated`, `Image.take_bytes_of_truncated`: the bytes of an image
  from the lines of its listing.
- `Image.listing_determines_bytes`: so equal listings come from equal images, as far as
  they show them, and a single line tells the bytes that it was written for.
-/

namespace LS8.Image

open Listing

variable {image image' : Image} {a : Nat} {c : Content} {o : Opcode}

/-- Some line of the listing shows a truncated instruction. -/
def Truncated (image : Image) : Prop :=
  ∃ a o, (Line.mk a (.truncated o)).text ∈ image.listed

theorem content_ne_truncated (h : ¬ image.Truncated) :
    ∀ line ∈ lines 0 image.bytes, ∀ o, line.content ≠ .truncated o := by
  rintro ⟨a, c⟩ hline o rfl
  exact h ⟨a, o, text_mem_listed.2 hline⟩

/-- The lines of a listing without a truncated one show the whole image. -/
theorem bytes_eq_of_not_truncated (h : ¬ image.Truncated) :
    image.bytes = shown (lines 0 image.bytes) :=
  ((lists_lines 0 image.bytes).shown_eq_of_complete (content_ne_truncated h)).symm

/-- Otherwise they show it up to the opcode at the address of the truncated line. -/
theorem take_bytes_of_truncated (h : (Line.mk a (.truncated o)).text ∈ image.listed) :
    image.bytes.take (a + 1) = shown (lines 0 image.bytes) ∧ a < image.bytes.length := by
  obtain ⟨hlength, hprefix⟩ :=
    (lists_lines 0 image.bytes).shown_of_truncated (text_mem_listed.1 h)
  rw [Nat.zero_add] at hlength
  constructor
  · rw [← hlength]
    exact (List.prefix_iff_eq_take.1 hprefix).symm
  · have hle := hprefix.length_le
    omega

/-- The bytes that a line shows stand at its address. -/
theorem bytes_prefix_drop (h : (Line.mk a c).text ∈ image.listed) :
    c.bytes <+: image.bytes.drop a := by
  obtain ⟨before, behind, hbytes, haddress, -⟩ :=
    (lists_lines 0 image.bytes).exists_of_mem (text_mem_listed.1 h)
  have ha : a = before.length := haddress.trans (Nat.zero_add _)
  rw [hbytes, ha, List.append_assoc, List.drop_left]
  exact List.prefix_append _ _

/-- **A listing determines the image.** If no line is truncated, images with the same
listing are the same. If one is, they have the same bytes up to and with the opcode at its
address. A single line tells the bytes that it was written for, wherever it occurs, and
from lines without a truncated one the image is put together again. -/
theorem listing_determines_bytes :
    (∀ image image' : Image, image.listing = image'.listing → ¬ image.Truncated →
      image = image') ∧
    (∀ image image' : Image, image.listing = image'.listing →
      ∀ a o, (Line.mk a (.truncated o)).text ∈ image.listed →
        a < image.bytes.length ∧ a < image'.bytes.length ∧ image.bytes[a]? = some o.byte ∧
        image.bytes.take (a + 1) = image'.bytes.take (a + 1)) ∧
    ∃ bytesOf : String → List UInt8, ∀ image : Image,
      (∀ a c, (Line.mk a c).text ∈ image.listed →
        bytesOf (Line.mk a c).text = c.bytes ∧ c.bytes <+: image.bytes.drop a) ∧
      (¬ image.Truncated → image.listed.flatMap bytesOf = image.bytes) := by
  refine ⟨?_, ?_, Function.extend Line.text (·.content.bytes) fun _ => [],
    fun image => ⟨?_, ?_⟩⟩
  · intro image image' h hwhole
    have hwhole' : ¬ image'.Truncated := by
      rwa [Truncated, listed, ← h]
    have hbytes : image.bytes = image'.bytes := calc
      image.bytes = shown (lines 0 image.bytes) := bytes_eq_of_not_truncated hwhole
      _ = shown (lines 0 image'.bytes) := by rw [lines_eq_of_listing_eq h]
      _ = image'.bytes := (bytes_eq_of_not_truncated hwhole').symm
    exact congrArg Image.mk hbytes
  · intro image image' h a o hline
    have hline' : (Line.mk a (.truncated o)).text ∈ image'.listed := by
      rwa [listed, ← h]
    obtain ⟨htake, hlt⟩ := take_bytes_of_truncated hline
    obtain ⟨htake', hlt'⟩ := take_bytes_of_truncated hline'
    refine ⟨hlt, hlt', ?_, by rw [htake, htake', lines_eq_of_listing_eq h]⟩
    obtain ⟨behind, hdrop⟩ := bytes_prefix_drop hline
    rw [← List.head?_drop, ← hdrop]
    rfl
  · intro a c hline
    refine ⟨?_, bytes_prefix_drop hline⟩
    rw [Line.text_injective.extend_apply]
  · intro hwhole
    refine Eq.trans ?_ (bytes_eq_of_not_truncated hwhole).symm
    rw [listed_eq, List.flatMap_map, shown]
    apply List.flatMap_congr
    intro line _
    rw [Line.text_injective.extend_apply]

/-- A byte that is no opcode, and `LDI` with its first operand. -/
def stray : Image := ⟨[0xFF, 0x82, 5]⟩

/-- The same without the operand. -/
def cut : Image := ⟨[0xFF, 0x82]⟩

theorem listing_determines_bytes_cut :
    stray.listing = cut.listing ∧ cut.listed.getLast? = some "01  <truncated LDI>" ∧
      stray.bytes.take 2 = cut.bytes.take 2 ∧ stray.bytes ≠ cut.bytes ∧
      ∀ image : Image, image.listing = "00  LDI R0,8\n03  .byte 0b00000000\n" →
        image.bytes = [0x82, 0, 8, 0] := by
  obtain ⟨hwhole, htruncated, -⟩ := listing_determines_bytes
  have hlisting : stray.listing = cut.listing := by decide +kernel
  have hline : (Line.mk 1 (.truncated .ldi)).text ∈ stray.listed := by decide +kernel
  refine ⟨hlisting, by decide +kernel, (htruncated _ _ hlisting _ _ hline).2.2.2, by decide, ?_⟩
  intro image himage
  have hsame : (⟨[0x82, 0, 8, 0]⟩ : Image).listing = image.listing := by
    rw [himage]
    decide +kernel
  have hcomplete : ¬ (⟨[0x82, 0, 8, 0]⟩ : Image).Truncated := by
    rintro ⟨a, o, hmem⟩
    have hlines : lines 0 [0x82, 0, 8, 0] =
        [⟨0, .instruction (.ldi 0 8)⟩, ⟨3, .data 0⟩] := by decide +kernel
    have hmem := text_mem_listed.1 hmem
    rw [hlines] at hmem
    simp at hmem
  exact congrArg Image.bytes (hwhole _ _ hsame hcomplete).symm

end LS8.Image
