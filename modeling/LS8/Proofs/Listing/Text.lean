import Mathlib.Data.List.Basic
import LS8.Proofs.Listing.Layout
import LS8.Proofs.Text.Lines
import LS8.Proofs.Text.Numeral

/-!
# What a listing tells

- `Instruction.text_injective`: the text of an instruction determines it.
- `Line.text_injective`: a line of a listing determines its address and what it shows.
- `Image.listed` are the lines of the text. They are the lines that `Listing.lines` finds
  (`Image.listed_eq`), because no line has a line feed inside.
-/

namespace LS8

/-! ## The text of an instruction -/

namespace Instruction

variable {a b a' b' : UInt8} {s s' : String}

theorem registerName_injective : Function.Injective registerName := by
  intro a b h
  rw [registerName, registerName, String.append_right_inj] at h
  exact UInt8.toNat_inj.1 (Numeral.decimal_injective h)

theorem isAlphanum_of_mem_registerName {c : Char} (hc : c ∈ (registerName a).toList) :
    c.isAlphanum = true := by
  rw [registerName, String.toList_append] at hc
  rcases List.mem_append.1 hc with hmark | hdigit
  · have hmark : c = 'R' := by simpa using hmark
    rw [hmark]
    rfl
  · exact Numeral.isAlphanum_of_mem_decimal hdigit

/-- The comma behind the first register shows where its name ends. -/
theorem registerName_append_comma
    (h : registerName a ++ ("," ++ s) = registerName a' ++ ("," ++ s')) : a = a' ∧ s = s' := by
  have hcomma : ∀ a, ',' ∉ (registerName a).toList := fun a hmem =>
    absurd (isAlphanum_of_mem_registerName hmem) (by decide)
  have hchars : (registerName a).toList ++ ',' :: s.toList =
      (registerName a').toList ++ ',' :: s'.toList := by
    simpa using congrArg String.toList h
  obtain ⟨hname, hrest⟩ := Text.append_separator_inj (hcomma a) (hcomma a') hchars
  exact ⟨registerName_injective (String.toList_inj.1 hname), String.toList_inj.1 hrest⟩

/-- With the same opcode, the written operands determine the instruction. -/
theorem ofParts_eq_of_operandText {o : Opcode}
    (h : (ofParts o a b).operandText = (ofParts o a' b').operandText) :
    ofParts o a b = ofParts o a' b' := by
  cases o with
  | hlt | ret => rfl
  | prn | push | pop | call =>
    simp only [ofParts, operandText, String.append_right_inj] at h
    rw [registerName_injective h]
    rfl
  | ldi =>
    simp only [ofParts, operandText, String.append_assoc, String.append_right_inj] at h
    obtain ⟨rfl, hvalue⟩ := registerName_append_comma h
    rw [UInt8.toNat_inj.1 (Numeral.decimal_injective hvalue)]
  | add | mul =>
    simp only [ofParts, operandText, String.append_assoc, String.append_right_inj] at h
    obtain ⟨rfl, hname⟩ := registerName_append_comma h
    rw [registerName_injective hname]

theorem eq_of_operandText {i i' : Instruction} (ho : i.opcode = i'.opcode)
    (h : i.operandText = i'.operandText) : i = i' := by
  rw [← ofParts_operands i, ← ofParts_operands i', ho] at h ⊢
  exact ofParts_eq_of_operandText h

theorem isAlpha_of_mem_mnemonic {o : Opcode} {c : Char} (hc : c ∈ o.mnemonic.toList) :
    c.isAlpha = true := by
  have hall : o.mnemonic.toList.all Char.isAlpha = true := by cases o <;> rfl
  exact List.all_eq_true.1 hall c hc

theorem notMem_mnemonic {c : Char} (hc : c.isAlpha = false) (o : Opcode) :
    c ∉ o.mnemonic.toList := by
  intro hmem
  rw [isAlpha_of_mem_mnemonic hmem] at hc
  cases hc

/-- Operands, if there are any, are set off by a blank. -/
theorem head?_operandText (i : Instruction) : ∀ c ∈ i.operandText.toList.head?, c = ' ' := by
  cases i <;> simp [operandText]

theorem takeWhile_text (i : Instruction) :
    i.text.toList.takeWhile Char.isAlpha = i.opcode.mnemonic.toList := by
  rw [text, String.toList_append]
  apply Text.takeWhile_append_of_head
  · intro c hc
    exact isAlpha_of_mem_mnemonic hc
  · intro c hc
    rw [head?_operandText i c hc]
    rfl

/-- **The text of an instruction determines it.** -/
theorem text_injective : Function.Injective text := by
  intro i i' h
  have hmnemonic : i.opcode.mnemonic.toList = i'.opcode.mnemonic.toList := by
    rw [← takeWhile_text, ← takeWhile_text, h]
  have ho : i.opcode = i'.opcode :=
    Opcode.mnemonic_injective (String.toList_inj.1 hmnemonic)
  rw [text, text, ho, String.append_right_inj] at h
  exact eq_of_operandText ho h

theorem lineFeed_notMem_text (i : Instruction) : '\n' ∉ i.text.toList := by
  have hname : ∀ a, '\n' ∉ (registerName a).toList := fun a hmem =>
    absurd (isAlphanum_of_mem_registerName hmem) (by decide)
  have hvalue : ∀ n, '\n' ∉ (Numeral.decimal n).toList := fun n hmem =>
    absurd (Numeral.isAlphanum_of_mem_decimal hmem) (by decide)
  have hmnemonic : '\n' ∉ i.opcode.mnemonic.toList := notMem_mnemonic rfl _
  have hoperands : '\n' ∉ i.operandText.toList := by
    cases i <;> simp [operandText, hname, hvalue]
  rw [text, String.toList_append, List.mem_append]
  exact fun hmem => hmem.elim hmnemonic hoperands

end Instruction

/-! ## The text of a line -/

namespace Listing

/-- The kinds of lines, as their first characters tell them apart. -/
def kind (text : String) : Nat :=
  match text.toList.head? with
  | some '.' => 1
  | some '<' => 2
  | _ => 0

theorem kind_text (c : Content) : kind c.text = match c with
    | .instruction _ => 0
    | .data _ => 1
    | .truncated _ => 2 := by
  cases c with
  | instruction i =>
    rw [Content.text, Instruction.text, kind, String.toList_append]
    cases i.opcode <;> rfl
  | data byte =>
    rw [Content.text, kind, String.toList_append]
    rfl
  | truncated o => cases o <;> rfl

/-- What is written determines what is shown. -/
theorem Content.text_injective : Function.Injective Content.text := by
  intro c c' h
  have hkind := congrArg kind h
  rw [kind_text, kind_text] at hkind
  cases c with
  | instruction i =>
    cases c' with
    | instruction i' => exact congrArg Content.instruction (Instruction.text_injective h)
    | data _ | truncated _ => cases hkind
  | data byte =>
    cases c' with
    | data byte' =>
      have hbyte : Numeral.binaryByte byte = Numeral.binaryByte byte' :=
        (String.append_right_inj _).1 h
      exact congrArg Content.data (Numeral.binaryByte_injective hbyte)
    | instruction _ | truncated _ => cases hkind
  | truncated o =>
    cases c' with
    | truncated o' =>
      have hmnemonic : o.mnemonic = o'.mnemonic :=
        (String.append_right_inj _).1 ((String.append_left_inj _).1 h)
      exact congrArg Content.truncated (Opcode.mnemonic_injective hmnemonic)
    | instruction _ | data _ => cases hkind

/-- **A line of a listing determines its address and what it shows.** -/
theorem Line.text_injective : Function.Injective Line.text := by
  rintro ⟨a, c⟩ ⟨a', c'⟩ h
  have hblank : ∀ n, ' ' ∉ (Numeral.hexUpper n).toList := fun n hmem =>
    absurd (Numeral.isAlphanum_of_mem_hexUpper hmem) (by decide)
  -- the first of the two blanks is where the address ends
  have hchars : (Numeral.hexUpper a).toList ++ ' ' :: ' ' :: c.text.toList =
      (Numeral.hexUpper a').toList ++ ' ' :: ' ' :: c'.text.toList := by
    simpa [Line.text] using congrArg String.toList h
  obtain ⟨haddress, hcontent⟩ := Text.append_separator_inj (hblank a) (hblank a') hchars
  have ha : a = a' := Numeral.hexUpper_injective (String.toList_inj.1 haddress)
  have hc : c = c' :=
    Content.text_injective (String.toList_inj.1 (List.tail_eq_of_cons_eq hcontent))
  rw [ha, hc]

theorem lineFeed_notMem_text (line : Line) : '\n' ∉ line.text.toList := by
  have haddress : '\n' ∉ (Numeral.hexUpper line.address).toList := fun hmem =>
    absurd (Numeral.isAlphanum_of_mem_hexUpper hmem) (by decide)
  have hmnemonic : ∀ o : Opcode, '\n' ∉ o.mnemonic.toList := Instruction.notMem_mnemonic rfl
  have hbyte : ∀ byte, '\n' ∉ (Numeral.binaryByte byte).toList := fun byte hmem =>
    absurd (Numeral.isAlphanum_of_mem_binaryByte hmem) (by decide)
  have hcontent : '\n' ∉ line.content.text.toList := by
    cases line.content with
    | instruction i => exact Instruction.lineFeed_notMem_text i
    | data byte => simp [Content.text, hbyte]
    | truncated o => simp [Content.text, hmnemonic]
  simp [Line.text, haddress, hcontent]

end Listing

/-! ## The lines of a listing -/

/-- The lines of a listing, read from its text. -/
def Image.listed (image : Image) : List String :=
  (Text.lines image.listing.toList).map String.ofList

namespace Image

open Listing

variable {image : Image} {line : Line} {a : Nat} {c : Content} {o : Opcode}

/-- The text of a listing has the lines that it was made of. -/
theorem listed_eq (image : Image) : image.listed = (lines 0 image.bytes).map Line.text := by
  have htext : image.listing.toList =
      ((lines 0 image.bytes).map (·.text.toList)).flatMap (· ++ ['\n']) := by
    rw [listing, String.toList_join, List.flatMap_map, List.flatMap_map]
    exact List.flatMap_congr fun line _ => String.toList_append
  have hwritten : ∀ l ∈ (lines 0 image.bytes).map (·.text.toList), '\n' ∉ l := by
    intro l hl
    obtain ⟨line, -, rfl⟩ := List.mem_map.1 hl
    exact lineFeed_notMem_text line
  rw [listed, htext, Text.lines_flatMap hwritten, List.map_map]
  exact List.map_congr_left fun line _ => String.ofList_toList

theorem text_mem_listed : line.text ∈ image.listed ↔ line ∈ lines 0 image.bytes := by
  rw [listed_eq, List.mem_map_of_injective Line.text_injective]

/-- Equal listings have equal lines. -/
theorem lines_eq_of_listing_eq {image' : Image} (h : image.listing = image'.listing) :
    lines 0 image.bytes = lines 0 image'.bytes := by
  have hlisted : image.listed = image'.listed := by rw [listed, listed, h]
  rw [listed_eq, listed_eq] at hlisted
  exact (List.map_injective_iff.2 Line.text_injective) hlisted

end Image

end LS8
