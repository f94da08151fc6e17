import Mathlib.Data.List.Basic
import LS8.Machine
import LS8.Proofs.Text.Lines
import LS8.Proofs.Text.Numeral
import LS8.Proofs.Text.Utf8

/-!
# Numbers as text

A machine prints numbers as lines of bytes. What is read from them is the text of the numbers
(`Machine.decodeLossy_printedLines`), and the numbers are read back from the lines of their text
(`Machine.map_lines_printedText`).

`Machine.printedText` takes numbers without a bound, which are printed modulo 256, and
`Machine.transcript` takes bytes.
-/

namespace LS8.Machine

/-! ## The text that is printed -/

/-- The digits of a number modulo 256 and a line feed. -/
def lineChars (n : Nat) : List Char :=
  Nat.toDigits 10 (n % 256) ++ ['\n']

theorem printedLine_ofNat (n : Nat) :
    printedLine (UInt8.ofNat n) = (lineChars n).map fun c => UInt8.ofNat c.toNat := by
  rw [printedLine, UInt8.toNat_ofNat', lineChars]

theorem toNat_lt_of_mem_lineChars {n : Nat} {c : Char} (h : c ∈ lineChars n) : c.toNat < 128 := by
  rcases List.mem_append.1 h with hdigit | hfeed
  · have hd := Nat.isDigit_of_mem_toDigits (by omega) (by omega) hdigit
    have hle : c.toNat ≤ 57 := (Char.isDigit_iff_toNat.1 hd).2
    exact Nat.lt_of_le_of_lt hle (by decide)
  · rw [List.mem_singleton.1 hfeed]
    decide

/-- Numbers as they are printed: each modulo 256, in decimal, on a line of its own. -/
def printedText (xs : List Nat) : String :=
  String.join (xs.map fun n => Numeral.decimal (n % 256) ++ "\n")

theorem ofList_lineChars (xs : List Nat) :
    String.ofList (xs.flatMap lineChars) = printedText xs := by
  induction xs with
  | nil => rfl
  | cons n xs ih =>
    have hline : String.ofList (lineChars n) = Numeral.decimal (n % 256) ++ "\n" := by
      rw [lineChars, String.ofList_append, Numeral.decimal]
    rw [List.flatMap_cons, String.ofList_append, ih, hline, printedText, printedText, List.map_cons,
      String.join_cons]

/-- The printed lines are the bytes of the text. -/
theorem encode_printedText (xs : List Nat) :
    Utf8.encode (printedText xs) = xs.flatMap fun n => printedLine (UInt8.ofNat n) := by
  rw [← ofList_lineChars, Utf8.encode_ofList, List.flatMap_assoc]
  refine List.flatMap_congr fun n _ => ?_
  rw [printedLine_ofNat, List.map_eq_flatMap]
  exact List.flatMap_congr fun c hc => Utf8.encodeChar_of_ascii (toNat_lt_of_mem_lineChars hc)

/-- What the bytes of the printed lines are read as. -/
theorem decodeLossy_printedLines (xs : List Nat) :
    Utf8.decodeLossy (xs.flatMap fun n => printedLine (UInt8.ofNat n)) = printedText xs := by
  rw [← encode_printedText, Utf8.decodeLossy_encode]

/-! ## The numbers that are read back -/

/-- **The lines of the text** are the numbers. -/
theorem map_lines_printedText (xs : List Nat) :
    (Text.lines (printedText xs).toList).map Numeral.ofDecimal? =
      xs.map fun n => some (n % 256) := by
  have hlines : xs.flatMap lineChars =
      (xs.map fun n => Nat.toDigits 10 (n % 256)).flatMap (· ++ ['\n']) := by
    rw [List.flatMap_map]
    rfl
  have hfeed : ∀ line ∈ xs.map fun n => Nat.toDigits 10 (n % 256), '\n' ∉ line := by
    intro line hline
    obtain ⟨n, -, rfl⟩ := List.mem_map.1 hline
    exact Numeral.notMem_toDigits rfl _
  rw [← ofList_lineChars, String.toList_ofList, hlines, Text.lines_flatMap hfeed, List.map_map]
  exact List.map_congr_left fun n _ => Numeral.ofDecimal?_toDigits _

/-! ## Bytes -/

/-- Bytes as they are printed. -/
def transcript (values : List UInt8) : String :=
  String.join (values.map fun v => Numeral.decimal v.toNat ++ "\n")

theorem printedText_map_toNat (values : List UInt8) :
    printedText (values.map UInt8.toNat) = transcript values := by
  rw [printedText, List.map_map, transcript]
  refine congrArg String.join (List.map_congr_left fun v _ => ?_)
  show Numeral.decimal (v.toNat % 256) ++ "\n" = _
  rw [Nat.mod_eq_of_lt v.toNat_lt]

theorem transcript_append (values more : List UInt8) :
    transcript (values ++ more) = transcript values ++ transcript more := by
  simp only [← printedText_map_toNat, ← ofList_lineChars, List.map_append, List.flatMap_append,
    String.ofList_append]

theorem encode_transcript (values : List UInt8) :
    Utf8.encode (transcript values) = (values.map printedLine).flatten := by
  rw [← printedText_map_toNat, encode_printedText, List.flatMap_map, ← List.flatMap_def]
  exact List.flatMap_congr fun v _ => congrArg printedLine UInt8.ofNat_toNat

theorem map_lines_transcript (values : List UInt8) :
    (Text.lines (transcript values).toList).map Numeral.ofDecimal? =
      values.map fun v => some v.toNat := by
  rw [← printedText_map_toNat, map_lines_printedText, List.map_map]
  refine List.map_congr_left fun v _ => ?_
  show some (v.toNat % 256) = some v.toNat
  rw [Nat.mod_eq_of_lt v.toNat_lt]

end LS8.Machine
