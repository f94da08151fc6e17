import LS8.Image
import LS8.Instruction

/-!
# Listings

A listing shows an image as instructions, one line each, with the address in
front. `Listing.lines` divides the bytes into lines and `Listing.Line.text`
writes one; `Image.listing` is the whole text.

- A byte that is no opcode is a line of data, and the listing goes on behind it;
- an opcode whose operands run past the end of the image is shown as truncated
  and takes the rest of the image with it.
-/

namespace LS8.Listing

/-- What a line shows. -/
inductive Content where
  | instruction (i : Instruction)
  | data (byte : UInt8)
  | truncated (opcode : Opcode)
deriving DecidableEq, Repr

/-- A line: the address of its first byte and what it shows. -/
structure Line where
  address : Nat
  content : Content
deriving DecidableEq, Repr

/-- The written form of what a line shows. -/
def Content.text : Content → String
  | instruction i => i.text
  | data byte => ".byte " ++ Numeral.binaryByte byte
  | truncated opcode => "<truncated " ++ opcode.mnemonic ++ ">"

/-- A line as it is written, without the line feed. -/
def Line.text (line : Line) : String :=
  Numeral.hexUpper line.address ++ "  " ++ line.content.text

/-- The lines of the given bytes, the first of which has the given address. -/
def lines (address : Nat) : List UInt8 → List Line
  | [] => []
  | byte :: rest =>
    match Opcode.ofByte? byte with
    | none => ⟨address, .data byte⟩ :: lines (address + 1) rest
    | some o =>
      if rest.length < o.operandCount then
        [⟨address, .truncated o⟩]
      else
        let i := Instruction.ofParts o (rest.getD 0 0) (rest.getD 1 0)
        ⟨address, .instruction i⟩ :: lines (address + o.length) (rest.drop o.operandCount)
  termination_by bytes => bytes.length
  decreasing_by all_goals simp only [List.length_drop, List.length_cons]; omega

end LS8.Listing

namespace LS8

/-- The listing of an image; every line ends in a line feed. -/
def Image.listing (image : Image) : String :=
  String.join ((Listing.lines 0 image.bytes).map fun line => line.text ++ "\n")

end LS8
