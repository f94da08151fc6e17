/-!
# Texts as bytes

`Utf8.encode` gives the bytes of a text. The way back has more to it: captured
output is a string of bytes that may end, or be broken, in the middle of a
character. `Utf8.decodeLossy` reads it as text all the same: every well-formed
sequence is its character, and every longest start of one that is not continued,
like every byte that cannot start one, is a single U+FFFD.

The reader is a machine over single bytes (`Utf8.accept`), so the text of a
string of bytes does not depend on how the bytes arrived.
-/

namespace LS8.Utf8

/-- The bytes of a text. -/
def encode (text : String) : List UInt8 :=
  text.toUTF8.data.toList

/-- The mark that stands for an ill-formed sequence. -/
def replacement : Char := Char.ofNat 0xFFFD

/-- A sequence that has begun: the bits read so far, how many bytes are still to
come, and the range in which the next one has to lie. -/
structure Partial where
  bits : Nat
  missing : Nat
  low : UInt8
  high : UInt8
deriving DecidableEq, Repr

/-- What a byte starts. The narrower ranges after `E0`, `ED`, `F0` and `F4` keep
out longer spellings, surrogates and numbers beyond U+10FFFF; `C0`, `C1` and
the bytes from `F5` start nothing. -/
def Partial.start? (b : UInt8) : Option Partial :=
  if 0xC2 ≤ b ∧ b ≤ 0xDF then some ⟨b.toNat - 0xC0, 1, 0x80, 0xBF⟩
  else if b = 0xE0 then some ⟨0, 2, 0xA0, 0xBF⟩
  else if b = 0xED then some ⟨0xD, 2, 0x80, 0x9F⟩
  else if 0xE1 ≤ b ∧ b ≤ 0xEF then some ⟨b.toNat - 0xE0, 2, 0x80, 0xBF⟩
  else if b = 0xF0 then some ⟨0, 3, 0x90, 0xBF⟩
  else if 0xF1 ≤ b ∧ b ≤ 0xF3 then some ⟨b.toNat - 0xF0, 3, 0x80, 0xBF⟩
  else if b = 0xF4 then some ⟨4, 3, 0x80, 0x8F⟩
  else none

/-- A byte where a character may begin: the characters it completes and the
sequence it leaves open. -/
def opening (b : UInt8) : List Char × Option Partial :=
  if b < 0x80 then ([Char.ofNat b.toNat], none)
  else match Partial.start? b with
    | some p => ([], some p)
    | none => ([replacement], none)

/-- One byte more. A byte outside the expected range ends the open sequence,
which is then replaced, and is read again as a beginning. -/
def accept : Option Partial → UInt8 → List Char × Option Partial
  | none, b => opening b
  | some p, b =>
    if p.low ≤ b ∧ b ≤ p.high then
      let bits := p.bits * 64 + (b.toNat - 0x80)
      if p.missing ≤ 1 then ([Char.ofNat bits], none)
      else ([], some ⟨bits, p.missing - 1, 0x80, 0xBF⟩)
    else
      let (chars, next) := opening b
      (replacement :: chars, next)

/-- The characters of `bytes`, read on from an open sequence. One that is still
open at the end is replaced. -/
def decodeFrom : Option Partial → List UInt8 → List Char
  | none, [] => []
  | some _, [] => [replacement]
  | open?, b :: rest => (accept open? b).1 ++ decodeFrom (accept open? b).2 rest

/-- The text of a string of bytes, ill-formed parts replaced. -/
def decodeLossy (bytes : List UInt8) : String :=
  String.ofList (decodeFrom none bytes)

end LS8.Utf8
