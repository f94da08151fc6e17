/-!
# Numerals

The written forms of numbers in the machine's texts, and the two readers that
take numbers back from text.

- `Numeral.decimal`, `Numeral.hexUpper`, `Numeral.hexAddress`, `Numeral.binaryByte`
  write a number in base ten, sixteen and two. Padding only ever adds leading
  zeros, so each of them keeps the number;
- `Numeral.ofBits` reads a run of binary digits;
- `Numeral.readWord64?` reads an unsigned decimal number below `2 ^ 64`, as the
  settings and the command line write it.
-/

namespace LS8.Numeral

/-- The digits of `n` in base `base`, filled up with leading zeros to at least
`width` digits. A longer numeral is never cut. -/
def padded (base width n : Nat) : List Char :=
  (Nat.toDigits base n).leftpad width '0'

/-! ## Writing -/

/-- Base ten, without padding. -/
def decimal (n : Nat) : String :=
  String.ofList (Nat.toDigits 10 n)

/-- Base sixteen in capitals, at least two digits: the column of a listing or
of a trace line. -/
def hexUpper (n : Nat) : String :=
  String.ofList ((padded 16 2 n).map Char.toUpper)

/-- Base sixteen with the mark `0x`, at least two digits: an address within a
message. -/
def hexAddress (n : Nat) : String :=
  "0x" ++ String.ofList (padded 16 2 n)

/-- Base two with the mark `0b`, always eight digits: a byte within a message. -/
def binaryByte (b : UInt8) : String :=
  "0b" ++ String.ofList (padded 2 8 b.toNat)

/-! ## Reading -/

/-- A binary digit. -/
def isBit (c : Char) : Bool :=
  c == '0' || c == '1'

/-- The number that a run of binary digits denotes, most significant first. -/
def ofBits (bits : List Char) : Nat :=
  Nat.ofDigitChars 2 bits 0

/-- The number that a non-empty run of ASCII decimal digits denotes. -/
def ofDecimal? (digits : List Char) : Option Nat :=
  if digits ≠ [] ∧ digits.all Char.isDigit then
    some (Nat.ofDigitChars 10 digits 0)
  else
    none

/-- An unsigned number below `2 ^ 64`: one optional plus sign, then digits only.
Leading zeros are welcome, blanks and minus signs are not. -/
def readWord64? (text : List Char) : Option Nat :=
  let digits := match text with
    | '+' :: rest => rest
    | rest => rest
  (ofDecimal? digits).filter (· < Nat.pow 2 64)

/-- A number in base ten reads back. -/
theorem ofDecimal?_toDigits (n : Nat) : ofDecimal? (Nat.toDigits 10 n) = some n := by
  have hd : (Nat.toDigits 10 n).all Char.isDigit = true :=
    List.all_eq_true.2 fun _ h => Nat.isDigit_of_mem_toDigits (by omega) (by omega) h
  simp [ofDecimal?, Nat.toDigits_ne_nil, hd]

end LS8.Numeral
