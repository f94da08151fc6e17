import LS8.FileSystem
import LS8.Text.Numeral

/-!
# Program images

An image is a program as a list of bytes. As a text it has one byte a line,
written in binary. This one halts at once, and its second byte is five:

```
00000001 # HLT

     101 and a remark
# a line without a byte
```

Of each line only the token counts: the first run of characters without blanks
before the first `#`. Lines without a token are skipped. The first eight
characters of the token have to be binary digits and are the byte; what follows
them is ignored.
-/

namespace LS8

/-- A program, its first byte first. -/
structure Image where
  bytes : List UInt8
deriving DecidableEq, Repr, Inhabited

/-- Why there is no image. -/
inductive ImageError where
  | unreadable (path : Path) (failure : ReadFailure)
  | invalidByte (line : Nat) (token : String)
deriving DecidableEq, Repr

/-- The message of an error. -/
def ImageError.message : ImageError → String
  | unreadable path failure =>
    "failed to read program image " ++ path.text ++ ": " ++ failure.message
  | invalidByte line token =>
    "line " ++ Numeral.decimal line ++ ": '" ++ token ++ "' is not a binary byte"

namespace Image

/-- The number of binary digits that count. -/
def byteDigits : Nat := 8

/-- The token of a line; empty if the line has none. -/
def token (line : List Char) : List Char :=
  ((line.takeWhile (· != '#')).dropWhile Text.isBlank).takeWhile (!Text.isBlank ·)

/-- The byte that a token denotes, by its first eight characters. -/
def readByte? (token : List Char) : Option UInt8 :=
  let digits := token.take byteDigits
  if digits.all Numeral.isBit then some (UInt8.ofNat (Numeral.ofBits digits)) else none

/-- The bytes of consecutive lines, the first of which has the number `number`. The
first line with a bad token is the error. -/
def readLines (number : Nat) : List (List Char) → Except ImageError (List UInt8)
  | [] => .ok []
  | line :: rest =>
    if token line = [] then
      readLines (number + 1) rest
    else
      match readByte? (token line) with
      | none => .error (.invalidByte number (String.ofList (token line)))
      | some byte => (readLines (number + 1) rest).map (byte :: ·)

/-- The image that a text denotes. -/
def parse (text : String) : Except ImageError Image :=
  (readLines 1 (Text.lines text.toList)).map Image.mk

/-- The image in a file. -/
def ofFile (fs : FileSystem) (path : Path) : Except ImageError Image :=
  match fs.readText path with
  | .error failure => .error (.unreadable path failure)
  | .ok text => parse text

end Image

end LS8
