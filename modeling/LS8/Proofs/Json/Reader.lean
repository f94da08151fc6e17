import LS8.Text.Json
import LS8.Text.Numeral

/-!
# Reading JSON

`Json.read` reads a JSON text, as any consumer of a report would: all kinds of values, blanks
where they are allowed, and strings with every kind of escape, also a character written as two
surrogates. It knows nothing of how reports are written.

A reader takes what it reads off the front of a text and leaves the rest. Nothing comes from a
text that is not JSON: no comma may be left over, no number starts with a needless zero, a
character below U+0020 has to be escaped, and only blanks may follow.
-/

namespace LS8.Json

/-- What a JSON text says. -/
inductive Document where
  | null
  | boolean (b : Bool)
  /-- The number `coefficient * 10 ^ exponent`. -/
  | number (coefficient exponent : Int)
  | string (s : String)
  | array (items : List Document)
  /-- The members in the order of the text; a key may occur more than once. -/
  | object (members : List (String × Document))

/-- Reads something off the front of a text; the rest is left. -/
abbrev Reader (α : Type) : Type := List Char → Option (α × List Char)

/-- The four blanks of JSON. -/
def isSpace (c : Char) : Bool :=
  c == ' ' || c == '\t' || c == '\n' || c == '\r'

/-- The text behind the blanks in front. -/
def skip (text : List Char) : List Char :=
  text.dropWhile isSpace

/-! ## Strings -/

/-- A piece of a string: a character, or a unit of UTF-16 behind the mark `\u`. -/
inductive Piece where
  | char (c : Char)
  | unit (n : Nat)

/-- The value of a digit in base sixteen, small or capital. -/
def hexDigit? (c : Char) : Option Nat :=
  if c.isDigit then some (c.toNat - '0'.toNat)
  else if 'a' ≤ c ∧ c ≤ 'f' then some (c.toNat - 'a'.toNat + 10)
  else if 'A' ≤ c ∧ c ≤ 'F' then some (c.toNat - 'A'.toNat + 10)
  else none

/-- What a character behind a backslash stands for, `u` apart. -/
def escaped? (c : Char) : Option Char :=
  if c = '\x22' ∨ c = '\\' ∨ c = '/' then some c
  else if c = 'b' then some '\x08'
  else if c = 'f' then some '\x0c'
  else if c = 'n' then some '\n'
  else if c = 'r' then some '\r'
  else if c = 't' then some '\t'
  else none

/-- The pieces of a string up to the quotation mark at its end. -/
def pieces : Reader (List Piece)
  | [] => none
  | '\\' :: 'u' :: a :: b :: c :: d :: rest => do
    let a ← hexDigit? a
    let b ← hexDigit? b
    let c ← hexDigit? c
    let d ← hexDigit? d
    let (more, rest) ← pieces rest
    return (.unit (((a * 16 + b) * 16 + c) * 16 + d) :: more, rest)
  | '\\' :: c :: rest => do
    let c ← escaped? c
    let (more, rest) ← pieces rest
    return (.char c :: more, rest)
  | c :: rest =>
    if c = '\x22' then some ([], rest)
    else if c = '\\' ∨ c.toNat < 0x20 then none
    else do
      let (more, rest) ← pieces rest
      return (.char c :: more, rest)

/-- The first of two surrogates. -/
def isHigh (n : Nat) : Bool :=
  0xD800 ≤ n && n < 0xDC00

/-- The second of two surrogates. -/
def isLow (n : Nat) : Bool :=
  0xDC00 ≤ n && n < 0xE000

/-- The characters of pieces. A surrogate is none without the other one. -/
def assemble : List Piece → Option (List Char)
  | [] => some []
  | .char c :: more => (assemble more).map (c :: ·)
  | .unit high :: .unit low :: more =>
    if isHigh high then
      if isLow low then
        (assemble more).map (Char.ofNat (0x10000 + (high - 0xD800) * 0x400 + (low - 0xDC00)) :: ·)
      else none
    else if isLow high then none
    else (assemble (.unit low :: more)).map (Char.ofNat high :: ·)
  | .unit n :: more =>
    if isHigh n || isLow n then none else (assemble more).map (Char.ofNat n :: ·)

/-- A string, behind the quotation mark in front of it. -/
def stringBody : Reader String := fun text => do
  let (parts, rest) ← pieces text
  let chars ← assemble parts
  return (String.ofList chars, rest)

/-! ## Numbers -/

/-- A run of digits, at least one. -/
def digits : Reader (List Char) := fun text =>
  let run := text.takeWhile Char.isDigit
  if run = [] then none else some (run, text.dropWhile Char.isDigit)

/-- The digits of a fraction, if there is one. -/
def fraction : Reader (List Char)
  | '.' :: rest => digits rest
  | text => some ([], text)

/-- A minus sign, if there is one. -/
def minus : List Char → Bool × List Char
  | '-' :: rest => (true, rest)
  | text => (false, text)

/-- A number with the sign that stands in front of it. -/
def signed (negative : Bool) (n : Nat) : Int :=
  if negative then -n else n

/-- An exponent, if there is one. -/
def exponent : Reader Int
  | [] => some (0, [])
  | c :: rest =>
    if c = 'e' ∨ c = 'E' then do
      let (negative, rest) := match rest with
        | '+' :: rest => (false, rest)
        | rest => minus rest
      let (run, rest) ← digits rest
      return (signed negative (Nat.ofDigitChars 10 run 0), rest)
    else some (0, c :: rest)

/-- A number. Only the number zero starts with a zero. -/
def number : Reader Document := fun text => do
  let (negative, text) := minus text
  let (whole, text) ← digits text
  if whole.head? = some '0' ∧ whole.length ≠ 1 then none
  let (part, text) ← fraction text
  let (shift, text) ← exponent text
  return (.number (signed negative (Nat.ofDigitChars 10 (whole ++ part) 0)) (shift - part.length),
    text)

/-! ## Values -/

section Items

variable {α : Type} (close : Char) (item : Reader α)

/-- At most `n` items with commas between them, up to the mark that closes them. -/
def itemsFor : Nat → Reader (List α)
  | 0, _ => none
  | n + 1, text => do
    let (first, text) ← item text
    match skip text with
    | [] => none
    | c :: rest =>
      if c = close then return ([first], rest)
      else if c = ',' then do
        let (others, rest) ← itemsFor n rest
        return (first :: others, rest)
      else none

/-- Items with commas between them, or none, up to the mark that closes them. -/
def items : Reader (List α) := fun text =>
  match skip text with
  | [] => none
  | c :: rest =>
    -- every item takes something of the text
    if c = close then some ([], rest) else itemsFor close item text.length text

end Items

/-- A member of an object: its key and its value. -/
def member (value : Reader Document) : Reader (String × Document) := fun text =>
  match skip text with
  | '\x22' :: rest => do
    let (key, rest) ← stringBody rest
    match skip rest with
    | ':' :: rest => do
      let (d, rest) ← value rest
      return ((key, d), rest)
    | _ => none
  | _ => none

/-- One of the three values that are words. -/
def word : Reader Document
  | 'n' :: 'u' :: 'l' :: 'l' :: rest => some (.null, rest)
  | 't' :: 'r' :: 'u' :: 'e' :: rest => some (.boolean true, rest)
  | 'f' :: 'a' :: 'l' :: 's' :: 'e' :: rest => some (.boolean false, rest)
  | _ => none

/-- A value that is nested less than `depth` deep. -/
def value : Nat → Reader Document
  | 0, _ => none
  | depth + 1, text =>
    match skip text with
    | [] => none
    | c :: rest =>
      if c = '\x22' then do
        let (s, rest) ← stringBody rest
        return (.string s, rest)
      else if c = '[' then do
        let (elements, rest) ← items ']' (value depth) rest
        return (.array elements, rest)
      else if c = '\x7b' then do
        let (members, rest) ← items '\x7d' (member (value depth)) rest
        return (.object members, rest)
      else if c = '-' ∨ c.isDigit then number (c :: rest)
      else word (c :: rest)

/-- What a text says, if it is a JSON text. -/
def read (text : String) : Option Document := do
  -- nothing is nested deeper than the text is long
  let (d, rest) ← value text.length text.toList
  if skip rest = [] then return d else none

/-- Blanks, escapes and numbers of all kinds. -/
example : read " [ -1.50e+2 , \"\\u00e9\\uD83D\\ude00\\/\" , null , [ ] ]\n" =
    some (.array [.number (-150) 0, .string "é😀/", .null, .array []]) :=
  rfl

/-- No needless zero, no comma in excess, no line feed in a string, no surrogate alone. -/
example : (["01", "[1,]", "\"a\nb\"", "\"\\uD83D!\"", "1 2", ""].all fun text =>
    (read text).isNone) = true := by
  decide

end LS8.Json
