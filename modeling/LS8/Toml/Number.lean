import LS8.Toml.Lexical

/-!
# Numbers, dates and times of TOML

- `Toml.integer?`: decimal, hexadecimal, octal and binary integers of 64 bits,
  digits separated by single underscores;
- `Toml.float?`: floating-point numbers, infinities and not-a-number, of which
  only the form matters here. A number that rounds to positive infinity is refused,
  one that rounds to negative infinity is not;
- `Toml.moment?`: dates, times and both together.
-/

namespace LS8.Toml

/-! ## Integers -/

/-- Further digits, each of which may follow one underscore. -/
def digitTail (isDigit : Char → Bool) : List Char → List Char × List Char
  | [] => ([], [])
  | '_' :: d :: rest =>
    if isDigit d then
      let (digits, rest) := digitTail isDigit rest
      (d :: digits, rest)
    else ([], '_' :: d :: rest)
  | c :: rest =>
    if isDigit c then
      let (digits, rest) := digitTail isDigit rest
      (c :: digits, rest)
    else ([], c :: rest)

/-- A run of digits, at least one. The underscores are not kept. -/
def digits? (isDigit : Char → Bool) : Reader (List Char)
  | [] => none
  | c :: rest =>
    if isDigit c then
      let (digits, rest) := digitTail isDigit rest
      some (c :: digits, rest)
    else none

/-- A run of decimal digits without a leading zero, or a zero alone. -/
def unsigned? : Reader (List Char)
  | '0' :: rest => some (['0'], rest)
  | text => digits? Char.isDigit text

/-- An optional sign; the flag tells whether it is a minus. -/
def sign : List Char → Bool × List Char
  | '-' :: rest => (true, rest)
  | '+' :: rest => (false, rest)
  | text => (false, text)

/-- Whether a number is an integer of 64 bits. -/
def inRange (n : Int) : Bool := -(Int.pow 2 63) ≤ n && n < Int.pow 2 63

/-- An integer in base `base`, the mark of the base having been read. -/
def based? (base : Nat) (isDigit : Char → Bool) (text : List Char) :
    Option (Int × List Char) := do
  let (digits, rest) ← digits? isDigit text
  let n := ofDigits base digits
  if inRange n then some (n, rest) else none

/-- A decimal integer. -/
def decimal? (text : List Char) : Option (Int × List Char) := do
  let (negative, rest) := sign text
  let (digits, rest) ← unsigned? rest
  let n : Int := Nat.ofDigitChars 10 digits 0
  let n := if negative then -n else n
  if inRange n then some (n, rest) else none

/-- An integer. -/
def integer? : Reader Int
  | '0' :: 'x' :: rest => based? 16 isHexDigit rest
  | '0' :: 'o' :: rest => based? 8 (fun c => '0' ≤ c && c ≤ '7') rest
  | '0' :: 'b' :: rest => based? 2 (fun c => c == '0' || c == '1') rest
  | text => decimal? text

/-! ## Floating-point numbers -/

/-- The digits behind a decimal point, the point included. -/
def fraction? : Reader (List Char)
  | '.' :: rest => digits? Char.isDigit rest
  | _ => none

/-- An exponent. -/
def exponent? : Reader Int
  | c :: rest =>
    if c = 'e' ∨ c = 'E' then do
      let (negative, rest) := sign rest
      let (digits, rest) ← digits? Char.isDigit rest
      let n : Int := Nat.ofDigitChars 10 digits 0
      some (if negative then -n else n, rest)
    else none
  | [] => none

/-- Whether `digits · 10 ^ exponent` rounds to infinity in double precision, that is,
reaches the middle between the largest finite number and the next power of two. -/
def overflows (digits : Nat) (exponent : Int) : Bool :=
  let limit := Nat.pow 2 1024 - Nat.pow 2 970
  if digits = 0 then false
  else match exponent with
    -- with an exponent above 400 even the digit one is too large
    | .ofNat e => 400 < e || limit ≤ digits * Nat.pow 10 e
    -- the quotient is zero as soon as the power exceeds the digits
    | .negSucc e => limit ≤ digits / Nat.pow 10 (min (e + 1) (digits.log2 + 1))

/-- The text behind infinity or not-a-number, with an optional sign. -/
def special? (text : List Char) : Option (List Char) :=
  match (sign text).2 with
  | 'i' :: 'n' :: 'f' :: rest => some rest
  | 'n' :: 'a' :: 'n' :: rest => some rest
  | _ => none

/-- The text behind a number with a fraction, an exponent, or both. -/
def finite? (text : List Char) : Option (List Char) := do
  let (negative, rest) := sign text
  let (whole, rest) ← unsigned? rest
  let (fraction, behind) := (fraction? rest).getD ([], rest)
  -- without a fraction and without an exponent it is an integer
  let (exponent, behind) ← match exponent? behind with
    | some found => some found
    | none => if fraction = [] then none else some (0, behind)
  let digits := Nat.ofDigitChars 10 (whole ++ fraction) 0
  if !negative && overflows digits (exponent - fraction.length) then none
  else some behind

/-- The text behind a floating-point number. -/
def float? (text : List Char) : Option (List Char) :=
  (finite? text).orElse fun _ => special? text

/-! ## Dates and times -/

/-- A number of exactly `count` digits that lies between two bounds. -/
def field? (count low high : Nat) (text : List Char) : Option (Nat × List Char) :=
  let digits := text.take count
  let n := Nat.ofDigitChars 10 digits 0
  if digits.length = count ∧ digits.all Char.isDigit ∧ low ≤ n ∧ n ≤ high then
    some (n, text.drop count)
  else none

/-- The text behind a character that has to stand in front. -/
def expect? (c : Char) : List Char → Option (List Char)
  | d :: rest => if d = c then some rest else none
  | [] => none

/-- The number of days of a month. -/
def daysIn (year month : Nat) : Nat :=
  if month = 2 then
    if year % 4 = 0 ∧ (year % 100 ≠ 0 ∨ year % 400 = 0) then 29 else 28
  else if month = 4 ∨ month = 6 ∨ month = 9 ∨ month = 11 then 30
  else 31

/-- The text behind a date. -/
def date? (text : List Char) : Option (List Char) := do
  let (year, rest) ← field? 4 0 9999 text
  let rest ← expect? '-' rest
  let (month, rest) ← field? 2 1 12 rest
  let rest ← expect? '-' rest
  let (_, rest) ← field? 2 1 (daysIn year month) rest
  some rest

/-- The text behind a time of the day. -/
def time? (text : List Char) : Option (List Char) := do
  let (_, rest) ← field? 2 0 23 text
  let rest ← expect? ':' rest
  let (_, rest) ← field? 2 0 59 rest
  let rest ← expect? ':' rest
  let (_, rest) ← field? 2 0 60 rest
  match rest with
  -- a point without a digit behind it is left for what follows
  | '.' :: d :: more => some (if d.isDigit then more.dropWhile Char.isDigit else rest)
  | _ => some rest

/-- The text behind an offset from universal time. -/
def offset? : List Char → Option (List Char)
  | [] => none
  | c :: rest =>
    if c = 'Z' ∨ c = 'z' then some rest
    else if c = '+' ∨ c = '-' then do
      let (_, rest) ← field? 2 0 23 rest
      let rest ← expect? ':' rest
      let (_, rest) ← field? 2 0 59 rest
      some rest
    else none

/-- The text behind a time, with an optional offset, that follows a date. -/
def timeAfterDate? : List Char → Option (List Char)
  | [] => none
  | c :: rest =>
    if c = 'T' ∨ c = 't' ∨ c = ' ' then do
      let rest ← time? rest
      some ((offset? rest).getD rest)
    else none

/-- The text behind a date, a time, or a date with a time. -/
def moment? (text : List Char) : Option (List Char) :=
  match date? text with
  | some rest => some ((timeAfterDate? rest).getD rest)
  | none => time? text

end LS8.Toml
