import LS8.Toml.Item

/-!
# Blanks, keys and strings of TOML

The smallest parts of a document. A reader takes the characters that are left and
gives what it has read with the characters behind it, or nothing if they do not
begin with what it reads.

- `Toml.lineEnd?` reads the rest of a line behind an expression;
- `Toml.skipTrivia` passes over blanks, comments and line ends within an array;
- `Toml.keyPath?` reads a key, which may be dotted;
- `Toml.string?` reads the four kinds of strings.
-/

namespace LS8.Toml

/-- What reads a value from the front of a text. -/
abbrev Reader (α : Type) := List Char → Option (α × List Char)

/-- The quotation mark of basic strings. -/
def quote : Char := '\x22'

/-- The apostrophe of literal strings. -/
def apostrophe : Char := '\x27'

/-! ## Blanks, comments and line ends -/

/-- The blanks within a line. -/
def isSpace (c : Char) : Bool := c == ' ' || c == '\t'

/-- The text behind the blanks in front. -/
def skipSpace (text : List Char) : List Char := text.dropWhile isSpace

/-- A character that may stand in a comment and, quotation marks apart, in a
string: a tab or any character that is no ASCII control. -/
def isPlain (c : Char) : Bool := c == '\t' || (0x20 ≤ c.toNat && c.toNat != 0x7F)

/-- The text behind a line end: a line feed, or a carriage return with a line feed. -/
def newline? : List Char → Option (List Char)
  | '\n' :: rest => some rest
  | '\r' :: '\n' :: rest => some rest
  | _ => none

/-- The text behind a comment, if there is one in front. -/
def skipComment : List Char → List Char
  | '#' :: rest => rest.dropWhile isPlain
  | text => text

/-- The text behind the end of the line, before which blanks and a comment may
stand. The end of the text ends a line, too. -/
def lineEnd? (text : List Char) : Option (List Char) :=
  match skipComment (skipSpace text) with
  | [] => some []
  | rest => newline? rest

/-- Passes over blanks, line ends and comments, the flag telling whether a comment
is open. A comment can only be ended by a line end. -/
def skipTriviaFrom : Bool → List Char → List Char
  | _, [] => []
  | inComment, c :: rest =>
    if c = '\n' ∨ (c = '\r' ∧ rest.head? = some '\n') then skipTriviaFrom false rest
    else if inComment then
      if isPlain c then skipTriviaFrom true rest else c :: rest
    else if isSpace c then skipTriviaFrom false rest
    else if c = '#' then skipTriviaFrom true rest
    else c :: rest

/-- The text behind blanks, line ends and comments. -/
def skipTrivia (text : List Char) : List Char := skipTriviaFrom false text

/-! ## Strings -/

/-- A hexadecimal digit. -/
def isHexDigit (c : Char) : Bool :=
  c.isDigit || ('a' ≤ c && c ≤ 'f') || ('A' ≤ c && c ≤ 'F')

/-- The value of a hexadecimal digit. -/
def digitValue (c : Char) : Nat :=
  if c.isDigit then c.toNat - 0x30
  else if 'a' ≤ c then c.toNat - 0x61 + 10
  else c.toNat - 0x41 + 10

/-- The value of digits in base `base`, at most sixteen. -/
def ofDigits (base : Nat) (digits : List Char) : Nat :=
  digits.foldl (fun sofar c => sofar * base + digitValue c) 0

/-- The character of the code point that `count` hexadecimal digits in front name;
surrogates and numbers beyond the last code point name none. -/
def codePoint? (count : Nat) (text : List Char) : Option (Char × List Char) :=
  let digits := text.take count
  let n := ofDigits 16 digits
  if digits.length = count ∧ digits.all isHexDigit ∧ n.isValidChar then
    some (Char.ofNat n, text.drop count)
  else none

/-- The character that an escape denotes, the backslash having been read. -/
def escape? : Reader Char
  | [] => none
  | c :: rest =>
    if c = 'u' then codePoint? 4 rest
    else if c = 'U' then codePoint? 8 rest
    else if c = 'b' then some ('\x08', rest)
    else if c = 't' then some ('\t', rest)
    else if c = 'n' then some ('\n', rest)
    else if c = 'f' then some ('\x0c', rest)
    else if c = 'r' then some ('\r', rest)
    else if c = quote ∨ c = '\\' then some (c, rest)
    else none

/-- The rest of a basic string on one line, the opening mark having been read. Each
round reads at least one character, so `fuel` may be the length of the text. -/
def basicBody? (fuel : Nat) (text : List Char) : Option (List Char × List Char) :=
  match fuel, text with
  | 0, _ | _, [] => none
  | fuel + 1, c :: rest =>
    if c = quote then some ([], rest)
    else if c = '\\' then do
      let (x, rest) ← escape? rest
      let (body, rest) ← basicBody? fuel rest
      some (x :: body, rest)
    else if isPlain c then do
      let (body, rest) ← basicBody? fuel rest
      some (c :: body, rest)
    else none

/-- The rest of a literal string on one line, the opening mark having been read. -/
def literalBody? (text : List Char) : Option (List Char × List Char) :=
  match text.span (fun c => isPlain c && c != apostrophe) with
  | (body, c :: rest) => if c = apostrophe then some (body, rest) else none
  | (_, []) => none

/-- The text behind the blanks and line ends in front. A carriage return without its
line feed is neither. -/
def skipLines : List Char → List Char
  | [] => []
  | '\r' :: '\n' :: rest => skipLines rest
  | c :: rest => if isSpace c || c == '\n' then skipLines rest else c :: rest

/-- The text behind the blanks and line ends that follow a backslash at the end of
a line; nothing if the line goes on behind the backslash. -/
def continuation? (text : List Char) : Option (List Char) := do
  let rest ← newline? (skipSpace text)
  some (skipLines rest)

/-- The rest of a string over several lines, the three opening marks having been
read. Three marks end it, before which up to two more may stand as text. -/
def multilineBody? (mark : Char) (escapes : Bool) (fuel : Nat) (text : List Char) :
    Option (List Char × List Char) :=
  match fuel, text with
  | 0, _ | _, [] => none
  | fuel + 1, c :: rest =>
    let marks := text.takeWhile (· == mark)
    -- of a run of marks the last three end the string, if two at most stand before them
    if 3 ≤ marks.length then
      some (marks.take (min (marks.length - 3) 2), text.drop (min marks.length 5))
    else if escapes && c == '\\' then
      match continuation? rest with
      | some rest => multilineBody? mark escapes fuel rest
      | none => do
        let (x, rest) ← escape? rest
        let (body, rest) ← multilineBody? mark escapes fuel rest
        some (x :: body, rest)
    else match newline? text with
      | some rest => do
        let (body, rest) ← multilineBody? mark escapes fuel rest
        some ('\n' :: body, rest)
      | none =>
        if isPlain c then do
          let (body, rest) ← multilineBody? mark escapes fuel rest
          some (c :: body, rest)
        else none

/-- A string of any kind. A line end right behind three opening marks is not part
of the string. -/
def string? : Reader (List Char)
  | [] => none
  | c :: rest =>
    if c = quote ∨ c = apostrophe then
      if rest.take 2 = [c, c] then
        let body := rest.drop 2
        let body := (newline? body).getD body
        multilineBody? c (c == quote) (body.length + 1) body
      else if c = quote then basicBody? (rest.length + 1) rest
      else literalBody? rest
    else none

/-! ## Keys -/

/-- A character of a key without quotation marks. -/
def isBare (c : Char) : Bool := c.isAlphanum || c == '_' || c == '-'

/-- One part of a key. -/
def simpleKey? : Reader Key
  | [] => none
  | c :: rest =>
    if c = quote then basicBody? (rest.length + 1) rest
    else if c = apostrophe then literalBody? rest
    else
      match (c :: rest).span isBare with
      | ([], _) => none
      | (key, rest) => some (key, rest)

/-- The parts of a key from here on, blanks being allowed round each. -/
def keyPathFrom? (fuel : Nat) (text : List Char) : Option (List Key × List Char) :=
  match fuel with
  | 0 => none
  | fuel + 1 => do
    let (key, rest) ← simpleKey? (skipSpace text)
    match skipSpace rest with
    | '.' :: rest => do
      let (more, rest) ← keyPathFrom? fuel rest
      some (key :: more, rest)
    | rest => some ([key], rest)

/-- How deep arrays, tables in braces and dotted keys may reach: below this many
levels. -/
def depthLimit : Nat := 80

/-- A key, which may be dotted, and the blanks behind it. -/
def keyPath? : Reader (List Key) := fun text => do
  let (path, rest) ← keyPathFrom? (text.length + 1) text
  if path.length < depthLimit then some (path, rest) else none

end LS8.Toml
