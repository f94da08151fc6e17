/-!
# JSON texts

The error report can be one line of JSON. `Json.string` writes a text as a JSON
string and `Json.object` writes an object without any blanks.

Only what JSON forbids in a string is escaped: the quotation mark, the
backslash and the characters below U+0020. All else, ASCII or not, stands for
itself, so no written string contains a line feed.
-/

namespace LS8.Json

/-- One character within a JSON string. -/
def escape (c : Char) : List Char :=
  if c = '\x22' then ['\\', '\x22']
  else if c = '\\' then ['\\', '\\']
  else if c = '\n' then ['\\', 'n']
  else if c = '\r' then ['\\', 'r']
  else if c = '\t' then ['\\', 't']
  else if c = '\x08' then ['\\', 'b']
  else if c = '\x0c' then ['\\', 'f']
  else if c.toNat < 0x20 then
    ['\\', 'u', '0', '0', Nat.digitChar (c.toNat / 16), Nat.digitChar (c.toNat % 16)]
  else [c]

/-- No character of an escape is a line feed. -/
theorem ne_lineFeed_of_mem_escape {c d : Char} (h : d ∈ escape c) : d ≠ '\n' := by
  rintro rfl
  unfold escape at h
  repeat' split at h
  all_goals simp only [List.mem_cons, List.not_mem_nil, or_false] at h
  all_goals simp_all [eq_comm]

/-- A text as a JSON string, quotation marks included. -/
def string (text : String) : String :=
  String.ofList ('\x22' :: text.toList.flatMap escape ++ ['\x22'])

/-- What a field of a report may hold. -/
inductive Value where
  | text (s : String)
  | number (n : Nat)
deriving DecidableEq, Repr

/-- The written form of a field's value. -/
def Value.render : Value → String
  | .text s => string s
  | .number n => String.ofList (Nat.toDigits 10 n)

/-- An object with the given fields, in the given order. -/
def object (fields : List (String × Value)) : String :=
  let members := fields.map fun field => string field.1 ++ ":" ++ field.2.render
  "\x7b" ++ String.intercalate "," members ++ "\x7d"

end LS8.Json
