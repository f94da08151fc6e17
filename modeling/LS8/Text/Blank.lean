/-!
# Blanks and lines

- `Text.isBlank` is the Unicode property `White_Space`;
- `Text.trim` removes blanks at both ends;
- `Text.splitAt` cuts a text at every occurrence of a separator;
- `Text.lines` cuts a text into lines, a final line feed opening no new line.
-/

namespace LS8.Text

/-- The characters with the Unicode property `White_Space`: the ASCII controls
from tab to carriage return, the space, and the blanks beyond ASCII. A byte
order mark or a zero-width space is not among them. -/
def isBlank (c : Char) : Bool :=
  let n := c.toNat
  (0x09 ≤ n && n ≤ 0x0D) || n == 0x20 || n == 0x85 || n == 0xA0 || n == 0x1680
    || (0x2000 ≤ n && n ≤ 0x200A) || n == 0x2028 || n == 0x2029 || n == 0x202F
    || n == 0x205F || n == 0x3000

/-- The text without the blanks at its two ends. -/
def trim (text : List Char) : List Char :=
  ((text.dropWhile isBlank).reverse.dropWhile isBlank).reverse

/-- The pieces of a text between the occurrences of `separator`; there is one
piece more than there are separators. -/
def splitAt (separator : Char) : List Char → List (List Char)
  | [] => [[]]
  | c :: rest =>
    if c = separator then
      [] :: splitAt separator rest
    else
      match splitAt separator rest with
      | [] => [[c]]
      | piece :: pieces => (c :: piece) :: pieces

/-- There is always a piece. -/
theorem exists_splitAt_eq_cons (separator : Char) (text : List Char) :
    ∃ piece pieces, splitAt separator text = piece :: pieces := by
  cases text with
  | nil => exact ⟨[], [], rfl⟩
  | cons c rest =>
    unfold splitAt
    split
    · exact ⟨_, _, rfl⟩
    · split <;> exact ⟨_, _, rfl⟩

/-- The pieces, with the separator put between them again, are the text. -/
theorem intercalate_splitAt (separator : Char) (text : List Char) :
    [separator].intercalate (splitAt separator text) = text := by
  induction text with
  | nil => rfl
  | cons c rest ih =>
    obtain ⟨piece, pieces, h⟩ := exists_splitAt_eq_cons separator rest
    rw [h] at ih
    unfold splitAt
    split
    · next hc =>
      subst hc
      rw [h]
      simpa [List.intercalate_cons_cons] using ih
    · rw [h]
      cases pieces with
      | nil => simpa using ih
      | cons next more => simpa [List.intercalate_cons_cons] using ih

/-- The lines of a text. Each line feed ends a line, so a text that ends in a
line feed has no further, empty line after it. A carriage return before the
line feed stays with its line, where it is a blank like any other. -/
def lines : List Char → List (List Char)
  | [] => []
  | c :: rest =>
    if c = '\n' then
      [] :: lines rest
    else
      match lines rest with
      | [] => [[c]]
      | line :: more => (c :: line) :: more

end LS8.Text
