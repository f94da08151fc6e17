import LS8.Proofs.Image.Language

/-!
# Images put together

The image of two texts with a line feed between them. The lines of the first text stay what
they are, wherever the text ends, and those of the second follow (`Text.lines_append`).

- `Image.readLines_append`: lines that are read behind others count on from them.
- `Image.readLines_of_ok`, `Image.readLines_of_invalidByte`: the number of the first line has
  no part in the bytes that are read, and an error counts from it.
- `Image.parse_append_lineFeed`: the image of both texts, or the first of their errors.
-/

namespace LS8.Image

open Text (lines splitAt)

variable {ls ls' : List (List Char)} {bytes : List UInt8} {n n' k : Nat} {t : String}
  {image : Image} {e : ImageError}

/-! ## Lines behind others -/

/-- **Lines are read one behind the other**, up to the first error. -/
theorem readLines_append (n : Nat) (ls ls' : List (List Char)) :
    readLines n (ls ++ ls') = (readLines n ls).bind fun bytes =>
      (readLines (n + ls.length) ls').map (bytes ++ ·) := by
  induction ls generalizing n with
  | nil => cases h : readLines n ls' <;> simp [readLines, Except.bind, Except.map, h]
  | cons line rest ih =>
    have hnumber : n + (line :: rest).length = n + 1 + rest.length := by
      rw [List.length_cons]
      omega
    rw [List.cons_append, hnumber]
    rcases line_cases line with hnone | ⟨t, byte, ht, hb⟩ | ⟨t, ht, hb⟩
    · rw [readLines_of_no_token hnone, readLines_of_no_token hnone, ih]
    · rw [readLines_of_byte ht hb, readLines_of_byte ht hb, ih]
      -- the byte of the first line stays in front of all others
      cases readLines (n + 1) rest with
      | error e => rfl
      | ok bytes => cases readLines (n + 1 + rest.length) ls' <;> rfl
    · rw [readLines_of_not_binary ht hb, readLines_of_not_binary ht hb]
      rfl

/-- An empty line behind the others is nothing. -/
theorem readLines_concat_nil (n : Nat) (ls : List (List Char)) :
    readLines n (ls ++ [[]]) = readLines n ls := by
  have hempty : ∀ k, readLines k [[]] = .ok [] := fun _ => rfl
  rw [readLines_append, hempty]
  cases readLines n ls with
  | error e => rfl
  | ok bytes => simp [Except.bind, Except.map]

theorem readLines_of_ok (h : readLines n ls = .ok bytes) : readLines n' ls = .ok bytes :=
  readLines_eq_ok_iff.2 (readLines_eq_ok_iff.1 h)

theorem readLines_of_invalidByte (h : readLines 1 ls = .error (.invalidByte k t)) :
    readLines (1 + n) ls = .error (.invalidByte (n + k) t) := by
  obtain ⟨j, token, hoffends, he⟩ := readLines_eq_error_iff.1 h
  obtain ⟨rfl, rfl⟩ := ImageError.invalidByte.inj he
  exact readLines_eq_error_iff.2 ⟨j, token, hoffends, by rw [Nat.add_left_comm, Nat.add_assoc]⟩

/-! ## Texts -/

/-- A text may as well be read piece by piece. -/
theorem readLines_splitAt (text : List Char) :
    readLines n (splitAt '\n' text) = readLines n (lines text) := by
  rcases Text.splitAt_eq_lines text with h | h
  · rw [h]
  · rw [h, readLines_concat_nil]

theorem readLines_eq_ok_of_parse {text : String} (h : parse text = .ok image) :
    readLines n (lines text.toList) = .ok image.bytes :=
  readLines_of_ok (map_mk_eq_ok_iff.1 h)

theorem readLines_eq_error_of_parse {text : String} (h : parse text = .error e) :
    readLines 1 (lines text.toList) = .error e :=
  map_mk_eq_error_iff.1 h

/-- The image of two texts, from the image of the first and the lines of the second. -/
theorem parse_append (a b : String) :
    parse (a ++ "\n" ++ b) =
      ((readLines 1 (lines a.toList)).bind fun bytes =>
        (readLines (1 + (a.toList.count '\n' + 1)) (lines b.toList)).map (bytes ++ ·)).map
          Image.mk := by
  have hlines : lines (a ++ "\n" ++ b).toList = splitAt '\n' a.toList ++ lines b.toList := by
    rw [String.toList_append, String.toList_append, List.append_assoc]
    exact Text.lines_append a.toList b.toList
  rw [parse, hlines, readLines_append, readLines_splitAt, Text.length_splitAt]

/-- **Parsing is compositional.** Take two texts with a line feed between them. If the first
is no image, neither are both, for the same reason. If only the second is none, then the
reason is the one for it, some lines further on: as many as the first text has line feeds,
and one more. If both are images, their bytes follow one another. -/
theorem parse_append_lineFeed (a b : String) :
    (∀ e, parse a = .error e → parse (a ++ "\n" ++ b) = .error e) ∧
    (∀ image k t, parse a = .ok image → parse b = .error (.invalidByte k t) →
      parse (a ++ "\n" ++ b) = .error (.invalidByte (a.toList.count '\n' + 1 + k) t)) ∧
    (∀ image image', parse a = .ok image → parse b = .ok image' →
      parse (a ++ "\n" ++ b) = .ok ⟨image.bytes ++ image'.bytes⟩) ∧
    ∀ e, parse b = .error e → ∃ k t, e = .invalidByte k t := by
  rw [parse_append]
  refine ⟨fun e ha => ?_, fun image k t ha hb => ?_, fun image image' ha hb => ?_,
    fun e hb => ?_⟩
  · rw [readLines_eq_error_of_parse ha]
    rfl
  · simp only [readLines_eq_ok_of_parse ha, Except.bind,
      readLines_of_invalidByte (readLines_eq_error_of_parse hb), Except.map]
  · simp only [readLines_eq_ok_of_parse ha, Except.bind, readLines_eq_ok_of_parse hb, Except.map]
  · obtain ⟨k, t, -, rfl⟩ := parse_eq_error_iff.1 hb
    exact ⟨_, _, rfl⟩

theorem parse_append_lineFeed_ends :
    parse ("" ++ "\n" ++ "2") = .error (.invalidByte 2 "2") ∧
    parse ("1\n" ++ "\n" ++ "\nx") = .error (.invalidByte 4 "x") ∧
    parse ("101\r" ++ "\n" ++ "1 # one\r") = .ok ⟨[5, 1]⟩ ∧
    parse ("1\n01a" ++ "\n" ++ "b") = .error (.invalidByte 2 "01a") := by
  refine ⟨?_, ?_, ?_, ?_⟩
  · exact (parse_append_lineFeed "" "2").2.1 ⟨[]⟩ 1 "2" (by rfl) (by rfl)
  · exact (parse_append_lineFeed "1\n" "\nx").2.1 ⟨[1]⟩ 2 "x" (by rfl) (by rfl)
  · exact (parse_append_lineFeed "101\r" "1 # one\r").2.2.1 ⟨[5]⟩ ⟨[1]⟩ (by rfl) (by rfl)
  · exact (parse_append_lineFeed "1\n01a" "b").1 _ (by rfl)

end LS8.Image
