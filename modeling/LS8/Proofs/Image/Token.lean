import Mathlib.Data.List.TakeWhile
import Mathlib.Data.Nat.Digits.Lemmas
import LS8.Image
import LS8.Proofs.Text.Lines

/-!
# The token of a line

- `Image.IsToken line t` says what the token of a line is, without saying how to find it;
  `Image.isToken_iff` that `Image.token` finds it.
- `Image.Binary t` and `Image.value t` say of which tokens the first eight characters are a
  byte, and which; `Image.readByte?_eq_some_iff` that `Image.readByte?` reads it.
-/

namespace LS8.Image

open Text (isBlank dropReturn)

variable {line t : List Char} {byte : UInt8}

/-! ## Finding the token -/

/-- `t` is the token of `line`: of what stands before the first `#` of the line, if there
is one, `t` is the first run of characters without blanks, and it goes on as far as it
can. -/
def IsToken (line t : List Char) : Prop :=
  ∃ blanks behind comment, line = blanks ++ t ++ behind ++ comment ∧
    '#' ∉ blanks ++ t ++ behind ∧ (∀ c ∈ comment.head?, c = '#') ∧
    (∀ c ∈ blanks, isBlank c = true) ∧
    t ≠ [] ∧ (∀ c ∈ t, isBlank c = false) ∧ ∀ c ∈ behind.head?, isBlank c = true

theorem token_of_isToken (h : IsToken line t) : token line = t := by
  obtain ⟨blanks, behind, comment, rfl, hcode, hcomment, hblanks, hne, ht, hbehind⟩ := h
  have hcut : (blanks ++ t ++ behind ++ comment).takeWhile (· != '#') = blanks ++ t ++ behind := by
    apply Text.takeWhile_append_of_head
    · intro c hc
      refine bne_iff_ne.2 ?_
      rintro rfl
      exact hcode hc
    · intro c hc
      rw [hcomment c hc]
      rfl
  have hstart : ∀ c ∈ (t ++ behind).head?, isBlank c = false := by
    cases t with
    | nil => exact absurd rfl hne
    | cons first more =>
      rintro c ⟨⟩
      exact ht first List.mem_cons_self
  rw [token, hcut, List.append_assoc, Text.dropWhile_append_of_head hblanks hstart]
  apply Text.takeWhile_append_of_head
  · intro c hc
    rw [ht c hc]
    rfl
  · intro c hc
    rw [hbehind c hc]
    rfl

theorem isToken_token (hne : token line ≠ []) : IsToken line (token line) := by
  have hcode : (line.takeWhile (· != '#')).takeWhile isBlank ++ token line ++
      ((line.takeWhile (· != '#')).dropWhile isBlank).dropWhile (!isBlank ·) =
        line.takeWhile (· != '#') := by
    rw [token, List.append_assoc, List.takeWhile_append_dropWhile,
      List.takeWhile_append_dropWhile]
  refine ⟨(line.takeWhile (· != '#')).takeWhile isBlank,
    ((line.takeWhile (· != '#')).dropWhile isBlank).dropWhile (!isBlank ·),
    line.dropWhile (· != '#'), ?_, ?_, ?_, ?_, hne, ?_, ?_⟩
  · rw [hcode, List.takeWhile_append_dropWhile]
  · rw [hcode]
    intro hmem
    exact absurd (List.mem_takeWhile_imp hmem) (by decide)
  · intro c hc
    exact (bne_eq_false_iff_eq).1 (Text.head?_dropWhile c hc)
  · intro c hc
    exact List.mem_takeWhile_imp hc
  · intro c hc
    have hchar := List.mem_takeWhile_imp hc
    simpa using hchar
  · intro c hc
    have hend := Text.head?_dropWhile c hc
    simpa using hend

/-- **The token of a line is found**, and what is found is the token. -/
theorem isToken_iff : IsToken line t ↔ t ≠ [] ∧ token line = t := by
  constructor
  · intro h
    have htoken := token_of_isToken h
    obtain ⟨-, -, -, -, -, -, -, hne, -⟩ := h
    exact ⟨hne, htoken⟩
  · rintro ⟨hne, rfl⟩
    exact isToken_token hne

theorem IsToken.unique {t' : List Char} (h : IsToken line t) (h' : IsToken line t') : t = t' :=
  (token_of_isToken h).symm.trans (token_of_isToken h')

/-- A blank at the end of a line is not in its token. -/
theorem token_concat_blank {c : Char} (hc : isBlank c = true) (line : List Char) :
    token (line ++ [c]) = token line := by
  have hblank : ∀ word : List Char,
      (word ++ [c]).takeWhile (!isBlank ·) = word.takeWhile (!isBlank ·) := by
    intro word
    rw [List.takeWhile_append]
    split
    · next hall =>
      rw [List.takeWhile_cons, hc, if_neg (by simp), List.append_nil]
      exact ((List.takeWhile_prefix _).eq_of_length hall).symm
    · rfl
  -- the blank may be behind a `#`, behind blanks only, or behind the token
  unfold token
  rw [List.takeWhile_append]
  split
  · next hall =>
    have hcode : line.takeWhile (· != '#') = line :=
      (List.takeWhile_prefix _).eq_of_length hall
    have hhash : (c != '#') = true := by
      refine bne_iff_ne.2 ?_
      rintro rfl
      cases hc
    rw [hcode, List.takeWhile_cons, hhash, if_pos rfl, List.takeWhile_nil, List.dropWhile_append]
    split
    · next hempty =>
      rw [List.dropWhile_cons, hc, if_pos rfl, List.dropWhile_nil, List.isEmpty_iff.1 hempty]
    · exact hblank _
  · rfl

/-- A line with or without its carriage return has the same token. -/
theorem token_dropReturn (line : List Char) : token (dropReturn line) = token line := by
  unfold dropReturn
  split
  · next hlast =>
    obtain ⟨front, rfl⟩ := List.getLast?_eq_some_iff.1 hlast
    rw [List.dropLast_concat, token_concat_blank (by decide)]
  · rfl

/-! ## Reading the byte -/

/-- The first eight characters of a token, or all if it is shorter, are binary digits. -/
def Binary (t : List Char) : Prop :=
  ∀ c ∈ t.take 8, c = '0' ∨ c = '1'

/-- The value of a binary digit. -/
def bit (c : Char) : Nat := if c = '1' then 1 else 0

theorem bit_lt (c : Char) : bit c < 2 := by
  unfold bit
  split <;> decide

/-- The value of the first eight characters of a token, as a number in base two. -/
def value (t : List Char) : Nat :=
  Nat.ofDigits 2 ((t.take 8).reverse.map bit)

/-- Eight digits are never more than a byte. -/
theorem value_lt (t : List Char) : value t < 256 := by
  have hbits : ∀ d ∈ (t.take 8).reverse.map bit, d < 2 := by
    intro d hd
    obtain ⟨c, -, rfl⟩ := List.mem_map.1 hd
    exact bit_lt c
  have hlength : ((t.take 8).reverse.map bit).length ≤ 8 := by
    rw [List.length_map, List.length_reverse]
    exact List.length_take_le 8 t
  calc
    value t < 2 ^ ((t.take 8).reverse.map bit).length :=
      Nat.ofDigits_lt_base_pow_length (by decide) hbits
    _ ≤ 2 ^ 8 := Nat.pow_le_pow_right (by decide) hlength

/-- Reading digits from the left gives their value in base two. -/
theorem ofBits_eq {digits : List Char} (h : ∀ c ∈ digits, c = '0' ∨ c = '1') :
    Numeral.ofBits digits = Nat.ofDigits 2 (digits.reverse.map bit) := by
  induction digits using List.reverseRecOn with
  | nil => rfl
  | append_singleton digits c ih =>
    have hc : c.toNat - '0'.toNat = bit c := by
      rcases h c (by simp) with rfl | rfl <;> rfl
    have hdigits : ∀ c ∈ digits, c = '0' ∨ c = '1' := fun c hc =>
      h c (List.mem_append_left _ hc)
    rw [Numeral.ofBits, Nat.ofDigitChars_append, ← Numeral.ofBits, ih hdigits,
      List.reverse_append, List.reverse_singleton, List.singleton_append, List.map_cons,
      Nat.ofDigits_cons, ← hc]
    exact Nat.add_comm _ _

theorem binary_iff_all : Binary t ↔ (t.take byteDigits).all Numeral.isBit = true := by
  simp [Binary, byteDigits, Numeral.isBit, List.all_eq_true]

/-- **A token is read as the value of its first eight digits**, if they are digits. -/
theorem readByte?_eq_some_iff : readByte? t = some byte ↔ Binary t ∧ byte.toNat = value t := by
  unfold readByte?
  by_cases hb : Binary t
  · have hvalue : Numeral.ofBits (t.take byteDigits) = value t := ofBits_eq hb
    rw [if_pos (binary_iff_all.1 hb), hvalue, Option.some.injEq]
    constructor
    · rintro rfl
      exact ⟨hb, UInt8.toNat_ofNat_of_lt (value_lt t)⟩
    · rintro ⟨-, h⟩
      rw [← h, UInt8.ofNat_toNat]
  · rw [if_neg (fun hall => hb (binary_iff_all.2 hall))]
    exact ⟨nofun, fun h => absurd h.1 hb⟩

theorem readByte?_eq_none_iff : readByte? t = none ↔ ¬ Binary t := by
  unfold readByte?
  rw [binary_iff_all]
  simp

end LS8.Image
