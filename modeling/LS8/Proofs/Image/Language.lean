import LS8.Proofs.Image.Token

/-!
# The language of images

Which texts are images, of which bytes, and what is wrong with all others.

- `Image.Spells ls bytes`: the lines `ls` are an image of `bytes`. One rule for a line
  without a token, and one for a line with a token that is a byte.
- `Image.Offends ls k t`: the first token that is no byte is `t`, and it is the token of the
  line behind `k` others.
- `Image.readLines_eq_ok_iff`, `Image.readLines_eq_error_iff`: reading lines succeeds
  exactly in the first case and fails exactly in the second. `Image.parse_recognizes` says
  this of texts.
-/

namespace LS8.Image

open Text (endedLines)

/-- `ls` are the lines of an image that consists of `bytes`. -/
inductive Spells : List (List Char) → List UInt8 → Prop
  | nil : Spells [] []
  | skip {line rest bytes} (hnone : ∀ t, ¬ IsToken line t) (hrest : Spells rest bytes) :
    Spells (line :: rest) bytes
  | byte {line t byte rest bytes} (htoken : IsToken line t) (hbinary : Binary t)
      (hvalue : byte.toNat = value t) (hrest : Spells rest bytes) :
    Spells (line :: rest) (byte :: bytes)

/-- `t` is the token of the line behind `k` others and is no byte, and none of the lines
before has such a token. -/
def Offends (ls : List (List Char)) (k : Nat) (t : List Char) : Prop :=
  (∃ line, ls[k]? = some line ∧ IsToken line t) ∧ ¬ Binary t ∧
    ∀ j < k, ∀ line, ls[j]? = some line → ∀ t', IsToken line t' → Binary t'

variable {line t : List Char} {ls rest : List (List Char)} {bytes : List UInt8} {byte : UInt8}
  {n k : Nat} {e : ImageError}

/-! ## One line -/

/-- A line has no token, or one that is a byte, or one that is not. -/
theorem line_cases (line : List Char) :
    (∀ t, ¬ IsToken line t) ∨ (∃ t byte, IsToken line t ∧ readByte? t = some byte) ∨
      ∃ t, IsToken line t ∧ ¬ Binary t := by
  by_cases hne : token line = []
  · exact .inl fun t ht => absurd ((token_of_isToken ht).symm.trans hne) (isToken_iff.1 ht).1
  · have htoken := isToken_token hne
    cases hb : readByte? (token line) with
    | some byte => exact .inr (.inl ⟨_, byte, htoken, hb⟩)
    | none => exact .inr (.inr ⟨_, htoken, readByte?_eq_none_iff.1 hb⟩)

theorem readLines_of_no_token (h : ∀ t, ¬ IsToken line t) :
    readLines n (line :: rest) = readLines (n + 1) rest := by
  have hempty : token line = [] := by
    by_contra hne
    exact h _ (isToken_token hne)
  rw [readLines, if_pos hempty]

theorem readLines_of_byte (h : IsToken line t) (hb : readByte? t = some byte) :
    readLines n (line :: rest) = (readLines (n + 1) rest).map (byte :: ·) := by
  obtain ⟨hne, rfl⟩ := isToken_iff.1 h
  rw [readLines, if_neg hne, hb]

theorem readLines_of_not_binary (h : IsToken line t) (hb : ¬ Binary t) :
    readLines n (line :: rest) = .error (.invalidByte n (String.ofList t)) := by
  obtain ⟨hne, rfl⟩ := isToken_iff.1 h
  rw [readLines, if_neg hne, readByte?_eq_none_iff.2 hb]

/-! ## All lines -/

theorem map_cons_eq_ok_iff {result : Except ImageError (List UInt8)} :
    result.map (byte :: ·) = .ok bytes ↔
      ∃ bytes', result = .ok bytes' ∧ bytes = byte :: bytes' := by
  cases result with
  | ok bytes' => simp [Except.map, eq_comm]
  | error e => simp [Except.map]

theorem map_cons_eq_error_iff {result : Except ImageError (List UInt8)} :
    result.map (byte :: ·) = .error e ↔ result = .error e := by
  cases result with
  | ok bytes' => simp [Except.map]
  | error e => simp [Except.map]

/-- **Reading succeeds on the lines of an image**, with its bytes. -/
theorem readLines_eq_ok_iff : readLines n ls = .ok bytes ↔ Spells ls bytes := by
  constructor
  · intro h
    induction ls generalizing n bytes with
    | nil =>
      obtain rfl := Except.ok.inj h
      exact .nil
    | cons line rest ih =>
      rcases line_cases line with hnone | ⟨t, byte, ht, hb⟩ | ⟨t, ht, hb⟩
      · rw [readLines_of_no_token hnone] at h
        exact .skip hnone (ih h)
      · rw [readLines_of_byte ht hb, map_cons_eq_ok_iff] at h
        obtain ⟨bytes', h', rfl⟩ := h
        obtain ⟨hbinary, hvalue⟩ := readByte?_eq_some_iff.1 hb
        exact .byte ht hbinary hvalue (ih h')
      · rw [readLines_of_not_binary ht hb] at h
        cases h
  · intro h
    induction h generalizing n with
    | nil => rfl
    | skip hnone hrest ih =>
      rw [readLines_of_no_token hnone]
      exact ih
    | byte ht hbinary hvalue hrest ih =>
      rw [readLines_of_byte ht (readByte?_eq_some_iff.2 ⟨hbinary, hvalue⟩), map_cons_eq_ok_iff]
      exact ⟨_, ih, rfl⟩

theorem offends_zero : Offends (line :: rest) 0 t ↔ IsToken line t ∧ ¬ Binary t := by
  simp [Offends]

/-- An offence further on is one of the rest, if the first line gives none. -/
theorem offends_succ : Offends (line :: rest) (k + 1) t ↔
    (∀ t', IsToken line t' → Binary t') ∧ Offends rest k t := by
  constructor
  · rintro ⟨hline, hb, hbefore⟩
    refine ⟨hbefore 0 (Nat.succ_pos k) line rfl, hline, hb, ?_⟩
    intro j hj
    exact hbefore (j + 1) (Nat.succ_lt_succ hj)
  · rintro ⟨hfirst, hline, hb, hbefore⟩
    refine ⟨hline, hb, ?_⟩
    intro j hj line' hline'
    cases j with
    | zero =>
      obtain rfl := Option.some.inj hline'
      exact hfirst
    | succ j => exact hbefore j (Nat.lt_of_succ_lt_succ hj) line' hline'

/-- **Reading fails at the first token that is no byte**, and names its line. -/
theorem readLines_eq_error_iff : readLines n ls = .error e ↔
    ∃ k t, Offends ls k t ∧ e = .invalidByte (n + k) (String.ofList t) := by
  induction ls generalizing n with
  | nil =>
    constructor
    · intro h
      cases h
    · rintro ⟨k, t, ⟨⟨line, hline, -⟩, -⟩, -⟩
      cases hline
  | cons line rest ih =>
    -- a line that gives no offence is passed over, and the rest begins one line later
    have hpass : (∀ t, IsToken line t → Binary t) →
        ((∃ k t, Offends rest k t ∧ e = .invalidByte (n + 1 + k) (String.ofList t)) ↔
          ∃ k t, Offends (line :: rest) k t ∧ e = .invalidByte (n + k) (String.ofList t)) := by
      intro hfirst
      constructor
      · rintro ⟨k, t, hoffends, rfl⟩
        refine ⟨k + 1, t, offends_succ.2 ⟨hfirst, hoffends⟩, ?_⟩
        rw [Nat.add_assoc, Nat.add_comm 1]
      · rintro ⟨k, t, hoffends, rfl⟩
        cases k with
        | zero =>
          obtain ⟨ht, hb⟩ := offends_zero.1 hoffends
          exact absurd (hfirst t ht) hb
        | succ k =>
          refine ⟨k, t, (offends_succ.1 hoffends).2, ?_⟩
          rw [Nat.add_assoc, Nat.add_comm 1]
    rcases line_cases line with hnone | ⟨t, byte, ht, hb⟩ | ⟨t, ht, hb⟩
    · rw [readLines_of_no_token hnone, ih]
      exact hpass fun t ht => absurd ht (hnone t)
    · rw [readLines_of_byte ht hb, map_cons_eq_error_iff, ih]
      apply hpass
      intro t' ht'
      rw [ht'.unique ht]
      exact (readByte?_eq_some_iff.1 hb).1
    · rw [readLines_of_not_binary ht hb]
      constructor
      · intro h
        exact ⟨0, t, offends_zero.2 ⟨ht, hb⟩, (Except.error.inj h).symm⟩
      · rintro ⟨k, t', hoffends, rfl⟩
        cases k with
        | zero => rw [ht.unique (offends_zero.1 hoffends).1, Nat.add_zero]
        | succ k => exact absurd ((offends_succ.1 hoffends).1 t ht) hb

/-- Lines are read alike if their tokens are the same. -/
theorem readLines_congr {ls' : List (List Char)} (h : ls.map token = ls'.map token) :
    readLines n ls = readLines n ls' := by
  induction ls generalizing ls' n with
  | nil =>
    cases ls' with
    | nil => rfl
    | cons _ _ => cases h
  | cons line rest ih =>
    cases ls' with
    | nil => cases h
    | cons line' rest' =>
      obtain ⟨htoken, hrest⟩ := List.cons.inj h
      rw [readLines, readLines, htoken, ih hrest]

/-! ## Texts -/

/-- The carriage returns of line ends play no part in an image. -/
theorem parse_eq (text : String) :
    parse text = (readLines 1 (endedLines text.toList)).map Image.mk := by
  rw [parse, readLines_congr (Text.map_endedLines token_dropReturn text.toList)]

theorem map_mk_eq_ok_iff {result : Except ImageError (List UInt8)} {image : Image} :
    result.map Image.mk = .ok image ↔ result = .ok image.bytes := by
  obtain ⟨bytes⟩ := image
  cases result with
  | ok bytes' => simp [Except.map]
  | error e => simp [Except.map]

theorem map_mk_eq_error_iff {result : Except ImageError (List UInt8)} :
    result.map Image.mk = .error e ↔ result = .error e := by
  cases result with
  | ok bytes => simp [Except.map]
  | error e => simp [Except.map]

theorem parse_eq_ok_iff {text : String} {image : Image} :
    parse text = .ok image ↔ Spells (endedLines text.toList) image.bytes := by
  rw [parse_eq, map_mk_eq_ok_iff, readLines_eq_ok_iff]

theorem parse_eq_error_iff {text : String} :
    parse text = .error e ↔ ∃ k t, Offends (endedLines text.toList) k t ∧
      e = .invalidByte (k + 1) (String.ofList t) := by
  rw [parse_eq, map_mk_eq_error_iff, readLines_eq_error_iff]
  simp only [Nat.add_comm 1]

/-- In the lines of an image every token is a byte. -/
theorem Spells.binary (h : Spells ls bytes) : ∀ line ∈ ls, ∀ t, IsToken line t → Binary t := by
  induction h with
  | nil => exact fun line hline => absurd hline List.not_mem_nil
  | skip hnone hrest ih =>
    exact List.forall_mem_cons.2 ⟨fun t ht => absurd ht (hnone t), ih⟩
  | byte htoken hbinary hvalue hrest ih =>
    refine List.forall_mem_cons.2 ⟨?_, ih⟩
    intro t ht
    rw [ht.unique htoken]
    exact hbinary

theorem exists_parse_iff {text : String} : (∃ image, parse text = .ok image) ↔
    ∀ line ∈ endedLines text.toList, ∀ t, IsToken line t → Binary t := by
  constructor
  · rintro ⟨image, h⟩
    exact (parse_eq_ok_iff.1 h).binary
  · intro hall
    cases h : parse text with
    | ok image => exact ⟨image, rfl⟩
    | error e =>
      obtain ⟨k, t, ⟨⟨line, hline, ht⟩, hb, -⟩, -⟩ := parse_eq_error_iff.1 h
      exact absurd (hall line (List.mem_of_getElem? hline) t ht) hb

/-- **The language of images.** A text is an image if and only if the token of every line
that has one begins with eight binary digits, or consists of fewer. The image then has one
byte for each of these lines, in order, namely the value of the digits in base two, which
is never more than a byte. Any other text fails with the whole of the first token that
does not, and with the number of its line, counted from one over all lines. -/
theorem parse_recognizes (text : String) :
    ((∃ image, parse text = .ok image) ↔
      ∀ line ∈ endedLines text.toList, ∀ t, IsToken line t →
        ∀ c ∈ t.take 8, c = '0' ∨ c = '1') ∧
    (∀ image, parse text = .ok image ↔ Spells (endedLines text.toList) image.bytes) ∧
    (∀ t, value t < 256) ∧
    ∀ e, parse text = .error e ↔
      ∃ k t, Offends (endedLines text.toList) k t ∧
        e = .invalidByte (k + 1) (String.ofList t) :=
  ⟨exists_parse_iff, fun _ => parse_eq_ok_iff, value_lt, fun _ => parse_eq_error_iff⟩

theorem parse_recognizes_remarks :
    Spells (endedLines "101 # five\r\n\n0000000111 9\n".toList) [5, 1] ∧
      ∃ t, Offends (endedLines "1\n# 2\n\n 12x # 1".toList) 3 t ∧ t = ['1', '2', 'x'] := by
  obtain ⟨-, hspells, -, -⟩ := parse_recognizes "101 # five\r\n\n0000000111 9\n"
  obtain ⟨-, -, -, hfails⟩ := parse_recognizes "1\n# 2\n\n 12x # 1"
  refine ⟨(hspells ⟨[5, 1]⟩).1 (by rfl), ?_⟩
  obtain ⟨k, t, hoffends, he⟩ := (hfails (.invalidByte 4 "12x")).1 (by rfl)
  obtain ⟨hk, ht⟩ := ImageError.invalidByte.inj he
  obtain rfl : 3 = k := Nat.succ.inj hk
  exact ⟨t, hoffends, (String.ofList_injective ht).symm⟩

end LS8.Image
