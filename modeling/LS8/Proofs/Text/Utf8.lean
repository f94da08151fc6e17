import LS8.Text.Utf8

/-!
# Text written as UTF-8 and read back

`Utf8.bytes` are the bytes of a text. The reader of `Utf8.decodeLossy` takes one byte at a time:
the first byte of a character opens a sequence, unless it is the whole character, and the others
lead on to where the last of them gives the character (`Utf8.Spells`, `Utf8.spells_encodeChar`).

- `Utf8.decodeLossy_append_bytes`: a text that is written behind other bytes is read behind them.
  What they left open is replaced once and for all, since no character begins with a byte that
  would continue it.
- `Utf8.decodeLossy_bytes`: a written text is read back.
- `Utf8.Shows` says what is read if not all bytes of a text have come yet: the characters that
  are complete, and one mark in place of the character that is not. That is what the reader makes
  of every beginning of the bytes (`Utf8.shows_decodeLossy`).
-/

namespace LS8.Utf8

variable {p : Partial} {b : UInt8} {bytes part rest : List UInt8} {c : Char} {x y : Nat}

/-! ## What the reader makes of a character -/

/-- The bytes lead from an open sequence to a character: each but the last leaves a sequence
open, and the last one gives the character. -/
inductive Completes : Partial → List UInt8 → Char → Prop
  | last {p : Partial} {b : UInt8} {c : Char} (h : accept (some p) b = ([c], none)) :
    Completes p [b] c
  | more {p q : Partial} {b : UInt8} {rest : List UInt8} {c : Char}
    (h : accept (some p) b = ([], some q)) (hrest : Completes q rest c) :
    Completes p (b :: rest) c

/-- The bytes give a character, wherever one may begin: a byte of ASCII does at once, and any other
first byte opens a sequence that the bytes behind it complete. -/
inductive Spells : List UInt8 → Char → Prop
  | ascii {b : UInt8} (hb : b < 0x80) : Spells [b] (Char.ofNat b.toNat)
  | long {b : UInt8} {p : Partial} {rest : List UInt8} {c : Char}
    (h : Partial.start? b = some p) (hrest : Completes p rest c) : Spells (b :: rest) c

theorem le_of_start? (h : Partial.start? b = some p) : 0xC2 ≤ b := by
  grind [Partial.start?]

theorem accept_of_start? (h : Partial.start? b = some p) : accept none b = ([], some p) := by
  have hb : ¬ b < 0x80 := UInt8.not_lt.2 (UInt8.le_trans (by decide) (le_of_start? h))
  rw [accept, opening, if_neg hb, h]

theorem Completes.decodeFrom_append (h : Completes p bytes c) (rest : List UInt8) :
    decodeFrom (some p) (bytes ++ rest) = c :: decodeFrom none rest := by
  induction h with
  | last h => rw [List.singleton_append, decodeFrom, h, List.singleton_append]
  | more h _ ih => rw [List.cons_append, decodeFrom, h, List.nil_append, ih]

/-- A sequence that is not completed is read as a single mark, however much of it there is. -/
theorem Completes.decodeFrom_part (h : Completes p bytes c) (hpart : part <+: bytes)
    (hless : part ≠ bytes) : decodeFrom (some p) part = [replacement] := by
  induction h generalizing part with
  | last h =>
    cases part with
    | nil => rfl
    | cons b' part =>
      obtain ⟨rfl, hrest⟩ := List.cons_prefix_cons.1 hpart
      exact absurd (congrArg _ (List.prefix_nil.1 hrest)) hless
  | more h _ ih =>
    cases part with
    | nil => rfl
    | cons b' part =>
      obtain ⟨rfl, hrest⟩ := List.cons_prefix_cons.1 hpart
      rw [decodeFrom, h, List.nil_append, ih hrest fun heq => hless (congrArg _ heq)]

/-- **The bytes of a character are read as the character**, and nothing is open behind them. -/
theorem Spells.decodeFrom_append (h : Spells bytes c) (rest : List UInt8) :
    decodeFrom none (bytes ++ rest) = c :: decodeFrom none rest := by
  cases h with
  | ascii hb => rw [List.singleton_append, decodeFrom, accept, opening, if_pos hb]; rfl
  | long h hrest =>
    rw [List.cons_append, decodeFrom, accept_of_start? h, List.nil_append,
      hrest.decodeFrom_append]

/-- **A character that is not complete is read as a single mark.** -/
theorem Spells.decodeFrom_part (h : Spells bytes c) (hpart : part <+: bytes)
    (hless : part ≠ bytes) (hbegun : part ≠ []) : decodeFrom none part = [replacement] := by
  obtain ⟨b', part, rfl⟩ := List.exists_cons_of_ne_nil hbegun
  cases h with
  | ascii hb =>
    obtain ⟨rfl, hrest⟩ := List.cons_prefix_cons.1 hpart
    exact absurd (congrArg _ (List.prefix_nil.1 hrest)) hless
  | long h hcompletes =>
    obtain ⟨rfl, hrest⟩ := List.cons_prefix_cons.1 hpart
    rw [decodeFrom, accept_of_start? h, List.nil_append,
      hcompletes.decodeFrom_part hrest fun heq => hless (congrArg _ heq)]

/-! ## The bytes of a character -/

/-- What is opened by the first of two, three and four bytes. -/
theorem start?_two : ∀ x < 32, 2 ≤ x →
    Partial.start? (UInt8.ofNat (x + 0xC0)) = some ⟨x, 1, 0x80, 0xBF⟩ := by
  decide

theorem start?_three : ∀ x < 16, Partial.start? (UInt8.ofNat (x + 0xE0)) =
    some ⟨x, 2, if x = 0 then 0xA0 else 0x80, if x = 0xD then 0x9F else 0xBF⟩ := by
  decide

theorem start?_four : ∀ x < 5, Partial.start? (UInt8.ofNat (x + 0xF0)) =
    some ⟨x, 3, if x = 0 then 0x90 else 0x80, if x = 4 then 0x8F else 0xBF⟩ := by
  decide

section Continuing

variable {bits missing : Nat} {low high : UInt8}

/-- A byte that continues a sequence adds six bits to it. -/
theorem accept_continuing (hy : y < 64) (hlow : low.toNat ≤ y + 0x80)
    (hhigh : y + 0x80 ≤ high.toNat) :
    accept (some ⟨bits, missing, low, high⟩) (UInt8.ofNat (y + 0x80)) =
      if missing ≤ 1 then ([Char.ofNat (bits * 64 + y)], none)
      else ([], some ⟨bits * 64 + y, missing - 1, 0x80, 0xBF⟩) := by
  have hbyte : (UInt8.ofNat (y + 0x80)).toNat = y + 0x80 :=
    UInt8.toNat_ofNat_of_lt (Nat.lt_trans (Nat.add_lt_add_right hy 0x80) (by decide))
  have hrange : low ≤ UInt8.ofNat (y + 0x80) ∧ UInt8.ofNat (y + 0x80) ≤ high := by
    rw [UInt8.le_iff_toNat_le, UInt8.le_iff_toNat_le, hbyte]
    exact ⟨hlow, hhigh⟩
  simp only [accept, if_pos hrange, hbyte, Nat.add_sub_cancel]

theorem completes_more (hlow : low.toNat ≤ y + 0x80) (hhigh : y + 0x80 ≤ high.toNat)
    (hy : y < 64) (hrest : Completes ⟨bits * 64 + y, missing + 1, 0x80, 0xBF⟩ rest c) :
    Completes ⟨bits, missing + 2, low, high⟩ (UInt8.ofNat (y + 0x80) :: rest) c := by
  refine .more ?_ hrest
  rw [accept_continuing hy hlow hhigh, if_neg (Nat.not_le_of_lt (Nat.le_add_left 2 missing))]
  rfl

theorem completes_last (hy : y < 64) (hc : bits * 64 + y = c.toNat) :
    Completes ⟨bits, 1, 0x80, 0xBF⟩ [UInt8.ofNat (y + 0x80)] c := by
  have hlow : (0x80 : UInt8).toNat ≤ y + 0x80 := Nat.le_add_left 0x80 y
  have hhigh : y + 0x80 ≤ (0xBF : UInt8).toNat :=
    Nat.add_le_add_right (Nat.le_of_lt_succ hy) 0x80
  refine .last ?_
  rw [accept_continuing hy hlow hhigh, if_pos (Nat.le_refl 1), hc, Char.ofNat_toNat]

/-- The second byte, whose range is narrower behind some first bytes. -/
theorem completes_second {n : Nat} {narrowLow narrowHigh : UInt8}
    (hlow : x = 0 → narrowLow.toNat ≤ y + 0x80) (hhigh : x = n → y + 0x80 ≤ narrowHigh.toNat)
    (hy : y < 64) (hrest : Completes ⟨x * 64 + y, missing + 1, 0x80, 0xBF⟩ rest c) :
    Completes ⟨x, missing + 2, if x = 0 then narrowLow else 0x80,
      if x = n then narrowHigh else 0xBF⟩ (UInt8.ofNat (y + 0x80) :: rest) c := by
  refine completes_more ?_ ?_ hy hrest
  · split
    · next h => exact hlow h
    · exact Nat.le_add_left 0x80 y
  · split
    · next h => exact hhigh h
    · exact Nat.add_le_add_right (Nat.le_of_lt_succ hy) 0x80

end Continuing

/-- **Every character is spelled by its bytes.** -/
theorem spells_encodeChar (c : Char) : Spells (String.utf8EncodeChar c) c := by
  have hvalid : c.toNat < 0xD800 ∨ 0xDFFF < c.toNat ∧ c.toNat < 0x110000 := c.valid
  have hsix : ∀ n, n % 64 < 64 := fun n => Nat.mod_lt n (by decide)
  fun_cases String.utf8EncodeChar c with
  | case1 v h1 =>
    have hbyte : (UInt8.ofNat v).toNat = v :=
      UInt8.toNat_ofNat_of_lt (Nat.lt_of_le_of_lt h1 (by decide))
    have hascii : UInt8.ofNat v < 0x80 := by
      rw [UInt8.lt_iff_toNat_lt, hbyte]
      exact Nat.lt_succ_of_le h1
    have hc : Char.ofNat (UInt8.ofNat v).toNat = c := by
      rw [hbyte]
      exact Char.ofNat_toNat c
    exact hc ▸ .ascii hascii
  | case2 v h1 h2 =>
    have hc : v / 64 % 32 * 64 + v % 64 = v := by omega
    refine .long (start?_two _ (Nat.mod_lt _ (by decide)) (by omega)) ?_
    exact completes_last (hsix _) hc
  | case3 v h1 h2 h3 =>
    have hv : v = c.toNat := rfl
    have hc : (v / 4096 % 16 * 64 + v / 64 % 64) * 64 + v % 64 = v := by omega
    -- below `E0 A0` two bytes would do, and behind `ED 9F` lie the surrogates
    refine .long (start?_three _ (Nat.mod_lt _ (by decide))) (completes_second ?_ ?_ (hsix _) ?_)
    · show _ → 0xA0 ≤ _
      omega
    · show _ → _ ≤ 0x9F
      omega
    · exact completes_last (hsix _) hc
  | case4 v h1 h2 h3 =>
    have hv : v = c.toNat := rfl
    have hc : ((v / 262144 % 8 * 64 + v / 4096 % 64) * 64 + v / 64 % 64) * 64 + v % 64 = v := by
      omega
    have hthird : v / 64 % 64 + 0x80 ≤ (0xBF : UInt8).toNat :=
      Nat.add_le_add_right (Nat.le_of_lt_succ (hsix _)) 0x80
    -- below `F0 90` three bytes would do, and behind `F4 8F` no character is left
    refine .long (start?_four _ (by omega)) (completes_second ?_ ?_ (hsix _) ?_)
    · show _ → 0x90 ≤ _
      omega
    · show _ → _ ≤ 0x8F
      omega
    · exact completes_more (Nat.le_add_left 0x80 _) hthird (hsix _) (completes_last (hsix _) hc)

/-- A character of ASCII is its own byte. -/
theorem encodeChar_of_ascii (h : c.toNat < 128) :
    String.utf8EncodeChar c = [UInt8.ofNat c.toNat] :=
  if_pos (Nat.le_of_lt_succ h)

/-! ## Text behind other bytes -/

theorem encode_ofList (chars : List Char) :
    encode (String.ofList chars) = chars.flatMap String.utf8EncodeChar := by
  rw [encode, String.toUTF8_eq_toByteArray, String.toByteArray_ofList, List.utf8Encode,
    List.toList_data_toByteArray]

theorem encode_eq (text : String) : encode text = text.toList.flatMap String.utf8EncodeChar := by
  rw [← encode_ofList, String.ofList_toList]

theorem encode_singleton (c : Char) : encode (String.singleton c) = String.utf8EncodeChar c := by
  rw [encode_eq, String.toList_singleton, List.flatMap_singleton]

theorem encode_append (s t : String) : encode (s ++ t) = encode s ++ encode t := by
  rw [encode_eq, String.toList_append, List.flatMap_append, ← encode_eq, ← encode_eq]

/-- An open sequence waits for a byte from `80` to `BF`. -/
structure Partial.Bounded (p : Partial) : Prop where
  low : 0x80 ≤ p.low
  high : p.high ≤ 0xBF

theorem bounded_of_start? (h : Partial.start? b = some p) : p.Bounded := by
  constructor
  · grind [Partial.start?]
  · grind [Partial.start?]

theorem bounded_of_opening (h : (opening b).2 = some p) : p.Bounded := by
  unfold opening at h
  split at h
  · cases h
  · split at h
    · next hstart => exact bounded_of_start? (hstart.trans h)
    · cases h

/-- Whatever was open before a byte, what is open behind it is bounded. -/
theorem bounded_of_accept {open? : Option Partial} (h : (accept open? b).2 = some p) :
    p.Bounded := by
  unfold accept at h
  split at h
  · exact bounded_of_opening h
  · dsimp only at h
    split at h
    · split at h
      · cases h
      · obtain rfl := Option.some.inj h
        exact ⟨UInt8.le_refl 0x80, UInt8.le_refl 0xBF⟩
    · exact bounded_of_opening h

/-- A byte that does not continue a sequence is read as if nothing were open, once the sequence
is replaced. -/
theorem decodeFrom_of_not_continuing (h : ¬ (p.low ≤ b ∧ b ≤ p.high)) (rest : List UInt8) :
    decodeFrom (some p) (b :: rest) = replacement :: decodeFrom none (b :: rest) := by
  have hreplaced : accept (some p) b = (replacement :: (accept none b).1, (accept none b).2) :=
    if_neg h
  rw [decodeFrom, hreplaced]
  rfl

/-- The first byte of a character does not continue any sequence. -/
theorem Spells.decodeFrom_open (h : Spells bytes c) (hp : p.Bounded) (rest : List UInt8) :
    decodeFrom (some p) (bytes ++ rest) = replacement :: decodeFrom none (bytes ++ rest) := by
  cases h with
  | ascii hb =>
    refine decodeFrom_of_not_continuing (fun hrange => ?_) _
    exact UInt8.not_le.2 hb (UInt8.le_trans hp.low hrange.1)
  | long h _ =>
    refine decodeFrom_of_not_continuing (fun hrange => ?_) _
    have hle := UInt8.le_trans (le_of_start? h) (UInt8.le_trans hrange.2 hp.high)
    exact absurd hle (by decide)

/-- Characters are read as themselves, and nothing is open behind them. -/
theorem decodeFrom_flatMap (chars : List Char) (rest : List UInt8) :
    decodeFrom none (chars.flatMap String.utf8EncodeChar ++ rest) =
      chars ++ decodeFrom none rest := by
  induction chars with
  | nil => rfl
  | cons c chars ih =>
    rw [List.flatMap_cons, List.append_assoc, (spells_encodeChar c).decodeFrom_append, ih,
      List.cons_append]

/-- Characters that are written behind other bytes are read behind what those are read as. -/
theorem decodeFrom_append_flatMap {open? : Option Partial} (hopen : ∀ p ∈ open?, p.Bounded)
    (bytes : List UInt8) (chars : List Char) :
    decodeFrom open? (bytes ++ chars.flatMap String.utf8EncodeChar) =
      decodeFrom open? bytes ++ chars := by
  have hread : decodeFrom none (chars.flatMap String.utf8EncodeChar) = chars := by
    have h := decodeFrom_flatMap chars []
    rwa [List.append_nil, decodeFrom, List.append_nil] at h
  induction bytes generalizing open? with
  | nil =>
    cases open? with
    | none => exact hread
    | some p =>
      cases chars with
      | nil => rfl
      | cons c chars =>
        have hp := hopen p rfl
        rw [List.nil_append, List.flatMap_cons, (spells_encodeChar c).decodeFrom_open hp,
          ← List.flatMap_cons, hread]
        rfl
  | cons b bytes ih =>
    rw [List.cons_append, decodeFrom, decodeFrom, ih fun p hp => bounded_of_accept hp,
      List.append_assoc]

/-- **A text that is written behind other bytes is read behind them**, even where those end within
a character. -/
theorem decodeLossy_append_encode (bytes : List UInt8) (text : String) :
    decodeLossy (bytes ++ encode text) = decodeLossy bytes ++ text := by
  have hnone : ∀ p ∈ (none : Option Partial), p.Bounded := fun p hp => nomatch Option.mem_def.1 hp
  rw [decodeLossy, encode_eq, decodeFrom_append_flatMap hnone, String.ofList_append,
    String.ofList_toList, decodeLossy]

/-- **A written text is read back.** -/
theorem decodeLossy_encode (text : String) : decodeLossy (encode text) = text := by
  have h := decodeLossy_append_encode [] text
  rwa [List.nil_append, show decodeLossy [] = "" from rfl, String.empty_append] at h

/-- What is behind a text is read as if it stood alone. -/
theorem decodeLossy_encode_append (text : String) (rest : List UInt8) :
    decodeLossy (encode text ++ rest) = text ++ decodeLossy rest := by
  rw [decodeLossy, encode_eq, decodeFrom_flatMap, String.ofList_append, String.ofList_toList,
    decodeLossy]

/-! ## Text that has come in part -/

/-- What is read from a beginning of the bytes of a text. -/
inductive Shows (text : String) : List UInt8 → String → Prop
  /-- The bytes end where a character does, and are read as the text up to there. -/
  | whole {front behind : String} (h : text = front ++ behind) : Shows text (encode front) front
  /-- The bytes end within a character, in whose place a mark is read. -/
  | cut {front behind : String} {c : Char} {part : List UInt8}
    (h : text = front ++ String.singleton c ++ behind) (hpart : part <+: String.utf8EncodeChar c)
    (hbegun : part ≠ []) (hless : part ≠ String.utf8EncodeChar c) :
    Shows text (encode front ++ part) (front ++ String.singleton replacement)

/-- More text in front is read in front. -/
theorem Shows.append {text shown : String} (h : Shows text bytes shown) (before : String) :
    Shows (before ++ text) (encode before ++ bytes) (before ++ shown) := by
  cases h with
  | @whole _ behind h =>
    have htext : before ++ text = before ++ shown ++ behind := by
      rw [h, String.append_assoc]
    rw [← encode_append]
    exact .whole htext
  | @cut front behind c part h hpart hbegun hless =>
    have htext : before ++ text = before ++ front ++ String.singleton c ++ behind := by
      rw [h]
      simp only [String.append_assoc]
    rw [← List.append_assoc, ← encode_append, ← String.append_assoc]
    exact .cut htext hpart hbegun hless

theorem shows_nothing (text : String) : Shows text [] (decodeLossy []) := by
  have htext : text = "" ++ text := String.empty_append.symm
  exact .whole htext

/-- Of the first character, there is nothing yet or a part. -/
theorem shows_of_part (hpart : part <+: String.utf8EncodeChar c)
    (hless : part ≠ String.utf8EncodeChar c) (behind : String) :
    Shows (String.singleton c ++ behind) part (decodeLossy part) := by
  by_cases hbegun : part = []
  · rw [hbegun]
    exact shows_nothing _
  · have htext : String.singleton c ++ behind = "" ++ String.singleton c ++ behind := by
      rw [String.empty_append]
    have hmark : decodeLossy part = String.singleton replacement := by
      rw [decodeLossy, (spells_encodeChar c).decodeFrom_part hpart hless hbegun]
      rfl
    rw [hmark]
    exact .cut htext hpart hbegun hless

/-- **Every beginning of a text is shown**, with one mark at most behind it. -/
theorem shows_decodeLossy {text : String} (h : bytes <+: encode text) :
    Shows text bytes (decodeLossy bytes) := by
  obtain ⟨chars, rfl⟩ : ∃ chars, text = String.ofList chars := ⟨_, String.ofList_toList.symm⟩
  rw [encode_ofList] at h
  induction chars generalizing bytes with
  | nil =>
    obtain rfl := List.prefix_nil.1 h
    exact shows_nothing _
  | cons c chars ih =>
    have htext : String.ofList (c :: chars) = String.singleton c ++ String.ofList chars := by
      rw [← List.singleton_append, String.ofList_append]
      rfl
    rw [List.flatMap_cons] at h
    rw [htext]
    by_cases hfirst : String.utf8EncodeChar c <+: bytes
    · -- the first character is complete, and the others are as if they stood alone
      obtain ⟨rest, rfl⟩ := hfirst
      have hrest := (List.prefix_append_right_inj _).1 h
      rw [← encode_singleton, decodeLossy_encode_append]
      exact (ih hrest).append _
    · have hpart : bytes <+: String.utf8EncodeChar c :=
        (List.prefix_or_prefix_of_prefix h (List.prefix_append _ _)).resolve_right hfirst
      refine shows_of_part hpart ?_ _
      rintro rfl
      exact hfirst List.prefix_rfl

end LS8.Utf8
