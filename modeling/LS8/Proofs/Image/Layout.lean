import LS8.Proofs.Image.Composition
import LS8.Proofs.Memory.Contents
import LS8.Proofs.Text.Numeral

/-!
# Layouts of an image

The many texts of one image. `Image.Layout text bytes` writes them down line by line, each byte
on a line of its own.

- `Image.Digits byte digits`: the binary digits of a byte, leading zeros or not.
- `Image.Row line bytes`: a line with a byte, with blanks before it and remarks behind it, or
  one with blanks and a comment only.
- `Image.layout_iff_spells`: the layouts are the texts whose lines spell the bytes. So a text
  is read as an image exactly if it is a layout of it (`Image.parse_layout`).
-/

namespace LS8.Image

open Numeral (padded valueBy)
open Text (isBlank splitAt)

variable {line text t digits surplus behind : List Char} {bytes bytes' : List UInt8}
  {byte : UInt8} {ls : List (List Char)}

/-! ## Digits -/

/-- The binary digits of a byte: all eight of them, or fewer if some of the zeros in front are
left out, but at least one. -/
def Digits (byte : UInt8) (digits : List Char) : Prop :=
  digits ≠ [] ∧ ∃ zeros, List.replicate zeros '0' ++ digits = padded 2 8 byte.toNat

theorem bit_digitChar : ∀ d < 2, bit (Nat.digitChar d) = d := by decide

theorem valueBy_bit (digits : List Char) :
    valueBy 2 bit digits = Nat.ofDigits 2 (digits.reverse.map bit) := by
  induction digits using List.reverseRecOn with
  | nil => rfl
  | append_singleton digits c ih =>
    rw [Numeral.valueBy_concat, ih, List.reverse_append, List.reverse_singleton,
      List.singleton_append, List.map_cons, Nat.ofDigits_cons]
    exact Nat.add_comm _ _

/-- Among binary numerals of one length no two have the same value. -/
theorem eq_of_valueBy_bit {xs ys : List Char} (hx : ∀ c ∈ xs, c = '0' ∨ c = '1')
    (hy : ∀ c ∈ ys, c = '0' ∨ c = '1') (hlength : xs.length = ys.length)
    (h : valueBy 2 bit xs = valueBy 2 bit ys) : xs = ys := by
  have hbit : ∀ zs : List Char, ∀ d ∈ zs.reverse.map bit, d < 2 := by
    intro zs d hd
    obtain ⟨c, -, rfl⟩ := List.mem_map.1 hd
    exact bit_lt c
  have hback : ∀ {zs : List Char}, (∀ c ∈ zs, c = '0' ∨ c = '1') →
      (zs.map bit).map Nat.digitChar = zs := by
    intro zs hz
    have hchar : ∀ c ∈ zs, (Nat.digitChar ∘ bit) c = c := by
      intro c hc
      rcases hz c hc with rfl | rfl <;> rfl
    rw [List.map_map, List.map_congr_left hchar, List.map_id']
  have hvalues : xs.reverse.map bit = ys.reverse.map bit := by
    rw [valueBy_bit, valueBy_bit] at h
    exact Nat.ofDigits_inj_of_len_eq (by decide) (by simp [hlength]) (hbit xs) (hbit ys) h
  have hbits : xs.map bit = ys.map bit := by
    rwa [List.map_reverse, List.map_reverse, List.reverse_inj] at hvalues
  rw [← hback hx, hbits, hback hy]

theorem length_padded_byte (byte : UInt8) : (padded 2 8 byte.toNat).length = 8 :=
  Numeral.length_padded (by decide) (by decide) byte.toNat_lt

theorem bit_of_mem_padded {c : Char} (hc : c ∈ padded 2 8 byte.toNat) : c = '0' ∨ c = '1' := by
  obtain ⟨d, hd, rfl⟩ := Numeral.exists_digitChar_of_mem_padded (by decide) hc
  have hall : ∀ d < 2, Nat.digitChar d = '0' ∨ Nat.digitChar d = '1' := by decide
  exact hall d hd

theorem digits_padded (byte : UInt8) : Digits byte (padded 2 8 byte.toNat) :=
  ⟨List.ne_nil_of_length_pos (by rw [length_padded_byte]; decide), 0, rfl⟩

/-- The digits of a byte are the binary numerals of at most eight digits that have its value. -/
theorem digits_iff : Digits byte digits ↔ digits ≠ [] ∧ digits.length ≤ 8 ∧
    (∀ c ∈ digits, c = '0' ∨ c = '1') ∧ valueBy 2 bit digits = byte.toNat := by
  have hlength := length_padded_byte byte
  have hbits : ∀ c ∈ padded 2 8 byte.toNat, c = '0' ∨ c = '1' := fun c => bit_of_mem_padded
  have hvalue : valueBy 2 bit (padded 2 8 byte.toNat) = byte.toNat :=
    Numeral.valueBy_padded (by decide) bit_digitChar _
  constructor
  · rintro ⟨hne, zeros, h⟩
    rw [← h] at hlength hbits hvalue
    rw [List.length_append] at hlength
    rw [Numeral.valueBy_zeros_append rfl] at hvalue
    exact ⟨hne, by omega, fun c hc => hbits c (List.mem_append_right _ hc), hvalue⟩
  · rintro ⟨hne, hle, hdigits, h⟩
    refine ⟨hne, 8 - digits.length, eq_of_valueBy_bit ?_ hbits ?_ ?_⟩
    · intro c hc
      rcases List.mem_append.1 hc with hzero | hdigit
      · exact .inl (List.eq_of_mem_replicate hzero)
      · exact hdigits c hdigit
    · rw [List.length_append, List.length_replicate, hlength]
      omega
    · rw [Numeral.valueBy_zeros_append rfl, h, hvalue]

theorem value_eq_valueBy (t : List Char) : value t = valueBy 2 bit (t.take 8) :=
  (valueBy_bit _).symm

/-! ## Rows -/

/-- A line of a layout, without its end, and the byte on it, if there is one. -/
inductive Row : List Char → List UInt8 → Prop
  /-- Nothing but blanks, and a comment perhaps. -/
  | void {blanks comment} (hblanks : ∀ c ∈ blanks, isBlank c = true)
      (hcomment : ∀ c ∈ comment.head?, c = '#') : Row (blanks ++ comment) []
  /-- The digits of a byte, with blanks in front. Right behind them other characters may stand
  if the digits are all eight, and behind these any text that begins with a blank or `#`. -/
  | entry {blanks digits surplus behind byte} (hblanks : ∀ c ∈ blanks, isBlank c = true)
      (hdigits : Digits byte digits) (hfull : surplus ≠ [] → digits.length = 8)
      (hsurplus : ∀ c ∈ surplus, isBlank c = false ∧ c ≠ '#')
      (hbehind : ∀ c ∈ behind.head?, isBlank c = true ∨ c = '#') :
      Row (blanks ++ digits ++ surplus ++ behind) [byte]

/-- The surplus is not read. -/
theorem take_append_surplus (hle : digits.length ≤ 8) (hfull : surplus ≠ [] → digits.length = 8) :
    (digits ++ surplus).take 8 = digits := by
  by_cases hnone : surplus = []
  · rw [hnone, List.append_nil, List.take_of_length_le hle]
  · rw [← hfull hnone, List.take_left]

theorem not_isToken_of_void {blanks comment : List Char} (hblanks : ∀ c ∈ blanks, isBlank c = true)
    (hcomment : ∀ c ∈ comment.head?, c = '#') : ¬ IsToken (blanks ++ comment) t := by
  have hcode : (blanks ++ comment).takeWhile (· != '#') = blanks := by
    refine Text.takeWhile_append_of_head (fun c hc => bne_iff_ne.2 ?_) fun c hc => ?_
    · rintro rfl
      exact absurd (hblanks _ hc) (by decide)
    · rw [hcomment c hc]
      rfl
  have hempty : token (blanks ++ comment) = [] := by
    rw [token, hcode, List.dropWhile_eq_nil_iff.2 hblanks, List.takeWhile_nil]
  intro ht
  obtain ⟨hne, rfl⟩ := isToken_iff.1 ht
  exact hne hempty

/-- Behind the token the comment begins with the first `#`. -/
theorem isToken_of_entry {blanks : List Char} (hblanks : ∀ c ∈ blanks, isBlank c = true)
    (hne : t ≠ []) (ht : ∀ c ∈ t, isBlank c = false ∧ c ≠ '#')
    (hbehind : ∀ c ∈ behind.head?, isBlank c = true ∨ c = '#') :
    IsToken (blanks ++ t ++ behind) t := by
  refine ⟨blanks, behind.takeWhile (· != '#'), behind.dropWhile (· != '#'), ?_, ?_, ?_, hblanks,
    hne, fun c hc => (ht c hc).1, ?_⟩
  · rw [List.append_assoc (blanks ++ t), List.takeWhile_append_dropWhile]
  · intro hmem
    rcases List.mem_append.1 hmem with hfront | hremark
    · rcases List.mem_append.1 hfront with hblank | htoken
      · exact absurd (hblanks _ hblank) (by decide)
      · exact (ht _ htoken).2 rfl
    · exact absurd (List.mem_takeWhile_imp hremark) (by decide)
  · intro c hc
    exact bne_eq_false_iff_eq.1 (Text.head?_dropWhile c hc)
  · intro c hc
    cases behind with
    | nil => cases hc
    | cons first more =>
      rw [List.takeWhile_cons] at hc
      split at hc
      · next hfirst =>
        obtain rfl := Option.some.inj hc
        exact (hbehind _ rfl).resolve_right (bne_iff_ne.1 hfirst)
      · cases hc

/-- A row is a line without a token, or one whose token is the byte. -/
theorem Row.spells (hrow : Row line bytes) (hrest : Spells ls bytes') :
    Spells (line :: ls) (bytes ++ bytes') := by
  cases hrow with
  | void hblanks hcomment => exact .skip (fun t => not_isToken_of_void hblanks hcomment) hrest
  | @entry blanks digits surplus behind byte hblanks hdigits hfull hsurplus hbehind =>
    obtain ⟨hne, hle, hbits, hvalue⟩ := digits_iff.1 hdigits
    have htake := take_append_surplus hle hfull
    have htoken : IsToken (blanks ++ digits ++ surplus ++ behind) (digits ++ surplus) := by
      rw [List.append_assoc blanks]
      refine isToken_of_entry hblanks (List.append_ne_nil_of_left_ne_nil hne _) ?_ hbehind
      refine List.forall_mem_append.2 ⟨fun c hc => ?_, hsurplus⟩
      rcases hbits c hc with rfl | rfl <;> decide
    refine .byte htoken ?_ ?_ hrest
    · rw [Binary, htake]
      exact hbits
    · rw [value_eq_valueBy, htake, hvalue]

theorem row_of_no_token (h : ∀ t, ¬ IsToken line t) : Row line [] := by
  have hempty : token line = [] := by
    by_contra hne
    exact h _ (isToken_token hne)
  have hblanks : ∀ c ∈ line.takeWhile (· != '#'), isBlank c = true := by
    rw [← List.dropWhile_eq_nil_iff]
    cases hcode : (line.takeWhile (· != '#')).dropWhile isBlank with
    | nil => rfl
    | cons c more =>
      have hc : isBlank c = false := Text.head?_dropWhile c (by rw [hcode]; rfl)
      rw [token, hcode, List.takeWhile_cons, hc] at hempty
      cases hempty
  have hcomment : ∀ c ∈ (line.dropWhile (· != '#')).head?, c = '#' := fun c hc =>
    bne_eq_false_iff_eq.1 (Text.head?_dropWhile c hc)
  have hrow := Row.void hblanks hcomment
  rwa [List.takeWhile_append_dropWhile] at hrow

theorem row_of_byte (ht : IsToken line t) (hbinary : Binary t) (hvalue : byte.toNat = value t) :
    Row line [byte] := by
  obtain ⟨blanks, remark, comment, rfl, hcode, hcomment, hblanks, hne, hchars, hremark⟩ := ht
  have hdigits : Digits byte (t.take 8) := by
    refine digits_iff.2 ⟨?_, List.length_take_le 8 t, hbinary, ?_⟩
    · rw [Ne, List.take_eq_nil_iff]
      exact not_or.2 ⟨by decide, hne⟩
    · rw [hvalue, value_eq_valueBy]
  have hfull : t.drop 8 ≠ [] → (t.take 8).length = 8 := by
    intro hmore
    rw [List.length_take]
    have := mt List.drop_eq_nil_of_le hmore
    omega
  have hsurplus : ∀ c ∈ t.drop 8, isBlank c = false ∧ c ≠ '#' := by
    intro c hc
    have hct := List.mem_of_mem_drop hc
    refine ⟨hchars c hct, ?_⟩
    rintro rfl
    exact hcode (List.mem_append_left _ (List.mem_append_right _ hct))
  have hbehind : ∀ c ∈ (remark ++ comment).head?, isBlank c = true ∨ c = '#' := by
    intro c hc
    cases remark with
    | nil => exact .inr (hcomment c hc)
    | cons first more => exact .inl (hremark c hc)
  have hrow := Row.entry hblanks hdigits hfull hsurplus hbehind
  rwa [List.append_assoc blanks, List.take_append_drop, ← List.append_assoc] at hrow

/-! ## Layouts -/

/-- A text that shows `bytes`, row by row. A row ends at a line feed, or at a carriage return and
a line feed. What stands behind the last of these is a row too, though it may be empty. -/
inductive Layout : List Char → List UInt8 → Prop
  | last {line : List Char} {bytes : List UInt8} (hrow : Row line bytes) (hline : '\n' ∉ line) :
    Layout line bytes
  | ended {line ending rest bytes bytes'} (hrow : Row line bytes) (hline : '\n' ∉ line)
      (hending : ending = ['\n'] ∨ ending = ['\r', '\n']) (hrest : Layout rest bytes') :
    Layout (line ++ ending ++ rest) (bytes ++ bytes')

/-- A carriage return at the end of a line is a blank of no account. -/
theorem spells_concat_return :
    Spells ((line ++ ['\r']) :: ls) bytes ↔ Spells (line :: ls) bytes := by
  have htokens : ((line ++ ['\r']) :: ls).map token = (line :: ls).map token := by
    rw [List.map_cons, List.map_cons, token_concat_blank (by decide)]
  rw [← readLines_eq_ok_iff (n := 1), readLines_congr htokens, readLines_eq_ok_iff]

theorem Layout.spells (h : Layout text bytes) : Spells (splitAt '\n' text) bytes := by
  induction h with
  | @last line bytes hrow hline =>
    have hlast := hrow.spells .nil
    rwa [List.append_nil, ← Text.splitAt_of_notMem hline] at hlast
  | @ended line ending rest bytes bytes' hrow hline hending hrest ih =>
    rcases hending with rfl | rfl
    · rw [List.append_assoc, List.singleton_append, Text.splitAt_append_separator hline]
      exact hrow.spells ih
    · have hreturn : '\n' ∉ line ++ ['\r'] := by simpa using hline
      have htext : line ++ ['\r', '\n'] ++ rest = line ++ ['\r'] ++ '\n' :: rest := by simp
      rw [htext, Text.splitAt_append_separator hreturn, spells_concat_return]
      exact hrow.spells ih

/-- A row in front of a layout, if it is the first piece of the text. -/
theorem Layout.of_splitAt (hrow : Row line bytes) (htext : splitAt '\n' text = line :: ls)
    (hls : Spells ls bytes') (hrest : ∀ rest, splitAt '\n' rest = ls → Layout rest bytes') :
    Layout text (bytes ++ bytes') := by
  obtain ⟨hline, ⟨rfl, rfl⟩ | ⟨rest, rfl, hpieces⟩⟩ := Text.eq_of_splitAt_eq_cons htext
  · cases hls
    rw [List.append_nil]
    exact .last hrow hline
  · have hended := Layout.ended hrow hline (.inl rfl) (hrest rest hpieces)
    rwa [List.append_assoc, List.singleton_append] at hended

theorem layout_of_spells (h : Spells ls bytes) :
    ∀ text, splitAt '\n' text = ls → Layout text bytes := by
  induction h with
  | nil =>
    intro text htext
    obtain ⟨piece, pieces, hpieces⟩ := Text.exists_splitAt_eq_cons '\n' text
    rw [htext] at hpieces
    cases hpieces
  | skip hnone hrest ih =>
    intro text htext
    exact .of_splitAt (row_of_no_token hnone) htext hrest ih
  | byte htoken hbinary hvalue hrest ih =>
    intro text htext
    exact .of_splitAt (row_of_byte htoken hbinary hvalue) htext hrest ih

/-- **The layouts are the texts whose lines spell the bytes.** -/
theorem layout_iff_spells : Layout text bytes ↔ Spells (splitAt '\n' text) bytes :=
  ⟨Layout.spells, fun h => layout_of_spells h text rfl⟩

/-- A text is read as an image exactly if it is a layout of it. -/
theorem parse_eq_ok_iff_layout {text : String} {image : Image} :
    parse text = .ok image ↔ Layout text.toList image.bytes := by
  rw [parse, map_mk_eq_ok_iff, ← readLines_splitAt, readLines_eq_ok_iff, layout_iff_spells]

/-- The plainest text of an image: all eight digits of each byte, and nothing else. -/
def plainText (bytes : List UInt8) : String :=
  String.ofList (bytes.flatMap fun byte => padded 2 8 byte.toNat ++ ['\n'])

theorem layout_plainText (bytes : List UInt8) : Layout (plainText bytes).toList bytes := by
  rw [plainText, String.toList_ofList]
  induction bytes with
  | nil =>
    have hrow : Row ([] ++ []) [] := .void nofun nofun
    exact .last hrow nofun
  | cons byte bytes ih =>
    have hrow : Row ([] ++ padded 2 8 byte.toNat ++ [] ++ []) [byte] :=
      .entry nofun (digits_padded byte) (absurd rfl) nofun nofun
    simp only [List.nil_append, List.append_nil] at hrow
    have hline : '\n' ∉ padded 2 8 byte.toNat := fun hmem =>
      absurd (bit_of_mem_padded hmem) (by decide)
    exact .ended hrow hline (.inl rfl) ih

/-- **Written images are read back.** Every list of bytes has layouts, and these are exactly the
texts that are read as its image. If it is not too long, it is then loaded into empty memory as it
is, and zeros follow. -/
theorem parse_layout (bytes : List UInt8) :
    (∃ text : String, Layout text.toList bytes) ∧
    (∀ text : String, parse text = .ok ⟨bytes⟩ ↔ Layout text.toList bytes) ∧
    (bytes.length ≤ 256 → (Memory.zero.load bytes).fault = none ∧
      (Memory.zero.load bytes).state.cells.toList =
        bytes ++ List.replicate (256 - bytes.length) 0) :=
  ⟨⟨_, layout_plainText bytes⟩, fun _ => parse_eq_ok_iff_layout, fun hfits =>
    ⟨Memory.fault_load_eq_none_iff.2 hfits, Memory.toList_cells_load_zero hfits⟩⟩

theorem parse_layout_remarks :
    parse "# five\r\n\t101 rest\n00000001x#z" = .ok ⟨[5, 1]⟩ ∧
      (Memory.zero.load [5, 1]).state.cells.toList = [5, 1] ++ List.replicate 254 0 := by
  obtain ⟨-, hread, hload⟩ := parse_layout [5, 1]
  have hcomment : Row ([] ++ "# five".toList) [] := .void nofun (by rintro c ⟨⟩; rfl)
  have hfive : Row (['\t'] ++ "101".toList ++ [] ++ " rest".toList) [5] :=
    .entry (List.forall_mem_singleton.2 rfl) ⟨by decide, 5, rfl⟩ (absurd rfl) nofun
      (by rintro c ⟨⟩; exact .inl rfl)
  have hone : Row ([] ++ "00000001".toList ++ ['x'] ++ "#z".toList) [1] :=
    .entry nofun ⟨by decide, 0, rfl⟩ (fun _ => rfl) (List.forall_mem_singleton.2 (by decide))
      (by rintro c ⟨⟩; exact .inr rfl)
  have hlast := Layout.last hone (by decide)
  have hlayout := Layout.ended hcomment (by decide) (.inr rfl)
    (.ended hfive (by decide) (.inl rfl) hlast)
  exact ⟨(hread _).2 hlayout, (hload (by decide)).2⟩

end LS8.Image
