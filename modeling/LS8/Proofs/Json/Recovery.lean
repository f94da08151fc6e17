import LS8.Proofs.Json.Reader
import LS8.Proofs.Text.Lines
import LS8.Proofs.Text.Numeral

/-!
# Written objects read back

`Json.read_object`: what `Json.object` writes is a JSON text, and reading it gives back every
field with the text or the number in it, whatever characters the texts are made of.
`Json.lineFeed_notMem_object`: it is a single line.

The parts of an object are recovered one by one, each with an arbitrary text behind it: the
characters of a string by their escapes (`Json.pieces_escape`), numbers by their digits
(`Json.number_toDigits`), and the members by the commas between them.
-/

namespace LS8.Json

variable {c : Char} {text rest : List Char} {n : Nat}

/-! ## Strings -/

/-- The piece as which a character is written. -/
def pieceOf (c : Char) : Piece :=
  if c.toNat < 0x20 ∧ c ∉ ['\n', '\r', '\t', '\x08', '\x0c'] then .unit c.toNat else .char c

theorem hexDigit?_digitChar : ∀ d < 16, hexDigit? (Nat.digitChar d) = some d := by
  decide

theorem pieces_plain (hquote : c ≠ '\x22') (hslash : c ≠ '\\') (h : ¬ c.toNat < 0x20)
    (rest : List Char) :
    pieces (c :: rest) = (pieces rest).map fun read => (.char c :: read.1, read.2) := by
  rw [pieces]
  · rw [if_neg hquote, if_neg (not_or.2 ⟨hslash, h⟩)]
    cases pieces rest <;> rfl
  · rintro _ _ _ _ _ rfl
    exact absurd rfl hslash
  · rintro _ _ rfl
    exact absurd rfl hslash

/-- A backslash and one character. -/
theorem pieces_short {d : Char} (hd : escaped? d = some c) (rest : List Char) :
    pieces ('\\' :: d :: rest) = (pieces rest).map fun read => (.char c :: read.1, read.2) := by
  rw [pieces]
  · rw [hd]
    cases pieces rest <;> rfl
  · rintro _ _ _ _ _ rfl
    cases hd

/-- The mark `\u` and four digits, the first two of them zero. -/
theorem pieces_long (h : n < 0x20) (rest : List Char) :
    pieces ('\\' :: 'u' :: '0' :: '0' :: Nat.digitChar (n / 16) :: Nat.digitChar (n % 16) :: rest)
      = (pieces rest).map fun read => (.unit n :: read.1, read.2) := by
  have hzero : hexDigit? '0' = some 0 := rfl
  simp only [pieces, hzero, hexDigit?_digitChar (n / 16) (by omega),
    hexDigit?_digitChar (n % 16) (by omega)]
  cases pieces rest with
  | none => rfl
  | some read => simp [Nat.div_add_mod']

/-- **The escape of a character is read as this character.** -/
theorem pieces_escape (c : Char) (rest : List Char) :
    pieces (escape c ++ rest) = (pieces rest).map fun read => (pieceOf c :: read.1, read.2) := by
  unfold escape
  -- seven characters have an escape of their own
  iterate 7
    split
    · next h =>
      subst h
      exact pieces_short rfl rest
  split
  · next hcontrol =>
    have hpiece : pieceOf c = .unit c.toNat := by simp_all [pieceOf]
    rw [hpiece]
    exact pieces_long hcontrol rest
  · next hquote hslash _ _ _ _ _ hcontrol =>
    have hpiece : pieceOf c = .char c := if_neg fun h => hcontrol h.1
    rw [hpiece]
    exact pieces_plain hquote hslash hcontrol rest

theorem pieces_flatMap_escape (text rest : List Char) :
    pieces (text.flatMap escape ++ '\x22' :: rest) = some (text.map pieceOf, rest) := by
  induction text with
  | nil => rfl
  | cons c text ih =>
    rw [List.flatMap_cons, List.append_assoc, pieces_escape, ih]
    rfl

theorem assemble_unit (h : n < 0x20) (more : List Piece) :
    assemble (.unit n :: more) = (assemble more).map (Char.ofNat n :: ·) := by
  have hhigh : isHigh n = false := by
    rw [isHigh, Bool.and_eq_false_iff, decide_eq_false_iff_not]
    omega
  have hlow : isLow n = false := by
    rw [isLow, Bool.and_eq_false_iff, decide_eq_false_iff_not]
    omega
  rcases more with _ | ⟨_ | _, more⟩ <;> simp [assemble, hhigh, hlow]

theorem assemble_map_pieceOf (text : List Char) : assemble (text.map pieceOf) = some text := by
  induction text with
  | nil => rfl
  | cons c text ih =>
    rw [List.map_cons]
    by_cases hc : c.toNat < 0x20 ∧ c ∉ ['\n', '\r', '\t', '\x08', '\x0c']
    · rw [pieceOf, if_pos hc, assemble_unit hc.1, ih, Char.ofNat_toNat]
      rfl
    · rw [pieceOf, if_neg hc, assemble, ih]
      rfl

/-- **A written string is read as its text.** -/
theorem stringBody_escape (s : String) (rest : List Char) :
    stringBody (s.toList.flatMap escape ++ '\x22' :: rest) = some (s, rest) := by
  simp [stringBody, pieces_flatMap_escape, assemble_map_pieceOf]

theorem toList_string (s : String) :
    (string s).toList = '\x22' :: (s.toList.flatMap escape ++ ['\x22']) := by
  rw [string, String.toList_ofList, List.cons_append]

/-! ## Numbers -/

/-- A numeral begins with a digit, and only that of zero with a zero. -/
theorem exists_toDigits_eq_cons (n : Nat) : ∃ d ds, Nat.toDigits 10 n = d :: ds ∧
    d.isDigit = true ∧ (d = '0' → n = 0) := by
  induction n using Nat.strongRecOn with
  | ind n ih =>
    by_cases hn : n < 10
    · have hdigit : ∀ n < 10, (Nat.digitChar n).isDigit = true ∧
          (Nat.digitChar n = '0' → n = 0) := by decide
      exact ⟨_, [], Nat.toDigits_of_lt_base hn, hdigit n hn⟩
    · have hle : 10 ≤ n := Nat.le_of_not_lt hn
      obtain ⟨d, ds, hfront, hdigit, hzero⟩ := ih (n / 10) (by omega)
      refine ⟨d, ds ++ [Nat.digitChar (n % 10)], ?_, hdigit, fun hd => ?_⟩
      · rw [Nat.toDigits_of_base_le (by decide) hle, hfront, List.cons_append]
      · have := hzero hd
        omega

theorem digits_toDigits (h : ∀ c ∈ rest.head?, c.isDigit = false) (n : Nat) :
    digits (Nat.toDigits 10 n ++ rest) = some (Nat.toDigits 10 n, rest) := by
  have hrun : ∀ c ∈ Nat.toDigits 10 n, c.isDigit = true := fun _ =>
    Nat.isDigit_of_mem_toDigits (by decide) (by decide)
  rw [digits, Text.takeWhile_append_of_head hrun h, Text.dropWhile_append_of_head hrun h,
    if_neg Nat.toDigits_ne_nil]

/-- **A written number is read as this number**, if a comma or the end of an object follows. -/
theorem number_toDigits (hc : c = ',' ∨ c = '\x7d') (n : Nat) (rest : List Char) :
    number (Nat.toDigits 10 n ++ c :: rest) = some (.number n 0, c :: rest) := by
  obtain ⟨d, ds, hdigits, hdigit, hzero⟩ := exists_toDigits_eq_cons n
  have hminus : minus (Nat.toDigits 10 n ++ c :: rest) =
      (false, Nat.toDigits 10 n ++ c :: rest) := by
    rw [hdigits, List.cons_append]
    unfold minus
    split
    · next h =>
      obtain ⟨rfl, -⟩ := List.cons.inj h
      cases hdigit
    · rfl
  have hdigits' : digits (Nat.toDigits 10 n ++ c :: rest) =
      some (Nat.toDigits 10 n, c :: rest) := by
    refine digits_toDigits ?_ n
    rintro _ ⟨⟩
    rcases hc with rfl | rfl <;> rfl
  have hwhole : ¬ ((Nat.toDigits 10 n).head? = some '0' ∧ (Nat.toDigits 10 n).length ≠ 1) := by
    rintro ⟨hhead, hlength⟩
    rw [hdigits] at hhead
    obtain rfl := hzero (Option.some.inj hhead)
    exact hlength rfl
  have hfraction : fraction (c :: rest) = some ([], c :: rest) := by
    rcases hc with rfl | rfl <;> rfl
  have hexponent : exponent (c :: rest) = some (0, c :: rest) := by
    rcases hc with rfl | rfl <;> rfl
  simp [number, hminus, hdigits', hwhole, hfraction, hexponent, signed]

/-! ## Objects -/

/-- What a field's value says. -/
def Value.document : Value → Document
  | .text s => .string s
  | .number n => .number n 0

theorem skip_of_not_isSpace (h : isSpace c = false) (rest : List Char) :
    skip (c :: rest) = c :: rest := by
  rw [skip, List.dropWhile_cons, h, if_neg nofun]

/-- A field's value is read back. -/
theorem value_render (v : Value) (hc : c = ',' ∨ c = '\x7d') (depth : Nat) (rest : List Char) :
    value (depth + 1) (v.render.toList ++ c :: rest) = some (v.document, c :: rest) := by
  cases v with
  | text s =>
    have htext : (string s).toList ++ c :: rest =
        '\x22' :: (s.toList.flatMap escape ++ '\x22' :: c :: rest) := by
      simp [toList_string]
    rw [Value.render, htext, value, skip_of_not_isSpace rfl]
    simp [stringBody_escape, Value.document]
  | number n =>
    rw [Value.render, String.toList_ofList, value]
    have hnumber := number_toDigits hc n rest
    obtain ⟨d, ds, hdigits, hdigit, -⟩ := exists_toDigits_eq_cons n
    rw [hdigits, List.cons_append] at hnumber ⊢
    have hother : ∀ mark : Char, mark.isDigit = false → d ≠ mark := by
      rintro mark hmark rfl
      cases hmark.symm.trans hdigit
    have hspace : isSpace d = false := by
      simp [isSpace, hother ' ' rfl, hother '\t' rfl, hother '\n' rfl, hother '\r' rfl]
    simp [skip_of_not_isSpace hspace, hother '\x22' rfl, hother '[' rfl, hother '\x7b' rfl, hdigit,
      hnumber, Value.document]

/-- What a field says. -/
def fieldDocument (field : String × Value) : String × Document :=
  (field.1, field.2.document)

/-- A field as it is written. -/
def fieldText (field : String × Value) : List Char :=
  (string field.1 ++ ":" ++ field.2.render).toList

/-- A field is read back. -/
theorem member_fieldText (field : String × Value) (hc : c = ',' ∨ c = '\x7d') (depth : Nat)
    (rest : List Char) :
    member (value (depth + 1)) (fieldText field ++ c :: rest) =
      some (fieldDocument field, c :: rest) := by
  have htext : fieldText field ++ c :: rest = '\x22' :: (field.1.toList.flatMap escape ++
      '\x22' :: ':' :: (field.2.render.toList ++ c :: rest)) := by
    simp [fieldText, toList_string]
  rw [htext, member, skip_of_not_isSpace rfl]
  simp [stringBody_escape, skip_of_not_isSpace, isSpace, value_render _ hc, fieldDocument]

/-- Fields with commas between them are read back one after the other. -/
theorem itemsFor_fieldTexts (first : String × Value) (others : List (String × Value))
    (depth : Nat) (hn : others.length < n) (rest : List Char) :
    itemsFor '\x7d' (member (value (depth + 1))) n
        (fieldText first ++ others.flatMap (',' :: fieldText ·) ++ '\x7d' :: rest) =
      some ((first :: others).map fieldDocument, rest) := by
  induction others generalizing first n with
  | nil =>
    obtain ⟨n, rfl⟩ := Nat.exists_eq_add_of_lt hn
    rw [itemsFor, List.flatMap_nil, List.append_nil, member_fieldText first (.inr rfl)]
    simp [skip_of_not_isSpace, isSpace]
  | cons next others ih =>
    obtain ⟨n, rfl⟩ : ∃ k, n = k + 1 := ⟨n - 1, by omega⟩
    have hothers := ih next (Nat.lt_of_succ_lt_succ hn)
    rw [List.append_assoc] at hothers
    rw [itemsFor, List.flatMap_cons, List.cons_append, List.append_assoc, List.cons_append,
      member_fieldText first (.inl rfl)]
    simp [skip_of_not_isSpace, isSpace, hothers]

theorem toList_object (fields : List (String × Value)) :
    (object fields).toList =
      '\x7b' :: ([','].intercalate (fields.map fieldText) ++ ['\x7d']) := by
  simp only [object, String.toList_append, String.toList_intercalate, List.map_map]
  rfl

/-- Each field takes a character. -/
theorem length_le_length_flatMap (fields : List (String × Value)) :
    fields.length ≤ (fields.flatMap (',' :: fieldText ·)).length := by
  induction fields with
  | nil => exact Nat.le_refl 0
  | cons field fields ih =>
    rw [List.flatMap_cons, List.length_append, List.length_cons, List.length_cons]
    omega

theorem items_fieldTexts (fields : List (String × Value)) (depth : Nat) (rest : List Char) :
    items '\x7d' (member (value (depth + 1)))
        ([','].intercalate (fields.map fieldText) ++ '\x7d' :: rest) =
      some (fields.map fieldDocument, rest) := by
  cases fields with
  | nil => simp [items, skip_of_not_isSpace, isSpace]
  | cons first others =>
    have hbody : [','].intercalate ((first :: others).map fieldText) =
        fieldText first ++ others.flatMap (',' :: fieldText ·) := by
      rw [List.map_cons, Text.intercalate_cons, List.flatMap_map]
    have hcount : others.length < (fieldText first ++ others.flatMap (',' :: fieldText ·)
        ++ '\x7d' :: rest).length := by
      have := length_le_length_flatMap others
      rw [List.length_append, List.length_append, List.length_cons]
      omega
    have hread := itemsFor_fieldTexts first others depth hcount rest
    rw [hbody, items]
    -- what is first is a quotation mark, neither a blank nor the end
    obtain ⟨tail, htail⟩ : ∃ tail, fieldText first = '\x22' :: tail := by
      rw [fieldText, String.toList_append, String.toList_append, toList_string, List.cons_append,
        List.cons_append]
      exact ⟨_, rfl⟩
    rw [htail] at hread ⊢
    rw [List.cons_append, List.cons_append, skip_of_not_isSpace rfl] at *
    simpa using hread

theorem value_object (fields : List (String × Value)) (depth : Nat) :
    value (depth + 2) ('\x7b' :: ([','].intercalate (fields.map fieldText) ++ ['\x7d'])) =
      some (.object (fields.map fieldDocument), []) := by
  rw [value, skip_of_not_isSpace rfl]
  simp [items_fieldTexts]

/-- **A written object is read back**, with all that is in its fields. -/
theorem read_object (fields : List (String × Value)) :
    read (object fields) = some (.object (fields.map fieldDocument)) := by
  -- the text is long enough for the object and the values in it
  obtain ⟨depth, hdepth⟩ : ∃ depth, (object fields).length = depth + 2 := by
    refine ⟨([','].intercalate (fields.map fieldText)).length, ?_⟩
    rw [← String.length_toList, toList_object, List.length_cons, List.length_append,
      List.length_singleton]
  rw [read, hdepth, toList_object, value_object]
  rfl

/-! ## One line -/

theorem lineFeed_notMem_string (s : String) : '\n' ∉ (string s).toList := by
  rw [toList_string]
  intro h
  simp only [List.mem_cons, List.mem_append, List.mem_flatMap, List.not_mem_nil, or_false] at h
  rcases h with h | ⟨c, -, hc⟩ | h
  · cases h
  · exact ne_lineFeed_of_mem_escape hc rfl
  · cases h

theorem lineFeed_notMem_render (v : Value) : '\n' ∉ v.render.toList := by
  cases v with
  | text s => exact lineFeed_notMem_string s
  | number n =>
    rw [Value.render, String.toList_ofList]
    exact Numeral.notMem_toDigits rfl n

theorem lineFeed_notMem_fieldText (field : String × Value) : '\n' ∉ fieldText field := by
  rw [fieldText, String.toList_append, String.toList_append, List.mem_append, List.mem_append]
  rintro ((h | h) | h)
  · exact lineFeed_notMem_string _ h
  · cases List.mem_singleton.1 h
  · exact lineFeed_notMem_render _ h

/-- **A written object is a single line.** -/
theorem lineFeed_notMem_object (fields : List (String × Value)) :
    '\n' ∉ (object fields).toList := by
  have hbody : '\n' ∉ [','].intercalate (fields.map fieldText) := by
    cases fields with
    | nil => exact List.not_mem_nil
    | cons first others =>
      rw [List.map_cons, Text.intercalate_cons, List.flatMap_map, List.mem_append,
        List.mem_flatMap]
      rintro (h | ⟨field, -, h⟩)
      · exact lineFeed_notMem_fieldText first h
      · exact lineFeed_notMem_fieldText field (List.mem_of_ne_of_mem (by decide) h)
  rw [toList_object]
  simp [hbody]

end LS8.Json
