import Mathlib.Data.List.TakeDrop
import LS8.Proofs.Toml.Literal

/-!
# Documents of plain lines

A line that opens a table, or sets a key to an integer or a truth value, can stand among blank
lines and comments of any kind.

- `Toml.Line` is such a line, and `Toml.Writes` says which texts have given lines;
- `Toml.expression?_line` and `Toml.expression?_void`: what one line is read as;
- `Toml.parse_of_writes`: a text is the document of its lines if all of them can be read, and
  `Toml.exists_parse_error`: else it is none.

How the lines are laid out does not matter, since a reader that has come to the end of what a line
says passes over the rest of it (`Toml.EndsLine.lineEnd?`).
-/

namespace LS8.Toml

/-! ## Lines and how they are written -/

/-- A key that needs no quotation marks. -/
def IsBareKey (key : Key) : Prop :=
  key ≠ [] ∧ ∀ c ∈ key, isBare c = true

instance (key : Key) : Decidable (IsBareKey key) :=
  decidable_of_iff (key ≠ [] ∧ key.all isBare = true) (and_congr_right fun _ => List.all_eq_true)

/-- A line that opens a table or sets a value. -/
inductive Line where
  | header (key : Key)
  | assignment (key : Key) (value : Literal)

namespace Line

/-- What is written for a line. -/
def text : Line → List Char
  | header key => '[' :: (key ++ [']'])
  | assignment key value => key ++ ' ' :: '=' :: ' ' :: value.text

/-- What a line is read as. -/
def expression : Line → Expression
  | header key => .header [key]
  | assignment key value => .assignment [key] value.item

/-- The key of a line needs no quotation marks. -/
def Bare : Line → Prop
  | header key | assignment key _ => IsBareKey key

/-- A line can be read. -/
def Readable : Line → Prop
  | header _ => True
  | assignment _ value => value.Readable

end Line

/-- A line is over, and `rest` is what stands behind its end. -/
inductive Breaks : List Char → List Char → Prop
  | lineFeed (rest) : Breaks ('\n' :: rest) rest
  | carriageReturn (rest) : Breaks ('\r' :: '\n' :: rest) rest
  | endOfText : Breaks [] []

/-- A line says nothing more: what is left of it is blanks and perhaps a comment. -/
inductive EndsLine : List Char → List Char → Prop
  | blank {text rest : List Char} (blanks) (hblanks : ∀ c ∈ blanks, isSpace c = true)
    (h : Breaks text rest) : EndsLine (blanks ++ text) rest
  | comment {text rest : List Char} (blanks remark) (hblanks : ∀ c ∈ blanks, isSpace c = true)
    (hremark : ∀ c ∈ remark, isPlain c = true) (h : Breaks text rest) :
    EndsLine (blanks ++ '#' :: (remark ++ text)) rest

/-- A text with the given lines, and with any blank lines and lines of comment between them. -/
inductive Writes : List Line → List Char → Prop
  | nil : Writes [] []
  | void {lines tail rest} (hend : EndsLine tail rest) (h : Writes lines rest) :
    Writes lines tail
  | line {line : Line} {lines tail rest} (blanks) (hblanks : ∀ c ∈ blanks, isSpace c = true)
    (hend : EndsLine tail rest) (h : Writes lines rest) :
    Writes (line :: lines) (blanks ++ line.text ++ tail)

variable {text tail rest blanks : List Char} {key : Key} {value : Literal} {line : Line}
  {lines : List Line}

/-! ## The end of a line -/

theorem Breaks.head? (h : Breaks text rest) : ∀ c ∈ text.head?, c = '\n' ∨ c = '\r' := by
  cases h with
  | lineFeed => rintro c ⟨⟩; exact .inl rfl
  | carriageReturn => rintro c ⟨⟩; exact .inr rfl
  | endOfText => exact nofun

theorem skipSpace_append (hblanks : ∀ c ∈ blanks, isSpace c = true)
    (htext : ∀ c ∈ text.head?, isSpace c = false) : skipSpace (blanks ++ text) = text :=
  Text.dropWhile_append_of_head hblanks htext

theorem Breaks.lineEnd? (h : Breaks text rest) (comment : List Char)
    (hcomment : skipComment (comment ++ text) = text) (hblanks : ∀ c ∈ blanks, isSpace c = true)
    (hhead : ∀ c ∈ (comment ++ text).head?, isSpace c = false) :
    lineEnd? (blanks ++ (comment ++ text)) = some rest := by
  rw [Toml.lineEnd?, skipSpace_append hblanks hhead, hcomment]
  cases h <;> rfl

/-- **The end of a line is passed over**, with all that does not count before it. -/
theorem EndsLine.lineEnd? (h : EndsLine tail rest) : lineEnd? tail = some rest := by
  cases h with
  | blank blanks hblanks h =>
    refine h.lineEnd? [] ?_ hblanks fun c hc => ?_
    · cases h <;> rfl
    · rcases h.head? c hc with rfl | rfl <;> rfl
  | @comment text _ blanks remark hblanks hremark h =>
    refine h.lineEnd? ('#' :: remark) ?_ hblanks ?_
    · refine Text.dropWhile_append_of_head hremark fun c hc => ?_
      rcases h.head? c hc with rfl | rfl <;> rfl
    · rintro c ⟨⟩
      rfl

/-- Without the blanks in front it is still the end of a line. -/
theorem EndsLine.skipSpace (h : EndsLine tail rest) :
    (skipSpace tail).head? ≠ some '[' ∧ EndsLine (skipSpace tail) rest := by
  cases h with
  | blank blanks hblanks h =>
    rw [skipSpace_append hblanks]
    · refine ⟨fun hc => ?_, .blank [] nofun h⟩
      rcases h.head? _ hc with heq | heq <;> cases heq
    · intro c hc
      rcases h.head? c hc with rfl | rfl <;> rfl
  | comment blanks remark hblanks hremark h =>
    rw [skipSpace_append hblanks]
    · refine ⟨?_, .comment [] remark nofun hremark h⟩
      rintro ⟨⟩
    · rintro _ ⟨⟩
      rfl

theorem stops_append (hblanks : ∀ c ∈ blanks, isSpace c = true) (h : Stops text) :
    Stops (blanks ++ text) := by
  cases blanks with
  | nil => exact h
  | cons c more =>
    have hspace := hblanks c List.mem_cons_self
    simp only [isSpace, Bool.or_eq_true, beq_iff_eq] at hspace
    rintro _ ⟨⟩
    rcases hspace with rfl | rfl <;> simp

theorem EndsLine.stops (h : EndsLine tail rest) : Stops tail := by
  cases h with
  | blank blanks hblanks h =>
    refine stops_append hblanks fun c hc => ?_
    rcases h.head? c hc with rfl | rfl <;> simp
  | comment blanks remark hblanks hremark h =>
    refine stops_append hblanks ?_
    rintro _ ⟨⟩
    simp

/-- The end of a line takes at least one character, unless the text is over. -/
theorem EndsLine.length_lt (h : EndsLine tail rest) :
    tail = [] ∧ rest = [] ∨ rest.length < tail.length := by
  cases h with
  | blank blanks hblanks h =>
    rw [List.length_append]
    cases h with
    | endOfText => cases blanks <;> simp
    | lineFeed | carriageReturn =>
      right
      simp only [List.length_cons]
      omega
  | comment blanks remark hblanks hremark h =>
    right
    simp only [List.length_append, List.length_cons]
    cases h <;> simp only [List.length_cons, List.length_nil] <;> omega

/-! ## Keys -/

theorem IsBareKey.exists_cons (h : IsBareKey key) :
    ∃ c more, key = c :: more ∧ isBare c = true := by
  obtain ⟨c, more, rfl⟩ := List.exists_cons_of_ne_nil h.1
  exact ⟨c, more, rfl, h.2 c List.mem_cons_self⟩

theorem skipSpace_of_bare {c : Char} (hc : isBare c = true) (more : List Char) :
    skipSpace (c :: more) = c :: more := by
  refine @skipSpace_append (c :: more) [] nofun ?_
  rintro _ ⟨⟩
  exact isSpace_of_isBare hc

theorem simpleKey?_of_bare (hkey : IsBareKey key) (hstop : ∀ c ∈ rest.head?, isBare c = false) :
    simpleKey? (key ++ rest) = some (key, rest) := by
  obtain ⟨c, more, rfl, hc⟩ := hkey.exists_cons
  have hspan : (c :: more ++ rest).span isBare = (c :: more, rest) := by
    rw [List.span_eq_takeWhile_dropWhile, Text.takeWhile_append_of_head hkey.2 hstop,
      Text.dropWhile_append_of_head hkey.2 hstop]
  rw [List.cons_append] at hspan ⊢
  simp only [simpleKey?, if_neg (isBare_ne hc (rfl : isBare quote = false)),
    if_neg (isBare_ne hc (rfl : isBare apostrophe = false)), hspan]

/-- A key without quotation marks is read up to a character that cannot be in it. If that is no
point, not even behind blanks, then this is all of the key. -/
theorem keyPath?_of_bare (hkey : IsBareKey key) (hstop : ∀ c ∈ rest.head?, isBare c = false)
    (hpoint : ∀ c ∈ (skipSpace rest).head?, c ≠ '.') :
    keyPath? (key ++ rest) = some ([key], skipSpace rest) := by
  have hfront : skipSpace (key ++ rest) = key ++ rest := by
    obtain ⟨c, more, rfl, hc⟩ := hkey.exists_cons
    exact skipSpace_of_bare hc _
  have hpath : keyPathFrom? ((key ++ rest).length + 1) (key ++ rest) =
      some ([key], skipSpace rest) := by
    rw [keyPathFrom?, hfront, simpleKey?_of_bare hkey hstop]
    simp only [Option.bind_eq_bind, Option.bind_some]
    split
    · next more heq =>
      rw [heq] at hpoint
      exact absurd rfl (hpoint _ rfl)
    · rfl
  rw [keyPath?, hpath]
  rfl

/-! ## Expressions -/

/-- Nothing is said by a line with blanks and a comment only. -/
theorem expression?_void (h : EndsLine tail rest) : expression? tail = some (none, rest) := by
  obtain ⟨hhead, hend⟩ := h.skipSpace
  unfold expression?
  split
  · next heq => exact absurd (congrArg List.head? heq) hhead
  · next heq => exact absurd (congrArg List.head? heq) hhead
  · simp only [hend.lineEnd?]

theorem expression?_header (hkey : IsBareKey key) (hblanks : ∀ c ∈ blanks, isSpace c = true)
    (h : EndsLine tail rest) : expression? (blanks ++ (Line.header key).text ++ tail) =
      some (some (.header [key]), rest) := by
  have hfront : skipSpace (blanks ++ (Line.header key).text ++ tail) =
      '[' :: (key ++ (']' :: tail)) := by
    rw [List.append_assoc, skipSpace_append hblanks]
    · simp [Line.text]
    · rintro c ⟨⟩
      rfl
  have hpath : keyPath? (key ++ (']' :: tail)) = some ([key], ']' :: tail) := by
    refine keyPath?_of_bare hkey ?_ ?_
    · rintro c ⟨⟩
      rfl
    · rintro c ⟨⟩
      decide
  have hbracket : ∀ more, key ++ (']' :: tail) ≠ '[' :: more := by
    obtain ⟨c, more, rfl, hc⟩ := hkey.exists_cons
    intro more' heq
    exact isBare_ne hc (rfl : isBare '[' = false) (List.cons.inj heq).1
  unfold expression?
  rw [hfront]
  split
  · next heq => exact absurd (List.cons.inj heq).2 (hbracket _)
  · next heq =>
    obtain rfl := (List.cons.inj heq).2
    simp [hpath, expect?, h.lineEnd?]
  · next hnot => exact absurd rfl (hnot _)

theorem lineEnd?_of_bare {c : Char} (hc : isBare c = true) (more : List Char) :
    lineEnd? (c :: more) = none := by
  have hcomment : skipComment (c :: more) = c :: more := by
    rw [skipComment]
    intro rest h
    exact isBare_ne hc (rfl : isBare '#' = false) (List.cons.inj h).1
  have hnewline : newline? (c :: more) = none := by
    rw [newline?]
    · intro rest h
      exact isBare_ne hc (rfl : isBare '\n' = false) (List.cons.inj h).1
    · intro rest h
      exact isBare_ne hc (rfl : isBare '\r' = false) (List.cons.inj h).1
  rw [lineEnd?, skipSpace_of_bare hc, hcomment]
  exact hnewline

/-- A line that sets a value is read as far as its value is. -/
theorem expression?_value (hkey : IsBareKey key) (hblanks : ∀ c ∈ blanks, isSpace c = true)
    (tail : List Char) : expression? (blanks ++ (Line.assignment key value).text ++ tail) =
      (item? (depthLimit - 1) (value.text ++ tail)).bind fun found =>
        (lineEnd? found.2).map fun rest => (some (.assignment [key] found.1), rest) := by
  obtain ⟨first, more, hfirst, hbare⟩ := hkey.exists_cons
  have hfront : skipSpace (blanks ++ (Line.assignment key value).text ++ tail) =
      key ++ (' ' :: '=' :: ' ' :: (value.text ++ tail)) := by
    rw [List.append_assoc, skipSpace_append hblanks]
    · simp [Line.text]
    · rw [Line.text, hfirst]
      rintro _ ⟨⟩
      exact isSpace_of_isBare hbare
  have hpath : keyPath? (key ++ (' ' :: '=' :: ' ' :: (value.text ++ tail))) =
      some ([key], '=' :: ' ' :: (value.text ++ tail)) := by
    refine keyPath?_of_bare hkey ?_ ?_
    · rintro c ⟨⟩
      rfl
    · rintro c ⟨⟩
      decide
  have hnone : lineEnd? (key ++ (' ' :: '=' :: ' ' :: (value.text ++ tail))) = none := by
    rw [hfirst]
    exact lineEnd?_of_bare hbare _
  have hbracket : ∀ rest, key ++ (' ' :: '=' :: ' ' :: (value.text ++ tail)) ≠ '[' :: rest := by
    rw [hfirst]
    intro rest heq
    exact isBare_ne hbare (rfl : isBare '[' = false) (List.cons.inj heq).1
  have hvalue : skipSpace (' ' :: (value.text ++ tail)) = value.text ++ tail := by
    obtain ⟨c, rest, heq, hc⟩ := value.exists_text_eq_cons tail
    rw [heq]
    exact skipSpace_of_bare hc rest
  unfold expression?
  rw [hfront]
  split
  · next heq => exact absurd heq (hbracket _)
  · next heq => exact absurd heq (hbracket _)
  · simp only [hnone, hpath, expect?, hvalue, Option.bind_eq_bind, Option.bind_some, if_true,
      Option.map_eq_bind, Function.comp_def]

/-- **A line is read** if its value can be read. -/
theorem expression?_line (hbare : line.Bare) (hread : line.Readable)
    (hblanks : ∀ c ∈ blanks, isSpace c = true) (h : EndsLine tail rest) :
    expression? (blanks ++ line.text ++ tail) = some (some line.expression, rest) := by
  cases line with
  | header key => exact expression?_header hbare hblanks h
  | assignment key value =>
    rw [expression?_value hbare hblanks, Literal.item?_of_readable hread _ h.stops,
      Option.bind_some, h.lineEnd?]
    rfl

theorem expression?_of_not_readable (hbare : line.Bare) (hread : ¬ line.Readable)
    (hblanks : ∀ c ∈ blanks, isSpace c = true) (h : EndsLine tail rest) :
    expression? (blanks ++ line.text ++ tail) = none := by
  cases line with
  | header key => exact absurd trivial hread
  | assignment key value =>
    rw [expression?_value hbare hblanks, Literal.item?_of_not_readable hread _ h.stops]
    rfl

/-! ## Texts -/

variable {fuel : Nat} {found : Option Expression}

/-- An expression takes at least one character, so there is enough fuel for the rest. -/
theorem expressionsFrom_step (h : expression? text = some (found, rest))
    (hlt : rest.length < text.length) (hfuel : text.length ≤ fuel) :
    ∃ fuel', rest.length ≤ fuel' ∧
      expressionsFrom fuel text = (expressionsFrom fuel' rest).map (found.toList ++ ·) := by
  obtain ⟨c, more, rfl⟩ := List.exists_cons_of_length_pos (Nat.zero_lt_of_lt hlt)
  obtain ⟨fuel, rfl⟩ := Nat.exists_eq_succ_of_ne_zero (Nat.ne_of_gt (Nat.lt_of_lt_of_le
    (Nat.zero_lt_of_lt hlt) hfuel))
  refine ⟨fuel, by omega, ?_⟩
  rw [expressionsFrom]
  · simp only [h]
  · nofun

theorem expressionsFrom_of_none (h : expression? text = none) (hne : text ≠ []) :
    expressionsFrom fuel text = .error text := by
  obtain ⟨c, more, rfl⟩ := List.exists_cons_of_ne_nil hne
  cases fuel with
  | zero => rfl
  | succ fuel =>
    rw [expressionsFrom]
    · simp only [h]
    · nofun

/-- What reading the given lines results in: all of them, if all can be read. -/
def Reads (lines : List Line) (result : Except (List Char) (List Expression)) : Prop :=
  ((∀ line ∈ lines, line.Readable) → result = .ok (lines.map Line.expression)) ∧
    ((∃ line ∈ lines, ¬ line.Readable) → ∃ stopped, result = .error stopped)

theorem Reads.of_void {result : Except (List Char) (List Expression)} (h : Reads lines result) :
    Reads lines (result.map ((none : Option Expression).toList ++ ·)) := by
  cases result <;> exact h

theorem Reads.of_line {result : Except (List Char) (List Expression)} (h : Reads lines result)
    (hread : line.Readable) :
    Reads (line :: lines) (result.map ((some line.expression).toList ++ ·)) := by
  constructor
  · intro hall
    rw [h.1 (List.forall_mem_cons.1 hall).2]
    rfl
  · rintro ⟨line', hmem, hnot⟩
    rcases List.mem_cons.1 hmem with rfl | hmem
    · exact absurd hread hnot
    · obtain ⟨stopped, hstopped⟩ := h.2 ⟨line', hmem, hnot⟩
      exact ⟨stopped, by rw [hstopped]; rfl⟩

/-- **The lines of a text are read** one by one, up to one that cannot be read. -/
theorem reads_of_writes (h : Writes lines text) (hbare : ∀ line ∈ lines, line.Bare)
    (hfuel : text.length ≤ fuel) : Reads lines (expressionsFrom fuel text) := by
  induction h generalizing fuel with
  | nil =>
    have hempty : expressionsFrom fuel [] = .ok [] := by cases fuel <;> rfl
    refine ⟨fun _ => hempty, ?_⟩
    rintro ⟨_, ⟨⟩, -⟩
  | @void lines tail rest hend h ih =>
    rcases hend.length_lt with ⟨rfl, rfl⟩ | hlt
    · -- nothing at all is left
      exact ih hbare hfuel
    · obtain ⟨fuel', hfuel', hstep⟩ := expressionsFrom_step (expression?_void hend) hlt hfuel
      rw [hstep]
      exact (ih hbare hfuel').of_void
  | @line line lines tail rest blanks hblanks hend h ih =>
    obtain ⟨hline, hlines⟩ := List.forall_mem_cons.1 hbare
    have htext : 0 < line.text.length := by
      cases line <;> simp only [Line.text, List.length_cons, List.length_append] <;> omega
    by_cases hread : line.Readable
    · have hlt : rest.length < (blanks ++ line.text ++ tail).length := by
        rw [List.length_append, List.length_append]
        rcases hend.length_lt with ⟨rfl, rfl⟩ | hlt <;> omega
      obtain ⟨fuel', hfuel', hstep⟩ :=
        expressionsFrom_step (expression?_line hline hread hblanks hend) hlt hfuel
      rw [hstep]
      exact (ih hlines hfuel').of_line hread
    · have hne : blanks ++ line.text ++ tail ≠ [] := by simp [List.length_pos_iff.1 htext]
      refine ⟨fun hall => absurd (hall line List.mem_cons_self) hread, fun _ => ?_⟩
      exact ⟨_, expressionsFrom_of_none (expression?_of_not_readable hline hread hblanks hend) hne⟩

/-- A text of plain lines has no byte order mark in front. -/
theorem skipMark_of_writes (h : Writes lines text) (hbare : ∀ line ∈ lines, line.Bare) :
    skipMark text = text := by
  have hmark : ∀ {c : Char}, isSpace c = true ∨ c = '[' ∨ isBare c = true → c.toNat ≠ 0xFEFF := by
    intro c hc heq
    obtain rfl : c = '\uFEFF' := Char.toNat_inj.1 heq
    revert hc
    decide
  have hfirst : ∀ c ∈ text.head?, c.toNat ≠ 0xFEFF := by
    cases h with
    | nil => exact nofun
    | void hend h =>
      intro c hc
      rcases hend.stops c hc with rfl | rfl | rfl | rfl | rfl <;> decide
    | @line line lines tail rest blanks hblanks hend h =>
      cases blanks with
      | cons b more =>
        rintro _ ⟨⟩
        exact hmark (.inl (hblanks b List.mem_cons_self))
      | nil =>
        have hkey := hbare line List.mem_cons_self
        cases line with
        | header key =>
          rintro _ ⟨⟩
          exact hmark (.inr (.inl rfl))
        | assignment key value =>
          obtain ⟨c, more, rfl, hc⟩ := hkey.exists_cons
          rintro _ ⟨⟩
          exact hmark (.inr (.inr hc))
  cases text with
  | nil => rfl
  | cons c more => exact if_neg (hfirst c rfl)

/-- **A text of plain lines is the document of these lines**, if all of them can be read. -/
theorem parse_of_writes {text : String} (h : Writes lines text.toList)
    (hbare : ∀ line ∈ lines, line.Bare) (hread : ∀ line ∈ lines, line.Readable) :
    parse text = build [] (.empty .declared) (lines.map Line.expression) := by
  rw [parse, skipMark_of_writes h hbare, expressions,
    (reads_of_writes h hbare (Nat.le_refl _)).1 hread]
  rfl

/-- A text with a line that cannot be read is no document. -/
theorem exists_parse_error {text : String} (h : Writes lines text.toList)
    (hbare : ∀ line ∈ lines, line.Bare) (hread : ∃ line ∈ lines, ¬ line.Readable) :
    ∃ error, parse text = .error error := by
  obtain ⟨stopped, hstopped⟩ := (reads_of_writes h hbare (Nat.le_refl _)).2 hread
  rw [parse, skipMark_of_writes h hbare, expressions, hstopped]
  exact ⟨_, rfl⟩

end LS8.Toml
