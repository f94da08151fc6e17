import LS8.Text.Blank

/-!
# Lines of a text

- `Text.lines_flatMap`: lines that are written one behind the other, each with a line feed
  at its end, are read back as these lines.
- `Text.endedLines` counts lines as text editors do: the carriage return of a line end is
  no part of the line. These are the lines that `Text.lines` finds, which keep it
  (`Text.map_endedLines`).
- `Text.lines_append`: the lines of two texts with a line feed between them are the pieces
  of the first and the lines of the second. The pieces of a text are its lines, and an empty
  one behind them if the text has nothing behind its last line feed (`Text.splitAt_eq_lines`).
- `Text.splitAt_append_separator` and `Text.eq_of_splitAt_eq_cons`: the first piece of a text is
  what stands before its first separator.
- `Text.takeWhile_append_of_head` and `Text.dropWhile_append_of_head`: a run of characters
  ends where the first other one stands. So a separator shows where the text before it
  ends (`Text.append_separator_inj`).
- `Text.exists_eq_append_trim` and `Text.trim_append`: what is trimmed is blank, and what has no
  blanks is left.
- `Text.words_inj`: words with blanks between them are read back, if none of them has a blank
  inside.
-/

namespace LS8.Text

variable {line rest text : List Char}

/-- A line feed ends the first line. -/
theorem lines_append_lineFeed (hline : '\n' ∉ line) (rest : List Char) :
    lines (line ++ '\n' :: rest) = line :: lines rest := by
  induction line with
  | nil => rw [List.nil_append, lines, if_pos rfl]
  | cons c line ih =>
    have hc : c ≠ '\n' := fun heq => hline (heq ▸ List.mem_cons_self)
    have hrest : '\n' ∉ line := fun hmem => hline (List.mem_cons_of_mem c hmem)
    rw [List.cons_append, lines, if_neg hc, ih hrest]

/-- **Written lines are read back**, if none of them has a line feed inside. -/
theorem lines_flatMap {written : List (List Char)} (h : ∀ line ∈ written, '\n' ∉ line) :
    lines (written.flatMap (· ++ ['\n'])) = written := by
  induction written with
  | nil => rfl
  | cons line written ih =>
    obtain ⟨hline, hwritten⟩ := List.forall_mem_cons.1 h
    rw [List.flatMap_cons, List.append_assoc, List.singleton_append,
      lines_append_lineFeed hline, ih hwritten]

/-! ## Line ends -/

/-- A line without the carriage return at its end, if it has one there. -/
def dropReturn (line : List Char) : List Char :=
  if line.getLast? = some '\r' then line.dropLast else line

/-- The lines of a text that was cut at its line feeds. Each piece but the last was ended
by a line feed, and `finish` is what its line is; the last piece is a line if there is
anything in it. -/
def linesOfPieces (finish : List Char → List Char) : List (List Char) → List (List Char)
  | [] => []
  | [last] => if last = [] then [] else [last]
  | piece :: next :: more => finish piece :: linesOfPieces finish (next :: more)

/-- The lines of a text. A line ends at a line feed, or at a carriage return with a line
feed right behind it; no line begins behind the last line feed if nothing follows. -/
def endedLines (text : List Char) : List (List Char) :=
  linesOfPieces dropReturn (splitAt '\n' text)

theorem lines_eq_linesOfPieces (text : List Char) :
    lines text = linesOfPieces id (splitAt '\n' text) := by
  induction text with
  | nil => rfl
  | cons c rest ih =>
    obtain ⟨piece, pieces, hpieces⟩ := exists_splitAt_eq_cons '\n' rest
    rw [hpieces] at ih
    by_cases hc : c = '\n'
    · rw [lines, if_pos hc, splitAt, if_pos hc, hpieces, ih]
      rfl
    · rw [lines, if_neg hc, splitAt, if_neg hc, hpieces, ih]
      -- the character joins the first piece, which is a line even if it was empty
      cases pieces with
      | nil =>
        cases piece with
        | nil => rfl
        | cons _ _ => rfl
      | cons next more => rfl

/-- Whatever is asked of lines that does not depend on a carriage return at their ends may
be asked of either kind. -/
theorem map_endedLines {α : Type} {f : List Char → α} (hf : ∀ line, f (dropReturn line) = f line)
    (text : List Char) : (endedLines text).map f = (lines text).map f := by
  have hpieces : ∀ pieces,
      (linesOfPieces dropReturn pieces).map f = (linesOfPieces id pieces).map f := by
    intro pieces
    induction pieces with
    | nil => rfl
    | cons piece pieces ih =>
      cases pieces with
      | nil => rfl
      | cons next more =>
        rw [linesOfPieces, linesOfPieces, List.map_cons, List.map_cons, ih, hf, id]
  rw [endedLines, lines_eq_linesOfPieces, hpieces]

/-- What stands behind the last line feed is a piece even if it is empty, but then no line. -/
theorem splitAt_eq_lines (text : List Char) :
    splitAt '\n' text = lines text ∨ splitAt '\n' text = lines text ++ [[]] := by
  have hpieces : ∀ pieces, pieces = linesOfPieces id pieces ∨
      pieces = linesOfPieces id pieces ++ [[]] := by
    intro pieces
    induction pieces with
    | nil => exact .inl rfl
    | cons piece pieces ih =>
      cases pieces with
      | nil =>
        cases piece with
        | nil => exact .inr rfl
        | cons _ _ => exact .inl rfl
      | cons next more => exact ih.imp (congrArg (piece :: ·)) (congrArg (piece :: ·))
  rw [lines_eq_linesOfPieces]
  exact hpieces _

/-- **Two texts with a line feed between them.** -/
theorem lines_append (text rest : List Char) :
    lines (text ++ '\n' :: rest) = splitAt '\n' text ++ lines rest := by
  induction text with
  | nil => rw [List.nil_append, lines, if_pos rfl, splitAt, List.singleton_append]
  | cons c text ih =>
    rw [List.cons_append, lines, splitAt, ih]
    by_cases hc : c = '\n'
    · rw [if_pos hc, if_pos hc, List.cons_append]
    · obtain ⟨piece, pieces, hpieces⟩ := exists_splitAt_eq_cons '\n' text
      rw [if_neg hc, if_neg hc, hpieces]
      rfl

/-- There is one piece more than there are separators. -/
theorem length_splitAt (separator : Char) (text : List Char) :
    (splitAt separator text).length = text.count separator + 1 := by
  induction text with
  | nil => rfl
  | cons c text ih =>
    rw [splitAt]
    by_cases hc : c = separator
    · rw [if_pos hc, hc, List.count_cons_self, List.length_cons, ih]
    · obtain ⟨piece, pieces, hpieces⟩ := exists_splitAt_eq_cons separator text
      rw [if_neg hc, List.count_cons_of_ne hc, ← ih, hpieces]
      rfl

/-- Only a carriage return with a line feed behind it ends a line. -/
example : endedLines "a\r\n\nb\r".toList = [['a'], [], ['b', '\r']] := by
  decide

/-! ## Pieces -/

section Pieces

variable {separator : Char} {piece : List Char}

theorem splitAt_of_notMem (h : separator ∉ piece) : splitAt separator piece = [piece] := by
  induction piece with
  | nil => rfl
  | cons c piece ih =>
    obtain ⟨hc, hpiece⟩ := not_or.1 (mt List.mem_cons.2 h)
    rw [splitAt, if_neg (Ne.symm hc), ih hpiece]

/-- The first separator ends the first piece. -/
theorem splitAt_append_separator (h : separator ∉ piece) (rest : List Char) :
    splitAt separator (piece ++ separator :: rest) = piece :: splitAt separator rest := by
  induction piece with
  | nil => rw [List.nil_append, splitAt, if_pos rfl]
  | cons c piece ih =>
    obtain ⟨hc, hpiece⟩ := not_or.1 (mt List.mem_cons.2 h)
    rw [List.cons_append, splitAt, if_neg (Ne.symm hc), ih hpiece]

/-- The first piece is all of the text, or ends at a separator with the other pieces behind. -/
theorem eq_of_splitAt_eq_cons {pieces : List (List Char)}
    (h : splitAt separator text = piece :: pieces) :
    separator ∉ piece ∧ (text = piece ∧ pieces = [] ∨
      ∃ rest, text = piece ++ separator :: rest ∧ splitAt separator rest = pieces) := by
  by_cases hmem : separator ∈ text
  · obtain ⟨first, rest, rfl, hfirst⟩ := List.eq_append_cons_of_mem hmem
    rw [splitAt_append_separator hfirst] at h
    obtain ⟨rfl, hpieces⟩ := List.cons.inj h
    exact ⟨hfirst, .inr ⟨rest, rfl, hpieces⟩⟩
  · rw [splitAt_of_notMem hmem] at h
    obtain ⟨rfl, rfl⟩ := List.cons.inj h
    exact ⟨hmem, .inl ⟨rfl, rfl⟩⟩

end Pieces

/-! ## Runs of characters -/

section Runs

variable {p : Char → Bool} {run behind : List Char}

theorem takeWhile_append_of_head (hrun : ∀ c ∈ run, p c = true)
    (hbehind : ∀ c ∈ behind.head?, p c = false) : (run ++ behind).takeWhile p = run := by
  rw [List.takeWhile_append_of_pos hrun]
  cases behind with
  | nil => exact List.append_nil run
  | cons c behind => rw [List.takeWhile_cons, hbehind c rfl, if_neg nofun, List.append_nil]

theorem dropWhile_append_of_head (hrun : ∀ c ∈ run, p c = true)
    (hbehind : ∀ c ∈ behind.head?, p c = false) : (run ++ behind).dropWhile p = behind := by
  rw [List.dropWhile_append_of_pos hrun]
  cases behind with
  | nil => rfl
  | cons c behind => rw [List.dropWhile_cons, hbehind c rfl, if_neg nofun]

/-- A run goes on as far as it can. -/
theorem head?_dropWhile {text : List Char} : ∀ c ∈ (text.dropWhile p).head?, p c = false := by
  intro c hc
  have hhead := List.head?_dropWhile_not p text
  rw [Option.mem_def.1 hc] at hhead
  exact hhead

/-- The first separator divides a text in one way only. -/
theorem append_separator_inj {c : Char} {xs ys s t : List Char} (hx : c ∉ xs) (hy : c ∉ ys)
    (h : xs ++ c :: s = ys ++ c :: t) : xs = ys ∧ s = t := by
  have hrun : ∀ zs u, c ∉ zs → (zs ++ c :: u).takeWhile (· != c) = zs := by
    intro zs u hz
    refine takeWhile_append_of_head (fun d hd => bne_iff_ne.2 ?_) ?_
    · rintro rfl
      exact hz hd
    · rintro d ⟨⟩
      exact bne_self_eq_false c
  have hxy : xs = ys := by rw [← hrun xs s hx, h, hrun ys t hy]
  subst hxy
  exact ⟨rfl, List.tail_eq_of_cons_eq (List.append_cancel_left h)⟩

end Runs

/-! ## Blanks at the ends -/

/-- Blanks at the two ends, and nothing else, are removed. -/
theorem exists_eq_append_trim (text : List Char) : ∃ front back,
    text = front ++ trim text ++ back ∧ ∀ c ∈ front ++ back, isBlank c = true := by
  refine ⟨text.takeWhile isBlank, ((text.dropWhile isBlank).reverse.takeWhile isBlank).reverse,
    ?_, ?_⟩
  · rw [trim, List.append_assoc, ← List.reverse_append, List.takeWhile_append_dropWhile,
      List.reverse_reverse, List.takeWhile_append_dropWhile]
  · have hrun : ∀ text : List Char, ∀ c ∈ text.takeWhile isBlank, isBlank c = true := fun text =>
      List.all_eq_true.1 List.all_takeWhile
    exact List.forall_mem_append.2 ⟨hrun text, fun c hc => hrun _ c (List.mem_reverse.1 hc)⟩

/-- What has no blanks at its ends is left. -/
theorem trim_append {front middle back : List Char} (hblank : ∀ c ∈ front ++ back, isBlank c = true)
    (hmiddle : middle ≠ []) (hends : ∀ c ∈ middle, isBlank c = false) :
    trim (front ++ middle ++ back) = middle := by
  obtain ⟨hfront, hback⟩ := List.forall_mem_append.1 hblank
  have hhead : ∀ c ∈ (middle ++ back).head?, isBlank c = false := by
    intro c hc
    obtain ⟨first, rest, rfl⟩ := List.exists_cons_of_ne_nil hmiddle
    obtain rfl := Option.some.inj hc
    exact hends _ List.mem_cons_self
  have hlast : ∀ c ∈ middle.reverse.head?, isBlank c = false := fun c hc =>
    hends c (List.mem_reverse.1 (List.mem_of_mem_head? hc))
  rw [trim, List.append_assoc, dropWhile_append_of_head hfront hhead, List.reverse_append,
    dropWhile_append_of_head (fun c hc => hback c (List.mem_reverse.1 hc)) hlast,
    List.reverse_reverse]

/-! ## Words -/

/-- Of pieces with a separator between them, each but the first has one in front. -/
theorem intercalate_cons (separator : Char) (piece : List Char) (pieces : List (List Char)) :
    [separator].intercalate (piece :: pieces) = piece ++ pieces.flatMap (separator :: ·) := by
  induction pieces generalizing piece with
  | nil => simp
  | cons next more ih =>
    rw [List.intercalate_cons_cons, ih, List.flatMap_cons]
    simp

theorem mem_intercalate_iff {c : Char} {separator : List Char} (hc : c ∉ separator)
    {pieces : List (List Char)} :
    c ∈ separator.intercalate pieces ↔ ∃ piece ∈ pieces, c ∈ piece := by
  induction pieces with
  | nil => simp
  | cons piece more ih =>
    cases more with
    | nil => simp
    | cons next more =>
      rw [List.intercalate_cons_cons, List.mem_append, List.mem_append, ih]
      simp [hc]

theorem head?_flatMap_separator {separator : Char} (pieces : List (List Char)) :
    ∀ c ∈ (pieces.flatMap (separator :: ·)).head?, c = separator := by
  cases pieces with
  | nil => exact nofun
  | cons piece pieces =>
    rintro c ⟨⟩
    rfl

/-- The words of a line: whatever stands between its spaces. -/
def words (line : List Char) : List (List Char) :=
  (splitAt ' ' line).filter (!·.isEmpty)

theorem words_space (rest : List Char) : words (' ' :: rest) = words rest := by
  rw [words, splitAt, if_pos rfl, List.filter_cons_of_neg (by simp), ← words]

theorem words_spaces (n : Nat) (rest : List Char) :
    words (List.replicate n ' ' ++ rest) = words rest := by
  induction n with
  | zero => rfl
  | succ n ih => rw [List.replicate_succ, List.cons_append, words_space, ih]

/-- A word goes on up to the next space. -/
theorem words_append_of_head {word rest : List Char} (hword : ' ' ∉ word) (hne : word ≠ [])
    (hrest : ∀ c ∈ rest.head?, c = ' ') : words (word ++ rest) = word :: words rest := by
  have hsome : (!word.isEmpty) = true := by simpa using hne
  cases rest with
  | nil => rw [List.append_nil, words, splitAt_of_notMem hword, List.filter_cons, hsome]; rfl
  | cons c rest =>
    obtain rfl := hrest c rfl
    rw [words, splitAt_append_separator hword, List.filter_cons, hsome, if_pos rfl, ← words,
      words_space]

/-- **Words with a space between them** are the words of the line. -/
theorem words_intercalate {pieces : List (List Char)}
    (h : ∀ piece ∈ pieces, ' ' ∉ piece ∧ piece ≠ []) :
    words ([' '].intercalate pieces) = pieces := by
  have hbehind : ∀ pieces : List (List Char), (∀ piece ∈ pieces, ' ' ∉ piece ∧ piece ≠ []) →
      words (pieces.flatMap (' ' :: ·)) = pieces := by
    intro pieces hpieces
    induction pieces with
    | nil => rfl
    | cons piece pieces ih =>
      obtain ⟨⟨hspace, hne⟩, hmore⟩ := List.forall_mem_cons.1 hpieces
      rw [List.flatMap_cons, List.cons_append, words_space,
        words_append_of_head hspace hne (head?_flatMap_separator pieces), ih hmore]
  cases pieces with
  | nil => rfl
  | cons piece pieces =>
    obtain ⟨⟨hspace, hne⟩, hmore⟩ := List.forall_mem_cons.1 h
    rw [intercalate_cons, words_append_of_head hspace hne (head?_flatMap_separator pieces),
      hbehind pieces hmore]

/-- **Words with blanks between them are read back.** -/
theorem words_inj {words words' : List String} (h : ∀ word ∈ words, ' ' ∉ word.toList)
    (h' : ∀ word ∈ words', ' ' ∉ word.toList) (hne : words ≠ []) (hne' : words' ≠ [])
    (heq : String.intercalate " " words = String.intercalate " " words') : words = words' := by
  have hread : ∀ ws : List String, (∀ word ∈ ws, ' ' ∉ word.toList) → ws ≠ [] →
      (String.intercalate " " ws).toList.splitOn ' ' = ws.map String.toList := by
    intro ws hws hsome
    rw [String.toList_intercalate]
    refine List.splitOn_intercalate ' ' ?_ (mt List.map_eq_nil_iff.1 hsome)
    intro letters hletters
    obtain ⟨word, hword, rfl⟩ := List.mem_map.1 hletters
    exact hws word hword
  have hletters : words.map String.toList = words'.map String.toList := by
    rw [← hread words h hne, heq, hread words' h' hne']
  exact (List.map_inj_right fun _ _ => String.toList_inj.1).1 hletters

end LS8.Text
