import LS8.Proofs.Settings.Draft
import LS8.Proofs.Settings.Nearest

/-!
# Settings files as they are written

What a settings file of one's own writing is read as. `Draft.WrittenAs` and `Toml.Writes` say which
texts those are: blank lines and comments may stand anywhere, and the order is free.

- `Settings.ofText_eq_ok_iff`: a text denotes the settings that it was written from, and nothing
  else, as long as its limit fits into 64 bits with a sign;
- `Settings.parse_written`: what comes of every limit, and of a key that does not belong.
-/

namespace LS8

open Toml (Key Literal Sheet Line Writes IsBareKey)

variable {s : Settings} {d : Draft} {sheet sheet' : Sheet} {text : String} {key : Key}
  {value : Literal}

namespace Settings

/-! ## Limits -/

theorem limit_draft (s : Settings) : s.draft.limit = s.maxSteps.map Int.ofNat := by
  obtain ⟨run, output⟩ := s
  cases run <;> rfl

/-- The limits of settings can be read if they have 63 bits. -/
theorem forall_limit_draft_iff : (∀ n ∈ s.draft.limit, -2 ^ 63 ≤ n ∧ n < 2 ^ 63) ↔
    ∀ N ∈ s.maxSteps, N < 2 ^ 63 := by
  rw [limit_draft]
  cases s.maxSteps with
  | none => simp
  | some N =>
    simp only [Option.map_some, Option.mem_def, Option.some.injEq, forall_eq',
      Int.ofNat_eq_natCast]
    omega

/-- Unless its limit is negative, a draft is one of settings. -/
theorem exists_draft_eq (hlimit : ∀ n ∈ d.limit, 0 ≤ n) : ∃ s : Settings, s.draft = d := by
  obtain ⟨run, output⟩ := d
  cases run with
  | none => exact ⟨⟨none, output⟩, rfl⟩
  | some r =>
    obtain ⟨maxSteps, trace, stats⟩ := r
    cases maxSteps with
    | none => exact ⟨⟨some ⟨none, trace, stats⟩, output⟩, rfl⟩
    | some n =>
      obtain ⟨N, rfl⟩ := Int.eq_ofNat_of_zero_le (hlimit n rfl)
      exact ⟨⟨some ⟨some N, trace, stats⟩, output⟩, rfl⟩

/-! ## What texts denote -/

theorem ofText_eq_ofTable (hsheet : sheet.IsDocument) (htext : Writes sheet.lines text.toList)
    (hread : ∀ line ∈ sheet.lines, line.Readable) : ofText text = ofTable sheet.table := by
  rw [ofText, hsheet.parse_eq htext hread]

theorem ofText_ne_ok_of_not_readable (hsheet : sheet.IsDocument)
    (htext : Writes sheet.lines text.toList) (hread : ¬ ∀ line ∈ sheet.lines, line.Readable) :
    ofText text ≠ .ok s := by
  obtain ⟨line, hline⟩ := not_forall.1 hread
  obtain ⟨error, herror⟩ :=
    Toml.exists_parse_error htext hsheet.bare_lines ⟨line, Classical.not_imp.1 hline⟩
  rw [ofText, herror]
  nofun

/-- **A text denotes the settings that it was written from**, and none if its limit cannot be
read. -/
theorem ofText_eq_ok_iff (hdraft : d.WrittenAs sheet) (htext : Writes sheet.lines text.toList) :
    ofText text = .ok s ↔ s.draft = d ∧ ∀ N ∈ s.maxSteps, N < 2 ^ 63 := by
  by_cases hread : ∀ line ∈ sheet.lines, line.Readable
  · rw [ofText_eq_ofTable hdraft.isDocument htext hread, hdraft.ofTable_eq_ok_iff]
    rw [hdraft.readable_iff] at hread
    refine ⟨fun h => ⟨h, ?_⟩, fun h => h.1⟩
    subst h
    exact forall_limit_draft_iff.1 hread
  · refine ⟨fun h => absurd h (ofText_ne_ok_of_not_readable hdraft.isDocument htext hread), ?_⟩
    rintro ⟨rfl, hN⟩
    exact absurd (hdraft.readable_iff.2 (forall_limit_draft_iff.2 hN)) hread

theorem ofText_ne_ok_of_adds (h : Adds key value sheet sheet') (hkey : IsBareKey key)
    (hdraft : d.WrittenAs sheet) (htext : Writes sheet'.lines text.toList) :
    ofText text ≠ .ok s := by
  have hdocument := h.isDocument hkey hdraft
  by_cases hread : ∀ line ∈ sheet'.lines, line.Readable
  · rw [ofText_eq_ofTable hdocument htext hread]
    exact h.ofTable_ne_ok hdraft
  · exact ofText_ne_ok_of_not_readable hdocument htext hread

/-! ## What comes of a file -/

theorem parse_eq_ok_iff : parse text = .ok s ↔ ofText text = .ok s ∧ s.maxSteps ≠ some 0 := by
  unfold parse parseFile validate
  cases ofText text with
  | error what => exact ⟨nofun, fun h => by cases h.1⟩
  | ok s' =>
    simp only [Except.ok.injEq]
    split
    · next hzero =>
      refine ⟨nofun, ?_⟩
      rintro ⟨rfl, hne⟩
      exact absurd hzero hne
    · next hne =>
      refine ⟨fun h => ?_, fun h => congrArg Except.ok h.1⟩
      obtain rfl := Except.ok.inj h
      exact ⟨rfl, hne⟩

/-- A text that denotes no settings is malformed. -/
theorem exists_malformed (h : ∀ s, ofText text ≠ .ok s) :
    ∃ what, parse text = .error (.malformed (Path.ofString "ls8.toml") what) := by
  cases hof : ofText text with
  | ok s => exact absurd hof (h s)
  | error what => exact ⟨what, parseFile_eq_error_iff.2 (.inl ⟨what, hof, rfl⟩)⟩

/-- The settings are back if there is no limit, or a good one. -/
theorem parse_eq_ok_iff_draft (hdraft : d.WrittenAs sheet)
    (htext : Writes sheet.lines text.toList) :
    parse text = .ok s ↔ s.draft = d ∧ ∀ N ∈ s.maxSteps, 1 ≤ N ∧ N < 2 ^ 63 := by
  rw [parse_eq_ok_iff, ofText_eq_ok_iff hdraft htext, and_assoc]
  refine and_congr_right fun _ => ?_
  cases s.maxSteps with
  | none => simp
  | some N =>
    simp only [Option.mem_def, Option.some.injEq, forall_eq', ne_eq]
    omega

/-- A limit of zero can be read, but is refused. -/
theorem parse_of_limit_zero (hdraft : d.WrittenAs sheet) (htext : Writes sheet.lines text.toList)
    (hzero : d.limit = some 0) :
    parse text = .error (.invalidValue "run.max_steps" "must be greater than zero") := by
  obtain ⟨s, rfl⟩ : ∃ s : Settings, s.draft = d := exists_draft_eq (by simp [hzero])
  rw [limit_draft, Option.map_eq_some_iff] at hzero
  obtain ⟨N, hs, hN⟩ := hzero
  obtain rfl : N = 0 := Int.ofNat_eq_zero.1 hN
  have hof : ofText text = .ok s := (ofText_eq_ok_iff hdraft htext).2 ⟨rfl, by simp [hs]⟩
  exact parseFile_eq_error_iff.2 (.inr ⟨s, hof, hs, rfl⟩)

/-- No other limit can be read, since there is none like it or since it is too large. -/
theorem exists_malformed_of_limit (hdraft : d.WrittenAs sheet)
    (htext : Writes sheet.lines text.toList) {n : Int} (hn : n ∈ d.limit)
    (hout : n < 0 ∨ 2 ^ 63 ≤ n) :
    ∃ what, parse text = .error (.malformed (Path.ofString "ls8.toml") what) := by
  refine exists_malformed fun s hof => ?_
  obtain ⟨rfl, hN⟩ := (ofText_eq_ok_iff hdraft htext).1 hof
  rw [limit_draft] at hn
  obtain ⟨N, hs, rfl⟩ := Option.map_eq_some_iff.1 hn
  have hlt := hN N hs
  rw [Int.ofNat_eq_natCast] at hout
  omega

/-- The sections of a draft can be written, each line by itself. -/
theorem exists_writes (d : Draft) : ∃ (sheet : Sheet) (text : String),
    d.WrittenAs sheet ∧ Writes sheet.lines text.toList := by
  have hlines : ∀ lines : List Line, ∃ text, Writes lines text := by
    intro lines
    induction lines with
    | nil => exact ⟨[], .nil⟩
    | cons line lines ih =>
      obtain ⟨text, h⟩ := ih
      exact ⟨_, .line [] nofun (.blank [] nofun (.lineFeed text)) h⟩
  obtain ⟨text, htext⟩ := hlines (Sheet.lines ⟨[], d.sections⟩)
  refine ⟨⟨[], d.sections⟩, String.ofList text, ⟨rfl, d.sections, .refl _, ?_⟩, ?_⟩
  · exact List.forall₂_same.2 fun sec _ => ⟨rfl, .refl _⟩
  · rwa [String.toList_ofList]

/-- **Settings files are read back, and bad ones are refused.** Every draft can be written down,
and however it is, its settings are read, down to a section that is present with nothing in it, if
the limit is a positive number of 63 bits. A limit of zero is an invalid value, and any other is
malformed. So is, whatever the limit, a file with one more key that does not belong. -/
theorem parse_written (d : Draft) :
    (∃ (sheet : Sheet) (text : String), d.WrittenAs sheet ∧ Writes sheet.lines text.toList) ∧
    (∀ (sheet : Sheet) (text : String), d.WrittenAs sheet → Writes sheet.lines text.toList →
      (∀ s, parse text = .ok s ↔ s.draft = d ∧ ∀ N ∈ s.maxSteps, 1 ≤ N ∧ N < 2 ^ 63) ∧
      (d.limit = some 0 →
        parse text = .error (.invalidValue "run.max_steps" "must be greater than zero")) ∧
      ∀ n ∈ d.limit, n < 0 ∨ 2 ^ 63 ≤ n →
        ∃ what, parse text = .error (.malformed (Path.ofString "ls8.toml") what)) ∧
    ∀ (sheet sheet' : Sheet) (key : Key) (value : Literal) (text : String), d.WrittenAs sheet →
      IsBareKey key → Adds key value sheet sheet' → Writes sheet'.lines text.toList →
      ∃ what, parse text = .error (.malformed (Path.ofString "ls8.toml") what) := by
  refine ⟨exists_writes d, fun sheet text hdraft htext =>
    ⟨fun s => parse_eq_ok_iff_draft hdraft htext, parse_of_limit_zero hdraft htext,
      fun n hn hout => exists_malformed_of_limit hdraft htext hn hout⟩, ?_⟩
  intro sheet sheet' key value text hdraft hkey hadds htext
  exact exists_malformed fun s => ofText_ne_ok_of_adds hadds hkey hdraft htext

/-- Sections and keys the other way round with comments between them, and a key that is not known
beside a limit of zero. -/
theorem parse_written_anyOrder :
    parse "#\r\n\n[output] \njson = true\n\t[run]\nstats = false # no\nmax_steps = 7" =
      .ok { run := some { maxSteps := some 7, stats := some false }, output := some ⟨some true⟩ } ∧
    ∃ what, parse "[run]\nmax_steps = 0\nsteps = -1\n" =
      .error (.malformed (Path.ofString "ls8.toml") what) := by
  constructor
  · let s : Settings :=
      { run := some { maxSteps := some 7, stats := some false }, output := some ⟨some true⟩ }
    let sheet : Sheet := ⟨[], [("output".toList, [("json".toList, .boolean true)]),
      ("run".toList, [("stats".toList, .boolean false), ("max_steps".toList, .integer 7)])]⟩
    have hdraft : s.draft.WrittenAs sheet :=
      ⟨rfl, _, .swap _ _ _, .cons ⟨rfl, .refl _⟩ (.cons ⟨rfl, .swap _ _ _⟩ .nil)⟩
    have htext : Writes sheet.lines
        "#\r\n\n[output] \njson = true\n\t[run]\nstats = false # no\nmax_steps = 7".toList :=
      .void (.comment [] [] nofun nofun (.carriageReturn _)) <|
      .void (.blank [] nofun (.lineFeed _)) <|
      .line [] nofun (.blank [' '] (List.all_eq_true.1 rfl) (.lineFeed _)) <|
      .line [] nofun (.blank [] nofun (.lineFeed _)) <|
      .line ['\t'] (List.all_eq_true.1 rfl) (.blank [] nofun (.lineFeed _)) <|
      .line [] nofun (.comment [' '] [' ', 'n', 'o'] (List.all_eq_true.1 rfl)
        (List.all_eq_true.1 rfl) (.lineFeed _)) <|
      .line [] nofun (.blank [] nofun .endOfText) .nil
    exact (((parse_written s.draft).2.1 sheet _ hdraft htext).1 s).2 ⟨rfl, by decide⟩
  · let d : Draft := { run := some { maxSteps := some 0 } }
    have hdraft : d.WrittenAs ⟨[], [("run".toList, [("max_steps".toList, .integer 0)] ++ [])]⟩ :=
      ⟨rfl, _, .refl _, .cons ⟨rfl, .refl _⟩ .nil⟩
    refine (parse_written d).2.2 _ _ "steps".toList (.integer (-1)) _ hdraft
      (by decide) (.within [] [] _ _ [] (by decide)) ?_
    exact .line [] nofun (.blank [] nofun (.lineFeed _)) <|
      .line [] nofun (.blank [] nofun (.lineFeed _)) <|
      .line [] nofun (.blank [] nofun (.lineFeed _)) .nil

end Settings

end LS8
