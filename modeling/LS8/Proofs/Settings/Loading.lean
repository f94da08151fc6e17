import LS8.Settings.Load

/-!
# What loaded settings are made of

Settings are those of the nearest file with the variables of the environment over them.

- `Settings.override_eq_error_iff` and `Settings.Overrides.of_override`: the variables fail
  exactly if the limit that they set is none, and otherwise each of them settles the value
  that it names and nothing else;
- `LoadedSettings.fromDirectory_eq_ok_iff` and `LoadedSettings.fromDirectory_eq_error_iff`:
  both parts have to go well, the file first.

A limit is positive whichever of the two it comes from (`Settings.one_le_of_limitOfText`,
`Settings.one_le_of_ofFile`).
-/

namespace LS8

namespace Settings

variable {s s' : Settings} {e : Environment} {error : SettingsError} {text : String} {N : Nat}

/-! ## Variables -/

theorem one_le_of_limitOfText (h : limitOfText text = .ok N) : 1 ≤ N := by
  unfold limitOfText at h
  split at h
  · next limit hlimit =>
    obtain rfl := Except.ok.inj h
    exact of_decide_eq_true (Option.filter_eq_some_iff.1 hlimit).2
  · cases h

/-- The settings with another limit. -/
def withLimit (s : Settings) (N : Nat) : Settings :=
  s.modifyRun ({ · with maxSteps := some N })

/-- The settings with the switches that the variables set, the limit left aside. -/
def withSwitches (s : Settings) (e : Environment) : Settings :=
  let s := match e.text? "LS8_TRACE" with
    | none => s
    | some text => s.modifyRun ({ · with trace := some (isOn text) })
  match e.text? "LS8_STATS" with
  | none => s
  | some text => s.modifyRun ({ · with stats := some (isOn text) })

theorem override_of_unset (h : e.text? "LS8_MAX_STEPS" = none) :
    s.override e = .ok (s.withSwitches e) := by
  unfold override
  rw [h]
  rfl

theorem override_of_set (h : e.text? "LS8_MAX_STEPS" = some text) :
    s.override e = (limitOfText text).map fun N => (s.withLimit N).withSwitches e := by
  unfold override
  simp only [h]
  cases limitOfText text <;> rfl

theorem values_withLimit (s : Settings) (N : Nat) :
    (s.withLimit N).maxSteps = some N ∧ (s.withLimit N).trace = s.trace ∧
      (s.withLimit N).stats = s.stats ∧ (s.withLimit N).json = s.json := by
  rcases s with ⟨_ | run, output⟩ <;> exact ⟨rfl, rfl, rfl, rfl⟩

/-- A variable settles the switch that it names, and nothing else. -/
theorem values_withSwitches (s : Settings) (e : Environment) :
    (s.withSwitches e).maxSteps = s.maxSteps ∧
    (s.withSwitches e).trace = ((e.text? "LS8_TRACE").map isOn).getD s.trace ∧
    (s.withSwitches e).stats = ((e.text? "LS8_STATS").map isOn).getD s.stats ∧
    (s.withSwitches e).json = s.json := by
  unfold withSwitches
  rcases s with ⟨_ | run, output⟩ <;>
    cases e.text? "LS8_TRACE" <;> cases e.text? "LS8_STATS" <;> exact ⟨rfl, rfl, rfl, rfl⟩

/-- `s'` has the values of the variables that are set, and otherwise those of `s`. -/
structure Overrides (e : Environment) (s s' : Settings) : Prop where
  limit_of_set : ∀ text, e.text? "LS8_MAX_STEPS" = some text →
    ∃ N, limitOfText text = .ok N ∧ s'.maxSteps = some N
  limit_of_unset : e.text? "LS8_MAX_STEPS" = none → s'.maxSteps = s.maxSteps
  trace : s'.trace = ((e.text? "LS8_TRACE").map isOn).getD s.trace
  stats : s'.stats = ((e.text? "LS8_STATS").map isOn).getD s.stats
  json : s'.json = s.json

/-- **Variables lie over settings**, each over the value that it names. -/
theorem Overrides.of_override (h : s.override e = .ok s') : Overrides e s s' := by
  cases hset : e.text? "LS8_MAX_STEPS" with
  | none =>
    rw [override_of_unset hset] at h
    obtain rfl := Except.ok.inj h
    obtain ⟨hlimit, htrace, hstats, hjson⟩ := s.values_withSwitches e
    refine ⟨fun text htext => ?_, fun _ => hlimit, htrace, hstats, hjson⟩
    rw [hset] at htext
    cases htext
  | some text =>
    rw [override_of_set hset] at h
    cases hN : limitOfText text with
    | error error =>
      rw [hN] at h
      cases h
    | ok N =>
      rw [hN] at h
      obtain rfl := Except.ok.inj h
      obtain ⟨hlimit, htrace, hstats, hjson⟩ := (s.withLimit N).values_withSwitches e
      obtain ⟨hlimit', htrace', hstats', hjson'⟩ := s.values_withLimit N
      rw [htrace'] at htrace
      rw [hstats'] at hstats
      refine ⟨fun text' htext => ⟨N, ?_, hlimit.trans hlimit'⟩, fun hunset => ?_, htrace, hstats,
        hjson.trans hjson'⟩
      · rw [hset] at htext
        obtain rfl := Option.some.inj htext
        exact hN
      · rw [hset] at hunset
        cases hunset

/-- The variables fail exactly if the limit that they set is none. -/
theorem override_eq_error_iff : s.override e = .error error ↔
    ∃ text, e.text? "LS8_MAX_STEPS" = some text ∧ limitOfText text = .error error := by
  cases h : e.text? "LS8_MAX_STEPS" with
  | none =>
    rw [override_of_unset h]
    exact ⟨nofun, nofun⟩
  | some text =>
    rw [override_of_set h]
    cases hlimit : limitOfText text with
    | error error => simp [Except.map, hlimit]
    | ok N => simp [Except.map, hlimit]

/-! ## Files -/

/-- A file that sets a limit of zero is refused. -/
theorem maxSteps_ne_zero_of_ofFile {fs : FileSystem} {path : Path} (h : ofFile fs path = .ok s) :
    s.maxSteps ≠ some 0 := by
  unfold ofFile at h
  split at h
  · cases h
  · cases h
  · next text _ =>
    unfold parseFile at h
    split at h
    · cases h
    · next s₀ _ =>
      unfold validate at h
      split at h
      · cases h
      · next hzero =>
        obtain rfl := Except.ok.inj h
        exact hzero

end Settings

namespace LoadedSettings

variable {fs : FileSystem} {e : Environment} {start : Path} {error : SettingsError}
  {s : Settings} {l : LoadedSettings} {N : Nat}

/-- The settings in the nearest file, the variables left aside; without any file nothing is
set. -/
def fileSettings (fs : FileSystem) (start : Path) : Except SettingsError Settings :=
  match nearest? fs start with
  | some directory => Settings.ofFile fs (directory.join Settings.fileName)
  | none => .ok {}

theorem fromDirectory_eq (fs : FileSystem) (e : Environment) (start : Path) :
    fromDirectory fs e start = do
      let settings ← (← fileSettings fs start).override e
      return ⟨settings, nearest? fs start⟩ := by
  unfold fromDirectory fileSettings
  cases nearest? fs start <;> rfl

theorem fromDirectory_eq_ok_iff : fromDirectory fs e start = .ok l ↔
    ∃ s, fileSettings fs start = .ok s ∧ s.override e = .ok l.settings ∧
      l.root = nearest? fs start := by
  rw [fromDirectory_eq]
  obtain ⟨settings, root⟩ := l
  cases fileSettings fs start with
  | error error => exact ⟨nofun, nofun⟩
  | ok s =>
    cases hs : s.override e with
    | error error => simp [bind, Except.bind, hs]
    | ok s' => simp [bind, Except.bind, pure, Except.pure, hs, eq_comm]

/-- **Loading fails with the file**, or with the variables if the file is in order. -/
theorem fromDirectory_eq_error_iff : fromDirectory fs e start = .error error ↔
    fileSettings fs start = .error error ∨
      ∃ s, fileSettings fs start = .ok s ∧ s.override e = .error error := by
  rw [fromDirectory_eq]
  cases fileSettings fs start with
  | error error => simp [bind, Except.bind]
  | ok s =>
    cases hs : s.override e with
    | error error => simp [bind, Except.bind, hs]
    | ok s' => simp [bind, Except.bind, pure, Except.pure, hs]

theorem one_le_of_fileSettings (h : fileSettings fs start = .ok s) (hN : s.maxSteps = some N) :
    1 ≤ N := by
  unfold fileSettings at h
  split at h
  · refine Nat.one_le_iff_ne_zero.2 ?_
    rintro rfl
    exact Settings.maxSteps_ne_zero_of_ofFile h hN
  · obtain rfl := Except.ok.inj h
    cases hN

end LoadedSettings

end LS8
