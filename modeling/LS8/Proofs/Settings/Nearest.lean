import LS8.Proofs.Path.Components
import LS8.Proofs.Settings.Loading

/-!
# The nearest settings file

Settings are looked for level by level upwards, as the path reads. The first level that holds
anything under the name of a settings file decides: `LoadedSettings.Nearest` says which one that
is, and `Settings.Unusable` what may be wrong with the thing that lies there.

- `LoadedSettings.nearest?_eq_some_iff`: the search finds the nearest level;
- `LoadedSettings.agree_fromFile`: from there on it is as if the file itself had been given,
  although the root of the project is then worked out from the path of the file;
- `LoadedSettings.fromDirectory_nearest`: all about the search from any start.
-/

namespace LS8

namespace Settings

variable {fs : FileSystem} {path : Path} {entry : Entry} {error : SettingsError}

/-- What lies at `path` cannot be used as a settings file, for the given reason. -/
inductive Unusable (path : Path) : Entry → SettingsError → Prop
  | directory : Unusable path .directory (.unreadable .isDirectory)
  | locked (reason) : Unusable path (.locked reason) (.unreadable (.other reason))
  | notText (content) (h : String.fromUTF8? content = none) :
      Unusable path (.file content) (.unreadable .notUtf8)
  | malformed (content text what) (htext : String.fromUTF8? content = some text)
      (h : ofText text = .error what) : Unusable path (.file content) (.malformed path what)
  | zeroLimit (content text s) (htext : String.fromUTF8? content = some text)
      (hs : ofText text = .ok s) (h : s.maxSteps = some 0) :
      Unusable path (.file content) (.invalidValue "run.max_steps" "must be greater than zero")

theorem parseFile_eq_error_iff {text : String} : parseFile path text = .error error ↔
    (∃ what, ofText text = .error what ∧ error = .malformed path what) ∨
    ∃ s, ofText text = .ok s ∧ s.maxSteps = some 0 ∧
      error = .invalidValue "run.max_steps" "must be greater than zero" := by
  unfold parseFile validate
  cases ofText text with
  | error what => simp [eq_comm]
  | ok s =>
    by_cases h : s.maxSteps = some 0
    · simp [h, eq_comm]
    · simp [h]

/-- What cannot be used is an error. -/
theorem ofFile_of_unusable (h : fs.lookup path = .ok entry)
    (hfail : Unusable path entry error) : ofFile fs path = .error error := by
  unfold ofFile FileSystem.readText
  rw [h]
  cases hfail with
  | directory | locked => rfl
  | notText _ htext => simp only [htext]
  | malformed _ text what htext hwhat =>
    simp only [htext]
    exact parseFile_eq_error_iff.2 (.inl ⟨what, hwhat, rfl⟩)
  | zeroLimit _ text s htext hs hzero =>
    simp only [htext]
    exact parseFile_eq_error_iff.2 (.inr ⟨s, hs, hzero, rfl⟩)

/-- There is no other error about a file that is there. -/
theorem unusable_of_ofFile (h : fs.lookup path = .ok entry)
    (hfail : ofFile fs path = .error error) : Unusable path entry error := by
  unfold ofFile FileSystem.readText at hfail
  rw [h] at hfail
  cases entry with
  | directory =>
    obtain rfl := Except.error.inj hfail
    exact .directory
  | locked reason =>
    obtain rfl := Except.error.inj hfail
    exact .locked reason
  | file content =>
    cases htext : String.fromUTF8? content with
    | none =>
      simp only [htext] at hfail
      obtain rfl := Except.error.inj hfail
      exact .notText content htext
    | some text =>
      simp only [htext] at hfail
      rcases parseFile_eq_error_iff.1 hfail with ⟨what, hwhat, rfl⟩ | ⟨s, hs, hzero, rfl⟩
      · exact .malformed content text what htext hwhat
      · exact .zeroLimit content text s htext hs hzero

/-- The variables are never what is not found. -/
theorem override_ne_notFound (s : Settings) (e : Environment) (missing : Path) :
    s.override e ≠ .error (.notFound missing) := by
  intro h
  obtain ⟨text, -, hlimit⟩ := override_eq_error_iff.1 h
  unfold limitOfText at hlimit
  split at hlimit <;> cases hlimit

end Settings

namespace LoadedSettings

variable {fs : FileSystem} {e : Environment} {start c q : Path} {error : SettingsError}
  {entry : Entry}

/-! ## The search -/

/-- Anything, file or directory, lies in a directory under the name of a settings file. -/
def HoldsFile (fs : FileSystem) (directory : Path) : Prop :=
  ∃ entry, fs.lookup (directory.join Settings.fileName) = .ok entry

/-- `c` is the first level from `start` upwards that holds a settings file. -/
def Nearest (fs : FileSystem) (start c : Path) : Prop :=
  ∃ n, start.up n = some c ∧ HoldsFile fs c ∧
    ∀ j < n, ∀ q, start.up j = some q → ¬ HoldsFile fs q

theorem exists?_iff : fs.exists? (q.join Settings.fileName) = true ↔ HoldsFile fs q := by
  unfold FileSystem.exists? HoldsFile
  cases fs.lookup (q.join Settings.fileName) <;> simp [Except.isOk, Except.toBool]

/-- **The search finds the nearest level.** -/
theorem nearest?_eq_some_iff : nearest? fs start = some c ↔ Nearest fs start c := by
  unfold nearest? Nearest
  rw [List.find?_eq_some_iff_getElem, exists?_iff]
  constructor
  · rintro ⟨hc, n, hn, rfl, hbefore⟩
    refine ⟨n, ?_, hc, fun j hj q hq => ?_⟩
    · rw [← Path.getElem?_ancestors, List.getElem?_eq_getElem hn]
    · rw [← Path.getElem?_ancestors, List.getElem?_eq_getElem (Nat.lt_trans hj hn)] at hq
      obtain rfl := Option.some.inj hq
      have hnot := hbefore j hj
      rw [Bool.not_eq_true', Bool.eq_false_iff, ne_eq, exists?_iff] at hnot
      exact hnot
  · rintro ⟨n, hup, hc, hbefore⟩
    rw [← Path.getElem?_ancestors] at hup
    obtain ⟨hn, rfl⟩ := List.getElem?_eq_some_iff.1 hup
    refine ⟨hc, n, hn, rfl, fun j hj => ?_⟩
    rw [Bool.not_eq_true', Bool.eq_false_iff, ne_eq, exists?_iff]
    refine hbefore j hj _ ?_
    rw [← Path.getElem?_ancestors, List.getElem?_eq_getElem (Nat.lt_trans hj hn)]

theorem nearest?_eq_none_iff :
    nearest? fs start = none ↔ ∀ n q, start.up n = some q → ¬ HoldsFile fs q := by
  unfold nearest?
  rw [List.find?_eq_none]
  constructor
  · intro h n q hq
    rw [← Path.getElem?_ancestors] at hq
    rw [← exists?_iff]
    exact h q (List.mem_of_getElem? hq)
  · intro h q hq
    obtain ⟨n, hn⟩ := List.getElem?_of_mem hq
    rw [exists?_iff]
    exact h n q ((Path.getElem?_ancestors start n).symm.trans hn)

/-! ## What is found -/

/-- The same settings with roots of the same components, or the same error. -/
inductive Agree : Except SettingsError LoadedSettings → Except SettingsError LoadedSettings → Prop
  | settings (s : Settings) {q q' : Path} (h : q.components = q'.components) :
      Agree (.ok ⟨s, some q⟩) (.ok ⟨s, some q'⟩)
  | error (error : SettingsError) : Agree (.error error) (.error error)

theorem fromDirectory_of_nearest (h : Nearest fs start c) : fromDirectory fs e start = do
    let settings ← (← Settings.ofFile fs (c.join Settings.fileName)).override e
    return ⟨settings, some c⟩ := by
  rw [fromDirectory_eq, fileSettings, nearest?_eq_some_iff.2 h]

/-- **The nearest file counts as if it had been given.** -/
theorem agree_fromFile (h : Nearest fs start c) :
    Agree (fromDirectory fs e start) (fromFile fs e (c.join Settings.fileName)) := by
  have hname : Path.isVoid Settings.fileName = false := by decide
  obtain ⟨parent, hparent, hcomponents⟩ := c.components_parent?_join hname
  rw [fromDirectory_of_nearest h, fromFile, hparent]
  cases Settings.ofFile fs (c.join Settings.fileName) with
  | error error => exact .error error
  | ok s =>
    cases hs : s.override e with
    | error error =>
      simp only [bind, Except.bind, hs]
      exact .error error
    | ok s' =>
      simp only [bind, Except.bind, pure, Except.pure, hs]
      exact .settings s' hcomponents.symm

/-- The search does not go on past a file that cannot be used. -/
theorem fromDirectory_of_unusable (h : Nearest fs start c)
    (hentry : fs.lookup (c.join Settings.fileName) = .ok entry)
    (hfail : Settings.Unusable (c.join Settings.fileName) entry error) :
    fromDirectory fs e start = .error error := by
  rw [fromDirectory_of_nearest h, Settings.ofFile_of_unusable hentry hfail]
  rfl

/-- What the search has found is not missing. -/
theorem fromDirectory_ne_notFound (h : Nearest fs start c) (missing : Path) :
    fromDirectory fs e start ≠ .error (.notFound missing) := by
  intro hfail
  obtain ⟨-, -, ⟨entry, hentry⟩, -⟩ := id h
  rcases fromDirectory_eq_error_iff.1 hfail with hfile | ⟨s, -, hvariables⟩
  · rw [fileSettings, nearest?_eq_some_iff.2 h] at hfile
    cases Settings.unusable_of_ofFile hentry hfile
  · exact Settings.override_ne_notFound s e missing hvariables

/-- **The nearest settings file wins.** The way upwards takes off one component after the other
and ends at the empty path or the root. If some level holds a settings file, then the nearest one
decides, as if it had been given: with its settings, or with what is wrong with it. If none does,
only the variables count. -/
theorem fromDirectory_nearest (fs : FileSystem) (e : Environment) (start : Path) :
    (∃ n top, start.up n = some top ∧ start.up (n + 1) = none ∧
      (top.components = [] ∨ top.components = [.root])) ∧
    (∀ n q, start.up n = some q →
      q.components = start.components.take (start.components.length - n)) ∧
    (∀ c, Nearest fs start c →
      Agree (fromDirectory fs e start) (fromFile fs e (c.join Settings.fileName)) ∧
      (∀ entry error, fs.lookup (c.join Settings.fileName) = .ok entry →
        Settings.Unusable (c.join Settings.fileName) entry error →
        fromDirectory fs e start = .error error) ∧
      ∀ missing, fromDirectory fs e start ≠ .error (.notFound missing)) ∧
    ((∀ n q, start.up n = some q → ¬ HoldsFile fs q) →
      fromDirectory fs e start = (Settings.override {} e).map fun s => ⟨s, none⟩) := by
  refine ⟨start.exists_top, fun n q => Path.components_up, fun c hc => ⟨agree_fromFile hc,
    fun entry error => fromDirectory_of_unusable hc, fromDirectory_ne_notFound hc⟩,
    fun hnone => ?_⟩
  rw [fromDirectory_eq, fileSettings, nearest?_eq_none_iff.2 hnone]
  cases hs : Settings.override {} e <;> simp [bind, Except.bind, pure, Except.pure, hs, Except.map]

/-- A limit at the top, and below it a directory that has the name of a settings file. -/
def shadowed : FileSystem where
  workingDirectory := .ok (Path.ofString "/")
  lookup path :=
    let tree : FileTree := .directory
      [("ls8.toml", .file "[run]\nmax_steps = 5\n".toUTF8),
       ("a", .directory [("ls8.toml", .directory []), ("b", .directory [])])]
    (tree.follow [] path.segments).map FileTree.entry

/-- From below the directory it is found and refused, although the file at the top is in order. A
start that does not exist is only a path. Where nothing is found a variable still counts. -/
theorem fromDirectory_nearest_shadowed :
    fromDirectory shadowed ⟨[]⟩ (Path.ofString "a//b/.") =
      .error (.unreadable .isDirectory) ∧
    Agree (fromDirectory shadowed ⟨[]⟩ (Path.ofString ".//./none"))
      (fromFile shadowed ⟨[]⟩ (Path.ofString "./ls8.toml")) ∧
    fromDirectory ⟨.ok (Path.ofString "/"), fun _ => .error .notFound⟩
      ⟨[("LS8_STATS", "On".toUTF8)]⟩ (Path.ofString "a/b") =
        .ok ⟨{ run := some { stats := some true } }, none⟩ := by
  have hfirst : ∀ {start parent : Path}, start.parent? = some parent → HoldsFile shadowed parent →
      shadowed.lookup (start.join Settings.fileName) = .error .notFound →
      Nearest shadowed start parent := by
    intro start parent hparent hholds hmissing
    refine ⟨1, hparent, hholds, fun j hj q hq => ?_⟩
    obtain rfl := Nat.lt_one_iff.1 hj
    obtain rfl := Option.some.inj hq
    rintro ⟨entry, hentry⟩
    cases hmissing.symm.trans hentry
  have hhere : Nearest shadowed (Path.ofString "a//b/.") (Path.ofString "a") :=
    hfirst (by decide) ⟨.directory, rfl⟩ rfl
  have hthere : Nearest shadowed (Path.ofString ".//./none") (Path.ofString ".") :=
    hfirst (by decide) ⟨.file "[run]\nmax_steps = 5\n".toUTF8, rfl⟩ rfl
  obtain ⟨-, -, hsearch, -⟩ := fromDirectory_nearest shadowed ⟨[]⟩ (Path.ofString "a//b/.")
  obtain ⟨-, -, hsearch', -⟩ := fromDirectory_nearest shadowed ⟨[]⟩ (Path.ofString ".//./none")
  have hnothing : ∀ n q, (Path.ofString "a/b").up n = some q →
      ¬ HoldsFile ⟨.ok (Path.ofString "/"), fun _ => .error .notFound⟩ q := by
    rintro n q - ⟨entry, hentry⟩
    cases hentry
  obtain ⟨-, -, -, hnone⟩ := fromDirectory_nearest
    ⟨.ok (Path.ofString "/"), fun _ => .error .notFound⟩ ⟨[("LS8_STATS", "On".toUTF8)]⟩
    (Path.ofString "a/b")
  have hswitches : Settings.withSwitches {} ⟨[("LS8_STATS", "On".toUTF8)]⟩ =
      { run := some { stats := some true } } := by decide +kernel
  refine ⟨(hsearch _ hhere).2.1 .directory _ rfl .directory, (hsearch' _ hthere).1, ?_⟩
  rw [hnone hnothing, Settings.override_of_unset (by decide +kernel), hswitches]
  rfl

end LoadedSettings

end LS8
