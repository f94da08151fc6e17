import LS8.Environment
import LS8.Settings.File
import LS8.Text.Numeral

/-!
# Loading settings

Settings come from a file and from the environment, which goes over the file.

- `Settings.override` lays the variables `LS8_MAX_STEPS`, `LS8_TRACE` and
  `LS8_STATS` over settings;
- `LoadedSettings.fromFile` reads a given file;
- `LoadedSettings.fromDirectory` looks for the nearest file: in the directory
  itself, then in the one that its path names as the parent, and so on. The first
  that exists decides, also when it cannot be used.
-/

namespace LS8

namespace Settings

/-- The words that turn a variable on, in any mixture of capitals. -/
def isOn (text : String) : Bool :=
  ["true", "1", "yes", "on"].contains text.toLower

/-- The limit on instructions that a variable sets: a positive number, blanks being
allowed round it. -/
def limitOfText (text : String) : Except SettingsError Nat :=
  match (Numeral.readWord64? (Text.trim text.toList)).filter (0 < ·) with
  | some limit => .ok limit
  | none => .error (.invalidValue "LS8_MAX_STEPS" ("'" ++ text ++ "' is not a positive integer"))

/-- The section on running, empty if it was absent, with changes. -/
def modifyRun (s : Settings) (change : RunSettings → RunSettings) : Settings :=
  { s with run := some (change (s.run.getD {})) }

/-- Lays the variables of the environment over settings. -/
def override (s : Settings) (e : Environment) : Except SettingsError Settings := do
  let s ← match e.text? "LS8_MAX_STEPS" with
    | none => pure s
    | some text => do
      let limit ← limitOfText text
      pure (s.modifyRun ({ · with maxSteps := some limit }))
  let s := match e.text? "LS8_TRACE" with
    | none => s
    | some text => s.modifyRun ({ · with trace := some (isOn text) })
  let s := match e.text? "LS8_STATS" with
    | none => s
    | some text => s.modifyRun ({ · with stats := some (isOn text) })
  return s

end Settings

/-- Settings, and the directory of the file that they came from. -/
structure LoadedSettings where
  settings : Settings
  root : Option Path
deriving DecidableEq, Repr

namespace LoadedSettings

/-- Whether the settings came from a file. -/
def isProject (l : LoadedSettings) : Bool := l.root.isSome

/-- The settings in a given file, under those of the environment. -/
def fromFile (fs : FileSystem) (e : Environment) (path : Path) :
    Except SettingsError LoadedSettings := do
  let settings ← (← Settings.ofFile fs path).override e
  return { settings, root := path.parent? }

/-- The first directory from `start` upwards that holds a settings file. -/
def nearest? (fs : FileSystem) (start : Path) : Option Path :=
  start.ancestors.find? fun directory => fs.exists? (directory.join Settings.fileName)

/-- The settings in the nearest file, under those of the environment. Without any
file only the environment counts. -/
def fromDirectory (fs : FileSystem) (e : Environment) (start : Path) :
    Except SettingsError LoadedSettings := do
  match nearest? fs start with
  | some directory =>
    let settings ← (← Settings.ofFile fs (directory.join Settings.fileName)).override e
    return { settings, root := some directory }
  | none =>
    let settings ← Settings.override {} e
    return { settings, root := none }

end LoadedSettings

end LS8
