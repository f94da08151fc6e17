import LS8.Settings
import LS8.Settings.Error

/-!
# Settings files

A settings file is a TOML document with two tables. The table `run` has the keys
`max_steps`, a number, and `trace` and `stats`, each true or false; the table
`output` has the key `json`, true or false.

Every key may be left out and no other key is allowed. A table may also be
written as an array of its values in this order, which then all have to be
there; further items are ignored.

`Settings.parse` reads a text and `Settings.ofFile` a file. A text that is no such
document is malformed whatever its values; only then are the values themselves
checked (`Settings.validate`).
-/

namespace LS8.Settings

/-! ## From a document to settings -/

/-- A key as text. -/
def keyText (key : Toml.Key) : String := String.ofList key

/-- The values of a table under the given names; no other key may occur. -/
def tableFields (names : List String) (t : Toml.Table) :
    Except Malformation (List (Option Toml.Item)) :=
  match t.entries.find? fun entry => !names.contains (keyText entry.1) with
  | some entry => .error (.unknownKey (keyText entry.1))
  | none => .ok (names.map fun name => t.get? name.toList)

/-- The values of a section under the given names, whichever way it is written. -/
def sectionFields (name : String) (names : List String) :
    Toml.Item → Except Malformation (List (Option Toml.Item))
  | .table t | .inlineTable t => tableFields names t
  | .array items =>
    if items.length < names.length then .error (.missingItem name)
    else .ok ((items.take names.length).map some)
  | _ => .error (.wrongKind name)

/-- A value that has to be a number from zero on. -/
def count (name : String) : Option Toml.Item → Except Malformation (Option Nat)
  | none => .ok none
  | some (.integer n) => if 0 ≤ n then .ok (some n.toNat) else .error (.wrongKind name)
  | some _ => .error (.wrongKind name)

/-- A value that has to be true or false. -/
def flag (name : String) : Option Toml.Item → Except Malformation (Option Bool)
  | none => .ok none
  | some (.boolean b) => .ok (some b)
  | some _ => .error (.wrongKind name)

/-- The section on running. -/
def runSection (item : Toml.Item) : Except Malformation RunSettings := do
  let fields ← sectionFields "run" ["max_steps", "trace", "stats"] item
  let maxSteps ← count "max_steps" (fields.getD 0 none)
  let trace ← flag "trace" (fields.getD 1 none)
  let stats ← flag "stats" (fields.getD 2 none)
  return { maxSteps, trace, stats }

/-- The section on reporting. -/
def outputSection (item : Toml.Item) : Except Malformation OutputSettings := do
  let fields ← sectionFields "output" ["json"] item
  let json ← flag "json" (fields.getD 0 none)
  return { json }

/-- The settings that a document denotes. -/
def ofTable (t : Toml.Table) : Except Malformation Settings := do
  let fields ← tableFields ["run", "output"] t
  let run ← (fields.getD 0 none).mapM runSection
  let output ← (fields.getD 1 none).mapM outputSection
  return { run, output }

/-- The settings that a text denotes, their values not yet checked. -/
def ofText (text : String) : Except Malformation Settings :=
  match Toml.parse text with
  | .error e => .error (.toml e)
  | .ok t => ofTable t

/-! ## Reading -/

/-- A limit on instructions has to be positive. -/
def validate (s : Settings) : Except SettingsError Settings :=
  if s.maxSteps = some 0 then
    .error (.invalidValue "run.max_steps" "must be greater than zero")
  else .ok s

/-- The name of a settings file. -/
def fileName : String := "ls8.toml"

/-- The settings that the text of the file at `path` denotes. -/
def parseFile (path : Path) (text : String) : Except SettingsError Settings :=
  match ofText text with
  | .error what => .error (.malformed path what)
  | .ok s => s.validate

/-- The settings that a text denotes. -/
def parse (text : String) : Except SettingsError Settings :=
  parseFile (Path.ofString fileName) text

/-- The settings in a file. -/
def ofFile (fs : FileSystem) (path : Path) : Except SettingsError Settings :=
  match fs.readText path with
  | .error .notFound => .error (.notFound path)
  | .error failure => .error (.unreadable failure)
  | .ok text => parseFile path text

end LS8.Settings
