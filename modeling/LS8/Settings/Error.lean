import LS8.FileSystem
import LS8.Toml.Document

/-!
# Errors of settings

Why settings could not be had. `Malformation` is what is wrong with the text of a
settings file, `SettingsError` all that can go wrong on the way to settings.
-/

namespace LS8

/-- What is wrong with the text of a settings file. -/
inductive Malformation where
  | toml (error : Toml.Error)
  | unknownKey (key : String)
  | wrongKind (key : String)
  | missingItem (name : String)
deriving DecidableEq, Repr

/-- The message of a malformation. -/
def Malformation.message : Malformation → String
  | toml error => error.message
  | unknownKey key => "unknown key `" ++ key ++ "`"
  | wrongKind key => "`" ++ key ++ "` has a value of the wrong kind"
  | missingItem name => "`" ++ name ++ "` has too few items"

/-- Why there are no settings. -/
inductive SettingsError where
  | notFound (path : Path)
  | unreadable (failure : ReadFailure)
  | malformed (file : Path) (what : Malformation)
  | invalidValue (field reason : String)
deriving DecidableEq, Repr

/-- The message of an error, where `describe` words what is wrong with a file. -/
def SettingsError.messageWith (describe : Malformation → String) : SettingsError → String
  | notFound path => "Configuration file not found: " ++ path.text
  | unreadable failure => "Failed to read configuration file: " ++ failure.message
  | malformed file what => "Invalid TOML syntax in " ++ file.text ++ ": " ++ describe what
  | invalidValue field reason => "Invalid value for '" ++ field ++ "': " ++ reason

/-- The message of an error. -/
def SettingsError.message (e : SettingsError) : String :=
  e.messageWith Malformation.message

end LS8
