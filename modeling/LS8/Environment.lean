/-!
# Environment variables

The variables of the environment with their values as bytes. A value that is not
UTF-8 counts as if the variable were not set.
-/

namespace LS8

/-- The variables that are set. -/
structure Environment where
  entries : List (String × ByteArray)

namespace Environment

/-- The value of a variable as text. -/
def text? (e : Environment) (name : String) : Option String :=
  (e.entries.lookup name).bind String.fromUTF8?

/-- Whether a variable is set, be it to the empty text. -/
def isSet (e : Environment) (name : String) : Bool :=
  (e.text? name).isSome

end Environment

end LS8
