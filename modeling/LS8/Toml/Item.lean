/-!
# TOML values

What a TOML document denotes: `Toml.Item` is a value, and `Toml.Table` an
ordered table of values under their keys.

How a table came to be is part of it, because it decides what may still be added
to it (`Toml.Origin`). Dates, times and floating-point numbers are only told
apart from the other kinds, no setting being one.
-/

namespace LS8.Toml

/-- A key, without quotation marks. -/
abbrev Key := List Char

/-- How a table came to be. -/
inductive Origin where
  /-- By a header that names a table below it. -/
  | implied
  /-- By a dotted key. -/
  | dotted
  /-- By a header of its own, or as the top of the document. -/
  | declared
deriving DecidableEq, Repr

mutual

/-- A value. -/
inductive Item where
  | string (text : List Char)
  | integer (n : Int)
  | float
  | boolean (b : Bool)
  | moment
  | array (items : List Item)
  /-- A table in braces; nothing can be added to it. -/
  | inlineTable (table : Table)
  /-- A table that the document makes by headers or dotted keys. -/
  | table (table : Table)
  /-- The tables of an array of tables, the last one first. -/
  | tables (last : Table) (earlier : List Table)

/-- A table, its entries in the order of the document. -/
inductive Table where
  | mk (origin : Origin) (entries : List (Key × Item))

end

namespace Table

/-- How the table came to be. -/
def origin : Table → Origin
  | mk origin _ => origin

/-- The entries of the table. -/
def entries : Table → List (Key × Item)
  | mk _ entries => entries

/-- A table without entries. -/
def empty (origin : Origin) : Table := mk origin []

/-- The value under a key. -/
def get? (t : Table) (key : Key) : Option Item :=
  t.entries.lookup key

/-- The table with an entry put in place: over the one of this key, or at the
end. -/
def put (t : Table) (key : Key) (item : Item) : Table :=
  match t.get? key with
  | some _ =>
    mk t.origin (t.entries.map fun entry => if entry.1 == key then (key, item) else entry)
  | none => mk t.origin (t.entries ++ [(key, item)])

end Table

end LS8.Toml
