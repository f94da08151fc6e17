import LS8.Toml.Number

/-!
# TOML documents

A document is read in two stages. `Toml.expressions` divides the text into
expressions: headers of tables and assignments to keys. `Toml.build` lets each of
them add to the table that the document denotes; it refuses to define anything
twice.

`Toml.parse` is both together. A byte order mark in front of the text is passed
over.
-/

namespace LS8.Toml

/-- Why a text is no document. -/
inductive Error where
  /-- The line cannot be read, or an expression that begins in it. -/
  | malformedLine (line : Nat)
  /-- A key or table is defined a second time, or in a place that cannot hold it. -/
  | conflict (path : List Key)
deriving DecidableEq, Repr

/-- The message of an error. -/
def Error.message : Error → String
  | malformedLine line => "malformed expression in line " ++ String.ofList (Nat.toDigits 10 line)
  | conflict path =>
    "conflicting definition of `" ++ String.intercalate "." (path.map String.ofList) ++ "`"

/-! ## Adding to tables -/

/-- Assigns a value to a key below a table. The tables on the way are made where
they are missing, and are then open to dotted keys only; a table with a header of
its own is closed to them. `below` tells whether the table itself was reached
through a dotted key. -/
def Table.assign (below : Bool) (item : Item) : List Key → Table → Option Table
  | [], _ => none
  | [key], t =>
    -- a dotted key adds to no table that a header has opened
    if below && t.origin != .dotted then none
    else match t.get? key with
      | some _ => none
      | none => some (t.put key item)
  | key :: rest, t =>
    match t.get? key with
    | none => do
      let sub ← Table.assign true item rest (.empty .dotted)
      some (t.put key (.table sub))
    | some (.table sub) =>
      if sub.origin = .declared then none else do
        let sub ← Table.assign true item rest sub
        some (t.put key (.table sub))
    | some (.tables last earlier) => do
      let last ← Table.assign true item rest last
      some (t.put key (.tables last earlier))
    | some _ => none

/-- Changes the table at a path of headers. Tables on the way are made where they
are missing; an array of tables stands for the last of them. -/
def Table.within (change : Table → Option Table) : List Key → Table → Option Table
  | [], t => change t
  | key :: rest, t =>
    match t.get? key with
    | none => do
      let sub ← Table.within change rest (.empty .implied)
      some (t.put key (.table sub))
    | some (.table sub) => do
      let sub ← Table.within change rest sub
      some (t.put key (.table sub))
    | some (.tables last earlier) => do
      let last ← Table.within change rest last
      some (t.put key (.tables last earlier))
    | some _ => none

/-- Declares the table under a key. It may have been implied before, but nothing
more. -/
def Table.declare (key : Key) (t : Table) : Option Table :=
  match t.get? key with
  | none => some (t.put key (.table (.empty .declared)))
  | some (.table sub) =>
    if sub.origin = .implied then some (t.put key (.table (.mk .declared sub.entries))) else none
  | some _ => none

/-- Adds a table to the array of tables under a key. -/
def Table.extend (key : Key) (t : Table) : Option Table :=
  match t.get? key with
  | none => some (t.put key (.tables (.empty .declared) []))
  | some (.tables last earlier) => some (t.put key (.tables (.empty .declared) (last :: earlier)))
  | some _ => none

/-! ## Values -/

/-- The items of an array, the opening bracket having been read. A comma may follow
the last one. -/
def arrayItems? (item? : Reader Item) (fuel : Nat) (text : List Char) :
    Option (List Item × List Char) :=
  match fuel with
  | 0 => none
  | fuel + 1 =>
    match skipTrivia text with
    | ']' :: rest => some ([], rest)
    | text => do
      let (item, rest) ← item? text
      match skipTrivia rest with
      | ',' :: rest => do
        let (items, rest) ← arrayItems? item? fuel rest
        some (item :: items, rest)
      | ']' :: rest => some ([item], rest)
      | _ => none

/-- The assignments of a table in braces, of which there is at least one. -/
def inlineEntries? (item? : Reader Item) (fuel : Nat) (text : List Char) :
    Option (List (List Key × Item) × List Char) :=
  match fuel with
  | 0 => none
  | fuel + 1 => do
    let (path, rest) ← keyPath? text
    let rest ← expect? '=' rest
    let (item, rest) ← item? (skipSpace rest)
    match skipSpace rest with
    | ',' :: rest => do
      let (entries, rest) ← inlineEntries? item? fuel rest
      some ((path, item) :: entries, rest)
    | '\x7d' :: rest => some ([(path, item)], rest)
    | _ => none

/-- A table in braces, the opening brace having been read. -/
def inlineTable? (item? : Reader Item) (text : List Char) : Option (Item × List Char) :=
  match skipSpace text with
  | '\x7d' :: rest => some (.inlineTable (.empty .declared), rest)
  | text => do
    let (entries, rest) ← inlineEntries? item? (text.length + 1) text
    let table ← entries.foldlM (fun t entry => t.assign false entry.2 entry.1) (.empty .declared)
    some (.inlineTable table, rest)

/-- The text behind a word that has to stand in front. -/
def word? (word : List Char) (text : List Char) : Option (List Char) :=
  if word.isPrefixOf text then some (text.drop word.length) else none

/-- A value that holds no other values. -/
def scalar? (text : List Char) : Option (Item × List Char) :=
  match text with
  | [] => none
  | c :: _ =>
    if c = quote ∨ c = apostrophe then (string? text).map fun (s, rest) => (.string s, rest)
    else if c = 't' then (word? ['t', 'r', 'u', 'e'] text).map fun rest => (.boolean true, rest)
    else if c = 'f' then
      (word? ['f', 'a', 'l', 's', 'e'] text).map fun rest => (.boolean false, rest)
    -- a date begins like an integer, and so does a number with a fraction
    else match moment? text with
      | some rest => some (.moment, rest)
      | none =>
        match float? text with
        | some rest => some (.float, rest)
        | none => (integer? text).map fun (n, rest) => (.integer n, rest)

/-- A value, in which arrays and tables in braces are at most `depth` levels deep. -/
def item? : Nat → Reader Item
  | 0, text => scalar? text
  | depth + 1, text =>
    match text with
    | '[' :: rest =>
      (arrayItems? (item? depth) (rest.length + 1) rest).map fun (items, rest) =>
        (.array items, rest)
    | '\x7b' :: rest => inlineTable? (item? depth) rest
    | _ => scalar? text

/-! ## Expressions -/

/-- A line of a document that says something. -/
inductive Expression where
  | header (path : List Key)
  | arrayHeader (path : List Key)
  | assignment (path : List Key) (item : Item)

/-- An expression and the rest of its line; nothing is said by a line with blanks
and comments only. -/
def expression? (text : List Char) : Option (Option Expression × List Char) :=
  match skipSpace text with
  | '[' :: '[' :: rest => do
    let (path, rest) ← keyPath? rest
    let rest ← expect? ']' rest
    let rest ← expect? ']' rest
    let rest ← lineEnd? rest
    some (some (.arrayHeader path), rest)
  | '[' :: rest => do
    let (path, rest) ← keyPath? rest
    let rest ← expect? ']' rest
    let rest ← lineEnd? rest
    some (some (.header path), rest)
  | text =>
    match lineEnd? text with
    | some rest => some (none, rest)
    | none => do
      let (path, rest) ← keyPath? text
      let rest ← expect? '=' rest
      let (item, rest) ← item? (depthLimit - 1) (skipSpace rest)
      let rest ← lineEnd? rest
      some (some (.assignment path item), rest)

/-- The expressions of a text; if one cannot be read, the text from its line on. -/
def expressionsFrom (fuel : Nat) (text : List Char) : Except (List Char) (List Expression) :=
  match fuel, text with
  | _, [] => .ok []
  | 0, text => .error text
  | fuel + 1, text =>
    match expression? text with
    | none => .error text
    | some (found, rest) => (expressionsFrom fuel rest).map (found.toList ++ ·)

/-- The expressions of a text. Each of them takes at least one character. -/
def expressions (text : List Char) : Except Error (List Expression) :=
  match expressionsFrom text.length text with
  | .ok found => .ok found
  | .error rest => .error (.malformedLine (text.count '\n' - rest.count '\n' + 1))

/-! ## The table of a document -/

/-- Adds the expressions to the table `root`, assignments going to the table at the
path of the last header, `here`. -/
def build (here : List Key) (root : Table) : List Expression → Except Error Table
  | [] => .ok root
  | expression :: rest =>
    let (here, path, root?) := match expression with
      | .header path =>
        (path, path, root.within (Table.declare (path.getLastD [])) path.dropLast)
      | .arrayHeader path =>
        (path, path, root.within (Table.extend (path.getLastD [])) path.dropLast)
      | .assignment path item => (here, here ++ path, root.within (Table.assign false item path) here)
    match root? with
    | some root => build here root rest
    | none => .error (.conflict path)

/-- The text without a byte order mark in front. -/
def skipMark : List Char → List Char
  | [] => []
  | c :: rest => if c.toNat = 0xFEFF then rest else c :: rest

/-- The table that a text denotes. -/
def parse (text : String) : Except Error Table := do
  build [] (.empty .declared) (← expressions (skipMark text.toList))

end LS8.Toml
