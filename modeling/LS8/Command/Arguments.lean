import LS8.Text.Numeral

/-!
# Command-line arguments

`Arguments.parse` reads the words of a command line:

- exactly one word is the program, which must not be empty;
- `-t`, `--trace`, `-s`, `--stats`, `-d`, `--disasm` and `--json` switch something
  on, and `--max-steps N` or `--max-steps=N` gives a positive limit. Each of them
  may occur once;
- short options can be written together; `-` alone is no option;
- after `--` every word is the program.

The words are read from left to right, and the first that decides the matter
does: a mistake, or a request for the version or for help.
-/

namespace LS8.Command

/-- What was asked for. -/
structure Arguments where
  program : String
  trace : Bool := false
  stats : Bool := false
  disasm : Bool := false
  json : Bool := false
  maxSteps : Option Nat := none
deriving DecidableEq, Repr

/-- Why the words of a command line make no sense. -/
inductive UsageError where
  | unknownOption (option : String)
  | repeatedOption (option : String)
  | unexpectedValue (option : String)
  | missingValue (option : String)
  | invalidLimit (text : String)
  | unexpectedWord (word : String)
  | emptyProgram
  | missingProgram
deriving DecidableEq, Repr

/-- What is wrong, in words. -/
def UsageError.message : UsageError → String
  | unknownOption option => "unexpected argument '" ++ option ++ "' found"
  | repeatedOption option => "the argument '" ++ option ++ "' cannot be used multiple times"
  | unexpectedValue option => "unexpected value for '" ++ option ++ "' found; no more were expected"
  | missingValue option => "a value is required for '" ++ option ++ "' but none was supplied"
  | invalidLimit text => "invalid value '" ++ text ++ "' for '--max-steps <N>'"
  | unexpectedWord word => "unexpected argument '" ++ word ++ "' found"
  | emptyProgram => "a value is required for '<PROGRAM>' but none was supplied"
  | missingProgram => "the following required arguments were not provided: <PROGRAM>"

/-- What a command line asks for. -/
inductive Request where
  | execute (arguments : Arguments)
  | version
  | help
deriving DecidableEq, Repr

namespace Arguments

/-- What the words read so far have given. -/
structure Pending where
  program : Option String := none
  trace : Bool := false
  stats : Bool := false
  disasm : Bool := false
  json : Bool := false
  maxSteps : Option Nat := none
deriving DecidableEq, Repr

/-- What becomes of the words so far when one more is read: reading goes on, or
the matter is decided. -/
inductive Progress where
  | reading (pending : Pending)
  | decided (request : Request)

/-- The options that take no value. -/
inductive Switch where
  | trace
  | stats
  | disasm
  | json
  | version
  | help
deriving DecidableEq, Repr

/-- The switch of a long name. -/
def Switch.ofName? (name : String) : Option Switch :=
  [("trace", trace), ("stats", stats), ("disasm", disasm), ("json", json),
    ("version", version), ("help", help)].lookup name

/-- The switch of a letter. -/
def Switch.ofLetter? (letter : Char) : Option Switch :=
  [('t', trace), ('s', stats), ('d', disasm), ('V', version), ('h', help)].lookup letter

/-- Flips a switch that was written as `option`. -/
def Pending.flip (p : Pending) (option : String) : Switch → Except UsageError Progress
  | .trace =>
    if p.trace then .error (.repeatedOption option) else .ok (.reading { p with trace := true })
  | .stats =>
    if p.stats then .error (.repeatedOption option) else .ok (.reading { p with stats := true })
  | .disasm =>
    if p.disasm then .error (.repeatedOption option) else .ok (.reading { p with disasm := true })
  | .json =>
    if p.json then .error (.repeatedOption option) else .ok (.reading { p with json := true })
  | .version => .ok (.decided .version)
  | .help => .ok (.decided .help)

/-- Flips the switches of letters that were written together. -/
def Pending.flipAll (p : Pending) : List Char → Except UsageError Progress
  | [] => .ok (.reading p)
  | letter :: rest =>
    let option := String.ofList ['-', letter]
    match Switch.ofLetter? letter with
    | none => .error (.unknownOption option)
    | some switch =>
      match p.flip option switch with
      | .ok (.reading p) => p.flipAll rest
      | result => result

/-- Takes the limit on instructions. -/
def Pending.limit (p : Pending) (text : String) : Except UsageError Pending :=
  if p.maxSteps.isSome then .error (.repeatedOption "--max-steps")
  else match (Numeral.readWord64? text.toList).filter (0 < ·) with
    | some limit => .ok { p with maxSteps := some limit }
    | none => .error (.invalidLimit text)

/-- Takes the program. -/
def Pending.word (p : Pending) (word : String) : Except UsageError Pending :=
  if p.program.isSome then .error (.unexpectedWord word)
  else if word = "" then .error .emptyProgram
  else .ok { p with program := some word }

/-- The end of the command line. -/
def Pending.finish (p : Pending) : Except UsageError Request :=
  match p.program with
  | none => .error .missingProgram
  | some program => .ok (.execute {
      program, trace := p.trace, stats := p.stats, disasm := p.disasm, json := p.json,
      maxSteps := p.maxSteps })

/-- How a word is to be read, by its beginning. -/
inductive Shape where
  /-- `--` alone. -/
  | separator
  /-- A long option, with a value if an equals sign follows the name. -/
  | long (name : List Char) (value : Option (List Char))
  /-- Letters behind a single hyphen. -/
  | short (letters : List Char)
  /-- Any other word, `-` alone included. -/
  | plain
deriving DecidableEq, Repr

/-- The shape of a word. -/
def Shape.ofWord : List Char → Shape
  | '-' :: '-' :: [] => separator
  | '-' :: '-' :: rest =>
    match rest.span (· != '=') with
    | (name, '=' :: value) => long name (some value)
    | (name, _) => long name none
  | '-' :: letter :: rest => short (letter :: rest)
  | _ => plain

/-- The words behind the separator. -/
def plainWords (p : Pending) : List String → Except UsageError Request
  | [] => p.finish
  | word :: rest => do plainWords (← p.word word) rest

/-- The words from here on. -/
def words (p : Pending) : List String → Except UsageError Request
  | [] => p.finish
  | word :: rest =>
    match Shape.ofWord word.toList with
    | .separator => plainWords p rest
    | .plain => do words (← p.word word) rest
    | .short letters =>
      match p.flipAll letters with
      | .ok (.reading p) => words p rest
      | .ok (.decided request) => .ok request
      | .error e => .error e
    | .long name value =>
      let name := String.ofList name
      let option := "--" ++ name
      if name = "max-steps" then
        match value, rest with
        | some text, rest => do words (← p.limit (String.ofList text)) rest
        | none, [] => .error (.missingValue option)
        | none, next :: rest =>
          -- a word that looks like an option is never taken as a value
          if Shape.ofWord next.toList = .plain then do words (← p.limit next) rest
          else .error (.missingValue option)
      else
        match Switch.ofName? name, value with
        | none, _ => .error (.unknownOption option)
        | some _, some _ => .error (.unexpectedValue option)
        | some switch, none =>
          match p.flip option switch with
          | .ok (.reading p) => words p rest
          | .ok (.decided request) => .ok request
          | .error e => .error e

/-- Reads the words of a command line. -/
def parse (line : List String) : Except UsageError Request := words {} line

end Arguments

end LS8.Command
