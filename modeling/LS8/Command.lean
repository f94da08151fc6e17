import LS8.Command.Arguments
import LS8.Command.Failure
import LS8.Listing
import LS8.Log
import LS8.Settings.Load
import LS8.Command.Session

/-!
# The command

`ls8 PROGRAM` runs a program image or lists it. `Command.run?` is the command as a
function: from the words of the command line, the environment, the files and what
standard output is, to what it prints and the code that it exits with.

The order in which things can fail is the order in which they are done: the
arguments, the settings, the image, and then the run.

Some texts are worded by others, among them those on the use of the command and the
lines of the log: they are a `Wording` and a `Log`, by which an answer is put into
text.
-/

namespace LS8.Command

/-- Standard output as the command finds it: nothing has been written to it yet. -/
structure StandardOutput where
  device : Device := {}
  isTerminal : Bool := false
  device_new : device.written = #[] := by rfl

/-! ## Answers -/

/-- What the command leaves behind. -/
structure Completion where
  /-- What the program, or the listing, wrote to standard output. -/
  output : String := ""
  /-- What went to standard error before the report. -/
  entries : List Note := []
  /-- The failure, which is reported behind the notes. -/
  failure : Option Failure := none
  style : Failure.Style := ⟨false, false⟩
  /-- What standard output said if it did not take a listing, which tears the command
  down. -/
  torn : Option String := none
deriving DecidableEq, Repr

/-- How a command line is answered. -/
inductive Answer where
  | usage (error : UsageError)
  | version
  | help
  | completed (completion : Completion)
deriving DecidableEq, Repr

/-- The exit code: 0 unless there was a failure, or worse. -/
def Completion.code (c : Completion) : Nat :=
  if c.torn.isSome then 101
  else if c.failure.isSome then 1
  else 0

/-- The exit code of an answer. -/
def Answer.code : Answer → Nat
  | usage _ => 2
  | version | help => 0
  | completed c => c.code

/-! ## Texts -/

/-- The texts that are worded by others. -/
structure Wording where
  /-- What is wrong with the text of a settings file. -/
  malformation : Malformation → String
  /-- All that is said if the arguments make no sense. -/
  usage : UsageError → String
  /-- What `--help` prints. -/
  help : String
  /-- What is said if standard output does not take a listing. -/
  torn : String → String

/-- What the command itself notes on standard error: the trace lines and the profile. -/
def Completion.notes (c : Completion) : String :=
  Note.join .silent c.entries

/-- The report on a failure, if there is one. -/
def Completion.reportWith (describe : Malformation → String) (c : Completion) : String :=
  match c.failure with
  | some failure => failure.report describe c.style
  | none => ""

/-- What the command itself puts on standard error: its notes and the report, where
`describe` words what is wrong with a settings file. -/
def Completion.errorsWith (describe : Malformation → String) (c : Completion) : String :=
  c.notes ++ c.reportWith describe

/-- Everything that goes to standard error, the lines of the log included. -/
def Completion.errorsUnder (w : Wording) (log : Log) (c : Completion) : String :=
  Note.join log c.entries ++ (c.torn.map w.torn).getD "" ++ c.reportWith w.malformation

/-- Everything that an answer puts on standard error, the lines of the log included. -/
def Answer.errorsUnder (w : Wording) (log : Log) : Answer → String
  | usage error => w.usage error
  | version | help => ""
  | completed c => c.errorsUnder w log

/-- What an answer puts on standard error if nothing is logged. -/
def Answer.errorsWith (w : Wording) (answer : Answer) : String :=
  answer.errorsUnder w .silent

/-- What `--version` prints. -/
def versionText : String := "ls8 0.1.0\n"

/-- What an answer prints to standard output. -/
def Answer.outputWith (w : Wording) : Answer → String
  | usage _ => ""
  | version => versionText
  | help => w.help
  | completed c => c.output

/-- A text for `--help`. -/
def helpText : String :=
  String.join (List.map (· ++ "\n") [
    "LS-8 emulator",
    "",
    "Usage: ls8 [OPTIONS] <PROGRAM>",
    "",
    "Arguments:",
    "  <PROGRAM>  Path to the program image",
    "",
    "Options:",
    "  -t, --trace          Print a machine-state line per instruction to stderr",
    "  -s, --stats          Print per-opcode execution counts to stderr after the run",
    "      --max-steps <N>  Abort with a non-zero status after N instructions",
    "  -d, --disasm         Print a disassembly listing of the image instead of running it",
    "      --json           Report fatal errors as a JSON diagnostic on stderr",
    "  -h, --help           Print help",
    "  -V, --version        Print version"])

/-- A wording of those texts, for want of the original. -/
def Wording.plain : Wording where
  malformation := Malformation.message
  usage error := "error: " ++ error.message
    ++ "\n\nUsage: ls8 [OPTIONS] <PROGRAM>\n\nFor more information, try '--help'.\n"
  help := helpText
  torn reason := "failed printing to stdout: " ++ reason ++ "\n"

/-- What an answer puts on standard error in the plain wording. -/
def Answer.errors (answer : Answer) : String :=
  answer.errorsWith .plain

/-! ## What is in force -/

/-- Whether the environment asks for reports in JSON. -/
def jsonByDefault (e : Environment) : Bool :=
  match e.text? "LS8_DIAGNOSTICS" with
  | some text => text.toLower == "json"
  | none => false

/-- Whether reports are coloured: if that is forced, or if standard output is a terminal
and colour is not turned off. A variable that forbids it wins. -/
def coloured (out : StandardOutput) (e : Environment) : Bool :=
  let forced := match e.text? "CLICOLOR_FORCE" with
    | some text => text != "0"
    | none => false
  let wanted := match e.text? "CLICOLOR" with
    | some text => text != "0"
    | none => true
  (forced || (out.isTerminal && wanted)) && !e.isSet "NO_COLOR" && !e.isSet "LS8_NO_COLOR"

/-- How a program is run: the arguments over the settings. -/
structure Mode where
  trace : Bool
  stats : Bool
  limit : Option Nat
deriving DecidableEq, Repr

/-- What the arguments ask for, and where they say nothing, the settings. -/
def Mode.ofArguments (a : Arguments) (s : Settings) : Mode where
  trace := a.trace || s.trace
  stats := a.stats || s.stats
  limit := a.maxSteps.or s.maxSteps

/-- Loads the settings of the working directory. -/
def loadSettings (fs : FileSystem) (e : Environment) : Except Failure LoadedSettings :=
  match fs.workingDirectory with
  | .error failure => .error (.workingDirectory failure)
  | .ok directory => (LoadedSettings.fromDirectory fs e directory).mapError .settings

/-! ## Running and listing -/

/-- Lists an image. -/
def list (out : StandardOutput) (image : Image) : Completion :=
  let (device, failure) := out.device.write (Utf8.encode image.listing)
  { output := device.contents
    entries := if Memory.size < image.bytes.length then
        [.logged (.imageTooLong image.bytes.length)]
      else []
    torn := failure }

/-- Runs an image; nothing results if the program never stops. -/
def runImage? (out : StandardOutput) (program : Path) (image : Image) (mode : Mode) :
    Option Completion :=
  let loaded := (Machine.initial out.device mode.stats).load image
  match loaded.fault with
  | some fault => some { failure := some (.loading program image.bytes.length fault) }
  | none => (Session.run? mode.limit mode.trace loaded.state).map fun session => {
      output := session.machine.device.contents
      -- the profile is of use even if the program faulted
      entries := session.notes
        ++ (session.machine.profile.map fun profile => .profiled profile.report).toList
      failure := match session.ending with
        | .halted => none
        | .faulted fault => some (.fault fault)
        | .limitReached limit address => some (.stepLimit limit address) }

/-- Puts notes in front of what is completed. -/
def Completion.after (c : Completion) (notes : List Note) : Completion :=
  { c with entries := notes ++ c.entries }

/-- Executes what the arguments ask for under the given settings. -/
def execute? (fs : FileSystem) (out : StandardOutput) (a : Arguments) (s : Settings) :
    Option Completion :=
  let program := Path.ofString a.program
  match Image.ofFile fs program with
  | .error error => some { failure := some (.image error) }
  | .ok image =>
    let completion? := if a.disasm then some (list out image)
      else runImage? out program image (Mode.ofArguments a s)
    completion?.map (·.after [.logged (.imageLoaded program image.bytes.length)])

/-- Executes what the arguments ask for. If the settings cannot be loaded, only the
arguments and the environment decide on the form of the report. -/
def complete? (fs : FileSystem) (e : Environment) (out : StandardOutput) (a : Arguments) :
    Option Completion :=
  let json := a.json || jsonByDefault e
  match loadSettings fs e with
  | .error failure => some { failure := some failure, style := ⟨json, coloured out e⟩ }
  | .ok loaded =>
    (execute? fs out a loaded.settings).map fun completion =>
      { completion.after (loaded.root.map (.logged <| .settingsLoaded ·)).toList with
        style := ⟨json || loaded.settings.json, coloured out e⟩ }

/-- How the words of a command line are read. -/
abbrev Reader : Type := List String → Except UsageError Request

/-- Answers a command line that is read by `read`; nothing results if the program never
stops. -/
def runWith? (read : Reader) (fs : FileSystem) (e : Environment) (line : List String)
    (out : StandardOutput) : Option Answer :=
  match read line with
  | .error error => some (.usage error)
  | .ok .version => some .version
  | .ok .help => some .help
  | .ok (.execute a) => (complete? fs e out a).map .completed

/-- Answers a command line; nothing results if the program never stops. -/
def run? (fs : FileSystem) (e : Environment) (line : List String) (out : StandardOutput := {}) :
    Option Answer :=
  runWith? Arguments.parse fs e line out

end LS8.Command
