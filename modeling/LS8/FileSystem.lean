import LS8.Path

/-!
# Files

What the emulator sees of the files around it. A `FileSystem` answers what lies
at a path; reading and testing for existence are built on that answer alone.

`FileTree` is a concrete tree of files and directories. `FileTree.resolve` walks
it as an operating system does: from directory to directory, `..` leading one
up and a file having nothing below it.
-/

namespace LS8

/-- Why a file, or the working directory, could not be had. -/
inductive ReadFailure where
  | notFound
  | notDirectory
  | isDirectory
  | nameTooLong
  | nulInName
  | notUtf8
  | other (text : String)
deriving DecidableEq, Repr

/-- The message of a failure. -/
def ReadFailure.message : ReadFailure → String
  | notFound => "No such file or directory (os error 2)"
  | notDirectory => "Not a directory (os error 20)"
  | isDirectory => "Is a directory (os error 21)"
  | nameTooLong => "File name too long (os error 36)"
  | nulInName => "file name contained an unexpected NUL byte"
  | notUtf8 => "stream did not contain valid UTF-8"
  | other text => text

/-- What may lie at a path. -/
inductive Entry where
  | file (content : ByteArray)
  | directory
  /-- A file that is there but cannot be read, for the given reason. -/
  | locked (reason : String)

/-- The files as the emulator finds them: the directory it works in, which may have
been removed in the meantime, and what lies at each path. Relative paths start from
the working directory. -/
structure FileSystem where
  workingDirectory : Except ReadFailure Path
  lookup : Path → Except ReadFailure Entry

namespace FileSystem

/-- Whether anything, file or directory, lies at a path. -/
def exists? (fs : FileSystem) (p : Path) : Bool :=
  (fs.lookup p).isOk

/-- The text of the file at a path. -/
def readText (fs : FileSystem) (p : Path) : Except ReadFailure String :=
  match fs.lookup p with
  | .error failure => .error failure
  | .ok .directory => .error .isDirectory
  | .ok (.locked reason) => .error (.other reason)
  | .ok (.file content) =>
    match String.fromUTF8? content with
    | some text => .ok text
    | none => .error .notUtf8

end FileSystem

/-- A tree of files and directories. -/
inductive FileTree where
  | file (content : ByteArray)
  | directory (children : List (String × FileTree))

namespace FileTree

/-- What lies at the top of a tree. -/
def entry : FileTree → Entry
  | file content => .file content
  | directory _ => .directory

/-- The tree with `node` placed below it at the given names. Directories on the
way are made where they are missing, and what was there before is replaced, except
that an empty directory leaves one that is there as it is. -/
def insert (tree : FileTree) (names : List String) (node : FileTree) : FileTree :=
  match names with
  | [] =>
    match node, tree with
    | directory [], directory children => directory children
    | node, _ => node
  | name :: rest =>
    let children := match tree with
      | directory children => children
      | file _ => []
    let below := (children.lookup name).getD (directory [])
    directory ((name, below.insert rest node) :: children.filter (·.1 != name))

/-- Follows segments from the node `here`, whose chain of directories above it is
`above`, innermost first. -/
def follow (here : FileTree) (above : List FileTree) :
    List String → Except ReadFailure FileTree
  | [] => .ok here
  | segment :: rest =>
    match here with
    | file _ => .error .notDirectory
    | directory children =>
      if Path.isVoid segment then follow here above rest
      else if segment = ".." then
        match above with
        | [] => follow here [] rest
        | up :: further => follow up further rest
      else if 255 < segment.utf8ByteSize then .error .nameTooLong
      else match children.lookup segment with
        | none => .error .notFound
        | some child => follow child (here :: above) rest

/-- What lies at a path, seen from a working directory within the tree. -/
def resolve (root : FileTree) (workingDirectory p : Path) : Except ReadFailure Entry :=
  let text := p.text
  if text.any (· == '\x00') then .error .nulInName
  else if text = "" then .error .notFound
  else if 4095 < text.utf8ByteSize then .error .nameTooLong
  else
    let segments := if p.isAbsolute then p.segments else workingDirectory.segments ++ p.segments
    (follow root [] segments).map entry

/-- The files of a tree, seen from a working directory. -/
def toFileSystem (root : FileTree) (workingDirectory : Path) : FileSystem :=
  ⟨.ok workingDirectory, root.resolve workingDirectory⟩

end FileTree

end LS8
