import TreeScript.Entries
import TreeScript.Text.Pieces

/-!
# Files

A directory tree and a working directory in it, kept as a list of what stands at each path.  A path
is the list of the names that lead to it from the root, so that `a/./b` and `a/b` are the same path.
The root is the empty list; it, the working directory and what lies between them are always
directories.

`Files.locate` follows the text of a path name by name, from the root if it begins with a slash and
from the working directory if not: every name before the last has to be a directory, `.` stays where
it is, and `..` goes one up, or stays if it is at the root.  `Files.read` and `Files.write` then say
what goes wrong, in the order in which an operating system finds it.  A write replaces the whole
content of a file or fails without effect, and no other path changes (`lookup_put`).

The tree has no links, and what stands in it keeps what was written.  Whatever else can keep a path
from being read or written, such as a protection or a full disk, is an obstacle at it.
-/

namespace TreeScript

/-- What stands at a path. -/
inductive FileNode where
  | file (content : ByteArray)
  | directory
  deriving Inhabited

/-- Why a file was not read or written. -/
inductive FileFailure where
  | notFound
  | notDirectory
  | isDirectory
  | nameTooLong
  | zeroInName
  | notText
  | refused (reason : String)
  deriving DecidableEq, Repr

/-- The wording of a failure. -/
def FileFailure.message : FileFailure → String
  | .notFound => "No such file or directory (os error 2)"
  | .notDirectory => "Not a directory (os error 20)"
  | .isDirectory => "Is a directory (os error 21)"
  | .nameTooLong => "File name too long (os error 36)"
  | .zeroInName => "file name contained an unexpected NUL byte"
  | .notText => "stream did not contain valid UTF-8"
  | .refused reason => reason

/-- A path as the names that lead to it from the root. -/
abbrev Path := List String

/-- What keeps a path from being written and perhaps from being read, whatever stands there. -/
structure Obstacle where
  reason : String
  /-- Whether what stands there can still be read. -/
  isReadable : Bool
  deriving DecidableEq, Repr

/-- A directory tree, and where in it a program is started. -/
structure Files where
  nodes : List (Path × FileNode) := []
  /-- Where paths start that do not start at the root. -/
  workingDirectory : Path := ["work"]
  obstacle : Path → Option Obstacle := fun _ => none
  deriving Inhabited

namespace Files

/-! ## 1. Paths and nodes -/

/-- Whether a path leads to the working directory or to a directory above it. -/
def isAbove (files : Files) (path : Path) : Bool := path.isPrefixOf files.workingDirectory

/-- The directory above a directory; the root is above itself. -/
def parent (dir : Path) : Path := dir.dropLast

/-- What stands at a path. -/
def lookup (files : Files) (path : Path) : Option FileNode :=
  if files.isAbove path then some .directory else Entries.get? files.nodes path

/-- Puts a node at a path, in place of what was there. -/
def put (files : Files) (path : Path) (node : FileNode) : Files :=
  { files with nodes := Entries.insert files.nodes path node }

/-- What stands below the working directory, each at its path from there. -/
def below (files : Files) : List (Path × FileNode) :=
  (files.nodes.filter fun entry => files.workingDirectory.isPrefixOf entry.1).map fun entry =>
    (entry.1.drop files.workingDirectory.length, entry.2)

/-- The names between the slashes of a path's text; repeated slashes count once. -/
def names (text : String) : List String :=
  ((Text.splitOn '/' text.toList).filter fun piece => !piece.isEmpty).map String.ofList

/-- The longest name, in bytes. -/
def nameLimit : Nat := 255

/-- Whether a name is longer than any name of a file. -/
def isLong (name : String) : Bool := nameLimit < name.utf8ByteSize

/-- The longest path text, in bytes. -/
def pathLimit : Nat := 4095

/-- Where a path leads: to a directory that is there, or to a last name in one. -/
inductive Place where
  | directory (path : Path)
  | entry (path : Path)

/-- Follows names from a directory.  The last name is not looked at. -/
def follow (files : Files) (dir : Path) : List String → Except FileFailure Place
  | [] => .ok (.directory dir)
  | name :: rest =>
    if name = "." then follow files dir rest
    else if name = ".." then follow files (parent dir) rest
    else if rest.isEmpty then .ok (.entry (dir ++ [name]))
    else if isLong name then .error .nameTooLong
    else match files.lookup (dir ++ [name]) with
      | some .directory => follow files (dir ++ [name]) rest
      | some (.file _) => .error .notDirectory
      | none => .error .notFound

/-- Where the names of a path's text start: at the root if the text begins with a slash. -/
def start (files : Files) (text : String) : Path :=
  if text.toList.head? = some '/' then [] else files.workingDirectory

/-- **Where the text of a path leads.** -/
def locate (files : Files) (text : String) : Except FileFailure Place :=
  if text.toList.contains '\x00' then .error .zeroInName
  else if text.isEmpty then .error .notFound
  else if pathLimit < text.utf8ByteSize then .error .nameTooLong
  else follow files (files.start text) (names text)

/-- Whether the text of a path asks for a directory. -/
def endsInSlash (text : String) : Bool := text.toList.getLast? = some '/'

/-! ## 2. Reading and writing -/

/-- The bytes of a file. -/
def readBytes (files : Files) (text : String) : Except FileFailure ByteArray := do
  match ← files.locate text with
  | .directory _ => throw .isDirectory
  | .entry path =>
    if path.getLast?.any isLong then throw .nameTooLong
    else match files.obstacle path, files.lookup path with
      | some ⟨reason, false⟩, _ => throw (.refused reason)
      | _, none => throw .notFound
      | _, some .directory => throw .isDirectory
      | _, some (.file content) => if endsInSlash text then throw .notDirectory else return content

/-- **The text of a file.** -/
def read (files : Files) (text : String) : Except FileFailure String := do
  let bytes ← files.readBytes text
  match String.fromUTF8? bytes with
  | some s => return s
  | none => throw .notText

/-- **Writes a text to a file**, in place of its content. -/
def write (files : Files) (text content : String) : Except FileFailure Files := do
  match ← files.locate text with
  | .directory _ => throw .isDirectory
  | .entry path =>
    if endsInSlash text then throw .isDirectory
    else if path.getLast?.any isLong then throw .nameTooLong
    else match files.obstacle path, files.lookup path with
      | some obstacle, _ => throw (.refused obstacle.reason)
      | none, some .directory => throw .isDirectory
      | none, _ => return files.put path (.file content.toUTF8)

/-- Puts a node where a path leads, with the directories above it. -/
def place (files : Files) (text : String) (node : FileNode) : Files :=
  let path := files.start text ++ names text
  let above := (List.range path.length).map fun n => path.take n
  let files := above.foldl (fun built dir =>
    if (built.lookup dir).isSome then built else built.put dir .directory) files
  if files.isAbove path then files else files.put path node

/-! ## 3. What a write does to other paths -/

/-- A write changes what stands at its path and nothing else; no directory stood there. -/
theorem lookup_put (files : Files) {path : Path} (other : Path) (node : FileNode)
    (h : files.lookup path ≠ some .directory) :
    (files.put path node).lookup other =
      if path = other then some node else files.lookup other := by
  have hpath : files.isAbove path = false := Bool.eq_false_iff.mpr fun habove => h (if_pos habove)
  have habove : (files.put path node).isAbove other = files.isAbove other := rfl
  unfold lookup
  rw [habove]
  by_cases ho : files.isAbove other = true
  · have hne : path ≠ other := fun e => by simp [← e, hpath] at ho
    simp [ho, hne]
  · simp [ho, put, Entries.get?_insert]

end Files

end TreeScript
