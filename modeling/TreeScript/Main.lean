import TreeScript.CommandLine

/-!
# The program

The library runs on a directory tree that is held in memory.  The program takes the working
directory into memory, with all that is below it, does what the command line asks for, prints what
the report says and writes back the files that have changed.  What is neither below the working
directory nor above it is not taken, and so a path that leads there finds nothing.
-/

namespace TreeScript

/-- More fuel than any run can use up. -/
def ampleFuel : Nat := Nat.pow 2 62

/-- What stands below a directory, each at its path from the working directory.  What is neither a
file that can be read nor a directory is left out. -/
partial def nodesBelow (path : Path) : IO (List (Path × FileNode)) := do
  let place ← IO.FS.realPath ("/".intercalate ("." :: path))
  let mut nodes : List (Path × FileNode) := []
  for entry in ← place.readDir do
    let path := path ++ [entry.fileName]
    try
      match (← entry.path.metadata).type with
      | .dir => nodes := nodes ++ (path, .directory) :: (← nodesBelow path)
      | .file => nodes := nodes ++ [(path, .file (← IO.FS.readBinFile entry.path))]
      | _ => pure ()
    catch _ => pure ()
  return nodes

/-- Writes the files that are not as they were before. -/
def writeChanges (before after : Files) : IO Unit := do
  for (path, node) in after.nodes do
    match node, before.lookup path with
    | .file content, some (.file known) =>
      if content != known then IO.FS.writeBinFile (textOfPath path) content
    | .file content, _ => IO.FS.writeBinFile (textOfPath path) content
    | .directory, _ => pure ()
where
  textOfPath (path : Path) : String := "/" ++ "/".intercalate path

/-- Runs a command line in the working directory and gives its exit code. -/
def runCommandLine (arguments : List String) : IO UInt32 := do
  let workingDirectory := Files.names (← IO.currentDir).toString
  let nodes ← nodesBelow []
  let files : Files :=
    { nodes := nodes.map fun (path, node) => (workingDirectory ++ path, node)
      workingDirectory := workingDirectory }
  let report := CommandLine.run ampleFuel files arguments
  writeChanges files report.files
  IO.print report.output
  for record in report.log do
    IO.eprintln record.line
  IO.eprint report.errors
  return UInt32.ofNat report.code

end TreeScript

/-- The command line of the language. -/
def main (arguments : List String) : IO UInt32 := TreeScript.runCommandLine arguments
