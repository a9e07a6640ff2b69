import DocLint.CommandLine

/-!
# The program

Reads the files that the arguments name and the standard input, has `CommandLine.run` decide, and
writes what it says.
-/

namespace DocLint

namespace Program

/-- The bytes as an array. -/
def toByteArray (s : Bytes) : ByteArray := ⟨s.toArray⟩

/-- All of a stream. -/
def readAll (stream : IO.FS.Stream) : IO Bytes := do
  let mut text : ByteArray := .empty
  let mut chunk ← stream.read 65536
  while !chunk.isEmpty do
    text := text ++ chunk
    chunk ← stream.read 65536
  return text.data.toList

/-- The content of a file, if it can be opened. -/
def content? (path : String) : IO (Option Bytes) := do
  try
    return some (← IO.FS.readBinFile path).data.toList
  catch _ =>
    return none

/-- Why a directory could not be listed. -/
def listingError : IO.Error → ListingError
  | .permissionDenied .. => .forbidden
  | e => .failed (ascii (toString e))

/-- The tree below a path, down to some depth.  Below a directory only source files are read. -/
def readTree (depth : Nat) (path : String) (wanted : Bool) : IO FileTree := do
  let place ← IO.FS.realPath path
  if ← place.isDir then
    match depth with
    | 0 => return .directory []
    | depth + 1 =>
      match ← place.readDir.toBaseIO with
      | .error e => return .unlisted (listingError e)
      | .ok entries =>
        let trees ← entries.toList.mapM fun entry => do
          let name := ascii entry.fileName
          let inner := path ++ "/" ++ entry.fileName
          return (name, ← readTree depth inner (FileTree.isSourceName name))
        return .directory trees
  else if wanted then return .file (← content? path)
  else return .file none

/-- The tree that a path leads to, if there is one. -/
def readTree? (path : String) : IO (Option FileTree) := do
  try
    return some (← readTree 256 path true)
  catch _ =>
    return none

/-- What the command may ask about: the standard input and the trees below the named paths. -/
def environment (arguments : List Bytes) : IO CommandLine.Environment := do
  match CommandLine.parse {} arguments with
  | .ok (.lint o) =>
    let paths := o.targets.filter fun path => path != ascii "-"
    let trees ← paths.mapM fun path => do
      match String.fromUTF8? (toByteArray path) with
      | none => return (path, none)
      | some name => return (path, ← readTree? name)
    let stdin ← if o.targets.contains (ascii "-") then readAll (← IO.getStdin) else pure []
    return { stdin, find? := fun path => (trees.lookup path).join }
  | _ => return { find? := fun _ => none }

end Program

end DocLint

/-- Runs the program on its arguments. -/
def main (arguments : List String) : IO UInt32 := do
  let arguments := arguments.map DocLint.ascii
  let outcome := DocLint.CommandLine.run arguments (← DocLint.Program.environment arguments)
  (← IO.getStdout).write (DocLint.Program.toByteArray outcome.stdout)
  (← IO.getStderr).write (DocLint.Program.toByteArray outcome.stderr)
  match outcome.ending with
  | .exit code => return UInt32.ofNat code
  -- The code that a shell gives to an aborted program.
  | .abort => return 134
  | .never =>
    while true do
      IO.sleep 1000
    return 0
