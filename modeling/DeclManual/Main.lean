import DeclManual.CommandLine.Run
import DeclManual.Text.Date
import Std.Time.DateTime

/-!
# The program

The outer layer of a run: it fetches the files that the arguments name, lets the run
happen, and carries out on disk what the run did to its file tree.  The times of files
are not seen here, so pages carry the date of the run.
-/

namespace DeclManual
namespace CommandLine

/-- All bytes of standard input. -/
def stdinBytes : IO ByteArray := do
  let stdin ← IO.getStdin
  let mut bytes := ByteArray.empty
  repeat
    let block ← stdin.read 65536
    if block.isEmpty then break
    bytes := bytes ++ block
  return bytes

/-- The tree before a run: a working directory, with room above it for paths that lead
upwards. -/
def emptyTree : Files.Tree :=
  { entries := [(["home"], .directory), (["home", "work"], .directory)]
    workingDirectory := ["home", "work"] }

/-- The number with which the system says that a path leads to a directory. -/
def directoryCode : UInt32 := 21

/-- Adds the file at a path, or the directory; what cannot be read is left out. -/
def fetch (tree : Files.Tree) (name : String) : IO Files.Tree := do
  let path : Files.Path := ⟨name⟩
  match ← (IO.FS.readBinFile name).toBaseIO with
  | .ok bytes =>
    let (below, _) := tree.ensureDirectories path.isAbsolute (path.parentParts?.getD [])
    return (below.write path bytes).toOption.getD below
  | .error (.inappropriateType _ code _) =>
    return if code == directoryCode then (tree.ensureDirectories path.isAbsolute path.parts).1
      else tree
  | .error _ => return tree

/-- The directory that contains a path. -/
def directoryOf (path : Files.Path) : Option String :=
  match path.parentParts? with
  | none | some [] => none
  | some names => some ((if path.isAbsolute then "/" else "") ++ "/".intercalate names)

/-- Removes what stands at a path, if anything does. -/
def clear (path : Files.Path) : IO Unit := do
  match ← (IO.FS.removeFile path.text).toBaseIO with
  | .ok _ | .error (.noFileOrDirectory _ _ _) => return ()
  | .error error => throw error

/-- Brings a path on disk to the state that it has in a tree.  A file that stands at one
of the paths before it is linked to that. -/
def settlePath (tree : Files.Tree) (before : List Files.Path) (path : Files.Path) : IO Unit := do
  clear path
  match tree.resolve false path with
  | .ok (.taken _ (.file number)) =>
    let isSame (other : Files.Path) : Bool :=
      match tree.resolve false other with
      | .ok (.taken _ (.file twin)) => twin == number
      | _ => false
    match before.find? isSame with
    | some first => IO.FS.hardLink first.text path.text
    | none =>
      if let some directory := directoryOf path then IO.FS.createDirAll directory
      IO.FS.writeBinFile path.text (tree.files.getD number default).bytes
  | .ok (.taken _ (.symlink target)) =>
    throw (.userError ("cannot link " ++ path.text ++ " to " ++ target ++
      ": symbolic links are not supported on this platform"))
  | _ => return ()

/-- Carries out on disk what a run did. -/
def settleAll (outcome : Outcome) : IO Unit := do
  let generated := outcome.summary.generated
  generated.forM (settlePath outcome.tree [])
  outcome.summary.linked.forM (settlePath outcome.tree generated)
  outcome.summary.removed.forM clear

/-- The date of the run. -/
def currentDate : IO String := do
  let now ← Std.Time.Timestamp.now
  return (Text.Date.ofSeconds now.toSecondsSinceUnixEpoch.val).toText

end CommandLine
end DeclManual

open DeclManual.CommandLine in
/-- Runs the program. -/
def main (arguments : List String) : IO UInt32 := do
  let (names, needsStdin) :=
    match Arguments.ofList arguments with
    | .ok read => (read.files ++ read.config.toList, read.files.isEmpty)
    | .error _ => ([], false)
  let tree ← names.foldlM fetch emptyTree
  let stdin ← if needsStdin then stdinBytes else pure ByteArray.empty
  let outcome := run arguments stdin tree (← currentDate)
  IO.eprint (String.ofList outcome.stderr)
  IO.print (String.ofList outcome.stdout)
  match ← (settleAll outcome).toBaseIO with
  | .ok _ => return outcome.code.toUInt32
  | .error error =>
    IO.eprintln ("error: " ++ toString error)
    return 1
