import DeclManual.Files.Path

/-!
# File trees

A file tree maps absolute paths, as lists of names, to directories, files and
symbolic links.  Two paths may share one file, so a file is a number and its
contents are kept by that number.  Operations follow the usual rules of path
resolution and fail with the errors of the operating system.
-/

namespace DeclManual
namespace Files

/-- The errors of the operating system that file operations can meet. -/
inductive OsError where
  | notPermitted
  | notFound
  | alreadyExists
  | notDirectory
  | isDirectory
  | nameTooLong
  | linkLoop
deriving DecidableEq, Repr, Inhabited

namespace OsError

/-- The number of an error. -/
def code : OsError -> Nat
  | notPermitted => 1
  | notFound => 2
  | alreadyExists => 17
  | notDirectory => 20
  | isDirectory => 21
  | nameTooLong => 36
  | linkLoop => 40

/-- The wording of an error without its number. -/
def wording : OsError -> String
  | notPermitted => "Operation not permitted"
  | notFound => "No such file or directory"
  | alreadyExists => "File exists"
  | notDirectory => "Not a directory"
  | isDirectory => "Is a directory"
  | nameTooLong => "File name too long"
  | linkLoop => "Too many levels of symbolic links"

/-- The message of an error. -/
def message (error : OsError) : String :=
  error.wording ++ " (os error " ++ toString error.code ++ ")"

end OsError

/-- What a file holds, and when it was last modified, in seconds since 1970; no
time stands for now. -/
structure FileData where
  bytes : ByteArray
  modified : Option Int := none
deriving Inhabited

/-- What stands at a path. -/
inductive Entry where
  | directory
  | file (number : Nat)
  | symlink (target : String)
deriving DecidableEq, Repr, Inhabited

/-- An absolute path as the names from the root. -/
abbrev Location := List String

/-- A tree of directories, files and symbolic links.  The root is a directory
without an entry of its own. -/
structure Tree where
  entries : List (Location × Entry) := []
  /-- The contents of each file, by its number. -/
  files : List FileData := []
  workingDirectory : Location := []
deriving Inhabited

/-- Where a path leads. -/
inductive Spot where
  /-- To an entry. -/
  | taken (location : Location) (entry : Entry)
  /-- To a name in a directory that has no such entry. -/
  | vacant (directory : Location) (name : String)
deriving DecidableEq, Repr

/-- How far a path leads before a symbolic link has to be followed. -/
inductive Walk where
  | arrived (spot : Spot)
  | follow (directory : Location) (target : String) (rest : List String)

/-- The longest name of an entry, in bytes. -/
def longestName : Nat := 255

/-- How many symbolic links one path may lead through. -/
def linkLimit : Nat := 40

namespace Tree

/-- What stands at a location. -/
def entryAt? (tree : Tree) (location : Location) : Option Entry :=
  if location = [] then some .directory else tree.entries.lookup location

/-- The tree without what stands at a location. -/
def erase (tree : Tree) (location : Location) : Tree :=
  { tree with entries := tree.entries.filter (·.1 != location) }

/-- The tree with an entry at a location. -/
def put (tree : Tree) (location : Location) (entry : Entry) : Tree :=
  { tree with entries := (tree.erase location).entries ++ [(location, entry)] }

/-- Follows names from a directory as far as no symbolic link has to be followed.
The last name is followed only on demand. -/
def walk (tree : Tree) (followLast : Bool) : Location -> List String -> Except OsError Walk
  | here, [] => .ok (.arrived (.taken here .directory))
  | here, "." :: rest => tree.walk followLast here rest
  | here, ".." :: rest => tree.walk followLast here.dropLast rest
  | here, name :: rest =>
    if longestName < name.utf8ByteSize then .error .nameTooLong
    else
      match tree.entryAt? (here ++ [name]) with
      | none => if rest.isEmpty then .ok (.arrived (.vacant here name)) else .error .notFound
      | some .directory => tree.walk followLast (here ++ [name]) rest
      | some (.file number) =>
        if rest.isEmpty then .ok (.arrived (.taken (here ++ [name]) (.file number)))
        else .error .notDirectory
      | some (.symlink target) =>
        if rest.isEmpty && !followLast then
          .ok (.arrived (.taken (here ++ [name]) (.symlink target)))
        else .ok (.follow here target rest)

/-- Where names lead from a directory, through at most `links` symbolic links. -/
def resolveFrom (tree : Tree) (followLast : Bool) :
    (links : Nat) -> Location -> List String -> Except OsError Spot
  | 0, here, names =>
    match tree.walk followLast here names with
    | .error error => .error error
    | .ok (.arrived spot) => .ok spot
    | .ok (.follow _ _ _) => .error .linkLoop
  | links + 1, here, names =>
    match tree.walk followLast here names with
    | .error error => .error error
    | .ok (.arrived spot) => .ok spot
    | .ok (.follow directory target rest) =>
      let path : Path := ⟨target⟩
      tree.resolveFrom followLast links (if path.isAbsolute then [] else directory)
        (path.names ++ rest)

/-- Where names lead, read from the root or from the working directory. -/
def resolveNames (tree : Tree) (followLast absolute : Bool) (names : List String) :
    Except OsError Spot :=
  tree.resolveFrom followLast linkLimit (if absolute then [] else tree.workingDirectory) names

/-- Where a path leads.  The empty path leads nowhere. -/
def resolve (tree : Tree) (followLast : Bool) (path : Path) : Except OsError Spot :=
  if path.text.isEmpty then .error .notFound
  else tree.resolveNames followLast path.isAbsolute path.names

/-- What the file at a path holds. -/
def read (tree : Tree) (path : Path) : Except OsError FileData :=
  match tree.resolve true path with
  | .error error => .error error
  | .ok (.vacant _ _) => .error .notFound
  | .ok (.taken _ (.file number)) => .ok (tree.files.getD number default)
  | .ok (.taken _ _) => .error .isDirectory

/-- Adds a new file at a location. -/
def create (tree : Tree) (location : Location) (data : FileData) : Tree :=
  { tree.put location (.file tree.files.length) with files := tree.files ++ [data] }

/-- Writes a file, anew or over its old contents, through symbolic links.  A path
that asks for a directory names no file. -/
def write (tree : Tree) (path : Path) (bytes : ByteArray) : Except OsError Tree :=
  if path.endsWithSlash then .error .isDirectory
  else match tree.resolve true path with
  | .error error => .error error
  | .ok (.vacant directory name) => .ok (tree.create (directory ++ [name]) { bytes })
  | .ok (.taken _ (.file number)) => .ok { tree with files := tree.files.set number { bytes } }
  | .ok (.taken _ _) => .error .isDirectory

/-- Removes the file or symbolic link at a path. -/
def remove (tree : Tree) (path : Path) : Except OsError Tree :=
  match tree.resolve false path with
  | .error error => .error error
  | .ok (.vacant _ _) => .error .notFound
  | .ok (.taken _ .directory) => .error .isDirectory
  | .ok (.taken location _) => .ok (tree.erase location)

/-- Makes one directory. -/
def makeDirectory (tree : Tree) (absolute : Bool) (names : List String) : Except OsError Tree :=
  match tree.resolveNames false absolute names with
  | .error error => .error error
  | .ok (.taken _ _) => .error .alreadyExists
  | .ok (.vacant directory name) => .ok (tree.put (directory ++ [name]) .directory)

/-- Whether names lead to a directory. -/
def isDirectory (tree : Tree) (absolute : Bool) (names : List String) : Bool :=
  match tree.resolveNames true absolute names with
  | .ok (.taken _ .directory) => true
  | _ => false

/-- Makes a directory unless it is there. -/
def ensureDirectory (tree : Tree) (absolute : Bool) (names : List String) : Except OsError Tree :=
  match tree.makeDirectory absolute names with
  | .ok made => .ok made
  | .error error => if tree.isDirectory absolute names then .ok tree else .error error

/-- Makes a directory and those above it, given the names from the last to the
first.  Directories made before one that fails stay. -/
def ensureDirectoriesReversed (tree : Tree) (absolute : Bool) :
    (reversed : List String) -> Tree × Option OsError
  | [] => (tree, none)
  | name :: above =>
    match tree.ensureDirectory absolute (name :: above).reverse with
    | .ok made => (made, none)
    | .error .notFound =>
      match tree.ensureDirectoriesReversed absolute above with
      | (made, none) =>
        match made.ensureDirectory absolute (name :: above).reverse with
        | .ok complete => (complete, none)
        | .error error => (made, some error)
      | (made, some error) => (made, some error)
    | .error error => (tree, some error)

/-- Makes a directory and those above it. -/
def ensureDirectories (tree : Tree) (absolute : Bool) (names : List String) :
    Tree × Option OsError :=
  tree.ensureDirectoriesReversed absolute names.reverse

/-- Gives a file a second path.  A symbolic link at the first path is itself the
file meant. -/
def hardLink (tree : Tree) (existing link : Path) : Except OsError Tree :=
  match tree.resolve false existing with
  | .error error => .error error
  | .ok (.vacant _ _) => .error .notFound
  | .ok (.taken _ entry) =>
    match tree.resolve false link with
    | .error error => .error error
    | .ok (.taken _ _) => .error .alreadyExists
    | .ok (.vacant directory name) =>
      if entry = .directory then .error .notPermitted
      else .ok (tree.put (directory ++ [name]) entry)

/-- Makes a symbolic link with the given target. -/
def symbolicLink (tree : Tree) (target : String) (link : Path) : Except OsError Tree :=
  match tree.resolve false link with
  | .error error => .error error
  | .ok (.taken _ _) => .error .alreadyExists
  | .ok (.vacant directory name) => .ok (tree.put (directory ++ [name]) (.symlink target))

/-- The number of paths at which a file stands. -/
def linkCount (tree : Tree) (number : Nat) : Nat :=
  tree.entries.countP fun item => item.2 == .file number

/-- The entries below the working directory, by their path from there. -/
def listing (tree : Tree) : List (String × Entry) :=
  let below := tree.entries.filterMap fun (location, entry) =>
    (tree.workingDirectory.isPrefixOf? location).map fun names => ("/".intercalate names, entry)
  (below.filter (!·.1.isEmpty)).mergeSort fun first second => decide (first.1 ≤ second.1)

end Tree
end Files
end DeclManual
