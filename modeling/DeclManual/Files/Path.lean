import DeclManual.Text.Lines

/-!
# Paths

A path is kept as its text, which is what messages show.  Two paths are the same
when their components agree: repeated and trailing slashes and inner `.`
components do not count.
-/

namespace DeclManual
namespace Files

/-- A path to a file, as it was written. -/
structure Path where
  text : String
deriving DecidableEq, Repr, Inhabited

namespace Path

/-- Whether a path starts at the root. -/
def isAbsolute (path : Path) : Bool :=
  path.text.toList.head? == some '/'

/-- Drops the `.` components of a list. -/
def dropDots (parts : List String) : List String :=
  parts.filter (· != ".")

/-- The components of a path after the root.  A leading `.` of a relative path
is a component; any other `.` is not. -/
def parts (path : Path) : List String :=
  match ((Text.splitOn '/' path.text.toList).filter (!·.isEmpty)).map String.ofList with
  | [] => []
  | first :: rest =>
    if path.isAbsolute || first != "." then dropDots (first :: rest)
    else first :: dropDots rest

/-- Whether a path ends with a slash. -/
def endsWithSlash (path : Path) : Bool :=
  path.text.toList.getLast? == some '/'

/-- The names that a path leads through, every `.` included.  A slash at the end
asks for a directory, as a `.` does. -/
def names (path : Path) : List String :=
  ((Text.splitOn '/' path.text.toList).filter (!·.isEmpty)).map String.ofList ++
    if path.endsWithSlash then ["."] else []

/-- Whether two paths have the same components. -/
def same (first second : Path) : Bool :=
  first.isAbsolute == second.isAbsolute && first.parts == second.parts

/-- The path that a second path names when read from a first one.  An absolute
path replaces the first. -/
def join (base added : Path) : Path :=
  if added.isAbsolute then added
  else
    match base.text.toList.getLast? with
    | none => added
    | some '/' => ⟨base.text ++ added.text⟩
    | some _ => ⟨base.text ++ "/" ++ added.text⟩

/-- The components of the directory that contains a path; none when there is no
last component to leave out. -/
def parentParts? (path : Path) : Option (List String) :=
  match path.parts with
  | [] => none
  | parts => some parts.dropLast

/-- The last component of a path, if it is a name. -/
def fileName? (path : Path) : Option String :=
  path.parts.getLast?.filter fun name => name != "." && name != ".."

end Path
end Files
end DeclManual
