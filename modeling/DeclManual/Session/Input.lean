import DeclManual.Files.Tree
import DeclManual.Grammar.SourceFile
import DeclManual.Text.Encoding

/-!
# Input files

Reading one input file into a session.
-/

namespace DeclManual

/-- Reads a source text as a new base file; none for standard input. -/
def Session.readInput
    (session : Session)
    (name : Option String)
    (modified : Option Int)
    (bytes : ByteArray) : Session × Option Source.SourceError :=
  let begun := session.beginFile name modified
  match begun.readSource (Text.ofSourceBytes bytes) with
  | .ok read => (read, none)
  | .error error => (begun, some error)

/-- Reads the file at a path.  A file that cannot be opened does not begin. -/
def Session.readPath (session : Session) (tree : Files.Tree) (path : String) :
    Session × Option Source.SourceError :=
  match tree.read ⟨path⟩ with
  | .error cause => (session, some (.unreadable path cause))
  | .ok data => session.readInput (some path) data.modified data.bytes

end DeclManual
