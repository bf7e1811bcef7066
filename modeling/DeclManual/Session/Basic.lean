import DeclManual.Decl.Enumerator
import DeclManual.Prose.Terse
import DeclManual.Session.Diagnostic
import DeclManual.Session.ManualPage
import DeclManual.Symbol.Table

/-!
# Sessions

A session holds all that one run learns from its input: typedef names and
enumeration tags, enumerator lists, the pages to write and the diagnostics.
-/

namespace DeclManual

open Decl

/-- The state of one run. -/
structure Session where
  options : Options := {}
  typedefs : Symbol.Table := {}
  enumTags : Symbol.Table := {}
  enums : EnumStore := {}
  /-- The documented declarations in order. -/
  pages : List ManualPage := []
  source : SourceState := {}
  /-- The terse description of grouped pages, from the options or from the first
  comment of the input. -/
  groupTerse : Option String := none
  /-- The number of input files begun. -/
  inputFiles : Nat := 0
  diagnostics : List Diagnostic := []
deriving Inhabited

namespace Session

/-- A session before any input. -/
def start (options : Options) : Session :=
  { options, groupTerse := options.groupTerse }

/-- Makes ready for a new base file; none for standard input. -/
def beginFile (session : Session) (name : Option String) (modified : Option Int) : Session :=
  { session with
    source := .atStart name modified
    inputFiles := session.inputFiles + 1 }

/-- Records a message at the current position. -/
def error (session : Session) (message : String) : Session :=
  { session with
    diagnostics := session.diagnostics ++
      [{ file := session.source.currentFile, line := session.source.line, message }] }

/-- Records a conflict at the current position. -/
def report (session : Session) (conflict : Conflict) : Session :=
  session.error conflict.message

/-- Records conflicts at the current position, in order. -/
def reportAll (session : Session) (conflicts : List Conflict) : Session :=
  conflicts.foldl report session

/-- The number of diagnostics. -/
def errorCount (session : Session) : Nat :=
  session.diagnostics.length

/-- Whether a name has been declared by a typedef. -/
def isTypedefName (session : Session) (name : String) : Bool :=
  session.typedefs.contains name

/-- The enumerator list that a typedef name stands for. -/
def typedefEnumList (session : Session) (name : String) : Option ListId :=
  session.typedefs.lookup? name

/-- The enumerator list of an enumeration tag. -/
def tagEnumList (session : Session) (tag : String) : Option ListId :=
  session.enumTags.lookup? tag

/-- Makes an enumerator list known under a tag. -/
def registerEnumTag (session : Session) (tag : String) (list : ListId) : Session :=
  { session with enumTags := session.enumTags.register tag list }

/-- Declares one typedef name, with the enumerator list of its type if there is
one. -/
def declareTypedef (session : Session) (list : Option ListId) (name : String) : Session :=
  match list with
  | some list => { session with typedefs := session.typedefs.register name list }
  | none => { session with typedefs := (session.typedefs.insertIfAbsent name 0).1 }

/-- Declares every name of a typedef. -/
def declareTypedefs (session : Session) (spec : Spec) (declarators : List Declarator) : Session :=
  (declarators.filterMap (·.name)).foldl (fun session => session.declareTypedef spec.enumList)
    session

/-- Offers a declaration for a page. -/
def consider
    (session : Session)
    (comment : Option String)
    (spec : Spec)
    (declarator : Declarator) : Session × Bool :=
  if deservesPage session.options session.source comment spec declarator then
    ({ session with
        pages := session.pages ++
          [{ spec
             declarator := { declarator with comment }
             sourceFile := session.source.baseFile
             sourceTime := session.source.baseTime }] }, true)
  else (session, false)

/-- Takes the terse description of grouped pages from a comment, unless there is
one. -/
def rememberTerse (session : Session) (comment : String) : Session :=
  { session with groupTerse := session.groupTerse.or (some (Prose.terseOf comment)) }

/-- Forgets symbols, enumerator lists and pages. -/
def teardown (session : Session) : Session :=
  { session with
    typedefs := {}
    enumTags := {}
    enums := {}
    pages := []
    groupTerse := session.options.groupTerse }

end Session
end DeclManual
