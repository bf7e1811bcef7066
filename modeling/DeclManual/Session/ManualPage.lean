import DeclManual.Decl.Declarator
import DeclManual.Options.Basic

/-!
# Manual pages and what gets one

A declaration is documented only when it has a comment, comes from the base file,
is a function (or variables are wanted), is worth documenting, is not a `static`
hidden by the options, and is not an `extern` prototype outside a header.
-/

namespace DeclManual

open Decl

/-- Whether a file name is that of a header. -/
def isHeaderName (name : String) : Bool :=
  match Text.splitLast? '.' name.toList with
  | some (_, 'h' :: _) => true
  | some (_, 'H' :: _) => true
  | _ => false

/-- Where the reading stands, as far as the choice of pages depends on it. -/
structure SourceState where
  /-- The file that is documented; none for standard input. -/
  baseFile : Option String := none
  /-- When that file was last modified. -/
  baseTime : Option Int := none
  /-- Whether the current tokens come from the base file itself. -/
  inBaseFile : Bool := false
  /-- Whether the base file is a header. -/
  isHeader : Bool := false
  /-- The file that the current tokens come from, by the line markers. -/
  currentFile : Option String := none
  line : Nat := 0
deriving DecidableEq, Repr, Inhabited

/-- The state at the start of a file. -/
def SourceState.atStart (baseFile : Option String) (baseTime : Option Int) : SourceState where
  baseFile := baseFile
  baseTime := baseTime
  inBaseFile := true
  isHeader := (baseFile.map isHeaderName).getD false
  currentFile := baseFile
  line := 1

/-- One documented declaration.  Its comment is that of the declarator. -/
structure ManualPage where
  spec : Spec
  declarator : Declarator
  sourceFile : Option String := none
  sourceTime : Option Int := none
deriving Inhabited

namespace ManualPage

/-- The documented name. -/
def name (page : ManualPage) : String :=
  page.declarator.name.getD ""

/-- The comment of the declaration. -/
def comment (page : ManualPage) : Option String :=
  page.declarator.comment

/-- Whether a function is documented. -/
def isFunction (page : ManualPage) : Bool :=
  page.declarator.isFunction

/-- Declarations of an enumeration type document themselves. -/
def isAutoDocumented (page : ManualPage) : Bool :=
  page.spec.enumList.isSome

/-- The kind of the documented object. -/
def objectKind (page : ManualPage) : ObjectKind :=
  .classify page.isFunction page.spec.flags.isStatic

/-- The name of the source file without directories and extension. -/
def sourceBase (page : ManualPage) : Option String :=
  page.sourceFile.map fun file =>
    String.ofList (Text.beforeLast '.' (Text.afterLast '/' file.toList))

end ManualPage

/-- Whether a declaration gets a page. -/
def deservesPage
    (options : Options)
    (source : SourceState)
    (comment : Option String)
    (spec : Spec)
    (declarator : Declarator) : Bool :=
  comment.isSome &&
    source.inBaseFile &&
    (options.variablesOut || declarator.isFunction) &&
    !spec.flags.isJunk &&
    (options.staticOut || !spec.flags.isStatic || source.isHeader) &&
    (!spec.flags.isExtern || source.isHeader || declarator.kind == .functionDef)

end DeclManual
