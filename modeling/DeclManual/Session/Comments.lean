import DeclManual.Session.Basic

/-!
# Comments of declarations

Comments are given to the parameters, declarators and enumerators they describe.
An item that already has a comment keeps it, and the further one is reported.
-/

namespace DeclManual
namespace Session

open Decl

/-- A parameter from its parts and the comments around it.  A missing specifier
becomes a placeholder not worth documenting, a missing declarator an abstract
one.  Of two comments the one before the parameter is kept. -/
def newParameter
    (session : Session)
    (spec : Option Spec)
    (declarator : Option Declarator)
    (before after : Option String) : Session × Parameter :=
  let declarator := declarator.getD .abstract
  let checked :=
    if before.isSome && after.isSome then
      session.report (.parameterComments (declarator.name.getD ""))
    else session
  let comment := (before.or after).or declarator.comment
  (checked, .ofParts (spec.getD (.untexted .junk)) { declarator with comment })

/-- A parameter named in an identifier list, whose type is not known yet. -/
def identifierParameter
    (session : Session)
    (name : String)
    (before after : Option String) : Session × Parameter :=
  session.newParameter none (some (.identifier name)) before after

/-- Gives a trailing comment to the last of some parameters. -/
def commentLastParameter
    (session : Session)
    (parameters : List Parameter)
    (comment : String) : Session × List Parameter × Bool :=
  match parameters.getLast? with
  | none => (session.report (.orphanComment comment), parameters, false)
  | some last =>
    if last.comment.isSome then
      (session.report (.parameterComments last.nameText), parameters, false)
    else
      let commented :=
        { last with declarator := { last.declarator with comment := some comment } }
      (session, parameters.dropLast ++ [commented], true)

/-- Gives trailing comments to the last of some parameters, one after another. -/
def commentLastParameterAll
    (session : Session)
    (parameters : List Parameter) :
    List String -> Session × List Parameter
  | [] => (session, parameters)
  | comment :: rest =>
    let (session, parameters, _) := session.commentLastParameter parameters comment
    session.commentLastParameterAll parameters rest

/-- Gives a trailing comment to the last of some declarators. -/
def commentLastDeclarator
    (session : Session)
    (declarators : List Declarator)
    (comment : String) : Session × List Declarator × Bool :=
  match declarators.getLast? with
  | none => (session, declarators, false)
  | some last =>
    if last.comment.isSome then
      (session.report (.declaratorComments (last.name.getD "")), declarators, false)
    else (session, declarators.dropLast ++ [{ last with comment := some comment }], true)

/-- Gives trailing comments to the last of some declarators, one after another. -/
def commentLastDeclaratorAll
    (session : Session)
    (declarators : List Declarator) :
    List String -> Session × List Declarator
  | [] => (session, declarators)
  | comment :: rest =>
    let (session, declarators, _) := session.commentLastDeclarator declarators comment
    session.commentLastDeclaratorAll declarators rest

/-- Gives a trailing comment to the last enumerator of a list. -/
def commentLastEnumerator (session : Session) (list : ListId) (comment : String) :
    Session × Bool :=
  match session.enums.attachComment list comment with
  | .ok enums => ({ session with enums }, true)
  | .error name => (session.report (.enumeratorComments name), false)

/-- Starts an enumerator list, which is known under its tag if it has one. -/
def newEnumList (session : Session) (tag : Option String) (first : Enumerator) :
    Session × ListId :=
  let (enums, list) := session.enums.start first
  let started := { session with enums }
  match tag with
  | some tag => (started.registerEnumTag tag list, list)
  | none => (started, list)

/-- Adds an enumerator to a list. -/
def appendEnumerator (session : Session) (list : ListId) (enumerator : Enumerator) : Session :=
  { session with enums := session.enums.append list enumerator }

/-! ## Old-style parameter types -/

/-- The specifier text of an old-style parameter.  Where parameters are promoted,
a plain `char` or `short` is passed as `int` and a plain `float` as `double`. -/
def promotedText (promote : Bool) (spec : Spec) (declarator : Declarator) : Option String :=
  if promote && declarator.text == declarator.name then
    if spec.flags.isChar || spec.flags.isShort then some "int"
    else if spec.flags.isFloat then some "double"
    else spec.text
  else spec.text

/-- Types one parameter from its declaration; the conflicts come with it. -/
def typeParameter
    (promote : Bool)
    (spec : Spec)
    (comment : Option String)
    (declarator : Declarator)
    (parameter : Parameter) : Parameter × List Conflict :=
  let name := declarator.name.getD ""
  let old := parameter.spec
  let flags := if old.flags.isJunk then spec.flags else old.flags
  let enumList := old.enumList.or spec.enumList
  let typesConflict := flags != spec.flags || enumList != spec.enumList
  let kept := declarator.comment.or parameter.declarator.comment
  let commentsConflict := comment.isSome && kept.isSome
  ({ parameter with
      spec := { flags, text := promotedText promote spec declarator, enumList }
      declarator := { declarator with comment := kept.or comment } },
    (if typesConflict then [.parameterTypes name] else []) ++
      if commentsConflict then [.parameterComments name] else [])

/-- Types the parameter that a declarator names. -/
def applyParameterType
    (spec : Spec)
    (comment : Option String)
    (state : Session × List Parameter)
    (declarator : Declarator) : Session × List Parameter :=
  let (session, parameters) := state
  let name := declarator.name.getD ""
  match parameters.findIdx? fun parameter => parameter.declarator.name == some name with
  | none => (session.report (.missingArgument name), parameters)
  | some index =>
    let typed :=
      typeParameter session.options.promoteParameters spec comment declarator
        (parameters.getD index default)
    (session.reportAll typed.2, parameters.set index typed.1)

/-- Types the parameters of an old-style definition from one of its parameter
declarations, such as `char c, *s;`.  Every declared name has to be in the
identifier list. -/
def applyParameterTypes
    (session : Session)
    (parameters : List Parameter)
    (spec : Spec)
    (declarators : List Declarator)
    (comment endOfLine : Option String) : Session × List Parameter :=
  if comment.isSome && endOfLine.isSome then
    (session.report .parameterDeclarationComments, parameters)
  else
    declarators.foldl (applyParameterType spec (comment.or endOfLine)) (session, parameters)

/-! ## Complete declarations -/

/-- Gives the comment at the end of a declaration to the last parameter of a
function that has any, or else to the declarator itself. -/
def attachEndOfLine (declarator : Declarator) (comment : String) : Except Conflict Declarator :=
  let target :=
    if declarator.isFunction then declarator.headParameters.getLast? else none
  match target with
  | some parameter =>
    if parameter.comment.isSome then .error (.declaratorComments parameter.nameText)
    else
      let commented :=
        { parameter with declarator := { parameter.declarator with comment := some comment } }
      .ok (declarator.updateHead fun parameters => parameters.dropLast ++ [commented])
  | none =>
    if declarator.comment.isSome then
      .error (.declaratorComments (declarator.name.getD ""))
    else .ok { declarator with comment := some comment }

/-- Gives the comment at the end of a declaration to the last of its declarators. -/
def commentEndOfLine
    (session : Session)
    (declarators : List Declarator)
    (comment : Option String) : Session × List Declarator × Bool :=
  match comment, declarators.getLast? with
  | some comment, some last =>
    match attachEndOfLine last comment with
    | .ok commented => (session, declarators.dropLast ++ [commented], true)
    | .error conflict => (session.report conflict, declarators, false)
  | _, _ => (session, declarators, true)

/-- Hands the declarators of a complete declaration over for pages.  The leading
comment takes precedence over the own comment of a single declarator; of several
declarators, each prefers its own. -/
def rememberDeclarations
    (session : Session)
    (comment : Option String)
    (spec : Spec)
    (declarators : List Declarator)
    (endOfLine : Option String) : Session × Bool :=
  let (checked, declarators, ok) := session.commentEndOfLine declarators endOfLine
  let offered :=
    match declarators with
    | [declarator] =>
      (checked.consider (comment.or declarator.comment) spec
        { declarator with comment := none }).1
    | _ =>
      declarators.foldl
        (fun session declarator =>
          (session.consider (declarator.comment.or comment) spec
            { declarator with comment := none }).1)
        checked
  (offered, ok)

end Session
end DeclManual
