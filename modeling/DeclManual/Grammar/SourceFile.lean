import DeclManual.Grammar.Declarator
import DeclManual.Source.Lexer

/-!
# Source files

The declarations of a source file are read one after another.  Every complete
declaration is told to the session, which decides what is documented; a
declaration that cannot be read is skipped after its error has been recorded.
-/

namespace DeclManual
namespace Grammar

open Decl
open Source (Token)

/-- The comment at the end of a declaration from the one before the semicolon and
the one after it.  Of two, the first goes to the last declarator. -/
def endOfLineComment
    (trailing after : Option String)
    (declarators : List Declarator) : Parse (Option String × List Declarator) :=
  match trailing, after with
  | some trailing, some after => do
    let declarators ← act fun session =>
      session.commentLastDeclaratorAll declarators [trailing]
    return (some after, declarators)
  | trailing, after => return (after.or trailing, declarators)

/-- The end of one declarator of a declaration: a comma, after which another
follows, or the semicolon.  The comment at the end of the declaration comes with
the latter. -/
def declaratorEnd (declarators : List Declarator) :
    Parse (List Declarator × Option (Option String)) := do
  let trailing := (← get).trailingComment
  match ← accept "," with
  | some comma =>
    let declarators ← act fun session =>
      session.commentLastDeclaratorAll declarators (trailing.toList ++ comma.commentAfter.toList)
    return (declarators, none)
  | none =>
    let semicolon ← expect ";"
    let (comment, declarators) ← endOfLineComment trailing semicolon.commentAfter declarators
    return (declarators, some comment)

/-! ## Old-style definitions -/

/-- The declarators of an old-style parameter declaration through its semicolon,
at most `count` of them, with the comment at its end. -/
def parameterDeclarators :
    (count : Nat) -> List Declarator -> Parse (List Declarator × Option String)
  | 0, _ => throw .exhausted
  | count + 1, declarators => do
    let declarator ← requiredDeclarator
    match ← declaratorEnd (declarators ++ [declarator]) with
    | (declarators, none) => parameterDeclarators count declarators
    | (declarators, some comment) => return (declarators, comment)

/-- One old-style parameter declaration such as `char *s, c;`, which types the
parameters of a function. -/
def parameterDeclaration (function : Declarator) : Parse Declarator := do
  let comment := (← peek).commentBefore
  match ← declarationSpecifiers .declaration with
  | none => fail "expected parameter declaration"
  | some specifiers =>
    let (declarators, endOfLine) ← parameterDeclarators (← get).rest.length []
    let parameters ← act fun session =>
      session.applyParameterTypes function.headParameters specifiers.spec declarators comment
        endOfLine
    return function.updateHead fun _ => parameters

/-- The old-style parameter declarations up to the body of a definition, at most
`count` of them. -/
def parameterDeclarations : (count : Nat) -> Declarator -> Parse Declarator
  | 0, _ => throw .exhausted
  | count + 1, function => do
    if ← sees "\x7b" then return function
    else if (← peek).isEnd then fail "expected function body"
    else parameterDeclarations count (← parameterDeclaration function)

/-- The comment of a definition, which may be the one at the start of its body. -/
def definitionComment (options : Options) (comment body : Option String) : Option String :=
  if options.bodyStartOnly then body
  else if options.lookAtBodyStart && comment.isNone then body
  else comment

/-- The parameter declarations and the body of a function definition. -/
def functionDefinition (comment : Option String) (spec : Spec) (function : Declarator) :
    Parse Unit := do
  let function ← parameterDeclarations ((← get).rest.length + 1) function
  let opener ← take
  let bodyComment := opener.commentAfter.or (← peek).commentBefore
  skipUntilClose "\x7d"
  act fun session =>
    ((session.rememberDeclarations (definitionComment session.options comment bodyComment) spec
      [{ function with kind := .functionDef }] none).1, ())

/-! ## Declarations -/

/-- What the specifiers of a declaration say, and the comments around them. -/
structure DeclarationStart where
  /-- The comment before the declaration. -/
  comment : Option String
  /-- The comment between the specifiers and the first declarator. -/
  returnComment : Option String
  spec : Spec
  isTypedef : Bool

/-- Hands a complete declaration to the session. -/
def finishDeclaration
    (start : DeclarationStart)
    (declarators : List Declarator)
    (endOfLine : Option String) : Parse Unit :=
  act fun session =>
    let session :=
      if start.isTypedef then session.declareTypedefs start.spec declarators else session
    ((session.rememberDeclarations start.comment start.spec declarators endOfLine).1, ())

/-- The declarators of a declaration through its semicolon, at most `count` of
them, or the rest of a function definition. -/
def declarators (start : DeclarationStart) : (count : Nat) -> List Declarator -> Parse Unit
  | 0, _ => throw .exhausted
  | count + 1, read => do
    let first ← peek
    let declarator ← requiredDeclarator
    skipAttributes
    let next ← peek
    if read.isEmpty && !start.isTypedef && declarator.isFunction &&
        (next.hasText "\x7b" || next.isWord) then
      functionDefinition start.comment start.spec
        { declarator with returnComment := start.returnComment }
    else
      let declarator :=
        if read.isEmpty then { declarator with returnComment := start.returnComment }
        else { declarator with comment := first.commentBefore.or declarator.comment }
      skipValue [",", ";"]
      match ← declaratorEnd (read ++ [declarator]) with
      | (read, none) => declarators start count read
      | (read, some endOfLine) => finishDeclaration start read endOfLine

/-- Takes the comment that an `extern "C"` has left. -/
def takeCarried : Parse (Option String) :=
  modifyGet fun cursor => (cursor.carried, { cursor with carried := none })

/-- One declaration or definition. -/
def externalDeclaration : Parse Unit := do
  let carried ← takeCarried
  let comment := (← peek).commentBefore.or carried
  match ← declarationSpecifiers .declaration with
  | none =>
    declarators { comment, returnComment := none, spec := .ofText "int" {}, isTypedef := false }
      (← get).rest.length []
  | some specifiers =>
    -- a structure, union or enumeration without declarators
    if (← accept ";").isSome then return ()
    else
      let next ← peek
      declarators
        { comment, returnComment := next.commentBefore, spec := specifiers.spec,
          isTypedef := specifiers.isTypedef }
        (← get).rest.length []

/-! ## Whole files -/

/-- The words of statements that may stand between declarations. -/
def statementWords : List String :=
  ["_Static_assert", "static_assert", "asm", "__asm__"]

/-- Closes a brace that stands between declarations. -/
def closeLinkageBlock : Parse Unit := do
  modify fun cursor =>
    if 0 < cursor.linkageBlocks then { cursor with linkageBlocks := cursor.linkageBlocks - 1 }
    else cursor.recordError "unbalanced '\x7d'"
  discard take

/-- Reads `extern "C"`, with or without an opening brace. -/
def linkage : Parse Unit := do
  let word ← take
  discard take
  if (← accept "\x7b").isSome then
    modify fun cursor => { cursor with linkageBlocks := cursor.linkageBlocks + 1 }
  else modify fun cursor => { cursor with carried := word.commentBefore }

/-- Reads on in another way after a syntax error. -/
def orElseRecorded (attempt instead : Parse Unit) : Parse Unit :=
  tryCatch attempt fun
    | .recorded => instead
    | .exhausted => throw .exhausted

/-- Reads the next item of a file. -/
def item : Parse Unit := do
  let cursor ← get
  let next := cursor.peek
  if next.hasText ";" then discard take
  else if next.hasText "\x7d" then closeLinkageBlock
  else if next.hasText "extern" && (cursor.peekNth 1).kind == .stringLiteral then linkage
  else if statementWords.contains next.text then orElseRecorded skipStatement (return ())
  else orElseRecorded externalDeclaration recover

/-- Reads at most `count` items of a file. -/
def items : (count : Nat) -> Parse Unit
  | 0 => throw .exhausted
  | count + 1 => do
    if (← peek).isEnd then return ()
    item
    items count

/-- Reads a file to its end. -/
def wholeFile : Parse Unit := do
  items (← get).rest.length

end Grammar

/-- Reads tokens into a session. -/
def Session.readTokens (session : Session) (tokens : List Source.Token) : Session :=
  match Grammar.wholeFile { session, rest := tokens } with
  | .ok _ cursor => cursor.session
  | .error _ cursor => cursor.session

/-- Reads source text that belongs to the session's current base file.  Only
lexical errors are returned; all others are recorded. -/
def Session.readSource (session : Session) (source : String) :
    Except Source.SourceError Session :=
  match Source.tokenize source session.source.baseFile with
  | .error error => .error error
  | .ok lexed =>
    let session :=
      match session.options.groupTogether, lexed.firstComment with
      | true, some comment => session.rememberTerse comment
      | _, _ => session
    .ok (session.readTokens lexed.tokens)

end DeclManual
