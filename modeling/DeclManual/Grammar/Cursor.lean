import DeclManual.Session.Comments
import DeclManual.Source.Token

/-!
# The cursor of the grammar

Declarations are read from a list of tokens of which the last ends the input.
The cursor holds the tokens not yet taken, the token taken last, and the session
that the declarations are told to.  A syntax error is recorded in the session at
once, so that failing needs no further report.  Every loop is given a number of
steps that its input cannot use up; one that did would fail in a way of its own.
-/

namespace DeclManual
namespace Grammar

open Source (Token)

/-- Where the reading of tokens stands. -/
structure Cursor where
  session : Session
  /-- The tokens not yet taken. -/
  rest : List Token
  /-- The token taken last. -/
  previous : Option Token := none
  /-- The number of open `extern "C" {` blocks. -/
  linkageBlocks : Nat := 0
  /-- The comment before an `extern "C"` without a block. -/
  carried : Option String := none
deriving Inhabited

/-- Why reading fails. -/
inductive SyntaxError where
  /-- A syntax error that has been recorded. -/
  | recorded
  /-- A loop has used up its steps. -/
  | exhausted
deriving DecidableEq, Repr, Inhabited

/-- A step of reading, which moves the cursor and may fail. -/
abbrev Parse := EStateM SyntaxError Cursor

namespace Cursor

/-- What is seen when no token is left. -/
def endToken : Token :=
  { kind := .endOfFile, text := "", line := 0, file := none, inBaseFile := false }

/-- The next token. -/
def peek (cursor : Cursor) : Token :=
  cursor.rest.headD endToken

/-- The token `n` places after the next, or the last one. -/
def peekNth (cursor : Cursor) (n : Nat) : Token :=
  match cursor.rest[n]? with
  | some token => token
  | none => cursor.rest.getLast?.getD endToken

/-- Moves the session's notion of the current position to a token. -/
def sync (cursor : Cursor) (token : Token) : Cursor :=
  { cursor with
    session :=
      { cursor.session with
        source :=
          { cursor.session.source with
            line := token.line
            inBaseFile := token.inBaseFile
            currentFile := token.file } } }

/-- The cursor after the next token; the end of the input is never passed. -/
def advance (cursor : Cursor) : Cursor :=
  let token := cursor.peek
  let synced := cursor.sync token
  if token.isEnd then synced
  else { synced with rest := cursor.rest.tail, previous := some token }

/-- The cursor after a number of tokens. -/
def advanceBy (cursor : Cursor) : Nat -> Cursor
  | 0 => cursor
  | n + 1 => cursor.advance.advanceBy n

/-- The comment after the token taken last. -/
def trailingComment (cursor : Cursor) : Option String :=
  cursor.previous.bind (·.commentAfter)

/-- Whether the token taken last has a given text. -/
def justTook (cursor : Cursor) (text : String) : Bool :=
  (cursor.previous.map (·.hasText text)).getD false

/-- Records a syntax error at the next token. -/
def recordError (cursor : Cursor) (expected : String) : Cursor :=
  let token := cursor.peek
  let synced := cursor.sync token
  let found := if token.isEnd then "end of file" else "'" ++ token.text ++ "'"
  { synced with
    session := synced.session.error ("syntax error: " ++ expected ++ ", found " ++ found) }

end Cursor

/-- The next token. -/
def peek : Parse Token :=
  return (← get).peek

/-- Takes the next token. -/
def take : Parse Token :=
  modifyGet fun cursor => (cursor.peek, cursor.advance)

/-- Takes a number of tokens. -/
def skip (count : Nat) : Parse Unit :=
  modify fun cursor => cursor.advanceBy count

/-- Fails with a syntax error at the next token. -/
def fail {α : Type} (expected : String) : Parse α := do
  modify fun cursor => cursor.recordError expected
  throw .recorded

/-- Whether the next token has a given text. -/
def sees (text : String) : Parse Bool :=
  return (← peek).hasText text

/-- Takes the next token if it has a given text. -/
def accept (text : String) : Parse (Option Token) := do
  if ← sees text then return some (← take) else return none

/-- Takes the next token, which has to have a given text. -/
def expect (text : String) : Parse Token := do
  match ← accept text with
  | some token => return token
  | none => fail ("expected '" ++ text ++ "'")

/-- Lets the session act. -/
def act {α : Type} (action : Session -> Session × α) : Parse α :=
  modifyGet fun cursor =>
    let (session, result) := action cursor.session
    (result, { cursor with session })

end Grammar
end DeclManual
