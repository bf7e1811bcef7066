import DeclManual.Source.Comment
import DeclManual.Source.Lexeme
import DeclManual.Text.Number

/-!
# Tokens with their comments

The lexemes of a source become tokens.  A comment that starts on the line on which
the last token ended belongs to that token; any other comment belongs to the next
token, where the last such comment wins.  Line markers (`# 12 "file.h"`,
`#line 12 "file.h"`) move the line number and tell whether tokens come from the
base file; other directives are skipped, and the comment before a directive
describes the directive.
-/

namespace DeclManual
namespace Source

/-- The tokens of a source text. -/
structure Lexed where
  tokens : List Token := []
  /-- The first comment found in the base file. -/
  firstComment : Option String := none
deriving DecidableEq, Repr, Inhabited

/-- The state between two lexemes. -/
structure LexState where
  line : Nat := 1
  /-- Whether a line marker has numbered the lines. -/
  numbered : Bool := false
  /-- The file that is documented, once it is known. -/
  baseFile : Option String := none
  /-- The file that the current text comes from. -/
  file : Option String := none
  inBaseFile : Bool := true
  /-- The line on which the last token ended. -/
  lastTokenLine : Option Nat := none
  /-- The comment that waits for the next token. -/
  pending : Option String := none
  firstComment : Option String := none
  /-- The tokens so far, the newest first. -/
  reversed : List Token := []
deriving DecidableEq, Repr, Inhabited

/-- The number of the line so many newlines further on.  Line numbers are words.  No text in
memory has as many lines as a word has values, so the numbers start again at 0 only where a
line marker has numbered the lines. -/
def lineFrom (numbered : Bool) (line newlines : Nat) : Nat :=
  if numbered then (line + newlines) % Text.wordSize else line + newlines

namespace LexState

/-- The state before the first lexeme. -/
def start (baseFile : Option String) : LexState :=
  { baseFile, file := baseFile }

/-- The name of the current file in messages. -/
def fileName (state : LexState) : String :=
  state.file.getD "stdin"

/-- Moves past a stretch of text. -/
def advance (state : LexState) (text : List Char) : LexState :=
  { state with line := lineFrom state.numbered state.line (text.count '\n') }

/-- Adds a token that ends where the state stands and started on `line`. -/
def push (state : LexState) (kind : Token.Kind) (text : List Char) (line : Nat) : LexState :=
  { state with
    reversed :=
      { kind, text := String.ofList text, line, file := state.file,
        inBaseFile := state.inBaseFile, commentBefore := state.pending } :: state.reversed
    pending := none
    lastTokenLine := some state.line }

/-- Gives a comment to the last token, if it starts on the line on which that
token ended and the token has none, and otherwise to the next. -/
def attach (state : LexState) (startLine : Nat) (comment : String) : LexState :=
  match state.reversed with
  | last :: before =>
    if state.lastTokenLine = some startLine && last.commentAfter.isNone then
      { state with reversed := { last with commentAfter := some comment } :: before }
    else { state with pending := some comment }
  | [] => { state with pending := some comment }

/-- Notes a comment that started on a line, unless nothing is left of it. -/
def addComment (state : LexState) (startLine : Nat) : Option String -> LexState
  | none => state
  | some comment =>
    let noted :=
      if state.inBaseFile && state.firstComment.isNone then
        { state with firstComment := some comment }
      else state
    noted.attach startLine comment

/-- The file named by what follows the number of a line marker. -/
def markerFile? (rest : List Char) : Option String :=
  match Text.trimStart rest with
  | '"' :: quoted => (Text.splitFirst? '"' quoted).map fun parts => String.ofList parts.1
  | _ => none

/-- Switches to the file that a line marker names. -/
def enterFile (state : LexState) (name : String) : LexState :=
  let baseFile := state.baseFile.or (some name)
  { state with baseFile, inBaseFile := baseFile == some name, file := some name }

/-- Applies a directive if it is a line marker. -/
def applyMarker (state : LexState) (body : List Char) : LexState :=
  let words := Text.trimStart (body.dropWhile (· == '#'))
  let words := Text.trimStart (dropLead "line".toList words)
  let digits := words.takeWhile Char.isDigit
  match Text.word64? digits with
  | none => state
  | some number =>
    let entered :=
      match markerFile? (words.drop digits.length) with
      | some name => state.enterFile name
      | none => state
    -- the marker names the line that follows it
    { entered with line := number - 1, numbered := true }

/-- Takes one lexeme. -/
def step (state : LexState) (lexeme : Lexeme) : Except SourceError LexState :=
  let moved := state.advance lexeme.text
  match lexeme.kind with
  | .blanks => .ok moved
  | .blockComment => .ok (moved.addComment state.line (cleanBlock lexeme.text))
  | .lineComments =>
    .ok (moved.addComment state.line (cleanLines (Text.splitOn '\n' lexeme.text)))
  | .directive body => .ok ({ moved with pending := none }.applyMarker body)
  | .token kind => .ok (moved.push kind lexeme.text state.line)
  | .unterminatedComment => .error (.unterminatedComment state.fileName state.line)
  | .unterminatedLiteral => .error (.unterminatedLiteral state.fileName state.line)

/-- The tokens, with the end of the input as the last of them. -/
def finish (state : LexState) : Lexed :=
  let ended := state.push .endOfFile [] state.line
  { tokens := ended.reversed.reverse, firstComment := ended.firstComment }

end LexState

/-- The tokens of a source text that belongs to a base file. -/
def tokenize (source : String) (baseFile : Option String) : Except SourceError Lexed :=
  ((lexemes source.toList).foldlM LexState.step (LexState.start baseFile)).map LexState.finish

end Source
end DeclManual
