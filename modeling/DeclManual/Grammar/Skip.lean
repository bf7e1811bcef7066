import DeclManual.Grammar.Cursor
import DeclManual.Grammar.Keyword

/-!
# Skipping

Function bodies, member lists, initialisers and the arguments of attributes are
skipped as balanced runs of tokens.  Each run is measured on the list of tokens
first, and then taken.
-/

namespace DeclManual
namespace Grammar

open Source (Token)

/-- Whether a text opens a bracket. -/
def isOpener (text : String) : Bool :=
  text == "(" || text == "[" || text == "\x7b"

/-- Whether a text closes a bracket. -/
def isCloser (text : String) : Bool :=
  text == ")" || text == "]" || text == "\x7d"

/-- The length of the run through the bracket that closes `depth` further open
ones and then the one already taken, and whether that bracket is the right one.
Without one the run goes up to the end of the input. -/
def closingRun (close : String) : (depth : Nat) -> List Token -> Nat × Bool
  | _, [] => (0, false)
  | depth, token :: rest =>
    if token.isEnd then (0, false)
    else if token.kind == .punctuator && isOpener token.text then
      let (length, closed) := closingRun close (depth + 1) rest
      (length + 1, closed)
    else if token.kind == .punctuator && isCloser token.text then
      match depth with
      | 0 => (1, token.text == close)
      | depth + 1 =>
        let (length, closed) := closingRun close depth rest
        (length + 1, closed)
    else
      let (length, closed) := closingRun close depth rest
      (length + 1, closed)

/-- Skips through the bracket that matches one already taken. -/
def skipUntilClose (close : String) : Parse Unit := do
  let (length, closed) := closingRun close 0 (← get).rest
  skip length
  if closed then return () else fail ("expected '" ++ close ++ "'")

/-- Skips from an opening bracket through its match. -/
def skipBalanced (opener close : String) : Parse Unit := do
  discard (expect opener)
  skipUntilClose close

/-- Skips a run in brackets if one opens at the cursor. -/
def skipGroup (opener close : String) : Parse Unit := do
  if ← sees opener then skipBalanced opener close

/-- How an expression ends. -/
inductive ExpressionEnd where
  | stop
  | unbalanced
  | endOfFile
deriving DecidableEq, Repr

/-- The length of an expression up to one of `stops` outside all brackets, and
how it ends. -/
def expressionRun (stops : List String) : (depth : Nat) -> List Token -> Nat × ExpressionEnd
  | _, [] => (0, .endOfFile)
  | depth, token :: rest =>
    let further (depth : Nat) :=
      let (length, ending) := expressionRun stops depth rest
      (length + 1, ending)
    if token.isEnd then (0, .endOfFile)
    else if depth == 0 && stops.contains token.text then (0, .stop)
    else if isOpener token.text then further (depth + 1)
    else if isCloser token.text then
      if depth == 0 then (0, .unbalanced) else further (depth - 1)
    else further depth

/-- Skips an expression up to one of `stops` outside all brackets. -/
def skipExpression (stops : List String) : Parse Unit := do
  let (length, ending) := expressionRun stops 0 (← get).rest
  skip length
  match ending with
  | .stop => return ()
  | .unbalanced => fail "unbalanced expression"
  | .endOfFile => fail "unexpected end of file"

/-- Skips the value after an equals sign, if there is one. -/
def skipValue (stops : List String) : Parse Unit := do
  if (← accept "=").isSome then skipExpression stops

/-- Skips attributes with their arguments, at most `count` of them. -/
def skipAttributesUpTo : (count : Nat) -> Parse Unit
  | 0 => throw .exhausted
  | count + 1 => do
    if attributes.contains (← peek).text then
      discard take
      skipGroup "(" ")"
      skipAttributesUpTo count

/-- Skips attributes with their arguments. -/
def skipAttributes : Parse Unit := do
  skipAttributesUpTo (← get).rest.length

/-- The length of the run to the end of a declaration that could not be read: a
semicolon or a closing brace outside all braces, where the brace is left if it
was not opened here. -/
def recoveryRun : (depth : Nat) -> List Token -> Nat
  | _, [] => 0
  | depth, token :: rest =>
    if token.isEnd then 0
    else if token.text == ";" && depth == 0 then 1
    else if token.text == "\x7b" then recoveryRun (depth + 1) rest + 1
    else if token.text == "\x7d" then
      match depth with
      | 0 => 0
      | 1 => 1
      | depth + 1 => recoveryRun depth rest + 1
    else recoveryRun depth rest + 1

/-- Skips to the end of a declaration that could not be read. -/
def recover : Parse Unit := do
  skip (recoveryRun 0 (← get).rest)

/-- Skips a statement through its semicolon, in at most `steps` steps. -/
def skipStatementUpTo : (steps : Nat) -> Parse Unit
  | 0 => throw .exhausted
  | steps + 1 => do
    if (← peek).isEnd then return ()
    else if ← sees "(" then
      skipBalanced "(" ")"
      skipStatementUpTo steps
    else if (← take).hasText ";" then return ()
    else skipStatementUpTo steps

/-- Skips a statement through its semicolon. -/
def skipStatement : Parse Unit := do
  skipStatementUpTo (← get).rest.length

end Grammar
end DeclManual
