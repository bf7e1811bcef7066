import DeclManual.Yaml.Token

/-!
# Cutting a file into tokens

A key of a mapping is only known as one when the colon after it is reached.  So a
token that could start a key is remembered, and the mark of the key is put before
it when the colon comes.  Outside brackets the key also starts a block if it stands
deeper than its surroundings; a line that stands less deep ends blocks.
-/

namespace DeclManual
namespace Yaml

/-- A token that could start a key. -/
structure KeyCandidate where
  /-- Whether it stands where the block needs a key. -/
  required : Bool
  /-- The number of tokens before it. -/
  tokenCount : Nat
  place : Place
deriving Inhabited

/-- The state between two tokens. -/
structure Lexer where
  place : Place
  /-- The tokens so far, the newest first. -/
  reversed : List Token := []
  /-- The column of the innermost block; `-1` outside all blocks. -/
  indent : Int := -1
  /-- The columns of the outer blocks. -/
  indents : List Int := []
  /-- Whether a key may start at the next token. -/
  keyAllowed : Bool := true
  /-- The possible key of the innermost brackets. -/
  candidate : Option KeyCandidate := none
  /-- The possible keys outside them; there is one for every open bracket. -/
  outerCandidates : List (Option KeyCandidate) := []
deriving Inhabited

/-- A step of cutting, which may fail. -/
abbrev Lex := StateT Lexer (Except Fault)

namespace Lexer

/-- The state before the first token. -/
def start (text : List Char) : Lexer :=
  { place := { rest := text } }

/-- Whether the place is inside brackets. -/
def inFlow (lexer : Lexer) : Bool :=
  !lexer.outerCandidates.isEmpty

/-- Adds a token. -/
def push (lexer : Lexer) (token : Token) : Lexer :=
  { lexer with reversed := token :: lexer.reversed }

/-- Puts tokens after the first `count` tokens. -/
def insert (lexer : Lexer) (count : Nat) (tokens : List Token) : Lexer :=
  let later := lexer.reversed.length - count
  { lexer with
    reversed := lexer.reversed.take later ++ tokens.reverse ++ lexer.reversed.drop later }

/-- Ends the blocks that stand deeper than a column. -/
def unroll (lexer : Lexer) (column : Int) : Lexer :=
  if lexer.inFlow then lexer
  else
    let deeper := (lexer.indent :: lexer.indents).takeWhile (fun depth => decide (column < depth))
    let left := (lexer.indent :: lexer.indents).drop deeper.length
    { lexer with
      reversed := deeper.map (fun _ => Token.blockEnd) ++ lexer.reversed
      indent := left.headD (-1)
      indents := left.tail }

/-- The tokens that start a block at a column, if it stands deeper than its
surroundings. -/
def blockStart (lexer : Lexer) (column : Nat) (token : Token) : List Token :=
  if !lexer.inFlow && lexer.indent < column then [token] else []

/-- Enters a block at a column, if it stands deeper than its surroundings. -/
def roll (lexer : Lexer) (column : Nat) : Lexer :=
  if !lexer.inFlow && lexer.indent < column then
    { lexer with indent := column, indents := lexer.indent :: lexer.indents }
  else lexer

/-- Whether a candidate can no longer be a key: its line is over, or it is too long. -/
def isStale (lexer : Lexer) (candidate : KeyCandidate) : Bool :=
  candidate.place.line < lexer.place.line || candidate.place.index + 1024 < lexer.place.index

/-- Gives up a candidate, which must not be required. -/
def giveUp : Option KeyCandidate -> Except Fault (Option KeyCandidate)
  | some candidate => if candidate.required then .error .missingColon else .ok none
  | none => .ok none

/-- Gives up a candidate that can no longer be a key. -/
def review (lexer : Lexer) : Option KeyCandidate -> Except Fault (Option KeyCandidate)
  | some candidate =>
    if lexer.isStale candidate then giveUp (some candidate) else .ok (some candidate)
  | none => .ok none

end Lexer

open Lexer

/-- Gives up all candidates that can no longer be keys. -/
def reviewCandidates : Lex Unit := do
  let lexer ← get
  let candidate ← lexer.review lexer.candidate
  let outerCandidates ← (lexer.outerCandidates.mapM lexer.review : Except Fault _)
  set { lexer with candidate, outerCandidates }

/-- Gives up the candidate of the innermost brackets. -/
def dropCandidate : Lex Unit := do
  let candidate ← giveUp (← get).candidate
  modify fun lexer => { lexer with candidate }

/-- Remembers the next token as a possible key, where keys are allowed. -/
def saveCandidate : Lex Unit := do
  let lexer ← get
  if lexer.keyAllowed then
    dropCandidate
    let required := !lexer.inFlow && lexer.indent == lexer.place.column
    let candidate : KeyCandidate :=
      { required, tokenCount := lexer.reversed.length, place := lexer.place }
    modify fun lexer => { lexer with candidate := some candidate }

/-- Allows or forbids a key at the next token. -/
def allowKey (allowed : Bool) : Lex Unit :=
  modify fun lexer => { lexer with keyAllowed := allowed }

/-- Adds a token of some characters of the line. -/
def pushMark (token : Token) (length : Nat) : Lex Unit :=
  modify fun lexer => { lexer.push token with place := lexer.place.skip length }

/-- Adds a token that ends at a place. -/
def pushTo (token : Token) (place : Place) : Lex Unit :=
  modify fun lexer => { lexer.push token with place }

/-! ## Blanks and comments -/

/-- Goes to the next token, past at most `fuel` lines. -/
def skipBlanksUpTo : (fuel : Nat) -> Lexer -> Lexer
  | 0, lexer => lexer
  | fuel + 1, lexer =>
    let tabs := lexer.inFlow || !lexer.keyAllowed
    let (_, after) := lexer.place.takeWhile fun c => c == ' ' || (tabs && c == '\t')
    let after := if after.sees '#' then after.skipToLineEnd else after
    if (after.peek.map isBreak).getD false then
      skipBlanksUpTo fuel
        { lexer with place := after.skipBreak, keyAllowed := lexer.keyAllowed || !lexer.inFlow }
    else { lexer with place := after }

/-- Goes to the next token.  A byte order mark may start the file. -/
def skipBlanks (lexer : Lexer) : Lexer :=
  let marked := lexer.place.index == 0 && lexer.place.sees '\ufeff'
  let begun := if marked then { lexer with place := lexer.place.skip 1 } else lexer
  skipBlanksUpTo (begun.place.rest.length + 1) begun

/-! ## Tokens -/

/-- Takes a mark that starts or ends a document, or a directive, up to which all
blocks end. -/
def closeBlocks : Lex Unit := do
  modify fun lexer => lexer.unroll (-1)
  dropCandidate
  allowKey false

/-- Takes an opening bracket. -/
def openFlow (token : Token) : Lex Unit := do
  saveCandidate
  modify fun lexer =>
    { lexer with
      candidate := none
      outerCandidates := lexer.candidate :: lexer.outerCandidates }
  allowKey true
  pushMark token 1

/-- Takes a closing bracket. -/
def closeFlow (token : Token) : Lex Unit := do
  dropCandidate
  modify fun lexer =>
    match lexer.outerCandidates with
    | outer :: rest => { lexer with candidate := outer, outerCandidates := rest }
    | [] => lexer
  allowKey false
  pushMark token 1

/-- Starts a block at the place, where a key is allowed. -/
def startBlock (token : Token) (fault : Fault) : Lex Unit := do
  let lexer ← get
  if !lexer.inFlow then
    if !lexer.keyAllowed then throw fault
    let column := lexer.place.column
    set (((lexer.blockStart column token).foldl push lexer).roll column)

/-- Takes the dash before an entry. -/
def takeEntry : Lex Unit := do
  startBlock .blockSequenceStart .misplacedEntry
  dropCandidate
  allowKey true
  pushMark .blockEntry 1

/-- Takes the mark before a key. -/
def takeKey : Lex Unit := do
  startBlock .blockMappingStart .misplacedKey
  dropCandidate
  allowKey (!(← get).inFlow)
  pushMark .key 1

/-- Takes the colon before a value.  The candidate, if there is one, becomes the
key. -/
def takeValue : Lex Unit := do
  let lexer ← get
  match lexer.candidate with
  | some candidate =>
    let column := candidate.place.column
    let opening := lexer.blockStart column .blockMappingStart
    set ((lexer.insert candidate.tokenCount (opening ++ [.key])).roll column)
    modify fun lexer => { lexer with candidate := none }
    allowKey false
  | none =>
    startBlock .blockMappingStart .misplacedValue
    allowKey (!(← get).inFlow)
  pushMark .value 1

/-- Takes a comma. -/
def takeComma : Lex Unit := do
  dropCandidate
  allowKey true
  pushMark .flowEntry 1

/-- Takes a token that can start a key and is read by a function. -/
def takeProperty (read : Place -> Except Fault (Token × Place)) : Lex Unit := do
  saveCandidate
  allowKey false
  let (token, after) ← read (← get).place
  pushTo token after

/-- Takes a quoted scalar. -/
def takeQuoted (single : Bool) : Lex Unit :=
  takeProperty fun place => do
    let scalar ← quotedScalar single (place.skip 1)
    let style := if single then Style.singleQuoted else .doubleQuoted
    return (.scalar style (String.ofList scalar.text), scalar.place)

/-- Takes a block scalar. -/
def takeBlock (folds : Bool) : Lex Unit := do
  dropCandidate
  allowKey true
  let lexer ← get
  let scalar ← blockScalar folds lexer.indent (lexer.place.skip 1)
  let style := if folds then Style.folded else .literal
  pushTo (.scalar style (String.ofList scalar.text)) scalar.place

/-- Takes a plain scalar. -/
def takePlain : Lex Unit := do
  saveCandidate
  allowKey false
  let lexer ← get
  let scalar ← plainScalar lexer.inFlow (lexer.indent + 1) lexer.place
  if scalar.endsWithBreak then allowKey true
  pushTo (.scalar .plain (String.ofList scalar.text)) scalar.place

/-- The characters that have a meaning of their own at the start of a token. -/
def isIndicator (c : Char) : Bool :=
  "-?:,[]#&*!|>'\"%@".toList.contains c || c == '\x7b' || c == '\x7d' || c == '\x60'

/-- Whether a plain scalar can start here. -/
def startsPlain (inFlow : Bool) (place : Place) : Bool :=
  match place.rest with
  | [] => false
  | c :: rest =>
    let nextIsGap := (rest.head?.map isGap).getD false
    !(isGap c || isBreak c || isIndicator c) || (c == '-' && !nextIsGap) ||
      (!inFlow && (c == '?' || c == ':') && !endsWord rest)

/-- Takes the next token, which starts at the place with a character. -/
def takeToken (c : Char) : Lex Unit := do
  let lexer ← get
  let place := lexer.place
  let alone := endsWord (place.rest.drop 1)
  if place.column == 0 && c == '%' then
    closeBlocks
    let (token, after) ← directive (place.skip 1)
    pushTo token after
  else if place.seesMarker '-' then
    closeBlocks
    pushMark .documentStart 3
  else if place.seesMarker '.' then
    closeBlocks
    pushMark .documentEnd 3
  else if c == '[' then openFlow .flowSequenceStart
  else if c == '\x7b' then openFlow .flowMappingStart
  else if c == ']' then closeFlow .flowSequenceEnd
  else if c == '\x7d' then closeFlow .flowMappingEnd
  else if c == ',' then takeComma
  else if c == '-' && alone then takeEntry
  else if c == '?' && (lexer.inFlow || alone) then takeKey
  else if c == ':' && (lexer.inFlow || alone) then takeValue
  else if c == '*' then
    takeProperty fun place => return ((← anchorName (place.skip 1)).map Token.alias id)
  else if c == '&' then
    takeProperty fun place => return ((← anchorName (place.skip 1)).map Token.anchor id)
  else if c == '!' then takeProperty (tag lexer.inFlow)
  else if c == '|' && !lexer.inFlow then takeBlock false
  else if c == '>' && !lexer.inFlow then takeBlock true
  else if c == '\'' then takeQuoted true
  else if c == '"' then takeQuoted false
  else if startsPlain lexer.inFlow place then takePlain
  else throw .unexpectedCharacter

/-- Takes the tokens of the file, at most `fuel` of them. -/
def takeTokens : (fuel : Nat) -> Lex Unit
  | 0 => closeBlocks
  | fuel + 1 => do
    modify skipBlanks
    reviewCandidates
    modify fun lexer => lexer.unroll lexer.place.column
    match (← get).place.peek with
    | none => closeBlocks
    | some c =>
      takeToken c
      takeTokens fuel

/-- The tokens of a text. -/
def tokens (text : List Char) : Except Fault (List Token) := do
  if !text.all isAllowed then throw .forbiddenCharacter
  let (_, lexer) ← (takeTokens (text.length + 1)).run (Lexer.start text)
  return lexer.reversed.reverse

end Yaml
end DeclManual
