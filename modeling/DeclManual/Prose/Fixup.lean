import DeclManual.Markup.Call
import DeclManual.Text.Ascii
import DeclManual.Text.Blank
import DeclManual.Text.Digit
import DeclManual.Text.Lines

/-!
# Punctuation fixup

Sentences get an upper-case first letter, lines that start with a list marker
(`-`, `*`, `1.`, `2)`, `(3)`) are put on a line of their own, and text that stops
in the middle of a sentence gets a closing full stop.  The result is a list of
markup calls.
-/

namespace DeclManual
namespace Prose

open Markup

/-- How a format and a run want prose to be written. -/
structure Voice where
  /-- Lines that start with a full stop are requests to the formatter. -/
  dotCommands : Bool := false
  /-- An empty line breaks the output line. -/
  blankLineBreaks : Bool := false
  /-- Whether comments are fixed up. -/
  fixup : Bool := true
deriving DecidableEq, Repr, Inhabited

/-- The voice of an output format. -/
def Voice.ofFormat (format : OutputFormat) (fixup : Bool) : Voice where
  dotCommands := format == .nroff
  blankLineBreaks := format == .html
  fixup := fixup

/-- Where a sentence stands. -/
inductive Sentence where
  | text
  | period
  | capitalise
deriving DecidableEq, Repr, Inhabited

/-- Moves over a character; the character to write comes with the new state. -/
def Sentence.step (state : Sentence) (capitalise : Bool) (c : Char) : Sentence × Char :=
  if c = '.' then (.period, c)
  else if Text.isAsciiBlank c && state == .period then (.capitalise, c)
  else if c.isAlphanum then
    (.text, if capitalise && state == .capitalise then c.toUpper else c)
  else (state, c)

/-- Whether a text starts with a numbered list marker: `1.`, `2)` or `(3)`. -/
def isNumbered (text : List Char) : Bool :=
  match text with
  | '(' :: rest =>
    !(rest.takeWhile Text.isDecimalDigit).isEmpty &&
      (rest.dropWhile Text.isDecimalDigit).head? == some ')'
  | _ =>
    !(text.takeWhile Text.isDecimalDigit).isEmpty &&
      ((text.dropWhile Text.isDecimalDigit).head? == some '.' ||
        (text.dropWhile Text.isDecimalDigit).head? == some ')')

/-- Whether a text starts with a list marker. -/
def isListMarker (text : List Char) : Bool :=
  text.head? == some '-' || text.head? == some '*' || isNumbered text

/-- The state between two characters of a description. -/
structure DescriptionState where
  sentence : Sentence := .capitalise
  /-- Whether the last character was a newline. -/
  newLine : Bool := true
  /-- Whether the current line is a request to the formatter. -/
  dotCommand : Bool := false
  last : Char := '\n'
deriving DecidableEq, Repr, Inhabited

/-- The calls for the rest of a description. -/
def describeFrom (voice : Voice) (state : DescriptionState) : List Char -> List Call
  | [] =>
    if !state.dotCommand && state.sentence == .text && state.last.isAlphanum then
      [.character '.']
    else []
  | c :: rest =>
    if state.dotCommand then
      .character c ::
        describeFrom voice
          { state with dotCommand := c != '\n', newLine := c == '\n', last := c } rest
    else if state.newLine && c == '.' && voice.dotCommands then
      .character c ::
        describeFrom voice { state with dotCommand := true, newLine := false, last := c } rest
    else if state.newLine &&
        (isListMarker (c :: rest) || (voice.blankLineBreaks && c == '\n')) then
      .breakLine :: .character c ::
        describeFrom voice
          { state with sentence := .capitalise, newLine := c == '\n', last := c } rest
    else
      let (sentence, written) := state.sentence.step true c
      .character written ::
        describeFrom voice { state with sentence, newLine := written == '\n', last := written }
          rest

/-- Writes prose, fixing up its punctuation. -/
def description (voice : Voice) (text : String) : List Call :=
  describeFrom voice {} text.toList

/-- The text of a description with nothing to say. -/
def notDocumented : String := "Not Documented."

/-- Writes a comment body, fixed up if the voice asks for it. -/
def paragraph (voice : Voice) (text : Option String) : List Call :=
  let body :=
    match text with
    | some text =>
      if text.isEmpty then [Call.text notDocumented]
      else if voice.fixup then description voice text
      else [Call.text text]
    | none => [Call.text notDocumented]
  body ++ [.character '\n']

/-! ## Returns -/

/-- A character that ends the tag of a returns line. -/
def endsTag (c : Char) : Bool :=
  c == ':' || Text.isAsciiBlank c

/-- Whether a returns line opens a tagged entry: a word followed by a colon or a
tab, such as `EINVAL:`. -/
def isTagged (line : List Char) : Bool :=
  !(line.takeWhile (!endsTag ·)).isEmpty &&
    match (line.dropWhile (!endsTag ·)).find?
        (fun c => c == '\t' || c == ':' || !Text.isAsciiBlank c) with
    | some c => c == '\t' || c == ':'
    | none => false

/-- The state between two lines of a returns body. -/
structure ReturnsState where
  sentence : Sentence := .capitalise
  last : Char := '\n'
  /-- Whether the tag list has been opened. -/
  listStarted : Bool := false
deriving DecidableEq, Repr, Inhabited

/-- Ends the text before a tagged line. -/
def closeBeforeTag (state : ReturnsState) : List Call :=
  if state.last == '\n' then []
  else if state.sentence == .text && !Text.isAsciiPunctuation state.last then
    [.character '.', .character '\n']
  else [.character '\n']

/-- Writes the tag of a tagged line, opening the tag list for the first. -/
def openTag (state : ReturnsState) (tag : List Char) : List Call :=
  (if state.listStarted then [] else [Call.tagListStart]) ++
    .tagEntryStart :: characters tag ++ [.tagEntryEnd]

/-- Moves over the characters of a line. -/
def stepLine (fixup : Bool) : Sentence -> Char -> List Char -> Sentence × Char × List Call
  | sentence, last, [] => (sentence, last, [])
  | sentence, _, c :: rest =>
    let (moved, written) := sentence.step fixup c
    let (sentence, last, calls) := stepLine fixup moved written rest
    (sentence, last, .character written :: calls)

/-- Writes the text of a line that is no request to the formatter. -/
def writeReturnsText (fixup : Bool) (state : ReturnsState) (line : List Char) :
    ReturnsState × List Call :=
  let lead := if state.last == '\n' then [] else [Call.character '\n']
  let (sentence, last, calls) := stepLine fixup state.sentence '\n' line
  if Text.isAsciiPunctuation last then
    ({ state with
        sentence := if last == '.' then .capitalise else sentence
        last := '\n' },
      lead ++ calls ++ [.character '\n'])
  else ({ state with sentence, last }, lead ++ calls)

/-- Writes one line of a returns body. -/
def returnsLine (voice : Voice) (state : ReturnsState) (line : List Char) :
    ReturnsState × List Call :=
  if voice.dotCommands && line.head? == some '.' then
    let lead := if state.last == '\n' then [] else [Call.character '\n']
    ({ state with last := '\n' }, lead ++ characters line ++ [.character '\n'])
  else if isTagged line then
    let tag := line.takeWhile (!endsTag ·)
    let text := (line.dropWhile (!endsTag ·)).dropWhile endsTag
    let opened : ReturnsState := { sentence := .capitalise, last := '\n', listStarted := true }
    let (after, calls) := writeReturnsText voice.fixup opened text
    (after, closeBeforeTag state ++ openTag state tag ++ calls)
  else writeReturnsText voice.fixup state line

/-- Writes the lines of a returns body and closes what they leave open. -/
def returnsLines (voice : Voice) (state : ReturnsState) : List (List Char) -> List Call
  | [] =>
    let close :=
      if state.last == '\n' then []
      else if state.sentence == .text && !Text.isAsciiPunctuation state.last && voice.fixup then
        [Call.character '.', .character '\n']
      else [.character '\n']
    close ++ if state.listStarted then [.tagListEnd] else []
  | line :: rest =>
    let (after, calls) := returnsLine voice state line
    calls ++ returnsLines voice after rest

/-- Writes a returns body, in which tagged lines become the entries of a tag list. -/
def returns (voice : Voice) (comment : String) : List Call :=
  returnsLines voice {} (Text.lines comment.toList)

end Prose
end DeclManual
