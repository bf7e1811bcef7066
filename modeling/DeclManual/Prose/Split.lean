import DeclManual.Prose.Dash
import DeclManual.Text.Ascii
import DeclManual.Text.Lines

/-!
# Splitting a comment

A comment is read line by line.  A line made only of letters, digits, spaces and
slashes, which ends in a colon or stands alone after a blank line, is a heading:

    strlcpy - bounded string copy.

    Copies at most size bytes.

    RETURNS:
    The length of src.

    Notes:
    Always terminates dst.

The first line is the terse description.  The headings NAME, DESCRIPTION and
RETURNS fill fixed places and any other heading opens a named section.  Parts are
found as ranges of character positions, and read off the comment at the end.
-/

namespace DeclManual
namespace Prose

/-- A range of character positions, the end excluded. -/
structure Range where
  start : Nat
  stop : Nat
deriving DecidableEq, Repr, Inhabited

/-- The text in a range. -/
def Range.slice (range : Range) (text : List Char) : List Char :=
  (text.drop range.start).take (range.stop - range.start)

/-- The parts of a comment over the form in which their texts are given. -/
structure PartsOf (text : Type) where
  terse : Option text := none
  description : Option text := none
  returns : Option text := none
  /-- The named sections in order, each with its heading in upper case. -/
  sections : List (String × Option text) := []
  /-- The description came from an explicit heading. -/
  explicitDescription : Bool := false
deriving DecidableEq, Repr, Inhabited

/-- The texts of the parts. -/
def PartsOf.map {first second : Type} (read : first -> second) (parts : PartsOf first) :
    PartsOf second where
  terse := parts.terse.map read
  description := parts.description.map read
  returns := parts.returns.map read
  sections := parts.sections.map fun (name, text) => (name, text.map read)
  explicitDescription := parts.explicitDescription

/-- The parts of one declaration's comment. -/
abbrev Parts := PartsOf String

/-- The place that the text of the current lines goes to. -/
inductive Slot where
  | terse
  | description
  | returns
  | named (index : Nat)
deriving DecidableEq, Repr

/-- One line of a comment with its position. -/
structure Line where
  start : Nat
  content : List Char
  /-- Whether a newline ends the line. -/
  ended : Bool
deriving DecidableEq, Repr

/-- The lines of a text that stands at a position. -/
def linesFrom (start : Nat) : List (List Char) -> List Line
  | [] => []
  | [last] => if last.isEmpty then [] else [{ start, content := last, ended := false }]
  | content :: rest =>
    { start, content, ended := true } :: linesFrom (start + content.length + 1) rest

/-- The lines of a comment; a newline at the very end opens no further line. -/
def linesOf (comment : List Char) : List Line :=
  linesFrom 0 (Text.splitOn '\n' comment)

/-- The headings that fill the terse place. -/
def terseHeadings : List String := ["NAME", "FUNCTION", "PROCEDURE", "ROUTINE"]

/-- The headings recognised even without a blank line before them. -/
def keywordHeadings : List String := terseHeadings ++ ["DESCRIPTION", "RETURNS"]

/-- A character that a heading may hold. -/
def isHeadingChar (c : Char) : Bool :=
  c.isAlphanum || c == ' ' || c == '/'

/-- Whether a heading is a word or an abbreviation of it, in any case. -/
def abbreviates (heading : List Char) (word : String) : Bool :=
  !heading.isEmpty && Text.startsIgnoringCase heading word.toList

/-- The shortest abbreviation that is a heading without a blank line before it. -/
def shortestKeyword : Nat := 3

/-- Whether a line's heading is one of the keywords. -/
def isKeyword (heading : List Char) : Bool :=
  let name := Text.trimEnd heading
  shortestKeyword ≤ name.length && keywordHeadings.any (abbreviates name)

/-- The heading characters at the start of a line. -/
def Line.word (line : Line) : List Char :=
  line.content.takeWhile isHeadingChar

/-- What follows the heading characters of a line. -/
def Line.afterWord (line : Line) : List Char :=
  line.content.dropWhile isHeadingChar

/-- Whether a line has the shape of a heading.  A heading with a space in it has
to end in a colon that ends its line; the last line is a heading without a colon
only if it is also the first. -/
def Line.isShaped (line : Line) : Bool :=
  let oneWord := !line.word.contains ' '
  match line.afterWord with
  | [] => oneWord && (line.ended || line.start == 0)
  | ':' :: rest => oneWord || (rest.isEmpty && line.ended)
  | _ => false

/-- The state between two lines. -/
structure SplitState where
  parts : PartsOf Range := {}
  /-- Where the text of the current lines goes. -/
  slot : Option Slot := none
  /-- Where that text starts, once it does. -/
  start : Option Nat := none
  /-- Where the last line that is not empty ends. -/
  stop : Nat := 0
  lastBlank : Bool := true
  /-- Whether a leading name is dropped from the text. -/
  dash : Bool := false
deriving DecidableEq, Repr, Inhabited

/-- Puts a range in its place. -/
def PartsOf.fill (parts : PartsOf Range) (range : Range) : Slot -> PartsOf Range
  | .terse => { parts with terse := some range }
  | .description => { parts with description := some range }
  | .returns => { parts with returns := some range }
  | .named index =>
    { parts with sections := parts.sections.modify index fun item => (item.1, some range) }

/-- The parts with the text collected so far in its place. -/
def SplitState.stored (comment : List Char) (state : SplitState) : PartsOf Range :=
  match state.slot, state.start with
  | some slot, some start =>
    let start := if state.dash then start + skipDash (comment.drop start) else start
    state.parts.fill { start, stop := max state.stop start } slot
  | _, _ => state.parts

/-- The position of the first text after a position of a line, if the line has
any. -/
def Line.textFrom? (line : Line) (offset : Nat) : Option Nat :=
  let rest := line.content.drop offset
  let blanks := rest.takeWhile Text.isAsciiBlank
  if blanks.length < rest.length then some (line.start + offset + blanks.length) else none

/-- Opens the part that a heading names. -/
def SplitState.openHeading
    (comment : List Char)
    (identifier : String)
    (wantTerse : Bool)
    (state : SplitState)
    (line : Line) : SplitState :=
  let parts := state.stored comment
  let key := Text.trimEnd line.word
  let start :=
    match line.afterWord with
    | ':' :: _ => line.textFrom? (line.word.length + 1)
    | _ => none
  let stop := line.start + line.content.length
  let opened (parts : PartsOf Range) (slot : Slot) (dash : Bool) : SplitState :=
    { parts, slot := some slot, start, stop, lastBlank := false, dash }
  if line.start == 0 && !key.isEmpty && key.isPrefixOf identifier.toList then
    opened parts .description false
  else if wantTerse && terseHeadings.any (abbreviates key) then
    opened parts .terse true
  else if abbreviates key "DESCRIPTION" then
    opened { parts with explicitDescription := true } .description false
  else if abbreviates key "RETURNS" then
    opened parts .returns false
  else
    opened
      { parts with
        sections := parts.sections ++ [(String.ofList (Text.upperCase key), none)] }
      (.named parts.sections.length) false

/-- The length of the first sentence of a line: up to a full stop before a blank,
or else the whole line. -/
def sentenceLength (ended : Bool) : List Char -> Nat
  | [] => 0
  | c :: rest =>
    let blankFollows := (rest.head?.map Text.isAsciiBlank).getD ended
    if c == '.' && blankFollows then 1 else sentenceLength ended rest + 1

/-- Takes the first line of a comment that does not start with a heading. -/
def SplitState.takeFirst (wantTerse : Bool) (state : SplitState) (line : Line) : SplitState :=
  let stop := line.start + line.content.length
  if wantTerse then
    let length := sentenceLength line.ended line.content
    let skipped := skipDash line.content
    let start := if skipped < length then skipped else 0
    { state with
      parts := { state.parts with terse := some { start, stop := length } }
      slot := some .description
      start := line.textFrom? length
      stop
      lastBlank := false }
  else
    { state with slot := some .description, start := some 0, stop, lastBlank := false }

/-- Reads one line. -/
def SplitState.step
    (comment : List Char)
    (identifier : String)
    (wantTerse : Bool)
    (state : SplitState)
    (line : Line) : SplitState :=
  if line.content.isEmpty then { state with lastBlank := true }
  else if line.isShaped && (state.lastBlank || isKeyword line.word) then
    state.openHeading comment identifier wantTerse line
  else if line.start == 0 then state.takeFirst wantTerse line
  else
    { state with
      start := if state.slot.isSome then state.start.or (some line.start) else state.start
      stop := line.start + line.content.length
      lastBlank := false }

/-- The ranges of a comment's parts. -/
def splitRanges (comment : List Char) (identifier : String) (wantTerse : Bool) : PartsOf Range :=
  ((linesOf comment).foldl (SplitState.step comment identifier wantTerse) {}).stored comment

/-- Splits the comment of a declaration.  A leading heading that abbreviates the
documented identifier starts the description.  When no terse line is wanted the
first line belongs to the description, and NAME opens an ordinary section. -/
def splitComment (comment identifier : String) (wantTerse : Bool) : Parts :=
  (splitRanges comment.toList identifier wantTerse).map fun range =>
    String.ofList (range.slice comment.toList)

end Prose
end DeclManual
