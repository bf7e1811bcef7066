import DeclManual.Text.Blank
import DeclManual.Text.Lines
import DeclManual.Text.Search

/-!
# Cleaning comments

Comment delimiters, the borders of boxes and the gutter of `*` and `/` at the
start of each line are removed.  Indentation is dropped, and a line drawn with
border characters only becomes blank.
-/

namespace DeclManual
namespace Source

/-- A character of a comment's gutter. -/
def isGutter (c : Char) : Bool :=
  c == '*' || c == '/'

/-- A character with which borders are drawn. -/
def isBorder (c : Char) : Bool :=
  isGutter c || c == '-' || c == '=' || c == '#' || c == '~' || c == '_' || c == '+'

/-- Whether a line is drawn with border characters only.  Fewer than three of
them have to belong to the gutter. -/
def isRule (line : List Char) : Bool :=
  let line := Text.trim line
  !line.isEmpty && line.all isBorder && (3 ≤ line.length || line.all isGutter)

/-- Drops the right-hand border of a box, which stands apart from the text. -/
def dropRightBorder (text : List Char) : List Char :=
  let inside := Text.dropEndWhile isGutter text
  if inside.length < text.length && (inside.getLast?.map Text.isBlank).getD true then
    Text.trimEnd inside
  else text

/-- Cleans one line of a comment. -/
def cleanLine (line : List Char) : List Char :=
  let line := Text.trim (Text.dropEndWhile (· == '\r') line)
  if isRule line then []
  else
    let inside := line.dropWhile isGutter
    let text := Text.trim inside
    let text := if inside.length < line.length then dropRightBorder text else text
    if isRule text then [] else text

/-- Drops the empty lines at either end. -/
def dropOuterBlanks (lines : List (List Char)) : List (List Char) :=
  ((lines.dropWhile List.isEmpty).reverse.dropWhile List.isEmpty).reverse

/-- Cleans the lines of a comment; nothing is left if every line is blank. -/
def cleanLines (lines : List (List Char)) : Option String :=
  match dropOuterBlanks (lines.map cleanLine) with
  | [] => none
  | kept => some (String.ofList (Text.joinWith ['\n'] kept))

/-- A text without a leading word, if it starts with it. -/
def dropLead (word text : List Char) : List Char :=
  (word.isPrefixOf? text).getD text

/-- A text without a trailing word, if it ends with it. -/
def dropTrail (word text : List Char) : List Char :=
  (dropLead word.reverse text.reverse).reverse

/-- Cleans a block comment, given with its delimiters. -/
def cleanBlock (raw : List Char) : Option String :=
  cleanLines (Text.splitOn '\n' (dropTrail ['*', '/'] (dropLead ['/', '*'] raw)))

end Source
end DeclManual
