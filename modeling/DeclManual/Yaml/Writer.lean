import DeclManual.Yaml.Scalar
import DeclManual.Text.Lines

/-!
# Writing YAML

A file is written in blocks, with two blanks for each level; the entries of a
sequence stand at the column of its key.  A text is written plain where it would be
read back as the same text, in single quotes where it could be taken for something
else, as a literal block if it has several lines, and in double quotes if it holds
characters that have to be escaped.
-/

namespace DeclManual
namespace Yaml

/-- A value as it is laid out in a file. -/
inductive Block where
  | scalar (style : Style) (text : String)
  | sequence (entries : List String)
  | mapping (fields : List (String × Block))
deriving Repr, Inhabited

/-! ## The style of a text -/

/-- What decides about the styles in which a text can be written. -/
structure Analysis where
  /-- Characters that mean something in a plain scalar. -/
  indicators : Bool := false
  breaks : Bool := false
  /-- Characters that have to be escaped. -/
  special : Bool := false
  /-- A blank or line break at an end. -/
  blankEnds : Bool := false
  trailingBlank : Bool := false
  /-- A blank after a line break. -/
  breakThenBlank : Bool := false
  /-- A blank before a line break. -/
  blankThenBreak : Bool := false
deriving DecidableEq, Repr, Inhabited

/-- Whether two neighbours in a text pass two tests. -/
def hasPair (first second : Char -> Bool) : List Char -> Bool
  | a :: b :: rest => (first a && second b) || hasPair first second (b :: rest)
  | _ => false

/-- Whether the first character, with the rest, means something in a plain scalar. -/
def leadingIndicator : List Char -> Bool
  | [] => false
  | c :: rest =>
    "#,[]&*!|>'\"%@".toList.contains c || c == '\x7b' || c == '\x7d' || c == '\x60' ||
      ((c == '?' || c == ':' || c == '-') && endsWord rest)

/-- Whether a later character means something in a plain scalar. -/
def innerIndicator : List Char -> Bool
  | a :: b :: rest =>
    (b == ':' && endsWord rest) || (b == '#' && (isGap a || isBreak a)) ||
      innerIndicator (b :: rest)
  | _ => false

/-- Looks through a text. -/
def Analysis.ofText (text : List Char) : Analysis :=
  let isSpace (c : Char) : Bool := c == ' '
  let isEdge (c : Option Char) : Bool := (c.map fun c => isSpace c || isBreak c).getD false
  { indicators :=
      "---".toList.isPrefixOf text || "...".toList.isPrefixOf text || leadingIndicator text ||
        innerIndicator text
    breaks := text.any isBreak
    special := text.any fun c => !isPrintable c
    blankEnds := isEdge text.head? || isEdge text.getLast?
    trailingBlank := (text.getLast?.map isSpace).getD false
    breakThenBlank := hasPair isBreak isSpace text
    blankThenBreak := hasPair isSpace isBreak text }

namespace Analysis

/-- Whether the text can be written plain. -/
def allowsPlain (analysis : Analysis) : Bool :=
  !(analysis.indicators || analysis.breaks || analysis.special || analysis.blankEnds)

/-- Whether the text can be written in single quotes. -/
def allowsSingleQuotes (analysis : Analysis) : Bool :=
  !(analysis.special || analysis.breakThenBlank || analysis.blankThenBreak)

/-- Whether the text can be written as a literal block. -/
def allowsLiteral (analysis : Analysis) : Bool :=
  !(analysis.special || analysis.trailingBlank || analysis.blankThenBreak)

end Analysis

/-- The words that could be taken for something else than a text. -/
def ambiguousWords : List String :=
  ["true", "false", "null", "~", "y", "yes", "n", "no", "on", "off", "nil", "nan"]

/-- Whether a text could be taken for a number, a truth value or nothing.  Only
ASCII letters have a lower case here, since the words are ASCII. -/
def isAmbiguous (text : List Char) : Bool :=
  match text with
  | [] => true
  | c :: _ =>
    c.isDigit || c == '-' || c == '.' || c == '+' ||
      ambiguousWords.contains (String.ofList (text.map Char.toLower))

/-- The style that is wanted for a text. -/
def preferredStyle (text : List Char) : Style :=
  if text.contains '\n' then .literal
  else if isAmbiguous text then .singleQuoted
  else .plain

/-- The style in which a text is written, if another is wanted. -/
def fittingStyle (wanted : Style) (text : List Char) : Style :=
  let analysis := Analysis.ofText text
  let unquoted :=
    if wanted == .plain && !analysis.allowsPlain then .singleQuoted else wanted
  if unquoted == .singleQuoted && !analysis.allowsSingleQuotes then .doubleQuoted
  else if unquoted == .literal && (text.isEmpty || !analysis.allowsLiteral) then .doubleQuoted
  else unquoted

/-! ## The text of a scalar -/

/-- A number of blanks. -/
def blanks (count : Nat) : List Char :=
  List.replicate count ' '

/-- A hexadecimal number with a number of digits. -/
def hexDigits (count : Nat) (n : Nat) : List Char :=
  let digits := (Nat.toDigits 16 n).map Char.toUpper
  List.replicate (count - digits.length) '0' ++ digits

/-- The text of a character between double quotes. -/
def escapeCharacter (c : Char) : List Char :=
  match c with
  | '\x00' => ['\\', '0']
  | '\x07' => ['\\', 'a']
  | '\x08' => ['\\', 'b']
  | '\t' => ['\\', 't']
  | '\n' => ['\\', 'n']
  | '\x0b' => ['\\', 'v']
  | '\x0c' => ['\\', 'f']
  | '\r' => ['\\', 'r']
  | '\x1b' => ['\\', 'e']
  | '"' => ['\\', '"']
  | '\\' => ['\\', '\\']
  | '\u0085' => ['\\', 'N']
  | '\u2028' => ['\\', 'L']
  | '\u2029' => ['\\', 'P']
  | _ =>
    if isPrintable c then [c]
    else if c.toNat ≤ 0xff then '\\' :: 'x' :: hexDigits 2 c.toNat
    else if c.toNat ≤ 0xffff then '\\' :: 'u' :: hexDigits 4 c.toNat
    else '\\' :: 'U' :: hexDigits 8 c.toNat

/-- The text between single quotes: a quote is written twice, and a line that a
separator starts is indented. -/
def singleQuotedText (indent : Nat) : (afterBreak : Bool) -> List Char -> List Char
  | afterBreak, [] => if afterBreak then blanks indent else []
  | afterBreak, c :: rest =>
    if c == ' ' then c :: singleQuotedText indent afterBreak rest
    else if isBreak c then c :: singleQuotedText indent true rest
    else
      (if afterBreak then blanks indent else []) ++ (if c == '\'' then [c, c] else [c]) ++
        singleQuotedText indent false rest

/-- The lines of a literal block: every line that is not empty is indented. -/
def literalText (indent : Nat) : (afterBreak : Bool) -> List Char -> List Char
  | _, [] => []
  | afterBreak, c :: rest =>
    if isBreak c then c :: literalText indent true rest
    else (if afterBreak then blanks indent else []) ++ c :: literalText indent false rest

/-- The signs after the mark of a literal block: the depth of the indentation if the
text starts with a blank or line break, and what happens to its end. -/
def literalHints (text : List Char) : List Char :=
  let startsBlank := (text.head?.map fun c => c == ' ' || isBreak c).getD false
  let chomping :=
    match text.reverse with
    | [] => ['-']
    | last :: before =>
      if !isBreak last then ['-']
      else if (before.head?.map isBreak).getD true then ['+']
      else []
  (if startsBlank then ['2'] else []) ++ chomping

/-- A scalar with the end of its line. -/
def scalarLines (indent : Nat) (style : Style) (text : List Char) : List Char :=
  match fittingStyle style text with
  | .plain => text ++ ['\n']
  | .singleQuoted => '\'' :: singleQuotedText indent false text ++ ['\'', '\n']
  | .doubleQuoted | .folded => '"' :: text.flatMap escapeCharacter ++ ['"', '\n']
  | .literal =>
    let body := literalText indent true text
    let ended := (body.getLast?.map isBreak).getD false
    '|' :: literalHints text ++ '\n' :: body ++ if ended then [] else ['\n']

/-! ## The text of a file -/

/-- The entries of a sequence. -/
def entryLines (indent : Nat) (entries : List String) : List Char :=
  entries.flatMap fun entry =>
    blanks indent ++ '-' :: ' ' ::
      scalarLines (indent + 2) (preferredStyle entry.toList) entry.toList

mutual

/-- A value after its key. -/
def Block.lines (indent : Nat) : Block -> List Char
  | .scalar style text => ' ' :: scalarLines (indent + 2) style text.toList
  | .sequence [] => " []\n".toList
  | .sequence (first :: rest) => '\n' :: entryLines indent (first :: rest)
  | .mapping [] => " \x7b\x7d\n".toList
  | .mapping (first :: rest) => '\n' :: fieldLines (indent + 2) (first :: rest)

/-- The fields of a mapping. -/
def fieldLines (indent : Nat) : List (String × Block) -> List Char
  | [] => []
  | (key, value) :: rest =>
    blanks indent ++ key.toList ++ ':' :: value.lines indent ++ fieldLines indent rest

end

/-- The value of a text. -/
def Block.ofText (text : String) : Block :=
  .scalar (preferredStyle text.toList) text

/-- The value of a text that may be missing. -/
def Block.ofOptionalText : Option String -> Block
  | some text => .ofText text
  | none => .scalar .plain "null"

/-- The value of a switch. -/
def Block.ofBool (value : Bool) : Block :=
  .scalar .plain (if value then "true" else "false")

end Yaml
end DeclManual
