import DeclManual.Markup.Piece
import DeclManual.Text.Number

/-!
# The Texinfo format

The format takes options of its own: the page title can head the NAME section,
node lines can be written in embeddable output, the level of headings can be set
and headings can be capitalised.
-/

namespace DeclManual
namespace Markup
namespace Texinfo

/-- The options of the format, and what it remembers between calls. -/
structure State where
  /-- The level of page headings, 0 being a chapter. -/
  topLevel : Nat := 1
  /-- Write node lines in embeddable output. -/
  embedNodeInfo : Bool := false
  /-- Use the page title as the NAME heading. -/
  titleName : Bool := false
  capitalizeSections : Bool := false
  /-- The title of the last page header. -/
  title : String := ""
  /-- Whether no name has been written since the NAME heading. -/
  firstName : Bool := true
deriving DecidableEq, Repr, Inhabited

/-- The heading command of a level, listed in the contents or not. -/
def headingCommand (listed : Bool) (level : Nat) : String :=
  match listed, level with
  | false, 0 => "@chapheading "
  | false, 1 => "@heading "
  | false, 2 => "@subheading "
  | false, _ => "@subsubheading "
  | true, 0 => "@chapter "
  | true, 1 => "@section "
  | true, 2 => "@subsection "
  | true, _ => "@subsubsection "

/-- The level of the headings below those of a level.  Levels are words. -/
def levelBelow (level : Nat) : Nat :=
  (level + 1) % Text.wordSize

/-- Escapes a character. -/
def escape (c : Char) : List Char :=
  match c with
  | '\t' => tabSpaces
  | '@' | '\x7b' | '\x7d' => ['@', c]
  | _ => [c]

/-- A text in lower case, except for the first letter of each word. -/
def capitalizeFrom : (wordStart : Bool) -> List Char -> List Char
  | _, [] => []
  | wordStart, c :: rest =>
    (if wordStart then c.toUpper else c.toLower) :: capitalizeFrom (Text.isAsciiBlank c) rest

/-- A heading with its command. -/
def headingPieces (command name : String) (capitalize : Bool) : List Piece :=
  [.raw command,
    .escaped (if capitalize then String.ofList (capitalizeFrom true name.toList) else name),
    .raw "\n@noindent\n"]

/-- The heading of a section. -/
def sectionPieces (state : State) (name : String) : List Piece :=
  headingPieces (headingCommand false state.topLevel) name state.capitalizeSections

/-- Starts a comment line. -/
def comment : List Piece := [.raw "@c "]

/-- The header of a page. -/
def header (settings : Settings) (state : State) (page : Header) : List Piece :=
  let preamble :=
    if settings.embeddable then []
    else
      [Piece.raw "\\input texinfo @c -*-texinfo-*-\n"] ++ warningPieces comment ++
        [.raw "@c %**start of header\n@setfilename ", .escaped page.name,
          .raw ".info\n@settitle ", .escaped page.name,
          .raw "\n@c %**end of header\n@node Top, ", .escaped page.name,
          .raw ", (dir), (dir)\n"]
  let node :=
    if !settings.embeddable || state.embedNodeInfo then
      [Piece.raw "@node ", .escaped page.name, .raw ", (dir), Top, (dir)\n"]
    else []
  preamble ++ node

/-- Starts a tag list. -/
def tagListStart : Piece := .raw "@quotation\n@table @code\n"

/-- Ends a tag list. -/
def tagListEnd : Piece := .raw "@end table\n@end quotation\n"

/-- The pieces of every call but a table entry. -/
def basic (settings : Settings) (state : State) : Call -> List Piece
  | .comment => comment
  | .header page => header settings state page
  | .dash => [.raw "---"]
  | .heading name => sectionPieces state name
  | .subheading name =>
    headingPieces (headingCommand false (levelBelow state.topLevel)) name state.capitalizeSections
  | .breakLine => []
  | .blankLine => [.raw "@sp 1\n"]
  | .codeStart => [.raw "@example\n"]
  | .codeEnd => [.raw "@end example\n"]
  | .code text => [.raw "@code\x7b", .escaped text, .raw "\x7d"]
  | .tagListStart => [tagListStart]
  | .tagListEnd => [tagListEnd]
  | .tagEntryStart => [.raw "@item "]
  | .tagEntryStartExtra => [.raw "@item "]
  | .tagEntryEnd => [.raw "\n"]
  | .tagEntryEndExtra text => [.raw "(", .escaped text, .raw ")", .raw "\n"]
  | .tableStart _ => [tagListStart]
  | .tableEntry _ _ => []
  | .tableEnd => [tagListEnd]
  | .indent => []
  | .listStart => []
  | .listEntry name => [.raw "@code\x7b", .escaped name, .raw "\x7d"]
  | .listSeparator => [.raw ",\n"]
  | .listEnd => [.raw "\n"]
  | .includeFile name => [.raw "@include ", .escaped name, .raw "\n"]
  | .fileEnd => [.raw "@bye\n"]
  | .text text => [.escaped text]
  | .character c => [.escaped (String.singleton c)]
  | .nameHeading =>
    if state.titleName then headingPieces (headingCommand true state.topLevel) state.title false
    else sectionPieces state "NAME"
  | .name name =>
    if state.firstName && state.titleName && state.title == name then [] else [.escaped name]
  | .terseSeparator =>
    if !state.titleName || settings.groupTogether then [.raw " ", .raw "---", .raw " "] else []
  | .reference name => [.escaped name, .raw "(", .escaped settings.manualSection, .raw ")"]
  | .emphasized text => [.escaped text]
  | .warning => warningPieces comment

/-- The pieces of a call. -/
def pieces (settings : Settings) (state : State) : Call -> List Piece
  | .tableEntry name description =>
    [.raw "@item ", .escaped name, .raw "\n"] ++
      match description with
      | some text =>
        (Prose.paragraph (settings.voice .texinfo) (some text)).flatMap (basic settings state)
      | none => [.raw "\n"]
  | call => basic settings state call

/-- What is remembered after a call. -/
def State.after (state : State) : Call -> State
  | .header page => { state with title := page.name }
  | .nameHeading => { state with firstName := true }
  | .name _ => { state with firstName := false }
  | _ => state

/-- The text of a call. -/
def write (settings : Settings) (state : State) (call : Call) : State × List Char :=
  (state.after call, writePieces escape (pieces settings state call))

/-- The usage of the format's options. -/
def usage : String :=
  "\ttexinfo options:\n\tt\tuse manpage title as NAME title\n\tn\toutput node info if embedded " ++
    "output\n\ts<n>\tset top heading level to <n>\n\tC\tcapitalize section titles\n"

end Texinfo
end Markup
end DeclManual
