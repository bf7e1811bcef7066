import DeclManual.Markup.Piece
import DeclManual.Text.Encoding

/-!
# The autodoc format

A plain-text listing in fixed columns: section titles are indented by four
spaces and their bodies by eight, and tables and lists by four more.  The format
counts columns as it writes, and in the section of cross-references it starts a
new line before one would grow too long.
-/

namespace DeclManual
namespace Markup
namespace Autodoc

/-- The longest line of cross-references. -/
def lineLength : Nat := 79

/-- The distance between tab stops. -/
def tabLength : Nat := 4

/-- The columns of one level of indentation. -/
def indentLength : Nat := 4

/-- How many open tables are remembered. -/
def maxTables : Nat := 10

/-- Where the output stands. -/
structure State where
  indent : Nat := indentLength
  listIndent : Nat := 0
  column : Nat := 0
  /-- Whether indentation is owed before the next character. -/
  newline : Bool := false
  /-- Whether references are wrapped. -/
  seeAlso : Bool := false
  fileEnded : Bool := false
  /-- The widths of the open tables, the innermost first. -/
  tables : List Nat := []
deriving DecidableEq, Repr, Inhabited

/-- A step of writing: the state after it, and the text it adds. -/
abbrev Step := State -> State × List Char

/-- Writes nothing and changes the state. -/
def change (f : State -> State) : Step :=
  fun state => (f state, [])

/-- Writes a text as it is, without counting columns. -/
def put (text : List Char) : Step :=
  fun state => (state, text)

/-- Takes steps one after another. -/
def steps : List Step -> Step
  | [] => fun state => (state, [])
  | first :: rest => fun state =>
    let (middle, written) := first state
    let (last, more) := steps rest middle
    (last, written ++ more)

/-- The state at the start of a new line, if references have to be wrapped before
`upcoming` columns; the newline comes with it. -/
def wrap (upcoming : Nat) : Step :=
  fun state =>
    if state.seeAlso && decide (lineLength < state.column + upcoming) then
      ({ state with newline := true }, ['\n'])
    else (state, [])

/-- Writes the indentation that is owed. -/
def settle : Step :=
  fun state =>
    if state.newline then
      let column := state.indent + state.listIndent
      ({ state with column, newline := false }, List.replicate column ' ')
    else (state, [])

/-- Makes ready for `upcoming` columns. -/
def align (upcoming : Nat) : Step :=
  steps [wrap upcoming, settle]

/-- Writes a character. -/
def character (c : Char) : Step :=
  if c = '\x0c' then put []
  else if c = '\n' then
    fun state => ({ state with newline := true, column := 0 }, ['\n'])
  else
    steps [align 1, fun state =>
      if c = '\t' then
        let width := tabLength - state.column % tabLength
        ({ state with column := state.column + width }, List.replicate width ' ')
      else ({ state with column := state.column + 1 }, [c])]

/-- Writes a text.  Between references, a comma at the end of a line is followed
by a space instead. -/
def text (text : String) : Step :=
  fun state =>
    if state.seeAlso && text == ",\n" then
      steps [align 2, put [',', ' '],
        change fun state => { state with column := state.column + 2 }] state
    else steps (align (text.utf8ByteSize + 2) :: text.toList.map character) state

/-- Writes a number of spaces. -/
def spaces (count : Nat) : Step :=
  text (String.ofList (List.replicate count ' '))

/-- Leaves one level of indentation. -/
def dedent : Step :=
  change fun state =>
    { state with
      indent := state.indent - indentLength
      listIndent := state.listIndent - indentLength }

/-- The label of a page: its name after that of its source file. -/
def label (page : Header) : String :=
  match page.sourceFile with
  | some file => baseName file ++ "/" ++ page.name
  | none => page.name

/-- Writes the label of a page on the left margin, and again flush right. -/
def header (settings : Settings) (page : Header) : Step :=
  let start := change fun state => { state with fileEnded := false, seeAlso := false }
  if settings.embeddable then start
  else
    let label := label page
    let width := label.utf8ByteSize
    let tail :=
      if 2 * width < lineLength then [spaces (lineLength - 2 * width), text label]
      else [text (String.ofList (label.toList.take (lineLength - 1 - width)))]
    steps
      ([start, text label] ++ tail ++
        [character '\n', change fun state => { state with newline := false }])

/-- The title under which a section is written. -/
def sectionTitle : String -> String
  | "DESCRIPTION" => "FUNCTION"
  | "PARAMETERS" => "INPUTS"
  | "RETURNS" => "RESULT"
  | name => name

/-- Writes the title of a section. -/
def heading (name : String) : Step :=
  steps
    [change fun state => { state with newline := false, seeAlso := name == "SEE ALSO" },
      put "\n    ".toList,
      change fun state => { state with column := 4 },
      text (sectionTitle name),
      change fun state => { state with indent := 2 * indentLength, listIndent := 0 },
      character '\n']

/-- Starts an entry of a tag list. -/
def tagEntryStart : Step :=
  fun state =>
    if 0 < state.listIndent then
      steps [character '\n',
        change fun state => { state with listIndent := state.listIndent - indentLength }] state
    else (state, [])

/-- Ends an entry of a tag list. -/
def tagEntryEnd : Step :=
  steps [change fun state => { state with listIndent := state.listIndent + indentLength },
    character '\n']

/-- Enters a list. -/
def listStart : Step :=
  change fun state => { state with indent := state.indent + indentLength, newline := true }

/-- Opens a table, of which the width of the tags is remembered. -/
def tableStart (longestTag : String) : Step :=
  steps
    [change fun state =>
        if state.tables.length < maxTables then
          { state with tables := longestTag.utf8ByteSize :: state.tables }
        else state,
      listStart]

/-- Ends a file with a form feed, once. -/
def fileEnd : Step :=
  fun state =>
    ({ state with fileEnded := true, newline := false }, if state.fileEnded then [] else ['\x0c'])

/-- The banner that warns against editing. -/
def warning : Step :=
  steps
    [text "WARNING! THIS FILE WAS GENERATED AUTOMATICALLY BY ", text programName, text "!\n",
      text "DO NOT EDIT! CHANGES MADE TO THIS FILE WILL BE LOST!\n"]

/-- The step of every call but a table entry. -/
def basic (settings : Settings) : Call -> Step
  | .comment => put []
  | .header page => header settings page
  | .dash => text "-"
  | .heading name => heading name
  | .subheading name =>
    steps [text name, change fun state => { state with indent := 3 * indentLength },
      character '\n']
  | .breakLine => fun state =>
    if 0 < state.column && !state.newline then character '\n' state else (state, [])
  | .blankLine => character '\n'
  | .codeStart => put []
  | .codeEnd => put []
  | .code code => text code
  | .tagListStart => put []
  | .tagListEnd =>
    change fun state => { state with listIndent := state.listIndent - indentLength }
  | .tagEntryStart => tagEntryStart
  | .tagEntryStartExtra => tagEntryStart
  | .tagEntryEnd => tagEntryEnd
  | .tagEntryEndExtra extra => steps [text " (", text extra, text ")", tagEntryEnd]
  | .tableStart longestTag => tableStart longestTag
  | .tableEntry _ _ => put []
  | .tableEnd =>
    steps [change fun state => { state with tables := state.tables.tail }, character '\n', dedent]
  | .indent => align 0
  | .listStart => listStart
  | .listEntry name => text name
  | .listSeparator => text ", "
  | .listEnd => steps [character '\n', character '\n', dedent]
  | .includeFile _ => put []
  | .fileEnd => fileEnd
  | .text words => text words
  | .character c => character c
  | .nameHeading => heading "NAME"
  | .name name => text name
  | .terseSeparator => steps [character ' ', text "-", character ' ']
  | .reference name => text name
  | .emphasized words => text words
  | .warning => warning

/-- The step of a call. -/
def write (settings : Settings) : Call -> Step
  | .tableEntry name description => fun state =>
    let width := state.tables.headD 0
    let body :=
      match description with
      | some words =>
        (Prose.paragraph (settings.voice .autodoc) (some words)).map (basic settings)
      | none => [character '\n']
    steps ([text name, spaces (width + 1 - name.utf8ByteSize), text "- "] ++ body) state
  | call => basic settings call

end Autodoc
end Markup
end DeclManual
