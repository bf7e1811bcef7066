import DeclManual.Markup.Piece

/-!
# The nroff format

Macros of the manual page package of nroff.  Backslashes of user text are
escaped, and a control character at the start of an output line is protected.
Characters written one by one are not escaped, so that comments may carry
requests and escapes of their own.
-/

namespace DeclManual
namespace Markup
namespace Nroff

/-- The date in a page header: that of the source file, unless there is none or
the page describes several of them. -/
def pageDate (settings : Settings) (header : Header) : String :=
  match header.modified with
  | some seconds =>
    if header.grouped && 1 < header.inputFiles then settings.today
    else (Text.Date.ofSeconds seconds).toText
  | none => settings.today

/-- Starts a comment line. -/
def comment : List Piece := [.raw ".\\\" "]

/-- A span of code. -/
def code (text : String) : List Piece :=
  [.raw "\\fB", .escaped text, .raw "\\fR"]

/-- The header of a page. -/
def header (settings : Settings) (header : Header) : List Piece :=
  if settings.embeddable then []
  else
    let source :=
      match header.sourceFile with
      | some file =>
        if header.inputFiles ≤ 1 || !header.grouped then
          [Piece.raw " ", .escaped (baseName file)]
        else []
      | none => []
    let manual :=
      match settings.manualName with
      | some name => [Piece.raw "\" \"", .escaped name]
      | none => []
    warningPieces comment ++
      [.raw ".TH \"", .escaped header.name,
        .raw ("\" " ++ header.manualSection ++ " \"" ++ pageDate settings header ++ "\" \"" ++
          programName)] ++
      source ++ manual ++ [.raw "\"\n"]

/-- The pieces of every call but a table entry. -/
def basic (settings : Settings) : Call -> List Piece
  | .comment => comment
  | .header page => header settings page
  | .dash => [.raw "\\-"]
  | .heading name => [.raw ".SH \"", .escaped name, .raw "\"\n"]
  | .subheading name => [.raw ".SS \"", .escaped name, .raw "\"\n"]
  | .breakLine => [.raw ".br\n"]
  | .blankLine => [.raw ".sp\n"]
  | .codeStart => [.raw ".ft B\n"]
  | .codeEnd => [.raw ".ft R\n"]
  | .code text => code text
  | .tagListStart => []
  | .tagListEnd => []
  | .tagEntryStart => [.raw ".TP\n.B \""]
  | .tagEntryStartExtra => [.raw ".TP\n.BR \""]
  | .tagEntryEnd => [.raw "\"\n"]
  | .tagEntryEndExtra text => [.raw "\" \"\t(", .escaped text, .raw ")\"\n"]
  | .tableStart longestTag =>
    [.raw ".RS 0.75in\n.PD 0\n", .raw ".ft B\n", .raw ".nr TL \\w'", .escaped longestTag,
      .raw "'u+0.2i\n", .raw ".ft R\n"]
  | .tableEntry _ _ => []
  | .tableEnd => [.raw ".RE\n.PD\n"]
  | .indent => [.raw ".IP\n"]
  | .listStart => [.raw ".RS 0.75in\n.PD 0\n"]
  | .listEntry name => code name
  | .listSeparator => [.raw ",\n"]
  | .listEnd => [.raw "\n", .raw ".RE\n.PD\n"]
  | .includeFile name => [.raw ".so ", .escaped name, .raw "\n"]
  | .fileEnd => []
  | .text text => [.escaped text]
  | .character c => [.raw (String.singleton c)]
  | .nameHeading => [.raw ".SH \"", .escaped "NAME", .raw "\"\n"]
  | .name name => [.escaped name]
  | .terseSeparator => [.raw " \\- "]
  | .reference name => [.escaped name, .raw "(", .escaped settings.manualSection, .raw ")"]
  | .emphasized text => [.raw "\\fI", .escaped text, .raw "\\fR"]
  | .warning => warningPieces comment

/-- The pieces of a call. -/
def pieces (settings : Settings) : Call -> List Piece
  | .tableEntry name description =>
    [.raw ".TP \\n(TLu\n"] ++ code name ++ [.raw "\n"] ++
      match description with
      | some text =>
        (Prose.paragraph (settings.voice .nroff) (some text)).flatMap (basic settings)
      | none => [.raw "\n"]
  | call => basic settings call

/-- Escapes user text; `lineStart` tells whether it starts an output line. -/
def escape : (lineStart : Bool) -> List Char -> List Char
  | _, [] => []
  | lineStart, c :: rest =>
    if c = '\\' then '\\' :: 'e' :: escape false rest
    else if lineStart && (c == '.' || c == '\'') then '\\' :: '&' :: c :: escape false rest
    else c :: escape (c == '\n') rest

/-- Whether a new output line starts after a text. -/
def startsLine (lineStart : Bool) (written : List Char) : Bool :=
  match written.getLast? with
  | some last => last == '\n'
  | none => lineStart

/-- The text of a piece. -/
def writePiece (lineStart : Bool) : Piece -> List Char
  | .raw text => text.toList
  | .escaped text => escape lineStart text.toList

/-- The text of pieces, and whether a new output line starts after it. -/
def write : (lineStart : Bool) -> List Piece -> Bool × List Char
  | lineStart, [] => (lineStart, [])
  | lineStart, piece :: rest =>
    let written := writePiece lineStart piece
    let (after, more) := write (startsLine lineStart written) rest
    (after, written ++ more)

end Nroff
end Markup
end DeclManual
