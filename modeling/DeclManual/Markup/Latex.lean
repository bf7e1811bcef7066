import DeclManual.Markup.Piece

/-!
# The LaTeX format

An article per page.  Prototypes are set verbatim, where nothing is escaped.
-/

namespace DeclManual
namespace Markup
namespace Latex

/-- Escapes a character, inside or outside a verbatim block. -/
def escape (verbatim : Bool) (c : Char) : List Char :=
  if c == '\t' then tabSpaces
  else if verbatim then [c]
  else
    match c with
    | '$' | '#' | '&' | '_' | '%' | '\x7b' | '\x7d' => ['\\', c]
    | '^' => "\\^\x7b\x7d".toList
    | '~' => "\\~\x7b\x7d".toList
    | '\\' => "$\\backslash$".toList
    | '<' | '>' => ['$', c, '$']
    | _ => [c]

/-- Starts a comment line. -/
def comment : List Piece := [.raw "% "]

/-- Ends a tag of a tag list. -/
def tagEntryEnd : Piece := .raw "]\\hfill\\newline\n"

/-- The pieces of every call but a table entry. -/
def basic (settings : Settings) : Call -> List Piece
  | .comment => comment
  | .header _ =>
    if settings.embeddable then []
    else
      [.raw "\\documentclass\x7barticle\x7d\n"] ++ warningPieces comment ++
        [.raw "\\begin\x7bdocument\x7d\n"]
  | .dash => [.raw "---"]
  | .heading name => [.raw "\\section*\x7b", .escaped name, .raw "\x7d\n"]
  | .subheading name => [.raw "\\subsection*\x7b", .escaped name, .raw "\x7d\n"]
  | .breakLine => []
  | .blankLine => [.raw "\n"]
  | .codeStart => [.raw "\\begin\x7bverbatim\x7d\n"]
  | .codeEnd => [.raw "\\end\x7bverbatim\x7d\n"]
  | .code text => [.raw "\\verb`", .raw text, .raw "`"]
  | .tagListStart => [.raw "\\begin\x7bdescription\x7d\n"]
  | .tagListEnd => [.raw "\\end\x7bdescription\x7d\n"]
  | .tagEntryStart => [.raw "\\item["]
  | .tagEntryStartExtra => [.raw "\\item["]
  | .tagEntryEnd => [tagEntryEnd]
  | .tagEntryEndExtra text => [.raw "(", .escaped text, .raw ")", tagEntryEnd]
  | .tableStart _ => [.raw "\\begin\x7bdescription\x7d\n"]
  | .tableEntry _ _ => []
  | .tableEnd => [.raw "\\end\x7bdescription\x7d\n"]
  | .indent => []
  | .listStart => []
  | .listEntry name => [.escaped name]
  | .listSeparator => [.raw ",\n"]
  | .listEnd => [.escaped "\n"]
  | .includeFile name => [.raw "\\include\x7b", .escaped name, .raw "\x7d\n"]
  | .fileEnd => [.raw "\\end\x7bdocument\x7d\n"]
  | .text text => [.escaped text]
  | .character c => [.escaped (String.singleton c)]
  | .nameHeading => [.raw "\\section*\x7b", .escaped "NAME", .raw "\x7d\n"]
  | .name name => [.escaped name]
  | .terseSeparator => [.raw " --- "]
  | .reference name => [.escaped name, .raw "(", .escaped settings.manualSection, .raw ")"]
  | .emphasized text => [.escaped text]
  | .warning => warningPieces comment

/-- The pieces of a call. -/
def pieces (settings : Settings) : Call -> List Piece
  | .tableEntry name description =>
    [.raw "\\item[", .escaped name, .raw "]\n"] ++
      match description with
      | some text =>
        (Prose.paragraph (settings.voice .latex) (some text)).flatMap (basic settings)
      | none => [.escaped "\n"]
  | call => basic settings call

/-- Whether output is verbatim after a call. -/
def verbatimAfter (verbatim : Bool) : Call -> Bool
  | .codeStart => true
  | .codeEnd => false
  | _ => verbatim

/-- The text of a call. -/
def write (settings : Settings) (verbatim : Bool) (call : Call) : Bool × List Char :=
  (verbatimAfter verbatim call, writePieces (escape verbatim) (pieces settings call))

end Latex
end Markup
end DeclManual
