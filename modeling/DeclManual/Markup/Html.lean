import DeclManual.Markup.Piece

/-!
# The HTML format

User text is escaped with the four entities for `<`, `>`, `&` and the double
quote, inside attribute values as well.
-/

namespace DeclManual
namespace Markup
namespace Html

/-- Escapes a character. -/
def escape (c : Char) : List Char :=
  match c with
  | '<' => "&lt;".toList
  | '>' => "&gt;".toList
  | '&' => "&amp;".toList
  | '"' => "&quot;".toList
  | _ => [c]

/-- The banner that warns against editing. -/
def warning : List Piece :=
  [.raw "<!-- WARNING! THIS FILE WAS GENERATED AUTOMATICALLY BY ", .raw programName,
    .raw "! -->\n", .raw "<!-- DO NOT EDIT! CHANGES MADE TO THIS FILE WILL BE LOST! -->\n"]

/-- What divides a name from its terse description. -/
def terseSeparator : List Piece :=
  [.escaped " ", .raw "-", .escaped " "]

/-- A span of code. -/
def code (text : String) : List Piece :=
  [.raw "<code>", .escaped text, .raw "</code>"]

/-- The pieces of every call but a table entry, inside or outside a prototype. -/
def basic (settings : Settings) (inCode : Bool) : Call -> List Piece
  | .comment => [.raw "<!-- "]
  | .header page =>
    if settings.embeddable then []
    else
      warning ++ [.raw "<html>\n<head>\n<title>", .escaped page.name] ++ terseSeparator ++
        [.escaped page.terse, .raw "</title>\n</head>\n<body>\n"]
  | .dash => [.raw "-"]
  | .heading name => [.raw "<h1>", .escaped name, .raw "</h1>\n"]
  | .subheading name => [.raw "<h2>", .escaped name, .raw "</h2>\n"]
  | .breakLine => if inCode then [] else [.raw "<br>\n"]
  | .blankLine => if inCode then [.raw "\n"] else [.raw "<p>\n"]
  | .codeStart => [.raw "<pre>"]
  | .codeEnd => [.raw "</pre>\n"]
  | .code text => code text
  | .tagListStart => [.raw "<dl>\n"]
  | .tagListEnd => [.raw "</dl>\n"]
  | .tagEntryStart => [.raw "<dt>"]
  | .tagEntryStartExtra => [.raw "<dt>"]
  | .tagEntryEnd => [.raw "\n<dd>"]
  | .tagEntryEndExtra text => [.raw " (<em>", .escaped text, .raw "</em>)", .raw "\n<dd>"]
  | .tableStart _ => [.raw "<ul>\n"]
  | .tableEntry _ _ => []
  | .tableEnd => [.raw "</ul>\n"]
  | .indent => [.raw "\t"]
  | .listStart => [.raw "<ul>\n"]
  | .listEntry name => [.raw "<li>"] ++ code name
  | .listSeparator => [.raw "\n"]
  | .listEnd => [.raw "\n</ul>\n"]
  | .includeFile name => [.raw "<!--#include virtual=\"", .escaped name, .raw "\" -->\n"]
  | .fileEnd => if settings.embeddable then [] else [.raw "</body>\n</html>\n"]
  | .text text => [.escaped text]
  | .character c => [.escaped (String.singleton c)]
  | .nameHeading => [.raw "<h1>", .escaped "NAME", .raw "</h1>\n"]
  | .name name => [.escaped name]
  | .terseSeparator => terseSeparator
  | .reference name =>
    [.raw "<a href=\"", .escaped name, .raw ".", .escaped settings.manualSection, .raw "\">",
      .escaped name, .raw "</a>"]
  | .emphasized text => [.raw "<em>", .escaped text, .raw "</em>"]
  | .warning => warning

/-- The pieces of a call. -/
def pieces (settings : Settings) (inCode : Bool) : Call -> List Piece
  | .tableEntry name description =>
    let body :=
      match description with
      | some text =>
        terseSeparator ++
          if settings.fixupComments then
            (Prose.description (settings.voice .html) text).flatMap (basic settings inCode)
          else [.escaped text]
      | none => []
    [.raw "<li>"] ++ code name ++ body ++ [.raw "\n"]
  | call => basic settings inCode call

/-- Whether output stands inside a prototype after a call. -/
def inCodeAfter (inCode : Bool) : Call -> Bool
  | .codeStart => true
  | .codeEnd => false
  | _ => inCode

/-- The text of a call. -/
def write (settings : Settings) (inCode : Bool) (call : Call) : Bool × List Char :=
  (inCodeAfter inCode call, writePieces escape (pieces settings inCode call))

end Html
end Markup
end DeclManual
