import DeclManual.Options.Basic

/-!
# Markup calls

A manual page is composed as a list of calls: markup primitives that every output
format understands.  Formats turn each call into text; the composition of a page
does not depend on how they do so.
-/

namespace DeclManual
namespace Markup

/-- What a page header is built from. -/
structure Header where
  /-- The source file of the first page; none for standard input. -/
  sourceFile : Option String := none
  /-- When that file was last modified, in seconds since 1970. -/
  modified : Option Int := none
  /-- The number of input files of the run. -/
  inputFiles : Nat := 1
  /-- Whether the page describes several declarations. -/
  grouped : Bool := false
  /-- The page title: the identifier or the name of the group. -/
  name : String
  terse : String
  manualSection : String
deriving DecidableEq, Repr, Inhabited

/-- One markup primitive. -/
inductive Call where
  /-- Starts a comment line of the output format. -/
  | comment
  | header (header : Header)
  | dash
  | heading (name : String)
  | subheading (name : String)
  | breakLine
  | blankLine
  | codeStart
  | codeEnd
  /-- A span of code inside a line. -/
  | code (text : String)
  | tagListStart
  | tagListEnd
  | tagEntryStart
  /-- Starts an entry that will be annotated with its function. -/
  | tagEntryStartExtra
  | tagEntryEnd
  /-- Ends an entry and annotates it. -/
  | tagEntryEndExtra (text : String)
  | tableStart (longestTag : String)
  | tableEntry (name : String) (description : Option String)
  | tableEnd
  | indent
  | listStart
  | listEntry (name : String)
  | listSeparator
  | listEnd
  /-- Makes the output pull in another file. -/
  | includeFile (name : String)
  | fileEnd
  /-- Text of which nothing is markup. -/
  | text (text : String)
  | character (c : Char)
  /-- The heading of the section that names what is documented. -/
  | nameHeading
  /-- One documented name in that section. -/
  | name (name : String)
  | terseSeparator
  /-- A cross-reference to another page. -/
  | reference (name : String)
  | emphasized (text : String)
  /-- The banner that warns against editing. -/
  | warning
deriving DecidableEq, Repr, Inhabited

/-- The name with which generated files are signed. -/
def programName : String := "c2man"

/-- The settings of a run that formats look at. -/
structure Settings where
  fixupComments : Bool := true
  embeddable : Bool := false
  groupTogether : Bool := false
  manualName : Option String := none
  manualSection : String := "3"
  /-- The current date, as pages without a date of their own show it. -/
  today : String := ""
deriving DecidableEq, Repr, Inhabited

/-- The settings that options give. -/
def Settings.ofOptions (options : Options) (today : String) : Settings where
  fixupComments := options.fixupComments
  embeddable := options.embeddable
  groupTogether := options.groupTogether
  manualName := options.manualName
  manualSection := options.manualSectionText
  today := today

/-- The calls that write the characters of a text one by one. -/
def characters (text : List Char) : List Call :=
  text.map Call.character

end Markup
end DeclManual
