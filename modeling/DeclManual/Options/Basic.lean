import DeclManual.Options.Layout
import DeclManual.Options.Placement

/-!
# Options

All settings of one run.  Every field has a default.
-/

namespace DeclManual

/-- The settings of one run. -/
structure Options where
  /-- Document `static` declarations outside header files. -/
  staticOut : Bool := false
  /-- Document variables as well as functions. -/
  variablesOut : Bool := false
  /-- Promote `char`, `short` and `float` parameters of old-style definitions. -/
  promoteParameters : Bool := true
  /-- Capitalise sentences and add missing full stops. -/
  fixupComments : Bool := true
  /-- Render all pages as one. -/
  groupTogether : Bool := false
  /-- The terse description of a grouped page. -/
  groupTerse : Option String := none
  /-- List parameters even when they have no comment. -/
  alwaysDocumentParameters : Bool := true
  /-- Use the comment at the start of a function body. -/
  lookAtBodyStart : Bool := false
  /-- Use only the comment at the start of a function body. -/
  bodyStartOnly : Bool := false
  excludedSections : List String := []
  /-- Further `#include` lines of the synopsis. -/
  includes : List String := []
  headerPrefix : Option String := none
  manualName : Option String := none
  manualSection : Option String := none
  /-- The output directory; `-` writes every page to standard output. -/
  outputDir : Option String := none
  /-- Name grouped output after the input file. -/
  useInputName : Bool := false
  /-- Leave out the preamble and trailer of a document. -/
  embeddable : Bool := false
  linkPolicy : LinkPolicy := .hard
  format : OutputFormat := .nroff
  /-- The options of the format itself. -/
  formatOptions : List String := []
  prototype : Layout := {}
  objects : Placements := {}
  verbose : Bool := false
deriving DecidableEq, Repr, Inhabited

namespace Options

/-- The manual section, by default that of the format. -/
def manualSectionText (options : Options) : String :=
  options.manualSection.getD options.format.defaultSection

/-- Whether a section is left out. -/
def isExcluded (options : Options) (name : String) : Bool :=
  options.excludedSections.contains name

/-- Whether pages go to standard output. -/
def toStdout (options : Options) : Bool :=
  match options.outputDir with
  | some directory => Files.Path.same ⟨directory⟩ ⟨"-"⟩
  | none => false

end Options
end DeclManual
