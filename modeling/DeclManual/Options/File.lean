import DeclManual.Options.Basic
import DeclManual.Yaml.Record

/-!
# Options files

Options can be kept in a YAML file.  A file need not name all of them.
-/

namespace DeclManual

open Yaml (RecordField)

/-- The fields of a placement. -/
def Placement.fields : List (RecordField Placement) :=
  [.optionalText "subdir" (·.subdir) fun placement value => { placement with subdir := value },
    .optionalText "extension" (·.extension) fun placement value =>
      { placement with extension := value }]

/-- A field that holds the placement of one object kind. -/
def Placements.field (kind : ObjectKind) : RecordField Placements :=
  .record Placement.fields {} kind.name (·.get kind) fun placements value =>
    placements.set kind value

/-- The fields of the placements. -/
def Placements.fields : List (RecordField Placements) :=
  ObjectKind.all.map Placements.field

/-- The fields of a layout. -/
def Layout.fields : List (RecordField Layout) :=
  [.text "decl_spec_prefix" (·.specPrefix) fun layout value =>
      { layout with specPrefix := value },
    .text "declarator_prefix" (·.declaratorPrefix) fun layout value =>
      { layout with declaratorPrefix := value },
    .text "declarator_suffix" (·.declaratorSuffix) fun layout value =>
      { layout with declaratorSuffix := value },
    .text "first_param_prefix" (·.firstParameterPrefix) fun layout value =>
      { layout with firstParameterPrefix := value },
    .text "middle_param_prefix" (·.middleParameterPrefix) fun layout value =>
      { layout with middleParameterPrefix := value },
    .text "last_param_suffix" (·.lastParameterSuffix) fun layout value =>
      { layout with lastParameterSuffix := value }]

namespace Options

/-- The fields of the options, in the order in which they are written. -/
def fields : List (RecordField Options) :=
  [.switch "static_out" (·.staticOut) fun options value => { options with staticOut := value },
    .switch "variables_out" (·.variablesOut) fun options value =>
      { options with variablesOut := value },
    .switch "promote_params" (·.promoteParameters) fun options value =>
      { options with promoteParameters := value },
    .switch "fixup_comments" (·.fixupComments) fun options value =>
      { options with fixupComments := value },
    .switch "group_together" (·.groupTogether) fun options value =>
      { options with groupTogether := value },
    .optionalText "group_terse" (·.groupTerse) fun options value =>
      { options with groupTerse := value },
    .switch "always_document_params" (·.alwaysDocumentParameters) fun options value =>
      { options with alwaysDocumentParameters := value },
    .switch "look_at_body_start" (·.lookAtBodyStart) fun options value =>
      { options with lookAtBodyStart := value },
    .switch "body_start_only" (·.bodyStartOnly) fun options value =>
      { options with bodyStartOnly := value },
    .texts "excluded_sections" (·.excludedSections) fun options value =>
      { options with excludedSections := value },
    .texts "includes" (·.includes) fun options value => { options with includes := value },
    .optionalText "header_prefix" (·.headerPrefix) fun options value =>
      { options with headerPrefix := value },
    .optionalText "manual_name" (·.manualName) fun options value =>
      { options with manualName := value },
    .optionalText "manual_section" (·.manualSection) fun options value =>
      { options with manualSection := value },
    .optionalText "output_dir" (·.outputDir) fun options value =>
      { options with outputDir := value },
    .switch "use_input_name" (·.useInputName) fun options value =>
      { options with useInputName := value },
    .switch "embeddable" (·.embeddable) fun options value =>
      { options with embeddable := value },
    .choice LinkPolicy.name LinkPolicy.ofName? "link_policy" (·.linkPolicy)
      fun options value => { options with linkPolicy := value },
    .choice OutputFormat.name OutputFormat.ofName? "format" (·.format)
      fun options value => { options with format := value },
    .texts "format_options" (·.formatOptions) fun options value =>
      { options with formatOptions := value },
    .record Layout.fields {} "prototype" (·.prototype) fun options value =>
      { options with prototype := value },
    .record Placements.fields {} "objects" (·.objects) fun options value =>
      { options with objects := value },
    .switch "verbose" (·.verbose) fun options value => { options with verbose := value }]

/-- The options that the text of a file gives. -/
def ofFileText (text : String) : Except Yaml.Fault Options :=
  Yaml.recordOfText fields {} text.toList

/-- The text of a file that gives the options. -/
def toFileText (options : Options) : String :=
  String.ofList (Yaml.textOfRecord fields options)

/-- The options that the bytes of a file give. -/
def ofFileBytes (bytes : ByteArray) : Except Yaml.Fault Options :=
  match String.fromUTF8? bytes with
  | some text => ofFileText text
  | none => .error .notUnicode

/-- Loads options from a file.  A directory can be opened, and is found out when it is
read. -/
def load (tree : Files.Tree) (path : String) : Except OptionError Options :=
  match tree.read ⟨path⟩ with
  | .ok data => (ofFileBytes data.bytes).mapError fun fault => .malformed fault.message
  | .error .isDirectory =>
    .error (.malformed (Yaml.Fault.unreadable Files.OsError.isDirectory.message).message)
  | .error cause => .error (.io cause)

end Options
end DeclManual
