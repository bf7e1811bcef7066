import DeclManual.Markup.Autodoc
import DeclManual.Markup.Html
import DeclManual.Markup.Latex
import DeclManual.Markup.Nroff
import DeclManual.Markup.Texinfo
import DeclManual.Text.Number

/-!
# Writers

A writer is a format with its settings and whatever the format remembers between
calls.  Each call gives the next writer and the text that the call adds.
-/

namespace DeclManual
namespace Markup

/-- What a format remembers between calls. -/
inductive Memory where
  /-- Whether a new output line starts. -/
  | nroff (lineStart : Bool)
  /-- Whether output is verbatim. -/
  | latex (verbatim : Bool)
  /-- Whether output stands inside a prototype. -/
  | html (inCode : Bool)
  | texinfo (state : Texinfo.State)
  | autodoc (state : Autodoc.State)
deriving DecidableEq, Repr, Inhabited

/-- A format at work. -/
structure Writer where
  settings : Settings
  memory : Memory
deriving DecidableEq, Repr, Inhabited

/-- Why a format refuses an option. -/
inductive FormatOptionError where
  /-- The option is known but its value is not. -/
  | invalid (format : OutputFormat) (option : String)
  | unsupported (format : OutputFormat) (option : String)
deriving DecidableEq, Repr, Inhabited

/-- The wording of an error. -/
def FormatOptionError.message : FormatOptionError -> String
  | .invalid format option => "invalid " ++ format.name ++ " option: " ++ option
  | .unsupported format option => format.name ++ " output takes no option '" ++ option ++ "'"

/-- The usage of a format's own options; empty if it has none. -/
def optionUsage : OutputFormat -> String
  | .texinfo => Texinfo.usage
  | _ => ""

namespace Memory

/-- What a format remembers before the first call. -/
def initial : OutputFormat -> Memory
  | .nroff => .nroff true
  | .latex => .latex false
  | .html => .html false
  | .texinfo => .texinfo {}
  | .autodoc => .autodoc {}

/-- The format of a memory. -/
def format : Memory -> OutputFormat
  | .nroff _ => .nroff
  | .latex _ => .latex
  | .html _ => .html
  | .texinfo _ => .texinfo
  | .autodoc _ => .autodoc

end Memory

namespace Writer

/-- A writer before its first call. -/
def start (format : OutputFormat) (settings : Settings) : Writer :=
  { settings, memory := .initial format }

/-- The voice in which a writer's comments are written. -/
def voice (writer : Writer) : Prose.Voice :=
  writer.settings.voice writer.memory.format

/-- Writes one call. -/
def write (writer : Writer) (call : Call) : Writer × List Char :=
  match writer.memory with
  | .nroff lineStart =>
    let (after, written) := Nroff.write lineStart (Nroff.pieces writer.settings call)
    ({ writer with memory := .nroff after }, written)
  | .latex verbatim =>
    let (after, written) := Latex.write writer.settings verbatim call
    ({ writer with memory := .latex after }, written)
  | .html inCode =>
    let (after, written) := Html.write writer.settings inCode call
    ({ writer with memory := .html after }, written)
  | .texinfo state =>
    let (after, written) := Texinfo.write writer.settings state call
    ({ writer with memory := .texinfo after }, written)
  | .autodoc state =>
    let (after, written) := Autodoc.write writer.settings call state
    ({ writer with memory := .autodoc after }, written)

/-- Writes calls one after another. -/
def writeAll (writer : Writer) : List Call -> Writer × List Char
  | [] => (writer, [])
  | call :: rest =>
    let (middle, written) := writer.write call
    let (last, more) := middle.writeAll rest
    (last, written ++ more)

/-- The writer once its text has been taken away: what comes next starts an
output line. -/
def taken (writer : Writer) : Writer :=
  match writer.memory with
  | .nroff _ => { writer with memory := .nroff true }
  | _ => writer

/-- Applies one of the format's own options. -/
def applyOption (writer : Writer) (option : String) : Except FormatOptionError Writer :=
  match writer.memory with
  | .texinfo state =>
    let changed (state : Texinfo.State) : Except FormatOptionError Writer :=
      .ok { writer with memory := .texinfo state }
    match option.toList with
    | 't' :: _ => changed { state with titleName := true }
    | 'n' :: _ => changed { state with embedNodeInfo := true }
    | 'C' :: _ => changed { state with capitalizeSections := true }
    | 's' :: digits =>
      match Text.signedWord64? digits with
      | some level => changed { state with topLevel := level }
      | none => .error (.invalid .texinfo option)
    | _ => .error (.unsupported .texinfo option)
  | memory => .error (.unsupported memory.format option)

/-- Applies options from left to right. -/
def applyOptions (writer : Writer) (options : List String) : Except FormatOptionError Writer :=
  options.foldlM applyOption writer

/-- The writer that options select. -/
def ofOptions (options : Options) (today : String) : Except FormatOptionError Writer :=
  (start options.format (Settings.ofOptions options today)).applyOptions options.formatOptions

/-- Writing is one call after another. -/
theorem writeAll_append (writer : Writer) (first second : List Call) :
    writer.writeAll (first ++ second) =
      let (middle, written) := writer.writeAll first
      let (last, more) := middle.writeAll second
      (last, written ++ more) := by
  induction first generalizing writer with
  | nil => simp [writeAll]
  | cons call rest ih => simp [writeAll, ih, List.append_assoc]

end Writer
end Markup
end DeclManual
