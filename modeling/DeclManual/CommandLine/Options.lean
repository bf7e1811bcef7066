import DeclManual.CommandLine.Arguments
import DeclManual.Options.File

/-!
# Options of the command line

The options of a run are those of the options file, if one is named, changed by the
flags.  A switch can only turn its option away from the default; lists of the file are
extended.
-/

namespace DeclManual
namespace CommandLine

/-- Why the options of a run could not be built. -/
inductive SetupError where
  | config (path : String) (cause : OptionError)
  | placement (spec : String) (cause : OptionError)
  | prototype (cause : OptionError)
deriving DecidableEq, Repr, Inhabited

/-- The wording of an error. -/
def SetupError.message : SetupError -> String
  | .config path cause => "cannot load config '" ++ path ++ "': " ++ cause.message
  | .placement spec cause => "-O " ++ spec ++ ": " ++ cause.message
  | .prototype cause => cause.message

namespace Arguments

/-- The options that the flags are applied to. -/
def baseOptions (arguments : Arguments) (tree : Files.Tree) : Except SetupError Options :=
  match arguments.config with
  | some path => (Options.load tree path).mapError (.config path)
  | none => .ok {}

/-- Applies the flags that cannot fail. -/
def applyTo (arguments : Arguments) (options : Options) : Options :=
  { options with
    staticOut := options.staticOut || arguments.has .statics
    variablesOut := options.variablesOut || arguments.has .dataObjects
    promoteParameters := options.promoteParameters && !arguments.has .noPromotion
    fixupComments := options.fixupComments && !arguments.has .keepComments
    groupTogether :=
      options.groupTogether || arguments.has .group || arguments.groupTerse.isSome
    groupTerse := arguments.groupTerse.or options.groupTerse
    alwaysDocumentParameters :=
      options.alwaysDocumentParameters && !arguments.has .documentedOnly
    lookAtBodyStart :=
      options.lookAtBodyStart || arguments.has .bodyStart || arguments.has .bodyStartOnly
    bodyStartOnly := options.bodyStartOnly || arguments.has .bodyStartOnly
    excludedSections := options.excludedSections ++ arguments.exclude
    includes := options.includes ++ arguments.includes
    headerPrefix := arguments.headerPrefix.or options.headerPrefix
    manualName := arguments.manualName.or options.manualName
    manualSection := arguments.manualSection.or options.manualSection
    outputDir := arguments.outputDir.or options.outputDir
    useInputName := options.useInputName || arguments.has .useInputName
    embeddable := options.embeddable || arguments.has .embeddable
    linkPolicy := arguments.link.getD options.linkPolicy
    format := (arguments.format.map (·.format)).getD options.format
    formatOptions := (arguments.format.map (·.options)).getD options.formatOptions
    verbose := options.verbose || arguments.has .verbose }

/-- Applies the placements in their order. -/
def placementsFrom (arguments : Arguments) (placements : Placements) :
    Except SetupError Placements :=
  arguments.placements.foldlM
    (fun placements spec => (placements.applySpec spec).mapError (.placement spec)) placements

/-- The layout of prototypes, given by an example. -/
def layoutFrom (arguments : Arguments) (layout : Layout) : Except SetupError Layout :=
  match arguments.prototype with
  | some template => (Layout.ofTemplate template).mapError .prototype
  | none => .ok layout

/-- The options of a run. -/
def options (arguments : Arguments) (tree : Files.Tree) : Except SetupError Options := do
  let base := arguments.applyTo (← arguments.baseOptions tree)
  let objects ← arguments.placementsFrom base.objects
  let prototype ← arguments.layoutFrom base.prototype
  return { base with objects, prototype }

end Arguments
end CommandLine
end DeclManual
