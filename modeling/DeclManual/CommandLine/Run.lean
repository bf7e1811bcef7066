import DeclManual.CommandLine.Help
import DeclManual.CommandLine.Options
import DeclManual.Files.Publish
import DeclManual.Session.Dump
import DeclManual.Session.Input

/-!
# A run of the program

A run reads the files that its arguments name, or standard input, and publishes the
pages of their declarations.  It stops at the first file with errors.  All effects of a
run are in its outcome.
-/

namespace DeclManual
namespace CommandLine

/-- What a run leaves behind. -/
structure Outcome where
  code : Nat := 0
  stdout : List Char := []
  stderr : List Char := []
  tree : Files.Tree
  /-- The paths at which the tree was changed. -/
  summary : Files.Summary := {}
deriving Inhabited

/-- Why a run fails. -/
inductive RunError where
  | setup (cause : SetupError)
  | noInputName
  | formatOption (cause : Markup.FormatOptionError) (usage : String)
  | source (cause : Source.SourceError)
  /-- The sources have errors, which have been reported. -/
  | faultySources (count : Nat)
  | publish (cause : Files.PublishError)
deriving DecidableEq, Repr, Inhabited

/-- The wording of an error. -/
def RunError.message : RunError -> String
  | .setup cause => cause.message
  | .noInputName => "cannot name output after input file if there isn't one"
  | .formatOption cause usage =>
    if usage.isEmpty then cause.message else cause.message ++ "\n" ++ usage
  | .source cause => cause.message
  | .faultySources count =>
    toString count ++ " error" ++ (if count == 1 then "" else "s") ++ " found, no pages written"
  | .publish cause => cause.message

/-- The version of the program. -/
def version : String := "0.1.0"

/-- A step of a run, which may fail. -/
abbrev Run := EStateM RunError Outcome

/-- Writes a line to standard error. -/
def note (line : String) : Run Unit :=
  modify fun outcome => { outcome with stderr := outcome.stderr ++ line.toList ++ ['\n'] }

/-- Writes a text to standard output. -/
def print (text : List Char) : Run Unit :=
  modify fun outcome => { outcome with stdout := outcome.stdout ++ text }

/-- Goes on with the result of a computation, or fails. -/
def orFail {ε α : Type} (wrap : ε -> RunError) : Except ε α -> Run α
  | .ok result => pure result
  | .error cause => throw (wrap cause)

/-- Fails if the format does not take its options. -/
def checkFormat (options : Options) (today : String) : Run Unit :=
  match Markup.Writer.ofOptions options today with
  | .ok _ => pure ()
  | .error cause => throw (.formatOption cause (Markup.optionUsage options.format))

/-- Reports the diagnostics after the first ones. -/
def reportAfter (count : Nat) (session : Session) : Run Unit :=
  (session.diagnostics.drop count).forM fun diagnostic => note diagnostic.toText

/-- Takes the result of reading one input, whose diagnostics come after the first
ones. -/
def takeInput (count : Nat) (result : Session × Option Source.SourceError) : Run Session :=
  match result with
  | (_, some error) => throw (.source error)
  | (session, none) => do
    reportAfter count session
    return session

/-- Reads files until one has errors. -/
def takeFiles (session : Session) : List String -> Run Session
  | [] => return session
  | file :: rest => do
    let result := session.readPath (← get).tree file
    let next ← takeInput session.diagnostics.length result
    if 0 < next.errorCount then return next else takeFiles next rest

/-- Publishes the pages of a session. -/
def publishPages (session : Session) (today : String) : Run Unit := do
  let (published, error?) := Files.publish session (← get).tree today
  modify fun outcome =>
    { outcome with tree := published.tree, summary := published.summary }
  print published.stdout
  published.progress.forM note
  match error? with
  | some error => throw (.publish error)
  | none => return ()

/-- Runs the program with its arguments. -/
def perform (arguments : Arguments) (stdin : ByteArray) (today : String) : Run Unit := do
  let options ← orFail .setup (arguments.options (← get).tree)
  if options.verbose then note ("c2man: Version " ++ version)
  if arguments.files.isEmpty && options.useInputName then throw .noInputName
  checkFormat options today
  let start := Session.start options
  let session ←
    if arguments.files.isEmpty then takeInput 0 (start.readInput none none stdin)
    else takeFiles start arguments.files
  if 0 < session.errorCount then throw (.faultySources session.errorCount)
  if arguments.has .dump then print (session.toJson.pretty 0 ++ "\n").toList
  else if !session.pages.isEmpty then publishPages session today

/-- The outcome of a run in a file tree. -/
def run (arguments : List String) (stdin : ByteArray) (tree : Files.Tree) (today : String) :
    Outcome :=
  match Arguments.ofList arguments with
  | .error .helpAsked => { stdout := helpText.toList, tree }
  | .error error => { code := 2, stderr := (complaint error).toList, tree }
  | .ok arguments =>
    match perform arguments stdin today { tree } with
    | .ok _ outcome => outcome
    | .error error outcome =>
      { outcome with
        code := 1
        stderr := outcome.stderr ++ ("error: " ++ error.message ++ "\n").toList }

end CommandLine
end DeclManual
