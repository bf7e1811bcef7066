import DeclManual.CommandLine.Error
import DeclManual.Options.Choice
import DeclManual.Text.Lines
import DeclManual.Text.Search

/-!
# Arguments

Reading the arguments of a run.  Letters can be joined behind one dash, the last of
them with its value; `--` ends the flags.  A setting that was named, and file names,
are only taken into account when the next flag or the end shows that they are
complete, so that an unknown flag is reported before a faulty value in front of it.
-/

namespace DeclManual
namespace CommandLine

/-- An output format with its own options. -/
structure FormatChoice where
  format : OutputFormat
  options : List String
deriving DecidableEq, Repr, Inhabited

/-- The arguments of a run. -/
structure Arguments where
  /-- The files to read; standard input if there are none. -/
  files : List String := []
  switches : List Switch := []
  outputDir : Option String := none
  includes : List String := []
  headerPrefix : Option String := none
  groupTerse : Option String := none
  link : Option LinkPolicy := none
  format : Option FormatChoice := none
  manualName : Option String := none
  manualSection : Option String := none
  exclude : List String := []
  placements : List String := []
  prototype : Option String := none
  config : Option String := none
deriving DecidableEq, Repr, Inhabited

/-! ## Values -/

/-- The link policy of a value. -/
def linkPolicy (value : String) : Except String LinkPolicy :=
  let policy? :=
    match value.toList with
    | [flag] => LinkPolicy.ofFlag? flag
    | _ => none
  match policy? with
  | some policy => .ok policy
  | none => .error ("unknown link type '" ++ value ++ "', expected one of h, s, f, n, r")

/-- The format of a value: its letter, and its own options after commas. -/
def formatChoice (value : String) : Except String FormatChoice :=
  let (selector, rest) := (Text.splitFirst? ',' value.toList).getD (value.toList, [])
  let format? :=
    match selector with
    | [flag] => OutputFormat.ofFlag? flag
    | _ => none
  match format? with
  | some format =>
    let options := (Text.splitOn ',' rest).filter (!·.isEmpty)
    .ok { format, options := options.map String.ofList }
  | none =>
    .error ("unknown output format '" ++ String.ofList selector ++
      "', expected one of n, l, h, t, a")

namespace Arguments

/-- Whether a switch was given. -/
def has (arguments : Arguments) (switch : Switch) : Bool :=
  arguments.switches.contains switch

/-- Whether a setting that must not be repeated was given. -/
def isGiven (arguments : Arguments) : Setting -> Bool
  | .outputDir => arguments.outputDir.isSome
  | .headerPrefix => arguments.headerPrefix.isSome
  | .groupTerse => arguments.groupTerse.isSome
  | .link => arguments.link.isSome
  | .format => arguments.format.isSome
  | .manualName => arguments.manualName.isSome
  | .manualSection => arguments.manualSection.isSome
  | .prototype => arguments.prototype.isSome
  | .config => arguments.config.isSome
  | .includeFile | .exclude | .placement => false

/-- Takes the value of a setting. -/
def store (arguments : Arguments) (setting : Setting) (value : String) :
    Except String Arguments :=
  match setting with
  | .outputDir => .ok { arguments with outputDir := some value }
  | .includeFile => .ok { arguments with includes := arguments.includes ++ [value] }
  | .headerPrefix => .ok { arguments with headerPrefix := some value }
  | .groupTerse => .ok { arguments with groupTerse := some value }
  | .link => (linkPolicy value).map fun policy => { arguments with link := some policy }
  | .format => (formatChoice value).map fun choice => { arguments with format := some choice }
  | .manualName => .ok { arguments with manualName := some value }
  | .manualSection => .ok { arguments with manualSection := some value }
  | .exclude => .ok { arguments with exclude := arguments.exclude ++ [value] }
  | .placement => .ok { arguments with placements := arguments.placements ++ [value] }
  | .prototype => .ok { arguments with prototype := some value }
  | .config => .ok { arguments with config := some value }

/-- Takes a setting with its value. -/
def applySetting (arguments : Arguments) (setting : Setting) (value : String) :
    Except ArgumentError Arguments :=
  if arguments.isGiven setting then .error (.repeated setting.usage)
  else if setting.isPath && value.isEmpty then .error (.missingValue setting.usage)
  else (arguments.store setting value).mapError (.invalidValue setting.usage value)

/-- Takes a switch. -/
def applySwitch (arguments : Arguments) (switch : Switch) : Except ArgumentError Arguments :=
  if switch == .help then .error .helpAsked
  else if arguments.has switch then .error (.repeated switch.usage)
  else .ok { arguments with switches := arguments.switches ++ [switch] }

/-- Takes files, which need names. -/
def applyFiles (arguments : Arguments) (names : List String) : Except ArgumentError Arguments :=
  if names.any String.isEmpty then .error (.missingValue "[FILES]...")
  else .ok { arguments with files := arguments.files ++ names }

end Arguments

/-! ## Reading -/

/-- What has been named and is not yet taken into account. -/
inductive Pending where
  | nothing
  | setting (setting : Setting) (value : Option String)
  | files (names : List String)
deriving DecidableEq, Repr, Inhabited

/-- Where the reading of arguments stands. -/
structure Reading where
  arguments : Arguments := {}
  pending : Pending := .nothing
  /-- Whether the flags have ended. -/
  filesOnly : Bool := false
deriving DecidableEq, Repr, Inhabited

namespace Reading

/-- The setting that waits for its value. -/
def awaited? (reading : Reading) : Option Setting :=
  match reading.pending with
  | .setting setting none => if reading.filesOnly then none else some setting
  | _ => none

/-- Takes into account what has been named. -/
def settle (reading : Reading) : Except ArgumentError Reading := do
  let arguments ←
    match reading.pending with
    | .nothing => pure reading.arguments
    | .setting setting none => throw (.missingValue setting.usage)
    | .setting setting (some value) => reading.arguments.applySetting setting value
    | .files names => reading.arguments.applyFiles names
  return { reading with arguments, pending := .nothing }

/-- Takes a switch. -/
def takeSwitch (reading : Reading) (switch : Switch) : Except ArgumentError Reading := do
  let settled ← reading.settle
  return { settled with arguments := ← settled.arguments.applySwitch switch }

/-- Takes a setting, with its value if that is attached to it. -/
def takeSetting (reading : Reading) (setting : Setting) (attached : Option String) :
    Except ArgumentError Reading := do
  let settled ← reading.settle
  match attached with
  | some value =>
    return { settled with arguments := ← settled.arguments.applySetting setting value }
  | none => return { settled with pending := .setting setting none }

/-- The value attached to a letter, after an equals sign or directly. -/
def attachedValue? : List Char -> Option String
  | [] => none
  | '=' :: value => some (String.ofList value)
  | value => some (String.ofList value)

/-- Takes letters joined behind a dash. -/
def takeLetters (reading : Reading) : List Char -> Except ArgumentError Reading
  | [] => .ok reading
  | letter :: rest =>
    match Switch.ofLetter? letter, Setting.ofLetter? letter with
    | some switch, _ => do (← reading.takeSwitch switch).takeLetters rest
    | none, some setting => reading.takeSetting setting (attachedValue? rest)
    | none, none => .error (.unknown ("-" ++ String.singleton letter))

/-- Takes a long name, with a value after an equals sign. -/
def takeLong (reading : Reading) (text : List Char) : Except ArgumentError Reading :=
  let (name, value?) :=
    match Text.splitFirst? '=' text with
    | some (name, value) => (String.ofList name, some (String.ofList value))
    | none => (String.ofList text, none)
  match Switch.ofLongName? name, Setting.ofLongName? name, value? with
  | some switch, _, none => reading.takeSwitch switch
  | some switch, _, some value => .error (.unneededValue switch.usage value)
  | none, some setting, _ => reading.takeSetting setting value?
  | none, none, _ => .error (.unknown ("--" ++ name))

/-- Takes a word that is no flag: the value that is waited for, or a file. -/
def takeWord (reading : Reading) (word : String) : Except ArgumentError Reading :=
  match reading.awaited?, reading.pending with
  | some setting, _ => .ok { reading with pending := .setting setting (some word) }
  | none, .files names => .ok { reading with pending := .files (names ++ [word]) }
  | none, _ => do return { (← reading.settle) with pending := .files [word] }

/-- Takes one argument. -/
def step (reading : Reading) (argument : String) : Except ArgumentError Reading :=
  let anyValue := (reading.awaited?.map Setting.takesDashes).getD false
  if reading.filesOnly || anyValue then reading.takeWord argument
  else
    match argument.toList with
    | ['-', '-'] => .ok { reading with filesOnly := true }
    | '-' :: '-' :: name => reading.takeLong name
    | '-' :: letter :: letters => reading.takeLetters (letter :: letters)
    | _ => reading.takeWord argument

end Reading

/-- Reads the arguments of a run. -/
def Arguments.ofList (arguments : List String) : Except ArgumentError Arguments := do
  let read ← arguments.foldlM Reading.step {}
  return (← read.settle).arguments

end CommandLine
end DeclManual
