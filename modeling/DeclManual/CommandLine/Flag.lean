/-!
# Flags of the command line

A switch is given or not; a setting takes a value.  Most have a letter, the others a
long name.
-/

namespace DeclManual
namespace CommandLine

/-- A flag without a value. -/
inductive Switch where
  | statics
  | dataObjects
  | noPromotion
  | keepComments
  | bodyStart
  | bodyStartOnly
  | group
  | embeddable
  | useInputName
  | documentedOnly
  | verbose
  | dump
  | help
deriving DecidableEq, Repr, Inhabited

/-- A flag with a value. -/
inductive Setting where
  | outputDir
  | includeFile
  | headerPrefix
  | groupTerse
  | link
  | format
  | manualName
  | manualSection
  | exclude
  | placement
  | prototype
  | config
deriving DecidableEq, Repr, Inhabited

namespace Switch

/-- The switches in the order in which they are listed. -/
def all : List Switch :=
  [statics, dataObjects, noPromotion, keepComments, bodyStart, bodyStartOnly, group, embeddable,
    useInputName, documentedOnly, verbose, dump, help]

/-- The letter of a switch. -/
def letter? : Switch -> Option Char
  | statics => some 's'
  | dataObjects => some 'v'
  | noPromotion => some 'p'
  | keepComments => some 'k'
  | bodyStart => some 'b'
  | bodyStartOnly => some 'B'
  | group => some 'g'
  | embeddable => some 'e'
  | useInputName => some 'n'
  | documentedOnly => some 'L'
  | verbose => some 'V'
  | dump => none
  | help => some 'h'

/-- The long name of a switch. -/
def longName? : Switch -> Option String
  | dump => some "dump-ir"
  | help => some "help"
  | _ => none

/-- The switch of a letter. -/
def ofLetter? (letter : Char) : Option Switch :=
  all.find? (·.letter? == some letter)

/-- The switch of a long name. -/
def ofLongName? (name : String) : Option Switch :=
  all.find? (·.longName? == some name)

/-- A switch as messages show it. -/
def usage (switch : Switch) : String :=
  match switch.longName?, switch.letter? with
  | some name, _ => "--" ++ name
  | none, some letter => "-" ++ String.singleton letter
  | none, none => ""

/-- What a switch does. -/
def description : Switch -> String
  | statics => "Document static declarations"
  | dataObjects => "Document variables as well as functions"
  | noPromotion => "Do not promote char, short and float K&R parameters"
  | keepComments => "Do not capitalize sentences or add full stops"
  | bodyStart => "Also use the comment at the start of a function body"
  | bodyStartOnly => "Use only the comment at the start of a function body"
  | group => "Put all pages into one"
  | embeddable => "Leave out document preamble and trailer"
  | useInputName => "Name grouped output after the input file"
  | documentedOnly => "Only list parameters that have a comment"
  | verbose => "Print the version and report progress"
  | dump => "Print the parsed declarations as JSON instead of rendering them"
  | help => "Print help"

end Switch

namespace Setting

/-- The settings in the order in which they are listed. -/
def all : List Setting :=
  [outputDir, includeFile, headerPrefix, groupTerse, link, format, manualName, manualSection,
    exclude, placement, prototype, config]

/-- The letter of a setting. -/
def letter? : Setting -> Option Char
  | outputDir => some 'o'
  | includeFile => some 'i'
  | headerPrefix => some 'H'
  | groupTerse => some 'G'
  | link => some 'l'
  | format => some 'T'
  | manualName => some 'M'
  | manualSection => some 'S'
  | exclude => some 'x'
  | placement => some 'O'
  | prototype => some 'F'
  | config => none

/-- The long name of a setting. -/
def longName? : Setting -> Option String
  | config => some "config"
  | _ => none

/-- The word that stands for the value of a setting in messages. -/
def valueName : Setting -> String
  | outputDir => "DIR"
  | includeFile => "FILE"
  | headerPrefix => "PREFIX"
  | groupTerse => "TERSE"
  | link => "TYPE"
  | format => "FORMAT[,OPTS]"
  | manualName => "NAME"
  | manualSection => "SECTION"
  | exclude => "SECTION"
  | placement => "SPEC"
  | prototype => "TEMPLATE"
  | config => "FILE"

/-- Whether the value of a setting may look like a flag. -/
def takesDashes : Setting -> Bool
  | outputDir => true
  | _ => false

/-- Whether the value of a setting names a file, which needs a name. -/
def isPath : Setting -> Bool
  | outputDir | config => true
  | _ => false

/-- The setting of a letter. -/
def ofLetter? (letter : Char) : Option Setting :=
  all.find? (·.letter? == some letter)

/-- The setting of a long name. -/
def ofLongName? (name : String) : Option Setting :=
  all.find? (·.longName? == some name)

/-- A setting as messages show it. -/
def usage (setting : Setting) : String :=
  let flag :=
    match setting.longName?, setting.letter? with
    | some name, _ => "--" ++ name
    | none, some letter => "-" ++ String.singleton letter
    | none, none => ""
  flag ++ " <" ++ setting.valueName ++ ">"

/-- What a setting is for. -/
def description : Setting -> String
  | outputDir => "Output directory; \x60-\x60 writes every page to standard output"
  | includeFile => "Add \x60#include <FILE>\x60 to every SYNOPSIS"
  | headerPrefix => "Directory prefix for the header in SYNOPSIS"
  | groupTerse => "Put all pages into one, described by TERSE"
  | link => "How grouped pages are linked: h(ard), s(oft), f(ile), n(one) or r(emove)"
  | format =>
    "Output format n(roff), l(atex), h(tml), t(exinfo) or a(utodoc), with comma-separated " ++
      "driver options, e.g. \x60t,s2,C\x60"
  | manualName => "Manual name for the page header"
  | manualSection => "Manual section, also used as the file extension"
  | exclude => "Leave out a section; may be repeated"
  | placement => "Per-category output: f, v, F or V followed by [subdir][.ext]"
  | prototype => "Prototype layout given as an example, e.g. \"int f(a, b)\""
  | config => "YAML file with default options; flags override it"

end Setting
end CommandLine
end DeclManual
