import DeclManual.CommandLine.Error

/-!
# Help

The text that explains the command line.
-/

namespace DeclManual
namespace CommandLine

/-- One line about how the program is called. -/
def usageLine : String := "Usage: c2man [OPTIONS] [FILES]..."

/-- The flag of an entry, below a letter that may be missing. -/
def helpFlag (letter? : Option Char) (usage : String) : String :=
  match letter? with
  | some letter =>
    let short := "-" ++ String.singleton letter
    if short.toList.isPrefixOf usage.toList then "  " ++ usage else "  " ++ short ++ ", " ++ usage
  | none => "      " ++ usage

/-- The column at which the descriptions of flags start. -/
def helpColumn : Nat := 23

/-- An entry of the list of flags. -/
def helpEntry (letter? : Option Char) (usage description : String) : String :=
  let flag := helpFlag letter? usage
  flag ++ String.ofList (List.replicate (helpColumn - flag.length) ' ') ++ description ++ "\n"

/-- The explanation of the command line. -/
def helpText : String :=
  "Generate manual pages from C declarations and their comments\n\n" ++ usageLine ++
    "\n\nArguments:\n" ++
    "  [FILES]...  C source or header files; standard input when none are given\n" ++
    "\nOptions:\n" ++
    String.join (Setting.all.map fun setting =>
      helpEntry setting.letter? setting.usage setting.description) ++
    String.join (Switch.all.map fun switch =>
      helpEntry switch.letter? switch.usage switch.description)

/-- What is written about faulty arguments. -/
def complaint (error : ArgumentError) : String :=
  "error: " ++ error.message ++ "\n\n" ++ usageLine ++
    "\n\nFor more information, try '--help'.\n"

end CommandLine
end DeclManual
