import DeclManual.CommandLine.Flag

/-!
# Faulty command lines

The causes for which arguments are refused, and their wording.
-/

namespace DeclManual
namespace CommandLine

/-- Why arguments are refused. -/
inductive ArgumentError where
  | unknown (argument : String)
  /-- A flag that must not be repeated was given twice. -/
  | repeated (usage : String)
  | missingValue (usage : String)
  | unneededValue (usage value : String)
  | invalidValue (usage value reason : String)
  /-- Help was asked for instead of a run. -/
  | helpAsked
deriving DecidableEq, Repr, Inhabited

namespace ArgumentError

/-- The wording of an error. -/
def message : ArgumentError -> String
  | unknown argument => "unexpected argument '" ++ argument ++ "' found"
  | repeated usage => "the argument '" ++ usage ++ "' cannot be used multiple times"
  | missingValue usage => "a value is required for '" ++ usage ++ "' but none was supplied"
  | unneededValue usage value =>
    "unexpected value '" ++ value ++ "' for '" ++ usage ++ "' found; no more were expected"
  | invalidValue usage value reason =>
    "invalid value '" ++ value ++ "' for '" ++ usage ++ "': " ++ reason
  | helpAsked => ""

end ArgumentError
end CommandLine
end DeclManual
