import DeclManual.Files.Tree

/-!
# Faulty options

The causes for which options are refused, and their wording.
-/

namespace DeclManual

/-- Why options could not be loaded or understood. -/
inductive OptionError where
  | io (cause : Files.OsError)
  /-- The options file is not well formed, or a value in it has the wrong shape. -/
  | malformed (detail : String)
  | invalidTemplate (template : String)
  | invalidObjectOption (spec : String)
deriving DecidableEq, Repr, Inhabited

namespace OptionError

/-- The wording of an error. -/
def message : OptionError -> String
  | io cause => "I/O error: " ++ cause.message
  | malformed detail => "YAML error: " ++ detail
  | invalidTemplate template => "invalid prototype template: " ++ template
  | invalidObjectOption spec => "invalid object output option: " ++ spec

end OptionError
end DeclManual
