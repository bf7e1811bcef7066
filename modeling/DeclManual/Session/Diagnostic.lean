/-!
# Diagnostics

Conflicts found while declarations are read.  None of them stops the reading: the
offending comment or type is dropped and the conflict is recorded with the
position at which it was found.
-/

namespace DeclManual

/-- A conflict between comments or declarations. -/
inductive Conflict where
  | parameterComments (name : String)
  | declaratorComments (name : String)
  | enumeratorComments (name : String)
  /-- An old-style parameter declaration with comments before and after it. -/
  | parameterDeclarationComments
  /-- An old-style parameter declared in two ways. -/
  | parameterTypes (name : String)
  | orphanComment (comment : String)
  /-- An old-style definition declares a name missing from its identifier list. -/
  | missingArgument (name : String)
deriving DecidableEq, Repr, Inhabited

/-- The wording of a conflict. -/
def Conflict.message : Conflict -> String
  | .parameterComments name => "parameter '" ++ name ++ "' has multiple comments"
  | .declaratorComments name => "declarator '" ++ name ++ "' has multiple comments"
  | .enumeratorComments name => "enumerator '" ++ name ++ "' has multiple comments"
  | .parameterDeclarationComments => "parameter declaration has multiple comments"
  | .parameterTypes name => "parameter '" ++ name ++ "' has conflicting declarations"
  | .orphanComment comment => "comment '" ++ comment ++ "' applies to non-existent parameter"
  | .missingArgument name => "declared argument \"" ++ name ++ "\" is missing"

/-- A message with the position it belongs to. -/
structure Diagnostic where
  /-- The file; none for standard input. -/
  file : Option String
  line : Nat
  message : String
deriving DecidableEq, Repr, Inhabited

/-- The diagnostic as it is printed. -/
def Diagnostic.toText (diagnostic : Diagnostic) : String :=
  diagnostic.file.getD "stdin" ++ ":" ++ toString diagnostic.line ++ ": " ++ diagnostic.message

end DeclManual
