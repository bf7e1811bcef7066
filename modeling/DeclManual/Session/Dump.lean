import DeclManual.Json.Value
import DeclManual.Session.Basic

/-!
# Declarations as JSON

What a session has read, in the form in which other programs get it.  Keys are
sorted, and fields without a value are left out.
-/

namespace DeclManual

open Json (Value field? flag? ofOption)

namespace Decl

/-- A specifier as JSON. -/
def Spec.toJson (spec : Spec) : Value :=
  .object <|
    (match spec.enumList with
      | some list => [("enum_list", .number list)]
      | none => []) ++
    [("flags", .string spec.flags.toText)] ++ field? "text" spec.text

/-- The name of a declarator's shape. -/
def Kind.name : Kind -> String
  | .simple => "simple"
  | .compound => "compound"
  | .function => "function"
  | .functionDef => "function_def"

mutual

/-- A declarator as JSON. -/
def Declarator.toJson : Declarator -> Value
  | { name, text, kind, parameters, comment, returnComment, inner } =>
    .object <|
      field? "comment" comment ++ innerJson inner ++ [("kind", .string kind.name)] ++
        field? "name" name ++
        (if parameters.isEmpty then [] else [("parameters", .array (parametersJson parameters))]) ++
        field? "return_comment" returnComment ++ field? "text" text

/-- The field of a wrapped declarator. -/
def innerJson : Option Declarator -> List (String × Value)
  | none => []
  | some inner => [("inner", inner.toJson)]

/-- Parameters as JSON. -/
def parametersJson : List Parameter -> List Value
  | [] => []
  | parameter :: rest => parameterJson parameter :: parametersJson rest

/-- A parameter as JSON. -/
def parameterJson : Parameter -> Value
  | { spec, declarator, suppress, duplicate } =>
    .object <|
      [("decl_spec", spec.toJson), ("declarator", declarator.toJson)] ++
        flag? "duplicate" duplicate ++ flag? "suppress" suppress

end

/-- An enumerator as JSON. -/
def Enumerator.toJson (enumerator : Enumerator) : Value :=
  .object <|
    field? "comment" enumerator.comment ++ field? "group_comment" enumerator.groupComment ++
      [("name", .string enumerator.name)]

/-- The lists of a store as JSON. -/
def EnumStore.listsJson (store : EnumStore) : Value :=
  .array (store.lists.map fun list => .array (list.map Enumerator.toJson))

end Decl

/-- A page as JSON. -/
def ManualPage.toJson (page : ManualPage) : Value :=
  .object
    [("decl_spec", page.spec.toJson), ("declarator", page.declarator.toJson),
      ("sourcefile", ofOption page.sourceFile)]

/-- The pages and enumerator lists of a session as JSON. -/
def Session.toJson (session : Session) : Value :=
  .object
    [("enums", .object [("lists", session.enums.listsJson)]),
      ("pages", .array (session.pages.map ManualPage.toJson))]

end DeclManual
