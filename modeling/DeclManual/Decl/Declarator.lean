import DeclManual.Decl.Spec

/-!
# Declarators and parameters

A declarator is the name-and-shape part of a declaration.  Applying a parameter
list wraps the declarator it applies to: the text of the result is a template in
which `%s` stands for the wrapped declarator and `()` for the parameter list.
`int (*signal(int, void (*)(int)))(int)` therefore nests two function
declarators, and `head` finds the one that holds the parameters of `signal`
itself.
-/

namespace DeclManual
namespace Decl

/-- The shape of a declarator. -/
inductive Kind where
  /-- A plain identifier, pointer or array. -/
  | simple
  /-- A parenthesised declarator that is not a function, such as the function
  pointer `(*handler)(int)`. -/
  | compound
  /-- A function prototype. -/
  | function
  /-- A function definition: a body follows. -/
  | functionDef
deriving DecidableEq, Repr, Inhabited

/-- One entry of a parameter list, over the type of its declarator. -/
structure ParameterOf (declaratorType : Type) where
  spec : Spec := {}
  declarator : declaratorType
  /-- Hidden on a grouped page because an identical parameter is shown. -/
  suppress : Bool := false
  /-- Shown with the name of its function because an identical parameter
  elsewhere on the page is documented differently. -/
  duplicate : Bool := false

/-- The name-and-shape part of a declaration. -/
structure Declarator where
  name : Option String := none
  /-- The source text or template; none for an abstract declarator. -/
  text : Option String := none
  kind : Kind := .simple
  parameters : List (ParameterOf Declarator) := []
  comment : Option String := none
  returnComment : Option String := none
  /-- The declarator that a parameter list is applied to. -/
  inner : Option Declarator := none

/-- One entry of a parameter list. -/
abbrev Parameter := ParameterOf Declarator

instance : Inhabited Declarator := ⟨{}⟩
instance : Inhabited Parameter := ⟨{ declarator := {} }⟩

/-- Whether a list declares parameters; `()` and `(void)` do not. -/
def takesParameters : List Parameter -> Bool
  | [] => false
  | [only] => only.declarator.text.isSome || only.spec.text != some "void"
  | _ => true

namespace Declarator

/-- The text of the ellipsis parameter. -/
def ellipsisText : String := "..."

/-- A simple declarator. -/
def ofText (text name : Option String) : Declarator :=
  { text, name }

/-- The declarator that names an identifier directly. -/
def identifier (name : String) : Declarator :=
  ofText (some name) (some name)

/-- The declarator with neither text nor name, as in `int f(double)`. -/
def abstract : Declarator := {}

/-- The declarator of `...` in a parameter list. -/
def ellipsis : Declarator :=
  ofText (some ellipsisText) none

/-- The shape of a parameter list applied to a declarator: a pointer to a
function if that declarator is parenthesised and no function, and otherwise a
function. -/
def appliedKind (inner : Declarator) : Kind :=
  match inner.kind with
  | .function | .functionDef => .function
  | .compound => .compound
  | .simple =>
    match inner.text.map String.toList with
    | some ('(' :: _) => .compound
    | _ => .function

/-- Applies a parameter list to a declarator. -/
def function (inner : Declarator) (parameters : List Parameter) : Declarator :=
  { name := inner.name, text := some "%s()", kind := inner.appliedKind, parameters,
    inner := some inner }

/-- Writes a pointer operator such as `*const ` before the declarator. -/
def pointerTo (declarator : Declarator) (pointer : String) : Declarator :=
  { declarator with text := some (pointer ++ declarator.text.getD "") }

/-- Wraps the declarator in parentheses. -/
def parenthesized (declarator : Declarator) : Declarator :=
  { declarator with text := some ("(" ++ declarator.text.getD "" ++ ")") }

/-- Writes an array suffix such as `[N]` after the declarator. -/
def arrayOf (declarator : Declarator) (suffix : String) : Declarator :=
  { declarator with text := some (declarator.text.getD "" ++ suffix) }

/-- The declarator that holds the parameter list of the declared name itself. -/
def head : Declarator -> Declarator
  | whole@{ inner := some inner, .. } => if inner.inner.isSome then inner.head else whole
  | whole => whole

/-- Changes the parameter list of the declared name itself. -/
def updateHead (change : List Parameter -> List Parameter) : Declarator -> Declarator
  | { name, text, kind, parameters, comment, returnComment, inner := some inner } =>
    if inner.inner.isSome then
      { name, text, kind, parameters, comment, returnComment,
        inner := some (inner.updateHead change) }
    else
      { name, text, kind, parameters := change parameters, comment, returnComment,
        inner := some inner }
  | { name, text, kind, parameters, comment, returnComment, inner := none } =>
    { name, text, kind, parameters := change parameters, comment, returnComment, inner := none }

/-- The parameters of the declared name itself. -/
def headParameters (declarator : Declarator) : List Parameter :=
  declarator.head.parameters

/-- Whether the declared name is a function. -/
def isFunction (declarator : Declarator) : Bool :=
  declarator.kind == .function || declarator.kind == .functionDef

/-- Whether the declared name takes parameters; `f()` and `f(void)` do not. -/
def hasParameters (declarator : Declarator) : Bool :=
  takesParameters declarator.headParameters

/-- Whether this is the declarator of `...`. -/
def isEllipsis (declarator : Declarator) : Bool :=
  declarator.text == some ellipsisText

/-- Whether any parameter of the declared name has a comment to show, or is
shown without one. -/
def hasDocumentedParameters (declarator : Declarator) (always : Bool) : Bool :=
  declarator.hasParameters &&
    declarator.headParameters.any fun parameter => always || parameter.declarator.comment.isSome

end Declarator

namespace ParameterOf

/-- A parameter with both marks clear. -/
def ofParts (spec : Spec) (declarator : Declarator) : Parameter :=
  { spec, declarator }

/-- The comment of a parameter. -/
def comment (parameter : Parameter) : Option String :=
  parameter.declarator.comment

/-- The name of a parameter, empty if it has none. -/
def nameText (parameter : Parameter) : String :=
  parameter.declarator.name.getD ""

/-- Whether two parameters are declared identically: with the same markers,
specifier text and declarator text. -/
def isIdentical (first second : Parameter) : Bool :=
  first.spec.flags == second.spec.flags &&
    first.spec.text == second.spec.text &&
    first.declarator.text == second.declarator.text

end ParameterOf
end Decl
end DeclManual
