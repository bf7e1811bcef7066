import DeclManual.Yaml.Node

/-!
# Shapes of nodes

Reading a node as a value of a given shape.  Where a text is asked for, every scalar
is one, so that numbers need no quotes; a switch has to be a plain word; what is left
out reads as an empty collection or as no text.
-/

namespace DeclManual
namespace Yaml
namespace Node

/-- The words for no value. -/
def isNullWord (text : String) : Bool :=
  ["null", "Null", "NULL", "~"].contains text

/-- The truth value of a word. -/
def boolOfWord? (text : String) : Option Bool :=
  if ["true", "True", "TRUE"].contains text then some true
  else if ["false", "False", "FALSE"].contains text then some false
  else none

/-- Whether a node is left out. -/
def isLeftOut : Node -> Bool
  | .scalar _ .plain text => text.isEmpty
  | _ => false

/-- Reads a text. -/
def asText : Node -> Except Fault String
  | .scalar _ _ text => .ok text
  | _ => .error (.wrongShape "a string")

/-- Reads a switch. -/
def asBool : Node -> Except Fault Bool
  | .scalar tag style text =>
    let accepted :=
      style == .plain || (style == .literal && tag == some "tag:yaml.org,2002:bool")
    match accepted, boolOfWord? text with
    | true, some value => .ok value
    | _, _ => .error (.wrongShape "a boolean")
  | _ => .error (.wrongShape "a boolean")

/-- Reads a text that may be missing. -/
def asOptionalText : Node -> Except Fault (Option String)
  | .scalar tag .plain text =>
    match tag with
    | some "tag:yaml.org,2002:null" =>
      if isNullWord text then .ok none else .error (.wrongShape "null")
    | some _ => .ok (some text)
    | none => .ok (if text.isEmpty || isNullWord text then none else some text)
  | node => node.asText.map some

/-- Reads a sequence of texts. -/
def asTexts (node : Node) : Except Fault (List String) :=
  match node with
  | .sequence _ entries => entries.mapM asText
  | _ => if node.isLeftOut then .ok [] else .error (.wrongShape "a sequence")

/-- Whether a node stands for nothing beside its tag. -/
def isUnit : Node -> Bool
  | .scalar _ .plain text => text.isEmpty || isNullWord text
  | _ => false

/-- The name that a tag of the document's own gives. -/
def localTag? : Option String -> Option String
  | some tag =>
    match tag.toList with
    | ['!'] => some tag
    | '!' :: name => some (String.ofList name)
    | _ => none
  | none => none

/-- Reads one of some names, given as a text or as a tag of nothing. -/
def asChoice {α : Type} (ofName? : String -> Option α) (node : Node) : Except Fault α := do
  let name ←
    match node with
    | .scalar tag style text =>
      match localTag? tag with
      | none => pure text
      | some name =>
        if isUnit (.scalar none style text) then pure name else throw (.wrongShape "null")
    | _ => throw (.wrongShape "a name")
  match ofName? name with
  | some choice => return choice
  | none => throw (.unknownChoice name)

/-- Reads the fields of a record. -/
def asFields (node : Node) : Except Fault (List (String × Node)) :=
  match node with
  | .mapping _ entries => entries.mapM fun (key, value) => return (← key.asText, value)
  | _ => if node.isLeftOut then .ok [] else .error (.wrongShape "a mapping")

end Node
end Yaml
end DeclManual
