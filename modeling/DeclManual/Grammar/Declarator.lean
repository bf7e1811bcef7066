import DeclManual.Grammar.Specifier

/-!
# Declarators and parameter lists

Declarators nest: in parentheses, and through the parameters of functions.  The
functions that read them call one another, and each call spends one unit of fuel.
No more than six calls are made per token, so that the fuel of a reading is
computed from the number of tokens left.
-/

namespace DeclManual
namespace Grammar

open Decl
open Source (Token)

/-- The fuel with which any declarator at the cursor can be read. -/
def Cursor.fuel (cursor : Cursor) : Nat :=
  6 * (cursor.rest.length + 2)

/-- The rest of a pointer operator: qualifiers, attributes and further stars, at
most `count` of them. -/
def pointerTail : (count : Nat) -> (text : String) -> Parse String
  | 0, _ => throw .exhausted
  | count + 1, text => do
    let word := (← peek).text
    if ← sees "*" then
      discard take
      pointerTail count (text ++ "*")
    else if qualifiers.contains word then
      discard take
      pointerTail count (text ++ word ++ " ")
    else if attributes.contains word then
      skipAttributes
      pointerTail count text
    else return text

/-- Pointer operators with their qualifiers, such as `*const `. -/
def pointer : Parse (Option String) := do
  if (← accept "*").isSome then
    return some (← pointerTail (← get).rest.length "*")
  else return none

/-- Whether the parenthesis at the cursor opens a nested abstract declarator
rather than a parameter list. -/
def opensNested (cursor : Cursor) : Bool :=
  let next := cursor.peekNth 1
  next.hasText "*" || next.hasText "(" || next.hasText "[" ||
    (next.isWord && !isKeyword next.text && !cursor.session.isTypedefName next.text)

/-- The text of tokens, with a space between two words. -/
def runText : (afterWord : Bool) -> List Token -> String
  | _, [] => ""
  | afterWord, token :: rest =>
    let word := token.kind == .identifier || token.kind == .number
    (if word && afterWord then " " else "") ++ token.text ++ runText word rest

/-- The text of an array suffix such as `[MAX + 1]`. -/
def bracketText : Parse String := do
  let before := (← get).rest
  skipBalanced "[" "]"
  let after := (← get).rest
  return runText false (before.take (before.length - after.length))

/-- Whether identifiers divided by commas, up to a parenthesis, are followed by
the parameter declarations or the body of a definition. -/
def identifierListRun (session : Session) : List Token -> Bool
  | name :: separator :: rest =>
    if !name.isWord || isKeyword name.text || session.isTypedefName name.text then false
    else if separator.hasText "," then identifierListRun session rest
    else if separator.hasText ")" then
      match rest with
      | after :: _ => after.hasText "\x7b" || after.isWord
      | [] => false
    else false
  | _ => false

/-- Gives trailing comments to the last of some parameters. -/
def commentParameters (parameters : List Parameter) (comments : List String) :
    Parse (List Parameter) :=
  act fun session => session.commentLastParameterAll parameters comments

/-- The comment before an item, by default the one after the opening bracket of
its list; and what is left of the latter. -/
def itemComment (own leading : Option String) : Option String × Option String :=
  match own with
  | some comment => (some comment, leading)
  | none => (leading, none)

/-- An identifier list through its closing parenthesis, of at most `count`
identifiers. -/
def identifierList :
    (count : Nat) -> (leading : Option String) -> List Parameter -> Parse (List Parameter)
  | 0, _, _ => throw .exhausted
  | count + 1, leading, parameters => do
    let name ← take
    let (before, leading) := itemComment name.commentBefore leading
    let after ← trailingComments ","
    let parameter ← act fun session => session.identifierParameter name.text before after.head?
    let parameters ← commentParameters (parameters ++ [parameter]) after.tail
    if (← get).justTook "," then identifierList count leading parameters
    else
      discard (expect ")")
      return parameters

/-- The declarator that a suffix is applied to. -/
def suffixBase (declarator : Option Declarator) : Declarator :=
  declarator.getD (.ofText (some "") none)

/-- A pointer operator with the declarator it applies to. -/
def withPointer (pointer : Option String) (direct : Option Declarator) : Option Declarator :=
  match pointer, direct with
  | none, direct => direct
  | some pointer, some direct => some (direct.pointerTo pointer)
  | some pointer, none =>
    some (.ofText (some (String.ofList (Text.trimEnd pointer.toList))) none)

mutual

/-- A declarator; none if it is abstract and empty. -/
def declarator : (fuel : Nat) -> (abstractAllowed : Bool) -> Parse (Option Declarator)
  | 0, _ => throw .exhausted
  | fuel + 1, abstractAllowed => do
    let operator ← pointer
    let direct ← directDeclarator fuel abstractAllowed
    return withPointer operator direct

/-- A declarator without a pointer operator in front. -/
def directDeclarator : (fuel : Nat) -> (abstractAllowed : Bool) -> Parse (Option Declarator)
  | 0, _ => throw .exhausted
  | fuel + 1, abstractAllowed => do
    let cursor ← get
    if cursor.peek.isWord && !isKeyword cursor.peek.text then
      let name ← take
      suffixes fuel (some (.identifier name.text))
    else if cursor.peek.hasText "(" && (!abstractAllowed || opensNested cursor) then
      discard take
      let inner ← declarator fuel abstractAllowed
      discard (expect ")")
      suffixes fuel (some (suffixBase inner).parenthesized)
    else if abstractAllowed then suffixes fuel none
    else fail "expected declarator"

/-- The array and parameter suffixes of a declarator. -/
def suffixes : (fuel : Nat) -> Option Declarator -> Parse (Option Declarator)
  | 0, _ => throw .exhausted
  | fuel + 1, base => do
    if ← sees "[" then
      let suffix ← bracketText
      suffixes fuel (some ((suffixBase base).arrayOf suffix))
    else if ← sees "(" then
      let parameters ← parameterList fuel
      suffixes fuel (some (.function (suffixBase base) parameters))
    else if attributes.contains (← peek).text then
      skipAttributes
      suffixes fuel base
    else return base

/-- A parameter list in parentheses. -/
def parameterList : (fuel : Nat) -> Parse (List Parameter)
  | 0 => throw .exhausted
  | fuel + 1 => do
    let opener ← expect "("
    if (← accept ")").isSome then return []
    else
      let cursor ← get
      if identifierListRun cursor.session cursor.rest then
        identifierList cursor.rest.length opener.commentAfter []
      else parameters fuel opener.commentAfter []

/-- The parameters of a list through its closing parenthesis. -/
def parameters :
    (fuel : Nat) -> (leading : Option String) -> List Parameter -> Parse (List Parameter)
  | 0, _, _ => throw .exhausted
  | fuel + 1, leading, read => do
    let (before, leading) := itemComment (← peek).commentBefore leading
    let (spec, shape) ← parameterParts fuel
    let after ← trailingComments ","
    let parameter ← act fun session => session.newParameter spec shape before after.head?
    let read ← commentParameters (read ++ [parameter]) after.tail
    if (← get).justTook "," then parameters fuel leading read
    else
      discard (expect ")")
      return read

/-- The specifier and the declarator of one parameter. -/
def parameterParts : (fuel : Nat) -> Parse (Option Spec × Option Declarator)
  | 0 => throw .exhausted
  | fuel + 1 => do
    if (← accept "...").isSome then return (some (.untexted .junk), some .ellipsis)
    else
      let specifiers ← declarationSpecifiers .parameter
      let shape ← declarator fuel true
      if specifiers.isNone && shape.isNone then fail "expected parameter"
      else return (specifiers.map (·.spec), shape)

end

/-- A declarator that has to be there. -/
def requiredDeclarator : Parse Declarator := do
  match ← declarator (← get).fuel false with
  | some declarator => return declarator
  | none => fail "expected declarator"

end Grammar
end DeclManual
