import DeclManual.Decl.Declarator
import DeclManual.Markup.Call
import DeclManual.Text.Search

/-!
# Prototypes

Declarators and parameters as they are written on a page.  A function is written
from its template, around the declarator that its parameter list applies to.  A
prototype with several parameters can be spread over lines, as a layout says.
-/

namespace DeclManual
namespace Page

open Decl
open Markup

/-- Writes a layout string, and breaks the output line after every newline. -/
def layoutCalls (text : String) : List Call :=
  text.toList.flatMap fun c => if c == '\n' then [.character c, .breakLine] else [.character c]

/-- Drops leading underscores, but never the last character. -/
def dropUnderscores : List Char -> List Char
  | '_' :: c :: rest => dropUnderscores (c :: rest)
  | name => name

/-- A character with which a name may start in a declarator. -/
def startsName (c : Char) : Bool :=
  c == '_' || c.isAlphanum

/-- Writes the text of a declarator, unless underscores are kept without those at
the start of the name. -/
def declaratorText (text : String) (keepUnderscores : Bool) : List Call :=
  if keepUnderscores then [.text text]
  else
    let before := text.toList.takeWhile (!startsName ·)
    let name := text.toList.dropWhile (!startsName ·)
    characters before ++ [.text (String.ofList (dropUnderscores name))]

/-- What stands in a text before and after a name, if the name is in it. -/
def splitAtName? (name : Option String) (text : String) :
    Option (String × List Char × List Char) :=
  match name with
  | none => none
  | some name =>
    if name.isEmpty then none
    else
      (Text.splitAtWord? name.toList text.toList).map fun (before, after) =>
        (name, before, after)

/-- Writes the plain declarator that a parameter list applies to. -/
def innerText (layout : Layout) (spread : Bool) (name : Option String) (text : String) :
    List Call :=
  match splitAtName? name text with
  | some (name, before, after) =>
    [.text (String.ofList before)] ++
      (if spread && layout.declaratorPrefix != " " then layoutCalls layout.declaratorPrefix
        else []) ++
      declaratorText name spread ++
      [.text (String.ofList after)] ++
      if spread then layoutCalls layout.declaratorSuffix else []
  | none => [.text text]

mutual

/-- Writes a declarator from its template. -/
def functionCalls (layout : Layout) (spread : Bool) : Declarator -> List Call
  | { name, text, parameters, inner, .. } =>
    match Text.splitAtWord? ['%', 's'] (text.getD "%s()").toList with
    | none => []
    | some (before, after) =>
      [.text (String.ofList before)] ++ innerCalls layout spread name inner ++
        match Text.splitAtWord? ['(', ')'] after with
        | none => []
        | some (between, rest) =>
          [.text (String.ofList between), .character '('] ++
            (if takesParameters parameters then
              (if spread then layoutCalls layout.firstParameterPrefix else []) ++
                parametersCalls layout spread true parameters ++
                if spread then layoutCalls layout.lastParameterSuffix else []
            else [.text "void"]) ++
            [.character ')', .text (String.ofList rest)]

/-- Writes the declarator that a parameter list applies to. -/
def innerCalls (layout : Layout) (spread : Bool) (name : Option String) :
    Option Declarator -> List Call
  | none => []
  | some inner =>
    if inner.isFunction then functionCalls layout spread inner
    else innerText layout spread name (inner.text.getD "")

/-- Writes parameters with commas between them. -/
def parametersCalls (layout : Layout) (spread isFirst : Bool) : List Parameter -> List Call
  | [] => []
  | parameter :: rest =>
    (if isFirst then []
      else .character ',' :: if spread then layoutCalls layout.middleParameterPrefix else []) ++
      parameterCalls layout parameter ++ parametersCalls layout spread false rest

/-- Writes a parameter on one line.  The type of an untyped parameter is shown as
`int`. -/
def parameterCalls (layout : Layout) : Parameter -> List Call
  | { spec, declarator, .. } =>
    (match spec.text with
      | some text => [Call.text text]
      | none =>
        if declarator.text.isSome && !declarator.isEllipsis then [.text "int "] else []) ++
      if declarator.inner.isSome then
        (if spec.text.isSome then [Call.character ' '] else []) ++
          functionCalls layout false declarator
      else
        match declarator.text with
        | some text =>
          (if spec.text.isSome then [Call.character ' '] else []) ++ declaratorText text false
        | none => []

end

/-- Writes a declarator, spread over lines on demand. -/
def declaratorCalls (layout : Layout) (spread : Bool) (declarator : Declarator) : List Call :=
  if declarator.inner.isSome then functionCalls layout spread declarator
  else
    match declarator.text with
    | some text => declaratorText text spread
    | none => []

end Page
end DeclManual
