import DeclManual.Options.Error

/-!
# Prototype layout

A prototype with several parameters is spread over lines.  The six strings of a
layout say what is written around its words.  A layout is given by an example
prototype: the separators around each word of the example become the strings.
-/

namespace DeclManual

/-- The strings written around the words of a spread prototype. -/
structure Layout where
  specPrefix : String := ""
  declaratorPrefix : String := " "
  declaratorSuffix : String := "\n"
  firstParameterPrefix : String := "\n\t"
  middleParameterPrefix : String := "\n\t"
  lastParameterSuffix : String := "\n"
deriving DecidableEq, Repr, Inhabited

namespace Layout

/-- Replaces `\n` and `\t`; any other escaped character stands for itself, and a
backslash at the end for nothing. -/
def unescape : List Char -> List Char
  | [] => []
  | '\\' :: 'n' :: rest => '\n' :: unescape rest
  | '\\' :: 't' :: rest => '\t' :: unescape rest
  | '\\' :: c :: rest => c :: unescape rest
  | ['\\'] => []
  | c :: rest => c :: unescape rest

/-- A character that may stand between the words of an example. -/
def isSeparator (c : Char) : Bool :=
  c.toNat < 128 && !c.isAlphanum

/-- The text after one character, which has to be there. -/
def skipOne? : List Char -> Option (List Char)
  | [] => none
  | _ :: rest => some rest

/-- The text after a word, given without its first character; something has to
follow. -/
def afterWord? (text : List Char) : Option (List Char) :=
  match text.dropWhile Char.isAlphanum with
  | [] => none
  | rest => some rest

/-- The separators at the start of a text, and the text after the first character
of the word that follows them. -/
def separators? (text : List Char) : Option (List Char × List Char) :=
  (skipOne? (text.dropWhile isSeparator)).map fun rest => (text.takeWhile isSeparator, rest)

/-- Reads the layout off an example without escapes. -/
def ofExample? (example_ : List Char) : Option Layout := do
  let (specPrefix, rest) <- separators? example_
  let rest <- afterWord? rest
  let (declaratorPrefix, rest) <- separators? rest
  let rest <- afterWord? rest
  let declaratorSuffix := rest.takeWhile (· != '(')
  let rest <- skipOne? (rest.dropWhile (· != '('))
  let (firstPrefix, rest) <- separators? rest
  let rest <- skipOne? (rest.dropWhile (· != ','))
  let (middlePrefix, rest) <- separators? rest
  let rest <- afterWord? rest
  return {
    specPrefix := String.ofList specPrefix
    declaratorPrefix := String.ofList declaratorPrefix
    declaratorSuffix := String.ofList declaratorSuffix
    firstParameterPrefix := String.ofList firstPrefix
    middleParameterPrefix := String.ofList middlePrefix
    lastParameterSuffix := String.ofList (rest.takeWhile (· != ')')) }

/-- Reads the layout off an example prototype such as `int f(a, b)`. -/
def ofTemplate (template : String) : Except OptionError Layout :=
  match ofExample? (unescape template.toList) with
  | some layout => .ok layout
  | none => .error (.invalidTemplate template)

end Layout
end DeclManual
