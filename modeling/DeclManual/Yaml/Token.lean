import DeclManual.Yaml.Scalar

/-!
# Tokens of YAML

A file is cut into scalars, properties of nodes and marks of structure.  Blocks
have no brackets; their starts and ends follow from the indentation.
-/

namespace DeclManual
namespace Yaml

/-- A token of a file. -/
inductive Token where
  | versionDirective (major minor : Nat)
  | tagDirective (handle lead : String)
  | documentStart
  | documentEnd
  | blockSequenceStart
  | blockMappingStart
  | blockEnd
  | flowSequenceStart
  | flowSequenceEnd
  | flowMappingStart
  | flowMappingEnd
  /-- The dash before an entry of a block. -/
  | blockEntry
  /-- The comma between entries in brackets. -/
  | flowEntry
  | key
  | value
  | alias (name : String)
  | anchor (name : String)
  | tag (handle suffix : String)
  | scalar (style : Style) (text : String)
deriving DecidableEq, Repr, Inhabited

/-! ## Anchors, tags and directives -/

/-- Reads the name of an anchor or alias. -/
def anchorName (place : Place) : Except Fault (String × Place) :=
  let (name, after) := place.takeWhile isWord
  let closed :=
    endsWord after.rest ||
      (after.peek.map fun c => ['?', ':', ',', ']', '\x7d', '%', '@', '\x60'].contains c).getD false
  if name.isEmpty || !closed then .error .faultyAnchor else .ok (String.ofList name, after)

/-- The characters of a tag; commas and brackets only where nothing else can
follow. -/
def isTagCharacter (wide : Bool) (c : Char) : Bool :=
  isWord c || ";/?:@&=+$.%!~*'()".toList.contains c || (wide && [',', '[', ']'].contains c)

/-- Decodes the bytes of percent escapes at the start of a text. -/
def percentBytes : List Char -> List UInt8 × List Char
  | '%' :: high :: low :: rest =>
    match hexNumber? [high, low] with
    | some byte =>
      let (bytes, left) := percentBytes rest
      (UInt8.ofNat byte :: bytes, left)
    | none => ([], '%' :: high :: low :: rest)
  | rest => ([], rest)

/-- Decodes the percent escapes of a tag, in at most `fuel` steps. -/
def percentDecode? : (fuel : Nat) -> List Char -> Option (List Char)
  | 0, _ => some []
  | _, [] => some []
  | fuel + 1, '%' :: rest =>
    match percentBytes ('%' :: rest) with
    | ([], _) => none
    | (bytes, left) => do
      let text ← String.fromUTF8? ⟨bytes.toArray⟩
      return text.toList ++ (← percentDecode? fuel left)
  | fuel + 1, c :: rest => (percentDecode? fuel rest).map (c :: ·)

/-- Reads the characters of a tag. -/
def tagText (wide : Bool) (place : Place) : Except Fault (List Char × Place) :=
  let (text, after) := place.takeWhile (isTagCharacter wide)
  match percentDecode? text.length text with
  | some decoded => .ok (decoded, after)
  | none => .error .faultyTag

/-- Reads a tag handle, such as `!` or `!name!`. -/
def tagHandle (place : Place) : Except Fault (List Char × Place) :=
  if place.sees '!' then
    let (name, after) := (place.skip 1).takeWhile isWord
    if after.sees '!' then .ok ('!' :: name ++ ['!'], after.skip 1)
    else .ok ('!' :: name, after)
  else .error .faultyTag

/-- Reads a tag without checking what follows it. -/
def tagParts (place : Place) : Except Fault (Token × Place) := do
  if ['!', '<'].isPrefixOf place.rest then
    let (text, after) ← tagText true (place.skip 2)
    if text.isEmpty || !after.sees '>' then throw .faultyTag
    return (.tag "" (String.ofList text), after.skip 1)
  else
    let (handle, after) ← tagHandle place
    if handle.length > 1 && handle.getLast? == some '!' then
      let (suffix, after) ← tagText false after
      if suffix.isEmpty then throw .faultyTag
      return (.tag (String.ofList handle) (String.ofList suffix), after)
    else
      let (more, after) ← tagText false after
      match handle.drop 1 ++ more with
      | [] => return (.tag "" "!", after)
      | suffix => return (.tag "!" (String.ofList suffix), after)

/-- Reads a tag, which ends a word. -/
def tag (inFlow : Bool) (place : Place) : Except Fault (Token × Place) := do
  let (token, after) ← tagParts place
  if endsWord after.rest || (inFlow && after.sees ',') then return (token, after)
  else throw .faultyTag

/-- Reads a number of at most nine digits. -/
def versionNumber (place : Place) : Except Fault (Nat × Place) :=
  let (digits, after) := place.takeWhile Char.isDigit
  if digits.isEmpty || 9 < digits.length then .error .faultyDirective
  else .ok (digits.foldl (fun number digit => 10 * number + (digit.toNat - '0'.toNat)) 0, after)

/-- Reads the values of a directive after its name. -/
def directiveValues (name : String) (place : Place) : Except Fault (Token × Place) := do
  if name == "YAML" then
    let (major, after) ← versionNumber place.skipGap
    if !after.sees '.' then throw .faultyDirective
    let (minor, after) ← versionNumber (after.skip 1)
    return (.versionDirective major minor, after)
  else if name == "TAG" then
    let (handle, after) ← tagHandle place.skipGap
    if handle.length > 1 && handle.getLast? != some '!' then throw .faultyDirective
    if !(after.peek.map isGap).getD false then throw .faultyDirective
    let (lead, after) ← tagText true after.skipGap
    if lead.isEmpty || !endsWord after.rest then throw .faultyDirective
    return (.tagDirective (String.ofList handle) (String.ofList lead), after)
  else throw .faultyDirective

/-- Reads a directive after its percent sign, up to the next line. -/
def directive (place : Place) : Except Fault (Token × Place) := do
  let (name, after) := place.takeWhile isWord
  if name.isEmpty || !endsWord after.rest then throw .faultyDirective
  let (token, after) ← directiveValues (String.ofList name) after
  let after := after.skipGap
  let after := if after.sees '#' then after.skipToLineEnd else after
  if endsLine after.rest then return (token, after.skipBreak) else throw .faultyDirective

end Yaml
end DeclManual
