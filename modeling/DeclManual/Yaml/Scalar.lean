import DeclManual.Yaml.Fault
import DeclManual.Yaml.Place

/-!
# Reading scalars

A scalar is written plain, in quotes, or as an indented block.  A line break
inside a plain or quoted scalar folds to a blank, and further line breaks after
it are kept; a literal block keeps its lines, and a folded block joins them.
-/

namespace DeclManual
namespace Yaml

/-- How a scalar is written. -/
inductive Style where
  | plain
  | singleQuoted
  | doubleQuoted
  | literal
  | folded
deriving DecidableEq, Repr, Inhabited

/-! ## Gaps -/

/-- The blanks and line breaks between two words of a scalar. -/
structure Gap where
  /-- The blanks, as long as there is no line break. -/
  blanks : List Char := []
  /-- The first line break. -/
  first : Option (List Char) := none
  /-- The further line breaks. -/
  further : List Char := []
deriving DecidableEq, Repr, Inhabited

namespace Gap

/-- What a gap stands for. -/
def fold (gap : Gap) : List Char :=
  match gap.first with
  | none => gap.blanks
  | some ['\n'] => if gap.further.isEmpty then [' '] else gap.further
  | some first => first ++ gap.further

/-- Adds a line break. -/
def addBreak (gap : Gap) (text : List Char) : Gap :=
  match gap.first with
  | none => { gap with first := some text }
  | some _ => { gap with further := gap.further ++ text }

/-- Takes blanks and line breaks, at most `fuel` of them.  On a further line a tab
is refused before a column. -/
def takeUpTo (tabLimit : Int) : (fuel : Nat) -> Gap -> Place -> Except Fault (Gap × Place)
  | 0, gap, place => .ok (gap, place)
  | fuel + 1, gap, place =>
    match place.peek with
    | none => .ok (gap, place)
    | some c =>
      if isGap c then
        if gap.first.isSome then
          if c == '\t' && (place.column : Int) < tabLimit then .error .tabIndentation
          else takeUpTo tabLimit fuel gap (place.skip 1)
        else takeUpTo tabLimit fuel { gap with blanks := gap.blanks ++ [c] } (place.skip 1)
      else if isBreak c then
        let (text, next) := place.takeBreak
        takeUpTo tabLimit fuel (gap.addBreak text) next
      else .ok (gap, place)

/-- Takes all blanks and line breaks. -/
def take (tabLimit : Int) (gap : Gap) (place : Place) : Except Fault (Gap × Place) :=
  takeUpTo tabLimit place.rest.length gap place

end Gap

/-! ## Plain scalars -/

/-- The characters that end a plain scalar inside brackets. -/
def isFlowMark (c : Char) : Bool :=
  [',', '[', ']', '\x7b', '\x7d'].contains c

/-- Whether a plain scalar stops here, inside brackets or outside. -/
def stopsPlain (inFlow : Bool) : List Char -> Bool
  | [] => true
  | c :: rest =>
    isGap c || isBreak c || (c == ':' && endsWord rest) || (inFlow && isFlowMark c) ||
      -- such a colon is a fault, which is found where the word ends
      (inFlow && c == ':' && (rest.head?.map fun next => next == '?' || isFlowMark next).getD false)

/-- A scalar that has been read. -/
structure Scalar where
  text : List Char
  place : Place
  /-- Whether a line break follows the last word. -/
  endsWithBreak : Bool := false
deriving DecidableEq, Repr, Inhabited

/-- Reads the words of a plain scalar, at most `fuel` of them, after a text and a
gap.  Outside brackets the words of further lines have to be indented. -/
def plainWords (inFlow : Bool) (indent : Int) :
    (fuel : Nat) -> (text : List Char) -> Gap -> Place -> Except Fault Scalar
  | 0, text, gap, place => .ok { text, place, endsWithBreak := gap.first.isSome }
  | fuel + 1, text, gap, place => do
    let ended : Scalar := { text, place, endsWithBreak := gap.first.isSome }
    if place.atDocumentMarker || place.sees '#' then return ended
    let (word, after) := place.takeUntil (stopsPlain inFlow)
    if inFlow && after.sees ':' && !endsWord (after.rest.drop 1) then throw .unexpectedColon
    let (text, gap) := if word.isEmpty then (text, gap) else (text ++ gap.fold ++ word, {})
    match after.peek with
    | none => return { text, place := after, endsWithBreak := gap.first.isSome }
    | some c =>
      if !(isGap c || isBreak c) then
        return { text, place := after, endsWithBreak := gap.first.isSome }
      let (gap, next) ← gap.take indent after
      if !inFlow && (next.column : Int) < indent then
        return { text, place := next, endsWithBreak := gap.first.isSome }
      plainWords inFlow indent fuel text gap next

/-- Reads a plain scalar. -/
def plainScalar (inFlow : Bool) (indent : Int) (place : Place) : Except Fault Scalar :=
  plainWords inFlow indent (place.rest.length + 1) [] {} place

/-! ## Quoted scalars -/

/-- The character that a one-letter escape stands for. -/
def escaped? (c : Char) : Option Char :=
  match c with
  | '0' => some '\x00'
  | 'a' => some '\x07'
  | 'b' => some '\x08'
  | 't' | '\t' => some '\t'
  | 'n' => some '\n'
  | 'v' => some '\x0b'
  | 'f' => some '\x0c'
  | 'r' => some '\r'
  | 'e' => some '\x1b'
  | ' ' => some ' '
  | '"' => some '"'
  | '/' => some '/'
  | '\\' => some '\\'
  | 'N' => some '\u0085'
  | '_' => some '\u00a0'
  | 'L' => some '\u2028'
  | 'P' => some '\u2029'
  | _ => none

/-- The number of hexadecimal digits after an escape's letter. -/
def codeLength? (c : Char) : Option Nat :=
  match c with
  | 'x' => some 2
  | 'u' => some 4
  | 'U' => some 8
  | _ => none

/-- Reads an escape after its backslash. -/
def escape (place : Place) : Except Fault (Char × Place) :=
  match place.peek with
  | none => .error .unknownEscape
  | some letter =>
    match escaped? letter, codeLength? letter with
    | some c, _ => .ok (c, place.skip 1)
    | none, none => .error .unknownEscape
    | none, some length =>
      let digits := (place.rest.drop 1).take length
      match hexNumber? digits with
      | none => .error .invalidCharacterCode
      | some code =>
        if digits.length < length then .error .invalidCharacterCode
        else
          match charOfCode? code with
          | some c => .ok (c, place.skip (1 + length))
          | none => .error .invalidCharacterCode

/-- Goes past a gap inside quotes; a document may not end there. -/
def quotedGap (gap : Gap) (place : Place) : Except Fault (List Char × Place) := do
  let (gap, next) ← gap.take 0 place
  if next.atDocumentMarker then throw .unexpectedMarker
  return (gap.fold, next)

/-- Reads a quoted scalar up to its closing quote, in at most `fuel` steps. -/
def quotedText (single : Bool) :
    (fuel : Nat) -> (text : List Char) -> Place -> Except Fault Scalar
  | 0, _, _ => .error .unexpectedEnd
  | fuel + 1, text, place => do
    match place.rest with
    | [] => throw .unexpectedEnd
    | c :: rest =>
      if isGap c || isBreak c then
        let (folded, next) ← quotedGap {} place
        quotedText single fuel (text ++ folded) next
      else if single && c == '\'' && rest.head? == some '\'' then
        quotedText single fuel (text ++ ['\'']) (place.skip 2)
      else if c == (if single then '\'' else '"') then
        return { text, place := place.skip 1 }
      else if !single && c == '\\' && (rest.head?.map isBreak).getD false then
        let (folded, next) ← quotedGap { first := some [] } (place.skip 1).skipBreak
        quotedText single fuel (text ++ folded) next
      else if !single && c == '\\' then
        let (meant, next) ← escape (place.skip 1)
        quotedText single fuel (text ++ [meant]) next
      else quotedText single fuel (text ++ [c]) (place.skip 1)

/-- Reads a quoted scalar after its opening quote. -/
def quotedScalar (single : Bool) (place : Place) : Except Fault Scalar :=
  quotedText single (place.rest.length + 1) [] place

/-! ## Block scalars -/

/-- What happens to the line breaks at the end of a block. -/
inductive Chomping where
  /-- All of them go. -/
  | strip
  /-- The first of them stays. -/
  | clip
  /-- All of them stay. -/
  | keep
deriving DecidableEq, Repr, Inhabited

/-- The line that announces a block. -/
structure BlockHeader where
  chomping : Chomping := .clip
  /-- The indentation of the block below its surroundings, if it is given. -/
  increment : Option Nat := none
deriving DecidableEq, Repr, Inhabited

/-- The chomping that a sign asks for. -/
def chomping? : Option Char -> Option Chomping
  | some '+' => some .keep
  | some '-' => some .strip
  | _ => none

/-- Reads the indentation digit of a header. -/
def increment? (place : Place) : Except Fault (Option Nat × Place) :=
  match place.peek with
  | some c =>
    if c == '0' then .error .faultyBlockHeader
    else if c.isDigit then .ok (some (c.toNat - '0'.toNat), place.skip 1)
    else .ok (none, place)
  | none => .ok (none, place)

/-- Reads the header of a block after its mark, up to the next line. -/
def blockHeader (place : Place) : Except Fault (BlockHeader × Place) := do
  let (header, after) ←
    match chomping? place.peek with
    | some chomping => do
      let (increment, after) ← increment? (place.skip 1)
      pure ({ chomping, increment : BlockHeader }, after)
    | none => do
      let (increment, after) ← increment? place
      match increment, chomping? after.peek with
      | some _, some chomping => pure ({ chomping, increment : BlockHeader }, after.skip 1)
      | _, _ => pure ({ increment : BlockHeader }, after)
  let after := after.skipGap
  let after := if after.sees '#' then after.skipToLineEnd else after
  if endsLine after.rest then return (header, after.skipBreak) else throw .faultyBlockHeader

/-- Goes past the empty lines and the indentation before a line of a block, in at
most `fuel` steps.  As long as the indentation of the block is not known, the
deepest one is noted. -/
def blockBreaks (indent : Option Nat) :
    (fuel : Nat) -> (breaks : List Char) -> (deepest : Nat) -> Place ->
      Except Fault (List Char × Nat × Place)
  | 0, breaks, deepest, place => .ok (breaks, deepest, place)
  | fuel + 1, breaks, deepest, place => do
    let within (column : Nat) : Bool := (indent.map fun limit => decide (column < limit)).getD true
    let spaces := (place.rest.takeWhile (· == ' ')).length
    let allowed := (indent.map fun limit => limit - place.column).getD spaces
    let inner := place.skip (min spaces allowed)
    let deepest := max deepest inner.column
    if within inner.column && inner.sees '\t' then throw .tabIndentation
    match inner.peek with
    | some c =>
      if isBreak c then
        let (text, next) := inner.takeBreak
        blockBreaks indent fuel (breaks ++ text) deepest next
      else return (breaks, deepest, inner)
    | none => return (breaks, deepest, inner)

/-- A block that is being read. -/
structure BlockState where
  text : List Char := []
  /-- The line break after the last line. -/
  ending : List Char := []
  /-- The line breaks of empty lines after it. -/
  breaks : List Char := []
  /-- Whether the last line started with a blank. -/
  blankLine : Bool := false
  place : Place
deriving Inhabited

/-- Reads the lines of a block, at most `fuel` of them. -/
def blockLines (folds : Bool) (indent : Nat) :
    (fuel : Nat) -> BlockState -> Except Fault BlockState
  | 0, state => .ok state
  | fuel + 1, state => do
    if state.place.column != indent || state.place.rest.isEmpty then return state
    let startsBlank := (state.place.peek.map isGap).getD false
    let joined :=
      if folds && state.ending == ['\n'] && !state.blankLine && !startsBlank then
        if state.breaks.isEmpty then [' '] else []
      else state.ending
    let (line, after) := state.place.takeUntil endsLine
    let (ending, next) := after.takeBreak
    let (breaks, _, next) ← blockBreaks (some indent) (next.rest.length + 1) [] 0 next
    blockLines folds indent fuel
      { text := state.text ++ joined ++ state.breaks ++ line, ending, breaks,
        blankLine := startsBlank, place := next }

/-- Reads a block after its mark.  `outer` is the indentation of its surroundings. -/
def blockScalar (folds : Bool) (outer : Int) (place : Place) : Except Fault Scalar := do
  let (header, start) ← blockHeader place
  let given := header.increment.map fun increment => (max outer 0).toNat + increment
  let (breaks, deepest, first) ← blockBreaks given (start.rest.length + 1) [] 0 start
  let indent := given.getD (max (max deepest (outer + 1).toNat) 1)
  let state ← blockLines folds indent (first.rest.length + 1) { breaks, place := first }
  let ending := if header.chomping == .strip then [] else state.ending
  let breaks := if header.chomping == .keep then state.breaks else []
  return { text := state.text ++ ending ++ breaks, place := state.place }

end Yaml
end DeclManual
