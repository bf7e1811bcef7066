import DeclManual.Yaml.Character

/-!
# Places in a text

A place is what is left of a text, with the line and column that were reached.
Line breaks of every kind count as one line.
-/

namespace DeclManual
namespace Yaml

/-- A place in a text. -/
structure Place where
  rest : List Char
  /-- The number of characters before the place. -/
  index : Nat := 0
  line : Nat := 0
  column : Nat := 0
deriving DecidableEq, Repr, Inhabited

/-- Cuts a text where a test on what is left holds for the first time. -/
def takeUntil (stop : List Char -> Bool) : List Char -> List Char × List Char
  | [] => ([], [])
  | c :: rest =>
    if stop (c :: rest) then ([], c :: rest)
    else
      let (taken, left) := takeUntil stop rest
      (c :: taken, left)

namespace Place

/-- The place after some characters of the same line. -/
def skip (place : Place) (count : Nat) : Place :=
  { place with
    rest := place.rest.drop count
    index := place.index + count
    column := place.column + count }

/-- Takes the characters of the line before a test on what is left holds. -/
def takeUntil (place : Place) (stop : List Char -> Bool) : List Char × Place :=
  let (taken, left) := Yaml.takeUntil stop place.rest
  (taken,
    { place with
      rest := left
      index := place.index + taken.length
      column := place.column + taken.length })

/-- Takes the characters of the line that a test accepts. -/
def takeWhile (place : Place) (test : Char -> Bool) : List Char × Place :=
  place.takeUntil fun rest => !(rest.head?.map test).getD false

/-- The place after the blanks of the line. -/
def skipGap (place : Place) : Place :=
  (place.takeWhile isGap).2

/-- The place at the end of the line. -/
def skipToLineEnd (place : Place) : Place :=
  (place.takeUntil endsLine).2

/-- The place after a number of characters that start the next line. -/
def newLine (place : Place) (count : Nat) : Place :=
  { rest := place.rest.drop count
    index := place.index + count
    line := place.line + 1
    column := 0 }

/-- Takes a line break.  It reads as a newline, but for the two separators of
Unicode, which stand for themselves. -/
def takeBreak (place : Place) : List Char × Place :=
  match place.rest with
  | '\r' :: '\n' :: _ => (['\n'], place.newLine 2)
  | '\u2028' :: _ => (['\u2028'], place.newLine 1)
  | '\u2029' :: _ => (['\u2029'], place.newLine 1)
  | c :: _ => if isBreak c then (['\n'], place.newLine 1) else ([], place)
  | [] => ([], place)

/-- The place after a line break, if there is one. -/
def skipBreak (place : Place) : Place :=
  place.takeBreak.2

/-- The next character. -/
def peek (place : Place) : Option Char :=
  place.rest.head?

/-- Whether a character comes next. -/
def sees (place : Place) (c : Char) : Bool :=
  place.peek == some c

/-- Whether a line starts here with three given characters that stand alone. -/
def seesMarker (place : Place) (mark : Char) : Bool :=
  place.column == 0 && [mark, mark, mark].isPrefixOf place.rest && endsWord (place.rest.drop 3)

/-- Whether a line that starts or ends a document starts here. -/
def atDocumentMarker (place : Place) : Bool :=
  place.seesMarker '-' || place.seesMarker '.'

end Place
end Yaml
end DeclManual
