/-!
# Lines

Cutting a text at its newlines.  `splitOn` keeps every piece, so that joining
the pieces gives the text back; `lines` reads a text as a sequence of ended
lines, where the last newline opens no further line.
-/

namespace DeclManual
namespace Text

/-- The pieces of a text between the occurrences of a separator; there is
always at least one. -/
def splitOn (separator : Char) : List Char -> List (List Char)
  | [] => [[]]
  | c :: rest =>
    if c = separator then [] :: splitOn separator rest
    else
      match splitOn separator rest with
      | [] => [[c]]
      | piece :: pieces => (c :: piece) :: pieces

/-- The pieces of a text, written with a separator between them. -/
def joinWith (separator : List Char) : List (List Char) -> List Char
  | [] => []
  | [piece] => piece
  | piece :: pieces => piece ++ separator ++ joinWith separator pieces

/-- The lines of a text, each with the newline that ends it; only the last may
lack one. -/
def splitInclusive : List Char -> List (List Char)
  | [] => []
  | c :: rest =>
    if c = '\n' then [c] :: splitInclusive rest
    else
      match splitInclusive rest with
      | [] => [[c]]
      | line :: lines => (c :: line) :: lines

/-- A line without its newline, or without a carriage return and newline. -/
def dropLineEnd (line : List Char) : List Char :=
  match line.reverse with
  | '\n' :: '\r' :: rest => rest.reverse
  | '\n' :: rest => rest.reverse
  | _ => line

/-- The lines of a text without their ends. -/
def lines (text : List Char) : List (List Char) :=
  (splitInclusive text).map dropLineEnd

/-- The first line of a text. -/
def firstLine (text : List Char) : List Char :=
  text.takeWhile (· != '\n')

theorem splitOn_ne_nil (separator : Char) (text : List Char) :
    splitOn separator text ≠ [] := by
  cases text with
  | nil => simp [splitOn]
  | cons c rest =>
    unfold splitOn
    split
    · simp
    · split <;> simp

/-- Joining the pieces with the separator gives the text back. -/
theorem joinWith_splitOn (separator : Char) (text : List Char) :
    joinWith [separator] (splitOn separator text) = text := by
  induction text with
  | nil => rfl
  | cons c rest ih =>
    unfold splitOn
    split
    · rename_i equal
      subst equal
      cases pieces : splitOn c rest with
      | nil => exact absurd pieces (splitOn_ne_nil c rest)
      | cons piece more =>
        rw [pieces] at ih
        simp [joinWith, ih]
    · split
      · rename_i none
        exact absurd none (splitOn_ne_nil separator rest)
      · rename_i piece more some
        rw [some] at ih
        cases more with
        | nil => simpa [joinWith] using ih
        | cons next others => simpa [joinWith] using ih

/-- The lines with their ends make up the text. -/
theorem flatten_splitInclusive (text : List Char) :
    (splitInclusive text).flatten = text := by
  induction text with
  | nil => rfl
  | cons c rest ih =>
    unfold splitInclusive
    split
    · simp [ih]
    · split
      · rename_i none
        rw [none] at ih
        simp at ih
        simp [← ih]
      · rename_i line more some
        rw [some] at ih
        simpa using ih

end Text
end DeclManual
