import DeclManual.Text.Ascii
import DeclManual.Text.Blank
import DeclManual.Text.Lines

/-!
# Returns paragraphs

A description may end in a paragraph that starts with the word "returns", in any
case.  It is moved to a section of its own.
-/

namespace DeclManual
namespace Prose

/-- The word that opens a returns paragraph. -/
def returnsWord : List Char := "returns".toList

/-- The lines before the first that starts with the word, and the lines from
there on. -/
def splitAtReturns? : List (List Char) -> Option (List (List Char) × List (List Char))
  | [] => none
  | line :: rest =>
    if Text.startsIgnoringCase returnsWord line then some ([], line :: rest)
    else (splitAtReturns? rest).map fun parts => (line :: parts.1, parts.2)

/-- A text, unless it is empty. -/
def nonEmpty? (text : List Char) : Option String :=
  if text.isEmpty then none else some (String.ofList text)

/-- Separates a trailing returns paragraph from a description: what stands before
it, and what follows its first word. -/
def splitReturns? (comment : String) : Option (Option String × Option String) :=
  (splitAtReturns? (Text.splitInclusive comment.toList)).map fun (before, after) =>
    let text := (after.flatten.drop returnsWord.length).dropWhile fun c =>
      c == ':' || Text.isAsciiBlank c
    (nonEmpty? (Text.trimEnd before.flatten), nonEmpty? (Text.trimEnd text))

end Prose
end DeclManual
