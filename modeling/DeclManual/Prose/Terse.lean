import DeclManual.Text.Blank
import DeclManual.Text.Lines

/-!
# The terse line of a group

Grouped pages are described by the first line of the first comment, starting
after a run of dashes between blanks when there is one:
`strings - string utilities` is described as `string utilities`.
-/

namespace DeclManual
namespace Prose

/-- How much of a run of dashes between blanks has been seen. -/
inductive DashScan where
  | stuff
  | leadBlank
  | dash
  | trailBlank
deriving DecidableEq, Repr

/-- The text that follows the first run of dashes between blanks. -/
def afterDashes? : DashScan -> List Char -> Option (List Char)
  | _, [] => none
  | .stuff, c :: rest =>
    afterDashes? (if Text.isAsciiBlank c then .leadBlank else .stuff) rest
  | .leadBlank, c :: rest =>
    afterDashes?
      (if c = '-' then .dash else if Text.isAsciiBlank c then .leadBlank else .stuff) rest
  | .dash, c :: rest =>
    afterDashes?
      (if Text.isAsciiBlank c then .trailBlank else if c = '-' then .dash else .stuff) rest
  | .trailBlank, c :: rest =>
    if Text.isAsciiBlank c then afterDashes? .trailBlank rest else some (c :: rest)

/-- The terse line taken from a comment. -/
def terseOf (comment : String) : String :=
  let text := comment.toList
  String.ofList (Text.firstLine ((afterDashes? .stuff text).getD text))

end Prose
end DeclManual
