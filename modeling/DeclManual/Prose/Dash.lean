import DeclManual.Text.Blank
import DeclManual.Text.Encoding

/-!
# Leading names

A terse line may repeat the documented name before a dash, as in
`strlcpy - bounded copy`.  The dash counts only between blanks, so that
hyphenated words stay whole.
-/

namespace DeclManual
namespace Prose

/-- The number of characters up to the text after the first dash of a line, if
that dash stands between blanks and text follows it.  `previous` is the
character before the line's rest and `passed` the number of characters passed. -/
def dashEnd? (previous : Char) (passed : Nat) : List Char -> Option Nat
  | [] => none
  | c :: rest =>
    if c = '\n' then none
    else if c = '-' then
      let blanks := rest.takeWhile fun b => b != '\n' && Text.isAsciiBlank b
      let after := rest.drop blanks.length
      let blankFollows := (rest.head?.map Text.isAsciiBlank).getD false
      let textFollows := (after.head?.map (· != '\n')).getD false
      if Text.isAsciiBlank previous && blankFollows && textFollows then
        some (passed + 1 + blanks.length)
      else none
    else dashEnd? c (passed + 1) rest

/-- The number of characters of a leading `name - ` in a text; zero when there is
none. -/
def skipDash : List Char -> Nat
  | [] => 0
  | c :: rest => (dashEnd? c 1 rest).getD 0

/-- The characters before the one that holds a byte offset, and the rest. -/
def splitAtByte (offset : Nat) : List Char -> List Char × List Char
  | [] => ([], [])
  | c :: rest =>
    if offset < c.utf8Size then ([], c :: rest)
    else
      let (before, after) := splitAtByte (offset - c.utf8Size) rest
      (c :: before, after)

/-- Skips a leading `name - ` in a text from a byte offset on; the result is the
byte offset of the text after the dash, or the given offset. -/
def skipDashFrom (text : List Char) (start : Nat) : Nat :=
  let (before, after) := splitAtByte start text
  match skipDash after with
  | 0 => start
  | skipped => Text.byteLength before + Text.byteLength (after.take skipped)

end Prose
end DeclManual
