/-!
# ASCII classes and comparison without case

Headings, keywords and sentence endings are recognised by ASCII rules alone;
every other character is left as it is.
-/

namespace DeclManual
namespace Text

/-- The 32 ASCII punctuation characters. -/
def isAsciiPunctuation (c : Char) : Bool :=
  let n := c.toNat
  (33 ≤ n && n ≤ 47) || (58 ≤ n && n ≤ 64) || (91 ≤ n && n ≤ 96) || (123 ≤ n && n ≤ 126)

/-- Equality of two texts up to the case of ASCII letters. -/
def eqIgnoringCase (first second : List Char) : Bool :=
  first.map Char.toLower == second.map Char.toLower

/-- Whether a text starts with a word, in any case. -/
def startsIgnoringCase (word text : List Char) : Bool :=
  (word.map Char.toLower).isPrefixOf (text.map Char.toLower)

/-- A text with its ASCII letters in upper case. -/
def upperCase (text : List Char) : List Char :=
  text.map Char.toUpper

end Text
end DeclManual
