/-!
# Decimal numbers

Numbers are read in decimal and have to fit a word of 64 bits.
-/

namespace DeclManual
namespace Text

/-- The number that decimal digits write. -/
def ofDigits (digits : List Char) : Nat :=
  digits.foldl (fun value digit => value * 10 + (digit.toNat - '0'.toNat)) 0

/-- The number of values of a word. -/
def wordSize : Nat := UInt64.size

/-- The number written by a non-empty run of digits, if it fits a word. -/
def word64? (digits : List Char) : Option Nat :=
  if digits.isEmpty || !digits.all Char.isDigit then none
  else if ofDigits digits < wordSize then some (ofDigits digits)
  else none

/-- A number that may be written with a plus sign. -/
def signedWord64? : List Char -> Option Nat
  | '+' :: digits => word64? digits
  | digits => word64? digits

end Text
end DeclManual
