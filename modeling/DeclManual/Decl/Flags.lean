import DeclManual.Text.Blank
import DeclManual.Text.Lines

/-!
# Storage-class and type markers

A declaration specifier keeps its source text verbatim.  Beside it stand the
seven markers on which documentation decisions depend.
-/

namespace DeclManual
namespace Decl

/-- The markers of a declaration specifier. -/
structure Flags where
  /-- Contains `extern`. -/
  isExtern : Bool := false
  /-- Contains `static`. -/
  isStatic : Bool := false
  /-- Contains `char`. -/
  isChar : Bool := false
  /-- Contains `short`. -/
  isShort : Bool := false
  /-- Contains `float`. -/
  isFloat : Bool := false
  /-- Not worth documenting: `typedef`, `auto`, `register`, or a parameter
  whose type is not known yet. -/
  isJunk : Bool := false
  /-- Contains `inline`. -/
  isInline : Bool := false
deriving DecidableEq, Repr, Inhabited

namespace Flags

/-- The marker of a declaration not worth documenting, alone. -/
def junk : Flags := { isJunk := true }

/-- The markers of two adjacent specifier fragments. -/
def union (first second : Flags) : Flags where
  isExtern := first.isExtern || second.isExtern
  isStatic := first.isStatic || second.isStatic
  isChar := first.isChar || second.isChar
  isShort := first.isShort || second.isShort
  isFloat := first.isFloat || second.isFloat
  isJunk := first.isJunk || second.isJunk
  isInline := first.isInline || second.isInline

/-- Each marker with its written name, in the order in which they are written. -/
def named (flags : Flags) : List (Bool × String) :=
  [(flags.isExtern, "EXTERN"), (flags.isStatic, "STATIC"), (flags.isChar, "CHAR"),
    (flags.isShort, "SHORT"), (flags.isFloat, "FLOAT"), (flags.isJunk, "JUNK"),
    (flags.isInline, "INLINE")]

/-- The names of the markers that are set, divided by bars. -/
def toText (flags : Flags) : String :=
  " | ".intercalate ((flags.named.filter (·.1)).map (·.2))

/-- The markers whose bits are set in a number, the first marker being the
lowest bit. -/
def ofBits (bits : Nat) : Flags where
  isExtern := bits.testBit 0
  isStatic := bits.testBit 1
  isChar := bits.testBit 2
  isShort := bits.testBit 3
  isFloat := bits.testBit 4
  isJunk := bits.testBit 5
  isInline := bits.testBit 6

/-- The marker of a written name. -/
def ofName? : String -> Option Flags
  | "EXTERN" => some { isExtern := true }
  | "STATIC" => some { isStatic := true }
  | "CHAR" => some { isChar := true }
  | "SHORT" => some { isShort := true }
  | "FLOAT" => some { isFloat := true }
  | "JUNK" => some { isJunk := true }
  | "INLINE" => some { isInline := true }
  | _ => none

/-- The value of one hexadecimal digit. -/
def hexDigit? (c : Char) : Option Nat :=
  if c.isDigit then some (c.toNat - '0'.toNat)
  else if 'a' ≤ c && c ≤ 'f' then some (c.toNat - 'a'.toNat + 10)
  else if 'A' ≤ c && c ≤ 'F' then some (c.toNat - 'A'.toNat + 10)
  else none

/-- The markers of one written item: a name or a hexadecimal number. -/
def ofItem? (item : List Char) : Option Flags :=
  match item with
  | '0' :: 'x' :: digits =>
    (digits.foldlM (fun value digit => (hexDigit? digit).map (value * 16 + ·)) 0).map ofBits
  | _ => ofName? (String.ofList item)

/-- Reads markers that are divided by bars. -/
def ofText? (text : String) : Option Flags :=
  if (Text.trim text.toList).isEmpty then some {}
  else
    (Text.splitOn '|' text.toList).foldlM
      (fun flags item => (ofItem? (Text.trim item)).map flags.union) {}

end Flags
end Decl
end DeclManual
