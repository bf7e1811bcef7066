/-!
# Source encodings

A source file is read as UTF-8 when its bytes are valid UTF-8, and as Latin-1
otherwise, so that old headers with 8-bit comments can still be read.
-/

namespace DeclManual
namespace Text

/-- The text of Latin-1 bytes: each byte is the code point of a character. -/
def ofLatin1 (bytes : ByteArray) : String :=
  String.ofList (bytes.toList.map fun byte => Char.ofNat byte.toNat)

/-- The text of a source file. -/
def ofSourceBytes (bytes : ByteArray) : String :=
  match String.fromUTF8? bytes with
  | some text => text
  | none => ofLatin1 bytes

/-- The number of bytes a text takes in UTF-8. -/
def byteLength : List Char -> Nat
  | [] => 0
  | c :: rest => c.utf8Size + byteLength rest

end Text
end DeclManual
