import DeclManual.Prose.Fixup
import DeclManual.Text.Date
import DeclManual.Text.Search

/-!
# Pieces of output

A call becomes a list of pieces: literal markup, which is written as it is, and
user text, which is escaped.  Only what the escaping does differs between the
formats that work in this way.
-/

namespace DeclManual
namespace Markup

/-- A stretch of output. -/
inductive Piece where
  /-- Written as it is. -/
  | raw (text : String)
  /-- Written with the markup characters of the format escaped. -/
  | escaped (text : String)
deriving DecidableEq, Repr, Inhabited

/-- The text of a piece, where each character of user text is escaped on its own. -/
def Piece.write (escape : Char -> List Char) : Piece -> List Char
  | .raw text => text.toList
  | .escaped text => text.toList.flatMap escape

/-- The text of pieces. -/
def writePieces (escape : Char -> List Char) (pieces : List Piece) : List Char :=
  pieces.flatMap (Piece.write escape)

/-- The columns of a tab in formats without tab stops. -/
def tabSpaces : List Char := List.replicate 4 ' '

/-- The name of a file without its directories. -/
def baseName (file : String) : String :=
  String.ofList (Text.afterLast '/' file.toList)

/-- The banner that warns against editing, of which every line starts a comment. -/
def warningPieces (comment : List Piece) : List Piece :=
  comment ++
    [.escaped "WARNING! THIS FILE WAS GENERATED AUTOMATICALLY BY ", .escaped programName,
      .escaped "!\n"] ++
    comment ++ [.escaped "DO NOT EDIT! CHANGES MADE TO THIS FILE WILL BE LOST!\n"]

/-- The voice in which a format writes comments under given settings. -/
def Settings.voice (settings : Settings) (format : OutputFormat) : Prose.Voice :=
  Prose.Voice.ofFormat format settings.fixupComments

end Markup
end DeclManual
