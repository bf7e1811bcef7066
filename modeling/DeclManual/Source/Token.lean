import DeclManual.Files.Tree

/-!
# Tokens

A token carries the comments that belong to it: the one before it, and the one
that follows it on its own line.
-/

namespace DeclManual
namespace Source

/-- The kinds of tokens. -/
inductive Token.Kind where
  | identifier
  | number
  | stringLiteral
  | charLiteral
  | punctuator
  /-- The end of the input. -/
  | endOfFile
deriving DecidableEq, Repr, Inhabited

/-- A token of the source text. -/
structure Token where
  kind : Token.Kind
  text : String
  /-- The line on which the token starts. -/
  line : Nat
  /-- The file that the token comes from, by the line markers. -/
  file : Option String
  inBaseFile : Bool
  commentBefore : Option String := none
  commentAfter : Option String := none
deriving DecidableEq, Repr, Inhabited

namespace Token

/-- Whether a token has a given text. -/
def hasText (token : Token) (text : String) : Bool :=
  token.kind != .endOfFile && token.text == text

/-- Whether a token is an identifier or a keyword. -/
def isWord (token : Token) : Bool :=
  token.kind == .identifier

/-- Whether a token ends the input. -/
def isEnd (token : Token) : Bool :=
  token.kind == .endOfFile

end Token

/-- Why the parsing of a file stops. -/
inductive SourceError where
  | unterminatedComment (file : String) (line : Nat)
  | unterminatedLiteral (file : String) (line : Nat)
  | unreadable (path : String) (cause : Files.OsError)
deriving DecidableEq, Repr, Inhabited

/-- The wording of an error. -/
def SourceError.message : SourceError -> String
  | .unterminatedComment file line => file ++ ":" ++ toString line ++ ": unterminated comment"
  | .unterminatedLiteral file line =>
    file ++ ":" ++ toString line ++ ": unterminated string or character constant"
  | .unreadable path cause => "cannot read " ++ path ++ ": " ++ cause.message

end Source
end DeclManual
