import DeclManual.Source.Token
import DeclManual.Text.Blank
import DeclManual.Text.Lines
import DeclManual.Text.Search

/-!
# Lexemes

Source text is first cut into lexemes: blanks, comments, directives and the texts
of tokens.  The lexemes of a source, written one after another, are the source.
A comment or literal that is never closed is a lexeme that takes all that is
left.
-/

namespace DeclManual
namespace Source

/-- What a stretch of source text is. -/
inductive Lexeme.Kind where
  | blanks
  | blockComment
  /-- One or more `//` comments on consecutive lines. -/
  | lineComments
  /-- A preprocessor directive, with its text after joining continued lines and
  replacing comments by spaces. -/
  | directive (body : List Char)
  | token (kind : Token.Kind)
  | unterminatedComment
  | unterminatedLiteral
deriving DecidableEq, Repr

/-- A stretch of source text. -/
structure Lexeme where
  kind : Lexeme.Kind
  text : List Char
deriving DecidableEq, Repr

/-- A character that may start an identifier. -/
def startsWord (c : Char) : Bool :=
  c.isAlpha || c == '_' || c == '$'

/-- A character of an identifier. -/
def isWordChar (c : Char) : Bool :=
  c.isAlphanum || c == '_' || c == '$'

/-- The punctuators of more than one character, each before those it starts with. -/
def longPunctuators : List String :=
  ["...", "<<=", ">>=", "->", "++", "--", "<<", ">>", "<=", ">=", "==", "!=", "&&", "||", "*=",
    "/=", "%=", "+=", "-=", "&=", "^=", "|=", "##", "::"]

/-- Whether only blanks stand before the current position on its line, after a
further stretch of text. -/
def blankAfter (blankLine : Bool) : List Char -> Bool
  | [] => blankLine
  | c :: rest => blankAfter (c == '\n' || (blankLine && Text.isBlank c)) rest

/-- The rest of a number after `last`.  A sign belongs to it after the letter of
an exponent, except in hexadecimal numbers. -/
def numberTail (hexadecimal : Bool) (last : Char) : List Char -> List Char
  | [] => []
  | c :: rest =>
    let sign :=
      (c == '+' || c == '-') && !hexadecimal &&
        (last == 'e' || last == 'E' || last == 'p' || last == 'P')
    if c.isAlphanum || c == '.' || c == '_' || sign then c :: numberTail hexadecimal c rest
    else []

/-- The rest of a literal through its closing quote; none if a newline or the end
comes first. -/
def literalTail? (quote : Char) : List Char -> Option (List Char)
  | [] => none
  | ['\\'] => none
  | '\\' :: c :: rest => (literalTail? quote rest).map ('\\' :: c :: ·)
  | c :: rest =>
    if c = quote then some [c]
    else if c = '\n' then none
    else (literalTail? quote rest).map (c :: ·)

/-- A run of `//` comments: the current line and, when runs are merged, the lines
after it that hold nothing else.  `lines` bounds their number. -/
def lineComments (merge : Bool) : (lines : Nat) -> List Char -> List Char
  | 0, text => Text.firstLine text
  | lines + 1, text =>
    let first := Text.firstLine text
    match text.drop first.length with
    | '\n' :: next =>
      if merge && ['/', '/'].isPrefixOf (next.dropWhile fun c => c == ' ' || c == '\t') then
        first ++ '\n' :: lineComments merge lines next
      else first
    | _ => first

/-- A directive through the end of its line, where a backslash continues the line
and a closed comment may span lines: the text it takes, and the text without
continuations and with a space for each comment.  `steps` bounds the length. -/
def directive : (steps : Nat) -> List Char -> List Char × List Char
  | 0, _ => ([], [])
  | _ + 1, [] => ([], [])
  | steps + 1, c :: rest =>
    let single :=
      let (taken, body) := directive steps rest
      (c :: taken, c :: body)
    if c = '\n' then ([], [])
    else if c = '\\' && rest.head? == some '\n' then
      let (taken, body) := directive steps (rest.drop 1)
      ('\\' :: '\n' :: taken, body)
    else if c = '/' && rest.head? == some '*' then
      match Text.splitAtWord? ['*', '/'] (rest.drop 1) with
      | some (inside, after) =>
        let (taken, body) := directive steps after
        (['/', '*'] ++ inside ++ ['*', '/'] ++ taken, ' ' :: body)
      | none => single
    else single

/-- The lexeme at the start of a text that starts with `c`. -/
def lexemeAt (blankLine : Bool) (c : Char) (rest : List Char) : Lexeme :=
  if Text.isBlank c then ⟨.blanks, c :: rest.takeWhile Text.isBlank⟩
  else if c = '/' && rest.head? == some '*' then
    match Text.splitAtWord? ['*', '/'] (rest.drop 1) with
    | some (inside, _) => ⟨.blockComment, ['/', '*'] ++ inside ++ ['*', '/']⟩
    | none => ⟨.unterminatedComment, c :: rest⟩
  else if c = '/' && rest.head? == some '/' then
    ⟨.lineComments, lineComments blankLine (c :: rest).length (c :: rest)⟩
  else if c = '#' && blankLine then
    let (taken, body) := directive (c :: rest).length (c :: rest)
    ⟨.directive body, taken⟩
  else if startsWord c then ⟨.token .identifier, c :: rest.takeWhile isWordChar⟩
  else if c.isDigit || (c == '.' && (rest.head?.map Char.isDigit).getD false) then
    ⟨.token .number, c :: numberTail (['0', 'x'].isPrefixOf (c :: rest)) c rest⟩
  else if c = '"' || c = '\'' then
    match literalTail? c rest with
    | some tail =>
      ⟨.token (if c = '"' then .stringLiteral else .charLiteral), c :: tail⟩
    | none => ⟨.unterminatedLiteral, c :: rest⟩
  else
    match longPunctuators.find? fun word => word.toList.isPrefixOf (c :: rest) with
    | some word => ⟨.token .punctuator, word.toList⟩
    | none => ⟨.token .punctuator, [c]⟩

/-- The lexemes of a text of at most `length` characters. -/
def lexemesFrom (blankLine : Bool) : (length : Nat) -> List Char -> List Lexeme
  | 0, _ => []
  | _ + 1, [] => []
  | length + 1, c :: rest =>
    let lexeme := lexemeAt blankLine c rest
    lexeme ::
      lexemesFrom (blankAfter blankLine lexeme.text) length
        ((c :: rest).drop lexeme.text.length)

/-- The lexemes of a source text. -/
def lexemes (source : List Char) : List Lexeme :=
  lexemesFrom true source.length source

end Source
end DeclManual
