/-!
# JSON

The values with which declarations are shown to other programs, and their text:
indented by two spaces, with a line for every entry.
-/

namespace DeclManual
namespace Json

/-- A JSON value; the keys of an object are kept in their order. -/
inductive Value where
  | null
  | bool (value : Bool)
  | number (value : Int)
  | string (value : String)
  | array (entries : List Value)
  | object (entries : List (String × Value))
deriving Repr, Inhabited

/-- A digit of a hexadecimal number in lower case. -/
def hexDigit (n : Nat) : Char :=
  "0123456789abcdef".toList.getD n '0'

/-- The text of a character inside a string. -/
def escape (c : Char) : List Char :=
  match c with
  | '"' => ['\\', '"']
  | '\\' => ['\\', '\\']
  | '\n' => ['\\', 'n']
  | '\r' => ['\\', 'r']
  | '\t' => ['\\', 't']
  | '\x08' => ['\\', 'b']
  | '\x0c' => ['\\', 'f']
  | _ =>
    if c.toNat < 32 then
      ['\\', 'u', '0', '0', hexDigit (c.toNat / 16), hexDigit (c.toNat % 16)]
    else [c]

/-- The text of a string. -/
def quote (text : String) : String :=
  "\"" ++ String.ofList (text.toList.flatMap escape) ++ "\""

/-- A new line with an indentation. -/
def newLine (depth : Nat) : String :=
  "\n" ++ String.ofList (List.replicate (2 * depth) ' ')

mutual

/-- The text of a value at a depth of nesting. -/
def Value.pretty (depth : Nat) : Value -> String
  | .null => "null"
  | .bool value => if value then "true" else "false"
  | .number value => toString value
  | .string value => quote value
  | .array [] => "[]"
  | .array (first :: rest) =>
    "[" ++ newLine (depth + 1) ++ first.pretty (depth + 1) ++ prettyEntries (depth + 1) rest ++
      newLine depth ++ "]"
  | .object [] => "\x7b\x7d"
  | .object ((key, first) :: rest) =>
    "\x7b" ++ newLine (depth + 1) ++ quote key ++ ": " ++ first.pretty (depth + 1) ++
      prettyFields (depth + 1) rest ++ newLine depth ++ "\x7d"

/-- The text of further entries of an array. -/
def prettyEntries (depth : Nat) : List Value -> String
  | [] => ""
  | entry :: rest => "," ++ newLine depth ++ entry.pretty depth ++ prettyEntries depth rest

/-- The text of further entries of an object. -/
def prettyFields (depth : Nat) : List (String × Value) -> String
  | [] => ""
  | (key, entry) :: rest =>
    "," ++ newLine depth ++ quote key ++ ": " ++ entry.pretty depth ++ prettyFields depth rest

end

/-- A text or null. -/
def ofOption : Option String -> Value
  | some text => .string text
  | none => .null

/-- A field that is left out if there is no text. -/
def field? (key : String) : Option String -> List (String × Value)
  | some text => [(key, .string text)]
  | none => []

/-- A field that is left out unless it is set. -/
def flag? (key : String) (value : Bool) : List (String × Value) :=
  if value then [(key, .bool true)] else []

end Json
end DeclManual
