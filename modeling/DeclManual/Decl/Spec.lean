import DeclManual.Decl.Flags

/-!
# Declaration specifiers

The type and storage-class part of a declaration, such as
`static const char`.
-/

namespace DeclManual
namespace Decl

/-- The position of an enumerator list in the store that owns it. -/
abbrev ListId := Nat

/-- The specifier part of a declaration. -/
structure Spec where
  flags : Flags := {}
  /-- The source text; none for the specifier of an ellipsis. -/
  text : Option String := none
  /-- The enumerator list of an enumeration type, which documents itself. -/
  enumList : Option ListId := none
deriving DecidableEq, Repr, Inhabited

namespace Spec

/-- A specifier with source text. -/
def ofText (text : String) (flags : Flags) : Spec :=
  { flags, text := some text }

/-- A specifier without source text. -/
def untexted (flags : Flags) : Spec :=
  { flags }

/-- The specifier, now known to stand for an enumerator list if one is given. -/
def withEnumList (spec : Spec) : Option ListId -> Spec
  | some list => { spec with enumList := some list }
  | none => spec

/-- Combines two adjacent fragments: the texts with one space between them, the
markers together, and the first enumerator list that either has. -/
def join (first second : Spec) : Spec where
  flags := first.flags.union second.flags
  text :=
    match first.text, second.text with
    | some a, some b => some (a ++ " " ++ b)
    | some a, none => some a
    | none, b => b
  enumList := first.enumList.or second.enumList

end Spec
end Decl
end DeclManual
