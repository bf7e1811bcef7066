import DeclManual.Decl.Spec

/-!
# Enumerators and their store

One enumerator list can be known under several names at once, as in
`typedef enum {...} A, B;`, so no name owns it.  A store owns every list of a
session, and everything else refers to a list by its position there.
-/

namespace DeclManual
namespace Decl

/-- A single enumeration constant. -/
structure Enumerator where
  name : String
  comment : Option String := none
  /-- Introduces this enumerator and those that follow it. -/
  groupComment : Option String := none
deriving DecidableEq, Repr, Inhabited

namespace Enumerator

/-- An enumerator with the comments found around it.  The trailing comment
describes the enumerator; a leading one beside it introduces a group. -/
def ofComments (name : String) (before after : Option String) : Enumerator :=
  match before, after with
  | some leading, some trailing =>
    { name, comment := some trailing, groupComment := some leading }
  | some leading, none => { name, comment := some leading }
  | none, trailing => { name, comment := trailing }

/-- Attaches a further trailing comment.  A comment already there becomes the
group comment; none when both places are taken. -/
def attach? (enumerator : Enumerator) (comment : String) : Option Enumerator :=
  match enumerator.comment, enumerator.groupComment with
  | none, _ => some { enumerator with comment := some comment }
  | some first, none =>
    some { enumerator with comment := some comment, groupComment := some first }
  | some _, some _ => none

end Enumerator

/-- The enumerator lists of a session, in the order in which they were started. -/
structure EnumStore where
  lists : List (List Enumerator) := []
deriving DecidableEq, Repr, Inhabited

namespace EnumStore

/-- The number of lists. -/
def size (store : EnumStore) : Nat :=
  store.lists.length

/-- Whether there is no list. -/
def isEmpty (store : EnumStore) : Bool :=
  store.lists.isEmpty

/-- The enumerators of a list. -/
def get (store : EnumStore) (list : ListId) : List Enumerator :=
  store.lists.getD list []

/-- Starts a list with its first enumerator; the list's position comes with it. -/
def start (store : EnumStore) (first : Enumerator) : EnumStore × ListId :=
  ({ lists := store.lists ++ [[first]] }, store.lists.length)

/-- Adds an enumerator at the end of a list. -/
def append (store : EnumStore) (list : ListId) (enumerator : Enumerator) : EnumStore :=
  { lists := store.lists.modify list (· ++ [enumerator]) }

/-- Attaches a trailing comment to the last enumerator of a list.  The error is
the name of an enumerator that has no place left for it. -/
def attachComment (store : EnumStore) (list : ListId) (comment : String) :
    Except String EnumStore :=
  match (store.get list).getLast? with
  | none => .ok store
  | some last =>
    match last.attach? comment with
    | some changed =>
      .ok { lists := store.lists.modify list fun entries => entries.dropLast ++ [changed] }
    | none => .error last.name

end EnumStore
end Decl
end DeclManual
