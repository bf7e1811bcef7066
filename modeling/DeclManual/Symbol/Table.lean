import DeclManual.Decl.Spec

/-!
# Symbol tables

Typedef names and enumeration tags are kept in hash-chained tables.  A symbol is
known by its position in the order of insertion, and each bucket holds the
position of its newest symbol, from which the older ones are chained.  Symbols
are never removed one by one.
-/

namespace DeclManual
namespace Symbol

open Decl (ListId)

/-- One named entry of a table. -/
structure Entry where
  name : String
  flags : UInt16
  /-- The enumerator list that the name stands for. -/
  value : Option ListId := none
  /-- The next older symbol of the same bucket. -/
  next : Option Nat := none
deriving DecidableEq, Repr, Inhabited

/-- The number of buckets. -/
def bucketCount : Nat := 251

/-- The bucket of a name: its bytes, each shifted in from the right in a word of
32 bits, modulo the number of buckets. -/
def bucketOf (name : String) : Nat :=
  (name.toUTF8.toList.foldl (fun (h : UInt32) byte => (h <<< 1) ^^^ byte.toUInt32) 0).toNat
    % bucketCount

/-- A table of named entries. -/
structure Table where
  /-- The newest symbol of each bucket. -/
  buckets : Array (Option Nat) := Array.replicate bucketCount none
  entries : Array Entry := #[]
deriving DecidableEq, Repr, Inhabited

namespace Table

/-- The table without symbols. -/
def empty : Table := {}

/-- The number of symbols. -/
def size (table : Table) : Nat :=
  table.entries.size

/-- Whether there is no symbol. -/
def isEmpty (table : Table) : Bool :=
  table.entries.isEmpty

/-- Walks the chain that starts at a symbol, for at most `steps` symbols, to the
one of the given name. -/
def walk (table : Table) (name : String) : (steps : Nat) -> Option Nat -> Option Nat
  | 0, _ => none
  | _ + 1, none => none
  | steps + 1, some id =>
    match table.entries[id]? with
    | none => none
    | some entry => if entry.name = name then some id else table.walk name steps entry.next

/-- The symbol of a name, searched in the name's own bucket.  No chain is longer
than the table. -/
def find? (table : Table) (name : String) : Option Nat :=
  table.walk name table.size (table.buckets.getD (bucketOf name) none)

/-- Whether a name is in the table. -/
def contains (table : Table) (name : String) : Bool :=
  (table.find? name).isSome

/-- The entry of a name. -/
def get? (table : Table) (name : String) : Option Entry :=
  match table.find? name with
  | some id => table.entries[id]?
  | none => none

/-- The symbol of a name, added at the front of its bucket if it is not there. -/
def insertIfAbsent (table : Table) (name : String) (flags : UInt16) : Table × Nat :=
  match table.find? name with
  | some id => (table, id)
  | none =>
    let bucket := bucketOf name
    let id := table.size
    ({ entries := table.entries.push
          { name, flags, next := table.buckets.getD bucket none }
       buckets := table.buckets.setIfInBounds bucket (some id) }, id)

/-- Makes an enumerator list the value of a name. -/
def register (table : Table) (name : String) (list : ListId) : Table :=
  let (added, id) := table.insertIfAbsent name 0
  { added with entries := added.entries.modify id fun entry => { entry with value := some list } }

/-- The enumerator list that a name stands for. -/
def lookup? (table : Table) (name : String) : Option ListId :=
  (table.get? name).bind (·.value)

/-- Drops every symbol and empties all buckets. -/
def destroy (table : Table) : Table where
  buckets := table.buckets.map fun _ => none
  entries := #[]

end Table
end Symbol
end DeclManual
