import DeclManual.Symbol.Table
import Mathlib.Data.List.Basic
import Mathlib.Data.List.Induction
import Mathlib.Data.List.Nodup
import Mathlib.Data.List.Perm.Subperm
import Mathlib.Data.List.TakeWhile

/-!
# Symbol tables are maps

Whatever is done to a symbol table, each of its buckets holds the symbols whose names fall
into it, linked from newer to older ones.  So the search for a name comes to its end, and a
table is a map from the names that it has been given since it was last emptied: their
numbers count them in the order in which they came, their flags are the first and their
enumerator lists the last that they were given.
-/

namespace DeclManual
namespace Symbol

open Decl (ListId)

namespace Table

/-! ## Chains -/

/-- The symbols that are met from a symbol on, each linked from the one before. -/
inductive Chain (table : Table) : Option Nat → List Nat → Prop
  | nil : Chain table none []
  | cons {id : Nat} {entry : Entry} {older : List Nat} :
      table.entries[id]? = some entry →
      Chain table entry.next older → Chain table (some id) (id :: older)

/-- A search for a name along the links from a symbol on comes to its end, and with which
outcome: the first symbol of that name, or none. -/
inductive Finds (table : Table) (name : String) : Option Nat → Option Nat → Prop
  | nothing : Finds table name none none
  | here {id : Nat} {entry : Entry} :
      table.entries[id]? = some entry →
      entry.name = name → Finds table name (some id) (some id)
  | further {id : Nat} {entry : Entry} {found : Option Nat} :
      table.entries[id]? = some entry →
      entry.name ≠ name →
      Finds table name entry.next found → Finds table name (some id) found

/-- The newest symbol of a bucket. -/
def newest (table : Table) (bucket : Nat) : Option Nat :=
  table.buckets.getD bucket none

/-- The names of the symbols, in the order in which they were added. -/
def names (table : Table) : List String :=
  table.entries.toList.map (·.name)

/-- Every bucket holds the symbols whose names fall into it, the newest first, and no name
stands for two symbols. -/
structure WellFormed (table : Table) : Prop where
  buckets : table.buckets.size = bucketCount
  unique : table.names.Nodup
  descending : ∀ (id : Nat) (entry : Entry) (older : Nat),
    table.entries[id]? = some entry → entry.next = some older → older < id
  chained : ∀ bucket < bucketCount, ∃ chain, table.Chain (table.newest bucket) chain ∧
    chain.Pairwise (· > ·) ∧
    ∀ id, id ∈ chain ↔ ∃ entry, table.entries[id]? = some entry ∧ bucketOf entry.name = bucket

variable {table : Table} {name : String} {start found : Option Nat} {chain : List Nat}

/-- Every name has a bucket. -/
theorem bucketOf_lt (name : String) : bucketOf name < bucketCount :=
  Nat.mod_lt _ (by decide)

theorem getElem?_names (table : Table) (id : Nat) :
    table.names[id]? = table.entries[id]?.map (·.name) := by
  simp [names]

/-- A table has as many names as entries. -/
theorem length_names (table : Table) : table.names.length = table.size := by
  simp [names, size]

/-- An entry that is there has a number below the size. -/
theorem lt_size_of_getElem?
    {id : Nat}
    {entry : Entry}
    (isEntry : table.entries[id]? = some entry) :
    id < table.size :=
  (Array.getElem?_eq_some_iff.1 isEntry).1

/-- The numbers on a chain are those of entries. -/
theorem Chain.lt_size
    (chained : table.Chain start chain)
    {id : Nat}
    (member : id ∈ chain) :
    id < table.size := by
  induction chained with
  | nil => cases member
  | cons isEntry _ hypothesis =>
      rcases List.mem_cons.1 member with rfl | older
      · exact lt_size_of_getElem? isEntry
      · exact hypothesis older

/-- No chain without repetitions is longer than the table. -/
theorem Chain.length_le
    (chained : table.Chain start chain)
    (descending : chain.Pairwise (· > ·)) :
    chain.length ≤ table.size := by
  have noRepetition : chain.Nodup := descending.imp fun greater => Nat.ne_of_gt greater
  have within : chain ⊆ List.range table.size :=
    fun id member => List.mem_range.2 (chained.lt_size member)
  simpa using (noRepetition.subperm within).length_le

/-! ## Searching -/

/-- A walk of as many steps as the chain is long comes to the end of the search. -/
theorem Chain.walk
    (chained : table.Chain start chain)
    (name : String)
    {steps : Nat}
    (enough : chain.length ≤ steps) :
    table.Finds name start (table.walk name steps start) := by
  induction chained generalizing steps with
  | nil => cases steps <;> exact .nothing
  | @cons id entry older isEntry _ hypothesis =>
      obtain ⟨steps, rfl⟩ := Nat.exists_eq_add_of_le' enough
      rw [List.length_cons, ← Nat.add_assoc, Table.walk, isEntry]
      dsimp only
      split
      · rename_i isName
        exact .here isEntry isName
      · rename_i other
        exact .further isEntry other (hypothesis (Nat.le_add_left _ _))

/-- An entry that is found has the name that was looked for. -/
theorem Finds.name_eq
    {id : Nat}
    (finds : table.Finds name start (some id)) :
    ∃ entry, table.entries[id]? = some entry ∧ entry.name = name := by
  generalize isFound : some id = found at finds
  induction finds with
  | nothing => cases isFound
  | here isEntry isName =>
      cases isFound
      exact ⟨_, isEntry, isName⟩
  | further _ _ _ hypothesis => exact hypothesis isFound

/-- The entries that are passed over have other names. -/
theorem Finds.name_ne
    (finds : table.Finds name start none)
    (chained : table.Chain start chain)
    {id : Nat}
    {entry : Entry}
    (member : id ∈ chain)
    (isEntry : table.entries[id]? = some entry) :
    entry.name ≠ name := by
  generalize isFound : none = found at finds
  induction finds generalizing chain with
  | nothing =>
      cases chained
      cases member
  | here => cases isFound
  | further isFirst other _ hypothesis =>
      obtain @⟨⟩ | ⟨isSame, older⟩ := chained
      rw [isFirst] at isSame
      cases isSame
      rcases List.mem_cons.1 member with rfl | member
      · rw [isFirst] at isEntry
        cases isEntry
        exact other
      · exact hypothesis older member isFound

namespace WellFormed

/-- The search for a name in its bucket comes to its end. -/
theorem finds
    (wellFormed : table.WellFormed)
    (name : String) :
    table.Finds name (table.newest (bucketOf name)) (table.find? name) := by
  obtain ⟨chain, chained, descending, -⟩ := wellFormed.chained _ (bucketOf_lt name)
  exact chained.walk name (chained.length_le descending)

/-- A name that is given once has one place. -/
theorem place_unique
    (wellFormed : table.WellFormed)
    {first second : Nat}
    {firstEntry secondEntry : Entry}
    (isFirst : table.entries[first]? = some firstEntry)
    (isSecond : table.entries[second]? = some secondEntry)
    (sameName : firstEntry.name = secondEntry.name) :
    first = second := by
  have within : first < table.names.length := by
    rw [length_names]
    exact lt_size_of_getElem? isFirst
  apply (List.getElem?_inj within wellFormed.unique).1
  rw [getElem?_names, isFirst, getElem?_names, isSecond, Option.map_some, sameName,
    Option.map_some]

/-- A name is found just at its place among the names. -/
theorem find?_eq_some_iff
    (wellFormed : table.WellFormed)
    {id : Nat} :
    table.find? name = some id ↔ table.names[id]? = some name := by
  have finds := wellFormed.finds name
  constructor
  · intro isFound
    rw [isFound] at finds
    obtain ⟨entry, isEntry, isName⟩ := finds.name_eq
    rw [getElem?_names, isEntry, Option.map_some, isName]
  · intro isName
    rw [getElem?_names] at isName
    obtain ⟨entry, isEntry, rfl⟩ := Option.map_eq_some_iff.1 isName
    obtain ⟨chain, chained, -, members⟩ := wellFormed.chained _ (bucketOf_lt entry.name)
    cases isFound : table.find? entry.name with
    | none =>
        rw [isFound] at finds
        exact absurd rfl (finds.name_ne chained ((members id).2 ⟨entry, isEntry, rfl⟩) isEntry)
    | some other =>
        rw [isFound] at finds
        obtain ⟨otherEntry, isOther, sameName⟩ := finds.name_eq
        rw [wellFormed.place_unique isOther isEntry sameName]

/-- The symbol of a name is known by the place of the name. -/
theorem find?_eq_idxOf?
    (wellFormed : table.WellFormed)
    (name : String) :
    table.find? name = table.names.idxOf? name := by
  apply Option.ext
  intro id
  rw [wellFormed.find?_eq_some_iff, List.idxOf?_eq_some_iff]
  constructor
  · intro isName
    obtain ⟨within, isName⟩ := List.getElem?_eq_some_iff.1 isName
    refine ⟨within, isName, fun earlier less isEarlier => ?_⟩
    exact Nat.ne_of_lt less ((wellFormed.unique.getElem_inj_iff).1 (isEarlier.trans isName.symm))
  · rintro ⟨within, isName, -⟩
    exact List.getElem?_eq_some_iff.2 ⟨within, isName⟩

/-- A name is not found just if it is not among the names. -/
theorem find?_eq_none_iff (wellFormed : table.WellFormed) :
    table.find? name = none ↔ name ∉ table.names := by
  rw [wellFormed.find?_eq_idxOf?, List.idxOf?_eq_none_iff]

end WellFormed

/-! ## Adding symbols -/

/-- A chain stays where its symbols and their links do. -/
theorem Chain.of_links
    {other : Table}
    (chained : table.Chain start chain)
    (links : ∀ (id : Nat) (entry : Entry), table.entries[id]? = some entry →
      ∃ same, other.entries[id]? = some same ∧ same.next = entry.next) :
    other.Chain start chain := by
  induction chained with
  | nil => exact .nil
  | cons isEntry _ hypothesis =>
      obtain ⟨same, isSame, sameNext⟩ := links _ _ isEntry
      exact .cons isSame (by rwa [sameNext])

/-- The table with a new symbol at the front of its bucket. -/
def added (table : Table) (name : String) (flags : UInt16) : Table where
  entries := table.entries.push { name, flags, next := table.newest (bucketOf name) }
  buckets := table.buckets.setIfInBounds (bucketOf name) (some table.size)

/-- A new entry stands after the old ones and leads on to the newest of its bucket. -/
theorem getElem?_added (flags : UInt16) (id : Nat) :
    (table.added name flags).entries[id]? =
      if id = table.size then some { name, flags, next := table.newest (bucketOf name) }
      else table.entries[id]? :=
  Array.getElem?_push

/-- A new entry adds its name. -/
theorem names_added (flags : UInt16) :
    (table.added name flags).names = table.names ++ [name] := by
  simp [names, added]

theorem names_modify (id : Nat) (list : ListId) :
    names { table with
      entries := table.entries.modify id fun entry => { entry with value := some list } } =
      table.names := by
  apply List.ext_getElem?
  intro place
  rw [getElem?_names, getElem?_names, Array.getElem?_modify]
  split
  · rw [Option.map_map]
    rfl
  · rfl

/-- A new entry is the newest of its bucket and of no other. -/
theorem newest_added
    (buckets : table.buckets.size = bucketCount)
    (flags : UInt16)
    (bucket : Nat) :
    (table.added name flags).newest bucket =
      if bucketOf name = bucket then some table.size else table.newest bucket := by
  have within : bucketOf name < table.buckets.size := by
    rw [buckets]
    exact bucketOf_lt name
  simp only [newest, added, Array.getD_eq_getD_getElem?, Array.getElem?_setIfInBounds,
    if_pos within]
  split <;> rfl

namespace WellFormed

/-- A name that is there is not inserted again. -/
theorem insertIfAbsent_of_mem
    (wellFormed : table.WellFormed)
    (known : name ∈ table.names)
    (flags : UInt16) :
    table.insertIfAbsent name flags = (table, table.names.idxOf name) := by
  have isFound : table.find? name = some (table.names.idxOf name) := by
    rw [wellFormed.find?_eq_some_iff]
    exact List.getElem?_idxOf known
  rw [insertIfAbsent, isFound]

/-- A name that is not there is inserted. -/
theorem insertIfAbsent_of_not_mem
    (wellFormed : table.WellFormed)
    (unknown : name ∉ table.names)
    (flags : UInt16) :
    table.insertIfAbsent name flags = (table.added name flags, table.size) := by
  rw [insertIfAbsent, wellFormed.find?_eq_none_iff.2 unknown]
  rfl

theorem empty : Table.empty.WellFormed where
  buckets := Array.size_replicate
  unique := List.nodup_nil
  descending _ _ _ isEntry := by cases isEntry
  chained bucket less := by
    refine ⟨[], ?_, .nil, fun id => ⟨nofun, ?_⟩⟩
    · rw [newest, Table.empty, Array.getD_eq_getD_getElem?, Array.getElem?_replicate]
      split <;> exact .nil
    · rintro ⟨_, isEntry, -⟩
      cases isEntry

/-- A table stays well-formed when a new name is added. -/
theorem added
    (wellFormed : table.WellFormed)
    (unknown : name ∉ table.names)
    (flags : UInt16) :
    (table.added name flags).WellFormed := by
  have old {id : Nat} {entry : Entry} (isEntry : table.entries[id]? = some entry) :
      (table.added name flags).entries[id]? = some entry := by
    rw [getElem?_added, if_neg (Nat.ne_of_lt (lt_size_of_getElem? isEntry)), isEntry]
  refine ⟨?_, ?_, ?_, ?_⟩
  · exact Array.size_setIfInBounds.trans wellFormed.buckets
  · rw [names_added]
    exact wellFormed.unique.append (List.nodup_singleton name) (by simpa using unknown)
  · intro id entry older isEntry isNext
    rw [getElem?_added] at isEntry
    split at isEntry
    · rename_i isNew
      cases isEntry
      obtain ⟨chain, chained, -, -⟩ := wellFormed.chained _ (bucketOf_lt name)
      rw [show table.newest (bucketOf name) = some older from isNext] at chained
      cases chained with
      | cons isOlder _ =>
          rw [isNew]
          exact lt_size_of_getElem? isOlder
    · exact wellFormed.descending id entry older isEntry isNext
  · intro bucket less
    obtain ⟨chain, chained, descending, members⟩ := wellFormed.chained bucket less
    have further : (table.added name flags).Chain (table.newest bucket) chain :=
      chained.of_links fun id entry isEntry => ⟨entry, old isEntry, rfl⟩
    rw [newest_added wellFormed.buckets]
    split
    · rename_i isBucket
      have isNew : (table.added name flags).entries[table.size]? =
          some { name, flags, next := table.newest bucket } := by
        rw [getElem?_added, if_pos rfl, isBucket]
      refine ⟨table.size :: chain, .cons isNew further,
        List.pairwise_cons.2 ⟨fun id => chained.lt_size, descending⟩, fun id => ?_⟩
      rw [List.mem_cons, members, getElem?_added]
      by_cases isLast : id = table.size
      · simp [isLast, isBucket]
      · simp [isLast]
    · rename_i otherBucket
      refine ⟨chain, further, descending, fun id => ?_⟩
      rw [members, getElem?_added]
      by_cases isLast : id = table.size
      · rw [isLast, if_pos rfl]
        refine ⟨?_, ?_⟩
        · rintro ⟨entry, isEntry, -⟩
          exact absurd (lt_size_of_getElem? isEntry) (Nat.lt_irrefl _)
        · rintro ⟨entry, isEntry, isBucket⟩
          cases isEntry
          exact absurd isBucket otherBucket
      · rw [if_neg isLast]

/-- A table stays well-formed when a name is inserted. -/
theorem insertIfAbsent
    (wellFormed : table.WellFormed)
    (name : String)
    (flags : UInt16) :
    (table.insertIfAbsent name flags).1.WellFormed := by
  by_cases known : name ∈ table.names
  · rw [wellFormed.insertIfAbsent_of_mem known]
    exact wellFormed
  · rw [wellFormed.insertIfAbsent_of_not_mem known]
    exact wellFormed.added known flags

/-- The number that is given out is the place of the name. -/
theorem names_insertIfAbsent_snd
    (wellFormed : table.WellFormed)
    (name : String)
    (flags : UInt16) :
    (table.insertIfAbsent name flags).1.names[(table.insertIfAbsent name flags).2]? =
      some name := by
  by_cases known : name ∈ table.names
  · rw [wellFormed.insertIfAbsent_of_mem known]
    exact List.getElem?_idxOf known
  · rw [wellFormed.insertIfAbsent_of_not_mem known, names_added, ← length_names]
    exact List.getElem?_concat_length

/-- Giving a symbol a list changes neither names nor links. -/
theorem modify
    (wellFormed : table.WellFormed)
    (id : Nat)
    (list : ListId) :
    WellFormed { table with
      entries := table.entries.modify id fun entry => { entry with value := some list } } := by
  have counterpart {place : Nat} {entry : Entry}
      (isEntry : (table.entries.modify id
        fun entry => { entry with value := some list })[place]? = some entry) :
      ∃ same, table.entries[place]? = some same ∧ same.name = entry.name ∧
        same.next = entry.next := by
    rw [Array.getElem?_modify] at isEntry
    split at isEntry
    · obtain ⟨same, isSame, rfl⟩ := Option.map_eq_some_iff.1 isEntry
      exact ⟨same, isSame, rfl, rfl⟩
    · exact ⟨entry, isEntry, rfl, rfl⟩
  have modified {place : Nat} {entry : Entry} (isEntry : table.entries[place]? = some entry) :
      ∃ same, (table.entries.modify id
          fun entry => { entry with value := some list })[place]? = some same ∧
        same.name = entry.name ∧ same.next = entry.next := by
    rw [Array.getElem?_modify, isEntry]
    split
    · exact ⟨_, rfl, rfl, rfl⟩
    · exact ⟨entry, rfl, rfl, rfl⟩
  refine ⟨wellFormed.buckets, by rw [names_modify]; exact wellFormed.unique, ?_, ?_⟩
  · intro place entry older isEntry isNext
    obtain ⟨same, isSame, -, sameNext⟩ := counterpart isEntry
    exact wellFormed.descending place same older isSame (sameNext.trans isNext)
  · intro bucket less
    obtain ⟨chain, chained, descending, members⟩ := wellFormed.chained bucket less
    refine ⟨chain, chained.of_links fun _ _ isEntry => ?_, descending, fun place => ?_⟩
    · obtain ⟨same, isSame, -, sameNext⟩ := modified isEntry
      exact ⟨same, isSame, sameNext⟩
    · rw [members]
      constructor
      · rintro ⟨entry, isEntry, rfl⟩
        obtain ⟨same, isSame, sameName, -⟩ := modified isEntry
        exact ⟨same, isSame, by rw [sameName]⟩
      · rintro ⟨entry, isEntry, rfl⟩
        obtain ⟨same, isSame, sameName, -⟩ := counterpart isEntry
        exact ⟨same, isSame, by rw [sameName]⟩

/-- A table stays well-formed when a list is registered. -/
theorem register
    (wellFormed : table.WellFormed)
    (name : String)
    (list : ListId) :
    (table.register name list).WellFormed :=
  (wellFormed.insertIfAbsent name 0).modify _ list

/-- An emptied table is a new one. -/
theorem destroy_eq_empty (wellFormed : table.WellFormed) : table.destroy = Table.empty := by
  unfold destroy
  rw [Array.map_const', wellFormed.buckets]
  rfl

end WellFormed
end Table

/-! ## Histories -/

/-- What is done to a table. -/
inductive Operation
  | insertIfAbsent (name : String) (flags : UInt16)
  | register (name : String) (list : ListId)
  | find (name : String)
  | lookup (name : String)
  | destroy
deriving DecidableEq, Repr

namespace Operation

/-- The table that is left. -/
def apply (table : Table) : Operation → Table
  | .insertIfAbsent name flags => (table.insertIfAbsent name flags).1
  | .register name list => table.register name list
  | .find _ | .lookup _ => table
  | .destroy => table.destroy

/-- The name that is given to the table. -/
def given? : Operation → Option String
  | .insertIfAbsent name _ | .register name _ => some name
  | .find _ | .lookup _ | .destroy => none

/-- The flags that are given for a name; a name that is registered comes without any. -/
def flagsFor? (name : String) : Operation → Option UInt16
  | .insertIfAbsent given flags => if given = name then some flags else none
  | .register given _ => if given = name then some 0 else none
  | .find _ | .lookup _ | .destroy => none

/-- The enumerator list that a name is registered for. -/
def listFor? (name : String) : Operation → Option ListId
  | .register given list => if given = name then some list else none
  | .insertIfAbsent _ _ | .find _ | .lookup _ | .destroy => none

/-- The number that is given out for the name. -/
def givenOut? (table : Table) : Operation → Option Nat
  | .insertIfAbsent name flags => some (table.insertIfAbsent name flags).2
  | .register name _ => some (table.insertIfAbsent name 0).2
  | .find _ | .lookup _ | .destroy => none

end Operation

/-- The table that a history leaves of a new one. -/
def tableAfter (history : List Operation) : Table :=
  history.foldl Operation.apply .empty

/-- What was done since the table was last emptied. -/
def sinceDestroy (history : List Operation) : List Operation :=
  (history.reverse.takeWhile (· ≠ .destroy)).reverse

/-- The names that were given, each where it was given first. -/
def namesGiven (history : List Operation) : List String :=
  (history.filterMap Operation.given?).eraseDups

/-- The flags that were given first for a name. -/
def firstFlags? (history : List Operation) (name : String) : Option UInt16 :=
  history.findSome? (Operation.flagsFor? name)

/-- The list that a name was registered for last. -/
def lastList? (history : List Operation) (name : String) : Option ListId :=
  history.reverse.findSome? (Operation.listFor? name)

/-- A number was given out for a name and the table not emptied since. -/
def GivenOut (history : List Operation) (name : String) (id : Nat) : Prop :=
  ∃ (before : List Operation) (operation : Operation) (after : List Operation),
    history = before ++ operation :: after ∧ .destroy ∉ after ∧
      operation.given? = some name ∧ operation.givenOut? (tableAfter before) = some id

variable {history : List Operation} {name : String}

theorem tableAfter_concat (history : List Operation) (operation : Operation) :
    tableAfter (history ++ [operation]) = operation.apply (tableAfter history) := by
  simp [tableAfter]

theorem sinceDestroy_concat (history : List Operation) (operation : Operation) :
    sinceDestroy (history ++ [operation]) =
      if operation = .destroy then [] else sinceDestroy history ++ [operation] := by
  simp only [sinceDestroy, List.reverse_append, List.reverse_singleton, List.singleton_append,
    List.takeWhile_cons, decide_eq_true_eq]
  by_cases isDestroy : operation = .destroy <;> simp [isDestroy]

/-- Nothing is forgotten until the table is emptied again. -/
theorem sinceDestroy_append
    (before : List Operation)
    {after : List Operation}
    (kept : Operation.destroy ∉ after) :
    sinceDestroy (before ++ after) = sinceDestroy before ++ after := by
  have all : ∀ operation ∈ after.reverse, decide (operation ≠ .destroy) = true := by
    intro operation member
    rw [List.mem_reverse] at member
    exact decide_eq_true fun isDestroy => kept (isDestroy ▸ member)
  rw [sinceDestroy, List.reverse_append, List.takeWhile_append_of_pos all, List.reverse_append,
    List.reverse_reverse, sinceDestroy]

/-- The names given are those of the operations. -/
theorem mem_namesGiven :
    name ∈ namesGiven history ↔ ∃ operation ∈ history, operation.given? = some name := by
  rw [namesGiven, List.mem_eraseDups, List.mem_filterMap]

theorem namesGiven_concat (history : List Operation) (operation : Operation) :
    namesGiven (history ++ [operation]) =
      match operation.given? with
      | none => namesGiven history
      | some name =>
          if name ∈ namesGiven history then namesGiven history
          else namesGiven history ++ [name] := by
  rw [namesGiven, List.filterMap_append, List.eraseDups_append]
  cases given : operation.given? with
  | none => simp [given, namesGiven]
  | some name =>
      have isKnown : name ∈ namesGiven history ↔ name ∈ history.filterMap Operation.given? :=
        List.mem_eraseDups
      simp only [List.filterMap_cons, given, List.filterMap_nil, List.removeAll, isKnown]
      by_cases known : name ∈ history.filterMap Operation.given?
      · simp [known, namesGiven, -List.mem_filterMap]
      · simp [known, namesGiven, List.eraseDups_cons, -List.mem_filterMap]

/-- Later operations leave the places of the names. -/
theorem namesGiven_prefix (history after : List Operation) :
    namesGiven history <+: namesGiven (history ++ after) := by
  rw [namesGiven, namesGiven, List.filterMap_append, List.eraseDups_append]
  exact List.prefix_append _ _

theorem firstFlags?_concat (history : List Operation) (operation : Operation) (name : String) :
    firstFlags? (history ++ [operation]) name =
      (firstFlags? history name).or (operation.flagsFor? name) := by
  simp [firstFlags?, List.findSome?_append]

theorem lastList?_concat (history : List Operation) (operation : Operation) (name : String) :
    lastList? (history ++ [operation]) name =
      (operation.listFor? name).or (lastList? history name) := by
  simp [lastList?, List.findSome?_cons]
  cases operation.listFor? name <;> rfl

theorem Operation.flagsFor?_of_given?_ne
    {operation : Operation}
    (other : operation.given? ≠ some name) :
    operation.flagsFor? name = none := by
  cases operation <;> simp_all [Operation.given?, Operation.flagsFor?]

theorem Operation.listFor?_of_given?_ne
    {operation : Operation}
    (other : operation.given? ≠ some name) :
    operation.listFor? name = none := by
  cases operation <;> simp_all [Operation.given?, Operation.listFor?]

/-- A name that was not given has no flags. -/
theorem firstFlags?_of_not_mem (unknown : name ∉ namesGiven history) :
    firstFlags? history name = none := by
  rw [firstFlags?, List.findSome?_eq_none_iff]
  intro operation member
  exact Operation.flagsFor?_of_given?_ne fun given =>
    unknown (mem_namesGiven.2 ⟨operation, member, given⟩)

/-- A name that was not given has no list. -/
theorem lastList?_of_not_mem (unknown : name ∉ namesGiven history) :
    lastList? history name = none := by
  rw [lastList?, List.findSome?_eq_none_iff]
  intro operation member
  exact Operation.listFor?_of_given?_ne fun given =>
    unknown (mem_namesGiven.2 ⟨operation, List.mem_reverse.1 member, given⟩)

/-- The table holds what it was told, nothing of it having been dropped. -/
structure Table.Records (table : Table) (history : List Operation) : Prop where
  wellFormed : table.WellFormed
  names : table.names = namesGiven history
  flags : ∀ (id : Nat) (entry : Entry), table.entries[id]? = some entry →
    firstFlags? history entry.name = some entry.flags
  values : ∀ (id : Nat) (entry : Entry), table.entries[id]? = some entry →
    entry.value = lastList? history entry.name

namespace Table.Records

variable {table : Table}

theorem empty : Table.empty.Records [] where
  wellFormed := .empty
  names := rfl
  flags _ _ isEntry := by cases isEntry
  values _ _ isEntry := by cases isEntry

/-- What gives neither a name nor a list leaves the table as it is. -/
theorem quiet
    (records : table.Records history)
    {operation : Operation}
    (nothing : operation.given? = none) :
    table.Records (history ++ [operation]) where
  wellFormed := records.wellFormed
  names := by rw [namesGiven_concat, nothing, records.names]
  flags id entry isEntry := by
    rw [firstFlags?_concat, records.flags id entry isEntry, Option.some_or]
  values id entry isEntry := by
    rw [lastList?_concat, Operation.listFor?_of_given?_ne (by simp [nothing]), Option.none_or]
    exact records.values id entry isEntry

theorem insertIfAbsent
    (records : table.Records history)
    (name : String)
    (flags : UInt16) :
    (table.insertIfAbsent name flags).1.Records (history ++ [.insertIfAbsent name flags]) := by
  have noList (entry : Entry) :
      lastList? (history ++ [.insertIfAbsent name flags]) entry.name =
        lastList? history entry.name := by
    rw [lastList?_concat]
    rfl
  refine ⟨records.wellFormed.insertIfAbsent name flags, ?_, ?_, ?_⟩ <;>
    by_cases known : name ∈ table.names
  · rw [records.wellFormed.insertIfAbsent_of_mem known, namesGiven_concat, records.names]
    exact (if_pos (records.names ▸ known)).symm
  · rw [records.wellFormed.insertIfAbsent_of_not_mem known, namesGiven_concat, names_added,
      records.names]
    exact (if_neg (records.names ▸ known)).symm
  · intro id entry isEntry
    rw [records.wellFormed.insertIfAbsent_of_mem known] at isEntry
    rw [firstFlags?_concat, records.flags id entry isEntry, Option.some_or]
  · intro id entry isEntry
    rw [records.wellFormed.insertIfAbsent_of_not_mem known, getElem?_added] at isEntry
    rw [firstFlags?_concat]
    split at isEntry
    · cases isEntry
      rw [firstFlags?_of_not_mem (records.names ▸ known)]
      simp [Operation.flagsFor?]
    · rw [records.flags id entry isEntry, Option.some_or]
  · intro id entry isEntry
    rw [records.wellFormed.insertIfAbsent_of_mem known] at isEntry
    rw [noList]
    exact records.values id entry isEntry
  · intro id entry isEntry
    rw [records.wellFormed.insertIfAbsent_of_not_mem known, getElem?_added] at isEntry
    rw [noList]
    split at isEntry
    · cases isEntry
      rw [lastList?_of_not_mem (records.names ▸ known)]
    · exact records.values id entry isEntry

theorem register
    (records : table.Records history)
    (name : String)
    (list : ListId) :
    (table.register name list).Records (history ++ [.register name list]) := by
  have inserted := records.insertIfAbsent name 0
  have isGivenOut := records.wellFormed.names_insertIfAbsent_snd name 0
  rw [getElem?_names] at isGivenOut
  obtain ⟨givenOut, isGivenOut, hasName⟩ := Option.map_eq_some_iff.1 isGivenOut
  have sameNames : namesGiven (history ++ [.register name list]) =
      namesGiven (history ++ [.insertIfAbsent name 0]) := by
    rw [namesGiven_concat, namesGiven_concat]
    rfl
  have sameFlags (given : String) : firstFlags? (history ++ [.register name list]) given =
      firstFlags? (history ++ [.insertIfAbsent name 0]) given := by
    rw [firstFlags?_concat, firstFlags?_concat]
    rfl
  refine ⟨records.wellFormed.register name list, ?_, ?_, ?_⟩
  · rw [sameNames, ← inserted.names]
    exact names_modify _ list
  · intro id entry isEntry
    rw [Table.register, Array.getElem?_modify] at isEntry
    rw [sameFlags]
    split at isEntry
    · obtain ⟨same, isSame, rfl⟩ := Option.map_eq_some_iff.1 isEntry
      exact inserted.flags id same isSame
    · exact inserted.flags id entry isEntry
  · intro id entry isEntry
    rw [Table.register, Array.getElem?_modify] at isEntry
    rw [lastList?_concat]
    split at isEntry
    · rename_i isPlace
      obtain ⟨same, isSame, rfl⟩ := Option.map_eq_some_iff.1 isEntry
      rw [isPlace, isSame] at isGivenOut
      cases isGivenOut
      simp [Operation.listFor?, hasName]
    · rename_i otherPlace
      have otherName : entry.name ≠ name := by
        intro isName
        refine otherPlace (inserted.wellFormed.place_unique isGivenOut isEntry ?_)
        rw [hasName, isName]
      rw [Operation.listFor?, if_neg otherName.symm, Option.none_or,
        inserted.values id entry isEntry,
        lastList?_concat]
      rfl

end Table.Records

/-- Whatever was done to a table, it holds what it was told since it was last emptied. -/
theorem records_tableAfter (history : List Operation) :
    (tableAfter history).Records (sinceDestroy history) := by
  induction history using List.reverseRecOn with
  | nil => exact .empty
  | append_singleton history operation hypothesis =>
      rw [tableAfter_concat, sinceDestroy_concat]
      cases operation with
      | insertIfAbsent name flags => exact hypothesis.insertIfAbsent name flags
      | register name list => exact hypothesis.register name list
      | find name => exact hypothesis.quiet rfl
      | lookup name => exact hypothesis.quiet rfl
      | destroy =>
          rw [if_pos rfl, Operation.apply, hypothesis.wellFormed.destroy_eq_empty]
          exact .empty

/-- What counts is the end of a history. -/
theorem sinceDestroy_suffix (history : List Operation) :
    sinceDestroy history <:+ history := by
  have recent := (List.takeWhile_prefix (l := history.reverse)
    fun operation => decide (operation ≠ .destroy))
  rw [← List.reverse_suffix, List.reverse_reverse] at recent
  exact recent

/-- Since the table was last destroyed it was not destroyed. -/
theorem destroy_notMem_sinceDestroy (history : List Operation) :
    Operation.destroy ∉ sinceDestroy history := by
  intro member
  rw [sinceDestroy, List.mem_reverse] at member
  have other := List.mem_takeWhile_imp member
  simp at other

/-- The numbers that were given out since the table was last emptied are those that are
found. -/
theorem find?_tableAfter_of_givenOut
    {id : Nat}
    (givenOut : GivenOut history name id) :
    (tableAfter history).find? name = some id := by
  obtain ⟨before, operation, after, rfl, kept, isGiven, isGivenOut⟩ := givenOut
  have records := records_tableAfter (before ++ operation :: after)
  have recordsThen := records_tableAfter (before ++ [operation])
  have placeThen : (tableAfter (before ++ [operation])).names[id]? = some name := by
    rw [tableAfter_concat]
    have wellFormed := (records_tableAfter before).wellFormed
    cases operation with
    | insertIfAbsent given flags =>
        cases isGiven
        cases isGivenOut
        exact wellFormed.names_insertIfAbsent_snd name flags
    | register given list =>
        cases isGiven
        cases isGivenOut
        exact (congrArg (·[_]?) (Table.names_modify _ list)).trans
          (wellFormed.names_insertIfAbsent_snd name 0)
    | find given => cases isGiven
    | lookup given => cases isGiven
    | destroy => cases isGiven
  have further : (tableAfter (before ++ [operation])).names <+:
      (tableAfter (before ++ operation :: after)).names := by
    rw [records.names, recordsThen.names, List.append_cons before operation after,
      sinceDestroy_append (before ++ [operation]) kept]
    exact namesGiven_prefix _ _
  rw [records.wellFormed.find?_eq_some_iff]
  obtain ⟨within, isName⟩ := List.getElem?_eq_some_iff.1 placeThen
  rw [List.prefix_iff_getElem?.1 further id within, isName]

/-- After any history a name is found under the number that was given out for it. -/
theorem find?_tableAfter_iff
    {id : Nat} :
    (tableAfter history).find? name = some id ↔ GivenOut history name id := by
  refine ⟨fun isFound => ?_, find?_tableAfter_of_givenOut⟩
  have records := records_tableAfter history
  have member : name ∈ namesGiven (sinceDestroy history) := by
    rw [← records.names]
    exact List.mem_of_getElem? (records.wellFormed.find?_eq_some_iff.1 isFound)
  obtain ⟨operation, isRecent, isGiven⟩ := mem_namesGiven.1 member
  obtain ⟨earlier, after, split⟩ := List.append_of_mem isRecent
  obtain ⟨before, whole⟩ := sinceDestroy_suffix history
  have kept : Operation.destroy ∉ after := by
    have none := destroy_notMem_sinceDestroy history
    rw [split] at none
    exact fun later => none (by simp [later])
  have decomposed : history = (before ++ earlier) ++ operation :: after := by
    rw [List.append_assoc, ← split, whole]
  obtain ⟨number, isGivenOut⟩ : ∃ number,
      operation.givenOut? (tableAfter (before ++ earlier)) = some number := by
    cases operation <;> first | exact ⟨_, rfl⟩ | cases isGiven
  have givenOut : GivenOut history name number :=
    ⟨before ++ earlier, operation, after, decomposed, kept, isGiven, isGivenOut⟩
  have same := find?_tableAfter_of_givenOut givenOut
  rw [isFound] at same
  cases same
  exact givenOut

namespace Table.Records

variable {table : Table}

/-- After any history a name has the flags with which it was first inserted. -/
theorem get?_flags
    (records : table.Records history)
    (name : String) :
    (table.get? name).map (·.flags) = firstFlags? history name := by
  rw [get?]
  cases isFound : table.find? name with
  | none =>
      rw [records.wellFormed.find?_eq_none_iff, records.names] at isFound
      rw [firstFlags?_of_not_mem isFound]
      rfl
  | some id =>
      rw [records.wellFormed.find?_eq_some_iff, getElem?_names] at isFound
      obtain ⟨entry, isEntry, rfl⟩ := Option.map_eq_some_iff.1 isFound
      rw [records.flags id entry isEntry]
      simp [isEntry]

/-- After any history a name has the list that was last registered for it. -/
theorem lookup?_eq
    (records : table.Records history)
    (name : String) :
    table.lookup? name = lastList? history name := by
  rw [lookup?, get?]
  cases isFound : table.find? name with
  | none =>
      rw [records.wellFormed.find?_eq_none_iff, records.names] at isFound
      rw [lastList?_of_not_mem isFound]
      rfl
  | some id =>
      rw [records.wellFormed.find?_eq_some_iff, getElem?_names] at isFound
      obtain ⟨entry, isEntry, rfl⟩ := Option.map_eq_some_iff.1 isFound
      rw [← records.values id entry isEntry]
      simp [isEntry]

end Table.Records

/-- After every history a table is a map.  Its buckets hold the symbols of their names,
linked from newer to older ones, and its names are those that it was given since it was
last emptied, numbered in the order in which they came.  Each search comes to its end and
finds the number that was given out; the flags of a name are the first that it was given,
and its list is the last. -/
theorem tableAfter_isMap (history : List Operation) :
    (tableAfter history).WellFormed ∧
    (tableAfter history).names = namesGiven (sinceDestroy history) ∧
    ∀ name,
      (tableAfter history).Finds name ((tableAfter history).newest (bucketOf name))
        ((tableAfter history).find? name) ∧
      (tableAfter history).find? name = (namesGiven (sinceDestroy history)).idxOf? name ∧
      (∀ id, (tableAfter history).find? name = some id ↔ GivenOut history name id) ∧
      ((tableAfter history).get? name).map (·.flags) =
        firstFlags? (sinceDestroy history) name ∧
      (tableAfter history).lookup? name = lastList? (sinceDestroy history) name := by
  have records := records_tableAfter history
  refine ⟨records.wellFormed, records.names, fun name =>
    ⟨records.wellFormed.finds name, ?_, fun id => find?_tableAfter_iff,
      records.get?_flags name, records.lookup?_eq name⟩⟩
  rw [records.wellFormed.find?_eq_idxOf?, records.names]

end Symbol
end DeclManual
