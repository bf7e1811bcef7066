import DeclManual.Proofs.Lists
import DeclManual.Session.Comments

/-!
# Links to enumerator lists

Specifiers, parameters, declarators, symbols and pages refer to enumerator lists by
their position in the store.  Here is which lists are `known` to each of them, and that
every operation on declarations and symbol tables uses no list that was not known
before.
-/

namespace DeclManual
namespace Decl

/-- The enumerator list of a specifier, if it has one, is known. -/
def Spec.Linked (known : ListId -> Prop) (spec : Spec) : Prop :=
  ∀ list ∈ spec.enumList, known list

/-- A parameter stands in a declarator at some depth: in its own parameter list, in the
declarator of one of its parameters, or in the declarator that it is applied to. -/
inductive Declarator.Holds : Declarator -> Parameter -> Prop where
  | listed {declarator : Declarator} {parameter : Parameter} :
      parameter ∈ declarator.parameters -> Holds declarator parameter
  | nested {declarator : Declarator} {outer parameter : Parameter} :
      outer ∈ declarator.parameters -> Holds outer.declarator parameter ->
      Holds declarator parameter
  | inner {declarator inner : Declarator} {parameter : Parameter} :
      declarator.inner = some inner -> Holds inner parameter -> Holds declarator parameter

/-- Every parameter of a declarator, at any depth, is good. -/
def Declarator.HoldsOnly (good : Parameter -> Prop) (declarator : Declarator) : Prop :=
  ∀ parameter, declarator.Holds parameter -> good parameter

/-- Some parameters are good, and so are those in their declarators. -/
def HeldAll (good : Parameter -> Prop) (parameters : List Parameter) : Prop :=
  ∀ parameter ∈ parameters, good parameter ∧ parameter.declarator.HoldsOnly good

/-- The enumerator list of every parameter of a declarator, at any depth, is known. -/
def Declarator.Linked (known : ListId -> Prop) (declarator : Declarator) : Prop :=
  ∀ parameter, declarator.Holds parameter -> parameter.spec.Linked known

/-- The enumerator lists of a parameter and of those in its declarator are known. -/
structure ParameterOf.Linked (known : ListId -> Prop) (parameter : Parameter) : Prop where
  spec : parameter.spec.Linked known
  declarator : parameter.declarator.Linked known

/-- The enumerator lists of some parameters are known. -/
def LinkedAll (known : ListId -> Prop) (parameters : List Parameter) : Prop :=
  ∀ parameter ∈ parameters, parameter.Linked known

/-! ## Parameters at any depth -/

section Held

variable {good : Parameter -> Prop}

namespace Declarator

/-- A declarator holds only good parameters if its own are, and those of what it wraps. -/
theorem holdsOnly_iff {declarator : Declarator} :
    declarator.HoldsOnly good ↔
      HeldAll good declarator.parameters ∧
        ∀ inner ∈ declarator.inner, inner.HoldsOnly good := by
  constructor
  · intro only
    refine ⟨fun parameter member => ⟨?_, ?_⟩, fun inner has parameter held => ?_⟩
    · exact only parameter (.listed member)
    · exact fun deeper held => only deeper (.nested member held)
    · exact only parameter (.inner has held)
  · rintro ⟨parameters, inners⟩ parameter held
    cases held with
    | listed member => exact (parameters parameter member).1
    | nested member deeper => exact (parameters _ member).2 parameter deeper
    | inner has deeper => exact inners _ has parameter deeper

/-- A declarator holds the parameters of its list and of its inner declarator alone. -/
theorem HoldsOnly.congr
    {declarator other : Declarator}
    (only : declarator.HoldsOnly good)
    (parameters : other.parameters = declarator.parameters)
    (inner : other.inner = declarator.inner) :
    other.HoldsOnly good := by
  rw [holdsOnly_iff] at only ⊢
  rwa [parameters, inner]

/-- A declarator without parameters holds only good ones. -/
theorem holdsOnly_ofText (text name : Option String) : (ofText text name).HoldsOnly good :=
  holdsOnly_iff.2 ⟨fun _ => nofun, fun _ => nofun⟩

theorem HoldsOnly.function
    {inner : Declarator}
    {parameters : List Parameter}
    (only : inner.HoldsOnly good)
    (listed : HeldAll good parameters) :
    (function inner parameters).HoldsOnly good := by
  refine holdsOnly_iff.2 ⟨listed, ?_⟩
  rintro _ ⟨⟩
  exact only

/-- The parameters of the function declared are good. -/
theorem HoldsOnly.headParameters
    {declarator : Declarator}
    (only : declarator.HoldsOnly good) :
    HeldAll good declarator.headParameters := by
  unfold Declarator.headParameters
  fun_induction head declarator with
  | case1 name text kind parameters comment returnComment inner _ hypothesis =>
      exact hypothesis ((holdsOnly_iff.1 only).2 inner rfl)
  | case2 => exact (holdsOnly_iff.1 only).1
  | case3 => exact (holdsOnly_iff.1 only).1

/-- Changing the parameters to good ones keeps all of them good. -/
theorem HoldsOnly.updateHead
    {declarator : Declarator}
    {change : List Parameter -> List Parameter}
    (only : declarator.HoldsOnly good)
    (changed : HeldAll good (change declarator.headParameters)) :
    (declarator.updateHead change).HoldsOnly good := by
  fun_induction Declarator.updateHead change declarator with
  | case1 name text kind parameters comment returnComment inner applied hypothesis =>
      rw [Declarator.headParameters, head, if_pos applied] at changed
      rw [holdsOnly_iff] at only ⊢
      refine ⟨only.1, ?_⟩
      rintro _ ⟨⟩
      exact hypothesis (only.2 inner rfl) changed
  | case2 name text kind parameters comment returnComment inner applied =>
      rw [Declarator.headParameters, head, if_neg applied] at changed
      rw [holdsOnly_iff] at only ⊢
      exact ⟨changed, only.2⟩
  | case3 name text kind parameters comment returnComment =>
      exact holdsOnly_iff.2 ⟨changed, fun _ => nofun⟩

end Declarator

namespace HeldAll

variable {parameters : List Parameter} {parameter : Parameter}

theorem nil : HeldAll good [] :=
  fun _ member => absurd member List.not_mem_nil

theorem concat
    (held : HeldAll good parameters)
    (last : good parameter ∧ parameter.declarator.HoldsOnly good) :
    HeldAll good (parameters ++ [parameter]) := by
  intro other member
  rcases List.mem_append.1 member with earlier | isLast
  · exact held other earlier
  · exact List.mem_singleton.1 isLast ▸ last

theorem dropLast (held : HeldAll good parameters) : HeldAll good parameters.dropLast :=
  fun parameter member => held parameter (List.dropLast_subset _ member)

theorem set
    (held : HeldAll good parameters)
    (changed : good parameter ∧ parameter.declarator.HoldsOnly good)
    (index : Nat) :
    HeldAll good (parameters.set index parameter) := by
  intro other member
  rcases List.mem_or_eq_of_mem_set member with kept | rfl
  · exact held other kept
  · exact changed

end HeldAll
end Held

variable {known : ListId -> Prop}

/-! ## More lists become known -/

/-- Parameters are linked if every one of them refers to known lists. -/
theorem linkedAll_iff {parameters : List Parameter} :
    LinkedAll known parameters ↔
      HeldAll (fun parameter => parameter.spec.Linked known) parameters :=
  ⟨fun linked parameter member => ⟨(linked parameter member).spec,
    (linked parameter member).declarator⟩, fun held parameter member =>
    ⟨(held parameter member).1, (held parameter member).2⟩⟩

namespace Spec

theorem Linked.mono
    {spec : Spec}
    {wider : ListId -> Prop}
    (linked : spec.Linked known)
    (more : ∀ list, known list -> wider list) :
    spec.Linked wider :=
  fun list has => more list (linked list has)

/-- Specifiers without a list refer to none. -/
theorem linked_of_none {spec : Spec} (none : spec.enumList = none) : spec.Linked known := by
  intro list has
  rw [none] at has
  cases has

theorem linked_ofText (text : String) (flags : Flags) : (ofText text flags).Linked known :=
  linked_of_none rfl

/-- Specifiers with a known list are linked. -/
theorem linked_withEnumList
    (text : String)
    {list : Option ListId}
    (inStore : ∀ id ∈ list, known id) :
    ((ofText text {}).withEnumList list).Linked known := by
  cases list with
  | none => exact linked_ofText text {}
  | some id => exact inStore

/-- Joined specifiers refer to a list of one of them. -/
theorem Linked.join
    {first second : Spec}
    (left : first.Linked known)
    (right : second.Linked known) :
    (first.join second).Linked known := by
  intro list has
  rcases Option.or_eq_some_iff.1 has with fromFirst | ⟨-, fromSecond⟩
  · exact left list fromFirst
  · exact right list fromSecond

end Spec

namespace Declarator

theorem Linked.mono
    {declarator : Declarator}
    {wider : ListId -> Prop}
    (linked : declarator.Linked known)
    (more : ∀ list, known list -> wider list) :
    declarator.Linked wider :=
  fun parameter held => (linked parameter held).mono more

/-- A declarator is linked through its parameters and its inner declarator alone. -/
theorem Linked.congr
    {declarator other : Declarator}
    (linked : declarator.Linked known)
    (parameters : other.parameters = declarator.parameters)
    (inner : other.inner = declarator.inner) :
    other.Linked known :=
  HoldsOnly.congr linked parameters inner

theorem linked_ofText (text name : Option String) : (ofText text name).Linked known :=
  holdsOnly_ofText text name

theorem Linked.function
    {inner : Declarator}
    {parameters : List Parameter}
    (linked : inner.Linked known)
    (listed : LinkedAll known parameters) :
    (function inner parameters).Linked known :=
  HoldsOnly.function linked (linkedAll_iff.1 listed)

/-- The parameters of the function declared are linked. -/
theorem Linked.headParameters
    {declarator : Declarator}
    (linked : declarator.Linked known) :
    LinkedAll known declarator.headParameters :=
  linkedAll_iff.2 (HoldsOnly.headParameters linked)

/-- Changing the parameters to linked ones keeps the declarator linked. -/
theorem Linked.updateHead
    {declarator : Declarator}
    {change : List Parameter -> List Parameter}
    (linked : declarator.Linked known)
    (changed : LinkedAll known (change declarator.headParameters)) :
    (declarator.updateHead change).Linked known :=
  HoldsOnly.updateHead linked (linkedAll_iff.1 changed)

/-- Changing the parameters leaves the name as it is. -/
@[simp] theorem name_updateHead
    (change : List Parameter -> List Parameter)
    (declarator : Declarator) :
    (declarator.updateHead change).name = declarator.name := by
  unfold updateHead
  split
  · split <;> rfl
  · rfl

/-- Changing the parameters leaves the comment as it is. -/
@[simp] theorem comment_updateHead
    (change : List Parameter -> List Parameter)
    (declarator : Declarator) :
    (declarator.updateHead change).comment = declarator.comment := by
  unfold updateHead
  split
  · split <;> rfl
  · rfl

end Declarator

namespace LinkedAll

theorem mono
    {parameters : List Parameter}
    {wider : ListId -> Prop}
    (linked : LinkedAll known parameters)
    (more : ∀ list, known list -> wider list) :
    LinkedAll wider parameters :=
  fun parameter member =>
    ⟨(linked parameter member).spec.mono more, (linked parameter member).declarator.mono more⟩

theorem concat
    {parameters : List Parameter}
    {parameter : Parameter}
    (linked : LinkedAll known parameters)
    (last : parameter.Linked known) :
    LinkedAll known (parameters ++ [parameter]) :=
  linkedAll_iff.2 (HeldAll.concat (linkedAll_iff.1 linked) ⟨last.spec, last.declarator⟩)

theorem dropLast
    {parameters : List Parameter}
    (linked : LinkedAll known parameters) :
    LinkedAll known parameters.dropLast :=
  linkedAll_iff.2 (linkedAll_iff.1 linked).dropLast

theorem getD
    {parameters : List Parameter}
    (linked : LinkedAll known parameters)
    (index : Nat) :
    (parameters.getD index default).Linked known := by
  rw [List.getD_eq_getElem?_getD]
  cases found : parameters[index]? with
  | none => exact ⟨Spec.linked_of_none rfl, Declarator.linked_ofText none none⟩
  | some parameter => exact linked parameter (List.mem_of_getElem? found)

theorem set
    {parameters : List Parameter}
    {parameter : Parameter}
    (linked : LinkedAll known parameters)
    (changed : parameter.Linked known)
    (index : Nat) :
    LinkedAll known (parameters.set index parameter) :=
  linkedAll_iff.2
    (HeldAll.set (linkedAll_iff.1 linked) ⟨changed.spec, changed.declarator⟩ index)

end LinkedAll
end Decl

/-! ## Symbol tables -/

namespace Symbol.Table

open Decl

/-- The enumerator lists that the symbols of a table stand for are known. -/
def Linked (known : ListId -> Prop) (table : Table) : Prop :=
  ∀ entry ∈ table.entries, ∀ list ∈ entry.value, known list

variable {known : ListId -> Prop} {table : Table}

/-- An empty table refers to no list. -/
theorem linked_empty : Linked known {} := fun _ => nofun

theorem Linked.mono
    {wider : ListId -> Prop}
    (linked : table.Linked known)
    (more : ∀ list, known list -> wider list) :
    table.Linked wider :=
  fun entry member list has => more list (linked entry member list has)

/-- What a linked table refers to is known. -/
theorem Linked.lookup?
    (linked : table.Linked known)
    (name : String) :
    ∀ list ∈ table.lookup? name, known list := by
  intro list found
  obtain ⟨entry, at_, has⟩ := Option.bind_eq_some_iff.1 found
  unfold get? at at_
  split at at_
  · exact linked entry (Array.mem_of_getElem? at_) list has
  · cases at_

/-- Inserting a name adds no reference. -/
theorem Linked.insertIfAbsent
    (linked : table.Linked known)
    (name : String)
    (flags : UInt16) :
    (table.insertIfAbsent name flags).1.Linked known := by
  unfold Table.insertIfAbsent
  split
  · exact linked
  · intro entry member
    rcases Array.mem_push.1 member with old | rfl
    · exact linked entry old
    · exact fun _ => nofun

/-- Registering a known list keeps the table linked. -/
theorem Linked.register
    (linked : table.Linked known)
    (name : String)
    {list : ListId}
    (new : known list) :
    (table.register name list).Linked known := by
  intro entry member other has
  obtain ⟨index, at_⟩ := Array.mem_iff_getElem?.1 member
  have inserted := linked.insertIfAbsent name 0
  rw [Table.register, Array.getElem?_modify] at at_
  split at at_
  · obtain ⟨old, -, rfl⟩ := Option.map_eq_some_iff.1 at_
    obtain rfl := Option.some_inj.1 has
    exact new
  · exact inserted entry (Array.mem_of_getElem? at_) other has

end Symbol.Table

/-! ## The store -/

namespace Decl.EnumStore

/-- No list of a store is empty. -/
def Filled (store : EnumStore) : Prop :=
  ∀ list ∈ store.lists, list ≠ []

/-- Starting a list makes the store one larger. -/
theorem size_start (store : EnumStore) (first : Enumerator) :
    (store.start first).1.size = store.size + 1 := by
  simp [start, size]

theorem size_append (store : EnumStore) (list : ListId) (enumerator : Enumerator) :
    (store.append list enumerator).size = store.size :=
  List.length_modify ..

theorem Filled.start
    {store : EnumStore}
    (filled : store.Filled)
    (first : Enumerator) :
    (store.start first).1.Filled := by
  intro list member
  rcases List.mem_append.1 member with old | new
  · exact filled list old
  · rw [List.mem_singleton.1 new]
    exact List.cons_ne_nil first []

theorem Filled.append
    {store : EnumStore}
    (filled : store.Filled)
    (list : ListId)
    (enumerator : Enumerator) :
    (store.append list enumerator).Filled := by
  intro entries member
  rcases mem_modify member with old | ⟨old, -, rfl⟩
  · exact filled entries old
  · simp

/-- A comment neither adds nor removes lists or enumerators. -/
theorem attachComment_cases
    {store commented : EnumStore}
    {list : ListId}
    {comment : String}
    (attached : store.attachComment list comment = .ok commented) :
    commented.size = store.size ∧ (store.Filled -> commented.Filled) := by
  unfold attachComment at attached
  split at attached
  · obtain rfl := Except.ok.inj attached
    exact ⟨rfl, id⟩
  · split at attached
    · obtain rfl := Except.ok.inj attached
      refine ⟨List.length_modify .., fun filled entries member => ?_⟩
      rcases mem_modify member with old | ⟨old, -, rfl⟩
      · exact filled entries old
      · simp
    · cases attached

end Decl.EnumStore
end DeclManual
