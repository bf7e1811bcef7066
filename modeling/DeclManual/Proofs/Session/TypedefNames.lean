import DeclManual.Proofs.Symbol.Histories
import DeclManual.Session.Comments

/-!
# Definitions of typedef names

A typedef defines its names: each of them stands for the enumerator list of the specifier, if
it has one.  The symbols of a session last through all its files, so a name may have been
defined before.  A further definition with a list then replaces the list of the name, but one
without a list leaves the name what it stood for.
-/

namespace DeclManual

open Decl

namespace Symbol

/-! ## Names that are defined -/

/-- A name is given to a table, with its enumerator list if there is one. -/
def Operation.define (list : Option ListId) (name : String) : Operation :=
  match list with
  | some list => .register name list
  | none => .insertIfAbsent name 0

variable {history : List Operation} {names : List String} {name : String} {list : Option ListId}

theorem Operation.given?_define (list : Option ListId) (given : String) :
    (define list given).given? = some given := by
  cases list <;> rfl

theorem Operation.listFor?_define (list : Option ListId) (given name : String) :
    (define list given).listFor? name = if given = name then list else none := by
  cases list with
  | some list => rfl
  | none => exact (ite_self none).symm

theorem destroy_not_mem_define (names : List String) :
    Operation.destroy ∉ names.map (Operation.define list) := by
  intro member
  obtain ⟨name, -, isDestroy⟩ := List.mem_map.1 member
  cases list <;> cases isDestroy

/-- A name that is defined without a list keeps the one it had. -/
theorem lastList?_append_define
    (history : List Operation)
    (list : Option ListId)
    (names : List String)
    (name : String) :
    lastList? (history ++ names.map (Operation.define list)) name =
      if name ∈ names then list.or (lastList? history name) else lastList? history name := by
  induction names using List.reverseRecOn with
  | nil => rw [List.map_nil, List.append_nil, if_neg List.not_mem_nil]
  | append_singleton names last hypothesis =>
      rw [List.map_append, List.map_singleton, ← List.append_assoc, lastList?_concat, hypothesis,
        Operation.listFor?_define]
      by_cases isLast : last = name
      · have member : name ∈ names ++ [last] := by simp [isLast]
        rw [if_pos isLast, if_pos member]
        split
        · rw [← Option.or_assoc, Option.or_self]
        · rfl
      · have same : name ∈ names ++ [last] ↔ name ∈ names := by simp [Ne.symm isLast]
        rw [if_neg isLast, Option.none_or]
        exact (if_congr same rfl rfl).symm

theorem contains_tableAfter (history : List Operation) (name : String) :
    (tableAfter history).contains name = true ↔ name ∈ namesGiven (sinceDestroy history) := by
  have records := records_tableAfter history
  rw [Table.contains, Option.isSome_iff_ne_none, Ne, records.wellFormed.find?_eq_none_iff, not_not,
    records.names]

/-- A table holds the names that are defined, and those from before. -/
theorem contains_append_define
    (history : List Operation)
    (list : Option ListId)
    (names : List String)
    (name : String) :
    (tableAfter (history ++ names.map (Operation.define list))).contains name = true ↔
      name ∈ names ∨ (tableAfter history).contains name = true := by
  have given : (∃ operation ∈ names.map (Operation.define list), operation.given? = some name) ↔
      name ∈ names := by
    simp [Operation.given?_define]
  rw [contains_tableAfter, contains_tableAfter,
    sinceDestroy_append history (destroy_not_mem_define names), mem_namesGiven, mem_namesGiven,
    ← given]
  simp only [List.mem_append, or_and_right, exists_or, or_comm]

/-- What a name stands for after some names are defined. -/
theorem lookup?_append_define
    (history : List Operation)
    (list : Option ListId)
    (names : List String)
    (name : String) :
    (tableAfter (history ++ names.map (Operation.define list))).lookup? name =
      if name ∈ names then list.or ((tableAfter history).lookup? name)
      else (tableAfter history).lookup? name := by
  rw [(records_tableAfter _).lookup?_eq, (records_tableAfter _).lookup?_eq,
    sinceDestroy_append history (destroy_not_mem_define names), lastList?_append_define]

end Symbol

namespace Session

/-! ## The typedef names of a session -/

/-- The names that some declarators declare. -/
def declaredNames (declarators : List Declarator) : List String :=
  declarators.filterMap (·.name)

theorem declareTypedef_eq (session : Session) (list : Option ListId) (name : String) :
    session.declareTypedef list name =
      { session with typedefs := (Symbol.Operation.define list name).apply session.typedefs } := by
  cases list <;> rfl

/-- A typedef defines its names one after another, and changes nothing else. -/
theorem declareTypedefs_eq (session : Session) (spec : Spec) (declarators : List Declarator) :
    session.declareTypedefs spec declarators =
      { session with
        typedefs :=
          ((declaredNames declarators).map (Symbol.Operation.define spec.enumList)).foldl
            Symbol.Operation.apply session.typedefs } := by
  unfold declareTypedefs declaredNames
  induction declarators.filterMap (·.name) generalizing session with
  | nil => rfl
  | cons name rest hypothesis =>
      rw [List.foldl_cons, hypothesis, declareTypedef_eq]
      rfl

/-- What is done to a session before a typedef is read. -/
inductive Step where
  | newEnumList (tag : Option String) (first : Enumerator)
  | registerEnumTag (tag : String) (list : ListId)
  | declareTypedefs (spec : Spec) (declarators : List Declarator)
  | beginFile (name : Option String) (modified : Option Int)

namespace Step

/-- The session that a step leaves. -/
def apply (session : Session) : Step → Session
  | .newEnumList tag first => (session.newEnumList tag first).1
  | .registerEnumTag tag list => session.registerEnumTag tag list
  | .declareTypedefs spec declarators => session.declareTypedefs spec declarators
  | .beginFile name modified => session.beginFile name modified

/-- What a step does to the typedef names. -/
def definitions : Step → List Symbol.Operation
  | .declareTypedefs spec declarators =>
    (declaredNames declarators).map (Symbol.Operation.define spec.enumList)
  | .newEnumList _ _ | .registerEnumTag _ _ | .beginFile _ _ => []

theorem typedefs_apply (session : Session) (step : Step) :
    (step.apply session).typedefs =
      step.definitions.foldl Symbol.Operation.apply session.typedefs := by
  cases step with
  | newEnumList tag first => cases tag <;> rfl
  | registerEnumTag tag list => rfl
  | declareTypedefs spec declarators => rw [apply, declareTypedefs_eq]; rfl
  | beginFile name modified => rfl

end Step

/-- The session that some steps leave of a new one. -/
def afterSteps (options : Options) (steps : List Step) : Session :=
  steps.foldl Step.apply (start options)

theorem afterSteps_concat (options : Options) (steps : List Step) (step : Step) :
    afterSteps options (steps ++ [step]) = step.apply (afterSteps options steps) := by
  simp [afterSteps]

/-- The typedef names hold the definitions of all steps. -/
theorem typedefs_afterSteps (options : Options) (steps : List Step) :
    (afterSteps options steps).typedefs = Symbol.tableAfter (steps.flatMap Step.definitions) := by
  induction steps using List.reverseRecOn with
  | nil => rfl
  | append_singleton steps step hypothesis =>
      rw [afterSteps_concat, Step.typedefs_apply, hypothesis, List.flatMap_append,
        List.flatMap_singleton]
      exact (List.foldl_append ..).symm

/-- After every history of a session, a typedef makes typedef names of the names that it
declares.  If its specifier has an enumerator list, they stand for that list from then on, and
else for the one that they stood for before; so they stand for what the specifier has exactly
if it has a list or they stood for none.  The other names and all enumeration tags mean what
they meant. -/
theorem declareTypedefs_defines
    (options : Options)
    (steps : List Step)
    (spec : Spec)
    (declarators : List Declarator) :
    let before := afterSteps options steps
    let after := before.declareTypedefs spec declarators
    (∀ declarator ∈ declarators, ∀ name ∈ declarator.name,
      after.isTypedefName name = true ∧
      after.typedefEnumList name = spec.enumList.or (before.typedefEnumList name) ∧
      (after.typedefEnumList name = spec.enumList ↔
        spec.enumList.isSome = true ∨ before.typedefEnumList name = none)) ∧
    (∀ name, (∀ declarator ∈ declarators, declarator.name ≠ some name) →
      after.isTypedefName name = before.isTypedefName name ∧
      after.typedefEnumList name = before.typedefEnumList name) ∧
    ∀ tag, after.tagEnumList tag = before.tagEnumList tag := by
  intro before after
  have isAfter : after.typedefs = Symbol.tableAfter (steps.flatMap Step.definitions ++
      (declaredNames declarators).map (Symbol.Operation.define spec.enumList)) := by
    rw [← Step.definitions, ← List.flatMap_singleton Step.definitions, ← List.flatMap_append,
      ← typedefs_afterSteps options, afterSteps_concat]
    rfl
  have isBefore : before.typedefs = Symbol.tableAfter (steps.flatMap Step.definitions) :=
    typedefs_afterSteps options steps
  have isName (name : String) : after.isTypedefName name = true ↔
      name ∈ declaredNames declarators ∨ before.isTypedefName name = true := by
    rw [isTypedefName, isAfter, Symbol.contains_append_define, ← isBefore]
    rfl
  have standsFor (name : String) : after.typedefEnumList name =
      if name ∈ declaredNames declarators then spec.enumList.or (before.typedefEnumList name)
      else before.typedefEnumList name := by
    rw [typedefEnumList, isAfter, Symbol.lookup?_append_define, ← isBefore]
    rfl
  refine ⟨?_, ?_, ?_⟩
  · intro declarator listed name isDeclared
    have member : name ∈ declaredNames declarators :=
      List.mem_filterMap.2 ⟨declarator, listed, isDeclared⟩
    rw [isName, standsFor, if_pos member]
    refine ⟨.inl member, rfl, ?_⟩
    cases spec.enumList <;> simp
  · intro name undeclared
    have noMember : name ∉ declaredNames declarators := by
      intro member
      obtain ⟨declarator, listed, isDeclared⟩ := List.mem_filterMap.1 member
      exact undeclared declarator listed isDeclared
    rw [standsFor, if_neg noMember, Bool.eq_iff_iff, isName]
    exact ⟨or_iff_right noMember, rfl⟩
  · intro tag
    rw [show after = before.declareTypedefs spec declarators from rfl, declareTypedefs_eq]
    rfl

/-- A file that defines `Switch` as an enumeration without a tag and declares another one with the
tag `mode`, and the start of a second file. -/
def switchSteps : List Step :=
  [.beginFile (some "a.h") none, .newEnumList none { name := "ON" },
    .declareTypedefs ((Spec.ofText "typedef enum" .junk).withEnumList (some 0))
      [.identifier "Switch"],
    .newEnumList (some "mode") { name := "FAST" }, .beginFile (some "b.h") none]

/-- `typedef enum mode *Switch, Mode;` in the second file. -/
theorem declareTypedefs_defines_modes :
    let before := afterSteps {} switchSteps
    let spec := (Spec.ofText "typedef enum mode" .junk).withEnumList (some 1)
    let after := before.declareTypedefs spec
      [{ Declarator.identifier "Switch" with text := some "*Switch" }, .identifier "Mode"]
    before.tagEnumList "mode" = spec.enumList ∧ before.typedefEnumList "Switch" = some 0 ∧
      after.isTypedefName "Switch" = true ∧ after.typedefEnumList "Switch" = some 1 ∧
      after.isTypedefName "Mode" = true ∧ after.typedefEnumList "Mode" = some 1 ∧
      after.isTypedefName "size_t" = before.isTypedefName "size_t" ∧
      after.tagEnumList "mode" = before.tagEnumList "mode" := by
  intro before spec after
  obtain ⟨declared, others, tags⟩ := declareTypedefs_defines {} switchSteps spec
    [{ Declarator.identifier "Switch" with text := some "*Switch" }, .identifier "Mode"]
  obtain ⟨isSwitch, switchList, -⟩ := declared _ List.mem_cons_self "Switch" rfl
  obtain ⟨isMode, modeList, -⟩ := declared _ (List.mem_cons_of_mem _ List.mem_cons_self) "Mode" rfl
  have undeclared := (others "size_t" (by simp [Declarator.identifier, Declarator.ofText])).1
  exact ⟨by decide +kernel, by decide +kernel, isSwitch, switchList, isMode, modeList, undeclared,
    tags "mode"⟩

/-- After `typedef int Switch;` in the second file, the name still stands for the list of the
first one. -/
theorem declareTypedefs_keepsList :
    let after := (afterSteps {} switchSteps).declareTypedefs (.ofText "typedef int" .junk)
      [.identifier "Switch"]
    after.isTypedefName "Switch" = true ∧ after.typedefEnumList "Switch" = some 0 ∧
      (Spec.ofText "typedef int" .junk).enumList = none := by
  decide +kernel

end Session
end DeclManual
