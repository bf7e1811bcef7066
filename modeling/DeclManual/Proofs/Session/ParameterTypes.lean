import DeclManual.Proofs.Session.Conflicts
import DeclManual.Session.Comments
import Mathlib.Data.List.Basic

/-!
# What declarations make of old-style parameters

A declaration types the parameters of an old-style definition one after another: each of
its declarators types the first parameter of its name, and records a conflict where its
type or its comment disagrees with what is there.  The parameters keep their number, their
order and their names, and those that are not declared stay as they are.  A parameter that
is declared has the texts of the last of its declarators, whether or not there was a
conflict; markers that are known and an enumerator list stay what they were.
-/

namespace DeclManual

open Decl

/-- Whether a declarator declares a parameter of a given name. -/
def Decl.Declarator.Declares (declarator : Declarator) (parameter : Parameter) : Prop :=
  parameter.declarator.name = some (declarator.name.getD "")

namespace Session

variable {promote : Bool} {spec : Spec} {comment : Option String} {declarators : List Declarator}
  {first last declarator : Declarator} {before between parameter : Parameter} {index : Nat}

/-! ## One parameter -/

/-- A parameter as it is typed by a declarator, whatever its comment. -/
structure TypedBy
    (promote : Bool)
    (spec : Spec)
    (last : Declarator)
    (before after : Parameter) : Prop where
  declares : last.Declares before
  spec : after.spec =
    { flags := if before.spec.flags.isJunk then spec.flags else before.spec.flags
      text := promotedText promote spec last
      enumList := before.spec.enumList.or spec.enumList }
  declarator : after.declarator = { last with comment := after.declarator.comment }

theorem typedBy_typeParameter
    (promote : Bool)
    (spec : Spec)
    (comment : Option String)
    (declares : declarator.Declares before) :
    TypedBy promote spec declarator before
      (typeParameter promote spec comment declarator before).1 :=
  ⟨declares, rfl, rfl⟩

theorem TypedBy.declares_of
    (typed : TypedBy promote spec first before between)
    (declares : last.Declares between) :
    last.Declares before := by
  have name : first.name = some (last.name.getD "") := by
    rwa [Declarator.Declares, typed.declarator] at declares
  have declared := typed.declares
  rwa [Declarator.Declares, name] at declared

/-- What is typed twice is as if the later declarator had typed it alone. -/
theorem TypedBy.trans
    {after : Parameter}
    (left : TypedBy promote spec first before between)
    (right : TypedBy promote spec last between after) :
    TypedBy promote spec last before after where
  declares := left.declares_of right.declares
  spec := by
    rw [right.spec, left.spec]
    congr 1
    · by_cases junk : before.spec.flags.isJunk = true <;> simp [junk]
    · simp [Option.or_assoc]
  declarator := right.declarator

theorem TypedBy.nameText {after : Parameter} (typed : TypedBy promote spec last before after) :
    after.nameText = before.nameText := by
  rw [ParameterOf.nameText, ParameterOf.nameText, typed.declarator, typed.declares]
  rfl

/-! ## The first parameter of a name -/

/-- The place of the parameter that a declarator declares. -/
def declaredAt (parameters : List Parameter) (declarator : Declarator) : Option Nat :=
  parameters.findIdx? fun parameter => parameter.declarator.name == some (declarator.name.getD "")

theorem exists_of_declaredAt
    {parameters : List Parameter}
    (found : declaredAt parameters declarator = some index) :
    ∃ parameter, parameters[index]? = some parameter ∧ declarator.Declares parameter := by
  obtain ⟨inside, named, -⟩ := List.findIdx?_eq_some_iff_getElem.1 found
  exact ⟨_, List.getElem?_eq_getElem inside, beq_iff_eq.1 named⟩

/-- Whether no parameter in front of a place has the name of the parameter that is there. -/
def IsFirst (parameters : List Parameter) (index : Nat) (parameter : Parameter) : Prop :=
  ∀ earlier < index, ∀ other, parameters[earlier]? = some other ->
    ∀ declarator : Declarator, declarator.Declares parameter -> ¬ declarator.Declares other

theorem declaredAt_of_isFirst
    {parameters : List Parameter}
    (isFirst : IsFirst parameters index parameter)
    (there : parameters[index]? = some parameter)
    (declares : declarator.Declares parameter) :
    declaredAt parameters declarator = some index := by
  obtain ⟨inside, rfl⟩ := List.getElem?_eq_some_iff.1 there
  refine List.findIdx?_eq_some_iff_getElem.2 ⟨inside, beq_iff_eq.2 declares, ?_⟩
  intro earlier inFront same
  exact isFirst earlier inFront _ (List.getElem?_eq_getElem (Nat.lt_trans inFront inside))
    declarator declares (beq_iff_eq.1 same)

theorem isFirst_of_declaredAt
    {parameters : List Parameter}
    (found : declaredAt parameters declarator = some index)
    (declares : declarator.Declares parameter) :
    IsFirst parameters index parameter := by
  obtain ⟨inside, -, others⟩ := List.findIdx?_eq_some_iff_getElem.1 found
  intro earlier before other there further declaresFurther declaresOther
  obtain ⟨insideToo, rfl⟩ := List.getElem?_eq_some_iff.1 there
  have sameName : declarator.Declares parameters[earlier] :=
    declaresOther.trans (declaresFurther.symm.trans declares)
  exact others earlier before (beq_iff_eq.2 sameName)

/-- What was the first of its name still is where parameters keep or lose their names. -/
theorem IsFirst.of_names
    {parameters changed : List Parameter}
    (length : changed.length = parameters.length)
    (names : ∀ (index : Nat) (before : Parameter), parameters[index]? = some before ->
      ∃ after, changed[index]? = some after ∧
        ∀ declarator : Declarator, declarator.Declares after -> declarator.Declares before)
    (isFirst : IsFirst parameters index before)
    (there : parameters[index]? = some before)
    (thereThen : changed[index]? = some between) :
    IsFirst changed index between := by
  intro earlier inFront other thereOther declarator declares declaresOther
  obtain ⟨inside, -⟩ := List.getElem?_eq_some_iff.1 thereOther
  have thereOld : parameters[earlier]? = some _ := List.getElem?_eq_getElem (length ▸ inside)
  obtain ⟨_, isOther, olderOther⟩ := names earlier _ thereOld
  obtain rfl := Option.some.inj (isOther.symm.trans thereOther)
  obtain ⟨_, isBetween, older⟩ := names index before there
  obtain rfl := Option.some.inj (isBetween.symm.trans thereThen)
  exact isFirst earlier inFront _ thereOld declarator (older declarator declares)
    (olderOther declarator declaresOther)

/-! ## What becomes of a parameter -/

section

variable (promote : Bool) (diagnosis : Conflict -> Diagnostic) (spec : Spec)
  (comment : Option String)

/-- What a declarator makes of a parameter, and the diagnostics that are added meanwhile.  If it
reaches the parameter, it types it and adds its conflicts. -/
inductive Typing (reached : Prop) (declarator : Declarator) :
    Parameter -> Parameter -> List Diagnostic -> Prop
  | passed {parameter : Parameter} {new : List Diagnostic} (unreached : ¬ reached) :
      Typing reached declarator parameter parameter new
  | typed {parameter : Parameter} (declares : declarator.Declares parameter) :
      Typing reached declarator parameter
        (typeParameter promote spec comment declarator parameter).1
        ((typeParameter promote spec comment declarator parameter).2.map diagnosis)

/-- What declarators make of a parameter one after another.  If the parameter is the first of its
name, those that declare it reach it. -/
inductive Typings (isFirst : Prop) :
    List Declarator -> Parameter -> Parameter -> List Diagnostic -> Prop
  | nil {parameter : Parameter} : Typings isFirst [] parameter parameter []
  | cons {declarator : Declarator} {rest : List Declarator} {before between after : Parameter}
      {new further : List Diagnostic}
      (head : Typing promote diagnosis spec comment (isFirst ∧ declarator.Declares before)
        declarator before between new)
      (tail : Typings isFirst rest between after further) :
      Typings isFirst (declarator :: rest) before after (new ++ further)

end

section

variable {diagnosis : Conflict -> Diagnostic} {reached isFirst : Prop} {after : Parameter}
  {new : List Diagnostic}

theorem Typing.mono
    {less : Prop}
    (implies : less -> reached)
    (typing : Typing promote diagnosis spec comment reached declarator before after new) :
    Typing promote diagnosis spec comment less declarator before after new := by
  cases typing with
  | passed unreached => exact .passed (mt implies unreached)
  | typed declares => exact .typed declares

theorem Typings.mono
    {less : Prop}
    (implies : less -> isFirst)
    (typings : Typings promote diagnosis spec comment isFirst declarators before after new) :
    Typings promote diagnosis spec comment less declarators before after new := by
  induction typings with
  | nil => exact .nil
  | cons head _ hypothesis => exact .cons (head.mono (And.imp_left implies)) hypothesis

/-- A declarator gives no parameter a new name. -/
theorem Typing.declares_of
    (typing : Typing promote diagnosis spec comment reached first before between new)
    (declares : declarator.Declares between) :
    declarator.Declares before := by
  cases typing with
  | passed => exact declares
  | typed declared =>
      exact (typedBy_typeParameter promote spec comment declared).declares_of declares

/-- The declarators leave a parameter as it is, or one of them types it.  This is the last of those
that declare it, if the parameter is the first of its name. -/
theorem Typings.typedBy
    (typings : Typings promote diagnosis spec comment isFirst declarators before after new) :
    (before = after ∧ (isFirst -> ∀ declarator ∈ declarators, ¬ declarator.Declares before)) ∨
      ∃ early last late, declarators = early ++ last :: late ∧
        TypedBy promote spec last before after ∧
        (isFirst -> ∀ declarator ∈ late, ¬ declarator.Declares after) := by
  induction typings with
  | nil => exact .inl ⟨rfl, by simp⟩
  | @cons declarator rest before between after _ _ head tail hypothesis =>
      rcases hypothesis with ⟨rfl, undeclared⟩ | ⟨early, last, late, rfl, typedLast, undeclared⟩
      · cases head with
        | passed unreached =>
            refine .inl ⟨rfl, fun isFirst other member declares => ?_⟩
            rcases List.mem_cons.1 member with rfl | member
            · exact unreached ⟨isFirst, declares⟩
            · exact undeclared isFirst other member declares
        | typed declares =>
            exact .inr ⟨[], declarator, rest, rfl,
              typedBy_typeParameter promote spec comment declares, undeclared⟩
      · refine .inr ⟨declarator :: early, last, late, rfl, ?_, undeclared⟩
        cases head with
        | passed => exact typedLast
        | typed declares =>
            exact (typedBy_typeParameter promote spec comment declares).trans typedLast

end

/-! ## Steps and runs -/

theorem applyParameterType_of_declared
    (session : Session)
    (spec : Spec)
    (comment : Option String)
    {parameters : List Parameter}
    (found : declaredAt parameters declarator = some index)
    (there : parameters[index]? = some parameter) :
    applyParameterType spec comment (session, parameters) declarator =
      (session.reportAll
          (typeParameter session.options.promoteParameters spec comment declarator parameter).2,
        parameters.set index
          (typeParameter session.options.promoteParameters spec comment declarator
            parameter).1) := by
  have isParameter : parameters.getD index default = parameter := by
    rw [List.getD_eq_getElem?_getD, there, Option.getD_some]
  unfold declaredAt at found
  simp only [applyParameterType, found, isParameter]

/-- A declarator adds diagnostics to a session and types the parameter that it declares. -/
theorem applyParameterType_step
    (session : Session)
    (spec : Spec)
    (comment : Option String)
    (declarator : Declarator)
    (parameters : List Parameter) :
    ∃ new changed,
      applyParameterType spec comment (session, parameters) declarator =
        ({ session with diagnostics := session.diagnostics ++ new }, changed) ∧
      changed.length = parameters.length ∧
      ∀ (index : Nat) (before : Parameter), parameters[index]? = some before ->
        ∃ after, changed[index]? = some after ∧
          Typing session.options.promoteParameters session.diagnosis spec comment
            (declaredAt parameters declarator = some index) declarator before after new := by
  cases found : declaredAt parameters declarator with
  | none =>
      refine ⟨[session.diagnosis (.missingArgument (declarator.name.getD ""))], parameters, ?_, rfl,
        fun index before there => ⟨before, there, .passed (by simp)⟩⟩
      unfold declaredAt at found
      simp only [applyParameterType, found, report_eq]
  | some declared =>
      obtain ⟨parameter, isParameter, declares⟩ := exists_of_declaredAt found
      refine ⟨_, _, (applyParameterType_of_declared session spec comment found isParameter).trans
        (by rw [reportAll_eq]), List.length_set, ?_⟩
      intro index before there
      by_cases same : declared = index
      · subst same
        obtain rfl := Option.some.inj (there.symm.trans isParameter)
        obtain ⟨inside, -⟩ := List.getElem?_eq_some_iff.1 there
        exact ⟨_, List.getElem?_set_self inside, .typed declares⟩
      · exact ⟨before, by rw [List.getElem?_set_ne same, there], .passed (by simpa using same)⟩

/-- The declarators of a declaration add diagnostics to a session and type the parameters. -/
theorem foldl_applyParameterType_run
    (session : Session)
    (spec : Spec)
    (comment : Option String)
    (declarators : List Declarator)
    (parameters : List Parameter) :
    ∃ new changed,
      declarators.foldl (applyParameterType spec comment) (session, parameters) =
        ({ session with diagnostics := session.diagnostics ++ new }, changed) ∧
      changed.length = parameters.length ∧
      ∀ (index : Nat) (before : Parameter), parameters[index]? = some before ->
        ∃ after, changed[index]? = some after ∧
          Typings session.options.promoteParameters session.diagnosis spec comment
            (IsFirst parameters index before) declarators before after new := by
  induction declarators generalizing session parameters with
  | nil => exact ⟨[], parameters, by simp, rfl, fun _ before there => ⟨before, there, .nil⟩⟩
  | cons declarator rest hypothesis =>
      obtain ⟨new, changed, step, length, typing⟩ :=
        session.applyParameterType_step spec comment declarator parameters
      obtain ⟨further, final, steps, lengthFinal, typings⟩ :=
        hypothesis { session with diagnostics := session.diagnostics ++ new } changed
      refine ⟨new ++ further, final, ?_, lengthFinal.trans length, ?_⟩
      · rw [List.foldl_cons, step, steps, List.append_assoc]
      · intro index before there
        obtain ⟨between, thereThen, head⟩ := typing index before there
        obtain ⟨after, thereAfter, tail⟩ := typings index between thereThen
        have names : ∀ (index : Nat) (before : Parameter), parameters[index]? = some before ->
            ∃ after, changed[index]? = some after ∧
              ∀ declarator : Declarator, declarator.Declares after ->
                declarator.Declares before := by
          intro index before there
          obtain ⟨after, thereAfter, typing⟩ := typing index before there
          exact ⟨after, thereAfter, fun _ => typing.declares_of⟩
        exact ⟨after, thereAfter, .cons
          (head.mono fun ⟨isFirst, declares⟩ => declaredAt_of_isFirst isFirst there declares)
          (tail.mono fun isFirst => isFirst.of_names length names there thereThen)⟩

/-! ## Declarations -/

/-- A declaration with one comment at most is read declarator by declarator. -/
theorem applyParameterTypes_eq
    {endOfLine : Option String}
    (single : (comment.isSome && endOfLine.isSome) = false)
    (session : Session)
    (parameters : List Parameter)
    (spec : Spec)
    (declarators : List Declarator) :
    session.applyParameterTypes parameters spec declarators comment endOfLine =
      declarators.foldl (applyParameterType spec (comment.or endOfLine)) (session, parameters) := by
  rw [applyParameterTypes, single]
  rfl

/-- A declaration with two comments is not read. -/
theorem applyParameterTypes_of_two
    {endOfLine : Option String}
    (two : (comment.isSome && endOfLine.isSome) = true)
    (session : Session)
    (parameters : List Parameter)
    (spec : Spec)
    (declarators : List Declarator) :
    session.applyParameterTypes parameters spec declarators comment endOfLine =
      (session.report .parameterDeclarationComments, parameters) :=
  if_pos two

theorem length_applyParameterTypes
    (session : Session)
    (parameters : List Parameter)
    (spec : Spec)
    (declarators : List Declarator)
    (comment endOfLine : Option String) :
    (session.applyParameterTypes parameters spec declarators comment endOfLine).2.length =
      parameters.length := by
  cases single : comment.isSome && endOfLine.isSome with
  | true => rw [applyParameterTypes_of_two single]
  | false =>
      obtain ⟨new, changed, run, length, -⟩ :=
        session.foldl_applyParameterType_run spec (comment.or endOfLine) declarators parameters
      rw [applyParameterTypes_eq single, run]
      exact length

/-- A parameter stays as it is or is typed. -/
theorem applyParameterTypes_at
    (session : Session)
    {parameters : List Parameter}
    (there : parameters[index]? = some before)
    (spec : Spec)
    (declarators : List Declarator)
    (comment endOfLine : Option String) :
    ∃ after,
      (session.applyParameterTypes parameters spec declarators comment endOfLine).2[index]? =
        some after ∧
      (before = after ∨
        ∃ last ∈ declarators,
          TypedBy session.options.promoteParameters spec last before after) := by
  cases single : comment.isSome && endOfLine.isSome with
  | true =>
      rw [applyParameterTypes_of_two single]
      exact ⟨before, there, .inl rfl⟩
  | false =>
      obtain ⟨new, changed, run, -, typings⟩ :=
        session.foldl_applyParameterType_run spec (comment.or endOfLine) declarators parameters
      obtain ⟨after, thereAfter, typings⟩ := typings index before there
      rw [applyParameterTypes_eq single, run]
      refine ⟨after, thereAfter, ?_⟩
      rcases typings.typedBy with ⟨same, -⟩ | ⟨early, last, late, rfl, typed, -⟩
      · exact .inl same
      · exact .inr ⟨last, by simp, typed⟩

/-- The parameters stay where they are and keep their names. -/
theorem nameText_applyParameterTypes
    (session : Session)
    (parameters : List Parameter)
    (spec : Spec)
    (declarators : List Declarator)
    (comment endOfLine : Option String) :
    (session.applyParameterTypes parameters spec declarators comment endOfLine).2.map
        ParameterOf.nameText =
      parameters.map ParameterOf.nameText := by
  apply List.ext_getElem?
  intro index
  rw [List.getElem?_map, List.getElem?_map]
  cases there : parameters[index]? with
  | none =>
      rw [List.getElem?_eq_none_iff,
        ← length_applyParameterTypes session parameters spec declarators comment endOfLine,
        ← List.getElem?_eq_none_iff] at there
      rw [there]
  | some before =>
      obtain ⟨after, thereAfter, typed⟩ :=
        session.applyParameterTypes_at there spec declarators comment endOfLine
      rw [thereAfter, Option.map_some, Option.map_some]
      rcases typed with rfl | ⟨last, -, typed⟩
      · rfl
      · rw [typed.nameText]

/-- What further declarators make of a parameter. -/
theorem applyParameterTypes_append
    {endOfLine : Option String}
    (single : (comment.isSome && endOfLine.isSome) = false)
    (session : Session)
    (parameters : List Parameter)
    (spec : Spec)
    (earlier later : List Declarator) :
    let call (declarators : List Declarator) :=
      session.applyParameterTypes parameters spec declarators comment endOfLine
    ∃ new,
      (call (earlier ++ later)).1.diagnostics = (call earlier).1.diagnostics ++ new ∧
      ∀ (index : Nat) (before : Parameter), (call earlier).2[index]? = some before ->
        ∃ after, (call (earlier ++ later)).2[index]? = some after ∧
          Typings session.options.promoteParameters session.diagnosis spec (comment.or endOfLine)
            (IsFirst (call earlier).2 index before) later before after new := by
  simp only [applyParameterTypes_eq single, List.foldl_append]
  obtain ⟨old, changed, run, -⟩ :=
    session.foldl_applyParameterType_run spec (comment.or endOfLine) earlier parameters
  rw [run]
  obtain ⟨new, final, further, -, typings⟩ :=
    { session with diagnostics := session.diagnostics ++ old }.foldl_applyParameterType_run spec
      (comment.or endOfLine) later changed
  rw [further]
  exact ⟨new, rfl, typings⟩

end Session
end DeclManual
