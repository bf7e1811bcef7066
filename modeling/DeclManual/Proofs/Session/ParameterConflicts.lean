import DeclManual.Proofs.Session.ParameterTypes

/-!
# Conflicting declarations of old-style parameters

A declaration that contradicts what is known of a parameter, or whose comment meets the
comment of the parameter, is recorded as a conflict.
-/

namespace DeclManual
namespace Session

open Decl

variable {promote : Bool} {spec : Spec} {comment : Option String} {declarators : List Declarator}
  {last declarator : Declarator} {before between : Parameter} {index : Nat}

/-! ## Conflicts of types -/

/-- Whether a specifier contradicts the type of a parameter: by its markers, if those of the
parameter are known, or by its enumerator list, if the parameter has one. -/
def Contradicts (spec old : Spec) : Prop :=
  (old.flags.isJunk = false ∧ old.flags ≠ spec.flags) ∨
    (old.enumList.isSome = true ∧ old.enumList ≠ spec.enumList)

/-- A specifier contradicts another exactly if it cannot be taken over. -/
theorem contradicts_iff (spec old : Spec) :
    ((if old.flags.isJunk then spec.flags else old.flags) != spec.flags ||
        old.enumList.or spec.enumList != spec.enumList) = true ↔
      Contradicts spec old := by
  have markers : (if old.flags.isJunk then spec.flags else old.flags) ≠ spec.flags ↔
      old.flags.isJunk = false ∧ old.flags ≠ spec.flags := by
    by_cases junk : old.flags.isJunk = true <;> simp [junk]
  have lists : old.enumList.or spec.enumList ≠ spec.enumList ↔
      old.enumList.isSome = true ∧ old.enumList ≠ spec.enumList := by
    cases old.enumList <;> simp
  rw [Bool.or_eq_true, bne_iff_ne, bne_iff_ne, markers, lists, Contradicts]

/-- A conflict of types is recorded exactly if there is a contradiction. -/
theorem parameterTypes_mem_typeParameter
    (session : Session)
    (promote : Bool)
    (spec : Spec)
    (comment : Option String)
    (declarator : Declarator)
    (parameter : Parameter) :
    session.diagnosis (.parameterTypes (declarator.name.getD "")) ∈
        (typeParameter promote spec comment declarator parameter).2.map session.diagnosis ↔
      Contradicts spec parameter.spec := by
  have other (name : String) :
      session.diagnosis (.parameterTypes name) ≠ session.diagnosis (.parameterComments name) :=
    fun same => Conflict.message_parameterTypes_ne name (congrArg Diagnostic.message same)
  have among (name : String) (types comments : Bool) :
      session.diagnosis (.parameterTypes name) ∈
          ((if types then [Conflict.parameterTypes name] else []) ++
            if comments then [Conflict.parameterComments name] else []).map session.diagnosis ↔
        types = true := by
    cases types <;> cases comments <;> simp [other]
  exact (among _ _ _).trans (contradicts_iff spec parameter.spec)

/-- Where the first parameter of a name is declared, a recorded conflict is a contradiction. -/
theorem Typings.contradicts_of_mem
    {session : Session}
    {isFirst : Prop}
    {after : Parameter}
    {new : List Diagnostic}
    (typings : Typings promote session.diagnosis spec comment isFirst [declarator] before after new)
    (first : isFirst)
    (declares : declarator.Declares before)
    (reported : session.diagnosis (.parameterTypes (declarator.name.getD "")) ∈ new) :
    Contradicts spec before.spec := by
  cases typings with
  | cons head tail =>
      cases tail
      cases head with
      | passed unreached => exact absurd ⟨first, declares⟩ unreached
      | typed =>
          rw [List.append_nil] at reported
          exact (parameterTypes_mem_typeParameter ..).1 reported

/-- Where some declarators have been read, the next one reports that it declares a parameter in
another way. -/
structure ReportsConflict
    (session : Session)
    (call : List Declarator -> Session × List Parameter)
    (earlier : List Declarator)
    (declarator : Declarator)
    (index : Nat)
    (parameter : Parameter) : Prop where
  declared : declaredAt (call earlier).2 declarator = some index
  there : (call earlier).2[index]? = some parameter
  reported : ∃ new,
    (call (earlier ++ [declarator])).1.diagnostics = (call earlier).1.diagnostics ++ new ∧
      session.diagnosis (.parameterTypes (declarator.name.getD "")) ∈ new

/-- Whether a declaration says no more of a parameter than is known. -/
structure Repeats
    (promote : Bool)
    (spec : Spec)
    (last : Declarator)
    (parameter : Parameter) : Prop where
  specText : promotedText promote spec last = parameter.spec.text
  text : last.text = parameter.declarator.text
  flags : parameter.spec.flags.isJunk = true -> spec.flags = parameter.spec.flags
  enumList : parameter.spec.enumList = none -> spec.enumList = none

/-- A parameter stays as it was declared exactly if its declaration is repeated. -/
theorem TypedBy.kept_iff {after : Parameter} (typed : TypedBy promote spec last before after) :
    after.spec = before.spec ∧ after.declarator.text = before.declarator.text ↔
      Repeats promote spec last before := by
  have text : after.declarator.text = last.text := by rw [typed.declarator]
  have flags : (if before.spec.flags.isJunk then spec.flags else before.spec.flags) =
        before.spec.flags ↔
      (before.spec.flags.isJunk = true -> spec.flags = before.spec.flags) := by
    by_cases junk : before.spec.flags.isJunk = true <;> simp [junk]
  have enumList : before.spec.enumList.or spec.enumList = before.spec.enumList ↔
      (before.spec.enumList = none -> spec.enumList = none) := by
    cases before.spec.enumList <;> simp
  rw [text, typed.spec]
  constructor
  · rintro ⟨same, sameText⟩
    exact ⟨congrArg Spec.text same, sameText, flags.1 (congrArg Spec.flags same),
      enumList.1 (congrArg Spec.enumList same)⟩
  · rintro ⟨specText, sameText, sameFlags, sameList⟩
    refine ⟨?_, sameText⟩
    rw [flags.2 sameFlags, enumList.2 sameList, specText]

/-- Old-style parameters keep their number, their order and their names, and stay as they are
where they are not declared.  A conflict is recorded where a parameter is contradicted, and
then the texts are those of the last of its declarators from there on, so that the parameter
stays as it was only if these repeat it. -/
theorem applyParameterTypes_conflicts
    (session : Session)
    (parameters : List Parameter)
    (spec : Spec)
    (declarators : List Declarator)
    (comment endOfLine : Option String) :
    let call (declarators : List Declarator) :=
      session.applyParameterTypes parameters spec declarators comment endOfLine
    (call declarators).2.map ParameterOf.nameText = parameters.map ParameterOf.nameText ∧
      (∀ (index : Nat) (parameter : Parameter), parameters[index]? = some parameter ->
        (∀ declarator ∈ declarators, ¬ declarator.Declares parameter) ->
          (call declarators).2[index]? = some parameter) ∧
      ∀ earlier declarator later (index : Nat) (parameter : Parameter),
        declarators = earlier ++ declarator :: later ->
        ReportsConflict session call earlier declarator index parameter ->
          Contradicts spec parameter.spec ∧
            ∃ after early last late, (call declarators).2[index]? = some after ∧
              declarator :: later = early ++ last :: late ∧
              (∀ other ∈ late, ¬ other.Declares after) ∧
              TypedBy session.options.promoteParameters spec last parameter after ∧
              (after.spec = parameter.spec ∧
                  after.declarator.text = parameter.declarator.text ↔
                Repeats session.options.promoteParameters spec last parameter) := by
  intro call
  refine ⟨nameText_applyParameterTypes session parameters spec declarators comment endOfLine,
    ?_, ?_⟩
  · intro index parameter there undeclared
    obtain ⟨after, thereAfter, typed⟩ :=
      session.applyParameterTypes_at there spec declarators comment endOfLine
    rcases typed with rfl | ⟨last, member, typed⟩
    · exact thereAfter
    · exact absurd typed.declares (undeclared last member)
  · rintro earlier declarator later index parameter rfl ⟨declared, there, new, grown, reported⟩
    have single : (comment.isSome && endOfLine.isSome) = false := by
      by_contra two
      rw [Bool.not_eq_false] at two
      simp only [call, applyParameterTypes_of_two two, List.self_eq_append_right] at grown
      exact absurd (grown ▸ reported) List.not_mem_nil
    obtain ⟨other, isOther, declares⟩ := exists_of_declaredAt declared
    obtain rfl := Option.some.inj (there.symm.trans isOther)
    have isFirst := isFirst_of_declaredAt declared declares
    have contradicts : Contradicts spec parameter.spec := by
      obtain ⟨added, conflicts, typings⟩ :=
        applyParameterTypes_append single session parameters spec earlier [declarator]
      obtain ⟨_, -, typings⟩ := typings index parameter there
      obtain rfl := List.append_cancel_left (grown.symm.trans conflicts)
      exact typings.contradicts_of_mem isFirst declares reported
    obtain ⟨_, -, typings⟩ :=
      applyParameterTypes_append single session parameters spec earlier (declarator :: later)
    obtain ⟨after, thereAfter, typings⟩ := typings index parameter there
    rcases typings.typedBy with ⟨-, undeclared⟩ | ⟨early, last, late, split, typed, undeclared⟩
    · exact absurd declares (undeclared isFirst declarator List.mem_cons_self)
    · exact ⟨contradicts, after, early, last, late, thereAfter, split, undeclared isFirst, typed,
        typed.kept_iff⟩

/-- The parameter `long a`. -/
def longParameter : Parameter :=
  .ofParts (.ofText "long" {}) (.identifier "a")

/-- The parameter `int b`. -/
def intParameter : Parameter :=
  .ofParts (.ofText "int" {}) (.identifier "b")

/-- The specifier `static char`. -/
def staticChar : Spec :=
  .ofText "static char" { isStatic := true, isChar := true }

/-- The declarator `*a`. -/
def pointerDeclarator : Declarator :=
  (Declarator.identifier "a").pointerTo "*"

theorem applyParameterTypes_conflicts_pointer :
    let call (declarators : List Declarator) :=
      (start {}).applyParameterTypes [longParameter, intParameter] staticChar declarators none none
    ReportsConflict (start {}) call [] pointerDeclarator 0 longParameter ∧
      Contradicts staticChar longParameter.spec ∧
      (call [pointerDeclarator]).2[1]? = some intParameter := by
  intro call
  have whole := applyParameterTypes_conflicts (start {}) [longParameter, intParameter] staticChar
    [pointerDeclarator] none none
  have reports : ReportsConflict (start {}) call [] pointerDeclarator 0 longParameter :=
    ⟨by decide, rfl, _, rfl, by decide⟩
  refine ⟨reports, (whole.2.2 [] pointerDeclarator [] 0 longParameter rfl reports).1, ?_⟩
  refine whole.2.1 1 intParameter rfl fun declarator member => ?_
  rw [List.mem_singleton.1 member, Declarator.Declares]
  decide

/-- After `long a`, declaring `static char *a` is a conflict, and the parameter comes out with the
texts of the one and the markers of the other declaration. -/
theorem applyParameterTypes_mixes :
    let typed :=
      (start {}).applyParameterTypes [longParameter] staticChar [pointerDeclarator] none none
    typed.1.diagnostics.map (·.message) = ["parameter 'a' has conflicting declarations"] ∧
      (typed.2.map fun parameter =>
          (parameter.spec.flags, parameter.spec.text, parameter.declarator.text)) =
        [({}, some "static char", some "*a")] := by
  decide

/-! ## Conflicts of comments -/

/-- What declarators make of a parameter that has a comment: it keeps the comment, or a conflict
is recorded, or it has the own comment of a declarator, and there is no comment around the
declaration. -/
inductive CommentOutcome
    (diagnosis : Conflict -> Diagnostic)
    (comment : Option String)
    (declarators : List Declarator)
    (before after : Parameter)
    (new : List Diagnostic) : Prop where
  | kept (same : after.comment = before.comment) :
      CommentOutcome diagnosis comment declarators before after new
  | reported (conflict : diagnosis (.parameterComments before.nameText) ∈ new) :
      CommentOutcome diagnosis comment declarators before after new
  | replaced (declarator : Declarator)
      (member : declarator ∈ declarators)
      (declares : declarator.Declares before)
      (alone : comment = none)
      (own : declarator.comment.isSome = true)
      (same : after.comment = declarator.comment) :
      CommentOutcome diagnosis comment declarators before after new

namespace CommentOutcome

variable {diagnosis : Conflict -> Diagnostic} {early late : List Declarator} {after : Parameter}
  {new further : List Diagnostic}

theorem typeParameter
    (diagnosis : Conflict -> Diagnostic)
    (promote : Bool)
    (spec : Spec)
    (comment : Option String)
    (declares : declarator.Declares before)
    (commented : before.comment.isSome = true) :
    CommentOutcome diagnosis comment [declarator] before
      (typeParameter promote spec comment declarator before).1
      ((typeParameter promote spec comment declarator before).2.map diagnosis) := by
  have name : declarator.name.getD "" = before.nameText := by
    rw [ParameterOf.nameText, declares]
    rfl
  cases comment with
  | some text =>
      have conflict : Conflict.parameterComments before.nameText ∈
          (Session.typeParameter promote spec (some text) declarator before).2 := by
        have known : before.declarator.comment.isSome = true := commented
        simp [Session.typeParameter, name, known]
      exact .reported (List.mem_map_of_mem conflict)
  | none =>
      cases own : declarator.comment with
      | none => exact .kept (by simp [Session.typeParameter, ParameterOf.comment, own])
      | some text =>
          exact .replaced declarator List.mem_cons_self declares rfl (by simp [own])
            (by simp [Session.typeParameter, ParameterOf.comment, own])

/-- What becomes of a comment in two parts of a declaration. -/
theorem trans
    (left : CommentOutcome diagnosis comment early before between new)
    (nameText : between.nameText = before.nameText)
    (declares : ∀ declarator : Declarator, declarator.Declares between ->
      declarator.Declares before)
    (right : CommentOutcome diagnosis comment late between after further) :
    CommentOutcome diagnosis comment (early ++ late) before after (new ++ further) := by
  cases right with
  | reported conflict => exact .reported (List.mem_append_right _ (nameText ▸ conflict))
  | replaced declarator member declared alone own same =>
      exact .replaced declarator (List.mem_append_right _ member) (declares declarator declared)
        alone own same
  | kept same =>
      cases left with
      | kept sameBefore => exact .kept (same.trans sameBefore)
      | reported conflict => exact .reported (List.mem_append_left _ conflict)
      | replaced declarator member declared alone own sameBefore =>
          exact .replaced declarator (List.mem_append_left _ member) declared alone own
            (same.trans sameBefore)

end CommentOutcome

/-- Typing a parameter keeps its comment, reports it or replaces it. -/
theorem Typings.commentOutcome
    {diagnosis : Conflict -> Diagnostic}
    {isFirst : Prop}
    {after : Parameter}
    {new : List Diagnostic}
    (typings : Typings promote diagnosis spec comment isFirst declarators before after new)
    (commented : before.comment.isSome = true) :
    CommentOutcome diagnosis comment declarators before after new := by
  induction typings with
  | nil => exact .kept rfl
  | @cons declarator rest before between after new further head _ hypothesis =>
      cases head with
      | passed =>
          have passed : CommentOutcome diagnosis comment [declarator] before before new := .kept rfl
          exact passed.trans rfl (fun _ => id) (hypothesis commented)
      | typed declares =>
          have typed := typedBy_typeParameter promote spec comment declares
          have known : before.declarator.comment.isSome = true := commented
          have commentedThen :
              (typeParameter promote spec comment declarator before).1.comment.isSome = true := by
            simp [typeParameter, ParameterOf.comment, known]
          exact (CommentOutcome.typeParameter diagnosis promote spec comment declares
            commented).trans typed.nameText (fun _ => typed.declares_of)
            (hypothesis commentedThen)

/-- A parameter that has a comment keeps it or is reported, unless no comment stands around the
declaration and a declarator has a comment of its own, which then replaces that of the
parameter. -/
theorem applyParameterTypes_comments
    (session : Session)
    {parameters : List Parameter}
    (there : parameters[index]? = some before)
    (commented : before.comment.isSome = true)
    (spec : Spec)
    (declarators : List Declarator)
    (comment endOfLine : Option String) :
    ∃ new changed after,
      session.applyParameterTypes parameters spec declarators comment endOfLine =
        ({ session with diagnostics := session.diagnostics ++ new }, changed) ∧
      changed[index]? = some after ∧
      CommentOutcome session.diagnosis (comment.or endOfLine) declarators before after new := by
  cases single : comment.isSome && endOfLine.isSome with
  | true =>
      rw [applyParameterTypes_of_two single]
      exact ⟨_, parameters, before, rfl, there, .kept rfl⟩
  | false =>
      obtain ⟨new, changed, run, -, typings⟩ :=
        session.foldl_applyParameterType_run spec (comment.or endOfLine) declarators parameters
      obtain ⟨after, thereAfter, typings⟩ := typings index before there
      rw [applyParameterTypes_eq single]
      exact ⟨new, changed, after, run, thereAfter, typings.commentOutcome commented⟩

/-- The parameter `long a` with a comment. -/
def commentedParameter : Parameter :=
  .ofParts (.ofText "long" {}) { Declarator.identifier "a" with comment := some "one" }

theorem applyParameterTypes_comments_shared :
    [commentedParameter, intParameter][0]? = some commentedParameter ∧
      commentedParameter.comment.isSome = true ∧
      ∃ new changed after,
        (start {}).applyParameterTypes [commentedParameter, intParameter] commentedParameter.spec
            [pointerDeclarator, .identifier "b"] (some "both") none =
          ({ start {} with diagnostics := [] ++ new }, changed) ∧
        changed[0]? = some after ∧
        CommentOutcome (start {}).diagnosis (some "both") [pointerDeclarator, .identifier "b"]
          commentedParameter after new :=
  ⟨rfl, rfl, applyParameterTypes_comments (start {}) rfl rfl commentedParameter.spec
    [pointerDeclarator, .identifier "b"] (some "both") none⟩

/-- The own comment of a declarator replaces that of its parameter without a word. -/
theorem applyParameterTypes_replaces :
    let typed :=
      (start {}).applyParameterTypes [commentedParameter] commentedParameter.spec
        [{ pointerDeclarator with comment := some "two" }] none none
    typed.1.diagnostics = [] ∧ typed.2.map (·.comment) = [some "two"] := by
  decide

end Session
end DeclManual
