import DeclManual.Proofs.Grammar.WrittenParameter

/-!
# Declarations of parameters

An old-style definition names its parameters in a list and declares them before its body.
Every declaration types the parameter of its name, so that the order of the declarations
does not matter.
-/

namespace DeclManual
namespace Grammar

open Decl
open Source (Token)

/-! ## Typing the parameters -/

section

variable {session : Session} (parameters : List (WrittenParameter session))

/-- The parameters of which some have been declared. -/
def typedParameters (done : List String) : List Parameter :=
  parameters.map fun written =>
    if written.name ∈ done then written.parameter else written.placeholder

/-- A placeholder is typed as the parameter that is written. -/
theorem typeParameter_placeholder (written : WrittenParameter session) :
    Session.typeParameter false written.specifier.spec none written.declared.shape
      written.placeholder = (written.parameter, []) := by
  have sameShape : { written.declared.shape with
      comment := (written.declared.shape.comment.or none).or none } = written.declared.shape := by
    cases written.declared.shape
    simp
  simp only [Session.typeParameter, WrittenParameter.placeholder, ParameterOf.ofParts,
    Spec.untexted, Flags.junk, Declarator.identifier, Declarator.ofText, Session.promotedText,
    sameShape]
  simp [WrittenParameter.parameter, ParameterOf.ofParts]

/-- The names of the parameters stay what they are. -/
theorem findIdx?_typedParameters (done : List String) (name : String) :
    (typedParameters parameters done).findIdx?
        (fun parameter => parameter.declarator.name == some name) =
      parameters.findIdx? fun written => written.name == name := by
  rw [typedParameters, List.findIdx?_map]
  congr 1
  funext written
  rw [Function.comp_apply]
  split
  · rw [WrittenParameter.parameter, ParameterOf.ofParts, written.declared.named]
    rfl
  · rfl

/-- Declaring a name changes no other parameter. -/
theorem typedParameters_cons_of_notMem
    {name : String}
    (other : name ∉ parameters.map (·.name))
    (done : List String) :
    typedParameters parameters (name :: done) = typedParameters parameters done := by
  unfold typedParameters
  apply List.map_congr_left
  intro written member
  have different : written.name ≠ name := by
    rintro rfl
    exact other (List.mem_map_of_mem member)
  simp [different]

/-- The parameter of a name is found where it is written, and changed there alone. -/
theorem exists_index
    (distinct : (parameters.map (·.name)).Nodup)
    {written : WrittenParameter session}
    (member : written ∈ parameters)
    (done : List String) :
    ∃ index, parameters.findIdx? (fun other => other.name == written.name) = some index ∧
      parameters[index]? = some written ∧
      (typedParameters parameters done).set index written.parameter =
        typedParameters parameters (written.name :: done) := by
  induction parameters with
  | nil => contradiction
  | cons first others hypothesis =>
      obtain ⟨fresh, distinctOthers⟩ := List.nodup_cons.1 distinct
      by_cases same : first.name = written.name
      · have isFirst : written = first := by
          rcases List.mem_cons.1 member with isFirst | inOthers
          · exact isFirst
          · exact absurd (List.mem_map.2 ⟨written, inOthers, same.symm⟩) fresh
        refine ⟨0, ?_, ?_, ?_⟩
        · simp [List.findIdx?_cons, same]
        · rw [isFirst]
          rfl
        · have sameOthers := typedParameters_cons_of_notMem others fresh done
          rw [isFirst]
          unfold typedParameters at sameOthers ⊢
          rw [List.map_cons, List.map_cons, List.set_cons_zero, sameOthers]
          simp
      · have inOthers : written ∈ others := by
          rcases List.mem_cons.1 member with rfl | inOthers
          · exact absurd rfl same
          · exact inOthers
        obtain ⟨index, found, isWritten, changed⟩ := hypothesis distinctOthers inOthers
        refine ⟨index + 1, ?_, ?_, ?_⟩
        · rw [List.findIdx?_cons, found]
          simp [same]
        · rw [List.getElem?_cons_succ]
          exact isWritten
        · unfold typedParameters at changed ⊢
          rw [List.map_cons, List.map_cons, List.set_cons_succ, changed]
          simp [same]

/-- A declaration types the parameter of its name and no other. -/
theorem applyParameterTypes_written
    (distinct : (parameters.map (·.name)).Nodup)
    {written : WrittenParameter session}
    (member : written ∈ parameters)
    {done : List String}
    (fresh : written.name ∉ done)
    {current : Session}
    (unpromoted : current.options.promoteParameters = false) :
    current.applyParameterTypes (typedParameters parameters done) written.specifier.spec
        [written.declared.shape] none none =
      (current, typedParameters parameters (written.name :: done)) := by
  obtain ⟨index, found, isWritten, changed⟩ := exists_index parameters distinct member done
  have isPlaceholder :
      (typedParameters parameters done).getD index default = written.placeholder := by
    rw [List.getD_eq_getElem?_getD, typedParameters, List.getElem?_map, isWritten]
    simp [fresh]
  rw [← findIdx?_typedParameters parameters done] at found
  have isName : written.declared.shape.name.getD "" = written.name := by
    rw [written.declared.named]
    rfl
  unfold Session.applyParameterTypes
  rw [if_neg (by simp)]
  simp only [List.foldl_cons, List.foldl_nil, Session.applyParameterType, isName, found,
    unpromoted, isPlaceholder, Option.or_none, typeParameter_placeholder, changed]
  rfl

/-- Where all names have been declared, all parameters are typed. -/
theorem typedParameters_all
    {done : List String}
    (all : ∀ written ∈ parameters, written.name ∈ done) :
    typedParameters parameters done = parameters.map (·.parameter) := by
  unfold typedParameters
  apply List.map_congr_left
  intro written member
  rw [if_pos (all written member)]

theorem typedParameters_none :
    typedParameters parameters [] = parameters.map (·.placeholder) := by
  simp [typedParameters]

end

/-! ## Declarations of parameters -/

section

variable {session : Session} {cursor : Cursor} {tokens after : List Token}

/-- The declaration of one parameter. -/
def WrittenParameter.declaration (written : WrittenParameter session) : List Token :=
  written.tokens ++ [Token.mark ";"]

/-- A declarator before a semicolon. -/
theorem parameterDeclarators_written
    (written : WrittenParameter session)
    (faces : Faces cursor (written.declared.tokens ++ .mark ";" :: tokens) after)
    (elsewhere : Elsewhere session cursor.session) :
    ∃ final, parameterDeclarators cursor.rest.length [] cursor =
        .ok ([written.declared.shape], none) final ∧
      Faces final tokens after ∧ Elsewhere session final.session := by
  have length := faces.length
  rw [List.length_append, List.length_cons] at length
  have enough : written.declared.fuel ≤ cursor.fuel := by
    unfold NamedDeclarator.fuel Cursor.fuel
    omega
  obtain ⟨shaped, reads, facesStop, elsewhereShaped, noComment, -⟩ :=
    written.declared.reads_inPlace false faces (.inl rfl) elsewhere enough
  have required : requiredDeclarator cursor = .ok written.declared.shape shaped := by
    unfold requiredDeclarator
    rw [get_bind_run, bind_run_ok reads]
    rfl
  have noComma : shaped.peek.hasText "," = false := facesStop.hasText ","
  have ended : declaratorEnd [written.declared.shape] shaped =
      .ok ([written.declared.shape], some none) shaped.advance := by
    unfold declaratorEnd
    rw [get_bind_run, accept_bind_run, noComma, if_neg (by simp)]
    dsimp only
    rw [bind_run_ok facesStop.expect, noComment, facesStop.comments.2]
    rfl
  obtain ⟨count, isCount⟩ : ∃ count, cursor.rest.length = count + 1 :=
    ⟨cursor.rest.length - 1, by omega⟩
  refine ⟨shaped.advance, ?_, facesStop.advance, elsewhereShaped.advance⟩
  rw [isCount]
  unfold parameterDeclarators
  rw [bind_run_ok required, List.nil_append, bind_run_ok ended]
  rfl

/-- The declarator of a function with the given parameters. -/
def functionNamed (name : String) (parameters : List Parameter) : Declarator :=
  .function (.identifier name) parameters

theorem isFunction_functionNamed
    {name : String}
    (isSpelled : ∃ c rest, name.toList = c :: rest ∧ Source.startsWord c = true)
    (parameters : List Parameter) :
    (functionNamed name parameters).isFunction = true := by
  obtain ⟨c, rest, text, starts⟩ := isSpelled
  have isKind : (Declarator.identifier name).appliedKind = .function := by
    have noOpener : c ≠ '(' := by
      rintro rfl
      contradiction
    simp [Declarator.appliedKind, Declarator.identifier, Declarator.ofText, text, noOpener]
  simp [functionNamed, Declarator.isFunction, Declarator.function, isKind]

theorem parameterDeclaration_written
    {parameters : List (WrittenParameter session)}
    (distinct : (parameters.map (·.name)).Nodup)
    (unpromoted : session.options.promoteParameters = false)
    {written : WrittenParameter session}
    (member : written ∈ parameters)
    {done : List String}
    (fresh : written.name ∉ done)
    (name : String)
    (faces : Faces cursor (written.declaration ++ tokens) after)
    (elsewhere : Elsewhere session cursor.session) :
    ∃ final, parameterDeclaration (functionNamed name (typedParameters parameters done)) cursor =
        .ok (functionNamed name (typedParameters parameters (written.name :: done))) final ∧
      Faces final tokens after ∧ Elsewhere session final.session := by
  rw [WrittenParameter.declaration, List.append_assoc, List.singleton_append] at faces
  obtain ⟨part, others, isTokens⟩ := written.tokens_start
  have starts := faces
  rw [isTokens, List.cons_append] at starts
  have noComment : cursor.peek.commentBefore = none := by
    rw [← Token.commentBefore_unplaced, starts.peek]
    rfl
  obtain ⟨isTypedef, specified, readSpecifier, facesDeclared, elsewhereDeclared⟩ :=
    written.reads_specifier faces elsewhere .declaration
  obtain ⟨final, readDeclared, facesFinal, elsewhereFinal⟩ :=
    parameterDeclarators_written written facesDeclared elsewhereDeclared
  have typed : final.session.applyParameterTypes (typedParameters parameters done)
      written.specifier.spec [written.declared.shape] none none =
        (final.session, typedParameters parameters (written.name :: done)) := by
    apply applyParameterTypes_written parameters distinct member fresh
    obtain ⟨source, isSession, -⟩ := elsewhereFinal
    rw [isSession]
    exact unpromoted
  refine ⟨final, ?_, facesFinal, elsewhereFinal⟩
  unfold parameterDeclaration
  rw [peek_bind_run, noComment, bind_run_ok readSpecifier]
  dsimp only
  rw [get_bind_run, bind_run_ok readDeclared]
  dsimp only
  have isHead : (functionNamed name (typedParameters parameters done)).headParameters =
      typedParameters parameters done := rfl
  rw [act_bind_run, isHead, typed]
  rfl

/-- The declarations of parameters are read up to the body. -/
theorem parameterDeclarations_written
    {parameters : List (WrittenParameter session)}
    (distinct : (parameters.map (·.name)).Nodup)
    (unpromoted : session.options.promoteParameters = false)
    (declared : List (WrittenParameter session))
    (members : ∀ written ∈ declared, written ∈ parameters)
    (declaredOnce : (declared.map (·.name)).Nodup)
    (done : List String)
    (fresh : ∀ written ∈ declared, written.name ∉ done)
    (name : String)
    {count : Nat}
    (faces : Faces cursor
      (declared.flatMap WrittenParameter.declaration ++ .mark "\x7b" :: tokens) after)
    (elsewhere : Elsewhere session cursor.session)
    (enough : cursor.rest.length ≤ count) :
    ∃ final, parameterDeclarations count (functionNamed name (typedParameters parameters done))
          cursor =
        .ok (functionNamed name
          (typedParameters parameters ((declared.map (·.name)).reverse ++ done))) final ∧
      Faces final (.mark "\x7b" :: tokens) after ∧ Elsewhere session final.session := by
  induction declared generalizing cursor done count with
  | nil =>
      have length := faces.length
      obtain ⟨fewer, rfl⟩ : ∃ fewer, count = fewer + 1 := by
        rw [List.flatMap_nil, List.nil_append, List.length_cons] at length
        exact ⟨count - 1, by omega⟩
      have opens : cursor.peek.hasText "\x7b" = true := faces.hasText "\x7b"
      refine ⟨cursor, ?_, faces, elsewhere⟩
      unfold parameterDeclarations
      rw [sees_bind_run, opens, if_pos rfl]
      rfl
  | cons written declared hypothesis =>
      rw [List.flatMap_cons, List.append_assoc] at faces
      have length := faces.length
      obtain ⟨part, others, isTokens⟩ := written.tokens_start
      have starts := faces
      rw [WrittenParameter.declaration, isTokens, List.cons_append, List.cons_append] at starts
      have noBody : cursor.peek.hasText "\x7b" = false := by
        rw [starts.hasText, hasText_word, beq_eq_false_iff_ne]
        exact part.head_ne (by decide) (by decide)
      obtain ⟨further, read, facesFurther, elsewhereFurther⟩ :=
        parameterDeclaration_written distinct unpromoted (members written List.mem_cons_self)
          (fresh written List.mem_cons_self) name faces elsewhere
      obtain ⟨freshName, declaredOthers⟩ := List.nodup_cons.1 declaredOnce
      have freshFurther : ∀ other ∈ declared, other.name ∉ written.name :: done := by
        intro other member isDone
        rcases List.mem_cons.1 isDone with same | isDone
        · exact freshName (List.mem_map.2 ⟨other, member, same⟩)
        · exact fresh other (List.mem_cons_of_mem written member) isDone
      have shorter := facesFurther.length
      rw [List.length_append, WrittenParameter.declaration, List.length_append,
        List.length_singleton] at length
      obtain ⟨fewer, rfl⟩ : ∃ fewer, count = fewer + 1 := ⟨count - 1, by omega⟩
      obtain ⟨final, readOthers, facesFinal, elsewhereFinal⟩ :=
        hypothesis (fun other member => members other (List.mem_cons_of_mem written member))
          declaredOthers (written.name :: done) freshFurther facesFurther elsewhereFurther
          (show further.rest.length ≤ fewer by omega)
      refine ⟨final, ?_, facesFinal, elsewhereFinal⟩
      rw [List.map_cons, List.reverse_cons, List.append_assoc, List.singleton_append, ← readOthers]
      conv_lhs => unfold parameterDeclarations
      rw [sees_bind_run, noBody, if_neg (by simp), peek_bind_run, starts.notEnd, if_neg (by simp),
        bind_run_ok read]

end

end Grammar
end DeclManual
