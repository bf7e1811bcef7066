import DeclManual.Proofs.Grammar.Keeps

/-!
# Sound declarators

Every declarator that is read refers to enumerator lists in the store only, at whatever
depth of its parameters, and a declarator that is required has a name: however it is
nested, parenthesised and suffixed, the name is a word that is no keyword.
-/

namespace DeclManual
namespace Grammar

open Decl
open Source (Filled Token)

variable {old : ListId -> Prop} {tokens : List Token} {base : Session} {cursor : Cursor}

/-! ## Shapes -/

/-- A declarator that is sound, and named unless it may be abstract. -/
structure Shaped
    (old : ListId -> Prop)
    (abstractAllowed : Bool)
    (after : Cursor)
    (declarator : Declarator) : Prop where
  sound : declarator.Sound (after.session.enums.Known old)
  named : abstractAllowed = false -> declarator.name.isSome = true

/-- What is read as a declarator: one that is shaped, or nothing if it may be abstract. -/
structure ShapedOr
    (old : ListId -> Prop)
    (abstractAllowed : Bool)
    (after : Cursor)
    (shape : Option Declarator) : Prop where
  shaped : ∀ declarator ∈ shape, Shaped old abstractAllowed after declarator
  present : abstractAllowed = false -> shape.isSome = true

variable {abstractAllowed : Bool}

namespace Shaped

variable {declarator : Declarator}

theorem mono
    {after : Cursor}
    (shaped : Shaped old abstractAllowed cursor declarator)
    (upkeep : cursor.session.Upkeep old after.session) :
    Shaped old abstractAllowed after declarator :=
  ⟨shaped.sound.mono upkeep.known, shaped.named⟩

/-- A declarator is shaped by its parameters, inner declarator, name and comment alone. -/
theorem congr
    {other : Declarator}
    (shaped : Shaped old abstractAllowed cursor declarator)
    (parameters : other.parameters = declarator.parameters)
    (inner : other.inner = declarator.inner)
    (name : other.name = declarator.name)
    (comment : other.comment = declarator.comment) :
    Shaped old abstractAllowed cursor other where
  sound := ⟨shaped.sound.linked.congr parameters inner, name ▸ shaped.sound.name,
    comment ▸ shaped.sound.comment⟩
  named := name ▸ shaped.named

theorem function
    {parameters : List Parameter}
    (shaped : Shaped old abstractAllowed cursor declarator)
    (linked : LinkedAll (cursor.session.enums.Known old) parameters) :
    Shaped old abstractAllowed cursor (.function declarator parameters) :=
  ⟨⟨shaped.sound.linked.function linked, shaped.sound.name, .none⟩, shaped.named⟩

theorem identifier
    {name : String}
    (isName : IsName name) :
    Shaped old abstractAllowed cursor (.identifier name) where
  sound := by
    refine ⟨Declarator.linked_ofText _ _, ?_, .none⟩
    rintro _ ⟨⟩
    exact isName
  named := fun _ => rfl

/-- A declarator without a name stands only where it may be abstract. -/
theorem ofText (text : Option String) : Shaped old true cursor (.ofText text none) :=
  ⟨⟨Declarator.linked_ofText _ _, fun _ => nofun, .none⟩, nofun⟩

end Shaped

namespace ShapedOr

variable {shape : Option Declarator}

theorem mono
    {after : Cursor}
    (shaped : ShapedOr old abstractAllowed cursor shape)
    (upkeep : cursor.session.Upkeep old after.session) :
    ShapedOr old abstractAllowed after shape :=
  ⟨fun declarator has => (shaped.shaped declarator has).mono upkeep, shaped.present⟩

theorem some
    {declarator : Declarator}
    (shaped : Shaped old abstractAllowed cursor declarator) :
    ShapedOr old abstractAllowed cursor (some declarator) := by
  refine ⟨?_, fun _ => rfl⟩
  rintro _ ⟨⟩
  exact shaped

/-- What suffixes are added to has a good shape. -/
theorem suffixBase
    (shaped : ShapedOr old abstractAllowed cursor shape) :
    Shaped old abstractAllowed cursor (suffixBase shape) := by
  cases shape with
  | some declarator => exact shaped.shaped declarator rfl
  | none =>
      cases abstractAllowed with
      | false => exact absurd (shaped.present rfl) nofun
      | true => exact .ofText _

/-- A pointer operator keeps a shape good. -/
theorem withPointer
    (shaped : ShapedOr old abstractAllowed cursor shape)
    (pointer : Option String) :
    ShapedOr old abstractAllowed cursor (withPointer pointer shape) := by
  cases pointer with
  | none => exact shaped
  | some pointer =>
      cases shape with
      | some declarator => exact .some ((shaped.shaped declarator rfl).congr rfl rfl rfl rfl)
      | none =>
          cases abstractAllowed with
          | false => exact absurd (shaped.present rfl) nofun
          | true => exact .some (.ofText _)

end ShapedOr

/-! ## Operators and suffixes -/

/-- Reading the tail of a pointer operator keeps the session. -/
theorem pointerTail_keeps
    (count : Nat)
    (text : String)
    (sound : cursor.Sound old tokens) :
    Keeps old tokens cursor.session Anything (pointerTail count text cursor) := by
  induction count generalizing text cursor with
  | zero => exact Kept.refl sound
  | succ count hypothesis =>
      have taken := (Kept.refl sound).advance
      have again (text : String) :
          Keeps old tokens cursor.session Anything (pointerTail count text cursor.advance) :=
        .from_here taken (hypothesis text taken.sound)
      unfold pointerTail
      simp only [peek_bind_run, sees_bind_run]
      split
      · rw [discard_bind_run]
        exact again _
      split
      · rw [discard_bind_run]
        exact again _
      split
      · refine .bind (.refl sound) (skipAttributes_keeps sound) ?_
        intro _ after _ _ here
        exact .from_here here (hypothesis text here.sound)
      · exact .done (.refl sound)

/-- Reading a pointer operator keeps the session. -/
theorem pointer_keeps (sound : cursor.Sound old tokens) :
    Keeps old tokens cursor.session Anything (pointer cursor) := by
  refine .accept_bind (.refl sound) ?_ (.done (.refl sound))
  intro taken
  rw [Option.isSome_some, if_pos rfl, get_bind_run]
  refine .bind taken (pointerTail_keeps _ "*" taken.sound) ?_
  intro text after _ _ here
  exact .done here

/-- Reading brackets keeps the session. -/
theorem bracketText_keeps (sound : cursor.Sound old tokens) :
    Keeps old tokens cursor.session Anything (bracketText cursor) := by
  unfold bracketText
  rw [get_bind_run]
  refine .bind (.refl sound) (skipBalanced_keeps "[" "]" sound) ?_
  intro _ after _ _ here
  exact .done here

/-! ## Parameter lists -/

/-- Parameters whose enumerator lists are in the store. -/
def ParametersLinked
    (old : ListId -> Prop)
    (after : Cursor)
    (parameters : List Parameter) : Prop :=
  LinkedAll (after.session.enums.Known old) parameters

/-- The end of a parameter: it joins those before it, and either a further one follows
or the list is closed. -/
theorem parameterEnd_keeps
    {read : List Parameter}
    {spec : Option Spec}
    {shape : Option Declarator}
    (before after : Option String)
    (comments : List String)
    {next : List Parameter -> Parse (List Parameter)}
    (here : Kept old tokens base cursor)
    (linked : ParametersLinked old cursor read)
    (specLinked : ∀ part ∈ spec, SpecLinked old cursor part)
    (shapeLinked : ∀ part ∈ shape, part.Linked (cursor.session.enums.Known old))
    (further : ∀ {after : Cursor} {read : List Parameter}, after.Sound old tokens ->
      ParametersLinked old after read ->
      Keeps old tokens after.session (ParametersLinked old) (next read after)) :
    Keeps old tokens base (ParametersLinked old)
      ((do
        let parameter ← act fun session => session.newParameter spec shape before after
        let read ← commentParameters (read ++ [parameter]) comments
        if (← get).justTook "," then next read
        else
          discard (expect ")")
          return read : Parse (List Parameter)) cursor) := by
  obtain ⟨upkeep, added⟩ := Session.addParameter_upkeep cursor.session linked specLinked
    shapeLinked before after comments
  have added := added.mono upkeep.known
  have here := here.act upkeep
  unfold commentParameters
  simp only [act_bind_run, get_bind_run]
  split
  · exact .from_here here (further here.sound added)
  · rw [discard_bind_run]
    refine .bind here (.expect here.sound _) ?_
    intro _ closed upkeep _ here
    exact ⟨here, added.mono upkeep.known⟩

/-- The parameters of an identifier list link to nothing new. -/
theorem identifierList_keeps
    (count : Nat)
    (leading : Option String)
    {read : List Parameter}
    (sound : cursor.Sound old tokens)
    (linked : ParametersLinked old cursor read) :
    Keeps old tokens cursor.session (ParametersLinked old)
      (identifierList count leading read cursor) := by
  induction count generalizing leading read cursor with
  | zero => exact Kept.refl sound
  | succ count hypothesis =>
      have taken := (Kept.refl sound).advance
      unfold identifierList
      rw [take_bind_run]
      cases itemComment cursor.peek.commentBefore leading with
      | mk before leading =>
        refine .bind taken (trailingComments_keeps _ taken.sound) ?_
        intro comments commented upkeep _ here
        refine parameterEnd_keeps before comments.head? comments.tail here
          (linked.mono (taken.upkeep.trans upkeep).known) (fun _ => nofun) ?_ (hypothesis leading)
        rintro _ ⟨⟩
        exact Declarator.linked_ofText _ _

/-- The parts of a parameter, whose enumerator lists are in the store. -/
def PartsLinked
    (old : ListId -> Prop)
    (after : Cursor)
    (parts : Option Spec × Option Declarator) : Prop :=
  (∀ spec ∈ parts.1, SpecLinked old after spec) ∧
    ∀ shape ∈ parts.2, shape.Linked (after.session.enums.Known old)

/-- What the functions that read declarators keep, whatever their fuel is. -/
structure DeclaratorsKeep (old : ListId -> Prop) (tokens : List Token) (fuel : Nat) : Prop where
  declarator :
    ∀ {cursor : Cursor} (abstractAllowed : Bool), cursor.Sound old tokens ->
      Keeps old tokens cursor.session (ShapedOr old abstractAllowed)
        (declarator fuel abstractAllowed cursor)
  directDeclarator :
    ∀ {cursor : Cursor} (abstractAllowed : Bool), cursor.Sound old tokens ->
      Keeps old tokens cursor.session (ShapedOr old abstractAllowed)
        (directDeclarator fuel abstractAllowed cursor)
  suffixes :
    ∀ {cursor : Cursor} {abstractAllowed : Bool} {shape : Option Declarator},
      cursor.Sound old tokens -> ShapedOr old abstractAllowed cursor shape ->
      Keeps old tokens cursor.session (ShapedOr old abstractAllowed)
        (suffixes fuel shape cursor)
  parameterList :
    ∀ {cursor : Cursor}, cursor.Sound old tokens ->
      Keeps old tokens cursor.session (ParametersLinked old) (parameterList fuel cursor)
  parameters :
    ∀ {cursor : Cursor} (leading : Option String) {read : List Parameter},
      cursor.Sound old tokens -> ParametersLinked old cursor read ->
      Keeps old tokens cursor.session (ParametersLinked old)
        (parameters fuel leading read cursor)
  parameterParts :
    ∀ {cursor : Cursor}, cursor.Sound old tokens ->
      Keeps old tokens cursor.session (PartsLinked old) (parameterParts fuel cursor)

namespace DeclaratorsKeep

variable {fuel : Nat}

/-- One more step of fuel reads a declarator of good shape. -/
theorem declarator_succ
    (keep : DeclaratorsKeep old tokens fuel)
    (abstractAllowed : Bool)
    (sound : cursor.Sound old tokens) :
    Keeps old tokens cursor.session (ShapedOr old abstractAllowed)
      (Grammar.declarator (fuel + 1) abstractAllowed cursor) := by
  unfold Grammar.declarator
  refine .bind (.refl sound) (pointer_keeps sound) ?_
  intro operator pointed _ _ here
  refine .bind here (keep.directDeclarator abstractAllowed here.sound) ?_
  intro shape after _ shaped here
  exact ⟨here, shaped.withPointer operator⟩

/-- One more step of fuel reads a direct declarator of good shape. -/
theorem directDeclarator_succ
    (keep : DeclaratorsKeep old tokens fuel)
    (abstractAllowed : Bool)
    (sound : cursor.Sound old tokens) :
    Keeps old tokens cursor.session (ShapedOr old abstractAllowed)
      (Grammar.directDeclarator (fuel + 1) abstractAllowed cursor) := by
  have start := Kept.refl sound
  have taken := start.advance
  unfold Grammar.directDeclarator
  rw [get_bind_run]
  split
  · rename_i name
    simp only [Bool.and_eq_true, Bool.not_eq_true'] at name
    have isName : IsName cursor.peek.text := ⟨sound.fit_peek.word name.1, name.2⟩
    rw [take_bind_run]
    exact .from_here taken (keep.suffixes taken.sound (.some (.identifier isName)))
  split
  · rw [discard_bind_run, take_bind_run]
    refine .bind taken (keep.declarator abstractAllowed taken.sound) ?_
    intro inner nested _ shaped here
    rw [discard_bind_run]
    refine .bind here (.expect here.sound _) ?_
    intro _ closed upkeep _ here
    exact .from_here here
      (keep.suffixes here.sound (.some ((shaped.mono upkeep).suffixBase.congr rfl rfl rfl rfl)))
  split
  · rename_i allowed
    exact keep.suffixes sound ⟨fun _ => nofun, fun required => absurd allowed (by simp [required])⟩
  · exact .fail start _

/-- One more step of fuel reads suffixes that keep the shape good. -/
theorem suffixes_succ
    {shape : Option Declarator}
    (keep : DeclaratorsKeep old tokens fuel)
    (sound : cursor.Sound old tokens)
    (shaped : ShapedOr old abstractAllowed cursor shape) :
    Keeps old tokens cursor.session (ShapedOr old abstractAllowed)
      (Grammar.suffixes (fuel + 1) shape cursor) := by
  have start := Kept.refl sound
  unfold Grammar.suffixes
  rw [sees_bind_run]
  split
  · refine .bind start (bracketText_keeps sound) ?_
    intro suffix after upkeep _ here
    exact .from_here here
      (keep.suffixes here.sound (.some ((shaped.mono upkeep).suffixBase.congr rfl rfl rfl rfl)))
  rw [sees_bind_run]
  split
  · refine .bind start (keep.parameterList sound) ?_
    intro parameters after upkeep linked here
    exact .from_here here
      (keep.suffixes here.sound (.some ((shaped.mono upkeep).suffixBase.function linked)))
  rw [peek_bind_run]
  split
  · refine .bind start (skipAttributes_keeps sound) ?_
    intro _ after upkeep _ here
    exact .from_here here (keep.suffixes here.sound (shaped.mono upkeep))
  · exact ⟨start, shaped⟩

/-- One more step of fuel reads linked parameters in parentheses. -/
theorem parameterList_succ
    (keep : DeclaratorsKeep old tokens fuel)
    (sound : cursor.Sound old tokens) :
    Keeps old tokens cursor.session (ParametersLinked old)
      (Grammar.parameterList (fuel + 1) cursor) := by
  unfold Grammar.parameterList
  refine .bind (.refl sound) (.expect sound _) ?_
  intro opener opened _ _ here
  refine .accept_bind here ?_ ?_
  · intro closed
    exact ⟨closed, fun _ => nofun⟩
  · rw [Option.isSome_none, if_neg (by simp), get_bind_run]
    split
    · exact .from_here here (identifierList_keeps _ _ here.sound fun _ => nofun)
    · exact .from_here here (keep.parameters _ here.sound fun _ => nofun)

/-- One more step of fuel reads linked parameters. -/
theorem parameters_succ
    (keep : DeclaratorsKeep old tokens fuel)
    (leading : Option String)
    {read : List Parameter}
    (sound : cursor.Sound old tokens)
    (linked : ParametersLinked old cursor read) :
    Keeps old tokens cursor.session (ParametersLinked old)
      (Grammar.parameters (fuel + 1) leading read cursor) := by
  unfold Grammar.parameters
  rw [peek_bind_run]
  cases itemComment cursor.peek.commentBefore leading with
  | mk before leading =>
    refine .bind (.refl sound) (keep.parameterParts sound) ?_
    intro parts shaped upkeep partsLinked here
    refine .bind here (trailingComments_keeps _ here.sound) ?_
    intro comments commented later _ here
    exact parameterEnd_keeps before comments.head? comments.tail here
      (linked.mono (upkeep.trans later).known)
      (fun spec has => (partsLinked.1 spec has).mono later.known)
      (fun shape has => (partsLinked.2 shape has).mono later.known)
      (keep.parameters leading)

/-- One more step of fuel reads the linked parts of a parameter. -/
theorem parameterParts_succ
    (keep : DeclaratorsKeep old tokens fuel)
    (sound : cursor.Sound old tokens) :
    Keeps old tokens cursor.session (PartsLinked old)
      (Grammar.parameterParts (fuel + 1) cursor) := by
  unfold Grammar.parameterParts
  refine .accept_bind (.refl sound) ?_ ?_
  · intro taken
    refine ⟨taken, ?_, ?_⟩
    · rintro _ ⟨⟩
      exact Spec.linked_of_none rfl
    · rintro _ ⟨⟩
      exact Declarator.linked_ofText _ _
  · rw [Option.isSome_none, if_neg (by simp)]
    refine .bind (.refl sound) (declarationSpecifiers_keeps .parameter sound) ?_
    intro specifiers specified _ specLinked here
    refine .bind here (keep.declarator true here.sound) ?_
    intro shape after upkeep shaped here
    split
    · exact .fail here _
    · refine ⟨here, ?_, fun shape has => (shaped.shaped shape has).sound.linked⟩
      intro spec has
      obtain ⟨read, present, rfl⟩ := Option.map_eq_some_iff.1 has
      exact (specLinked read present).mono upkeep.known

/-- The functions that read declarators keep a session in order with every fuel. -/
theorem all
    (old : ListId -> Prop)
    (tokens : List Token)
    (fuel : Nat) :
    DeclaratorsKeep old tokens fuel := by
  induction fuel with
  | zero =>
      exact {
        declarator := fun _ sound => Kept.refl sound
        directDeclarator := fun _ sound => Kept.refl sound
        suffixes := fun sound _ => Kept.refl sound
        parameterList := fun sound => Kept.refl sound
        parameters := fun _ _ sound _ => Kept.refl sound
        parameterParts := fun sound => Kept.refl sound
      }
  | succ fuel hypothesis =>
      exact {
        declarator := hypothesis.declarator_succ
        directDeclarator := hypothesis.directDeclarator_succ
        suffixes := hypothesis.suffixes_succ
        parameterList := hypothesis.parameterList_succ
        parameters := hypothesis.parameters_succ
        parameterParts := hypothesis.parameterParts_succ
      }

end DeclaratorsKeep

/-- A declarator that has to be there is sound and has a name. -/
theorem requiredDeclarator_keeps (sound : cursor.Sound old tokens) :
    Keeps old tokens cursor.session (Shaped old false) (requiredDeclarator cursor) := by
  unfold requiredDeclarator
  rw [get_bind_run]
  have keep := DeclaratorsKeep.all old tokens cursor.fuel
  refine .bind (.refl sound) (keep.declarator false sound) ?_
  intro shape after _ shaped here
  cases shape with
  | none => exact .fail here _
  | some declarator => exact ⟨here, shaped.shaped declarator rfl⟩

end Grammar
end DeclManual
