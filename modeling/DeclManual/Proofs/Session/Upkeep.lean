import DeclManual.Grammar.Keyword
import DeclManual.Proofs.Session.Links
import DeclManual.Proofs.Source.Fit

/-!
# What reading leaves as it is

Until a declaration is complete, a session changes only by lists of enumerators that
start and grow, by tags and typedef names that refer to them, by diagnostics and by the
current position.  Pages and options stay as they are, and no symbol comes to refer to a
list that is not in the store.  Lists that were `old` before the session started are
taken as known.
-/

namespace DeclManual

open Decl
open Source (Filled IsWordText)

/-- The lists of a store are known, and so are those from before. -/
def Decl.EnumStore.Known (old : ListId -> Prop) (store : EnumStore) (list : ListId) : Prop :=
  old list ∨ list < store.size

/-- A word that can be the name of a declared object. -/
def IsName (name : String) : Prop :=
  IsWordText name ∧ Grammar.isKeyword name = false

/-- A declarator of which the name, if it has one, can be a name, the comment is not empty,
and the parameters are linked. -/
structure Decl.Declarator.Sound (known : ListId -> Prop) (declarator : Declarator) : Prop where
  linked : declarator.Linked known
  name : ∀ name ∈ declarator.name, IsName name
  comment : Filled declarator.comment

/-- Declarators of a declaration: sound, and each with a name. -/
def Decl.SoundAll (known : ListId -> Prop) (declarators : List Declarator) : Prop :=
  ∀ declarator ∈ declarators, declarator.Sound known ∧ declarator.name.isSome = true

namespace Decl

variable {known : ListId -> Prop}

namespace Declarator.Sound

theorem mono
    {declarator : Declarator}
    {wider : ListId -> Prop}
    (sound : declarator.Sound known)
    (more : ∀ list, known list -> wider list) :
    declarator.Sound wider :=
  ⟨sound.linked.mono more, sound.name, sound.comment⟩

theorem withComment
    {declarator : Declarator}
    {comment : Option String}
    (sound : declarator.Sound known)
    (filled : Filled comment) :
    Declarator.Sound known { declarator with comment } :=
  ⟨sound.linked.congr rfl rfl, sound.name, filled⟩

end Declarator.Sound

namespace SoundAll

theorem mono
    {declarators : List Declarator}
    {wider : ListId -> Prop}
    (sound : SoundAll known declarators)
    (more : ∀ list, known list -> wider list) :
    SoundAll wider declarators :=
  fun declarator member => ⟨(sound declarator member).1.mono more, (sound declarator member).2⟩

theorem nil : SoundAll known [] := fun _ => nofun

theorem concat
    {declarators : List Declarator}
    {declarator : Declarator}
    (sound : SoundAll known declarators)
    (last : declarator.Sound known)
    (named : declarator.name.isSome = true) :
    SoundAll known (declarators ++ [declarator]) := by
  intro other member
  rcases List.mem_append.1 member with earlier | isLast
  · exact sound other earlier
  · exact List.mem_singleton.1 isLast ▸ ⟨last, named⟩

theorem dropLast
    {declarators : List Declarator}
    (sound : SoundAll known declarators) :
    SoundAll known declarators.dropLast :=
  fun declarator member => sound declarator (List.dropLast_subset _ member)

end SoundAll
end Decl

namespace Session

variable {old : ListId -> Prop}

/-- The symbols of a session refer to known lists. -/
structure Linked (old : ListId -> Prop) (session : Session) : Prop where
  typedefs : session.typedefs.Linked (session.enums.Known old)
  enumTags : session.enumTags.Linked (session.enums.Known old)

/-- What reading leaves as it is. -/
structure Upkeep (old : ListId -> Prop) (before after : Session) : Prop where
  pages : after.pages = before.pages
  options : after.options = before.options
  baseFile : after.source.baseFile = before.source.baseFile
  isHeader : after.source.isHeader = before.source.isHeader
  size : before.enums.size ≤ after.enums.size
  filled : before.enums.Filled -> after.enums.Filled
  linked : before.Linked old -> after.Linked old

namespace Upkeep

theorem refl (session : Session) : Upkeep old session session :=
  ⟨rfl, rfl, rfl, rfl, Nat.le_refl _, id, id⟩

theorem trans
    {first second third : Session}
    (left : Upkeep old first second)
    (right : Upkeep old second third) :
    Upkeep old first third where
  pages := right.pages.trans left.pages
  options := right.options.trans left.options
  baseFile := right.baseFile.trans left.baseFile
  isHeader := right.isHeader.trans left.isHeader
  size := Nat.le_trans left.size right.size
  filled := right.filled ∘ left.filled
  linked := right.linked ∘ left.linked

/-- A list that was known stays known. -/
theorem known
    {before after : Session}
    (upkeep : Upkeep old before after)
    (list : ListId)
    (isKnown : before.enums.Known old list) :
    after.enums.Known old list :=
  isKnown.imp_right fun inStore => Nat.lt_of_lt_of_le inStore upkeep.size

/-- The store grows, and the symbols stay or refer to what is known then. -/
theorem of_enums
    (session : Session)
    {enums : EnumStore}
    (size : session.enums.size ≤ enums.size)
    (filled : session.enums.Filled -> enums.Filled) :
    Upkeep old session { session with enums } := by
  have known (list : ListId) (isKnown : session.enums.Known old list) : enums.Known old list :=
    isKnown.imp_right fun inStore => Nat.lt_of_lt_of_le inStore size
  exact ⟨rfl, rfl, rfl, rfl, size, filled,
    fun linked => ⟨linked.typedefs.mono known, linked.enumTags.mono known⟩⟩

theorem error (session : Session) (message : String) :
    Upkeep old session (session.error message) :=
  ⟨rfl, rfl, rfl, rfl, Nat.le_refl _, id, fun linked => ⟨linked.typedefs, linked.enumTags⟩⟩

theorem report (session : Session) (conflict : Conflict) :
    Upkeep old session (session.report conflict) :=
  error session conflict.message

theorem reportAll (session : Session) (conflicts : List Conflict) :
    Upkeep old session (session.reportAll conflicts) := by
  unfold Session.reportAll
  induction conflicts generalizing session with
  | nil => exact .refl session
  | cons conflict rest hypothesis => exact (report session conflict).trans (hypothesis _)

end Upkeep

/-! ## Enumerator lists -/

/-- Adding an enumerator keeps a session in order. -/
theorem upkeep_appendEnumerator (session : Session) (list : ListId) (enumerator : Enumerator) :
    Upkeep old session (session.appendEnumerator list enumerator) :=
  .of_enums session (Nat.le_of_eq (EnumStore.size_append _ _ _).symm)
    fun filled => filled.append list enumerator

/-- A comment for an enumerator keeps a session in order. -/
theorem upkeep_commentLastEnumerator (session : Session) (list : ListId) (comment : String) :
    Upkeep old session (session.commentLastEnumerator list comment).1 := by
  unfold commentLastEnumerator
  split
  · rename_i enums attached
    obtain ⟨size, filled⟩ := EnumStore.attachComment_cases attached
    exact .of_enums session (Nat.le_of_eq size.symm) filled
  · exact .report session _

/-- A list that is started is in the store from then on. -/
theorem upkeep_newEnumList (session : Session) (tag : Option String) (first : Enumerator) :
    Upkeep old session (session.newEnumList tag first).1 ∧
      (session.newEnumList tag first).1.enums.Known old (session.newEnumList tag first).2 := by
  have started : Upkeep old session { session with enums := (session.enums.start first).1 } :=
    .of_enums session (by rw [EnumStore.size_start]; exact Nat.le_succ _)
      fun filled => filled.start first
  have inStore : (session.enums.start first).1.Known old (session.enums.start first).2 := by
    right
    rw [EnumStore.size_start]
    exact Nat.lt_succ_self _
  unfold newEnumList
  cases tag with
  | none => exact ⟨started, inStore⟩
  | some tag =>
      refine ⟨started.trans ⟨rfl, rfl, rfl, rfl, Nat.le_refl _, id, fun linked => ?_⟩, inStore⟩
      exact ⟨linked.typedefs, linked.enumTags.register tag inStore⟩

/-! ## Typedef names -/

/-- Defining a type name keeps a session in order if its list is known. -/
theorem upkeep_declareTypedef
    (session : Session)
    {list : Option ListId}
    (inStore : ∀ id ∈ list, session.enums.Known old id)
    (name : String) :
    Upkeep old session (session.declareTypedef list name) := by
  unfold declareTypedef
  split
  · rename_i id
    refine ⟨rfl, rfl, rfl, rfl, Nat.le_refl _, fun filled => filled, fun linked => ?_⟩
    exact ⟨linked.typedefs.register name (inStore id rfl), linked.enumTags⟩
  · refine ⟨rfl, rfl, rfl, rfl, Nat.le_refl _, fun filled => filled, fun linked => ?_⟩
    exact ⟨linked.typedefs.insertIfAbsent name 0, linked.enumTags⟩

/-- Defining the type names of a declaration keeps a session in order. -/
theorem upkeep_declareTypedefs
    (session : Session)
    {spec : Spec}
    (linked : spec.Linked (session.enums.Known old))
    (declarators : List Declarator) :
    Upkeep old session (session.declareTypedefs spec declarators) := by
  unfold declareTypedefs
  induction declarators.filterMap (·.name) generalizing session with
  | nil => exact .refl session
  | cons name rest hypothesis =>
      have declared := upkeep_declareTypedef session linked name
      exact declared.trans (hypothesis _ (linked.mono declared.known))

/-! ## Parameters -/

/-- Making a parameter keeps a session in order. -/
theorem upkeep_newParameter
    (session : Session)
    (spec : Option Spec)
    (declarator : Option Declarator)
    (before after : Option String) :
    Upkeep old session (session.newParameter spec declarator before after).1 := by
  unfold newParameter
  dsimp only
  split
  · exact .report session _
  · exact .refl session

/-- A new parameter links to what its specifier does. -/
theorem linked_newParameter
    {known : ListId -> Prop}
    (session : Session)
    {spec : Option Spec}
    {declarator : Option Declarator}
    (specLinked : ∀ part ∈ spec, part.Linked known)
    (declaratorLinked : ∀ shape ∈ declarator, shape.Linked known)
    (before after : Option String) :
    (session.newParameter spec declarator before after).2.Linked known := by
  constructor
  · cases spec with
    | none => exact Spec.linked_of_none rfl
    | some part => exact specLinked part rfl
  · cases declarator with
    | none => exact (Declarator.linked_ofText none none).congr rfl rfl
    | some shape => exact (declaratorLinked shape rfl).congr rfl rfl

/-- A comment for a parameter keeps a session in order. -/
theorem upkeep_commentLastParameter
    (session : Session)
    (parameters : List Parameter)
    (comment : String) :
    Upkeep old session (session.commentLastParameter parameters comment).1 := by
  unfold commentLastParameter
  split
  · exact .report session _
  · split
    · exact .report session _
    · exact .refl session

/-- Parameters stay linked when the last is given a comment. -/
theorem linked_commentLastParameter
    {known : ListId -> Prop}
    (session : Session)
    {parameters : List Parameter}
    (linked : LinkedAll known parameters)
    (comment : String) :
    LinkedAll known (session.commentLastParameter parameters comment).2.1 := by
  unfold commentLastParameter
  split
  · exact linked
  · rename_i last isLast
    have lastLinked := linked last (List.mem_of_getLast? isLast)
    split
    · exact linked
    · exact linked.dropLast.concat ⟨lastLinked.spec, lastLinked.declarator.congr rfl rfl⟩

/-- Comments for a parameter keep the session in order and the parameters linked. -/
theorem commentLastParameterAll_upkeep
    {known : ListId -> Prop}
    (session : Session)
    {parameters : List Parameter}
    (linked : LinkedAll known parameters)
    (comments : List String) :
    Upkeep old session (session.commentLastParameterAll parameters comments).1 ∧
      LinkedAll known (session.commentLastParameterAll parameters comments).2 := by
  induction comments generalizing session parameters with
  | nil => exact ⟨.refl session, linked⟩
  | cons comment rest hypothesis =>
      obtain ⟨upkeep, others⟩ := hypothesis (session.commentLastParameter parameters comment).1
        (linked_commentLastParameter session linked comment)
      exact ⟨(upkeep_commentLastParameter session parameters comment).trans upkeep, others⟩

/-- A parameter that comes after others, with the comments that follow it. -/
theorem addParameter_upkeep
    {known : ListId -> Prop}
    (session : Session)
    {parameters : List Parameter}
    (linked : LinkedAll known parameters)
    {spec : Option Spec}
    {declarator : Option Declarator}
    (specLinked : ∀ part ∈ spec, part.Linked known)
    (declaratorLinked : ∀ shape ∈ declarator, shape.Linked known)
    (before after : Option String)
    (comments : List String) :
    let created := session.newParameter spec declarator before after
    let commented := created.1.commentLastParameterAll (parameters ++ [created.2]) comments
    Upkeep old session commented.1 ∧ LinkedAll known commented.2 := by
  intro created commented
  have last := linked_newParameter session specLinked declaratorLinked before after
  obtain ⟨upkeep, all⟩ :=
    commentLastParameterAll_upkeep created.1 (linked.concat last) comments
  exact ⟨(upkeep_newParameter session spec declarator before after).trans upkeep, all⟩

/-! ## Old-style parameter types -/

/-- A parameter that is given its type links to what the specifier does. -/
theorem linked_typeParameter
    {known : ListId -> Prop}
    (promote : Bool)
    {spec : Spec}
    (specLinked : spec.Linked known)
    (comment : Option String)
    {declarator : Declarator}
    (declaratorLinked : declarator.Linked known)
    {parameter : Parameter}
    (linked : parameter.Linked known) :
    (typeParameter promote spec comment declarator parameter).1.Linked known := by
  refine ⟨?_, declaratorLinked.congr rfl rfl⟩
  intro list has
  rcases Option.or_eq_some_iff.1 has with own | ⟨-, given⟩
  · exact linked.spec list own
  · exact specLinked list given

/-- An old-style declaration keeps the session in order and the parameters linked. -/
theorem applyParameterTypes_upkeep
    {known : ListId -> Prop}
    (session : Session)
    {parameters : List Parameter}
    (linked : LinkedAll known parameters)
    {spec : Spec}
    (specLinked : spec.Linked known)
    {declarators : List Declarator}
    (declaratorsLinked : ∀ declarator ∈ declarators, declarator.Linked known)
    (comment endOfLine : Option String) :
    Upkeep old session
        (session.applyParameterTypes parameters spec declarators comment endOfLine).1 ∧
      LinkedAll known
        (session.applyParameterTypes parameters spec declarators comment endOfLine).2 := by
  unfold applyParameterTypes
  split
  · exact ⟨.report session _, linked⟩
  · induction declarators generalizing session parameters with
    | nil => exact ⟨.refl session, linked⟩
    | cons declarator rest hypothesis =>
        have others := fun other member =>
          declaratorsLinked other (List.mem_cons_of_mem declarator member)
        rw [List.foldl_cons]
        unfold applyParameterType
        dsimp only
        split
        · obtain ⟨upkeep, typed⟩ := hypothesis (session.report _) linked others
          exact ⟨(Upkeep.report session _).trans upkeep, typed⟩
        · rename_i index _
          obtain ⟨upkeep, typed⟩ := hypothesis (session.reportAll _)
            (linked.set (linked_typeParameter session.options.promoteParameters specLinked
              (comment.or endOfLine) (declaratorsLinked declarator List.mem_cons_self)
              (linked.getD index)) index) others
          exact ⟨(Upkeep.reportAll session _).trans upkeep, typed⟩

/-! ## Declarators -/

/-- A comment for a declarator keeps the session in order and the declarators sound. -/
theorem commentLastDeclarator_upkeep
    {known : ListId -> Prop}
    (session : Session)
    {declarators : List Declarator}
    (sound : SoundAll known declarators)
    {comment : String}
    (filled : comment ≠ "") :
    Upkeep old session (session.commentLastDeclarator declarators comment).1 ∧
      SoundAll known (session.commentLastDeclarator declarators comment).2.1 := by
  unfold commentLastDeclarator
  split
  · exact ⟨.refl session, sound⟩
  · rename_i last isLast
    obtain ⟨lastSound, named⟩ := sound last (List.mem_of_getLast? isLast)
    split
    · exact ⟨.report session _, sound⟩
    · exact ⟨.refl session, sound.dropLast.concat (lastSound.withComment (.some filled)) named⟩

/-- Comments for a declarator keep the session in order and the declarators sound. -/
theorem commentLastDeclaratorAll_upkeep
    {known : ListId -> Prop}
    (session : Session)
    {declarators : List Declarator}
    (sound : SoundAll known declarators)
    {comments : List String}
    (filled : ∀ comment ∈ comments, comment ≠ "") :
    Upkeep old session (session.commentLastDeclaratorAll declarators comments).1 ∧
      SoundAll known (session.commentLastDeclaratorAll declarators comments).2 := by
  induction comments generalizing session declarators with
  | nil => exact ⟨.refl session, sound⟩
  | cons comment rest hypothesis =>
      obtain ⟨first, commented⟩ :=
        commentLastDeclarator_upkeep session sound (filled comment List.mem_cons_self)
      obtain ⟨upkeep, others⟩ := hypothesis (session.commentLastDeclarator declarators comment).1
        commented fun other member => filled other (List.mem_cons_of_mem comment member)
      exact ⟨first.trans upkeep, others⟩

/-- A comment at the end of a line keeps a declarator sound and its name. -/
theorem sound_attachEndOfLine
    {known : ListId -> Prop}
    {declarator commented : Declarator}
    (sound : declarator.Sound known)
    {comment : String}
    (filled : comment ≠ "")
    (attached : attachEndOfLine declarator comment = .ok commented) :
    commented.Sound known ∧ commented.name = declarator.name := by
  unfold attachEndOfLine at attached
  dsimp only at attached
  split at attached
  · rename_i parameter target
    split at attached
    · cases attached
    · obtain rfl := Except.ok.inj attached
      have member : parameter ∈ declarator.headParameters := by
        split at target
        · exact List.mem_of_getLast? target
        · cases target
      have listed := sound.linked.headParameters
      have lastLinked := listed parameter member
      refine ⟨⟨sound.linked.updateHead ?_, ?_, ?_⟩, Declarator.name_updateHead _ _⟩
      · exact listed.dropLast.concat ⟨lastLinked.spec, lastLinked.declarator.congr rfl rfl⟩
      · rw [Declarator.name_updateHead]
        exact sound.name
      · rw [Declarator.comment_updateHead]
        exact sound.comment
  · split at attached
    · cases attached
    · obtain rfl := Except.ok.inj attached
      exact ⟨sound.withComment (.some filled), rfl⟩

/-- A comment at the end of a line keeps the session in order and the declarators sound. -/
theorem commentEndOfLine_upkeep
    {known : ListId -> Prop}
    (session : Session)
    {declarators : List Declarator}
    (sound : SoundAll known declarators)
    {comment : Option String}
    (filled : Filled comment) :
    Upkeep old session (session.commentEndOfLine declarators comment).1 ∧
      SoundAll known (session.commentEndOfLine declarators comment).2.1 := by
  unfold commentEndOfLine
  split
  · rename_i comment last isLast
    obtain ⟨lastSound, named⟩ := sound last (List.mem_of_getLast? isLast)
    split
    · rename_i commented attached
      obtain ⟨commentedSound, sameName⟩ :=
        sound_attachEndOfLine lastSound (filled comment rfl) attached
      exact ⟨.refl session, sound.dropLast.concat commentedSound (sameName ▸ named)⟩
    · exact ⟨.report session _, sound⟩
  · exact ⟨.refl session, sound⟩

end Session
end DeclManual
