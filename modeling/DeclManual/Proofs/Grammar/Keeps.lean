import DeclManual.Proofs.Grammar.Run
import DeclManual.Proofs.Session.Upkeep

/-!
# Reading keeps a session in order

Whether a reading succeeds or fails, the cursor after it stands among the same tokens and
its session is kept up.  What a reading yields holds in the session it leaves: the
enumerator lists that it refers to are in the store.  Here this is shown for skipped runs
and for specifiers.
-/

namespace DeclManual
namespace Grammar

open Decl
open Source (Filled Token)

variable {α β : Type} {old : ListId -> Prop} {tokens : List Token} {base : Session}
  {cursor : Cursor}

/-! ## Cursors -/

/-- A cursor among fit tokens, in a session of which the symbols are linked. -/
structure Cursor.Sound
    (old : ListId -> Prop)
    (tokens : List Token)
    (cursor : Cursor) : Prop where
  fit : ∀ token ∈ tokens, token.Fit
  place : ∃ front, tokens = front ++ cursor.previous.toList ++ cursor.rest
  carried : Filled cursor.carried
  linked : cursor.session.Linked old

/-- A cursor that a session has been kept up to. -/
structure Kept
    (old : ListId -> Prop)
    (tokens : List Token)
    (base : Session)
    (cursor : Cursor) : Prop where
  sound : cursor.Sound old tokens
  upkeep : base.Upkeep old cursor.session

namespace Cursor

namespace Sound

/-- The next of fitting tokens fits. -/
theorem fit_peek (sound : cursor.Sound old tokens) : cursor.peek.Fit := by
  obtain ⟨front, whole⟩ := sound.place
  unfold peek
  cases rest : cursor.rest with
  | nil => exact ⟨nofun, .none, .none⟩
  | cons token rest' =>
      apply sound.fit token
      rw [whole, rest]
      simp

/-- A comment after the token taken last has text. -/
theorem filled_trailingComment (sound : cursor.Sound old tokens) :
    Filled cursor.trailingComment := by
  obtain ⟨front, whole⟩ := sound.place
  unfold trailingComment
  cases previous : cursor.previous with
  | none => exact .none
  | some token =>
      have member : token ∈ tokens := by
        rw [whole, previous]
        simp
      exact (sound.fit token member).after

end Sound
end Cursor

namespace Kept

theorem refl (sound : cursor.Sound old tokens) : Kept old tokens cursor.session cursor :=
  ⟨sound, .refl cursor.session⟩

theorem trans
    {after : Cursor}
    (here : Kept old tokens base cursor)
    (later : Kept old tokens cursor.session after) :
    Kept old tokens base after :=
  ⟨later.sound, here.upkeep.trans later.upkeep⟩

/-- What the session does keeps it up. -/
theorem act
    {session : Session}
    (here : Kept old tokens base cursor)
    (upkeep : cursor.session.Upkeep old session) :
    Kept old tokens base { cursor with session } where
  sound := ⟨here.sound.fit, here.sound.place, here.sound.carried, upkeep.linked here.sound.linked⟩
  upkeep := here.upkeep.trans upkeep

theorem sync
    (here : Kept old tokens base cursor)
    (token : Token) :
    Kept old tokens base (cursor.sync token) :=
  here.act ⟨rfl, rfl, rfl, rfl, Nat.le_refl _, id,
    fun linked => ⟨linked.typedefs, linked.enumTags⟩⟩

theorem advance (here : Kept old tokens base cursor) : Kept old tokens base cursor.advance := by
  have synced := here.sync cursor.peek
  unfold Cursor.advance
  dsimp only
  split
  · exact synced
  · rename_i notEnd
    obtain ⟨front, whole⟩ := here.sound.place
    rw [Cursor.rest_of_not_isEnd (by simpa using notEnd)] at whole
    refine ⟨⟨synced.sound.fit, ⟨front ++ cursor.previous.toList, ?_⟩, synced.sound.carried,
      synced.sound.linked⟩, synced.upkeep⟩
    simpa using whole

theorem advanceBy
    (here : Kept old tokens base cursor)
    (count : Nat) :
    Kept old tokens base (cursor.advanceBy count) := by
  induction count generalizing cursor with
  | zero => exact here
  | succ count hypothesis => exact hypothesis here.advance

/-- Reporting an error keeps the session. -/
theorem recordError
    (here : Kept old tokens base cursor)
    (expected : String) :
    Kept old tokens base (cursor.recordError expected) :=
  (here.sync cursor.peek).act (.error _ _)

end Kept

/-! ## Readings -/

/-- A reading keeps a session up, and what it yields holds where it ends. -/
def Keeps
    (old : ListId -> Prop)
    (tokens : List Token)
    (base : Session)
    (holds : Cursor -> α -> Prop) :
    EStateM.Result SyntaxError Cursor α -> Prop
  | .ok value after => Kept old tokens base after ∧ holds after value
  | .error _ after => Kept old tokens base after

/-- Nothing is said of what a reading yields. -/
def Anything (_ : Cursor) (_ : α) : Prop := True

namespace Keeps

variable {holds : Cursor -> α -> Prop}

theorem done
    {value : α}
    (here : Kept old tokens base cursor) :
    Keeps old tokens base Anything (.ok value cursor) :=
  ⟨here, trivial⟩

theorem fail
    (here : Kept old tokens base cursor)
    (expected : String) :
    Keeps old tokens base holds ((Grammar.fail expected : Parse α) cursor) :=
  here.recordError expected

/-- A reading that keeps the session of a cursor up keeps every earlier one up. -/
theorem from_here
    {result : EStateM.Result SyntaxError Cursor α}
    (here : Kept old tokens base cursor)
    (keeps : Keeps old tokens cursor.session holds result) :
    Keeps old tokens base holds result := by
  cases result with
  | ok value after => exact ⟨here.trans keeps.1, keeps.2⟩
  | error error after => exact here.trans keeps

/-- One reading after another. -/
theorem bind
    {first : Parse α}
    {next : α -> Parse β}
    {middle : Cursor -> α -> Prop}
    {holds : Cursor -> β -> Prop}
    (here : Kept old tokens base cursor)
    (keeps : Keeps old tokens cursor.session middle (first cursor))
    (continues : ∀ value after, cursor.session.Upkeep old after.session -> middle after value ->
      Kept old tokens base after -> Keeps old tokens base holds (next value after)) :
    Keeps old tokens base holds ((first >>= next) cursor) := by
  rw [bind_run]
  cases result : first cursor with
  | ok value after =>
      rw [result] at keeps
      exact continues value after keeps.1.upkeep keeps.2 (here.trans keeps.1)
  | error error after =>
      rw [result] at keeps
      exact here.trans keeps

/-- A token that has to be there is one of the tokens. -/
theorem expect
    (sound : cursor.Sound old tokens)
    (text : String) :
    Keeps old tokens cursor.session (fun _ token => token.Fit) (Grammar.expect text cursor) := by
  rw [expect_run]
  split
  · exact ⟨(Kept.refl sound).advance, sound.fit_peek⟩
  · exact (Kept.refl sound).recordError _

/-- What follows a token that may be there. -/
theorem accept_bind
    {text : String}
    {next : Option Token -> Parse α}
    (here : Kept old tokens base cursor)
    (present : Kept old tokens base cursor.advance ->
      Keeps old tokens base holds (next (some cursor.peek) cursor.advance))
    (absent : Keeps old tokens base holds (next none cursor)) :
    Keeps old tokens base holds ((accept text >>= next) cursor) := by
  rw [accept_bind_run]
  split
  · exact present here.advance
  · exact absent

end Keeps

/-! ## Skipping -/

/-- The search for a closing bracket keeps the session. -/
theorem skipUntilClose_keeps
    (close : String)
    (sound : cursor.Sound old tokens) :
    Keeps old tokens cursor.session Anything (skipUntilClose close cursor) := by
  have here := (Kept.refl sound).advanceBy (closingRun close 0 cursor.rest).1
  unfold skipUntilClose
  simp only [get_bind_run, skip_bind_run]
  split
  · exact .done here
  · exact .fail here _

/-- Skipping a bracketed run keeps the session. -/
theorem skipBalanced_keeps
    (opener close : String)
    (sound : cursor.Sound old tokens) :
    Keeps old tokens cursor.session Anything (skipBalanced opener close cursor) := by
  unfold skipBalanced
  rw [discard_bind_run]
  refine .bind (.refl sound) (.expect sound opener) ?_
  intro _ opened _ _ here
  exact .from_here here (skipUntilClose_keeps close here.sound)

/-- Skipping a group keeps the session. -/
theorem skipGroup_keeps
    (opener close : String)
    (sound : cursor.Sound old tokens) :
    Keeps old tokens cursor.session Anything (skipGroup opener close cursor) := by
  unfold skipGroup
  rw [sees_bind_run]
  split
  · exact skipBalanced_keeps opener close sound
  · exact .done (.refl sound)

/-- Skipping an expression keeps the session. -/
theorem skipExpression_keeps
    (stops : List String)
    (sound : cursor.Sound old tokens) :
    Keeps old tokens cursor.session Anything (skipExpression stops cursor) := by
  have here := (Kept.refl sound).advanceBy (expressionRun stops 0 cursor.rest).1
  unfold skipExpression
  simp only [get_bind_run, skip_bind_run]
  cases (expressionRun stops 0 cursor.rest).2 with
  | stop => exact .done here
  | unbalanced => exact .fail here _
  | endOfFile => exact .fail here _

/-- Skipping a value keeps the session. -/
theorem skipValue_keeps
    (stops : List String)
    (sound : cursor.Sound old tokens) :
    Keeps old tokens cursor.session Anything (skipValue stops cursor) := by
  refine .accept_bind (.refl sound) ?_ (.done (.refl sound))
  intro here
  exact .from_here here (skipExpression_keeps stops here.sound)

/-- Skipping attributes keeps the session, by induction on their number. -/
theorem skipAttributesUpTo_keeps
    (count : Nat)
    (sound : cursor.Sound old tokens) :
    Keeps old tokens cursor.session Anything (skipAttributesUpTo count cursor) := by
  induction count generalizing cursor with
  | zero => exact Kept.refl sound
  | succ count hypothesis =>
      unfold skipAttributesUpTo
      rw [peek_bind_run]
      split
      · have taken := (Kept.refl sound).advance
        simp only [discard_bind_run, take_bind_run]
        refine .bind taken (skipGroup_keeps _ _ taken.sound) ?_
        intro _ after _ _ here
        exact .from_here here (hypothesis here.sound)
      · exact .done (.refl sound)

/-- Skipping all attributes keeps the session. -/
theorem skipAttributes_keeps (sound : cursor.Sound old tokens) :
    Keeps old tokens cursor.session Anything (skipAttributes cursor) :=
  skipAttributesUpTo_keeps _ sound

/-- Skipping a statement keeps the session. -/
theorem skipStatementUpTo_keeps
    (steps : Nat)
    (sound : cursor.Sound old tokens) :
    Keeps old tokens cursor.session Anything (skipStatementUpTo steps cursor) := by
  induction steps generalizing cursor with
  | zero => exact Kept.refl sound
  | succ steps hypothesis =>
      unfold skipStatementUpTo
      rw [peek_bind_run]
      split
      · exact .done (.refl sound)
      rw [sees_bind_run]
      split
      · refine .bind (.refl sound) (skipBalanced_keeps _ _ sound) ?_
        intro _ after _ _ here
        exact .from_here here (hypothesis here.sound)
      · have taken := (Kept.refl sound).advance
        rw [take_bind_run]
        split
        · exact .done taken
        · exact .from_here taken (hypothesis taken.sound)

/-! ## Structures and unions -/

/-- Reading a tag keeps the session. -/
theorem optionalTag_keeps (sound : cursor.Sound old tokens) :
    Keeps old tokens cursor.session Anything (optionalTag cursor) := by
  unfold optionalTag
  rw [peek_bind_run]
  split
  · exact .done (Kept.refl sound).advance
  · exact .done (.refl sound)

/-- A specifier whose enumerator list is in the store. -/
def SpecLinked (old : ListId -> Prop) (after : Cursor) (spec : Spec) : Prop :=
  spec.Linked (after.session.enums.Known old)

/-- The specifier of a structure links to no list. -/
theorem recordSpecifier_keeps (sound : cursor.Sound old tokens) :
    Keeps old tokens cursor.session (SpecLinked old) (recordSpecifier cursor) := by
  have taken := (Kept.refl sound).advance
  unfold recordSpecifier
  rw [take_bind_run]
  refine .bind taken (skipAttributes_keeps taken.sound) ?_
  intro _ attributed _ _ here
  refine .bind here (optionalTag_keeps here.sound) ?_
  intro tag tagged _ _ here
  refine .bind here (skipGroup_keeps _ _ here.sound) ?_
  intro _ closed _ _ here
  refine .bind here (skipAttributes_keeps here.sound) ?_
  intro _ after _ _ here
  exact ⟨here, Spec.linked_ofText _ _⟩

/-! ## Enumerations -/

/-- Reading comments around a separator keeps the session. -/
theorem trailingComments_keeps
    (separator : String)
    (sound : cursor.Sound old tokens) :
    Keeps old tokens cursor.session Anything (trailingComments separator cursor) := by
  rw [trailingComments_run]
  split
  · exact .done (Kept.refl sound).advance
  · exact .done (.refl sound)

/-- Comments for an enumerator change its list alone. -/
theorem commentEnumerator_keeps
    (list : ListId)
    (comments : List String)
    (sound : cursor.Sound old tokens) :
    Keeps old tokens cursor.session Anything (commentEnumerator list comments cursor) := by
  induction comments generalizing cursor with
  | nil => exact .done (.refl sound)
  | cons comment rest hypothesis =>
      rw [commentEnumerator_cons]
      rw [discard_bind_run, act_bind_run]
      have here := (Kept.refl sound).act
        (Session.upkeep_commentLastEnumerator cursor.session list comment)
      exact .from_here here (hypothesis here.sound)

/-- An enumerator list is in the store. -/
def ListKnown (old : ListId -> Prop) (after : Cursor) (list : ListId) : Prop :=
  after.session.enums.Known old list

/-- A list that has been started is in the store; otherwise a new one is. -/
theorem addEnumerator_keeps
    (tag : Option String)
    {list : Option ListId}
    (enumerator : Enumerator)
    (sound : cursor.Sound old tokens)
    (started : ∀ id ∈ list, ListKnown old cursor id) :
    Keeps old tokens cursor.session (ListKnown old) (addEnumerator tag list enumerator cursor) := by
  rw [addEnumerator_eq]
  cases list with
  | some list =>
      have upkeep : cursor.session.Upkeep old _ :=
        Session.upkeep_appendEnumerator cursor.session list enumerator
      exact ⟨(Kept.refl sound).act upkeep, upkeep.known list (started list rfl)⟩
  | none =>
      obtain ⟨upkeep, known⟩ : cursor.session.Upkeep old _ ∧ _ :=
        Session.upkeep_newEnumList cursor.session tag enumerator
      exact ⟨(Kept.refl sound).act upkeep, known⟩

/-- Reading the name of an enumerator keeps the session. -/
theorem enumeratorName_keeps (sound : cursor.Sound old tokens) :
    Keeps old tokens cursor.session Anything (enumeratorName cursor) := by
  unfold enumeratorName
  rw [peek_bind_run]
  split
  · exact .done (Kept.refl sound).advance
  · exact .fail (.refl sound) _

/-- The enumerator list of an enumeration, if it has one, is in the store. -/
def ListsKnown (old : ListId -> Prop) (after : Cursor) (list : Option ListId) : Prop :=
  ∀ id ∈ list, ListKnown old after id

/-- Enumerators are added to one list, which is known from then on. -/
theorem enumerators_keeps
    (tag : Option String)
    (count : Nat)
    (leading : Option String)
    {list : Option ListId}
    (sound : cursor.Sound old tokens)
    (started : ListsKnown old cursor list) :
    Keeps old tokens cursor.session (ListsKnown old)
      (enumerators tag count leading list cursor) := by
  induction count generalizing leading list cursor with
  | zero => exact Kept.refl sound
  | succ count hypothesis =>
      rw [enumerators_succ]
      rw [sees_bind_run]
      split
      · rw [discard_bind_run, take_bind_run]
        have taken := (Kept.refl sound).advance
        exact ⟨taken, fun id has => taken.upkeep.known id (started id has)⟩
      refine .bind (.refl sound) (enumeratorName_keeps sound) ?_
      intro name named _ _ here
      refine .bind here (skipValue_keeps _ here.sound) ?_
      intro _ valued _ _ here
      refine .bind here (trailingComments_keeps _ here.sound) ?_
      intro comments commented _ _ here
      have stillStarted : ListsKnown old commented list :=
        fun id has => here.upkeep.known id (started id has)
      refine .bind here (addEnumerator_keeps tag _ here.sound stillStarted) ?_
      intro id added _ known here
      refine .bind here (commentEnumerator_keeps id _ here.sound) ?_
      intro _ after upkeep _ here
      have again (leading : Option String) :
          Keeps old tokens cursor.session (ListsKnown old)
            (enumerators tag count leading (some id) after) := by
        refine .from_here here (hypothesis leading here.sound ?_)
        rintro _ ⟨⟩
        exact upkeep.known id known
      rw [get_bind_run]
      split
      · exact again _
      rw [sees_bind_run]
      split
      · exact again _
      · exact .fail here _

/-- The list that has been read is known. -/
theorem enumeratorList_keeps
    (tag : Option String)
    (sound : cursor.Sound old tokens) :
    Keeps old tokens cursor.session (ListsKnown old) (enumeratorList tag cursor) := by
  refine .bind (.refl sound) (.expect sound _) ?_
  intro opener opened _ _ here
  rw [get_bind_run]
  exact .from_here here (enumerators_keeps tag _ _ here.sound fun _ => nofun)

/-- The list of an enumeration is a new one or that of its tag. -/
theorem enumerationList_keeps
    (tag : Option String)
    (sound : cursor.Sound old tokens) :
    Keeps old tokens cursor.session (ListsKnown old) (enumerationList tag cursor) := by
  unfold enumerationList
  rw [sees_bind_run]
  split
  · exact enumeratorList_keeps tag sound
  · refine ⟨.refl sound, fun id has => ?_⟩
    obtain ⟨name, -, found⟩ := Option.bind_eq_some_iff.1 has
    exact sound.linked.enumTags.lookup? name id found

/-- The specifier of an enumeration links to a known list. -/
theorem enumSpecifier_keeps (sound : cursor.Sound old tokens) :
    Keeps old tokens cursor.session (SpecLinked old) (enumSpecifier cursor) := by
  have taken := (Kept.refl sound).advance
  unfold enumSpecifier
  rw [take_bind_run]
  refine .bind taken (skipAttributes_keeps taken.sound) ?_
  intro _ attributed _ _ here
  refine .bind here (optionalTag_keeps here.sound) ?_
  intro tag tagged _ _ here
  refine .bind here (enumerationList_keeps tag here.sound) ?_
  intro list after _ known here
  exact ⟨here, Spec.linked_withEnumList _ known⟩

/-- A type name links to the list it was given. -/
theorem typedefSpecifier_keeps (sound : cursor.Sound old tokens) :
    Keeps old tokens cursor.session (SpecLinked old) (typedefSpecifier cursor) := by
  have taken := (Kept.refl sound).advance
  exact ⟨taken, Spec.linked_withEnumList _ (taken.sound.linked.typedefs.lookup? _)⟩

/-! ## Specifiers of a declaration -/

/-- Specifiers, if there are any, whose enumerator list is in the store. -/
def SpecifiersLinked
    (old : ListId -> Prop)
    (after : Cursor)
    (specifiers : Option Specifiers) : Prop :=
  ∀ read ∈ specifiers, SpecLinked old after read.spec

/-- Specifiers stay linked when a linked part is added. -/
theorem SpecifiersLinked.add
    {specifiers : Option Specifiers}
    {part : Spec}
    (read : SpecifiersLinked old cursor specifiers)
    (linked : SpecLinked old cursor part)
    (isTypedef : Bool) :
    SpecifiersLinked old cursor (Specifiers.add specifiers isTypedef part) := by
  cases specifiers with
  | none =>
      rintro _ ⟨⟩
      exact linked
  | some specifiers =>
      rintro _ ⟨⟩
      exact (read specifiers rfl).join linked

theorem SpecifiersLinked.mono
    {specifiers : Option Specifiers}
    {after : Cursor}
    (read : SpecifiersLinked old cursor specifiers)
    (upkeep : cursor.session.Upkeep old after.session) :
    SpecifiersLinked old after specifiers :=
  fun specifiers has => (read specifiers has).mono upkeep.known

/-- Specifiers link to known lists, by induction on their number. -/
theorem specifiersUpTo_keeps
    (context : Context)
    (count : Nat)
    (seenType : Bool)
    {read : Option Specifiers}
    (sound : cursor.Sound old tokens)
    (linked : SpecifiersLinked old cursor read) :
    Keeps old tokens cursor.session (SpecifiersLinked old)
      (specifiersUpTo context count seenType read cursor) := by
  induction count generalizing seenType read cursor with
  | zero => exact Kept.refl sound
  | succ count hypothesis =>
      have here := Kept.refl sound
      have taken := here.advance
      -- every fragment is joined to those before it, in the session that it leaves
      have joined (seenType isTypedef : Bool) {part : Parse Spec}
          (keeps : Keeps old tokens cursor.session (SpecLinked old) (part cursor)) :
          Keeps old tokens cursor.session (SpecifiersLinked old)
            ((part >>= fun part => specifiersUpTo context count seenType
              (Specifiers.add read isTypedef part)) cursor) := by
        refine .bind here keeps ?_
        intro part after upkeep partLinked here
        exact .from_here here
          (hypothesis seenType here.sound ((linked.mono upkeep).add partLinked isTypedef))
      have word (flags : Flags) :
          Keeps old tokens cursor.session (SpecLinked old) (takeSpecifier flags cursor) :=
        ⟨taken, Spec.linked_ofText _ _⟩
      unfold specifiersUpTo
      rw [get_bind_run]
      split
      · exact ⟨here, linked⟩
      cases meaningAt context seenType cursor with
      | typedefWord => exact joined seenType true (word .junk)
      | modifier flags => exact joined seenType false (word flags)
      | typeWord flags => exact joined true false (word flags)
      | extensionWord =>
          dsimp only
          rw [discard_bind_run]
          exact .from_here taken (hypothesis seenType taken.sound (linked.mono taken.upkeep))
      | «attribute» =>
          refine .bind here (skipAttributes_keeps sound) ?_
          intro _ after upkeep _ here
          exact .from_here here (hypothesis seenType here.sound (linked.mono upkeep))
      | record => exact joined true false (recordSpecifier_keeps sound)
      | enumeration => exact joined true false (enumSpecifier_keeps sound)
      | typedefName => exact joined true false (typedefSpecifier_keeps sound)
      | stop => exact ⟨here, linked⟩

/-- The specifiers of a declaration link to known lists. -/
theorem declarationSpecifiers_keeps
    (context : Context)
    (sound : cursor.Sound old tokens) :
    Keeps old tokens cursor.session (SpecifiersLinked old)
      (declarationSpecifiers context cursor) := by
  unfold declarationSpecifiers
  rw [get_bind_run]
  exact specifiersUpTo_keeps context _ false sound fun _ => nofun

end Grammar
end DeclManual
