import DeclManual.Proofs.Files.KnownLists
import DeclManual.Proofs.Grammar.Pages

/-!
# No dangling enumerator list

In every session that can be reached, whatever texts have been read and however they are
broken, each reference to an enumerator list is to one in the store, and no list of the
store is empty.  So no list outside the store is written to while a text is read, and none
is looked at when the pages are published.
-/

namespace DeclManual

open Decl

/-! ## Reading writes to lists in the store -/

namespace Grammar

variable {α β : Type} {cursor after : Cursor}

/-- A step that runs alike goes on alike. -/
theorem bind_run_congr
    {step : Parse α}
    {next other : α -> Parse β}
    (same : ∀ value after, step cursor = .ok value after -> next value after = other value after) :
    (step >>= next) cursor = (step >>= other) cursor := by
  rw [bind_run, bind_run]
  cases result : step cursor with
  | ok value after => exact same value after result
  | error error after => rfl

/-- Nothing else is done for a list in the store. -/
theorem ensureList_bind_run
    {list : ListId}
    (inStore : list < cursor.session.enums.size)
    (missing : Parse Unit)
    (next : Unit -> Parse β) :
    (ensureList missing list >>= next) cursor = next () cursor := by
  unfold ensureList
  rw [bind_run, get_bind_run, if_pos inStore]
  rfl

/-! Skipping and taking tokens leave the store as it is. -/

theorem enums_advance (cursor : Cursor) :
    cursor.advance.session.enums = cursor.session.enums := by
  rw [Cursor.session_advance]
  rfl

theorem enums_advanceBy (count : Nat) (cursor : Cursor) :
    (cursor.advanceBy count).session.enums = cursor.session.enums := by
  induction count generalizing cursor with
  | zero => rfl
  | succ count hypothesis => exact (hypothesis cursor.advance).trans (enums_advance cursor)

/-- Reading the name of an enumerator leaves the enumerator lists. -/
theorem enums_of_enumeratorName
    {name : Source.Token}
    (read : enumeratorName cursor = .ok name after) :
    after.session.enums = cursor.session.enums := by
  unfold enumeratorName at read
  rw [peek_bind_run] at read
  split at read
  · cases read
    exact enums_advance cursor
  · cases read

theorem enums_of_skipExpression
    {stops : List String}
    (read : skipExpression stops cursor = .ok () after) :
    after.session.enums = cursor.session.enums := by
  unfold skipExpression at read
  simp only [get_bind_run, skip_bind_run] at read
  cases ending : (expressionRun stops 0 cursor.rest).2 with
  | stop =>
      rw [ending] at read
      cases read
      exact enums_advanceBy _ cursor
  | unbalanced =>
      rw [ending] at read
      cases read
  | endOfFile =>
      rw [ending] at read
      cases read

theorem enums_of_skipValue
    {stops : List String}
    (read : skipValue stops cursor = .ok () after) :
    after.session.enums = cursor.session.enums := by
  unfold skipValue at read
  rw [accept_bind_run] at read
  split at read
  · exact (enums_of_skipExpression read).trans (enums_advance cursor)
  · cases read
    rfl

/-- Reading comments around a separator leaves the enumerator lists. -/
theorem enums_of_trailingComments
    {separator : String}
    {comments : List String}
    (read : trailingComments separator cursor = .ok comments after) :
    after.session.enums = cursor.session.enums := by
  rw [trailingComments_run] at read
  split at read
  · cases read
    exact enums_advance cursor
  · cases read
    rfl

/-- A comment for an enumerator makes no list. -/
theorem size_commentLastEnumerator (session : Session) (list : ListId) (comment : String) :
    (session.commentLastEnumerator list comment).1.enums.size = session.enums.size := by
  unfold Session.commentLastEnumerator
  split
  · rename_i attached
    exact (EnumStore.attachComment_cases attached).1
  · rfl

/-- Comments for an enumerator of a list that is held never find it missing. -/
theorem commentEnumeratorIn_run
    {list : ListId}
    (inStore : list < cursor.session.enums.size)
    (missing : Parse Unit)
    (comments : List String) :
    commentEnumeratorIn missing list comments cursor = commentEnumerator list comments cursor ∧
      ∀ after, commentEnumerator list comments cursor = .ok () after ->
        after.session.enums.size = cursor.session.enums.size := by
  induction comments generalizing cursor with
  | nil =>
      refine ⟨rfl, fun after read => ?_⟩
      cases read
      rfl
  | cons comment rest hypothesis =>
      have size := size_commentLastEnumerator cursor.session list comment
      rw [commentEnumeratorIn, commentEnumerator_cons, ensureList_bind_run inStore]
      simp only [discard_bind_run, act_bind_run]
      obtain ⟨same, kept⟩ := @hypothesis
        { cursor with session := (cursor.session.commentLastEnumerator list comment).1 }
        (by rw [size]; exact inStore)
      exact ⟨same, fun after read => (kept after read).trans size⟩

/-- The list that an enumerator is added to is in the store before and after. -/
theorem addEnumeratorIn_run
    {list : Option ListId}
    (started : ∀ id ∈ list, id < cursor.session.enums.size)
    (missing : Parse Unit)
    (tag : Option String)
    (enumerator : Enumerator) :
    addEnumeratorIn missing tag list enumerator cursor = addEnumerator tag list enumerator cursor ∧
      ∀ id after, addEnumerator tag list enumerator cursor = .ok id after ->
        id < after.session.enums.size := by
  rw [addEnumerator_eq]
  cases list with
  | some list =>
      have inStore := started list rfl
      refine ⟨ensureList_bind_run inStore missing _, fun id after read => ?_⟩
      cases read
      exact (EnumStore.size_append _ _ _).symm ▸ inStore
  | none =>
      refine ⟨rfl, fun id after read => ?_⟩
      cases read
      obtain ⟨-, known⟩ : cursor.session.Upkeep (fun _ => False) _ ∧ _ :=
        Session.upkeep_newEnumList cursor.session tag enumerator
      exact known.resolve_left id

/-- Enumerators of a list that is held never find it missing, by induction on their number.
-/
theorem enumeratorsIn_run
    (missing : Parse Unit)
    (tag : Option String)
    (count : Nat)
    (leading : Option String)
    {list : Option ListId}
    (started : ∀ id ∈ list, id < cursor.session.enums.size) :
    enumeratorsIn missing tag count leading list cursor =
      enumerators tag count leading list cursor := by
  induction count generalizing leading list cursor with
  | zero => rfl
  | succ count hypothesis =>
      rw [enumeratorsIn, enumerators_succ, sees_bind_run, sees_bind_run]
      split
      · rfl
      apply bind_run_congr
      intro name named isNamed
      apply bind_run_congr
      intro _ valued isValued
      apply bind_run_congr
      intro comments commented isCommented
      have same : commented.session.enums = cursor.session.enums :=
        (enums_of_trailingComments isCommented).trans
          ((enums_of_skipValue isValued).trans (enums_of_enumeratorName isNamed))
      obtain ⟨adding, added⟩ := addEnumeratorIn_run (same ▸ started) missing tag
        (.ofComments name.text (name.commentBefore.or leading) comments.head?)
      rw [bind_run, adding, ← bind_run]
      apply bind_run_congr
      intro id further isAdded
      have inStore := added id further isAdded
      obtain ⟨commenting, kept⟩ := commentEnumeratorIn_run inStore missing comments.tail
      rw [bind_run, commenting, ← bind_run]
      apply bind_run_congr
      intro _ after isAfter
      have stillStarted : ∀ other ∈ some id, other < after.session.enums.size := by
        rintro _ ⟨⟩
        rw [kept after isAfter]
        exact inStore
      rw [get_bind_run, get_bind_run]
      split
      · exact hypothesis _ stillStarted
      rw [sees_bind_run, sees_bind_run]
      split
      · exact hypothesis _ stillStarted
      · rfl

/-- Whatever would be done for a list that is not in the store, it is not done. -/
theorem enumeratorListIn_eq (missing : Parse Unit) (tag : Option String) :
    enumeratorListIn missing tag = enumeratorList tag := by
  funext cursor
  apply bind_run_congr
  intro opener opened _
  exact enumeratorsIn_run missing tag _ opener.commentAfter fun _ => nofun

end Grammar

namespace Session

/-! ## Reachable sessions -/

/-- A session that is reached from the start by beginning files, reading texts and tearing
down, in any order. -/
inductive Reachable : Session -> Prop where
  | start (options : Options) : Reachable (start options)
  | beginFile {session : Session} (name : Option String) (modified : Option Int) :
      Reachable session -> Reachable (session.beginFile name modified)
  | readSource {session : Session} (source : String) :
      Reachable session -> Reachable (session.afterSource source)
  | teardown {session : Session} : Reachable session -> Reachable session.teardown

/-- Every enumerator list that a session refers to is in its store, and none of the store is
empty. -/
structure ListsHeld (session : Session) : Prop where
  typedefs :
    ∀ entry ∈ session.typedefs.entries, ∀ list ∈ entry.value, list < session.enums.size
  enumTags :
    ∀ entry ∈ session.enumTags.entries, ∀ list ∈ entry.value, list < session.enums.size
  pages : ∀ page ∈ session.pages, ∀ list ∈ page.spec.enumList, list < session.enums.size
  parameters :
    ∀ page ∈ session.pages, ∀ parameter, page.declarator.Holds parameter ->
      ∀ list ∈ parameter.spec.enumList, list < session.enums.size
  filled : ∀ list ∈ session.enums.lists, list ≠ []

/-- A list is known in a session that starts with none if it is in the store. -/
theorem known_iff {store : EnumStore} {list : ListId} :
    store.Known (fun _ => False) list ↔ list < store.size :=
  or_iff_right id

/-- What every step towards a session keeps. -/
structure InOrder (session : Session) : Prop where
  linked : session.Linked fun _ => False
  pages : ∀ page ∈ session.pages, page.Linked (session.enums.Known fun _ => False)
  filled : session.enums.Filled

/-- A session stays in order past one more source. -/
theorem InOrder.afterSource
    {session : Session}
    (inOrder : session.InOrder)
    (source : String) :
    (session.afterSource source).InOrder := by
  obtain ⟨new, growth, added⟩ := session.afterSource_adds inOrder.linked source
  have linked := growth.upkeep.linked inOrder.linked
  refine ⟨⟨linked.typedefs, linked.enumTags⟩, ?_, growth.upkeep.filled inOrder.filled⟩
  intro page member
  rw [growth.pages] at member
  rcases List.mem_append.1 member with earlier | isNew
  · exact (inOrder.pages page earlier).mono growth.upkeep.known
  · exact (added page isNew).2.1

/-- A reachable session is in order. -/
theorem Reachable.inOrder {session : Session} (reachable : session.Reachable) :
    session.InOrder := by
  have nothing : (EnumStore.mk []).Filled := fun _ => nofun
  induction reachable with
  | start options =>
      exact ⟨⟨Symbol.Table.linked_empty, Symbol.Table.linked_empty⟩, fun _ => nofun, nothing⟩
  | beginFile name modified _ hypothesis =>
      exact ⟨⟨hypothesis.linked.typedefs, hypothesis.linked.enumTags⟩, hypothesis.pages,
        hypothesis.filled⟩
  | readSource source _ hypothesis => exact hypothesis.afterSource source
  | teardown _ _ =>
      exact ⟨⟨Symbol.Table.linked_empty, Symbol.Table.linked_empty⟩, fun _ => nofun, nothing⟩

/-- A session in order holds every list that it names. -/
theorem InOrder.listsHeld {session : Session} (inOrder : session.InOrder) :
    session.ListsHeld where
  typedefs entry member list has := known_iff.1 (inOrder.linked.typedefs entry member list has)
  enumTags entry member list has := known_iff.1 (inOrder.linked.enumTags entry member list has)
  pages page member list has := known_iff.1 ((inOrder.pages page member).spec list has)
  parameters page member parameter held list has :=
    known_iff.1 ((inOrder.pages page member).declarator parameter held list has)
  filled := inOrder.filled

/-- No enumerator list dangles.  In every session that can be reached, the lists that
typedef names, enumeration tags, pages and parameters at any depth refer to are in the
store, and no list of the store is empty.  So while a text is read nothing is ever done for
a list that is not in the store, and the pages are published in the same way whatever
stands in the store after its lists. -/
theorem reachable_listsHeld {session : Session} (reachable : session.Reachable) :
    session.ListsHeld ∧
      (∀ (missing : Grammar.Parse Unit) (tag : Option String),
        Grammar.enumeratorListIn missing tag = Grammar.enumeratorList tag) ∧
      ∀ (others : List (List Enumerator)) (tree : Files.Tree) (today : String),
        Files.publish session tree today =
          Files.publish { session with enums := ⟨session.enums.lists ++ others⟩ } tree today := by
  have inOrder := reachable.inOrder
  refine ⟨inOrder.listsHeld, Grammar.enumeratorListIn_eq, fun others tree today => ?_⟩
  apply Files.publish_congr (session.enums.agreeOn_append others)
  intro page member
  exact (inOrder.pages page member).mono fun list => known_iff.1

/-- A session with an enumeration that a page and a parameter of its parameter refer to,
after a text that breaks off in another one and a text that breaks off in a comment. -/
def colorSession : Session :=
  ((((start {}).beginFile (some "color.h") none).afterSource
    "/* Mixes. */ enum color \x7b RED, GREEN \x7d mix(int (*next)(enum color));").afterSource
    "int f(enum other \x7b BLUE").afterSource "/* mix"

theorem reachable_listsHeld_colorSession :
    colorSession.Reachable ∧
      colorSession.enums.size = 2 ∧
      colorSession.pages.map
          (fun page => (page.spec.enumList, page.declarator.parameters.map fun parameter =>
            parameter.declarator.parameters.map (·.spec.enumList))) =
        [(some 0, [[some 0]])] ∧
      colorSession.ListsHeld := by
  have reachable : colorSession.Reachable := by
    unfold colorSession
    exact .readSource _ (.readSource _ (.readSource _ (.beginFile _ _ (.start _))))
  exact ⟨reachable, by decide +kernel, by decide +kernel, (reachable_listsHeld reachable).1⟩

end Session
end DeclManual
