import DeclManual.Proofs.Grammar.Takes
import DeclManual.Proofs.Session.Conflicts

/-!
# Comments of an enumerator

The comments of an enumerator come one after another: one before its name, and others around
the comma behind it.  Some are there when the enumerator is added to its list, the others are
attached to it then.  However they are divided, a single comment describes the enumerator; of
several, the second does, and the first introduces its group.  Each further one is reported
and leaves everything as it is.
-/

namespace DeclManual

open Decl

namespace Decl.Enumerator

/-- An enumerator that has been given some comments. -/
def given (name : String) : List String -> Enumerator
  | [] => { name }
  | [comment] => { name, comment := some comment }
  | first :: second :: _ => { name, comment := some second, groupComment := some first }

theorem ofComments_eq_given (name : String) (before after : Option String) :
    ofComments name before after = given name (before.toList ++ after.toList) := by
  cases before <;> cases after <;> rfl

theorem name_given (name : String) (comments : List String) :
    (given name comments).name = name := by
  match comments with
  | [] | [_] | _ :: _ :: _ => rfl

/-- There is a place for a further comment up to the second. -/
theorem attach?_given (name : String) (comments : List String) (comment : String) :
    (given name comments).attach? comment =
      if comments.length < 2 then some (given name (comments ++ [comment])) else none := by
  match comments with
  | [] | [_] => rfl
  | _ :: _ :: rest =>
      rw [if_neg (by simp)]
      rfl

/-- A comment for which there is no place changes nothing. -/
theorem given_concat
    (name : String)
    {comments : List String}
    (noPlace : ¬ comments.length < 2)
    (comment : String) :
    given name (comments ++ [comment]) = given name comments := by
  match comments with
  | [] | [_] => simp at noPlace
  | _ :: _ :: _ => rfl

end Decl.Enumerator

theorem Decl.EnumStore.getElem?_lists
    {store : EnumStore}
    {list : ListId}
    (inStore : list < store.size) :
    store.lists[list]? = some (store.get list) := by
  rw [get, List.getD_eq_getElem?_getD, List.getElem?_eq_getElem inStore, Option.getD_some]

namespace Session

variable {session : Session} {list : ListId} {front : List Enumerator} {name : String}
  {comments : List String}

/-- A session in which the last enumerator of a list has been given some comments, the last
few of which have been reported. -/
def withComments
    (session : Session)
    (list : ListId)
    (front : List Enumerator)
    (name : String)
    (comments : List String)
    (reported : Nat) : Session :=
  { session with
    enums := ⟨session.enums.lists.set list (front ++ [.given name comments])⟩
    diagnostics := session.diagnostics ++
      List.replicate reported (session.diagnosis (.enumeratorComments name)) }

theorem set_last (last : session.enums.lists[list]? = some (front ++ [.given name comments])) :
    session.enums.lists.set list (front ++ [.given name comments]) = session.enums.lists := by
  obtain ⟨inStore, isLast⟩ := List.getElem?_eq_some_iff.1 last
  rw [← isLast, List.set_getElem_self]

/-- One more comment for the last enumerator of a list. -/
theorem commentLastEnumerator_eq
    (last : session.enums.lists[list]? = some (front ++ [.given name comments]))
    (comment : String) :
    (session.commentLastEnumerator list comment).1 =
      session.withComments list front name (comments ++ [comment])
        (if comments.length < 2 then 0 else 1) := by
  have entries : session.enums.get list = front ++ [.given name comments] := by
    rw [EnumStore.get, List.getD_eq_getElem?_getD, last, Option.getD_some]
  unfold commentLastEnumerator EnumStore.attachComment withComments
  rw [entries, List.getLast?_concat]
  dsimp only
  rw [Enumerator.attach?_given]
  by_cases place : comments.length < 2
  · have modified (changed : Enumerator) :
        (session.enums.lists.modify list fun entries => entries.dropLast ++ [changed]) =
          session.enums.lists.set list (front ++ [changed]) := by
      rw [List.modify_eq_set_getElem?, last, Option.map_eq_map, Option.map_some, Option.getD_some,
        List.dropLast_concat]
    simp only [place, if_true, modified, List.replicate_zero, List.append_nil]
  · simp only [place, if_false, Enumerator.given_concat name place, Enumerator.name_given,
      set_last last, List.replicate_one]
    rfl

theorem getElem?_withComments
    (last : session.enums.lists[list]? = some (front ++ [.given name comments]))
    (further : List String)
    (reported : Nat) :
    (session.withComments list front name further reported).enums.lists[list]? =
      some (front ++ [.given name further]) := by
  obtain ⟨inStore, -⟩ := List.getElem?_eq_some_iff.1 last
  exact List.getElem?_set_self inStore

/-- Comments that are given later come after the earlier ones. -/
theorem withComments_withComments
    (session : Session)
    (list : ListId)
    (front : List Enumerator)
    (name : String)
    (comments further : List String)
    (reported more : Nat) :
    (session.withComments list front name comments reported).withComments list front name further
        more =
      session.withComments list front name further (reported + more) := by
  unfold withComments diagnosis
  rw [← List.replicate_append_replicate, List.append_assoc, List.set_set]

end Session

namespace Grammar

/-- Comments for the last enumerator of a list, which has been given some already. -/
theorem commentedLast_eq
    {session : Session}
    {list : ListId}
    {front : List Enumerator}
    {name : String}
    {comments : List String}
    (last : session.enums.lists[list]? = some (front ++ [.given name comments]))
    (further : List String) :
    commentedLast list further session =
      session.withComments list front name (comments ++ further)
        ((comments ++ further).length - max 2 comments.length) := by
  induction further generalizing session comments with
  | nil =>
      have nothing : comments.length - max 2 comments.length = 0 := by omega
      rw [List.append_nil, nothing, Session.withComments, Session.set_last last,
        List.replicate_zero, List.append_nil]
      rfl
  | cons comment further hypothesis =>
      have reported : (if comments.length < 2 then 0 else 1) +
          (((comments ++ [comment]) ++ further).length - max 2 (comments ++ [comment]).length) =
            (comments ++ comment :: further).length - max 2 comments.length := by
        simp only [List.length_append, List.length_cons, List.length_nil]
        split <;> omega
      calc
        commentedLast list (comment :: further) session
          = commentedLast list further (session.commentLastEnumerator list comment).1 := rfl
        _ = session.withComments list front name ((comments ++ [comment]) ++ further)
              ((if comments.length < 2 then 0 else 1) +
                (((comments ++ [comment]) ++ further).length -
                  max 2 (comments ++ [comment]).length)) := by
            rw [Session.commentLastEnumerator_eq last,
              hypothesis (Session.getElem?_withComments last _ _),
              Session.withComments_withComments]
        _ = session.withComments list front name (comments ++ comment :: further)
              ((comments ++ comment :: further).length - max 2 comments.length) := by
            rw [reported, List.append_assoc, List.singleton_append]

/-- The enumerators in front of one that is added. -/
def enumeratorsBefore (target : Option ListId) (session : Session) : List Enumerator :=
  match target with
  | some list => session.enums.get list
  | none => []

variable {session : Session} {target : Option ListId}

/-- The list of an enumerator that is added ends with it. -/
theorem getElem?_withEnumerator
    (inStore : ∀ list ∈ target, list < session.enums.size)
    (tag : Option String)
    (enumerator : Enumerator) :
    (withEnumerator tag target enumerator session).1.enums.lists[
        (withEnumerator tag target enumerator session).2]? =
      some (enumeratorsBefore target session ++ [enumerator]) := by
  cases target with
  | some list =>
      simp [withEnumerator, Session.appendEnumerator, EnumStore.append, enumeratorsBefore,
        EnumStore.getElem?_lists (inStore list rfl)]
  | none =>
      cases tag <;>
        simp [withEnumerator, Session.newEnumList, EnumStore.start, Session.registerEnumTag,
          enumeratorsBefore]

/-- To change an enumerator that has just been added is to add it as it is in the end. -/
theorem withComments_withEnumerator
    (inStore : ∀ list ∈ target, list < session.enums.size)
    (tag : Option String)
    (enumerator : Enumerator)
    (name : String)
    (comments : List String)
    (reported : Nat) :
    (withEnumerator tag target enumerator session).1.withComments
        (withEnumerator tag target enumerator session).2 (enumeratorsBefore target session) name
        comments reported =
      { (withEnumerator tag target (.given name comments) session).1 with
        diagnostics := session.diagnostics ++
          List.replicate reported (session.diagnosis (.enumeratorComments name)) } := by
  cases target with
  | some list =>
      have appended (last : Enumerator) : session.enums.lists.modify list (· ++ [last]) =
          session.enums.lists.set list (session.enums.get list ++ [last]) := by
        rw [List.modify_eq_set_getElem?, EnumStore.getElem?_lists (inStore list rfl)]
        rfl
      simp only [withEnumerator, Session.appendEnumerator, EnumStore.append, enumeratorsBefore,
        Session.withComments, appended, List.set_set]
      rfl
  | none =>
      have changed (last : Enumerator) : (session.enums.lists ++ [[last]]).set
          session.enums.lists.length [.given name comments] =
            session.enums.lists ++ [[.given name comments]] := by
        simp
      cases tag <;>
      · simp only [withEnumerator, Session.newEnumList, EnumStore.start, Session.registerEnumTag,
          enumeratorsBefore, Session.withComments, List.nil_append, changed]
        rfl

/-- However its comments are divided between those that an enumerator comes with and those that
are attached to it later, the enumerator keeps a single comment as its own, and of several the
second, with the first for its group.  For each further one a diagnostic is added.  Nothing else
changes: reading the enumerator with its comments comes to adding it as it is in the end. -/
theorem enumerator_comments
    (name : String)
    (before after : Option String)
    (rest : List String) :
    let comments := before.toList ++ after.toList ++ rest
    (∀ (session : Session) (list : ListId) (front : List Enumerator),
      session.enums.lists[list]? = some (front ++ [.ofComments name before after]) ->
        commentedLast list rest session =
          { session with
            enums := ⟨session.enums.lists.set list (front ++ [.given name comments])⟩
            diagnostics := session.diagnostics ++
              List.replicate (comments.length - 2)
                (session.diagnosis (.enumeratorComments name)) }) ∧
    ∀ (cursor : Cursor) (tag : Option String) (target : Option ListId),
      (∀ list ∈ target, list < cursor.session.enums.size) ->
        (addEnumerator tag target (.ofComments name before after) >>=
            fun list => commentEnumerator list rest) cursor =
          .ok () { cursor with
            session :=
              { (withEnumerator tag target (.given name comments) cursor.session).1 with
                diagnostics := cursor.session.diagnostics ++
                  List.replicate (comments.length - 2)
                    (cursor.session.diagnosis (.enumeratorComments name)) } } := by
  intro comments
  have general {session : Session} {list : ListId} {front : List Enumerator}
      (last : session.enums.lists[list]? = some (front ++ [.ofComments name before after])) :
      commentedLast list rest session =
        session.withComments list front name comments (comments.length - 2) := by
    have few : max 2 (before.toList ++ after.toList).length = 2 := by
      cases before <;> cases after <;> rfl
    rw [Enumerator.ofComments_eq_given] at last
    rw [commentedLast_eq last, few]
  refine ⟨fun session list front last => general last, fun cursor tag target inStore => ?_⟩
  have last := getElem?_withEnumerator inStore tag (.ofComments name before after)
  rw [addEnumerator_bind_run, ← bind_pure (commentEnumerator _ rest), commentEnumerator_bind_run,
    general last, withComments_withEnumerator inStore]
  rfl

/-- A session with the lists of two enumerations. -/
def twoEnumerations : Session :=
  (((Session.start {}).newEnumList (some "color") { name := "RED" }).1.newEnumList none
    { name := "ON" }).1

/-- Four comments for `GREEN`, which is added behind `RED`. -/
theorem enumerator_comments_green :
    let rest := ["second", "third", "fourth"]
    let first : Enumerator := .ofComments "GREEN" (some "first") none
    let added := twoEnumerations.appendEnumerator 0 first
    let reading :=
      addEnumerator none (some 0) first >>= fun list => commentEnumerator list rest
    added.enums.lists[0]? = some ([{ name := "RED" }] ++ [first]) ∧
      (commentedLast 0 rest added).enums.lists =
        [[{ name := "RED" },
          { name := "GREEN", comment := some "second", groupComment := some "first" }],
          [{ name := "ON" }]] ∧
      (∀ list ∈ some 0, list < twoEnumerations.enums.size) ∧
      ∃ after, reading { session := twoEnumerations, rest := [] } = .ok () after ∧
        after.session.diagnostics.map (·.message) =
          List.replicate 2 "enumerator 'GREEN' has multiple comments" := by
  intro rest first added reading
  obtain ⟨attached, delivered⟩ := enumerator_comments "GREEN" (some "first") none rest
  have inStore : ∀ list ∈ some 0, list < twoEnumerations.enums.size := by
    rintro _ ⟨⟩
    decide
  refine ⟨rfl, ?_, inStore, _, delivered _ none (some 0) inStore, rfl⟩
  rw [attached added 0 [{ name := "RED" }] rfl]
  rfl

end Grammar
end DeclManual
