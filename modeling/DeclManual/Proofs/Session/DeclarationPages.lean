import DeclManual.Session.Comments
import Mathlib.Data.List.Basic

/-!
# The pages of a declaration

A complete declaration adds the pages of those of its declarators that deserve one, in
order, and changes nothing else once the comment at its end is settled.
-/

namespace DeclManual
namespace Session

open Decl

variable {session : Session} {comment endOfLine : Option String} {spec : Spec}
  {declarator : Declarator} {declarators : List Declarator} {page : ManualPage}

/-- The page of a declarator with a comment that describes it, if it deserves one. -/
def pageOf
    (session : Session)
    (spec : Spec)
    (comment : Option String)
    (declarator : Declarator) : Option ManualPage :=
  if deservesPage session.options session.source comment spec declarator then
    some
      { spec
        declarator := { declarator with comment }
        sourceFile := session.source.baseFile
        sourceTime := session.source.baseTime }
  else none

/-- The pages of a declaration in order.  The comment in front of it describes a single
declarator before its own; of several declarators, each is described by its own first. -/
def pagesOf
    (session : Session)
    (comment : Option String)
    (spec : Spec)
    (declarators : List Declarator) : List ManualPage :=
  declarators.filterMap fun declarator =>
    session.pageOf spec
      (if declarators.length = 1 then comment.or declarator.comment
        else declarator.comment.or comment)
      declarator

theorem pageOf_eq_some_iff :
    session.pageOf spec comment declarator = some page ↔
      deservesPage session.options session.source comment spec declarator = true ∧
        { spec
          declarator := { declarator with comment }
          sourceFile := session.source.baseFile
          sourceTime := session.source.baseTime } = page := by
  unfold pageOf
  split <;> simp [*]

/-- A page of a declaration is that of one of its declarators. -/
theorem exists_of_mem_pagesOf (member : page ∈ session.pagesOf comment spec declarators) :
    ∃ declarator ∈ declarators, ∃ chosen,
      (chosen = comment.or declarator.comment ∨ chosen = declarator.comment.or comment) ∧
      session.pageOf spec chosen declarator = some page := by
  obtain ⟨declarator, isDeclarator, isPage⟩ := List.mem_filterMap.1 member
  refine ⟨declarator, isDeclarator, _, ?_, isPage⟩
  split
  · exact .inl rfl
  · exact .inr rfl

/-- The own comment of a declarator does not matter beside the one that is chosen. -/
theorem consider_fst
    (session : Session)
    (comment : Option String)
    (spec : Spec)
    (declarator : Declarator) :
    (session.consider comment spec { declarator with comment := none }).1 =
      { session with
        pages := session.pages ++ (session.pageOf spec comment declarator).toList } := by
  have same : deservesPage session.options session.source comment spec
        { declarator with comment := none } =
      deservesPage session.options session.source comment spec declarator := rfl
  unfold consider pageOf
  rw [same]
  split <;> simp

theorem foldl_consider
    (session : Session)
    (comment : Option String)
    (spec : Spec)
    (declarators : List Declarator) :
    declarators.foldl
        (fun session declarator =>
          (session.consider (declarator.comment.or comment) spec
            { declarator with comment := none }).1)
        session =
      { session with
        pages := session.pages ++ declarators.filterMap fun declarator =>
          session.pageOf spec (declarator.comment.or comment) declarator } := by
  induction declarators generalizing session with
  | nil => simp
  | cons declarator rest hypothesis =>
      rw [List.foldl_cons, consider_fst, hypothesis]
      have same (declarator : Declarator) (pages : List ManualPage) :
          pageOf { session with pages } spec (declarator.comment.or comment) declarator =
            session.pageOf spec (declarator.comment.or comment) declarator := rfl
      simp only [same, List.append_assoc, List.filterMap_cons]
      cases session.pageOf spec (declarator.comment.or comment) declarator <;> simp

/-- Once the comment at the end is settled, pages are added and nothing else. -/
theorem rememberDeclarations_of_settled
    {session checked : Session}
    {declarators settled : List Declarator}
    {ok : Bool}
    (settles : session.commentEndOfLine declarators endOfLine = (checked, settled, ok)) :
    session.rememberDeclarations comment spec declarators endOfLine =
      ({ checked with pages := checked.pages ++ checked.pagesOf comment spec settled }, ok) := by
  unfold rememberDeclarations pagesOf
  rw [settles]
  dsimp only
  congr 1
  match settled with
  | [] => simp
  | [declarator] =>
      refine (consider_fst checked _ spec declarator).trans ?_
      cases found : checked.pageOf spec (comment.or declarator.comment) declarator <;>
        simp [found]
  | _ :: _ :: _ =>
      refine (foldl_consider checked comment spec _).trans ?_
      simp

end Session
end DeclManual
