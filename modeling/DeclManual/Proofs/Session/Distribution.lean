import DeclManual.Proofs.Session.Conflicts
import DeclManual.Proofs.Session.DeclarationPages

/-!
# How the comments of a declaration are distributed

A declaration has a comment in front of it, a comment at its end, and own comments of its
declarators.  The comment at the end is for the last parameter of the last declarator, if
that is a function with parameters, and otherwise for the last declarator itself; what has
a comment keeps it, and the conflict is recorded.  Then the declarators that deserve a page
get one in order, each with the comment that describes it.  Nothing else changes.
-/

namespace DeclManual

open Decl

namespace Decl

/-- A parameter with a comment in place of its own. -/
def ParameterOf.withComment (parameter : Parameter) (comment : String) : Parameter :=
  { parameter with declarator := { parameter.declarator with comment := some comment } }

namespace Declarator

/-- What a comment at the end of a declaration describes: the declarator of the last
parameter, if there are parameters, or else the last declarator itself. -/
def described (last : Declarator) : Declarator :=
  if last.isFunction && last.hasParameters then
    (last.headParameters.getLast?.map (·.declarator)).getD last
  else last

/-- The last declarator with the comment at the end of its declaration. -/
def withEndOfLine (last : Declarator) (comment : String) : Declarator :=
  if last.isFunction && last.hasParameters then
    last.updateHead fun parameters =>
      parameters.dropLast ++ (parameters.getLast?.map (·.withComment comment)).toList
  else { last with comment := some comment }

/-- A change of the parameters is seen at those of the declared name alone. -/
theorem updateHead_congr
    {change other : List Parameter -> List Parameter}
    {declarator : Declarator}
    (same : change declarator.headParameters = other declarator.headParameters) :
    declarator.updateHead change = declarator.updateHead other := by
  fun_induction Declarator.updateHead change declarator with
  | case1 name text kind parameters comment returnComment inner applied hypothesis =>
      rw [headParameters, head, if_pos applied] at same
      rw [Declarator.updateHead, if_pos applied, hypothesis same]
  | case2 name text kind parameters comment returnComment inner applied =>
      rw [headParameters, head, if_neg applied] at same
      dsimp only at same
      rw [Declarator.updateHead, if_neg applied, same]
  | case3 name text kind parameters comment returnComment =>
      have same : change parameters = other parameters := same
      rw [Declarator.updateHead, same]

end Declarator
end Decl

namespace Session

variable {last : Declarator}

/-! ## The comment at the end -/

/-- What becomes of the comment at the end of a declaration: the last declarator as it is
then, and the conflicts to be recorded. -/
inductive Settles (last : Declarator) :
    (endOfLine : Option String) -> (settled : Declarator) -> (conflicts : List Conflict) -> Prop
  | absent : Settles last none last []
  | given (comment : String) (free : last.described.comment = none) :
      Settles last (some comment) (last.withEndOfLine comment) []
  | kept (comment : String) (taken : last.described.comment.isSome = true) :
      Settles last (some comment) last
        [.declaratorComments (last.described.name.getD "")]

/-- Unless a function has the parameter list `(void)`, its comment goes where it belongs. -/
theorem attachEndOfLine_eq
    (listed : last.isFunction = true -> last.headParameters ≠ [] -> last.hasParameters = true)
    (comment : String) :
    attachEndOfLine last comment =
      if last.described.comment.isSome then
        .error (.declaratorComments (last.described.name.getD ""))
      else .ok (last.withEndOfLine comment) := by
  unfold attachEndOfLine
  by_cases takes : last.isFunction = true ∧ last.headParameters ≠ []
  · obtain ⟨isFunction, nonempty⟩ := takes
    have hasParameters := listed isFunction nonempty
    have isLast := List.getLast?_eq_some_getLast nonempty
    have described : last.described = (last.headParameters.getLast nonempty).declarator := by
      simp [Declarator.described, isFunction, hasParameters, isLast]
    rw [if_pos isFunction, isLast, described]
    dsimp only
    congr 2
    rw [Declarator.withEndOfLine, if_pos (by simp [isFunction, hasParameters])]
    exact Declarator.updateHead_congr (by simp [isLast, ParameterOf.withComment])
  · have noTarget :
        (if last.isFunction = true then last.headParameters.getLast? else none) = none := by
      split
      · rename_i isFunction
        rw [not_and_not_right.1 takes isFunction, List.getLast?_nil]
      · rfl
    have noList : (last.isFunction && last.hasParameters) = false := by
      rw [Bool.and_eq_false_iff, ← Bool.not_eq_true, Declarator.hasParameters]
      by_cases isFunction : last.isFunction = true
      · rw [not_and_not_right.1 takes isFunction]
        exact .inr rfl
      · exact .inl isFunction
    rw [noTarget, Declarator.described, Declarator.withEndOfLine, noList]
    rfl

/-! ## The whole declaration -/

/-- The comments of a declaration go to what they describe, and each declarator that
deserves a page gets one. -/
theorem rememberDeclarations_distributes
    (session : Session)
    (comment : Option String)
    (spec : Spec)
    (others : List Declarator)
    (last : Declarator)
    (endOfLine : Option String)
    (listed : endOfLine.isSome = true -> last.isFunction = true -> last.headParameters ≠ [] ->
      last.hasParameters = true) :
    ∃ settled conflicts, Settles last endOfLine settled conflicts ∧
      session.rememberDeclarations comment spec (others ++ [last]) endOfLine =
        ({ session with
            pages := session.pages ++ session.pagesOf comment spec (others ++ [settled])
            diagnostics := session.diagnostics ++ conflicts.map session.diagnosis },
          conflicts.isEmpty) := by
  cases endOfLine with
  | none =>
      refine ⟨last, [], .absent, ?_⟩
      have settles : session.commentEndOfLine (others ++ [last]) none =
          (session, others ++ [last], true) := rfl
      rw [rememberDeclarations_of_settled settles]
      simp
  | some endComment =>
      have attached := attachEndOfLine_eq (listed rfl) endComment
      by_cases taken : last.described.comment.isSome = true
      · rw [if_pos taken] at attached
        refine ⟨last, _, .kept endComment taken, ?_⟩
        have settles : session.commentEndOfLine (others ++ [last]) (some endComment) =
            (session.report (.declaratorComments (last.described.name.getD "")),
              others ++ [last], false) := by
          simp [commentEndOfLine, attached]
        exact rememberDeclarations_of_settled settles
      · rw [if_neg taken] at attached
        refine ⟨_, [], .given endComment (Option.not_isSome_iff_eq_none.1 taken), ?_⟩
        have settles : session.commentEndOfLine (others ++ [last]) (some endComment) =
            (session, others ++ [last.withEndOfLine endComment], true) := by
          simp [commentEndOfLine, attached]
        rw [rememberDeclarations_of_settled settles]
        simp

/-- A run at the start of a file that wants pages for variables too. -/
def wantingVariables : Session :=
  (start { variablesOut := true }).beginFile (some "a.c") none

/-- The declarator `sum(int, int)`. -/
def sumDeclarator : Declarator :=
  (Declarator.identifier "sum").function
    [.ofParts (.ofText "int" {}) .abstract, .ofParts (.ofText "int" {}) .abstract]

/-- The declarator `count` with a comment of its own. -/
def countDeclarator : Declarator :=
  { Declarator.identifier "count" with comment := some "The count." }

theorem rememberDeclarations_distributes_countAndSum :
    sumDeclarator.hasParameters = true ∧
      ((wantingVariables.rememberDeclarations (some "Shared.") (.ofText "int" {})
          ([countDeclarator] ++ [sumDeclarator]) (some "the second")).1.pages.map fun page =>
            (page.comment, page.declarator.headParameters.map (·.comment))) =
        [(some "The count.", []), (some "Shared.", [none, some "the second"])] := by
  have takes : sumDeclarator.hasParameters = true := by decide
  obtain ⟨settled, conflicts, settles, same⟩ :=
    rememberDeclarations_distributes wantingVariables (some "Shared.") (.ofText "int" {})
      [countDeclarator] sumDeclarator (some "the second") fun _ _ _ => takes
  refine ⟨takes, ?_⟩
  rw [same]
  cases settles with
  | given _ free => decide
  | kept _ taken => exact absurd taken (by decide)

/-- The declarator `reset(void)`. -/
def resetDeclarator : Declarator :=
  (Declarator.identifier "reset").function [.ofParts (.ofText "void" {}) .abstract]

/-- The comment at the end of a declaration of `reset(void)` describes the function, but goes
to the list, so that the function gets no page. -/
theorem rememberDeclarations_resetDeclarator :
    resetDeclarator.described.kind = .function ∧
      (wantingVariables.pagesOf none (.ofText "int" {})
          [resetDeclarator.withEndOfLine "Resets."]).map (·.name) = ["reset"] ∧
      (wantingVariables.rememberDeclarations none (.ofText "int" {}) [resetDeclarator]
          (some "Resets.")).1.pages.length = 0 := by
  decide

end Session
end DeclManual
