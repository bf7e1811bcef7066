import DeclManual.Proofs.Grammar.Completion

/-!
# More steps

Every loop is given a number of steps.  What it comes to without using them up does
not depend on that number: with more steps it comes to the same.
-/

namespace DeclManual
namespace Grammar

open Decl

variable {α β : Type}

/-- A reading has not used up its steps. -/
def Finishes : EStateM.Result SyntaxError Cursor α -> Prop
  | .error .exhausted _ => False
  | _ => True

theorem Lands.finishes
    {least : Nat}
    {base : List Source.Token}
    {result : EStateM.Result SyntaxError Cursor α}
    (lands : Lands least base result) :
    Finishes result := by
  cases result with
  | ok value after => trivial
  | error error after =>
      obtain ⟨rfl, -⟩ := lands
      trivial

/-- Wherever a reading finishes, another comes to the same. -/
def Refines (fewer more : Parse α) : Prop :=
  ∀ cursor, Finishes (fewer cursor) -> more cursor = fewer cursor

namespace Refines

theorem rfl {reading : Parse α} : Refines reading reading :=
  fun _ _ => Eq.refl _

/-- A reading without steps never finishes. -/
theorem exhausted (more : Parse α) : Refines (throw .exhausted) more :=
  fun _ finishes => finishes.elim

theorem bind
    {fewer more : Parse α}
    {next nextMore : α -> Parse β}
    (first : Refines fewer more)
    (further : ∀ value, Refines (next value) (nextMore value)) :
    Refines (fewer >>= next) (more >>= nextMore) := by
  intro cursor finishes
  rw [bind_run] at finishes ⊢
  rw [bind_run]
  cases result : fewer cursor with
  | ok value after =>
      rw [result] at finishes
      rw [first cursor (by rw [result]; trivial), result]
      exact further value after finishes
  | error error after =>
      rw [result] at finishes
      cases error with
      | recorded => rw [first cursor (by rw [result]; trivial), result]
      | exhausted => exact finishes.elim

theorem ite
    {condition : Prop}
    [Decidable condition]
    {fewer more fewerElse moreElse : Parse α}
    (holds : Refines fewer more)
    (fails : Refines fewerElse moreElse) :
    Refines (if condition then fewer else fewerElse) (if condition then more else moreElse) := by
  split
  · exact holds
  · exact fails

/-- Two numbers of steps that are both enough come to the same. -/
theorem agree
    {loop : Nat -> Parse α}
    (refines : ∀ {fewer more : Nat}, fewer ≤ more -> Refines (loop fewer) (loop more))
    {first second : Nat}
    {cursor : Cursor}
    (firstFinishes : Finishes (loop first cursor))
    (secondFinishes : Finishes (loop second cursor)) :
    loop first cursor = loop second cursor := by
  rcases Nat.le_total first second with fewer | more
  · exact (refines fewer cursor firstFinishes).symm
  · exact refines more cursor secondFinishes

end Refines

/-! ## Skipping -/

section

variable {fewer more : Nat}

theorem skipAttributesUpTo_refines (less : fewer ≤ more) :
    Refines (skipAttributesUpTo fewer) (skipAttributesUpTo more) := by
  induction fewer generalizing more with
  | zero => exact .exhausted _
  | succ fewer hypothesis =>
      obtain ⟨more, rfl⟩ := Nat.exists_eq_add_of_le' less
      have again := hypothesis (Nat.le_add_left fewer more)
      unfold skipAttributesUpTo
      refine .bind .rfl fun token => .ite ?_ .rfl
      exact .bind .rfl fun _ => .bind .rfl fun _ => again

theorem skipStatementUpTo_refines (less : fewer ≤ more) :
    Refines (skipStatementUpTo fewer) (skipStatementUpTo more) := by
  induction fewer generalizing more with
  | zero => exact .exhausted _
  | succ fewer hypothesis =>
      obtain ⟨more, rfl⟩ := Nat.exists_eq_add_of_le' less
      have again := hypothesis (Nat.le_add_left fewer more)
      unfold skipStatementUpTo
      refine .bind .rfl fun next => .ite .rfl (.bind .rfl fun opens => .ite ?_ ?_)
      · exact .bind .rfl fun _ => again
      · exact .bind .rfl fun token => .ite .rfl again

/-! ## Specifiers -/

theorem enumerators_refines
    (tag : Option String)
    (leading : Option String)
    (list : Option ListId)
    (less : fewer ≤ more) :
    Refines (enumerators tag fewer leading list) (enumerators tag more leading list) := by
  induction fewer generalizing more leading list with
  | zero => exact .exhausted _
  | succ fewer hypothesis =>
      obtain ⟨more, rfl⟩ := Nat.exists_eq_add_of_le' less
      have again := fun leading list => hypothesis leading list (Nat.le_add_left fewer more)
      rw [← Nat.add_assoc, enumerators_succ, enumerators_succ]
      refine .bind .rfl fun closes => .ite .rfl (.bind .rfl fun name => ?_)
      refine .bind .rfl fun _ => .bind .rfl fun comments => .bind .rfl fun id => ?_
      refine .bind .rfl fun _ => .bind .rfl fun cursor => .ite (again _ _) ?_
      exact .bind .rfl fun closes => .ite (again _ _) .rfl

theorem specifiersUpTo_refines
    (context : Context)
    (seenType : Bool)
    (read : Option Specifiers)
    (less : fewer ≤ more) :
    Refines (specifiersUpTo context fewer seenType read)
      (specifiersUpTo context more seenType read) := by
  induction fewer generalizing more seenType read with
  | zero => exact .exhausted _
  | succ fewer hypothesis =>
      obtain ⟨more, rfl⟩ := Nat.exists_eq_add_of_le' less
      have again := fun seenType read => hypothesis seenType read (Nat.le_add_left fewer more)
      unfold specifiersUpTo
      refine .bind .rfl fun cursor => .ite .rfl ?_
      cases meaningAt context seenType cursor with
      | stop => exact .rfl
      | _ => exact .bind .rfl fun _ => again _ _

/-! ## Declarators -/

theorem pointerTail_refines
    (text : String)
    (less : fewer ≤ more) :
    Refines (pointerTail fewer text) (pointerTail more text) := by
  induction fewer generalizing more text with
  | zero => exact .exhausted _
  | succ fewer hypothesis =>
      obtain ⟨more, rfl⟩ := Nat.exists_eq_add_of_le' less
      have again := fun text => hypothesis text (Nat.le_add_left fewer more)
      unfold pointerTail
      refine .bind .rfl fun next => .bind .rfl fun isStar => .ite ?_ (.ite ?_ (.ite ?_ .rfl))
      all_goals exact .bind .rfl fun _ => again _

theorem identifierList_refines
    (leading : Option String)
    (parameters : List Parameter)
    (less : fewer ≤ more) :
    Refines (identifierList fewer leading parameters) (identifierList more leading parameters) := by
  induction fewer generalizing more leading parameters with
  | zero => exact .exhausted _
  | succ fewer hypothesis =>
      obtain ⟨more, rfl⟩ := Nat.exists_eq_add_of_le' less
      unfold identifierList
      refine .bind .rfl fun name => .bind .rfl fun comments => .bind .rfl fun parameter => ?_
      refine .bind .rfl fun parameters => .bind .rfl fun cursor => .ite ?_ .rfl
      exact hypothesis _ _ (Nat.le_add_left fewer more)

/-- The functions that read declarators come to the same with more fuel. -/
structure DeclaratorsRefine (fewer more : Nat) : Prop where
  declarator (abstractAllowed : Bool) :
    Refines (declarator fewer abstractAllowed) (declarator more abstractAllowed)
  directDeclarator (abstractAllowed : Bool) :
    Refines (directDeclarator fewer abstractAllowed) (directDeclarator more abstractAllowed)
  suffixes (base : Option Declarator) : Refines (suffixes fewer base) (suffixes more base)
  parameterList : Refines (parameterList fewer) (parameterList more)
  parameters (leading : Option String) (read : List Parameter) :
    Refines (parameters fewer leading read) (parameters more leading read)
  parameterParts : Refines (parameterParts fewer) (parameterParts more)

namespace DeclaratorsRefine

theorem succ (refines : DeclaratorsRefine fewer more) :
    DeclaratorsRefine (fewer + 1) (more + 1) where
  declarator abstractAllowed := by
    unfold Grammar.declarator
    exact .bind .rfl fun operator => .bind (refines.directDeclarator _) fun direct => .rfl
  directDeclarator abstractAllowed := by
    unfold Grammar.directDeclarator
    refine .bind .rfl fun cursor => .ite ?_ (.ite ?_ (.ite (refines.suffixes _) .rfl))
    · exact .bind .rfl fun name => refines.suffixes _
    · refine .bind .rfl fun _ => .bind (refines.declarator _) fun inner => ?_
      exact .bind .rfl fun _ => refines.suffixes _
  suffixes base := by
    unfold Grammar.suffixes
    refine .bind .rfl fun isBracket => .ite ?_ (.bind .rfl fun isOpener => .ite ?_ ?_)
    · exact .bind .rfl fun suffix => refines.suffixes _
    · exact .bind refines.parameterList fun parameters => refines.suffixes _
    · refine .bind .rfl fun next => .ite ?_ .rfl
      exact .bind .rfl fun _ => refines.suffixes _
  parameterList := by
    unfold Grammar.parameterList
    refine .bind .rfl fun opener => .bind .rfl fun closer => .ite .rfl ?_
    exact .bind .rfl fun cursor => .ite .rfl (refines.parameters _ _)
  parameters leading read := by
    unfold Grammar.parameters
    refine .bind .rfl fun next => .bind refines.parameterParts fun parts => ?_
    refine .bind .rfl fun comments => .bind .rfl fun parameter => .bind .rfl fun read => ?_
    exact .bind .rfl fun cursor => .ite (refines.parameters _ _) .rfl
  parameterParts := by
    unfold Grammar.parameterParts
    refine .bind .rfl fun ellipsis => .ite .rfl (.bind .rfl fun specifiers => ?_)
    exact .bind (refines.declarator _) fun shape => .rfl

theorem of_le (less : fewer ≤ more) : DeclaratorsRefine fewer more := by
  induction fewer generalizing more with
  | zero => constructor <;> intros <;> exact .exhausted _
  | succ fewer hypothesis =>
      obtain ⟨more, rfl⟩ := Nat.exists_eq_add_of_le' less
      exact (hypothesis (Nat.le_add_left fewer more)).succ

end DeclaratorsRefine

/-! ## Declarations -/

theorem parameterDeclarators_refines
    (declarators : List Declarator)
    (less : fewer ≤ more) :
    Refines (parameterDeclarators fewer declarators) (parameterDeclarators more declarators) := by
  induction fewer generalizing more declarators with
  | zero => exact .exhausted _
  | succ fewer hypothesis =>
      obtain ⟨more, rfl⟩ := Nat.exists_eq_add_of_le' less
      unfold parameterDeclarators
      refine .bind .rfl fun declarator => .bind .rfl fun parts => ?_
      obtain ⟨declarators, ending⟩ := parts
      cases ending with
      | none => exact hypothesis _ (Nat.le_add_left fewer more)
      | some comment => exact .rfl

theorem parameterDeclarations_refines
    (function : Declarator)
    (less : fewer ≤ more) :
    Refines (parameterDeclarations fewer function) (parameterDeclarations more function) := by
  induction fewer generalizing more function with
  | zero => exact .exhausted _
  | succ fewer hypothesis =>
      obtain ⟨more, rfl⟩ := Nat.exists_eq_add_of_le' less
      unfold parameterDeclarations
      refine .bind .rfl fun opens => .ite .rfl (.bind .rfl fun next => .ite .rfl ?_)
      exact .bind .rfl fun function => hypothesis _ (Nat.le_add_left fewer more)

theorem declarators_refines
    (start : DeclarationStart)
    (read : List Declarator)
    (less : fewer ≤ more) :
    Refines (declarators start fewer read) (declarators start more read) := by
  induction fewer generalizing more read with
  | zero => exact .exhausted _
  | succ fewer hypothesis =>
      obtain ⟨more, rfl⟩ := Nat.exists_eq_add_of_le' less
      unfold declarators
      refine .bind .rfl fun first => .bind .rfl fun declarator => .bind .rfl fun _ => ?_
      refine .bind .rfl fun next => .ite .rfl (.bind .rfl fun _ => .bind .rfl fun parts => ?_)
      obtain ⟨read, ending⟩ := parts
      cases ending with
      | none => exact hypothesis _ (Nat.le_add_left fewer more)
      | some comment => exact .rfl

theorem items_refines (less : fewer ≤ more) : Refines (items fewer) (items more) := by
  induction fewer generalizing more with
  | zero => exact .exhausted _
  | succ fewer hypothesis =>
      obtain ⟨more, rfl⟩ := Nat.exists_eq_add_of_le' less
      unfold items
      refine .bind .rfl fun next => .ite .rfl (.bind .rfl fun _ => ?_)
      exact hypothesis (Nat.le_add_left fewer more)

end
end Grammar
end DeclManual
