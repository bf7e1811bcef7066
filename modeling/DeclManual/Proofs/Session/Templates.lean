import DeclManual.Proofs.Session.DeclarationPages
import DeclManual.Proofs.Session.Upkeep

/-!
# Templates

The text of a declarator to which a parameter list has been applied is a template: the
percent sign of `%s` stands before every bracket in it.  In any other declarator a percent
sign stands in an array suffix only, after its bracket.  So the text alone tells the two
apart, at every depth of a declaration, and whatever comments and types are given to its
parameters.  No parameter is hidden before the pages are grouped.
-/

namespace DeclManual
namespace Decl

/-- Whether a text has a percent sign before its first bracket. -/
def isTemplate (text : String) : Bool :=
  (text.toList.takeWhile (· != '[')).contains '%'

/-- A text with neither a percent sign nor a bracket, such as a pointer operator. -/
structure IsPlain (text : String) : Prop where
  noPercent : '%' ∉ text.toList
  noBracket : '[' ∉ text.toList

/-! ## Texts -/

/-- A percent sign comes before the first bracket of a text if it does so in a part of it
and no bracket comes in the parts before. -/
theorem isTemplate_append (first second : String) :
    isTemplate (first ++ second) =
      (isTemplate first || (!first.toList.contains '[' && isTemplate second)) := by
  unfold isTemplate
  rw [String.toList_append]
  induction first.toList with
  | nil => simp
  | cons c rest hypothesis =>
      by_cases bracket : c = '['
      · simp [bracket]
      · have further (tail : List Char) :
            (c :: tail).takeWhile (· != '[') = c :: tail.takeWhile (· != '[') :=
          List.takeWhile_cons_of_pos (p := (· != '[')) (by simpa using bracket)
        have other : ('[' == c) = false := by simpa using Ne.symm bracket
        simp only [List.cons_append, further, List.contains_cons, hypothesis, other,
          Bool.false_or, Bool.or_assoc]

/-- A text without a percent sign is no template. -/
theorem isTemplate_of_not_mem {text : String} (noPercent : '%' ∉ text.toList) :
    isTemplate text = false := by
  unfold isTemplate
  simpa using fun inFront => noPercent (List.takeWhile_subset _ inFront)

/-- A text stays a template, or none, with a suffix that is none. -/
theorem isTemplate_append_left
    (text : String)
    {suffix : String}
    (notTemplate : isTemplate suffix = false) :
    isTemplate (text ++ suffix) = isTemplate text := by
  rw [isTemplate_append, notTemplate, Bool.and_false, Bool.or_false]

namespace IsPlain

theorem append
    {first second : String}
    (left : IsPlain first)
    (right : IsPlain second) :
    IsPlain (first ++ second) where
  noPercent := by simpa using ⟨left.noPercent, right.noPercent⟩
  noBracket := by simpa using ⟨left.noBracket, right.noBracket⟩

/-- An operator in front does not change whether a text is a template. -/
theorem isTemplate_append
    {operator : String}
    (plain : IsPlain operator)
    (text : String) :
    isTemplate (operator ++ text) = isTemplate text := by
  rw [Decl.isTemplate_append, isTemplate_of_not_mem plain.noPercent]
  simp [plain.noBracket]

end IsPlain

/-- The text of a word is no template. -/
theorem isTemplate_of_isWordText {name : String} (isWord : Source.IsWordText name) :
    isTemplate name = false :=
  isTemplate_of_not_mem fun percent => absurd (isWord.2 '%' percent) (by decide)

/-! ## Declarators -/

/-- The text of a declarator is a template exactly if a parameter list has been applied. -/
def Declarator.IsTemplated (declarator : Declarator) : Prop :=
  declarator.inner.isSome = isTemplate (declarator.text.getD "")

/-- A parameter as it is read: it is not hidden, and its text tells whether it has a
parameter list of its own. -/
structure ParameterOf.Fresh (parameter : Parameter) : Prop where
  shown : parameter.suppress = false
  templated : parameter.declarator.IsTemplated

/-- A declarator as it is read, with fresh parameters at every depth. -/
structure Declarator.Formed (declarator : Declarator) : Prop where
  templated : declarator.IsTemplated
  fresh : declarator.HoldsOnly ParameterOf.Fresh

namespace Declarator

variable {declarator : Declarator}

/-- A declarator of a text alone is formed. -/
theorem formed_ofText
    {text : Option String}
    (notTemplate : isTemplate (text.getD "") = false)
    (name : Option String) :
    (ofText text name).Formed :=
  ⟨notTemplate.symm, holdsOnly_ofText text name⟩

/-- A declarator of a name alone is formed. -/
theorem formed_identifier {name : String} (isWord : Source.IsWordText name) :
    (identifier name).Formed :=
  ⟨(isTemplate_of_isWordText isWord).symm, holdsOnly_ofText (some name) (some name)⟩

/-- A declarator without a name is formed. -/
theorem formed_abstract : abstract.Formed :=
  ⟨rfl, holdsOnly_ofText none none⟩

/-- A declarator is formed by its text, parameters and inner declarator alone. -/
theorem Formed.congr
    {other : Declarator}
    (formed : declarator.Formed)
    (text : other.text = declarator.text)
    (parameters : other.parameters = declarator.parameters)
    (inner : other.inner = declarator.inner) :
    other.Formed where
  templated := by
    unfold IsTemplated
    rw [text, inner]
    exact formed.templated
  fresh := formed.fresh.congr parameters inner

theorem Formed.function
    {parameters : List Parameter}
    (formed : declarator.Formed)
    (fresh : HeldAll ParameterOf.Fresh parameters) :
    (function declarator parameters).Formed :=
  ⟨(by decide : true = isTemplate "%s()"), formed.fresh.function fresh⟩

/-- A pointer to a formed declarator is formed. -/
theorem Formed.pointerTo
    {operator : String}
    (formed : declarator.Formed)
    (plain : IsPlain operator) :
    (declarator.pointerTo operator).Formed :=
  ⟨formed.templated.trans (plain.isTemplate_append _).symm, formed.fresh.congr rfl rfl⟩

/-- An array of a formed declarator is formed. -/
theorem Formed.arrayOf
    {suffix : String}
    (formed : declarator.Formed)
    (notTemplate : isTemplate suffix = false) :
    (declarator.arrayOf suffix).Formed :=
  ⟨formed.templated.trans (isTemplate_append_left _ notTemplate).symm,
    formed.fresh.congr rfl rfl⟩

/-- A formed declarator in parentheses is formed. -/
theorem Formed.parenthesized (formed : declarator.Formed) : declarator.parenthesized.Formed := by
  refine ⟨formed.templated.trans ?_, formed.fresh.congr rfl rfl⟩
  have opening : IsPlain "(" := ⟨by decide, by decide⟩
  exact ((isTemplate_append_left _ rfl).trans (opening.isTemplate_append _)).symm

/-- A parameter that is not hidden is fresh if its declarator is formed. -/
theorem Formed.parameter
    {parameter : Parameter}
    (formed : parameter.declarator.Formed)
    (shown : parameter.suppress = false) :
    parameter.Fresh ∧ parameter.declarator.HoldsOnly ParameterOf.Fresh :=
  ⟨⟨shown, formed.templated⟩, formed.fresh⟩

/-- A change of the head leaves the text. -/
@[simp] theorem text_updateHead
    (change : List Parameter -> List Parameter)
    (declarator : Declarator) :
    (declarator.updateHead change).text = declarator.text := by
  unfold updateHead
  split
  · split <;> rfl
  · rfl

/-- A change of the head leaves it nested or not as it was. -/
@[simp] theorem isSome_inner_updateHead
    (change : List Parameter -> List Parameter)
    (declarator : Declarator) :
    (declarator.updateHead change).inner.isSome = declarator.inner.isSome := by
  unfold updateHead
  split
  · split <;> rfl
  · rfl

/-- A declarator stays formed under a change of its head that keeps that formed. -/
theorem Formed.updateHead
    {change : List Parameter -> List Parameter}
    (formed : declarator.Formed)
    (changed : HeldAll ParameterOf.Fresh (change declarator.headParameters)) :
    (declarator.updateHead change).Formed where
  templated := by
    unfold IsTemplated
    rw [isSome_inner_updateHead, text_updateHead]
    exact formed.templated
  fresh := formed.fresh.updateHead changed

end Declarator

/-- Declarators of a declaration, each of them formed. -/
def FormedAll (declarators : List Declarator) : Prop :=
  ∀ declarator ∈ declarators, declarator.Formed

namespace FormedAll

variable {declarators : List Declarator}

theorem nil : FormedAll [] :=
  fun _ member => absurd member List.not_mem_nil

theorem concat
    {declarator : Declarator}
    (formed : FormedAll declarators)
    (last : declarator.Formed) :
    FormedAll (declarators ++ [declarator]) := by
  intro other member
  rcases List.mem_append.1 member with earlier | isLast
  · exact formed other earlier
  · exact List.mem_singleton.1 isLast ▸ last

theorem dropLast (formed : FormedAll declarators) : FormedAll declarators.dropLast :=
  fun declarator member => formed declarator (List.dropLast_subset _ member)

end FormedAll
end Decl

open Decl

namespace Session

variable {parameters : List Parameter} {declarators : List Declarator}

/-! ## Parameters -/

/-- The declarator of a new parameter is formed. -/
theorem formed_newParameter
    (session : Session)
    (spec : Option Spec)
    {shape : Option Declarator}
    (formed : ∀ declarator ∈ shape, declarator.Formed)
    (before after : Option String) :
    (session.newParameter spec shape before after).2.declarator.Formed := by
  cases shape with
  | none => exact Declarator.formed_abstract.congr rfl rfl rfl
  | some declarator => exact (formed declarator rfl).congr rfl rfl rfl

/-- Parameters stay fresh when the last is given a comment. -/
theorem heldAll_commentLastParameter
    (session : Session)
    (fresh : HeldAll ParameterOf.Fresh parameters)
    (comment : String) :
    HeldAll ParameterOf.Fresh (session.commentLastParameter parameters comment).2.1 := by
  unfold commentLastParameter
  split
  · exact fresh
  · rename_i last isLast
    obtain ⟨lastFresh, deeper⟩ := fresh last (List.mem_of_getLast? isLast)
    split
    · exact fresh
    · exact fresh.dropLast.concat
        ⟨⟨lastFresh.shown, lastFresh.templated⟩, deeper.congr rfl rfl⟩

/-- Parameters stay fresh when the last is given comments. -/
theorem heldAll_commentLastParameterAll
    (session : Session)
    (fresh : HeldAll ParameterOf.Fresh parameters)
    (comments : List String) :
    HeldAll ParameterOf.Fresh (session.commentLastParameterAll parameters comments).2 := by
  induction comments generalizing session parameters with
  | nil => exact fresh
  | cons comment rest hypothesis =>
      exact hypothesis _ (heldAll_commentLastParameter session fresh comment)

/-- A parameter that comes after others, with the comments that follow it. -/
theorem heldAll_addParameter
    (session : Session)
    (fresh : HeldAll ParameterOf.Fresh parameters)
    (spec : Option Spec)
    {shape : Option Declarator}
    (formed : ∀ declarator ∈ shape, declarator.Formed)
    (before after : Option String)
    (comments : List String) :
    let created := session.newParameter spec shape before after
    HeldAll ParameterOf.Fresh
      (created.1.commentLastParameterAll (parameters ++ [created.2]) comments).2 := by
  intro created
  have last := formed_newParameter session spec formed before after
  exact heldAll_commentLastParameterAll created.1 (fresh.concat (last.parameter rfl)) comments

/-- A declaration of its type gives a parameter another declarator and hides nothing. -/
theorem heldAll_applyParameterTypes
    (session : Session)
    (fresh : HeldAll ParameterOf.Fresh parameters)
    (spec : Spec)
    (formed : FormedAll declarators)
    (comment endOfLine : Option String) :
    HeldAll ParameterOf.Fresh
      (session.applyParameterTypes parameters spec declarators comment endOfLine).2 := by
  unfold applyParameterTypes
  split
  · exact fresh
  · induction declarators generalizing session parameters with
    | nil => exact fresh
    | cons declarator rest hypothesis =>
        have others : FormedAll rest :=
          fun other member => formed other (List.mem_cons_of_mem declarator member)
        have declared := formed declarator List.mem_cons_self
        have shown (index : Nat) : (parameters.getD index default).suppress = false := by
          rw [List.getD_eq_getElem?_getD]
          cases found : parameters[index]? with
          | none => rfl
          | some parameter => exact (fresh parameter (List.mem_of_getElem? found)).1.shown
        rw [List.foldl_cons]
        unfold applyParameterType
        dsimp only
        split
        · exact hypothesis _ fresh others
        · rename_i index _
          refine hypothesis _ (fresh.set ?_ index) others
          exact ⟨⟨shown index, declared.templated⟩, declared.fresh.congr rfl rfl⟩

/-! ## Declarators -/

/-- Declarators stay formed when the last is given a comment. -/
theorem formedAll_commentLastDeclarator
    (session : Session)
    (formed : FormedAll declarators)
    (comment : String) :
    FormedAll (session.commentLastDeclarator declarators comment).2.1 := by
  unfold commentLastDeclarator
  split
  · exact formed
  · rename_i last isLast
    split
    · exact formed
    · exact formed.dropLast.concat
        ((formed last (List.mem_of_getLast? isLast)).congr rfl rfl rfl)

/-- Declarators stay formed when the last is given comments. -/
theorem formedAll_commentLastDeclaratorAll
    (session : Session)
    (formed : FormedAll declarators)
    (comments : List String) :
    FormedAll (session.commentLastDeclaratorAll declarators comments).2 := by
  induction comments generalizing session declarators with
  | nil => exact formed
  | cons comment rest hypothesis =>
      exact hypothesis _ (formedAll_commentLastDeclarator session formed comment)

/-- Comments for a declarator make no page. -/
theorem pages_commentLastDeclaratorAll
    (session : Session)
    (declarators : List Declarator)
    (comments : List String) :
    (session.commentLastDeclaratorAll declarators comments).1.pages = session.pages := by
  induction comments generalizing session declarators with
  | nil => rfl
  | cons comment rest hypothesis =>
      unfold commentLastDeclaratorAll
      rw [hypothesis]
      unfold commentLastDeclarator
      split
      · rfl
      · split <;> rfl

/-- A declarator stays formed with the comment at the end of its line. -/
theorem formed_attachEndOfLine
    {declarator commented : Declarator}
    (formed : declarator.Formed)
    {comment : String}
    (attached : attachEndOfLine declarator comment = .ok commented) :
    commented.Formed := by
  unfold attachEndOfLine at attached
  dsimp only at attached
  split at attached
  · rename_i parameter target
    split at attached
    · cases attached
    · obtain rfl := Except.ok.inj attached
      have member : parameter ∈ declarator.headParameters := by
        split at target
        · exact List.mem_of_getLast? target
        · cases target
      have listed := formed.fresh.headParameters
      obtain ⟨lastFresh, deeper⟩ := listed parameter member
      exact formed.updateHead (listed.dropLast.concat
        ⟨⟨lastFresh.shown, lastFresh.templated⟩, deeper.congr rfl rfl⟩)
  · split at attached
    · cases attached
    · obtain rfl := Except.ok.inj attached
      exact formed.congr rfl rfl rfl

/-- Declarators stay formed with the comment at the end of their line. -/
theorem formedAll_commentEndOfLine
    (session : Session)
    (formed : FormedAll declarators)
    (comment : Option String) :
    FormedAll (session.commentEndOfLine declarators comment).2.1 := by
  unfold commentEndOfLine
  split
  · rename_i comment last isLast
    split
    · rename_i commented attached
      exact formed.dropLast.concat
        (formed_attachEndOfLine (formed last (List.mem_of_getLast? isLast)) attached)
    · exact formed
  · exact formed

/-! ## Pages -/

/-- The parameters of every page, at any depth, are as they were read. -/
def PagesFresh (session : Session) : Prop :=
  ∀ page ∈ session.pages, page.declarator.HoldsOnly ParameterOf.Fresh

/-- A comment at the end of a line makes no page. -/
theorem pages_commentEndOfLine
    (session : Session)
    (declarators : List Declarator)
    (comment : Option String) :
    (session.commentEndOfLine declarators comment).1.pages = session.pages := by
  unfold commentEndOfLine
  split
  · split <;> rfl
  · rfl

/-- The pages of a complete declaration are made from its declarators. -/
theorem PagesFresh.rememberDeclarations
    {session : Session}
    (pages : session.PagesFresh)
    (comment : Option String)
    (spec : Spec)
    (formed : FormedAll declarators)
    (endOfLine : Option String) :
    (session.rememberDeclarations comment spec declarators endOfLine).1.PagesFresh := by
  have unchanged := pages_commentEndOfLine session declarators endOfLine
  have commented := formedAll_commentEndOfLine session formed endOfLine
  cases settles : session.commentEndOfLine declarators endOfLine with
  | mk checked rest =>
    obtain ⟨settled, ok⟩ := rest
    rw [settles] at unchanged commented
    rw [rememberDeclarations_of_settled settles]
    intro page member
    rcases List.mem_append.1 member with earlier | isNew
    · exact pages page (unchanged ▸ earlier)
    · obtain ⟨declarator, isSettled, _, -, isPage⟩ := exists_of_mem_pagesOf isNew
      obtain ⟨-, rfl⟩ := pageOf_eq_some_iff.1 isPage
      exact (commented declarator isSettled).fresh.congr rfl rfl

end Session
end DeclManual
