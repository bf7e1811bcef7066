import DeclManual.Decl.Declarator
import Mathlib.Data.List.Chain

/-!
# What a declarator makes of its name

A declarator is built around a name by pointers, parentheses, brackets and parameter
lists.  By the rules of C the same derivations, from the outermost to the innermost, turn
the type of the specifiers into the type of the name, so that the name is a function
exactly if the innermost derivation is a parameter list.  The shape of a declarator is
inferred along the way, from the shape and the first character of what has been built.
It tells functions from all else wherever no parentheses stand around the name alone.
-/

namespace DeclManual
namespace Decl

/-! ## Types -/

/-- A type, over the type that the specifiers name: one of an object that is no array. -/
inductive CType where
  | specified
  | pointer (target : CType)
  | array (element : CType)
  | function (result : CType)
deriving DecidableEq

namespace CType

/-- Whether a type is that of a function. -/
def isFunction : CType -> Bool
  | function _ => true
  | _ => false

/-- Whether a type is that of an array. -/
def isArray : CType -> Bool
  | array _ => true
  | _ => false

/-- Whether a type is valid: there are no arrays of functions, and a function returns
neither a function nor an array. -/
def isValid : CType -> Bool
  | specified => true
  | pointer target => target.isValid
  | array element => !element.isFunction && element.isValid
  | function result => !result.isFunction && !result.isArray && result.isValid

end CType

/-! ## Derivations -/

/-- What is written around a declarator. -/
inductive Derivation where
  | pointer (operator : String)
  | parentheses
  | array (suffix : String)
  | function (parameters : List Parameter)

namespace Derivation

/-- The declarator with the derivation around it. -/
def apply (declarator : Declarator) : Derivation -> Declarator
  | pointer operator => declarator.pointerTo operator
  | parentheses => declarator.parenthesized
  | array suffix => declarator.arrayOf suffix
  | function parameters => declarator.function parameters

/-- The type of what stands inside the derivation, if the whole is of a given type. -/
def derive : Derivation -> CType -> CType
  | pointer _, type => .pointer type
  | parentheses, type => type
  | array _, type => .array type
  | function _, type => .function type

/-- Whether a derivation is plain parentheses. -/
def isParentheses : Derivation -> Bool
  | parentheses => true
  | _ => false

/-- Whether a derivation is a parameter list. -/
def isList : Derivation -> Bool
  | function _ => true
  | _ => false

/-- Whether a derivation is written behind a declarator: a bracket or a parameter list. -/
def isSuffix : Derivation -> Bool
  | array _ | function _ => true
  | _ => false

end Derivation

/-- The declarator that is built around a declarator, the innermost derivation first. -/
def Declarator.derived (declarator : Declarator) (derivations : List Derivation) : Declarator :=
  derivations.foldl Derivation.apply declarator

/-- The type that derivations give to the name inside them. -/
def typeInside (derivations : List Derivation) : CType :=
  derivations.foldr Derivation.derive .specified

/-- Whether every pointer is put into parentheses before a bracket or a parameter list is
written behind it. -/
def IsGrammatical (derivations : List Derivation) : Prop :=
  ∀ before operator between suffix after,
    derivations = before ++ .pointer operator :: between ++ suffix :: after ->
      suffix.isSuffix = true -> .parentheses ∈ between

variable {derivation : Derivation} {derivations : List Derivation}

/-- The innermost derivation decides what a name is. -/
theorem isFunction_typeInside (derivations : List Derivation) :
    (typeInside derivations).isFunction =
      (derivations.find? (!·.isParentheses)).any (·.isList) := by
  induction derivations with
  | nil => rfl
  | cons derivation rest hypothesis =>
      cases derivation with
      | parentheses => exact hypothesis
      | pointer _ | array _ | function _ => rfl

theorem isValid_typeInside_of_cons
    (valid : (typeInside (derivation :: derivations)).isValid = true) :
    (typeInside derivations).isValid = true := by
  cases derivation with
  | pointer _ | parentheses => exact valid
  | array _ => exact (Bool.and_eq_true_iff.1 valid).2
  | function _ => exact (Bool.and_eq_true_iff.1 valid).2

theorem IsGrammatical.of_cons (grammatical : IsGrammatical (derivation :: derivations)) :
    IsGrammatical derivations := by
  rintro before operator between suffix after rfl
  exact grammatical (derivation :: before) operator between suffix after rfl

/-- It is enough that no bracket or parameter list comes right after a pointer. -/
theorem isGrammatical_of_isChain
    (chain : derivations.IsChain fun first second =>
      ¬(first.isSuffix = false ∧ first.isParentheses = false ∧ second.isSuffix = true)) :
    IsGrammatical derivations := by
  rintro before operator between suffix after rfl isSuffix
  rw [List.append_assoc] at chain
  replace chain := (List.isChain_append.1 chain).2.1
  induction between generalizing operator with
  | nil => exact absurd ⟨rfl, rfl, isSuffix⟩ (List.isChain_cons_cons.1 chain).1
  | cons derivation between hypothesis =>
      obtain ⟨next, chain⟩ := List.isChain_cons_cons.1 chain
      cases derivation with
      | parentheses => exact List.mem_cons_self
      | pointer operator => exact List.mem_cons_of_mem _ (hypothesis operator chain)
      | array _ | function _ => exact absurd ⟨rfl, rfl, rfl⟩ next

/-! ## Shapes -/

namespace Declarator

variable {declarator : Declarator}

/-- The shape of a function, or of a pointer to one, does not change any more. -/
theorem kind_derived
    (settled : declarator.kind = .function ∨ declarator.kind = .compound)
    (derivations : List Derivation) :
    (declarator.derived derivations).kind = declarator.kind := by
  induction derivations generalizing declarator with
  | nil => rfl
  | cons derivation rest hypothesis =>
      have same : (derivation.apply declarator).kind = declarator.kind := by
        cases derivation with
        | pointer _ | parentheses | array _ => rfl
        | function parameters =>
            rcases settled with isKind | isKind <;>
              simp [Derivation.apply, function, appliedKind, isKind]
      exact (hypothesis (same ▸ settled)).trans same

/-- The text of a declarator starts in a parenthesis. -/
def Opens (declarator : Declarator) : Prop :=
  declarator.text.map (·.toList.head?) = some (some '(')

/-- The shape of a list applied to a declarator is seen from how its text starts. -/
theorem appliedKind_eq (declarator : Declarator) :
    declarator.appliedKind =
      match declarator.kind with
      | .function | .functionDef => .function
      | .compound => .compound
      | .simple => if declarator.text.map (·.toList.head?) = some (some '(') then .compound
        else .function := by
  unfold appliedKind
  cases declarator.kind with
  | simple =>
      cases declarator.text with
      | none => rfl
      | some text =>
          simp only [Option.map_some, Option.some.injEq]
          cases text.toList with
          | nil => rfl
          | cons c rest =>
              by_cases opens : c = '('
              · subst opens
                rfl
              · simp [opens]
  | compound => rfl
  | function => rfl
  | functionDef => rfl

theorem appliedKind_of_opens (simple : declarator.kind = .simple) (opens : declarator.Opens) :
    declarator.appliedKind = .compound := by
  rw [appliedKind_eq, simple]
  exact if_pos opens

theorem appliedKind_of_not_opens
    (simple : declarator.kind = .simple)
    (notOpens : ¬ declarator.Opens) :
    declarator.appliedKind = .function := by
  rw [appliedKind_eq, simple]
  exact if_neg notOpens

theorem opens_parenthesized (declarator : Declarator) : declarator.parenthesized.Opens := by
  simp [Opens, parenthesized]

/-- What is built around a simple declarator is no function, unless a parameter list comes
first. -/
theorem isFunction_derived_eq_false
    (simple : declarator.kind = .simple)
    (ready : ∀ parameters rest,
      derivations = .function parameters :: rest -> declarator.Opens)
    (grammatical : IsGrammatical derivations)
    (valid : (typeInside derivations).isValid = true) :
    (declarator.derived derivations).isFunction = false := by
  induction derivations generalizing declarator with
  | nil => simp [derived, isFunction, simple]
  | cons derivation rest hypothesis =>
      have grammaticalRest := grammatical.of_cons
      have validRest := isValid_typeInside_of_cons valid
      cases derivation with
      | parentheses =>
          exact hypothesis simple (fun _ _ _ => opens_parenthesized declarator)
            grammaticalRest validRest
      | pointer operator =>
          refine hypothesis simple ?_ grammaticalRest validRest
          rintro parameters after rfl
          exact absurd (grammatical [] operator [] (.function parameters) after rfl rfl)
            List.not_mem_nil
      | array suffix =>
          refine hypothesis simple ?_ grammaticalRest validRest
          rintro parameters after rfl
          exact absurd valid Bool.false_ne_true
      | function parameters =>
          have isKind : (declarator.function parameters).kind = .compound :=
            appliedKind_of_opens simple (ready parameters rest rfl)
          have kept : (declarator.derived (.function parameters :: rest)).kind = .compound :=
            (kind_derived (.inr isKind) rest).trans isKind
          simp [isFunction, kept]

/-- What a declarator makes of a name: a function exactly if C's rules say so and no
parentheses stand around the name alone. -/
theorem isFunction_derived
    {name : String}
    (isName : name.toList.head? ≠ some '(')
    (grammatical : IsGrammatical derivations)
    (valid : (typeInside derivations).isValid = true) :
    ((identifier name).derived derivations).isFunction =
        ((typeInside derivations).isFunction && !derivations.head?.any (·.isParentheses)) ∧
      (typeInside derivations).isFunction =
        (derivations.find? (!·.isParentheses)).any (·.isList) := by
  refine ⟨?_, isFunction_typeInside derivations⟩
  have notOpens : ¬ (identifier name).Opens := by
    simpa [Opens, identifier, ofText] using isName
  have noFunction
      (first : ∀ parameters rest, derivations ≠ .function parameters :: rest) :
      ((identifier name).derived derivations).isFunction = false :=
    isFunction_derived_eq_false rfl
      (fun parameters rest same => absurd same (first parameters rest))
      grammatical valid
  match derivations with
  | [] => exact noFunction fun _ _ => nofun
  | .pointer _ :: _ => exact noFunction fun _ _ => nofun
  | .array _ :: _ => exact noFunction fun _ _ => nofun
  | .parentheses :: rest =>
      rw [noFunction fun _ _ => nofun]
      simp [Derivation.isParentheses]
  | .function parameters :: rest =>
      have isKind : ((identifier name).function parameters).kind = .function :=
        appliedKind_of_not_opens rfl notOpens
      have kept : ((identifier name).derived (.function parameters :: rest)).kind = .function :=
        (kind_derived (.inl isKind) rest).trans isKind
      simp [isFunction, kept, typeInside, Derivation.derive, CType.isFunction,
        Derivation.isParentheses]

/-- A parameter of type `int` without a name. -/
def unnamedInt : Parameter :=
  .ofParts (.ofText "int" {}) .abstract

/-- The derivations of `(*(*handlers(int))[3])(int)`: a function that returns a pointer to an
array of pointers to functions. -/
def handlers : List Derivation :=
  [.function [unnamedInt], .pointer "*", .parentheses, .array "[3]", .pointer "*", .parentheses,
    .function [unnamedInt]]

theorem isFunction_derived_handlers :
    "handlers".toList.head? ≠ some '(' ∧ IsGrammatical handlers ∧
      (typeInside handlers).isValid = true ∧
      ((identifier "handlers").derived handlers).isFunction = true := by
  have grammatical : IsGrammatical handlers := isGrammatical_of_isChain (by decide)
  exact ⟨by decide, grammatical, by decide,
    (isFunction_derived (by decide) grammatical (by decide)).1.trans (by decide)⟩

/-- The function `(f)(int)` is taken for a pointer to a function. -/
theorem isFunction_derived_parenthesizedName :
    IsGrammatical [.parentheses, .function [unnamedInt]] ∧
      (typeInside [.parentheses, .function [unnamedInt]]).isValid = true ∧
      (typeInside [.parentheses, .function [unnamedInt]]).isFunction = true ∧
      ((identifier "f").derived [.parentheses, .function [unnamedInt]]).isFunction = false :=
  ⟨isGrammatical_of_isChain (by decide), by decide, by decide, by decide⟩

end Declarator
end Decl
end DeclManual
