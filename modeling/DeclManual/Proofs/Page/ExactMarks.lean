import DeclManual.Proofs.Page.Hidden
import Mathlib.Data.List.Forall2

/-!
# Which parameters of a group are marked

Of the parameters that are compared, one is hidden exactly if it has no comment and an
identical one stands on an earlier page or has a comment on another page, or if it repeats
the comment of an identical one on an earlier page; and it is shown with the name of its
function exactly if an identical one on another page has another comment.  So every comment
that is given to a declaration is left to be shown, and marking twice is marking once.
-/

namespace DeclManual
namespace Page

open Decl

variable {pages : List ManualPage} {index : Nat} {parameter other : Parameter}

/-! ## Parameters that are compared -/

/-- A parameter stands in the list of a declaration that takes parameters. -/
def Compared (pages : List ManualPage) (index : Nat) (parameter : Parameter) : Prop :=
  ∃ page, pages[index]? = some page ∧ page.declarator.hasParameters = true ∧
    parameter ∈ page.declarator.headParameters

theorem compared_iff :
    Compared pages index parameter ↔
      StandsOn (pages.map comparedParameters) index parameter := by
  simp only [Compared, standsOn_iff, mem_comparedParameters]

theorem mem_listedBefore {pages : List (List Parameter)} :
    parameter ∈ listedBefore pages index ↔ ∃ earlier < index, StandsOn pages earlier parameter := by
  refine ⟨exists_of_mem_listedBefore, ?_⟩
  rintro ⟨earlier, less, page, isPage, member⟩
  refine List.mem_flatten.2 ⟨page, List.mem_iff_getElem?.2 ⟨earlier, ?_⟩, member⟩
  rw [List.getElem?_take, if_pos less, isPage]

theorem mem_listedAfter {pages : List (List Parameter)} :
    parameter ∈ listedAfter pages index ↔
      ∃ later, index < later ∧ StandsOn pages later parameter := by
  unfold listedAfter
  simp only [List.mem_flatten, List.mem_iff_getElem? (l := pages.drop (index + 1)),
    List.getElem?_drop]
  constructor
  · rintro ⟨page, ⟨place, isPage⟩, member⟩
    exact ⟨index + 1 + place, by omega, page, isPage, member⟩
  · rintro ⟨later, greater, page, isPage, member⟩
    obtain ⟨place, rfl⟩ := Nat.exists_eq_add_of_lt greater
    exact ⟨page, ⟨place, by rw [← isPage]; congr 1; omega⟩, member⟩

/-! ## Marks -/

/-- What hides a parameter. -/
def HiddenAmong (pages : List ManualPage) (index : Nat) (parameter : Parameter) : Prop :=
  (parameter.comment = none ∧ ∃ elsewhere other, Compared pages elsewhere other ∧
    elsewhere ≠ index ∧ parameter.isIdentical other = true ∧
    (elsewhere < index ∨ other.comment.isSome = true)) ∨
  (parameter.comment.isSome = true ∧ ∃ earlier other, Compared pages earlier other ∧
    earlier < index ∧ parameter.isIdentical other = true ∧ other.comment = parameter.comment)

/-- What makes a parameter be shown with the name of its function. -/
def DistinguishedAmong (pages : List ManualPage) (index : Nat) (parameter : Parameter) : Prop :=
  parameter.comment.isSome = true ∧ ∃ elsewhere other, Compared pages elsewhere other ∧
    elsewhere ≠ index ∧ parameter.isIdentical other = true ∧
    other.comment.isSome = true ∧ other.comment ≠ parameter.comment

/-- A parameter of a page and the same one after marking. -/
structure MarkedAmong
    (pages : List ManualPage)
    (index : Nat)
    (parameter marked : Parameter) : Prop where
  spec : marked.spec = parameter.spec
  declarator : marked.declarator = parameter.declarator
  suppress : marked.suppress = true ↔ HiddenAmong pages index parameter
  duplicate : marked.duplicate = true ↔ DistinguishedAmong pages index parameter

theorem suppress_markedOn_iff :
    (markedOn (pages.map comparedParameters) index parameter).suppress = true ↔
      parameter.suppress = true ∨ HiddenAmong pages index parameter := by
  rw [markedOn, suppress_marked_iff]
  refine or_congr .rfl ?_
  simp only [mem_listedBefore, mem_listedAfter, ← compared_iff]
  constructor
  · rintro (⟨other, ⟨earlier, less, stands⟩, identical, without | same⟩ |
      ⟨other, ⟨later, greater, stands⟩, identical, without, commented⟩)
    · exact .inl ⟨without, earlier, other, stands, Nat.ne_of_lt less, isIdentical_symm identical,
        .inl less⟩
    · cases isComment : parameter.comment with
      | none =>
          exact .inl ⟨isComment, earlier, other, stands, Nat.ne_of_lt less,
            isIdentical_symm identical, .inl less⟩
      | some comment =>
          exact .inr ⟨by rw [isComment]; rfl, earlier, other, stands, less,
            isIdentical_symm identical, same.symm⟩
    · exact .inl ⟨without, later, other, stands, Nat.ne_of_gt greater, identical, .inr commented⟩
  · rintro (⟨without, elsewhere, other, stands, apart, identical, less | commented⟩ |
      ⟨-, earlier, other, stands, less, identical, same⟩)
    · exact .inl ⟨other, ⟨elsewhere, less, stands⟩, isIdentical_symm identical, .inl without⟩
    · rcases Nat.lt_or_gt_of_ne apart with less | greater
      · exact .inl ⟨other, ⟨elsewhere, less, stands⟩, isIdentical_symm identical, .inl without⟩
      · exact .inr ⟨other, ⟨elsewhere, greater, stands⟩, identical, without, commented⟩
    · exact .inl ⟨other, ⟨earlier, less, stands⟩, isIdentical_symm identical, .inr same.symm⟩

theorem duplicate_markedOn_iff :
    (markedOn (pages.map comparedParameters) index parameter).duplicate = true ↔
      parameter.duplicate = true ∨ DistinguishedAmong pages index parameter := by
  simp only [markedOn, marked, addMarks, Bool.or_eq_true, List.any_eq_true, differ,
    Bool.and_eq_true, bne_iff_ne, mem_listedBefore, mem_listedAfter, ← compared_iff]
  refine or_congr .rfl ?_
  constructor
  · rintro (⟨other, ⟨earlier, less, stands⟩, identical, ⟨commented, has⟩, different⟩ |
      ⟨other, ⟨later, greater, stands⟩, identical, ⟨has, commented⟩, different⟩)
    · exact ⟨has, earlier, other, stands, Nat.ne_of_lt less, isIdentical_symm identical, commented,
        different⟩
    · exact ⟨has, later, other, stands, Nat.ne_of_gt greater, identical, commented, different.symm⟩
  · rintro ⟨has, elsewhere, other, stands, apart, identical, commented, different⟩
    rcases Nat.lt_or_gt_of_ne apart with less | greater
    · exact .inl ⟨other, ⟨elsewhere, less, stands⟩, isIdentical_symm identical,
        ⟨commented, has⟩, different⟩
    · exact .inr ⟨other, ⟨elsewhere, greater, stands⟩, identical, ⟨has, commented⟩, different.symm⟩

/-- Without marks before, the marks after are those that the group gives. -/
theorem markedAmong_markedOn
    (noMark : parameter.suppress = false ∧ parameter.duplicate = false) :
    MarkedAmong pages index parameter
      (markedOn (pages.map comparedParameters) index parameter) where
  spec := rfl
  declarator := rfl
  suppress := by rw [suppress_markedOn_iff, noMark.1]; simp
  duplicate := by rw [duplicate_markedOn_iff, noMark.2]; simp

/-! ## What is left to be shown -/

/-- Of identical parameters with the same comment, one on the first page with such a one is
not hidden. -/
theorem exists_not_hidden_of_comment
    (stands : Compared pages index parameter)
    (commented : parameter.comment.isSome = true) :
    ∃ shownAt shown, Compared pages shownAt shown ∧ shown.isIdentical parameter = true ∧
      shown.comment = parameter.comment ∧ ¬ HiddenAmong pages shownAt shown := by
  classical
  have listed : ∃ shownAt shown, Compared pages shownAt shown ∧
      shown.isIdentical parameter = true ∧ shown.comment = parameter.comment :=
    ⟨index, parameter, stands, isIdentical_iff.2 ⟨rfl, rfl, rfl⟩, rfl⟩
  obtain ⟨shown, standsShown, identical, same⟩ := Nat.find_spec listed
  refine ⟨_, shown, standsShown, identical, same, ?_⟩
  rintro (⟨without, -⟩ | ⟨-, earlier, other, standsOther, less, identicalOther, sameOther⟩)
  · rw [← same, without] at commented
    contradiction
  · exact Nat.find_min listed less ⟨other, standsOther,
      isIdentical_trans (isIdentical_symm identicalOther) identical, sameOther.trans same⟩

/-- Of identical parameters without any comment, one on the first page with such a one is not
hidden. -/
theorem exists_not_hidden_of_no_comment
    (stands : Compared pages index parameter)
    (without : ∀ elsewhere other, Compared pages elsewhere other →
      other.isIdentical parameter = true → other.comment = none) :
    ∃ shownAt shown, Compared pages shownAt shown ∧ shown.isIdentical parameter = true ∧
      shown.comment = none ∧ ¬ HiddenAmong pages shownAt shown := by
  classical
  have listed : ∃ shownAt shown, Compared pages shownAt shown ∧
      shown.isIdentical parameter = true :=
    ⟨index, parameter, stands, isIdentical_iff.2 ⟨rfl, rfl, rfl⟩⟩
  obtain ⟨shown, standsShown, identical⟩ := Nat.find_spec listed
  have noComment := without _ shown standsShown identical
  refine ⟨_, shown, standsShown, identical, noComment, ?_⟩
  rintro (⟨-, elsewhere, other, standsOther, -, identicalOther, less | commented⟩ | ⟨commented, -⟩)
  · exact Nat.find_min listed less ⟨other, standsOther,
      isIdentical_trans (isIdentical_symm identicalOther) identical⟩
  · rw [without elsewhere other standsOther
      (isIdentical_trans (isIdentical_symm identicalOther) identical)] at commented
    contradiction
  · rw [noComment] at commented
    contradiction

/-- Of identical parameters one is not hidden. -/
theorem exists_not_hidden (stands : Compared pages index parameter) :
    ∃ shownAt shown, Compared pages shownAt shown ∧ shown.isIdentical parameter = true ∧
      ¬ HiddenAmong pages shownAt shown := by
  by_cases commented : ∃ elsewhere other, Compared pages elsewhere other ∧
      other.isIdentical parameter = true ∧ other.comment.isSome = true
  · obtain ⟨elsewhere, other, standsOther, identicalOther, hasComment⟩ := commented
    obtain ⟨shownAt, shown, standsShown, identical, -, isShown⟩ :=
      exists_not_hidden_of_comment standsOther hasComment
    exact ⟨shownAt, shown, standsShown, isIdentical_trans identical identicalOther, isShown⟩
  · have without (elsewhere : Nat) (other : Parameter)
        (standsOther : Compared pages elsewhere other)
        (identical : other.isIdentical parameter = true) : other.comment = none := by
      by_contra has
      exact commented ⟨elsewhere, other, standsOther, identical, Option.isSome_iff_ne_none.2 has⟩
    obtain ⟨shownAt, shown, standsShown, identical, -, isShown⟩ :=
      exists_not_hidden_of_no_comment stands without
    exact ⟨shownAt, shown, standsShown, identical, isShown⟩

/-! ## Marked pages -/

/-- Marks do not change whether a declaration takes parameters. -/
theorem takesParameters_map_markedOn
    (lists : List (List Parameter))
    (parameters : List Parameter) :
    takesParameters (parameters.map (markedOn lists index)) = takesParameters parameters := by
  rcases parameters with _ | ⟨first, _ | ⟨second, rest⟩⟩ <;> rfl

theorem hasParameters_withParameters
    {page : ManualPage}
    (takes : page.declarator.hasParameters = true)
    (lists : List (List Parameter)) :
    (withParameters page
      (page.declarator.headParameters.map (markedOn lists index))).declarator.hasParameters =
      true := by
  rw [Declarator.hasParameters, headParameters_withParameters takes, takesParameters_map_markedOn]
  exact takes

theorem comparedParameters_withParameters (lists : List (List Parameter)) (page : ManualPage) :
    comparedParameters
        (withParameters page ((comparedParameters page).map (markedOn lists index))) =
      (comparedParameters page).map (markedOn lists index) := by
  by_cases takes : page.declarator.hasParameters = true
  · have parameters : comparedParameters page = page.declarator.headParameters := if_pos takes
    rw [parameters]
    exact (if_pos (hasParameters_withParameters takes lists)).trans
      (headParameters_withParameters takes _)
  · have none : comparedParameters page = [] := if_neg takes
    rw [none, List.map_nil, withParameters, if_neg takes, none]

theorem getElem?_compared_markDuplicates (pages : List ManualPage) (index : Nat) :
    ((markDuplicates pages).map comparedParameters)[index]? =
      (pages[index]?.map comparedParameters).map
        (List.map (markedOn (pages.map comparedParameters) index)) := by
  rw [List.getElem?_map, getElem?_markDuplicates, Option.map_map, Option.map_map]
  congr 1
  funext page
  exact comparedParameters_withParameters _ page

/-- The parameters of marked pages are those of the pages, with their marks. -/
theorem compared_markDuplicates_iff :
    Compared (markDuplicates pages) index parameter ↔
      ∃ original, Compared pages index original ∧
        parameter = markedOn (pages.map comparedParameters) index original := by
  simp only [compared_iff]
  unfold StandsOn
  rw [getElem?_compared_markDuplicates, List.getElem?_map]
  constructor
  · rintro ⟨_, isPage, member⟩
    obtain ⟨page, found, rfl⟩ := Option.map_eq_some_iff.1 isPage
    obtain ⟨original, isListed, rfl⟩ := List.mem_map.1 member
    exact ⟨original, ⟨page, found, isListed⟩, rfl⟩
  · rintro ⟨original, ⟨page, found, isListed⟩, rfl⟩
    exact ⟨_, by rw [found]; rfl, List.mem_map_of_mem isListed⟩

/-- What holds of some compared parameter, whatever its marks, holds of a marked one. -/
theorem exists_compared_markDuplicates_iff
    {holds : Nat → Parameter → Prop}
    (unmarked : ∀ place parameter,
      holds place (markedOn (pages.map comparedParameters) place parameter) ↔
        holds place parameter) :
    (∃ place other, Compared (markDuplicates pages) place other ∧ holds place other) ↔
      ∃ place other, Compared pages place other ∧ holds place other := by
  simp only [compared_markDuplicates_iff]
  constructor
  · rintro ⟨place, _, ⟨original, stands, rfl⟩, isHeld⟩
    exact ⟨place, original, stands, (unmarked place original).1 isHeld⟩
  · rintro ⟨place, original, stands, isHeld⟩
    exact ⟨place, _, ⟨original, stands, rfl⟩, (unmarked place original).2 isHeld⟩

theorem hiddenAmong_markDuplicates (lists : List (List Parameter)) :
    HiddenAmong (markDuplicates pages) index (markedOn lists index parameter) ↔
      HiddenAmong pages index parameter := by
  unfold HiddenAmong
  rw [exists_compared_markDuplicates_iff fun _ _ => .rfl,
    exists_compared_markDuplicates_iff fun _ _ => .rfl]
  rfl

theorem distinguishedAmong_markDuplicates (lists : List (List Parameter)) :
    DistinguishedAmong (markDuplicates pages) index (markedOn lists index parameter) ↔
      DistinguishedAmong pages index parameter := by
  unfold DistinguishedAmong
  rw [exists_compared_markDuplicates_iff fun _ _ => .rfl]
  rfl

/-- A parameter that has been marked gets no further mark. -/
theorem markedOn_markedOn :
    markedOn ((markDuplicates pages).map comparedParameters) index
        (markedOn (pages.map comparedParameters) index parameter) =
      markedOn (pages.map comparedParameters) index parameter := by
  have suppress := @suppress_markedOn_iff (markDuplicates pages) index
    (markedOn (pages.map comparedParameters) index parameter)
  have duplicate := @duplicate_markedOn_iff (markDuplicates pages) index
    (markedOn (pages.map comparedParameters) index parameter)
  rw [hiddenAmong_markDuplicates,
    or_iff_left_of_imp fun hidden => suppress_markedOn_iff.2 (.inr hidden),
    ← Bool.eq_iff_iff] at suppress
  rw [distinguishedAmong_markDuplicates,
    or_iff_left_of_imp fun distinguished => duplicate_markedOn_iff.2 (.inr distinguished),
    ← Bool.eq_iff_iff] at duplicate
  conv_lhs => rw [markedOn, marked, addMarks]
  rw [markedOn, marked, addMarks] at suppress duplicate
  dsimp only at suppress duplicate
  rw [suppress, duplicate]

theorem updateHead_updateHead
    (first second : List Parameter)
    (declarator : Declarator) :
    (declarator.updateHead fun _ => first).updateHead (fun _ => second) =
      declarator.updateHead fun _ => second := by
  fun_induction Declarator.updateHead (fun _ => first) declarator with
  | case1 name text kind parameters comment returnComment inner applied hypothesis =>
      rw [Declarator.updateHead, if_pos (by rwa [Declarator.isSome_inner_updateHead]), hypothesis,
        Declarator.updateHead, if_pos applied]
  | case2 name text kind parameters comment returnComment inner applied =>
      rw [Declarator.updateHead, if_neg applied, Declarator.updateHead, if_neg applied]
  | case3 name text kind parameters comment returnComment => rfl

/-- Of parameters that are given twice the last are kept. -/
theorem withParameters_withParameters (lists : List (List Parameter)) (page : ManualPage) :
    withParameters
        (withParameters page ((comparedParameters page).map (markedOn lists index)))
        ((comparedParameters page).map (markedOn lists index)) =
      withParameters page ((comparedParameters page).map (markedOn lists index)) := by
  by_cases takes : page.declarator.hasParameters = true
  · have parameters : comparedParameters page = page.declarator.headParameters := if_pos takes
    have still := @hasParameters_withParameters index page takes lists
    rw [parameters, withParameters, if_pos still]
    simp only [withParameters, if_pos takes, updateHead_updateHead]
  · rw [withParameters, withParameters, if_neg takes, if_neg takes]

theorem markDuplicates_markDuplicates (pages : List ManualPage) :
    markDuplicates (markDuplicates pages) = markDuplicates pages := by
  apply List.ext_getElem?
  intro index
  simp only [getElem?_markDuplicates, Option.map_map]
  congr 1
  funext page
  simp only [Function.comp_apply, comparedParameters_withParameters, List.map_map]
  rw [show markedOn ((markDuplicates pages).map comparedParameters) index ∘
      markedOn (pages.map comparedParameters) index =
        markedOn (pages.map comparedParameters) index from
    funext fun parameter => markedOn_markedOn]
  exact withParameters_withParameters _ page

/-! ## The result of marking -/

theorem anyDocumented_iff (pages : List ManualPage) (always : Bool) :
    anyDocumented pages always = true ↔
      ∃ index parameter, Compared pages index parameter ∧
        (parameter.comment.isSome = true ∨ always = true) := by
  simp only [anyDocumented, List.any_eq_true, Declarator.hasDocumentedParameters, Bool.and_eq_true,
    Bool.or_eq_true]
  constructor
  · rintro ⟨page, member, takes, parameter, listed, documented⟩
    obtain ⟨index, isPage⟩ := List.mem_iff_getElem?.1 member
    exact ⟨index, parameter, ⟨page, isPage, takes, listed⟩, documented.symm⟩
  · rintro ⟨index, parameter, ⟨page, isPage, takes, listed⟩, documented⟩
    exact ⟨page, List.mem_of_getElem? isPage, takes, parameter, listed, documented.symm⟩

theorem anyDocumented_markDuplicates (pages : List ManualPage) (always : Bool) :
    anyDocumented (markDuplicates pages) always = anyDocumented pages always := by
  rw [Bool.eq_iff_iff, anyDocumented_iff, anyDocumented_iff]
  exact exists_compared_markDuplicates_iff fun _ _ => .rfl

/-- Where a parameter has something to show, one that is not hidden has. -/
theorem exists_not_hidden_of_documented
    {always : Bool}
    (stands : Compared pages index parameter)
    (documented : parameter.comment.isSome = true ∨ always = true) :
    ∃ shownAt shown, Compared pages shownAt shown ∧ ¬ HiddenAmong pages shownAt shown ∧
      (shown.comment.isSome = true ∨ always = true) := by
  rcases documented with commented | isAlways
  · obtain ⟨shownAt, shown, standsShown, -, same, isShown⟩ :=
      exists_not_hidden_of_comment stands commented
    exact ⟨shownAt, shown, standsShown, isShown, .inl (by rw [same, commented])⟩
  · obtain ⟨shownAt, shown, standsShown, -, isShown⟩ := exists_not_hidden stands
    exact ⟨shownAt, shown, standsShown, isShown, .inr isAlways⟩

/-- Marking is exact.  On pages without marks, the parameters of the declarations that take
some get the marks that the group gives them, and nothing else changes.  Among identical
parameters one is left to be shown for every comment, and one if none has a comment.  Some
parameter has something to show exactly if one that is shown has.  Marking again changes
nothing. -/
theorem markDuplicates_exact
    {pages : List ManualPage}
    (unmarked : ∀ index parameter, Compared pages index parameter →
      parameter.suppress = false ∧ parameter.duplicate = false)
    (always : Bool) :
    (markDuplicates pages).length = pages.length ∧
    (∀ index page, pages[index]? = some page →
      ∃ marked, List.Forall₂ (MarkedAmong pages index) (comparedParameters page) marked ∧
        (markDuplicates pages)[index]? = some (withParameters page marked)) ∧
    (∀ index parameter, Compared pages index parameter →
      (parameter.comment.isSome = true ∨ ∀ elsewhere other, Compared pages elsewhere other →
        other.isIdentical parameter = true → other.comment = none) →
      ∃ shownAt shown, Compared (markDuplicates pages) shownAt shown ∧
        shown.isIdentical parameter = true ∧ shown.comment = parameter.comment ∧
        shown.suppress = false) ∧
    (anyDocumented pages always = true ↔
      ∃ index shown, Compared (markDuplicates pages) index shown ∧ shown.suppress = false ∧
        (shown.comment.isSome = true ∨ always = true)) ∧
    markDuplicates (markDuplicates pages) = markDuplicates pages ∧
    anyDocumented (markDuplicates pages) always = anyDocumented pages always := by
  -- a parameter that nothing hides is shown after marking
  have shows {index : Nat} {shown : Parameter} (stands : Compared pages index shown)
      (isShown : ¬ HiddenAmong pages index shown) :
      Compared (markDuplicates pages) index
          (markedOn (pages.map comparedParameters) index shown) ∧
        (markedOn (pages.map comparedParameters) index shown).suppress = false := by
    refine ⟨compared_markDuplicates_iff.2 ⟨shown, stands, rfl⟩, ?_⟩
    rw [← Bool.not_eq_true, (markedAmong_markedOn (unmarked index shown stands)).suppress]
    exact isShown
  refine ⟨?_, ?_, ?_, ?_, markDuplicates_markDuplicates pages,
    anyDocumented_markDuplicates pages always⟩
  · rw [markDuplicates, List.length_zipWith, ← List.length_map (f := comparedParameters),
      length_markPages, List.length_map, Nat.min_self]
  · intro index page isPage
    refine ⟨(comparedParameters page).map (markedOn (pages.map comparedParameters) index), ?_, ?_⟩
    · rw [List.forall₂_map_right_iff, List.forall₂_same]
      intro parameter listed
      refine markedAmong_markedOn (unmarked index parameter ⟨page, isPage, ?_⟩)
      exact mem_comparedParameters.1 listed
    · rw [getElem?_markDuplicates, isPage]
      rfl
  · intro index parameter stands comments
    rcases comments with commented | without
    · obtain ⟨shownAt, shown, standsShown, identical, same, isShown⟩ :=
        exists_not_hidden_of_comment stands commented
      exact ⟨shownAt, _, (shows standsShown isShown).1, identical, same,
        (shows standsShown isShown).2⟩
    · obtain ⟨shownAt, shown, standsShown, identical, noComment, isShown⟩ :=
        exists_not_hidden_of_no_comment stands without
      have same : shown.comment = parameter.comment := by
        rw [noComment, without index parameter stands (isIdentical_iff.2 ⟨rfl, rfl, rfl⟩)]
      exact ⟨shownAt, _, (shows standsShown isShown).1, identical, same,
        (shows standsShown isShown).2⟩
  · rw [anyDocumented_iff]
    constructor
    · rintro ⟨index, parameter, stands, documented⟩
      obtain ⟨shownAt, shown, standsShown, isShown, documented⟩ :=
        exists_not_hidden_of_documented stands documented
      exact ⟨shownAt, _, (shows standsShown isShown).1, (shows standsShown isShown).2, documented⟩
    · rintro ⟨index, shown, stands, -, documented⟩
      obtain ⟨original, standsOriginal, rfl⟩ := compared_markDuplicates_iff.1 stands
      exact ⟨index, original, standsOriginal, documented⟩

/-- The page of a function of integers with the given names and comments. -/
def integersPage (name : String) (parameters : List (String × Option String)) : ManualPage where
  spec := .ofText "void" {}
  declarator := .function (.identifier name) (parameters.map fun (name, comment) =>
    { spec := .ofText "int" {}, declarator := { Declarator.identifier name with comment } })

/-- Three functions, of which two say the same about `n`, and nobody says anything about `k`. -/
def countingPages : List ManualPage :=
  [integersPage "first" [("n", none), ("k", none)],
    integersPage "second" [("n", some "Count."), ("k", none)],
    integersPage "third" [("n", some "Length."), ("n", some "Count.")]]

theorem countingPages_unmarked (index : Nat) (parameter : Parameter) :
    Compared countingPages index parameter →
      parameter.suppress = false ∧ parameter.duplicate = false := by
  rintro ⟨page, isPage, -, listed⟩
  have each : ∀ page ∈ countingPages, ∀ parameter ∈ page.declarator.headParameters,
      parameter.suppress = false ∧ parameter.duplicate = false := by
    decide
  exact each page (List.mem_of_getElem? isPage) parameter listed

/-- The parameters of the three functions that are hidden, and those that are told apart. -/
theorem markDuplicates_exact_countingPages :
    (∀ index parameter, Compared countingPages index parameter →
      parameter.suppress = false ∧ parameter.duplicate = false) ∧
    (markDuplicates countingPages).map (fun page => page.declarator.headParameters.map
        fun parameter => (parameter.suppress, parameter.duplicate)) =
      [[(true, false), (false, false)], [(false, true), (true, false)],
        [(false, true), (true, false)]] ∧
    markDuplicates (markDuplicates countingPages) = markDuplicates countingPages :=
  ⟨countingPages_unmarked, by decide,
    (markDuplicates_exact countingPages_unmarked false).2.2.2.2.1⟩

end Page
end DeclManual
