import DeclManual.Page.Duplicates
import Mathlib.Data.List.Basic
import Mathlib.Data.Nat.Find

/-!
# Marks of identical parameters

Marking goes through the parameters of a group pair by pair, and a pair is judged by the
declarations and the comments of its members only.  So the marks of a parameter do not
depend on the order of the pairs: they are those that the parameters of earlier and of
later pages give it.  From this it follows that, of identically declared parameters, one
is always left to be shown.
-/

namespace DeclManual
namespace Page

open Decl

/-! ## Judging a pair -/

/-- Whether a parameter is hidden by one on a later page, which alone has a comment. -/
def hidesEarlier (earlier later : Parameter) : Bool :=
  earlier.isIdentical later && (earlier.comment.isNone && later.comment.isSome)

/-- Whether a parameter is hidden by one on an earlier page: it has no comment, or the
same. -/
def hidesLater (earlier later : Parameter) : Bool :=
  earlier.isIdentical later && (later.comment.isNone || later.comment == earlier.comment)

/-- Whether both of a pair are shown with the names of their functions. -/
def differ (earlier later : Parameter) : Bool :=
  earlier.isIdentical later &&
    (earlier.comment.isSome && later.comment.isSome && earlier.comment != later.comment)

/-- A parameter with further marks. -/
def addMarks (hide distinguish : Bool) (parameter : Parameter) : Parameter :=
  { parameter with
    suppress := parameter.suppress || hide
    duplicate := parameter.duplicate || distinguish }

section Judging

variable (hide distinguish : Bool) (parameter : Parameter)

/-- Whether the earlier parameter is hidden does not depend on its marks. -/
@[simp] theorem hidesEarlier_addMarks_left :
    hidesEarlier (addMarks hide distinguish parameter) = hidesEarlier parameter := rfl

/-- Whether the earlier parameter is hidden does not depend on the marks of the later. -/
@[simp] theorem hidesEarlier_addMarks_right (earlier : Parameter) :
    hidesEarlier earlier (addMarks hide distinguish parameter) =
      hidesEarlier earlier parameter := rfl

/-- Whether the later parameter is hidden does not depend on the marks of the earlier. -/
@[simp] theorem hidesLater_addMarks_left :
    hidesLater (addMarks hide distinguish parameter) = hidesLater parameter := rfl

/-- Whether the later parameter is hidden does not depend on its marks. -/
@[simp] theorem hidesLater_addMarks_right (earlier : Parameter) :
    hidesLater earlier (addMarks hide distinguish parameter) =
      hidesLater earlier parameter := rfl

/-- Whether two parameters differ does not depend on the marks of the earlier. -/
@[simp] theorem differ_addMarks_left :
    differ (addMarks hide distinguish parameter) = differ parameter := rfl

/-- Whether two parameters differ does not depend on the marks of the later. -/
@[simp] theorem differ_addMarks_right (earlier : Parameter) :
    differ earlier (addMarks hide distinguish parameter) = differ earlier parameter := rfl

end Judging

/-! ## Judging a group -/

/-- A parameter with the marks that those of earlier and of later pages give it. -/
def marked (before after : List Parameter) (parameter : Parameter) : Parameter :=
  addMarks (before.any (hidesLater · parameter) || after.any (hidesEarlier parameter))
    (before.any (differ · parameter) || after.any (differ parameter)) parameter

@[simp] theorem marked_nil (parameter : Parameter) : marked [] [] parameter = parameter := by
  simp [marked, addMarks]

/-- Marks that are given to a parameter one after another. -/
theorem marked_marked (before after more others : List Parameter) (parameter : Parameter) :
    marked more others (marked before after parameter) =
      marked (before ++ more) (after ++ others) parameter := by
  unfold marked
  simp only [hidesLater_addMarks_right, hidesEarlier_addMarks_left, differ_addMarks_right,
    differ_addMarks_left, List.any_append]
  simp only [addMarks, Bool.or_assoc, Bool.or_left_comm]

/-- The marks that a parameter gets do not depend on those of the others. -/
theorem marked_map
    (before after front back : List Parameter)
    (parameter : Parameter) :
    marked (before.map (marked front back)) (after.map (marked front back)) parameter =
      marked before after parameter := by
  simp only [marked, List.any_map, Function.comp_def, hidesLater_addMarks_left,
    hidesEarlier_addMarks_right, differ_addMarks_left, differ_addMarks_right]

/-- Comparing two parameters marks each by the other. -/
theorem markPair_eq (earlier later : Parameter) :
    markPair earlier later = (marked [] [later] earlier, marked [earlier] [] later) := by
  simp only [markPair, marked, List.any_nil, List.any_cons, Bool.false_or, Bool.or_false]
  cases identical : earlier.isIdentical later with
  | false => simp [hidesEarlier, hidesLater, differ, addMarks, identical]
  | true =>
      simp only [hidesEarlier, hidesLater, differ, addMarks, identical, Bool.true_and]
      cases earlier.comment with
      | none => cases later.comment <;> simp
      | some ours =>
          cases later.comment with
          | none => simp
          | some theirs =>
              by_cases same : ours = theirs
              · simp [same]
              · simp [same, Ne.symm same]

/-- Comparing a parameter along a page marks it by all of them and each by it. -/
theorem markAlong_eq (earlier : Parameter) (page : List Parameter) :
    markAlong earlier page = (marked [] page earlier, page.map (marked [earlier] [])) := by
  induction page generalizing earlier with
  | nil => simp [markAlong]
  | cons later rest hypothesis =>
      have same : marked [marked [] [later] earlier] [] = marked [earlier] [] :=
        funext fun parameter => marked_map [earlier] [] [] [later] parameter
      unfold markAlong
      rw [markPair_eq]
      dsimp only
      rw [hypothesis, marked_marked, same]
      rfl

/-- Comparing a parameter across pages marks it by all of theirs and each by it. -/
theorem markAcross_eq (earlier : Parameter) (pages : List (List Parameter)) :
    markAcross earlier pages =
      (marked [] pages.flatten earlier, pages.map (List.map (marked [earlier] []))) := by
  induction pages generalizing earlier with
  | nil => simp [markAcross]
  | cons page pages hypothesis =>
      have same : marked [marked [] page earlier] [] = marked [earlier] [] :=
        funext fun parameter => marked_map [earlier] [] [] page parameter
      unfold markAcross
      rw [markAlong_eq]
      dsimp only
      rw [hypothesis, marked_marked, same]
      rfl

/-- Comparing a page with others marks its parameters by theirs and theirs by its own. -/
theorem markPage_eq (page : List Parameter) (pages : List (List Parameter)) :
    markPage page pages =
      (page.map (marked [] pages.flatten), pages.map (List.map (marked page []))) := by
  induction page generalizing pages with
  | nil =>
      have same : marked [] [] = id := funext marked_nil
      simp [markPage, same]
  | cons parameter rest hypothesis =>
      have same : marked [] (pages.flatten.map (marked [parameter] [])) =
          marked [] pages.flatten :=
        funext fun other => marked_map [] pages.flatten [parameter] [] other
      have twice : marked rest [] ∘ marked [parameter] [] = marked (parameter :: rest) [] :=
        funext fun other => marked_marked [parameter] [] rest [] other
      unfold markPage
      rw [markAcross_eq]
      dsimp only
      rw [hypothesis, ← List.map_flatten, same, List.map_map, List.map_comp_map, twice]
      rfl

/-- Marking pages keeps their number. -/
theorem length_markPages (count : Nat) (pages : List (List Parameter)) :
    (markPages count pages).length = pages.length := by
  induction count generalizing pages with
  | zero => rfl
  | succ count hypothesis =>
      cases pages with
      | nil => rfl
      | cons page pages =>
          unfold markPages
          rw [markPage_eq]
          simp [hypothesis]

/-- The parameters that stand on the pages before a given one. -/
def listedBefore (pages : List (List Parameter)) (index : Nat) : List Parameter :=
  (pages.take index).flatten

/-- The parameters that stand on the pages after a given one. -/
def listedAfter (pages : List (List Parameter)) (index : Nat) : List Parameter :=
  (pages.drop (index + 1)).flatten

/-- A parameter of a page with the marks that those of all other pages give it. -/
def markedOn (pages : List (List Parameter)) (index : Nat) : Parameter -> Parameter :=
  marked (listedBefore pages index) (listedAfter pages index)

/-- Every parameter is marked by those that are listed before it and after it. -/
theorem getElem?_markPages (pages : List (List Parameter)) (index : Nat) :
    (markPages pages.length pages)[index]? =
      pages[index]?.map (List.map (markedOn pages index)) := by
  induction length : pages.length generalizing pages index with
  | zero =>
      obtain rfl := List.length_eq_zero_iff.1 length
      rfl
  | succ count hypothesis =>
      obtain ⟨page, others, rfl⟩ := List.exists_cons_of_length_eq_add_one length
      have left : others.length = count := by simpa using length
      unfold markPages
      rw [markPage_eq]
      dsimp only
      cases index with
      | zero => simp [markedOn, listedBefore, listedAfter]
      | succ index =>
          rw [List.getElem?_cons_succ, hypothesis _ _ (by simpa using left), List.getElem?_map,
            List.getElem?_cons_succ, Option.map_map, List.map_comp_map]
          congr 2
          funext parameter
          -- the marks of the first page come before those of the others
          have before : listedBefore (others.map (List.map (marked page []))) index =
              (listedBefore others index).map (marked page []) := by
            rw [listedBefore, ← List.map_take, ← List.map_flatten]
            rfl
          have after : listedAfter (others.map (List.map (marked page []))) index =
              (listedAfter others index).map (marked page []) := by
            rw [listedAfter, ← List.map_drop, ← List.map_flatten]
            rfl
          rw [Function.comp_apply, markedOn, before, after, marked_map, marked_marked]
          rfl

/-! ## What is left to be shown -/

/-- Parameters are identical if their specifiers and their declarators are written alike. -/
theorem isIdentical_iff {first second : Parameter} :
    first.isIdentical second = true ↔
      first.spec.flags = second.spec.flags ∧ first.spec.text = second.spec.text ∧
        first.declarator.text = second.declarator.text := by
  simp [ParameterOf.isIdentical, and_assoc]

/-- Identical parameters are so in either order. -/
theorem isIdentical_symm
    {first second : Parameter}
    (identical : first.isIdentical second = true) :
    second.isIdentical first = true := by
  obtain ⟨flags, spec, text⟩ := isIdentical_iff.1 identical
  exact isIdentical_iff.2 ⟨flags.symm, spec.symm, text.symm⟩

/-- What is identical to the same parameter is identical. -/
theorem isIdentical_trans
    {first second third : Parameter}
    (left : first.isIdentical second = true)
    (right : second.isIdentical third = true) :
    first.isIdentical third = true := by
  obtain ⟨flags, spec, text⟩ := isIdentical_iff.1 left
  obtain ⟨flags', spec', text'⟩ := isIdentical_iff.1 right
  exact isIdentical_iff.2 ⟨flags.trans flags', spec.trans spec', text.trans text'⟩

/-- A parameter is hidden just if it was before or another one hides it. -/
theorem suppress_marked_iff {before after : List Parameter} {parameter : Parameter} :
    (marked before after parameter).suppress = true ↔
      parameter.suppress = true ∨
        (∃ earlier ∈ before, earlier.isIdentical parameter = true ∧
          (parameter.comment = none ∨ parameter.comment = earlier.comment)) ∨
        ∃ later ∈ after, parameter.isIdentical later = true ∧
          parameter.comment = none ∧ later.comment.isSome = true := by
  simp [marked, addMarks, hidesLater, hidesEarlier]

section Shown

variable {pages : List (List Parameter)} {index : Nat} {parameter : Parameter}

/-- A parameter stands on a page. -/
def StandsOn (pages : List (List Parameter)) (index : Nat) (parameter : Parameter) : Prop :=
  ∃ page, pages[index]? = some page ∧ parameter ∈ page

/-- What is listed before a page stands on an earlier one. -/
theorem exists_of_mem_listedBefore (member : parameter ∈ listedBefore pages index) :
    ∃ earlier < index, StandsOn pages earlier parameter := by
  obtain ⟨page, isPage, onPage⟩ := List.mem_flatten.1 member
  obtain ⟨earlier, found⟩ := List.mem_iff_getElem?.1 isPage
  rw [List.getElem?_take] at found
  split at found
  · rename_i less
    exact ⟨earlier, less, page, found, onPage⟩
  · cases found

/-- What is listed after a page stands on some page. -/
theorem exists_of_mem_listedAfter (member : parameter ∈ listedAfter pages index) :
    ∃ later, StandsOn pages later parameter := by
  obtain ⟨page, isPage, onPage⟩ := List.mem_flatten.1 member
  obtain ⟨later, found⟩ := List.mem_iff_getElem?.1 (List.mem_of_mem_drop isPage)
  exact ⟨later, page, found, onPage⟩

/-- The first page with an identical parameter that has a comment shows it. -/
theorem shown_of_first_comment
    (shown : parameter.suppress = false)
    (commented : parameter.comment.isSome = true)
    (first : ∀ earlier ∈ listedBefore pages index, earlier.isIdentical parameter = true ->
      earlier.comment = none) :
    (markedOn pages index parameter).suppress = false := by
  rw [← Bool.not_eq_true, markedOn, suppress_marked_iff]
  rintro (hidden | ⟨earlier, member, identical, without⟩ | ⟨later, -, -, without, -⟩)
  · simp [shown] at hidden
  · rw [first earlier member identical, or_self] at without
    simp [without] at commented
  · simp [without] at commented

/-- Where no identical parameter has a comment, the first page with one shows it. -/
theorem shown_of_first
    (shown : parameter.suppress = false)
    (first : ∀ earlier ∈ listedBefore pages index, ¬ earlier.isIdentical parameter = true)
    (without : ∀ later ∈ listedAfter pages index, parameter.isIdentical later = true ->
      later.comment = none) :
    (markedOn pages index parameter).suppress = false := by
  rw [← Bool.not_eq_true, markedOn, suppress_marked_iff]
  rintro (hidden | ⟨earlier, member, identical, -⟩ | ⟨later, member, identical, -, commented⟩)
  · simp [shown] at hidden
  · exact first earlier member identical
  · simp [without later member identical] at commented

/-- If an identical parameter has a comment, the first page that has such a one shows it.  On
the page of the hidden parameter it can stand only if that has no comment. -/
theorem exists_shown_of_comment
    {hidden : Parameter}
    (fresh : ∀ index parameter, StandsOn pages index parameter -> parameter.suppress = false)
    (onPage : StandsOn pages index hidden)
    (isHidden : (markedOn pages index hidden).suppress = true)
    (commented : ∃ shownAt shown, StandsOn pages shownAt shown ∧
      shown.isIdentical hidden = true ∧ shown.comment.isSome = true) :
    ∃ shownAt shown, StandsOn pages shownAt shown ∧ shown.isIdentical hidden = true ∧
      (markedOn pages shownAt shown).suppress = false ∧
      (shownAt ≠ index ∨ hidden.comment = none ∧ shown.comment.isSome = true) := by
  classical
  obtain ⟨shown, stands, identical, hasComment⟩ := Nat.find_spec commented
  have first : ∀ earlier ∈ listedBefore pages (Nat.find commented),
      earlier.isIdentical hidden = true -> earlier.comment = none := by
    intro earlier before same
    obtain ⟨earlierAt, less, standsEarlier⟩ := exists_of_mem_listedBefore before
    by_contra has
    exact Nat.find_min commented less
      ⟨earlier, standsEarlier, same, Option.isSome_iff_ne_none.2 has⟩
  refine ⟨_, shown, stands, identical, shown_of_first_comment (fresh _ _ stands) hasComment
    fun earlier before same => first earlier before (isIdentical_trans same identical), ?_⟩
  by_cases here : Nat.find commented = index
  · refine .inr ⟨?_, hasComment⟩
    by_contra has
    have shownHere := shown_of_first_comment (fresh _ _ onPage)
      (Option.isSome_iff_ne_none.2 has) (here ▸ first)
    exact Bool.false_ne_true (shownHere.symm.trans isHidden)
  · exact .inl here

/-- If no identical parameter has a comment, one on an earlier page is shown. -/
theorem exists_shown_of_no_comment
    {hidden : Parameter}
    (fresh : ∀ index parameter, StandsOn pages index parameter -> parameter.suppress = false)
    (onPage : StandsOn pages index hidden)
    (isHidden : (markedOn pages index hidden).suppress = true)
    (without : ∀ shownAt shown, StandsOn pages shownAt shown ->
      shown.isIdentical hidden = true -> shown.comment = none) :
    ∃ shownAt shown, StandsOn pages shownAt shown ∧ shown.isIdentical hidden = true ∧
      (markedOn pages shownAt shown).suppress = false ∧ shownAt < index := by
  classical
  rcases suppress_marked_iff.1 isHidden with
    already | ⟨earlier, before, identical, -⟩ | ⟨later, after, identical, -, hasComment⟩
  · exact absurd ((fresh _ _ onPage).symm.trans already) Bool.false_ne_true
  · obtain ⟨earlierAt, less, standsEarlier⟩ := exists_of_mem_listedBefore before
    have listed : ∃ shownAt shown, StandsOn pages shownAt shown ∧
        shown.isIdentical hidden = true := ⟨earlierAt, earlier, standsEarlier, identical⟩
    obtain ⟨shown, stands, same⟩ := Nat.find_spec listed
    have isEarlier : Nat.find listed ≤ earlierAt :=
      Nat.find_min' listed ⟨earlier, standsEarlier, identical⟩
    refine ⟨_, shown, stands, same, shown_of_first (fresh _ _ stands) ?_ ?_,
      Nat.lt_of_le_of_lt isEarlier less⟩
    · intro other before identical
      obtain ⟨otherAt, least, standsOther⟩ := exists_of_mem_listedBefore before
      exact Nat.find_min listed least ⟨other, standsOther, isIdentical_trans identical same⟩
    · intro later after identical
      obtain ⟨laterAt, standsLater⟩ := exists_of_mem_listedAfter after
      exact without _ _ standsLater (isIdentical_trans (isIdentical_symm identical) same)
  · obtain ⟨laterAt, standsLater⟩ := exists_of_mem_listedAfter after
    rw [without _ _ standsLater (isIdentical_symm identical)] at hasComment
    cases hasComment

/-- What is hidden is shown elsewhere: of identically declared parameters, one on the first
page that has one with a comment, or else one on the first page that has one. -/
theorem exists_shown
    {hidden : Parameter}
    (fresh : ∀ index parameter, StandsOn pages index parameter -> parameter.suppress = false)
    (onPage : StandsOn pages index hidden)
    (isHidden : (markedOn pages index hidden).suppress = true) :
    ∃ shownAt shown, StandsOn pages shownAt shown ∧ shown.isIdentical hidden = true ∧
      (markedOn pages shownAt shown).suppress = false ∧
      (shownAt ≠ index ∨ hidden.comment = none ∧ shown.comment.isSome = true) := by
  by_cases commented : ∃ shownAt shown, StandsOn pages shownAt shown ∧
      shown.isIdentical hidden = true ∧ shown.comment.isSome = true
  · exact exists_shown_of_comment fresh onPage isHidden commented
  · have without (shownAt : Nat) (shown : Parameter) (stands : StandsOn pages shownAt shown)
        (identical : shown.isIdentical hidden = true) : shown.comment = none := by
      by_contra has
      exact commented ⟨shownAt, shown, stands, identical, Option.isSome_iff_ne_none.2 has⟩
    obtain ⟨shownAt, shown, stands, identical, isShown, less⟩ :=
      exists_shown_of_no_comment fresh onPage isHidden without
    exact ⟨shownAt, shown, stands, identical, isShown, .inl (Nat.ne_of_lt less)⟩

end Shown

end Page
end DeclManual
