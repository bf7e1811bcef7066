import DeclManual.Page.Prototype
import DeclManual.Proofs.Grammar.FormedDeclarators
import DeclManual.Proofs.Page.Marks
import DeclManual.Proofs.Session.Reachable

/-!
# Grouping loses no declaration

Parameters count as identical by their markers and texts, but a parameter with a parameter
list of its own is written from more than its text.  Since texts tell which parameters have
such a list, two identical ones are written in the same way as soon as one of them has
none.  On a grouped page every parameter that is hidden has an identical one that is shown.
-/

namespace DeclManual

open Decl

/-! ## Pages that have been registered -/

theorem Session.Reachable.pagesFresh {session : Session} (reachable : session.Reachable) :
    session.PagesFresh := by
  induction reachable with
  | start options => exact fun _ => nofun
  | beginFile name modified _ hypothesis => exact hypothesis
  | readSource source _ hypothesis => exact hypothesis.afterSource source
  | teardown _ _ => exact fun _ => nofun

/-- A page that some texts have registered. -/
def ManualPage.Registered (page : ManualPage) : Prop :=
  ∃ session : Session, session.Reachable ∧ page ∈ session.pages

theorem ManualPage.Registered.fresh {page : ManualPage} (registered : page.Registered) :
    page.declarator.HoldsOnly ParameterOf.Fresh := by
  obtain ⟨session, reachable, member⟩ := registered
  exact reachable.pagesFresh page member

@[simp] theorem Decl.Declarator.headParameters_updateHead
    (parameters : List Parameter)
    (declarator : Declarator) :
    (declarator.updateHead fun _ => parameters).headParameters = parameters := by
  unfold headParameters
  fun_induction Declarator.updateHead (fun _ => parameters) declarator with
  | case1 name text kind parameters comment returnComment inner applied hypothesis =>
      rw [head, isSome_inner_updateHead, if_pos applied]
      exact hypothesis
  | case2 name text kind parameters comment returnComment inner applied =>
      rw [head, if_neg applied]
  | case3 name text kind parameters comment returnComment => rfl

namespace Page

variable {pages : List ManualPage} {index : Nat} {page : ManualPage}

/-! ## Marked pages -/

theorem getElem?_markDuplicates (pages : List ManualPage) (index : Nat) :
    (markDuplicates pages)[index]? =
      pages[index]?.map fun page =>
        withParameters page
          ((comparedParameters page).map (markedOn (pages.map comparedParameters) index)) := by
  have marks := getElem?_markPages (pages.map comparedParameters) index
  rw [List.length_map, List.getElem?_map] at marks
  rw [markDuplicates, List.getElem?_zipWith, marks]
  cases pages[index]? <;> rfl

theorem mem_comparedParameters {parameter : Parameter} :
    parameter ∈ comparedParameters page ↔
      page.declarator.hasParameters = true ∧ parameter ∈ page.declarator.headParameters := by
  unfold comparedParameters
  split <;> simp [*]

theorem headParameters_withParameters
    (takes : page.declarator.hasParameters = true)
    (parameters : List Parameter) :
    (withParameters page parameters).declarator.headParameters = parameters := by
  rw [withParameters, if_pos takes, Declarator.headParameters_updateHead]

theorem standsOn_iff {parameter : Parameter} :
    StandsOn (pages.map comparedParameters) index parameter ↔
      ∃ page, pages[index]? = some page ∧ parameter ∈ comparedParameters page := by
  unfold StandsOn
  rw [List.getElem?_map]
  constructor
  · rintro ⟨_, found, member⟩
    obtain ⟨page, isPage, rfl⟩ := Option.map_eq_some_iff.1 found
    exact ⟨page, isPage, member⟩
  · rintro ⟨page, isPage, member⟩
    exact ⟨_, by rw [isPage]; rfl, member⟩

/-- A parameter that takes part stands on the marked page with its marks. -/
theorem exists_marked
    {parameter : Parameter}
    (stands : StandsOn (pages.map comparedParameters) index parameter) :
    ∃ page, (markDuplicates pages)[index]? = some page ∧
      markedOn (pages.map comparedParameters) index parameter ∈
        page.declarator.headParameters := by
  obtain ⟨page, isPage, member⟩ := standsOn_iff.1 stands
  refine ⟨_, by rw [getElem?_markDuplicates, isPage]; rfl, ?_⟩
  rw [headParameters_withParameters (mem_comparedParameters.1 member).1]
  exact List.mem_map_of_mem member

/-- On a marked page only parameters that take part can be hidden. -/
theorem exists_of_hidden
    {hidden : Parameter}
    (fresh : ∀ page ∈ pages, page.declarator.HoldsOnly ParameterOf.Fresh)
    (found : (markDuplicates pages)[index]? = some page)
    (held : page.declarator.Holds hidden)
    (isHidden : hidden.suppress = true) :
    ∃ parameter, StandsOn (pages.map comparedParameters) index parameter ∧
      hidden = markedOn (pages.map comparedParameters) index parameter := by
  rw [getElem?_markDuplicates] at found
  obtain ⟨original, isOriginal, rfl⟩ := Option.map_eq_some_iff.1 found
  have isFresh := fresh original (List.mem_of_getElem? isOriginal)
  -- what is hidden at any depth is one of the marked parameters
  let good (parameter : Parameter) : Prop :=
    parameter.suppress = true -> parameter ∈
      (comparedParameters original).map (markedOn (pages.map comparedParameters) index)
  have shown {declarator : Declarator} (fresh : declarator.HoldsOnly ParameterOf.Fresh) :
      declarator.HoldsOnly good :=
    fun parameter held hides =>
      absurd ((fresh parameter held).shown.symm.trans hides) Bool.false_ne_true
  have only : (withParameters original ((comparedParameters original).map
      (markedOn (pages.map comparedParameters) index))).declarator.HoldsOnly good := by
    unfold withParameters
    split
    · refine (shown isFresh).updateHead fun parameter member => ⟨fun _ => member, ?_⟩
      obtain ⟨unmarked, isListed, rfl⟩ := List.mem_map.1 member
      exact shown (isFresh.headParameters unmarked (mem_comparedParameters.1 isListed).2).2
    · exact shown isFresh
  obtain ⟨parameter, member, rfl⟩ := List.mem_map.1 (only hidden held isHidden)
  exact ⟨parameter, standsOn_iff.2 ⟨original, isOriginal, member⟩, rfl⟩

theorem fresh_of_standsOn
    {parameter : Parameter}
    (fresh : ∀ page ∈ pages, page.declarator.HoldsOnly ParameterOf.Fresh)
    (stands : StandsOn (pages.map comparedParameters) index parameter) :
    parameter.Fresh := by
  obtain ⟨page, isPage, member⟩ := standsOn_iff.1 stands
  have listed := (fresh page (List.mem_of_getElem? isPage)).headParameters
  exact (listed parameter (mem_comparedParameters.1 member).2).1

/-! ## Written parameters -/

/-- Of two identical parameters, both have a parameter list of their own or none has, and
without one they are written in the same way. -/
theorem parameterCalls_congr
    {first second : Parameter}
    (identical : first.isIdentical second = true)
    (firstTemplated : first.declarator.IsTemplated)
    (secondTemplated : second.declarator.IsTemplated)
    (noList : first.declarator.inner = none)
    (layout : Layout) :
    parameterCalls layout first = parameterCalls layout second := by
  obtain ⟨-, specText, text⟩ := isIdentical_iff.1 identical
  have sameLists : second.declarator.inner.isSome = first.declarator.inner.isSome := by
    rw [firstTemplated, secondTemplated, text]
  have noOther : second.declarator.inner = none := by
    rw [noList] at sameLists
    simpa using sameLists
  obtain ⟨spec, declarator, _, _⟩ := first
  obtain ⟨otherSpec, otherDeclarator, _, _⟩ := second
  dsimp only at specText text noList noOther
  simp only [parameterCalls, Declarator.isEllipsis, specText, text, noList, noOther,
    Option.isSome_none, Bool.false_eq_true, if_false]
  rfl

/-- Grouping loses no declaration.  On pages that have been registered, every parameter that
marking has hidden, at whatever depth it stands, has an identical parameter that is shown on
another page; or on its own page, if the hidden one has no comment and the shown one has.
If the hidden parameter has no parameter list of its own, both are written in the same way.
And any two identical parameters of such pages, at any depth, are written in the same way if
one of them has no parameter list of its own. -/
theorem markDuplicates_shows
    {pages : List ManualPage}
    (registered : ∀ page ∈ pages, page.Registered) :
    (∀ (hiddenAt : Nat) (page : ManualPage) (hidden : Parameter),
      (markDuplicates pages)[hiddenAt]? = some page ->
      page.declarator.Holds hidden ->
      hidden.suppress = true ->
      ∃ (shownAt : Nat) (other : ManualPage) (shown : Parameter),
        (markDuplicates pages)[shownAt]? = some other ∧
        shown ∈ other.declarator.headParameters ∧
        shown.suppress = false ∧
        shown.isIdentical hidden = true ∧
        (hidden.declarator.inner = none ->
          ∀ layout, parameterCalls layout shown = parameterCalls layout hidden) ∧
        (shownAt ≠ hiddenAt ∨ hidden.comment = none ∧ shown.comment.isSome = true)) ∧
    ∀ page ∈ pages, ∀ other ∈ pages, ∀ first second : Parameter,
      page.declarator.Holds first ->
      other.declarator.Holds second ->
      first.isIdentical second = true ->
      first.declarator.inner = none ->
      ∀ layout, parameterCalls layout first = parameterCalls layout second := by
  have fresh : ∀ page ∈ pages, page.declarator.HoldsOnly ParameterOf.Fresh :=
    fun page member => (registered page member).fresh
  constructor
  · intro hiddenAt page hidden found held isHidden
    obtain ⟨parameter, stands, rfl⟩ := exists_of_hidden fresh found held isHidden
    obtain ⟨shownAt, shown, standsShown, identical, isShown, elsewhere⟩ :=
      exists_shown (fun _ _ stands => (fresh_of_standsOn fresh stands).shown) stands isHidden
    obtain ⟨other, isOther, member⟩ := exists_marked standsShown
    refine ⟨shownAt, other, _, isOther, member, isShown, identical, ?_, elsewhere⟩
    intro noList layout
    refine (parameterCalls_congr ?_ ?_ ?_ noList layout).symm
    · exact isIdentical_symm identical
    · exact (fresh_of_standsOn fresh stands).templated
    · exact (fresh_of_standsOn fresh standsShown).templated
  · intro page isPage other isOther first second heldFirst heldSecond identical noList layout
    exact parameterCalls_congr identical (fresh page isPage first heldFirst).templated
      (fresh other isOther second heldSecond).templated noList layout

/-- Two functions with identical parameters, of which the first has one without a comment. -/
def twinSession : Session :=
  ((Session.start {}).beginFile (some "twin.c") none).afterSource
    ("/* Adds. */ int add(int, int /* Summand. */);\n" ++
      "/* Halves. */ int half(int /* Summand. */, void (*done)(int));")

theorem twinSession_registered : ∀ page ∈ twinSession.pages, page.Registered := by
  have reachable : twinSession.Reachable := .readSource _ (.beginFile _ _ (.start _))
  exact fun page member => ⟨twinSession, reachable, member⟩

theorem markDuplicates_shows_twins :
    (∀ page ∈ twinSession.pages, page.Registered) ∧
    (markDuplicates twinSession.pages).map
        (fun page => page.declarator.headParameters.map (·.suppress)) =
      [[true, false], [true, false]] ∧
    ∀ (page : ManualPage) (hidden : Parameter),
      (markDuplicates twinSession.pages)[0]? = some page ->
      page.declarator.Holds hidden ->
      hidden.suppress = true ->
      ∃ (shownAt : Nat) (other : ManualPage) (shown : Parameter),
        (markDuplicates twinSession.pages)[shownAt]? = some other ∧
        shown ∈ other.declarator.headParameters ∧
        shown.suppress = false ∧
        shown.isIdentical hidden = true ∧
        (hidden.declarator.inner = none ->
          ∀ layout, parameterCalls layout shown = parameterCalls layout hidden) ∧
        (shownAt ≠ 0 ∨ hidden.comment = none ∧ shown.comment.isSome = true) :=
  ⟨twinSession_registered, by decide +kernel, (markDuplicates_shows twinSession_registered).1 0⟩

/-- Two functions with identical parameters, of which the first has one without a comment;
and two functions that take functions with different parameters. -/
def mixedSession : Session :=
  ((Session.start {}).beginFile (some "mixed.c") none).afterSource
    ("/* F. */ int f(int, int /* c */);\n/* G. */ int g(int /* c */);\n" ++
      "/* H. */ int h(void (*a)(long));\n/* K. */ int k(void (*b)(char));")

/-- An identical parameter need not be shown on another page than the hidden one, nor need
identical parameters with parameter lists of their own be written in the same way. -/
theorem markDuplicates_mixedSession :
    (∀ page ∈ mixedSession.pages, page.Registered) ∧
    (¬ ∀ (hiddenAt : Nat) (page : ManualPage) (hidden : Parameter),
      (markDuplicates mixedSession.pages)[hiddenAt]? = some page ->
      hidden ∈ page.declarator.headParameters ->
      hidden.suppress = true ->
      ∃ (shownAt : Nat) (other : ManualPage) (shown : Parameter),
        shownAt ≠ hiddenAt ∧
        (markDuplicates mixedSession.pages)[shownAt]? = some other ∧
        shown ∈ other.declarator.headParameters ∧
        shown.suppress = false ∧
        ∀ layout, parameterCalls layout shown = parameterCalls layout hidden) ∧
    ¬ ∀ page ∈ mixedSession.pages, ∀ other ∈ mixedSession.pages, ∀ first second : Parameter,
      first ∈ page.declarator.headParameters ->
      second ∈ other.declarator.headParameters ->
      first.isIdentical second = true ->
      ∀ layout, parameterCalls layout first = parameterCalls layout second := by
  have reachable : mixedSession.Reachable := .readSource _ (.beginFile _ _ (.start _))
  refine ⟨fun page member => ⟨mixedSession, reachable, member⟩, fun shows => ?_, fun same => ?_⟩
  · have onlyHere : ∃ page ∈ (markDuplicates mixedSession.pages)[0]?.toList,
        ∃ hidden ∈ page.declarator.headParameters, hidden.suppress = true ∧
          ∀ other ∈ (markDuplicates mixedSession.pages).tail,
            ∀ shown ∈ other.declarator.headParameters, shown.suppress = false ->
              parameterCalls {} shown ≠ parameterCalls {} hidden := by
      decide +kernel
    obtain ⟨page, isPage, hidden, listed, isHidden, onlyHere⟩ := onlyHere
    obtain ⟨shownAt, other, shown, elsewhere, isOther, member, isShown, written⟩ :=
      shows 0 page hidden (Option.mem_toList.1 isPage) listed isHidden
    obtain ⟨later, rfl⟩ := Nat.exists_eq_succ_of_ne_zero elsewhere
    rw [← List.getElem?_tail] at isOther
    exact onlyHere other (List.mem_of_getElem? isOther) shown member isShown (written {})
  · have differs : ∃ page ∈ mixedSession.pages, ∃ other ∈ mixedSession.pages,
        ∃ first ∈ page.declarator.headParameters, ∃ second ∈ other.declarator.headParameters,
          first.isIdentical second = true ∧
            parameterCalls {} first ≠ parameterCalls {} second := by
      decide +kernel
    obtain ⟨page, isPage, other, isOther, first, isFirst, second, isSecond, identical, differs⟩ :=
      differs
    exact differs (same page isPage other isOther first second isFirst isSecond identical {})

end Page
end DeclManual
