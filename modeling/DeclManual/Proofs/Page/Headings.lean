import DeclManual.Proofs.Page.Sections

/-!
# Headings of a page

Prototypes, descriptions and comments write no section headings.  So the headings of a page
are the ones that its sections write themselves: the fixed headings of the page, and between
RETURNS and SEE ALSO the headings of the named sections.
-/

namespace DeclManual
namespace Markup

/-- The section heading that a call writes. -/
def Call.heading? : Call -> Option String
  | .heading title => some title
  | _ => none

/-- The section headings that calls write. -/
def headings (calls : List Call) : List String :=
  calls.filterMap Call.heading?

@[simp] theorem headings_nil : headings [] = [] := rfl

@[simp] theorem headings_cons (call : Call) (rest : List Call) :
    headings (call :: rest) = call.heading?.toList ++ headings rest := by
  unfold headings
  cases written : call.heading? with
  | none => exact List.filterMap_cons_none written
  | some title => exact List.filterMap_cons_some written

@[simp] theorem headings_append (first second : List Call) :
    headings (first ++ second) = headings first ++ headings second :=
  List.filterMap_append

@[simp] theorem headings_ite (condition : Prop) [Decidable condition] (first second : List Call) :
    headings (if condition then first else second) =
      if condition then headings first else headings second :=
  apply_ite headings condition first second

/-- Calls that write no heading, put together. -/
theorem headings_flatMap
    {α : Type}
    {calls : α -> List Call}
    (each : ∀ item, headings (calls item) = [])
    (items : List α) :
    headings (items.flatMap calls) = [] := by
  induction items with
  | nil => rfl
  | cons item items hypothesis => rw [List.flatMap_cons, headings_append, each, hypothesis]; rfl

@[simp] theorem headings_characters (text : List Char) : headings (characters text) = [] := by
  induction text with
  | nil => rfl
  | cons c rest hypothesis => exact hypothesis

end Markup

namespace Prose

open Markup

/-- A description has no heading, by induction on its text. -/
@[simp] theorem headings_describeFrom
    (voice : Voice)
    (state : DescriptionState)
    (text : List Char) :
    headings (describeFrom voice state text) = [] := by
  induction text generalizing state with
  | nil => simp [describeFrom, Call.heading?]
  | cons c rest hypothesis => simp [describeFrom, Call.heading?, hypothesis]

@[simp] theorem headings_paragraph (voice : Voice) (text : Option String) :
    headings (paragraph voice text) = [] := by
  cases text with
  | none => rfl
  | some text => simp [paragraph, description, Call.heading?]

@[simp] theorem headings_stepLine
    (fixup : Bool)
    (sentence : Sentence)
    (last : Char)
    (line : List Char) :
    headings (stepLine fixup sentence last line).2.2 = [] := by
  induction line generalizing sentence last with
  | nil => rfl
  | cons c rest hypothesis => exact hypothesis _ _

@[simp] theorem headings_writeReturnsText
    (fixup : Bool)
    (state : ReturnsState)
    (line : List Char) :
    headings (writeReturnsText fixup state line).2 = [] := by
  unfold writeReturnsText
  dsimp only
  split <;> simp [Call.heading?]

@[simp] theorem headings_returnsLine (voice : Voice) (state : ReturnsState) (line : List Char) :
    headings (returnsLine voice state line).2 = [] := by
  unfold returnsLine
  split
  · simp [Call.heading?]
  split
  · simp [closeBeforeTag, openTag, Call.heading?]
  · exact headings_writeReturnsText _ _ _

/-- The returned values of a comment have no heading. -/
@[simp] theorem headings_returns (voice : Voice) (comment : String) :
    headings (returns voice comment) = [] := by
  have lines (state : ReturnsState) (lines : List (List Char)) :
      headings (returnsLines voice state lines) = [] := by
    induction lines generalizing state with
    | nil => simp [returnsLines, Call.heading?]
    | cons line rest hypothesis => simp [returnsLines, hypothesis]
  exact lines _ _

end Prose

namespace Page

open Decl
open Markup
open Prose (Voice)

/-! ## Prototypes and descriptions -/

@[simp] theorem headings_layoutCalls (text : String) : headings (layoutCalls text) = [] :=
  headings_flatMap (fun c => by simp [Call.heading?]) _

@[simp] theorem headings_declaratorText (text : String) (keepUnderscores : Bool) :
    headings (declaratorText text keepUnderscores) = [] := by
  simp [declaratorText, Call.heading?]

@[simp] theorem headings_innerText
    (layout : Layout)
    (spread : Bool)
    (name : Option String)
    (text : String) :
    headings (innerText layout spread name text) = [] := by
  unfold innerText
  split <;> simp [Call.heading?]

mutual

/-- A function declarator has no heading, by induction on it. -/
theorem headings_functionCalls (layout : Layout) (spread : Bool) :
    (declarator : Declarator) -> headings (functionCalls layout spread declarator) = []
  | { name, text, parameters, inner, .. } => by
    unfold functionCalls
    split
    · rfl
    split
    · simp [Call.heading?, headings_innerCalls layout spread name inner]
    · simp [Call.heading?, headings_innerCalls layout spread name inner,
        headings_parametersCalls layout spread true parameters]

theorem headings_innerCalls (layout : Layout) (spread : Bool) (name : Option String) :
    (inner : Option Declarator) -> headings (innerCalls layout spread name inner) = []
  | none => rfl
  | some inner => by
    unfold innerCalls
    simp [headings_functionCalls layout spread inner]

theorem headings_parametersCalls (layout : Layout) (spread isFirst : Bool) :
    (parameters : List Parameter) ->
      headings (parametersCalls layout spread isFirst parameters) = []
  | [] => rfl
  | parameter :: rest => by
    unfold parametersCalls
    simp [Call.heading?, headings_parameterCalls layout parameter,
      headings_parametersCalls layout spread false rest]

theorem headings_parameterCalls (layout : Layout) :
    (parameter : Parameter) -> headings (parameterCalls layout parameter) = []
  | { spec, declarator, .. } => by
    unfold parameterCalls
    rw [headings_append, headings_ite, headings_append,
      headings_functionCalls layout false declarator]
    cases spec.text <;> cases declarator.text <;> simp [Call.heading?]

end

/-- A declarator has no heading. -/
@[simp] theorem headings_declaratorCalls
    (layout : Layout)
    (spread : Bool)
    (declarator : Declarator) :
    headings (declaratorCalls layout spread declarator) = [] := by
  unfold declaratorCalls
  rw [headings_ite, headings_functionCalls]
  cases declarator.text <;> simp

@[simp] theorem headings_proseCalls (voice : Voice) (manner : Manner) (text : Option String) :
    headings (proseCalls voice manner text) = [] := by
  cases manner <;> simp [proseCalls]

@[simp] theorem headings_enumeratorCalls
    (voice : Voice)
    (listing : Listing)
    (isOpen : Bool)
    (enumerators : List Enumerator) :
    headings (enumeratorCalls voice listing isOpen enumerators) = [] := by
  induction enumerators generalizing isOpen with
  | nil => cases listing <;> simp [enumeratorCalls, Listing.stop, Call.heading?]
  | cons enumerator rest hypothesis =>
      cases listing <;> cases group : enumerator.groupComment <;>
        simp [enumeratorCalls, group, hypothesis, Listing.start, Listing.stop, Listing.entry,
          Call.heading?]

@[simp] theorem headings_valuesCalls
    (voice : Voice)
    (typeText : String)
    (enumerators : List Enumerator) :
    headings (valuesCalls voice typeText enumerators) = [] := by
  have article : headings (articleCalls typeText) = [] := by
    unfold articleCalls
    dsimp only
    split <;> rfl
  unfold valuesCalls
  dsimp only
  split
  · simp [article, Call.heading?]
  split
  · rfl
  · simp [article, Call.heading?]

@[simp] theorem headings_identifierCalls
    (voice : Voice)
    (enums : EnumStore)
    (comment : Option String)
    (manner : Manner)
    (spec : Spec) :
    headings (identifierCalls voice enums comment manner spec) = [] := by
  unfold identifierCalls
  split
  · exact headings_proseCalls _ _ _
  · simp [Call.heading?]

@[simp] theorem headings_parameterDescriptions
    (voice : Voice)
    (enums : EnumStore)
    (options : Options)
    (function : String)
    (parameters : List Parameter) :
    headings (parameterDescriptions voice enums options function parameters) = [] := by
  have entry (parameter : Parameter) :
      headings (parameterEntry voice enums options.prototype function parameter) = [] := by
    cases duplicate : parameter.duplicate <;>
      simp [parameterEntry, duplicate, headings_parameterCalls, Call.heading?]
  unfold parameterDescriptions
  split
  · rfl
  · simp [headings_flatMap entry, Call.heading?]

/-! ## Sections -/

/-- Items with separators have no heading if neither has one. -/
theorem headings_separated
    {α : Type}
    {separator : List Call}
    {calls : α -> List Call}
    (between : headings separator = [])
    (each : ∀ item, headings (calls item) = [])
    (items : List α) :
    headings (separated separator calls items) = [] :=
  @separated_induction α (headings · = []) rfl
    (fun left right => by rw [headings_append, left, right]; rfl) separator calls between each
    items

/-- The names of a page write no heading of a section. -/
@[simp] theorem headings_nameCalls (names : List String) (terse : String) :
    headings (nameCalls names terse) = [] := by
  have between : headings [Call.text ",\n"] = [] := rfl
  have each (name : String) : headings [Call.name name] = [] := rfl
  have listed := headings_separated between each names
  simp [nameCalls, listed, Call.heading?]

/-- The synopsis has one heading, whatever the pages are. -/
theorem headings_synopsisSection
    (options : Options)
    (first : ManualPage)
    (pages : List ManualPage) :
    headings (synopsisSection options first pages) = ["SYNOPSIS"] := by
  have includes (name : String) : headings (includeCalls name) = [] := by
    simp [includeCalls, Call.heading?]
  have header (file : String) : headings (headerIncludeCalls options.headerPrefix file) = [] := by
    cases directory : options.headerPrefix <;> simp [headerIncludeCalls, Call.heading?]
  have prototype (page : ManualPage) : headings (synopsisCalls options page) = [] := by
    simp [synopsisCalls, Call.heading?]
  have between : headings [Call.blankLine] = [] := rfl
  have prototypes := headings_separated between prototype pages
  unfold synopsisSection
  cases first.sourceFile.filter isHeaderName <;>
    simp [headings_flatMap includes, header, prototypes, Call.heading?]

/-- The section of parameters has one heading. -/
theorem headings_parametersSection (context : Context) (pages : List ManualPage) :
    headings (parametersSection context pages) = ["PARAMETERS"] := by
  unfold parametersSection
  rw [headings_append, headings_flatMap]
  · rfl
  · intro page
    rw [headings_ite, headings_parameterDescriptions]
    exact ite_self []

theorem headings_singleDescription (context : Context) (terse : String) (member : Member) :
    headings (singleDescription context terse member) = [] := by
  simp [singleDescription]

theorem headings_groupedDescription (context : Context) (member : Member) :
    headings (groupedDescription context member) = [] := by
  unfold groupedDescription
  split
  · simp [Call.heading?]
  split
  · simp [Call.heading?]
  · rfl

/-- The section of returned values has one heading. -/
theorem headings_returnsSection (context : Context) (grouped : Bool) (members : List Member) :
    headings (returnsSection context grouped members) = ["RETURNS"] := by
  unfold returnsSection
  rw [headings_append, headings_flatMap]
  · rfl
  · intro member
    simp [Call.heading?]

/-- The references of a page have one heading at most. -/
theorem headings_seeAlsoSection (names : List String) :
    (headings (seeAlsoSection names)).Sublist ["SEE ALSO"] := by
  have between : headings [Call.text ",\n"] = [] := rfl
  have each (name : String) : headings [Call.reference name] = [] := rfl
  have references := headings_separated between each names
  unfold seeAlsoSection
  split
  · exact List.nil_sublist _
  · simp [references, Call.heading?]

/-! ## Whole pages -/

/-- Whether the pages of a run are written as one. -/
def isGrouped (options : Options) (pages : List ManualPage) : Bool :=
  options.groupTogether && decide (1 < pages.length)

/-- The declarations of a page, with their comments split. -/
def pageMembers (options : Options) (pages : List ManualPage) (base : Nat) : List Member :=
  (if options.groupTogether then pages.drop base else [pages.getD base default]).map
    (Member.ofPage !options.groupTogether)

/-- A page that is not grouped describes at most one declaration. -/
theorem length_pageMembers
    {options : Options}
    {pages : List ManualPage}
    (single : isGrouped options pages = false)
    (base : Nat) :
    (pageMembers options pages base).length ≤ 1 := by
  unfold isGrouped at single
  unfold pageMembers
  rw [List.length_map]
  cases together : options.groupTogether with
  | false => exact Nat.le_refl 1
  | true =>
      rw [together, Bool.true_and, decide_eq_false_iff_not] at single
      rw [if_pos rfl, List.length_drop]
      omega

/-- A section that may be left out. -/
theorem headings_optional
    (condition : Prop)
    [Decidable condition]
    {calls : List Call}
    {titles : List String}
    (written : (headings calls).Sublist titles) :
    (headings (if condition then calls else [])).Sublist titles := by
  split
  · exact written
  · exact List.nil_sublist _

/-- A section that may be excluded has at most the headings it would have. -/
theorem headings_unlessExcluded
    (options : Options)
    (name : String)
    {calls : List Call}
    {titles : List String}
    (written : (headings calls).Sublist titles) :
    (headings (unlessExcluded options name calls)).Sublist titles := by
  unfold unlessExcluded
  split
  · exact List.nil_sublist _
  · exact written

/-- The named sections stand between sections with fixed headings. -/
theorem compose_eq_namedSections
    (context : Context)
    (pages : List ManualPage)
    (base : Nat)
    (title : Option String)
    (manualSection : String) :
    ∃ before after,
      (compose context pages base title manualSection).2 =
        before ++ namedSections context.options context.voice (isGrouped context.options pages) []
          (pageMembers context.options pages base) ++ after ∧
      (headings before).Sublist ["SYNOPSIS", "PARAMETERS", "DESCRIPTION", "RETURNS"] ∧
      (headings after).Sublist ["SEE ALSO"] := by
  have members :
      (if isGrouped context.options pages then pageMembers context.options pages base
        else (pageMembers context.options pages base).take 1) =
        pageMembers context.options pages base := by
    cases grouped : isGrouped context.options pages with
    | true => rfl
    | false => exact List.take_of_length_le (length_pageMembers grouped base)
  have regroup (header names synopsis parameters description returns named seeAlso ending :
      List Call) :
      header ++ names ++ synopsis ++ parameters ++ description ++ returns ++ named ++ seeAlso ++
          ending =
        (header ++ names ++ synopsis ++ parameters ++ description ++ returns) ++ named ++
          (seeAlso ++ ending) := by
    simp only [List.append_assoc]
  have fixed {header names synopsis parameters description returns : List Call}
      (noHeading : headings (header ++ names) = [])
      (synopsisHeading : (headings synopsis).Sublist ["SYNOPSIS"])
      (parametersHeading : (headings parameters).Sublist ["PARAMETERS"])
      (descriptionHeading : (headings description).Sublist ["DESCRIPTION"])
      (returnsHeading : (headings returns).Sublist ["RETURNS"]) :
      (headings (header ++ names ++ synopsis ++ parameters ++ description ++ returns)).Sublist
        ["SYNOPSIS", "PARAMETERS", "DESCRIPTION", "RETURNS"] := by
    rw [headings_append, headings_append, headings_append, headings_append, noHeading]
    exact ((synopsisHeading.append parametersHeading).append descriptionHeading).append
      returnsHeading
  rw [← members]
  refine ⟨_, _, regroup _ _ _ _ _ _ _ _ _, fixed ?_ ?_ ?_ ?_ ?_, ?_⟩
  · rw [headings_append, headings_nameCalls]
    rfl
  · exact headings_unlessExcluded _ _ (by rw [headings_synopsisSection])
  · exact headings_optional _ (by rw [headings_parametersSection])
  · refine headings_unlessExcluded _ _ ?_
    rw [headings_append, headings_ite, headings_flatMap (headings_groupedDescription context),
      headings_flatMap (headings_singleDescription context _), ite_self]
    exact .refl _
  · exact headings_optional _ (headings_unlessExcluded _ _ (by rw [headings_returnsSection]))
  · have ending : headings (if context.options.embeddable then [] else [.fileEnd]) = [] := by
      cases context.options.embeddable <;> rfl
    rw [headings_append, ending, List.append_nil]
    split
    · exact List.nil_sublist _
    · exact headings_unlessExcluded _ _ (headings_seeAlsoSection _)

end Page
end DeclManual
