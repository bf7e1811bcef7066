import DeclManual.Files.Publish
import DeclManual.Proofs.Session.Documented
import Mathlib.Data.List.GetD

/-!
# Publishing reads known lists only

Two stores that agree on the enumerator lists that some pages refer to give the same
manual.  So nothing that stands in a store beyond those lists is ever looked at.
-/

namespace DeclManual

open Decl

/-- Two stores have the same enumerators under every known list. -/
def Decl.EnumStore.AgreeOn (known : ListId -> Prop) (first second : EnumStore) : Prop :=
  ∀ list, known list -> first.get list = second.get list

/-- The lists of a store stay where they are when others come after them. -/
theorem Decl.EnumStore.agreeOn_append (store : EnumStore) (others : List (List Enumerator)) :
    AgreeOn (· < store.size) store ⟨store.lists ++ others⟩ := by
  intro list inStore
  exact (List.getD_append _ _ _ _ inStore).symm

variable {known : ListId -> Prop} {first second : EnumStore}

namespace Page

open Markup
open Prose (Voice)

/-! ## Identifiers -/

/-- A linked identifier is described alike with stores that agree on known lists. -/
theorem identifierCalls_congr
    (agree : first.AgreeOn known second)
    (voice : Voice)
    (comment : Option String)
    (manner : Manner)
    {spec : Spec}
    (linked : spec.Linked known) :
    identifierCalls voice first comment manner spec =
      identifierCalls voice second comment manner spec := by
  unfold identifierCalls
  split
  · rfl
  · rename_i list has
    rw [agree list (linked list has)]

/-- Linked parameters are described alike with such stores. -/
theorem parameterDescriptions_congr
    (agree : first.AgreeOn known second)
    (voice : Voice)
    (options : Options)
    (function : String)
    {parameters : List Parameter}
    (linked : LinkedAll known parameters) :
    parameterDescriptions voice first options function parameters =
      parameterDescriptions voice second options function parameters := by
  unfold parameterDescriptions
  split
  · rfl
  · congr 2
    apply List.flatMap_congr
    intro parameter member
    have listed := (linked parameter (List.mem_of_mem_filter member)).spec
    unfold parameterEntry
    rw [identifierCalls_congr agree voice parameter.comment .paragraph listed]

/-! ## Marks -/

/-- Comparing two parameters links them to nothing new. -/
theorem markPair_linked
    {earlier later : Parameter}
    (earlierLinked : earlier.Linked known)
    (laterLinked : later.Linked known) :
    (markPair earlier later).1.Linked known ∧ (markPair earlier later).2.Linked known := by
  have marked {parameter : Parameter} (linked : parameter.Linked known)
      (suppress duplicate : Bool) :
      ParameterOf.Linked known { parameter with suppress, duplicate } :=
    ⟨linked.spec, linked.declarator⟩
  unfold markPair
  split
  · exact ⟨earlierLinked, laterLinked⟩
  · split
    · exact ⟨marked earlierLinked _ _, laterLinked⟩
    · split
      · exact ⟨earlierLinked, marked laterLinked _ _⟩
      · exact ⟨marked earlierLinked _ _, marked laterLinked _ _⟩
    · exact ⟨earlierLinked, marked laterLinked _ _⟩

/-- Comparing a parameter along a page links neither to anything new. -/
theorem markAlong_linked
    {earlier : Parameter}
    {page : List Parameter}
    (earlierLinked : earlier.Linked known)
    (linked : LinkedAll known page) :
    (markAlong earlier page).1.Linked known ∧ LinkedAll known (markAlong earlier page).2 := by
  induction page generalizing earlier with
  | nil => exact ⟨earlierLinked, linked⟩
  | cons later rest hypothesis =>
      obtain ⟨laterLinked, restLinked⟩ := List.forall_mem_cons.1 linked
      obtain ⟨firstLinked, secondLinked⟩ := markPair_linked earlierLinked laterLinked
      obtain ⟨left, right⟩ := hypothesis firstLinked restLinked
      exact ⟨left, List.forall_mem_cons.2 ⟨secondLinked, right⟩⟩

/-- The parameters of several pages are linked. -/
def LinkedPages (known : ListId -> Prop) (pages : List (List Parameter)) : Prop :=
  ∀ page ∈ pages, LinkedAll known page

/-- Comparing a page across others links none of them to anything new. -/
theorem markAcross_linked
    {earlier : Parameter}
    {pages : List (List Parameter)}
    (earlierLinked : earlier.Linked known)
    (linked : LinkedPages known pages) :
    (markAcross earlier pages).1.Linked known ∧ LinkedPages known (markAcross earlier pages).2 := by
  induction pages generalizing earlier with
  | nil => exact ⟨earlierLinked, linked⟩
  | cons page rest hypothesis =>
      obtain ⟨pageLinked, restLinked⟩ := List.forall_mem_cons.1 linked
      obtain ⟨firstLinked, secondLinked⟩ := markAlong_linked earlierLinked pageLinked
      obtain ⟨left, right⟩ := hypothesis firstLinked restLinked
      exact ⟨left, List.forall_mem_cons.2 ⟨secondLinked, right⟩⟩

/-- Comparing a page links nothing to anything new. -/
theorem markPage_linked
    {page : List Parameter}
    {pages : List (List Parameter)}
    (pageLinked : LinkedAll known page)
    (linked : LinkedPages known pages) :
    LinkedAll known (markPage page pages).1 ∧ LinkedPages known (markPage page pages).2 := by
  induction page generalizing pages with
  | nil => exact ⟨pageLinked, linked⟩
  | cons parameter rest hypothesis =>
      obtain ⟨parameterLinked, restLinked⟩ := List.forall_mem_cons.1 pageLinked
      obtain ⟨firstLinked, secondLinked⟩ := markAcross_linked parameterLinked linked
      obtain ⟨left, right⟩ := hypothesis restLinked secondLinked
      exact ⟨List.forall_mem_cons.2 ⟨firstLinked, left⟩, right⟩

/-- Marking all pages links them to nothing new. -/
theorem markPages_linked
    (count : Nat)
    {pages : List (List Parameter)}
    (linked : LinkedPages known pages) :
    LinkedPages known (markPages count pages) := by
  induction count generalizing pages with
  | zero => exact linked
  | succ count hypothesis =>
      cases pages with
      | nil => exact linked
      | cons page rest =>
          obtain ⟨pageLinked, restLinked⟩ := List.forall_mem_cons.1 linked
          obtain ⟨left, right⟩ := markPage_linked pageLinked restLinked
          exact List.forall_mem_cons.2 ⟨left, hypothesis right⟩

/-- Marks change no enumerator list. -/
theorem markDuplicates_linked
    {pages : List ManualPage}
    (linked : ∀ page ∈ pages, page.Linked known) :
    ∀ page ∈ markDuplicates pages, page.Linked known := by
  have compared : LinkedPages known (pages.map comparedParameters) := by
    intro parameters member
    obtain ⟨page, present, rfl⟩ := List.mem_map.1 member
    unfold comparedParameters
    split
    · exact (linked page present).declarator.headParameters
    · exact fun _ => nofun
  intro page member
  rw [markDuplicates, ← List.map_uncurry_zip_eq_zipWith] at member
  obtain ⟨⟨original, parameters⟩, together, rfl⟩ := List.mem_map.1 member
  obtain ⟨present, marked⟩ := List.of_mem_zip together
  have originalLinked := linked original present
  rw [Function.uncurry_apply_pair, withParameters]
  split
  · exact ⟨originalLinked.spec, originalLinked.declarator.updateHead
      (markPages_linked _ compared parameters marked)⟩
  · exact originalLinked

/-! ## Pages -/

theorem page_ofPage (wantTerse : Bool) (page : ManualPage) :
    (Member.ofPage wantTerse page).page = page := by
  unfold Member.ofPage
  dsimp only
  split
  · rfl
  · rfl
  · split
    · rfl
    · split <;> rfl

/-- The pages of some declarations are linked. -/
def LinkedMembers (known : ListId -> Prop) (members : List Member) : Prop :=
  ∀ member ∈ members, member.page.Linked known

/-- The members made of linked pages are linked. -/
theorem linkedMembers_ofPage
    {pages : List ManualPage}
    (linked : ∀ page ∈ pages, page.Linked known)
    (wantTerse : Bool) :
    LinkedMembers known (pages.map (Member.ofPage wantTerse)) := by
  intro member present
  obtain ⟨page, listed, rfl⟩ := List.mem_map.1 present
  rw [page_ofPage]
  exact linked page listed

section Sections

variable (agree : first.AgreeOn known second) (context : Context)
include agree

/-- The section of parameters is the same with both stores. -/
theorem parametersSection_congr
    {pages : List ManualPage}
    (linked : ∀ page ∈ pages, page.Linked known) :
    parametersSection { context with enums := first } pages =
      parametersSection { context with enums := second } pages := by
  unfold parametersSection
  congr 1
  apply List.flatMap_congr
  intro page member
  split
  · exact parameterDescriptions_congr agree context.voice context.options page.name
      (linked page member).declarator.headParameters
  · rfl

/-- The description of a member alone is the same with both stores. -/
theorem singleDescription_congr
    (terse : String)
    {members : List Member}
    (linked : LinkedMembers known members) :
    members.flatMap (singleDescription { context with enums := first } terse) =
      members.flatMap (singleDescription { context with enums := second } terse) := by
  apply List.flatMap_congr
  intro member present
  unfold singleDescription
  dsimp only
  split
  · exact identifierCalls_congr agree context.voice _ .paragraph (linked member present).spec
  · rfl

/-- The descriptions of a group are the same with both stores. -/
theorem groupedDescription_congr
    {members : List Member}
    (linked : LinkedMembers known members) :
    members.flatMap (groupedDescription { context with enums := first }) =
      members.flatMap (groupedDescription { context with enums := second }) := by
  apply List.flatMap_congr
  intro member present
  unfold groupedDescription
  split
  · exact congrArg _
      (identifierCalls_congr agree context.voice _ .paragraph (linked member present).spec)
  · rfl

/-- The section of returned values is the same with both stores. -/
theorem returnsSection_congr
    (grouped : Bool)
    {members : List Member}
    (linked : LinkedMembers known members) :
    returnsSection { context with enums := first } grouped members =
      returnsSection { context with enums := second } grouped members := by
  unfold returnsSection
  congr 1
  apply List.flatMap_congr
  intro member present
  split
  · exact congrArg _
      (identifierCalls_congr agree context.voice _ .returns (linked member present).spec)
  · rfl

end Sections

theorem linked_default : (default : ManualPage).Linked known :=
  ⟨Spec.linked_of_none rfl, Declarator.linked_ofText none none⟩

/-- The pages that a page is composed from are linked. -/
theorem linked_memberPages
    {pages : List ManualPage}
    (linked : ∀ page ∈ pages, page.Linked known)
    (group : Bool)
    (base : Nat) :
    ∀ page ∈ (if group then pages.drop base else [pages.getD base default]),
      page.Linked known := by
  intro page member
  split at member
  · exact linked page (List.mem_of_mem_drop member)
  · rw [List.mem_singleton.1 member, List.getD_eq_getElem?_getD]
    cases found : pages[base]? with
    | none => exact linked_default
    | some page => exact linked page (List.mem_of_getElem? found)

/-- Pages stay linked, whether or not they are marked. -/
theorem linked_marked
    {pages : List ManualPage}
    (linked : ∀ page ∈ pages, page.Linked known)
    (marks : Bool) :
    ∀ page ∈ (if marks then markDuplicates pages else pages), page.Linked known := by
  split
  · exact markDuplicates_linked linked
  · exact linked

/-- Linked pages are composed in the same way from stores that agree. -/
theorem compose_congr
    (agree : first.AgreeOn known second)
    (context : Context)
    {pages : List ManualPage}
    (linked : ∀ page ∈ pages, page.Linked known)
    (base : Nat)
    (title : Option String)
    (manualSection : String) :
    compose { context with enums := first } pages base title manualSection =
      compose { context with enums := second } pages base title manualSection := by
  have memberPages := linked_memberPages linked context.options.groupTogether base
  have members := linkedMembers_ofPage memberPages !context.options.groupTogether
  unfold compose
  dsimp only
  rw [parametersSection_congr agree context, singleDescription_congr agree context,
    groupedDescription_congr agree context members, returnsSection_congr agree context]
  · rfl
  · split
    · exact members
    · exact fun member present => members member (List.mem_of_mem_take present)
  · split
    · exact members
    · exact fun member present => members member (List.mem_of_mem_take present)
  · split
    · exact linked_marked memberPages _
    · exact fun page present => linked_marked memberPages _ page (List.mem_of_mem_take present)

/-- The pages that come back from composing one are linked. -/
theorem compose_linked
    (context : Context)
    {pages : List ManualPage}
    (linked : ∀ page ∈ pages, page.Linked known)
    (base : Nat)
    (title : Option String)
    (manualSection : String) :
    ∀ page ∈ (compose context pages base title manualSection).1, page.Linked known := by
  unfold compose
  dsimp only
  split
  · intro page member
    rcases List.mem_append.1 member with before | marked
    · exact linked page (List.mem_of_mem_take before)
    · have dropped : ∀ page ∈ pages.drop base, page.Linked known :=
        fun page member => linked page (List.mem_of_mem_drop member)
      exact linked_marked dropped _ page marked
  · exact linked

end Page

namespace Files

open Markup
open Page (Context compose compose_congr compose_linked)

variable {α β : Type}

/-! ## Publishing -/

/-- The pages that a step of publishing leaves are linked. -/
def LeavesLinked (known : ListId -> Prop) : EStateM.Result PublishError Publication α -> Prop
  | .ok _ after => ∀ page ∈ after.pages, page.Linked known
  | .error _ after => ∀ page ∈ after.pages, page.Linked known

/-- Two steps of publishing do the same to linked pages, which stay linked. -/
def SameOnLinked (known : ListId -> Prop) (left right : Publish α) : Prop :=
  ∀ state : Publication, (∀ page ∈ state.pages, page.Linked known) ->
    left state = right state ∧ LeavesLinked known (left state)

namespace SameOnLinked

theorem bind
    {left right : Publish α}
    {leftNext rightNext : α -> Publish β}
    (same : SameOnLinked known left right)
    (sameNext : ∀ value, SameOnLinked known (leftNext value) (rightNext value)) :
    SameOnLinked known (left >>= leftNext) (right >>= rightNext) := by
  intro state linked
  obtain ⟨equal, leaves⟩ := same state linked
  simp only [Bind.bind, EStateM.bind]
  rw [← equal]
  cases result : left state with
  | ok value after =>
      rw [result] at leaves
      exact sameNext value after leaves
  | error error after =>
      rw [result] at leaves
      exact ⟨rfl, leaves⟩

/-- Two steps that agree do so without their values. -/
theorem discard
    {left right : Publish α}
    (same : SameOnLinked known left right) :
    SameOnLinked known (discard left) (discard right) := by
  intro state linked
  obtain ⟨equal, leaves⟩ := same state linked
  simp only [Functor.discard, Functor.mapConst, EStateM.map, Function.comp, Function.const]
  rw [← equal]
  cases result : left state with
  | ok value after =>
      rw [result] at leaves
      exact ⟨rfl, leaves⟩
  | error error after =>
      rw [result] at leaves
      exact ⟨rfl, leaves⟩

theorem pure (value : α) : SameOnLinked known (Pure.pure value) (Pure.pure value) :=
  fun _ linked => ⟨rfl, linked⟩

theorem throw (error : PublishError) :
    SameOnLinked known (throw error : Publish α) (throw error) :=
  fun _ linked => ⟨rfl, linked⟩

theorem get : SameOnLinked known (get : Publish Publication) get :=
  fun _ linked => ⟨rfl, linked⟩

/-- A change of anything but the pages. -/
theorem modify
    {change : Publication -> Publication}
    (kept : ∀ state, (change state).pages = state.pages) :
    SameOnLinked known (modify change : Publish Unit) (modify change) := by
  intro state linked
  refine ⟨rfl, ?_⟩
  change ∀ page ∈ (change state).pages, _
  rwa [kept]

theorem report (line : String) : SameOnLinked known (report line) (report line) :=
  .modify fun _ => rfl

theorem changeTree
    (wrap : OsError -> PublishError)
    (change : Tree -> Except OsError Tree) :
    SameOnLinked known (changeTree wrap change) (changeTree wrap change) := by
  refine .bind .get fun state => ?_
  cases change state.tree with
  | ok tree => exact .modify fun _ => rfl
  | error cause => exact .throw _

theorem makeDirectoriesAbove (path : Path) :
    SameOnLinked known (makeDirectoriesAbove path) (makeDirectoriesAbove path) := by
  refine .bind .get fun state => .bind (.modify fun _ => rfl) fun _ => ?_
  split
  · exact .throw _
  · exact .pure ()

theorem render (calls : List Call) : SameOnLinked known (render calls) (render calls) :=
  fun _ linked => ⟨rfl, linked⟩

/-- A page is composed in the same way from stores that agree. -/
theorem composePage
    (agree : first.AgreeOn known second)
    (context : Context)
    (index : Nat)
    (title manualSection : String) :
    SameOnLinked known
      (composePage { context with enums := first } index title manualSection)
      (composePage { context with enums := second } index title manualSection) := by
  intro state linked
  have same := compose_congr agree context linked index (some title) manualSection
  have leaves := compose_linked { context with enums := first } linked index (some title)
    manualSection
  refine ⟨?_, leaves⟩
  change EStateM.Result.ok (compose { context with enums := first } _ _ _ _).2 _ =
    .ok (compose { context with enums := second } _ _ _ _).2 _
  rw [same]

theorem publishPage
    (agree : first.AgreeOn known second)
    (context : Context)
    (index : Nat) :
    SameOnLinked known (publishPage { context with enums := first } index)
      (publishPage { context with enums := second } index) := by
  refine .bind .get fun state => ?_
  dsimp only
  split
  · refine .bind (.composePage agree context index _ _) fun calls => ?_
    refine .bind (.render _) fun text => ?_
    exact .bind (.modify fun _ => rfl) fun _ => .pure none
  · refine .bind (.report _) fun _ => ?_
    refine .bind (.changeTree _ _) fun _ => ?_
    refine .bind (.composePage agree context index _ _) fun calls => ?_
    refine .bind (.render _) fun text => ?_
    refine .bind (.makeDirectoriesAbove _) fun _ => ?_
    refine .bind (.changeTree _ _) fun _ => ?_
    exact .bind (.modify fun _ => rfl) fun _ => .pure _

theorem publishFrom
    (agree : first.AgreeOn known second)
    (context : Context)
    (count index : Nat) :
    SameOnLinked known (publishFrom { context with enums := first } count index)
      (publishFrom { context with enums := second } count index) := by
  induction count generalizing index with
  | zero => exact .pure ()
  | succ count hypothesis =>
      exact .bind (.discard (.publishPage agree context index)) fun _ => hypothesis (index + 1)

theorem makeLink (options : Options) (target link : Path) :
    SameOnLinked known (makeLink options target link) (makeLink options target link) := by
  unfold Files.makeLink
  cases options.linkPolicy with
  | hard => exact .changeTree _ _
  | soft => exact .changeTree _ _
  | file => exact .bind (.render _) fun _ => .changeTree _ _
  | none => exact .pure ()
  | remove => exact .pure ()

theorem linkPage (options : Options) (target : Path) (page : ManualPage) :
    SameOnLinked known (linkPage options target page) (linkPage options target page) := by
  unfold Files.linkPage
  dsimp only
  split
  · exact .pure ()
  · refine .bind (.report _) fun _ => ?_
    refine .bind (.changeTree _ _) fun _ => ?_
    exact .bind (.makeLink _ _ _) fun _ => .modify fun _ => rfl

theorem forM
    {items : List β}
    {step : β -> Publish PUnit}
    (same : ∀ item, SameOnLinked known (step item) (step item)) :
    SameOnLinked known (items.forM step) (items.forM step) := by
  induction items with
  | nil => exact .pure ()
  | cons item rest hypothesis => exact .bind (same item) fun _ => hypothesis

theorem publishAll
    (agree : first.AgreeOn known second)
    (context : Context) :
    SameOnLinked known (publishAll { context with enums := first })
      (publishAll { context with enums := second }) := by
  refine .bind .get fun state => ?_
  dsimp only
  split
  · split
    · exact .pure ()
    · refine .bind (.publishPage agree context 0) fun target => ?_
      cases target with
      | none => exact .pure ()
      | some target =>
          dsimp only
          split
          · exact .bind .get fun state => .forM fun page => .linkPage _ _ page
          · exact .pure ()
  · exact .publishFrom agree context _ 0

/-- A whole publication is the same with both stores. -/
theorem publishPages
    (agree : first.AgreeOn known second)
    (context : Context)
    (today : String) :
    SameOnLinked known (publishPages { context with enums := first } today)
      (publishPages { context with enums := second } today) := by
  unfold Files.publishPages
  dsimp only
  split
  · exact .throw _
  · exact .bind (.modify fun _ => rfl) fun _ => .publishAll agree context

end SameOnLinked

/-- Nothing beyond the lists that the pages of a session refer to is read. -/
theorem publish_congr
    {session : Session}
    {enums : EnumStore}
    (agree : session.enums.AgreeOn known enums)
    (linked : ∀ page ∈ session.pages, page.Linked known)
    (tree : Tree)
    (today : String) :
    publish session tree today = publish { session with enums } tree today := by
  have same := (SameOnLinked.publishPages agree
    { options := session.options, enums, inputFiles := session.inputFiles,
      groupTerse := session.groupTerse } today { tree, pages := session.pages } linked).1
  unfold publish
  dsimp only at same ⊢
  rw [same]

end Files
end DeclManual
