import DeclManual.Proofs.Page.Headings
import Mathlib.Data.List.Perm.Basic

/-!
# Named sections of a page

The named sections of a page are written in blocks.  A section that has something to say and
is not excluded opens a block under its name, unless an earlier declaration has opened that
heading; the sections of later declarations under the same name come into the block with it,
whatever they say.  So a section that has something to say is written exactly once, and one
that has nothing to say is written exactly if an earlier declaration opens its heading.
-/

namespace DeclManual
namespace Page

open Decl
open Markup
open Prose (Voice)

/-! ## Sections and blocks of sections -/

/-- A named section of a declaration. -/
structure SectionEntry where
  member : Member
  heading : String
  text : Option String

namespace SectionEntry

/-- Whether a section has a text that does not say "none". -/
def speaks (entry : SectionEntry) : Bool :=
  entry.text.any (!saysNone ·)

/-- Whether a section is to be shown: it speaks, and its name is not excluded. -/
def isShown (options : Options) (entry : SectionEntry) : Bool :=
  entry.speaks && !options.isExcluded entry.heading

/-- Whether a section opens a heading, where earlier declarations have opened `done`. -/
def opens (options : Options) (done : List String) (entry : SectionEntry) : Bool :=
  !done.contains entry.heading && entry.isShown options

/-- A section as it is written, in a group below the name of its declaration. -/
def calls (voice : Voice) (grouped : Bool) (entry : SectionEntry) : List Call :=
  (if grouped then [.subheading entry.member.page.name] else []) ++
    Prose.paragraph voice entry.text

end SectionEntry

/-- A named section of a declaration, with the declaration. -/
def Member.entry (member : Member) (item : String × Option String) : SectionEntry where
  member
  heading := item.1
  text := item.2

/-- The named sections of a declaration. -/
def Member.entries (member : Member) : List SectionEntry :=
  member.sections.map member.entry

/-- The named sections of some declarations. -/
def entriesOf (members : List Member) : List SectionEntry :=
  members.flatMap Member.entries

/-- A heading with the sections that are written under it. -/
structure SectionBlock where
  heading : String
  entries : List SectionEntry

/-- A block of sections as it is written. -/
def SectionBlock.calls (voice : Voice) (grouped : Bool) (block : SectionBlock) : List Call :=
  .heading block.heading :: block.entries.flatMap (SectionEntry.calls voice grouped)

/-- The headings of blocks. -/
def headingsOf (blocks : List SectionBlock) : List String :=
  blocks.map SectionBlock.heading

/-- The sections that are written in blocks. -/
def writtenIn (blocks : List SectionBlock) : List SectionEntry :=
  blocks.flatMap SectionBlock.entries

/-- The later sections that a heading brings along where it opens, unless it has opened before:
`here` are the headings that the same declaration has opened so far. -/
def broughtAlong (later : List SectionEntry) (here : List String) (heading : String) :
    List SectionEntry :=
  if here.contains heading then [] else later.filter (·.heading == heading)

/-- The blocks that the sections of one declaration open.  Earlier declarations have opened
the headings `done`, this one has opened `here` so far, and `later` are the sections of later
ones. -/
def memberBlocks (options : Options) (later : List SectionEntry) (done : List String) :
    (here : List String) -> List SectionEntry -> List SectionBlock
  | _, [] => []
  | here, entry :: rest =>
    if entry.opens options done then
      { heading := entry.heading
        entries := entry :: broughtAlong later here entry.heading } ::
        memberBlocks options later done (here ++ [entry.heading]) rest
    else memberBlocks options later done here rest

/-- The blocks that declarations open. -/
def sectionBlocks (options : Options) : (done : List String) -> List Member -> List SectionBlock
  | _, [] => []
  | done, member :: later =>
    let blocks := memberBlocks options (entriesOf later) done [] member.entries
    blocks ++ sectionBlocks options (done ++ headingsOf blocks) later

/-- The blocks of a page. -/
def pageBlocks (options : Options) (pages : List ManualPage) (base : Nat) : List SectionBlock :=
  sectionBlocks options [] (pageMembers options pages base)

theorem entriesOf_cons (member : Member) (later : List Member) :
    entriesOf (member :: later) = member.entries ++ entriesOf later :=
  List.flatMap_cons

theorem headingsOf_cons (block : SectionBlock) (blocks : List SectionBlock) :
    headingsOf (block :: blocks) = block.heading :: headingsOf blocks := rfl

theorem writtenIn_cons (block : SectionBlock) (blocks : List SectionBlock) :
    writtenIn (block :: blocks) = block.entries ++ writtenIn blocks :=
  List.flatMap_cons

theorem writtenIn_append (first second : List SectionBlock) :
    writtenIn (first ++ second) = writtenIn first ++ writtenIn second :=
  List.flatMap_append

variable
  {options : Options} {voice : Voice} {grouped : Bool} {member : Member} {members : List Member}
  {done here : List String} {heading : String} {entry : SectionEntry}
  {later own : List SectionEntry} {block : SectionBlock}

/-- An entry is brought along by a heading that it has and that is not written here. -/
theorem mem_broughtAlong :
    entry ∈ broughtAlong later here heading ↔
      entry ∈ later ∧ entry.heading ∉ here ∧ entry.heading = heading := by
  rw [broughtAlong]
  split
  · rename_i opened
    refine iff_of_false List.not_mem_nil ?_
    rintro ⟨-, fresh, rfl⟩
    exact fresh (List.contains_iff_mem.1 opened)
  · rename_i fresh
    rw [List.mem_filter, beq_iff_eq]
    refine and_congr_right fun _ => (and_iff_right_of_imp ?_).symm
    rintro rfl
    exact mt List.contains_iff_mem.2 fresh

namespace SectionEntry

/-- An entry opens nothing under a heading that is done. -/
theorem opens_of_mem (claimed : entry.heading ∈ done) : entry.opens options done = false := by
  rw [opens, List.contains_iff_mem.2 claimed]
  rfl

/-- An entry opens a heading that is not done if it is shown. -/
theorem opens_of_not_mem (fresh : entry.heading ∉ done) :
    entry.opens options done = entry.isShown options := by
  rw [opens, Bool.eq_false_iff.2 (mt List.contains_iff_mem.1 fresh), Bool.not_false, Bool.true_and]

end SectionEntry

/-! ## Blocks are what is written -/

/-- The later sections of a heading are written entry by entry. -/
theorem laterSections_eq (voice : Voice) (heading : String) (later : List Member) :
    laterSections voice heading later =
      ((entriesOf later).filter (·.heading == heading)).flatMap
        (SectionEntry.calls voice true) := by
  induction later with
  | nil => rfl
  | cons member later hypothesis =>
      rw [laterSections, List.flatMap_cons, entriesOf, List.flatMap_cons, List.filter_append,
        List.flatMap_append, Member.entries, List.filter_map, List.flatMap_map]
      exact congrArg (_ ++ ·) hypothesis

/-- What a heading brings along, as it is written: a declaration alone brings nothing along. -/
theorem flatMap_broughtAlong
    {later : List Member}
    (alone : grouped = true ∨ later = [])
    (here : List String)
    (heading : String) :
    (broughtAlong (entriesOf later) here heading).flatMap (SectionEntry.calls voice grouped) =
      if grouped && !here.contains heading then laterSections voice heading later else [] := by
  unfold broughtAlong
  cases here.contains heading with
  | true => simp
  | false =>
      rcases alone with rfl | rfl
      · exact (laterSections_eq voice heading later).symm
      · cases grouped <;> rfl

/-- The sections of a member are its blocks, written one after another. -/
theorem memberSections_eq
    {later : List Member}
    (alone : grouped = true ∨ later = [])
    (sections : List (String × Option String)) :
    memberSections options voice grouped member later done here sections =
      let blocks := memberBlocks options (entriesOf later) done here (sections.map member.entry)
      (blocks.flatMap (SectionBlock.calls voice grouped), here ++ headingsOf blocks) := by
  induction sections generalizing here with
  | nil => exact Prod.ext rfl (List.append_nil here).symm
  | cons item rest hypothesis =>
      obtain ⟨heading, text⟩ := item
      cases text with
      | none =>
          have silent : (member.entry (heading, none)).opens options done = false :=
            Bool.and_false _
          rw [memberSections, List.map_cons, memberBlocks, silent]
          exact hypothesis
      | some body =>
          have skipped :
              (done.contains heading || saysNone body || options.isExcluded heading) =
                !(member.entry (heading, some body)).opens options done := by
            simp [SectionEntry.opens, SectionEntry.isShown, SectionEntry.speaks, Member.entry,
              Bool.or_assoc]
          rw [memberSections, List.map_cons, memberBlocks]
          dsimp only
          rw [skipped, ← flatMap_broughtAlong alone]
          cases (member.entry (heading, some body)).opens options done with
          | false => exact hypothesis
          | true =>
              rw [Bool.not_true, if_neg Bool.false_ne_true, hypothesis]
              simp [SectionBlock.calls, SectionEntry.calls, headingsOf, Member.entry]

/-- The named sections of a page are the blocks that its declarations open. -/
theorem namedSections_eq (alone : grouped = true ∨ members.length ≤ 1) :
    namedSections options voice grouped done members =
      (sectionBlocks options done members).flatMap (SectionBlock.calls voice grouped) := by
  induction members generalizing done with
  | nil => rfl
  | cons member later hypothesis =>
      have last : grouped = true ∨ later = [] := by
        refine alone.imp_right fun bound => List.length_eq_zero_iff.1 ?_
        rw [List.length_cons] at bound
        omega
      have fewer : grouped = true ∨ later.length ≤ 1 :=
        alone.imp_right (Nat.le_trans (Nat.le_succ _))
      rw [namedSections, memberSections_eq last]
      dsimp only
      rw [hypothesis fewer, sectionBlocks, List.flatMap_append]
      rfl

/-! ## Every section is written once or passed over -/

/-- The sections under headings that have not been opened. -/
def unclaimed (done : List String) (entries : List SectionEntry) : List SectionEntry :=
  entries.filter (!done.contains ·.heading)

theorem unclaimed_nil (entries : List SectionEntry) : unclaimed [] entries = entries :=
  List.filter_eq_self.2 fun _ _ => rfl

theorem unclaimed_append (done : List String) (first second : List SectionEntry) :
    unclaimed done (first ++ second) = unclaimed done first ++ unclaimed done second :=
  List.filter_append _ _

/-- A heading that opens takes the later sections under it along, unless they have been taken
along before. -/
theorem unclaimed_concat_perm
    (fresh : heading ∉ done)
    (here : List String)
    (later : List SectionEntry) :
    (broughtAlong later here heading ++ unclaimed (done ++ (here ++ [heading])) later).Perm
      (unclaimed (done ++ here) later) := by
  have remaining : unclaimed (done ++ (here ++ [heading])) later =
      (unclaimed (done ++ here) later).filter fun entry => !entry.heading == heading := by
    simp only [unclaimed, List.filter_filter, List.contains_append, List.contains_cons,
      List.contains_nil, Bool.not_or, Bool.or_false, Bool.and_comm, Bool.and_left_comm]
  rw [remaining, broughtAlong]
  cases taken : here.contains heading with
  | true =>
      have others :
          (unclaimed (done ++ here) later).filter (fun entry => !entry.heading == heading) =
            unclaimed (done ++ here) later := by
        refine List.filter_eq_self.2 fun entry member => ?_
        have free := (List.mem_filter.1 member).2
        cases same : entry.heading == heading with
        | false => rfl
        | true =>
            rw [eq_of_beq same, List.contains_append, taken, Bool.or_true] at free
            exact absurd free Bool.false_ne_true
      rw [if_pos rfl, List.nil_append, others]
  | false =>
      have along : later.filter (·.heading == heading) =
          (unclaimed (done ++ here) later).filter (·.heading == heading) := by
        rw [unclaimed, List.filter_filter]
        refine List.filter_congr fun entry _ => ?_
        cases same : entry.heading == heading with
        | false => rfl
        | true =>
            rw [eq_of_beq same, List.contains_append, taken,
              Bool.eq_false_iff.2 (mt List.contains_iff_mem.1 fresh)]
            rfl
      rw [if_neg Bool.false_ne_true, along]
      exact List.filter_append_perm _ _

/-- Of the sections of a declaration under headings that no earlier one has opened, and of the
later ones under headings that are not open yet, every one is written once, passed over for
having nothing to show, or left for later declarations. -/
theorem memberBlocks_perm (own : List SectionEntry) :
    ∃ passed, (∀ entry ∈ passed, entry.isShown options = false) ∧
      (writtenIn (memberBlocks options later done here own) ++ (passed ++
          unclaimed (done ++ (here ++ headingsOf (memberBlocks options later done here own)))
            later)).Perm
        (unclaimed done own ++ unclaimed (done ++ here) later) := by
  induction own generalizing here with
  | nil =>
      refine ⟨[], fun _ member => absurd member List.not_mem_nil, ?_⟩
      rw [memberBlocks, headingsOf, List.map_nil, List.append_nil]
      exact .refl _
  | cons entry rest hypothesis =>
      rw [memberBlocks]
      -- Under a heading of an earlier declaration, the section was written with that one.
      by_cases claimed : entry.heading ∈ done
      · have others : unclaimed done (entry :: rest) = unclaimed done rest :=
          List.filter_cons_of_neg (by simpa using claimed)
        rw [SectionEntry.opens_of_mem claimed, if_neg Bool.false_ne_true, others]
        exact hypothesis
      · have both : unclaimed done (entry :: rest) = entry :: unclaimed done rest :=
          List.filter_cons_of_pos (by simpa using claimed)
        rw [SectionEntry.opens_of_not_mem claimed, both]
        cases shown : entry.isShown options with
        | false =>
            obtain ⟨passed, notShown, perm⟩ := @hypothesis here
            refine ⟨entry :: passed, List.forall_mem_cons.2 ⟨shown, notShown⟩, ?_⟩
            rw [if_neg Bool.false_ne_true]
            exact List.perm_middle.trans (perm.cons entry)
        | true =>
            obtain ⟨passed, notShown, perm⟩ := @hypothesis (here ++ [entry.heading])
            have along := unclaimed_concat_perm claimed here later
            refine ⟨passed, notShown, ?_⟩
            rw [List.append_assoc here, List.singleton_append] at perm
            rw [if_pos rfl, writtenIn_cons, headingsOf_cons, List.append_assoc, List.cons_append,
              List.cons_append]
            refine ((perm.append_left _).trans ?_).cons entry
            exact (List.perm_append_comm_assoc _ _ _).trans (along.append_left _)

/-- Every section is written once, or passed over for having nothing to show. -/
theorem sectionBlocks_perm (options : Options) (done : List String) (members : List Member) :
    ∃ passed, (∀ entry ∈ passed, entry.isShown options = false) ∧
      (writtenIn (sectionBlocks options done members) ++ passed).Perm
        (unclaimed done (entriesOf members)) := by
  induction members generalizing done with
  | nil => exact ⟨[], fun _ member => absurd member List.not_mem_nil, .refl _⟩
  | cons member later hypothesis =>
      rw [sectionBlocks]
      obtain ⟨passed, notShown, perm⟩ :=
        @memberBlocks_perm options done [] (entriesOf later) member.entries
      obtain ⟨passedLater, notShownLater, further⟩ := hypothesis
        (done ++ headingsOf (memberBlocks options (entriesOf later) done [] member.entries))
      refine ⟨passed ++ passedLater, List.forall_mem_append.2 ⟨notShown, notShownLater⟩, ?_⟩
      rw [List.append_nil, List.nil_append] at perm
      rw [writtenIn_append, List.append_assoc, entriesOf_cons, unclaimed_append]
      refine .trans (.append_left _ ?_) perm
      exact (List.perm_append_comm_assoc _ _ _).trans (further.append_left _)

/-! ## The headings of blocks -/

/-- A block has a heading that is not excluded, and sections of that name. -/
structure SectionBlock.IsProper (options : Options) (block : SectionBlock) : Prop where
  notExcluded : options.isExcluded block.heading = false
  named : ∀ entry ∈ block.entries, entry.heading = block.heading

/-- The blocks of a member are proper. -/
theorem isProper_memberBlocks
    (member : block ∈ memberBlocks options later done here own) :
    block.IsProper options := by
  induction own generalizing here with
  | nil => exact absurd member List.not_mem_nil
  | cons entry rest hypothesis =>
      rw [memberBlocks] at member
      split at member
      · rename_i opens
        rcases List.mem_cons.1 member with rfl | further
        · have shown := (Bool.and_eq_true_iff.1 opens).2
          refine ⟨by simpa using (Bool.and_eq_true_iff.1 shown).2, ?_⟩
          intro other inBlock
          rcases List.mem_cons.1 inBlock with rfl | along
          · rfl
          · exact (mem_broughtAlong.1 along).2.2
        · exact hypothesis further
      · exact hypothesis member

/-- The blocks of all members are proper. -/
theorem isProper_sectionBlocks (member : block ∈ sectionBlocks options done members) :
    block.IsProper options := by
  induction members generalizing done with
  | nil => exact absurd member List.not_mem_nil
  | cons first later hypothesis =>
      rcases List.mem_append.1 member with own | further
      · exact isProper_memberBlocks own
      · exact hypothesis further

/-- An entry has no heading of its own. -/
@[simp] theorem headings_entryCalls (voice : Voice) (grouped : Bool) (entry : SectionEntry) :
    headings (entry.calls voice grouped) = [] := by
  simp [SectionEntry.calls, Call.heading?]

/-- The headings that blocks write are their own. -/
theorem headings_blockCalls (voice : Voice) (grouped : Bool) (blocks : List SectionBlock) :
    headings (blocks.flatMap (SectionBlock.calls voice grouped)) = headingsOf blocks := by
  induction blocks with
  | nil => rfl
  | cons block blocks hypothesis =>
      rw [List.flatMap_cons, headings_append, hypothesis, SectionBlock.calls, headings_cons,
        headings_flatMap (headings_entryCalls voice grouped)]
      rfl

/-! ## Which sections are written -/

/-- A member writes the headings that one of its entries opens. -/
theorem mem_headingsOf_memberBlocks :
    heading ∈ headingsOf (memberBlocks options later done here own) ↔
      ∃ opening ∈ own, opening.opens options done = true ∧ opening.heading = heading := by
  induction own generalizing here with
  | nil => simp [memberBlocks, headingsOf]
  | cons entry rest hypothesis =>
      rw [memberBlocks, List.exists_mem_cons_iff]
      cases opens : entry.opens options done with
      | false =>
          rw [if_neg Bool.false_ne_true, hypothesis]
          simp
      | true =>
          rw [if_pos rfl, headingsOf_cons, List.mem_cons, hypothesis]
          exact or_congr_left ⟨fun same => ⟨rfl, same.symm⟩, fun both => both.2.symm⟩

/-- Of the sections of a declaration those are written that open a heading, and with them the
later ones under their headings. -/
theorem mem_writtenIn_memberBlocks :
    entry ∈ writtenIn (memberBlocks options later done here own) ↔
      (entry ∈ own ∧ entry.opens options done = true) ∨
        (entry ∈ later ∧ entry.heading ∉ here ∧
          entry.heading ∈ headingsOf (memberBlocks options later done here own)) := by
  induction own generalizing here with
  | nil => simp [memberBlocks, writtenIn, headingsOf]
  | cons first rest hypothesis =>
      rw [memberBlocks]
      cases opens : first.opens options done with
      | false =>
          have others : (entry = first ∧ entry.opens options done = true) ↔ False := by
            refine iff_false_intro ?_
            rintro ⟨rfl, isOpening⟩
            rw [opens] at isOpening
            exact Bool.false_ne_true isOpening
          rw [if_neg Bool.false_ne_true, hypothesis, List.mem_cons, or_and_right, others, false_or]
      | true =>
          have isFirst : (entry = first ∧ entry.opens options done = true) ↔ entry = first :=
            and_iff_left_of_imp fun same => same ▸ opens
          rw [if_pos rfl, writtenIn_cons, headingsOf_cons, List.mem_append, List.mem_cons,
            hypothesis, mem_broughtAlong, List.mem_cons, or_and_right, isFirst, List.mem_cons,
            List.mem_append, List.mem_singleton]
          grind

/-- An earlier declaration than that of a section opens its heading. -/
def FollowsOpening (options : Options) (members : List Member) (entry : SectionEntry) : Prop :=
  ∃ earlier member later, members = earlier ++ member :: later ∧ entry ∈ entriesOf later ∧
    ∃ opening ∈ member.entries,
      opening.isShown options = true ∧ opening.heading = entry.heading

/-- What follows an opening is an entry of some member. -/
theorem FollowsOpening.mem (follows : FollowsOpening options members entry) :
    entry ∈ entriesOf members := by
  obtain ⟨earlier, member, later, rfl, inLater, -⟩ := follows
  rw [entriesOf, List.flatMap_append, List.flatMap_cons]
  exact List.mem_append_right _ (List.mem_append_right _ inLater)

theorem followsOpening_cons {later : List Member} :
    FollowsOpening options (member :: later) entry ↔
      (entry ∈ entriesOf later ∧ ∃ opening ∈ member.entries,
          opening.isShown options = true ∧ opening.heading = entry.heading) ∨
        FollowsOpening options later entry := by
  constructor
  · rintro ⟨earlier, opener, after, split, further⟩
    cases earlier with
    | nil =>
        obtain ⟨rfl, rfl⟩ := List.cons.inj split
        exact .inl further
    | cons first earlier =>
        obtain ⟨rfl, rfl⟩ := List.cons.inj split
        exact .inr ⟨earlier, opener, after, rfl, further⟩
  · rintro (here | ⟨earlier, opener, after, rfl, further⟩)
    · exact ⟨[], member, later, rfl, here⟩
    · exact ⟨member :: earlier, opener, after, rfl, further⟩

/-- A member writes the heading of an entry just if it shows one under it. -/
theorem mem_headingsOf_iff_isShown (fresh : entry.heading ∉ done) :
    entry.heading ∈ headingsOf (memberBlocks options later done here own) ↔
      ∃ opening ∈ own, opening.isShown options = true ∧ opening.heading = entry.heading := by
  rw [mem_headingsOf_memberBlocks]
  refine exists_congr fun opening => and_congr_right fun _ => and_congr_left fun same => ?_
  rw [SectionEntry.opens_of_not_mem (same ▸ fresh)]

/-- The sections that are written are those to be shown and those that follow a section which
opens their heading. -/
theorem mem_writtenIn_sectionBlocks :
    entry ∈ writtenIn (sectionBlocks options done members) ↔
      entry.heading ∉ done ∧
        ((entry ∈ entriesOf members ∧ entry.isShown options = true) ∨
          FollowsOpening options members entry) := by
  induction members generalizing done with
  | nil =>
      refine iff_of_false List.not_mem_nil ?_
      rintro ⟨-, ⟨inNone, -⟩ | follows⟩
      · exact List.not_mem_nil inNone
      · exact List.not_mem_nil follows.mem
  | cons member later hypothesis =>
      have isLater : FollowsOpening options later entry -> entry ∈ entriesOf later :=
        FollowsOpening.mem
      rw [sectionBlocks, writtenIn_append, List.mem_append, mem_writtenIn_memberBlocks, hypothesis,
        followsOpening_cons, entriesOf_cons, List.mem_append, List.mem_append]
      by_cases claimed : entry.heading ∈ done
      · have unopened :
            entry.heading ∉
              headingsOf (memberBlocks options (entriesOf later) done [] member.entries) := by
          rw [mem_headingsOf_memberBlocks]
          rintro ⟨opening, -, opens, same⟩
          rw [SectionEntry.opens_of_mem (same ▸ claimed)] at opens
          exact Bool.false_ne_true opens
        rw [SectionEntry.opens_of_mem claimed]
        simp [claimed, unopened]
      · rw [mem_headingsOf_iff_isShown claimed, SectionEntry.opens_of_not_mem claimed]
        grind

/-! ## Whole pages -/

/-- The named sections of a page are its blocks, and stand between sections with fixed
headings. -/
theorem compose_eq_blocks
    (context : Context)
    (pages : List ManualPage)
    (base : Nat)
    (title : Option String)
    (manualSection : String) :
    ∃ before after,
      (compose context pages base title manualSection).2 =
        before ++ (pageBlocks context.options pages base).flatMap
          (SectionBlock.calls context.voice (isGrouped context.options pages)) ++ after ∧
      (headings before).Sublist ["SYNOPSIS", "PARAMETERS", "DESCRIPTION", "RETURNS"] ∧
      (headings after).Sublist ["SEE ALSO"] := by
  have alone : isGrouped context.options pages = true ∨
      (pageMembers context.options pages base).length ≤ 1 := by
    cases grouped : isGrouped context.options pages with
    | true => exact .inl rfl
    | false => exact .inr (length_pageMembers grouped base)
  obtain ⟨before, after, written, fixed⟩ :=
    compose_eq_namedSections context pages base title manualSection
  rw [namedSections_eq alone] at written
  exact ⟨before, after, written, fixed⟩

/-- A page writes its named sections in blocks between the fixed sections, each block under a
heading of its own that is not excluded and that is the name of all its sections.  Of the
sections of its declarations every one is written once or passed over, and none is passed over
that speaks and is not excluded. -/
theorem compose_shows_sections
    (context : Context)
    (pages : List ManualPage)
    (base : Nat)
    (title : Option String)
    (manualSection : String) :
    ∃ before after passed,
      (compose context pages base title manualSection).2 =
        before ++ (pageBlocks context.options pages base).flatMap
          (SectionBlock.calls context.voice (isGrouped context.options pages)) ++ after ∧
      (headings before).Sublist ["SYNOPSIS", "PARAMETERS", "DESCRIPTION", "RETURNS"] ∧
      (headings after).Sublist ["SEE ALSO"] ∧
      headings (compose context pages base title manualSection).2 =
        headings before ++ headingsOf (pageBlocks context.options pages base) ++ headings after ∧
      (∀ block ∈ pageBlocks context.options pages base, block.IsProper context.options) ∧
      (writtenIn (pageBlocks context.options pages base) ++ passed).Perm
        (entriesOf (pageMembers context.options pages base)) ∧
      ∀ entry ∈ passed, entry.isShown context.options = false := by
  obtain ⟨before, after, written, fixedBefore, fixedAfter⟩ :=
    compose_eq_blocks context pages base title manualSection
  obtain ⟨passed, notShown, once⟩ :=
    sectionBlocks_perm context.options [] (pageMembers context.options pages base)
  rw [unclaimed_nil] at once
  refine ⟨before, after, passed, written, fixedBefore, fixedAfter, ?_, ?_, once, notShown⟩
  · rw [written, headings_append, headings_append, headings_blockCalls]
  · exact fun _ member => isProper_sectionBlocks member

/-- On a page of several declarations a section that has no text or says "none" is written
exactly if an earlier declaration opens its heading; on other pages it never is. -/
theorem compose_shows_silent_sections
    (context : Context)
    (pages : List ManualPage)
    (base : Nat)
    (title : Option String)
    (manualSection : String) :
    (∃ before after,
      (compose context pages base title manualSection).2 =
        before ++ (pageBlocks context.options pages base).flatMap
          (SectionBlock.calls context.voice (isGrouped context.options pages)) ++ after ∧
      (headings before).Sublist ["SYNOPSIS", "PARAMETERS", "DESCRIPTION", "RETURNS"] ∧
      (headings after).Sublist ["SEE ALSO"]) ∧
    (∀ entry : SectionEntry, entry.speaks = false ->
      (entry ∈ writtenIn (pageBlocks context.options pages base) ↔
        FollowsOpening context.options (pageMembers context.options pages base) entry)) ∧
    (isGrouped context.options pages = false ->
      ∀ entry ∈ writtenIn (pageBlocks context.options pages base), entry.speaks = true) := by
  have silentIff (entry : SectionEntry) (silent : entry.speaks = false) :
      entry ∈ writtenIn (pageBlocks context.options pages base) ↔
        FollowsOpening context.options (pageMembers context.options pages base) entry := by
    have notShown : entry.isShown context.options = false := by
      rw [SectionEntry.isShown, silent, Bool.false_and]
    rw [pageBlocks, mem_writtenIn_sectionBlocks, notShown]
    simp
  refine ⟨compose_eq_blocks context pages base title manualSection, silentIff, ?_⟩
  intro single entry written
  by_contra noText
  obtain ⟨earlier, member, later, split, inLater, -⟩ :=
    (silentIff entry (Bool.eq_false_iff.2 noText)).1 written
  have bound := length_pageMembers single base
  rw [split, List.length_append, List.length_cons] at bound
  obtain rfl := List.length_eq_zero_iff.1 (show later.length = 0 by omega)
  exact List.not_mem_nil inLater

/-- The page of a function with a comment. -/
def commentedPage (name comment : String) : ManualPage where
  spec := { text := some "int" }
  declarator := { Declarator.function (.identifier name) [] with comment := some comment }

/-- Three functions with notes, of which the second says "none" and the third says nothing. -/
def notedPages : List ManualPage :=
  [commentedPage "f" "F.\n\nNotes:\nReal.", commentedPage "g" "G.\n\nNotes:\nNone.",
    commentedPage "h" "H.\n\nNotes:\n"]

/-- A run that writes the three functions on one page, with their comments as they stand. -/
def notedContext : Context where
  options := { groupTogether := true, fixupComments := false }
  enums := default

/-- The notes of the second function are written, since the first has notes. -/
theorem compose_shows_silent_sections_noted :
    ∃ entry : SectionEntry, entry.text = some "None." ∧ entry.speaks = false ∧
      entry ∈ writtenIn (pageBlocks notedContext.options notedPages 0) := by
  let first := Member.ofPage false (commentedPage "f" "F.\n\nNotes:\nReal.")
  let second := Member.ofPage false (commentedPage "g" "G.\n\nNotes:\nNone.")
  let third := Member.ofPage false (commentedPage "h" "H.\n\nNotes:\n")
  have members : pageMembers notedContext.options notedPages 0 = [] ++ first :: [second, third] :=
    rfl
  have firstNotes : ("NOTES", some "Real.") ∈ first.sections := by decide +kernel
  have secondNotes : ("NOTES", some "None.") ∈ second.sections := by decide +kernel
  have opens : (first.entry ("NOTES", some "Real.")).isShown notedContext.options = true := by
    decide +kernel
  have silent : (second.entry ("NOTES", some "None.")).speaks = false := by decide +kernel
  have follows : FollowsOpening notedContext.options
      (pageMembers notedContext.options notedPages 0) (second.entry ("NOTES", some "None.")) := by
    refine ⟨[], first, [second, third], members, ?_, first.entry ("NOTES", some "Real."), ?_,
      opens, ?_⟩
    · rw [entriesOf_cons]
      exact List.mem_append_left _ (List.mem_map_of_mem secondNotes)
    · exact List.mem_map_of_mem firstNotes
    · show "NOTES" = "NOTES"
      rfl
  exact ⟨second.entry ("NOTES", some "None."), rfl, silent,
    ((compose_shows_silent_sections notedContext notedPages 0 none "3").2.1 _ silent).2 follows⟩

/-- In a group, sections that say "none" and sections without a text are written. -/
theorem compose_writes_none :
    (pageMembers notedContext.options notedPages 0).map Member.sections =
        [[("NOTES", some "Real.")], [("NOTES", some "None.")], [("NOTES", none)]] ∧
      saysNone "None." = true ∧
      [.subheading "g", .text "None.", .character '\n',
        .subheading "h", .text "Not Documented.", .character '\n'] <:+:
          (compose notedContext notedPages 0 none "3").2 := by
  decide +kernel

end Page
end DeclManual
