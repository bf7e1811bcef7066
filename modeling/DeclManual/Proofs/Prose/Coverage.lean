import DeclManual.Proofs.Prose.Ranges

/-!
# No prose is lost where headings do not repeat

Every character of a comment that is not blank stands in the text of a part, in a heading or
in a leading name, or in a text whose place a later heading gives to a text of its own.
-/

namespace DeclManual
namespace Prose

variable
  {comment : List Char} {identifier : String} {wantTerse : Bool} {place : Nat} {c : Char}
  {line first : Line} {lines body : List Line} {range : Range}

/-- A position stands in a range. -/
def Range.Holds (range : Range) (place : Nat) : Prop :=
  range.start ≤ place ∧ place < range.stop

instance (range : Range) (place : Nat) : Decidable (range.Holds place) :=
  inferInstanceAs (Decidable (_ ∧ _))

/-- The words of a heading and its colon. -/
def Line.headingRange (line : Line) : Range where
  start := line.start
  stop := line.start + line.word.length + if line.afterWord.isEmpty then 0 else 1

/-- A position stands in a leading name, right before a text. -/
def InLeadingName (comment : List Char) (range : Range) (place : Nat) : Prop :=
  ∃ start ≤ place, place < range.start ∧
    IsLeadingName ((comment.drop start).take (range.start - start))

/-- A text of the first part takes the place of one of the second. -/
def Part.replaces : Part → Part → Bool
  | .terse, .terse => true
  | .description _, .description _ => true
  | .returns, .returns => true
  | _, _ => false

/-! ## Lines of a passage -/

theorem firstText?_le
    (order : InOrder body)
    (listed : line ∈ body)
    (nonempty : line.content.isEmpty = false) :
    ∃ start ≤ line.start, firstText? body = some start := by
  induction body with
  | nil => exact absurd listed List.not_mem_nil
  | cons head rest hypothesis =>
      obtain ⟨before, order⟩ := List.pairwise_cons.1 order
      rw [firstText?_cons]
      rcases List.mem_cons.1 listed with rfl | later
      · exact ⟨line.start, Nat.le_refl _, by rw [nonempty, if_neg Bool.false_ne_true]⟩
      · cases head.content.isEmpty with
        | true =>
            obtain ⟨start, less, found⟩ := hypothesis order later
            exact ⟨start, less, by rw [if_pos rfl, found]⟩
        | false =>
            refine ⟨head.start, ?_, by rw [if_neg Bool.false_ne_true]⟩
            have := before line later
            have := start_le_stop head
            omega

theorem nonempty_of_inside (starts : line.start ≤ place) (inside : place < line.stop) :
    line.content.isEmpty = false := by
  rw [List.isEmpty_eq_false_iff]
  rintro none
  rw [Line.stop, none, List.length_nil] at inside
  omega

/-- The text of a passage holds its lines, the first one from where its text starts. -/
theorem textRange?_holds
    {start : Option Nat}
    (order : InOrder (first :: body))
    (inFirst : ∀ place, start = some place → place < first.stop)
    (listed : line ∈ first :: body)
    (starts : line.start ≤ place)
    (inside : place < line.stop)
    (onFirst : line = first → ∃ start' ≤ place, start = some start') :
    ∃ range, textRange? start first.stop body = some range ∧ range.Holds place := by
  obtain ⟨before, orderBody⟩ := List.pairwise_cons.1 order
  have reached : ∃ start' ≤ place, start.or (firstText? body) = some start' := by
    cases isStart : start with
    | some found =>
        refine ⟨found, ?_, Option.some_or⟩
        rcases List.mem_cons.1 listed with rfl | later
        · obtain ⟨start', less, same⟩ := onFirst rfl
          rw [← Option.some.inj (same.symm.trans isStart)]
          exact less
        · have := inFirst found isStart
          have := before line later
          omega
    | none =>
        rcases List.mem_cons.1 listed with rfl | later
        · obtain ⟨start', -, same⟩ := onFirst rfl
          rw [isStart] at same
          contradiction
        · obtain ⟨start', less, found⟩ :=
            firstText?_le orderBody later (nonempty_of_inside starts inside)
          exact ⟨start', Nat.le_trans less starts, found⟩
  have reaches : place < lastText first.stop body := by
    rcases List.mem_cons.1 listed with rfl | later
    · exact Nat.lt_of_lt_of_le inside (le_lastText before)
    · exact Nat.lt_of_lt_of_le inside
        (stop_le_lastText orderBody later (nonempty_of_inside starts inside))
  obtain ⟨start', less, found⟩ := reached
  exact ⟨_, Option.map_eq_some_iff.2 ⟨start', found, rfl⟩, less,
    Nat.lt_of_lt_of_le reaches (Nat.le_max_left _ _)⟩

/-- What a leading name takes from a text. -/
theorem holds_pastName
    (spans : range.Spans (linesOf comment))
    (holds : range.Holds place) :
    (range.pastName comment).Holds place ∨
      InLeadingName comment (range.pastName comment) place := by
  rcases Nat.lt_or_ge place (range.pastName comment).start with before | past
  · refine .inr ⟨range.start, holds.1, before, ?_⟩
    have started : (comment.drop range.start).head? ≠ some '\n' := by
      rw [List.head?_drop]
      exact spans.isText.2.2.1
    have skips : skipDash (comment.drop range.start) ≠ 0 := by
      intro none
      rw [Range.pastName, none] at before
      exact absurd before (Nat.not_lt_of_le holds.1)
    obtain ⟨lead, c, after, parts, length, -, name⟩ := exists_leadingName started skips
    have start : (range.pastName comment).start - range.start = lead.length := by
      rw [← length, Range.pastName]
      exact Nat.add_sub_cancel_left _ _
    rw [start, parts, List.take_left]
    exact name
  · exact .inl ⟨past, Nat.lt_of_lt_of_le holds.2 (Nat.le_max_left _ _)⟩

/-! ## Headings -/

theorem isShaped_of_isHeading {afterBlank : Bool} (heading : line.isHeading afterBlank = true) :
    line.isShaped = true := by
  rw [Line.isHeading, Bool.and_eq_true, Bool.and_eq_true] at heading
  exact heading.1.2

/-- After the words of a heading nothing follows, or a colon. -/
theorem afterWord_of_isShaped (shaped : line.isShaped = true) :
    line.afterWord = [] ∨ ∃ rest, line.afterWord = ':' :: rest := by
  unfold Line.isShaped at shaped
  dsimp only at shaped
  split at shaped
  · rename_i none
    exact .inl none
  · rename_i rest colon
    exact .inr ⟨rest, colon⟩
  · contradiction

/-- Text on a line starts no later than at a character that is not blank. -/
theorem textFrom?_le
    {offset : Nat}
    (stands : line.StandsIn comment)
    (isAt : comment[place]? = some c)
    (noBlank : Text.isAsciiBlank c = false)
    (after : line.start + offset ≤ place)
    (inside : place < line.stop) :
    ∃ start ≤ place, line.textFrom? offset = some start := by
  obtain ⟨further, rfl⟩ := Nat.exists_eq_add_of_le (Nat.le_of_add_right_le after)
  rw [stands.getElem? further (Nat.lt_of_add_lt_add_left inside)] at isAt
  have later : offset ≤ further := Nat.le_of_add_le_add_left after
  cases found : line.textFrom? offset with
  | none =>
      rw [isAsciiBlank_of_textFrom?_eq_none found later isAt] at noBlank
      contradiction
  | some start =>
      refine ⟨start, Nat.le_of_not_lt fun before => ?_, rfl⟩
      rw [(textFrom?_eq_some found).2.2 further c later before isAt] at noBlank
      contradiction

/-- What stands on the line of a heading after its colon belongs to its text. -/
theorem exists_textAfterHeading
    (stands : line.StandsIn comment)
    (shaped : line.isShaped = true)
    (isAt : comment[place]? = some c)
    (noBlank : Text.isAsciiBlank c = false)
    (starts : line.start ≤ place)
    (inside : place < line.stop) :
    line.headingRange.Holds place ∨ ∃ start ≤ place, line.textAfterHeading? = some start := by
  have length : line.content.length = line.word.length + line.afterWord.length := by
    rw [← List.length_append, ← content_eq_word_append]
  rcases afterWord_of_isShaped shaped with none | ⟨rest, colon⟩
  · refine .inl ⟨starts, ?_⟩
    rw [Line.headingRange, none]
    rw [Line.stop, length, none] at inside
    exact inside
  · rcases Nat.lt_or_ge place (line.start + (line.word.length + 1)) with before | after
    · refine .inl ⟨starts, ?_⟩
      rw [Line.headingRange, colon]
      exact before
    · refine .inr ?_
      rw [Line.textAfterHeading?, colon]
      exact textFrom?_le stands isAt noBlank after inside

/-- Every character of a heading and its lines stands in the heading, in the text of its
passage, or in a leading name before that text. -/
theorem headedPassage_holds
    (identifier : String)
    (wantTerse : Bool)
    {heading : Line × List Line}
    (stands : ∀ line ∈ sectionLines heading, line ∈ linesOf comment)
    (order : InOrder (sectionLines heading))
    {afterBlank : Bool}
    (isHeading : heading.1.isHeading afterBlank = true)
    (listed : line ∈ sectionLines heading)
    (isAt : comment[place]? = some c)
    (noBlank : Text.isAsciiBlank c = false)
    (starts : line.start ≤ place)
    (inside : place < line.stop) :
    heading.1.headingRange.Holds place ∨
      ∃ range, (headedPassage comment identifier wantTerse heading).text = some range ∧
        (range.Holds place ∨
          (headedPassage comment identifier wantTerse heading).part = .terse ∧
            InLeadingName comment range place) := by
  have nonempty := isEmpty_of_isHeading isHeading
  by_cases inHeading : heading.1.headingRange.Holds place
  · exact .inl inHeading
  refine .inr ?_
  have inFirst (place : Nat) (found : heading.1.textAfterHeading? = some place) :=
    textAfterHeading?_inside found
  have onFirst (same : line = heading.1) :
      ∃ start ≤ place, heading.1.textAfterHeading? = some start := by
    subst same
    exact (exists_textAfterHeading (standsIn_of_mem_linesOf (stands _ List.mem_cons_self))
      (isShaped_of_isHeading isHeading) isAt noBlank starts inside).resolve_left inHeading
  obtain ⟨range, text, holds⟩ := textRange?_holds order (fun place found => (inFirst place found).2)
    listed starts inside onFirst
  unfold headedPassage
  dsimp only
  rw [text]
  split
  · rename_i isTerse
    refine ⟨range.pastName comment, rfl, ?_⟩
    have spans := (textRange?_spans order nonempty inFirst text).1.mono stands
    exact (holds_pastName spans holds).imp_right fun inName => ⟨isTerse, inName⟩
  · exact ⟨range, rfl, .inl holds⟩

/-- The first sentence of a comment stands in its terse line, or in a leading name before it. -/
theorem terseRange_holds
    (stands : first.StandsIn comment)
    (atStart : first.start = 0)
    (sentence : place < sentenceLength first.ended first.content) :
    first.terseRange.Holds place ∨ InLeadingName comment first.terseRange place := by
  rcases Nat.lt_or_ge place first.terseRange.start with before | past
  · refine .inr ⟨0, Nat.zero_le _, before, ?_⟩
    unfold Line.terseRange at before ⊢
    dsimp only at before ⊢
    split at before
    · rename_i short
      obtain ⟨after, isDrop, -⟩ := stands.drop_start
      have started : first.content.head? ≠ some '\n' :=
        fun isHead => stands.noNewline (List.mem_of_head? isHead)
      obtain ⟨lead, c, rest, parts, length, -, name⟩ :=
        exists_leadingName started (Nat.ne_of_gt (Nat.lt_of_le_of_lt (Nat.zero_le _) before))
      rw [if_pos short, Nat.sub_zero, length, ← atStart, isDrop, parts, List.append_assoc,
        List.take_left]
      exact name
    · exact absurd before (Nat.not_lt_zero _)
  · exact .inl ⟨past, sentence⟩

/-- Every character before the first heading stands in a text, or in a leading name. -/
theorem openingPassages_holds
    (wantTerse : Bool)
    (stands : ∀ line ∈ first :: body, line ∈ linesOf comment)
    (atStart : first.start = 0)
    (order : InOrder (first :: body))
    (nonempty : first.content.isEmpty = false)
    (listed : line ∈ first :: body)
    (isAt : comment[place]? = some c)
    (noBlank : Text.isAsciiBlank c = false)
    (starts : line.start ≤ place)
    (inside : place < line.stop) :
    ∃ passage ∈ openingPassages wantTerse (first :: body), ∃ range, passage.text = some range ∧
      (range.Holds place ∨ passage.part = .terse ∧ InLeadingName comment range place) := by
  have standsFirst := standsIn_of_mem_linesOf (stands first List.mem_cons_self)
  rw [openingPassages, nonempty, if_neg Bool.false_ne_true]
  cases wantTerse with
  | false =>
      have inFirst (place : Nat) (isStart : some 0 = some place) : place < first.stop := by
        have := start_lt_stop nonempty
        rw [← Option.some.inj isStart]
        omega
      obtain ⟨range, text, holds⟩ := textRange?_holds order inFirst listed starts inside
        fun _ => ⟨0, Nat.zero_le _, rfl⟩
      exact ⟨_, List.mem_singleton_self _, range, text, .inl holds⟩
  | true =>
      rw [if_pos rfl]
      by_cases sentence : line = first ∧ place < sentenceLength first.ended first.content
      · exact ⟨_, List.mem_cons_self, first.terseRange, rfl,
          (terseRange_holds standsFirst atStart sentence.2).imp_right fun inName => ⟨rfl, inName⟩⟩
      · have onFirst (same : line = first) :
            ∃ start ≤ place,
              first.textFrom? (sentenceLength first.ended first.content) = some start := by
          subst same
          have past := Nat.le_of_not_lt fun short => sentence ⟨rfl, short⟩
          exact textFrom?_le standsFirst isAt noBlank (by omega) inside
        obtain ⟨range, text, holds⟩ := textRange?_holds order
          (fun place found => (textFrom?_inside found).2) listed starts inside onFirst
        exact ⟨_, List.mem_cons_of_mem _ (List.mem_singleton_self _), range, text, .inl holds⟩

theorem nonempty_of_linesOf_eq_cons
    (started : comment.head? ≠ some '\n')
    (isLines : linesOf comment = first :: lines) :
    first.content.isEmpty = false := by
  have stands : first.StandsIn comment :=
    standsIn_of_mem_linesOf (by rw [isLines]; exact List.mem_cons_self)
  obtain ⟨after, isDrop, ends⟩ := stands.drop_start
  rw [start_of_linesOf_eq_cons isLines, List.drop_zero] at isDrop
  rw [List.isEmpty_eq_false_iff]
  intro none
  rw [none, List.nil_append] at isDrop
  split at ends
  · exact started (isDrop ▸ ends)
  · exact ends.2 none

/-- In a comment that does not begin with a newline, every character that is not blank stands
in a heading, in the text of a passage, or in a leading name before it. -/
theorem passages_hold
    (identifier : String)
    (wantTerse : Bool)
    (started : comment.head? ≠ some '\n')
    (isAt : comment[place]? = some c)
    (noBlank : Text.isAsciiBlank c = false) :
    (∃ heading, IsHeadingIn (linesOf comment) true heading ∧ heading.headingRange.Holds place) ∨
      ∃ passage ∈ passages comment identifier wantTerse, ∃ range, passage.text = some range ∧
        (range.Holds place ∨ passage.part = .terse ∧ InLeadingName comment range place) := by
  have noNewline : c ≠ '\n' := by
    rintro rfl
    exact absurd noBlank (by decide)
  obtain ⟨line, listed, starts, inside⟩ := exists_mem_linesOf isAt noNewline
  have headings := fun heading => @isHeadingIn_of_mem_cutAtHeadings (linesOf comment) true heading
  have lines := cutAtHeadings_append true (linesOf comment)
  rw [passages]
  generalize cutAtHeadings true (linesOf comment) = cut at lines headings
  obtain ⟨opening, sections⟩ := cut
  dsimp only at lines headings ⊢
  have order : InOrder (opening ++ sections.flatMap sectionLines) :=
    lines ▸ pairwise_linesOf comment
  obtain ⟨orderOpening, orderSections, -⟩ := List.pairwise_append.1 order
  have inOpening : opening ⊆ linesOf comment := fun line isListed =>
    lines ▸ List.mem_append_left _ isListed
  rw [← lines] at listed
  rcases List.mem_append.1 listed with inFront | inRest
  · cases opening with
    | nil => exact absurd inFront List.not_mem_nil
    | cons first body =>
        have nonempty := nonempty_of_linesOf_eq_cons started lines.symm
        obtain ⟨passage, isPassage, range, text, holds⟩ :=
          openingPassages_holds wantTerse inOpening
            (start_of_linesOf_eq_cons lines.symm) orderOpening nonempty inFront isAt noBlank starts
            inside
        exact .inr ⟨passage, List.mem_append_left _ isPassage, range, text, holds⟩
  · obtain ⟨heading, isSection, inSection⟩ := List.mem_flatMap.1 inRest
    obtain ⟨before, after, isLines, isHeading⟩ := headings heading isSection
    rcases headedPassage_holds identifier wantTerse
        (fun line inLines => lines ▸
          List.mem_append_right _ (List.mem_flatMap.2 ⟨heading, isSection, inLines⟩))
        ((List.pairwise_flatMap.1 orderSections).1 heading isSection) isHeading inSection isAt
        noBlank starts inside with inHeading | ⟨range, text, holds⟩
    · exact .inl ⟨heading.1, ⟨before, after, isLines, isHeading⟩, inHeading⟩
    · exact .inr ⟨_, List.mem_append_right _ (List.mem_map_of_mem isSection), range, text, holds⟩

/-! ## Parts -/

/-- A part of a page has a text. -/
def PartsOf.Has (parts : PartsOf Range) (range : Range) : Part → Prop
  | .terse => parts.terse = some range
  | .description _ => parts.description = some range
  | .returns => parts.returns = some range
  | .named heading => (heading, some range) ∈ parts.sections

theorem PartsOf.Has.mem_texts {parts : PartsOf Range} {part : Part} (has : parts.Has range part) :
    range ∈ parts.texts := by
  unfold PartsOf.texts
  cases part with
  | terse => simp [show parts.terse = some range from has]
  | description explicit => simp [show parts.description = some range from has]
  | returns => simp [show parts.returns = some range from has]
  | named heading =>
      refine List.mem_append_right _ (List.mem_filterMap.2 ⟨_, has, rfl⟩)

theorem has_place (parts : PartsOf Range) (part : Part) (range : Range) :
    (parts.place { part, text := some range }).Has range part := by
  cases part with
  | named heading => exact List.mem_append_right _ (List.mem_singleton_self _)
  | terse => rfl
  | description explicit => rfl
  | returns => rfl

/-- A text keeps its place unless another one takes it. -/
theorem has_place_of_has
    {parts : PartsOf Range}
    {part : Part}
    (has : parts.Has range part)
    (passage : Passage) :
    (parts.place passage).Has range part ∨
      passage.text.isSome = true ∧ passage.part.replaces part = true := by
  by_cases taken : passage.text.isSome = true ∧ passage.part.replaces part = true
  · exact .inr taken
  · obtain ⟨other, text⟩ := passage
    left
    cases other <;> cases part <;> cases text <;>
      simp_all [PartsOf.Has, PartsOf.place, Part.replaces]

theorem has_foldl_place
    {parts : PartsOf Range}
    {part : Part}
    (has : parts.Has range part)
    (passages : List Passage) :
    (passages.foldl PartsOf.place parts).Has range part ∨
      ∃ passage ∈ passages, passage.text.isSome = true ∧ passage.part.replaces part = true := by
  induction passages generalizing parts with
  | nil => exact .inl has
  | cons passage rest hypothesis =>
      rcases has_place_of_has has passage with still | replaced
      · exact (hypothesis still).imp_right fun ⟨later, listed, replaced⟩ =>
          ⟨later, List.mem_cons_of_mem _ listed, replaced⟩
      · exact .inr ⟨passage, List.mem_cons_self, replaced⟩

/-- A text of a passage whose place a later passage takes. -/
def IsReplaced (passages : List Passage) (range : Range) : Prop :=
  ∃ before passage after, passages = before ++ passage :: after ∧ passage.text = some range ∧
    ∃ later ∈ after, later.text.isSome = true ∧ later.part.replaces passage.part = true

/-- The text of a passage is the text of a part, or a later passage takes its place. -/
theorem mem_texts_or_replaced
    {passage : Passage}
    (listed : passage ∈ passages comment identifier wantTerse)
    (text : passage.text = some range) :
    range ∈ (splitRanges comment identifier wantTerse).texts ∨
      IsReplaced (passages comment identifier wantTerse) range := by
  obtain ⟨before, after, isPassages⟩ := List.append_of_mem listed
  rw [splitRanges_eq, isPassages, List.foldl_append, List.foldl_cons]
  have has : ((before.foldl PartsOf.place {}).place passage).Has range passage.part := by
    obtain ⟨part, _⟩ := passage
    obtain rfl : _ = some range := text
    exact has_place _ part range
  exact (has_foldl_place has after).imp PartsOf.Has.mem_texts fun taken =>
    ⟨before, passage, after, rfl, text, taken⟩

theorem texts_map {first second : Type} (read : first → second) (parts : PartsOf first) :
    (parts.map read).texts = parts.texts.map read := by
  unfold PartsOf.texts PartsOf.map
  rcases parts.terse with _ | terse <;> rcases parts.description with _ | description <;>
    rcases parts.returns with _ | returns <;>
      simp [List.filterMap_map, List.map_filterMap]

/-- A position of a comment that is accounted for: it stands in a text that is returned, in the
words of a heading or its colon, or in a leading name before the text of a terse line. -/
inductive IsKept
    (comment identifier : String)
    (wantTerse : Bool)
    (place : Nat) : Prop where
  | text
      (range : Range)
      (isText : range ∈ (splitRanges comment.toList identifier wantTerse).texts)
      (holds : range.Holds place)
      (returned : String.ofList (range.slice comment.toList) ∈
        (splitComment comment identifier wantTerse).texts)
  | heading
      (line : Line)
      (isHeading : IsHeadingIn (linesOf comment.toList) true line)
      (holds : line.headingRange.Holds place)
  | leadingName
      (passage : Passage)
      (listed : passage ∈ passages comment.toList identifier wantTerse)
      (isTerse : passage.part = .terse)
      (range : Range)
      (text : passage.text = some range)
      (inName : InLeadingName comment.toList range place)

/-- Splitting a comment loses no prose but what a later heading replaces.  In a comment that
does not begin with a newline, every character that is not blank is accounted for, or it stands
in a text of the terse line, the description or the returns whose place is taken by the text of
a later passage of the same part. -/
theorem splitComment_keeps_prose
    (comment identifier : String)
    (wantTerse : Bool)
    (started : comment.toList.head? ≠ some '\n')
    {place : Nat}
    {c : Char}
    (isAt : comment.toList[place]? = some c)
    (noBlank : Text.isAsciiBlank c = false) :
    IsKept comment identifier wantTerse place ∨
      ∃ range, IsReplaced (passages comment.toList identifier wantTerse) range ∧
        range.Holds place := by
  rcases passages_hold identifier wantTerse started isAt noBlank with
    ⟨heading, isHeading, inHeading⟩ |
      ⟨passage, listed, range, text, holds | ⟨isTerse, inName⟩⟩
  · exact .inl (.heading heading isHeading inHeading)
  · rcases mem_texts_or_replaced listed text with isText | replaced
    · refine .inl (.text range isText holds ?_)
      rw [splitComment, texts_map]
      exact List.mem_map_of_mem isText
    · exact .inr ⟨range, replaced, holds⟩
  · exact .inl (.leadingName passage listed isTerse range text inName)

/-- A comment that says twice what is returned. -/
def returnedTwice : String :=
  "copy - copies text.\n\nRETURNS:\nthe length\n\nNotes: none\n\nReturn:\nthe count"

/-- The first text of the returns is replaced by the second one. -/
theorem splitComment_keeps_prose_returnedTwice :
    returnedTwice.toList.head? ≠ some '\n' ∧ returnedTwice.toList[34]? = some 'l' ∧
    Text.isAsciiBlank 'l' = false ∧
    (IsKept returnedTwice "copy" true 34 ∨
      ∃ range, IsReplaced (passages returnedTwice.toList "copy" true) range ∧
        range.Holds 34) :=
  ⟨by decide, by decide, by decide,
    splitComment_keeps_prose returnedTwice "copy" true (by decide) (c := 'l') (by decide)
      (by decide)⟩

/-- The first text of the returns stands in no text that is returned, in no heading and in no
leading name. -/
theorem returnedTwice_loses_prose :
    returnedTwice.toList.head? ≠ some '\n' ∧ returnedTwice.toList[34]? = some 'l' ∧
    Text.isAsciiBlank 'l' = false ∧ ¬ IsKept returnedTwice "copy" true 34 := by
  refine ⟨by decide, by decide, by decide, ?_⟩
  have texts : ∀ range ∈ (splitRanges returnedTwice.toList "copy" true).texts,
      ¬ range.Holds 34 := by
    decide
  have headings : ∀ line ∈ linesOf returnedTwice.toList, line.isShaped = true →
      ¬ line.headingRange.Holds 34 := by
    decide
  have terse : ∀ passage ∈ passages returnedTwice.toList "copy" true, passage.part = .terse →
      passage.text.all (fun range => range.start ≤ 34) = true := by
    decide
  intro kept
  cases kept with
  | text range isText holds _ => exact texts range isText holds
  | heading line isHeading holds =>
      obtain ⟨before, after, isLines, heading⟩ := isHeading
      exact headings line (by rw [isLines]; simp) (isShaped_of_isHeading heading) holds
  | leadingName passage listed isTerse range text inName =>
      obtain ⟨start, -, inName, -⟩ := inName
      have past := terse passage listed isTerse
      rw [text, Option.all_some, decide_eq_true_eq] at past
      omega

end Prose
end DeclManual
