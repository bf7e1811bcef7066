import DeclManual.Proofs.Prose.Dash
import DeclManual.Proofs.Prose.Passages

/-!
# Where the passages of a comment stand

The text of a passage starts and ends in lines of the comment, so it is not empty and has no
newline at either end.  The texts of the passages stand in the order of the passages, and
none of them overlap.
-/

namespace DeclManual
namespace Prose

variable
  {comment : List Char} {identifier : String} {wantTerse : Bool}
  {line first : Line} {lines body : List Line} {range : Range}

/-! ## Lines in order -/

/-- Every line ends before the next one starts. -/
def InOrder (lines : List Line) : Prop :=
  lines.Pairwise fun line next => line.stop < next.start

/-- A range starts and ends in some lines. -/
structure Range.Spans (lines : List Line) (range : Range) : Prop where
  starts : ∃ line ∈ lines, line.start ≤ range.start ∧ range.start < line.stop
  ends : ∃ line ∈ lines, line.start < range.stop ∧ range.stop ≤ line.stop
  nonempty : range.start < range.stop

namespace Range.Spans

theorem mono {further : List Line} (spans : range.Spans lines) (subset : lines ⊆ further) :
    range.Spans further where
  starts := by
    obtain ⟨line, listed, inside⟩ := spans.starts
    exact ⟨line, subset listed, inside⟩
  ends := by
    obtain ⟨line, listed, inside⟩ := spans.ends
    exact ⟨line, subset listed, inside⟩
  nonempty := spans.nonempty

/-- Ranges in lines of which all come before others do not overlap. -/
theorem le_of_before
    {other : Range}
    {further : List Line}
    (spans : range.Spans lines)
    (later : other.Spans further)
    (before : ∀ line ∈ lines, ∀ next ∈ further, line.stop < next.start) :
    range.stop ≤ other.start := by
  obtain ⟨line, listed, -, ends⟩ := spans.ends
  obtain ⟨next, listedNext, starts, -⟩ := later.starts
  have := before line listed next listedNext
  omega

end Range.Spans

/-! ## The end of a text -/

theorem start_le_stop (line : Line) : line.start ≤ line.stop :=
  Nat.le_add_right _ _

theorem start_lt_stop (nonempty : line.content.isEmpty = false) : line.start < line.stop := by
  rw [Line.stop]
  have := List.length_pos_iff.2 (List.isEmpty_eq_false_iff.1 nonempty)
  omega

/-- A text ends where its last line that is not empty does. -/
theorem lastText_mem (stop : Nat) (body : List Line) :
    lastText stop body = stop ∨
      ∃ line ∈ body, line.content.isEmpty = false ∧ lastText stop body = line.stop := by
  induction body generalizing stop with
  | nil => exact .inl rfl
  | cons line rest hypothesis =>
      rw [lastText_cons]
      cases isEmpty : line.content.isEmpty with
      | true =>
          rw [if_pos rfl]
          refine (hypothesis stop).imp_right ?_
          rintro ⟨last, listed, found⟩
          exact ⟨last, List.mem_cons_of_mem _ listed, found⟩
      | false =>
          rw [if_neg Bool.false_ne_true]
          rcases hypothesis line.stop with same | ⟨last, listed, found⟩
          · exact .inr ⟨line, List.mem_cons_self, isEmpty, same⟩
          · exact .inr ⟨last, List.mem_cons_of_mem _ listed, found⟩

theorem le_lastText {stop : Nat} (later : ∀ line ∈ body, stop < line.start) :
    stop ≤ lastText stop body := by
  rcases lastText_mem stop body with same | ⟨line, listed, -, same⟩
  · exact Nat.le_of_eq same.symm
  · have := later line listed
    have := start_le_stop line
    omega

/-- A text reaches to the end of each of its lines. -/
theorem stop_le_lastText
    {stop : Nat}
    (order : InOrder body)
    (listed : line ∈ body)
    (nonempty : line.content.isEmpty = false) :
    line.stop ≤ lastText stop body := by
  induction body generalizing stop with
  | nil => exact absurd listed List.not_mem_nil
  | cons head rest hypothesis =>
      obtain ⟨before, order⟩ := List.pairwise_cons.1 order
      rw [lastText_cons]
      rcases List.mem_cons.1 listed with rfl | later
      · rw [nonempty, if_neg Bool.false_ne_true]
        exact le_lastText before
      · exact hypothesis order later

/-! ## The text of a passage -/

theorem firstText?_mem {start : Nat} (found : firstText? body = some start) :
    ∃ line ∈ body, line.content.isEmpty = false ∧ line.start = start := by
  obtain ⟨line, isFirst, same⟩ := Option.map_eq_some_iff.1 found
  exact ⟨line, List.mem_of_find?_eq_some isFirst,
    by simpa using List.find?_some isFirst, same⟩

/-- The text of a passage reaches from one of its lines to the end of its last one. -/
theorem textRange?_spans
    {start : Option Nat}
    (order : InOrder (first :: body))
    (nonempty : first.content.isEmpty = false)
    (inFirst : ∀ place, start = some place → first.start ≤ place ∧ place < first.stop)
    (text : textRange? start first.stop body = some range) :
    range.Spans (first :: body) ∧ range.stop = lastText first.stop body ∧
      ∃ line ∈ first :: body, line.start ≤ range.start ∧ range.start < line.stop ∧
        line.stop ≤ range.stop := by
  obtain ⟨place, isStart, rfl⟩ := Option.map_eq_some_iff.1 text
  obtain ⟨before, orderBody⟩ := List.pairwise_cons.1 order
  have starts : ∃ line ∈ first :: body, line.start ≤ place ∧ place < line.stop ∧
      line.stop ≤ lastText first.stop body := by
    cases isFirst : start with
    | some found =>
        rw [isFirst, Option.some_or, Option.some.injEq] at isStart
        obtain ⟨starts, stops⟩ := inFirst place (isFirst.trans (congrArg some isStart))
        exact ⟨first, List.mem_cons_self, starts, stops, le_lastText before⟩
    | none =>
        rw [isFirst, Option.none_or] at isStart
        obtain ⟨line, listed, isText, rfl⟩ := firstText?_mem isStart
        exact ⟨line, List.mem_cons_of_mem _ listed, Nat.le_refl _, start_lt_stop isText,
          stop_le_lastText orderBody listed isText⟩
  obtain ⟨line, listed, less, inside, reaches⟩ := starts
  have stop : max (lastText first.stop body) place = lastText first.stop body :=
    Nat.max_eq_left (by omega)
  refine ⟨⟨⟨line, listed, less, inside⟩, ?_, ?_⟩, stop, line, listed, less, inside, ?_⟩
  · rw [stop]
    rcases lastText_mem first.stop body with same | ⟨last, listed, isText, same⟩
    · rw [same]
      exact ⟨first, List.mem_cons_self, start_lt_stop nonempty, Nat.le_refl _⟩
    · rw [same]
      exact ⟨last, List.mem_cons_of_mem _ listed, start_lt_stop isText, Nat.le_refl _⟩
  · rw [stop]
    exact Nat.lt_of_lt_of_le inside reaches
  · rwa [stop]

/-- From a place of a line on, a comment goes on with the line, and then with a newline or not
at all. -/
theorem drop_inside
    (stands : line.StandsIn comment)
    {offset : Nat}
    (inside : offset ≤ line.content.length) :
    ∃ after, comment.drop (line.start + offset) = line.content.drop offset ++ after ∧
      ∀ c, after.head? = some c → c = '\n' := by
  obtain ⟨after, isDrop, ends⟩ := stands.drop_start
  refine ⟨after, by rw [← List.drop_drop, isDrop, List.drop_append_of_le_length inside], ?_⟩
  intro c isHead
  split at ends
  · exact Option.some.inj (isHead.symm.trans ends)
  · rw [ends.1] at isHead
    contradiction

/-- A leading name is skipped within its line. -/
theorem add_skipDash_lt_stop
    {place : Nat}
    (stands : line.StandsIn comment)
    (starts : line.start ≤ place)
    (inside : place < line.stop) :
    place + skipDash (comment.drop place) < line.stop := by
  by_cases none : skipDash (comment.drop place) = 0
  · rwa [none, Nat.add_zero]
  obtain ⟨offset, rfl⟩ := Nat.exists_eq_add_of_le starts
  have inside : offset < line.content.length := Nat.lt_of_add_lt_add_left inside
  obtain ⟨after, isDrop, ends⟩ := drop_inside stands (Nat.le_of_lt inside)
  rw [isDrop] at none ⊢
  have oneLine : '\n' ∉ line.content.drop offset :=
    fun listed => stands.noNewline (List.mem_of_mem_drop listed)
  have more : line.content.drop offset ≠ [] := by simpa using inside
  have started : (line.content.drop offset ++ after).head? ≠ some '\n' := by
    obtain ⟨c, rest, isLine⟩ := List.exists_cons_of_ne_nil more
    rw [isLine] at oneLine ⊢
    exact fun isHead => oneLine (List.mem_of_head? isHead)
  obtain ⟨lead, c, rest, parts, length, noNewline, name⟩ := exists_leadingName started none
  -- a name that is longer than the line would hold the newline after it, or stand before it
  have short : lead.length < (line.content.drop offset).length := by
    rcases List.append_eq_append_iff.1 parts with ⟨more, rfl, rfl⟩ | ⟨more, isLine, isRest⟩
    · obtain ⟨-, -, -, -, oneLine, -⟩ := name
      cases more with
      | nil => exact absurd (ends c rfl) noNewline
      | cons d more =>
          refine absurd ?_ oneLine
          rw [← ends d rfl]
          exact List.mem_append_right _ List.mem_cons_self
    · cases more with
      | nil =>
          rw [List.nil_append] at isRest
          exact absurd (ends c (by rw [← isRest]; rfl)) noNewline
      | cons d more =>
          rw [isLine, List.length_append, List.length_cons]
          omega
  rw [length, Line.stop]
  rw [List.length_drop] at short
  omega

/-- Without a leading name a text stands in the same lines. -/
theorem spans_pastName
    (stands : ∀ line ∈ lines, line.StandsIn comment)
    (spans : range.Spans lines)
    (reaches : ∃ line ∈ lines, line.start ≤ range.start ∧ range.start < line.stop ∧
      line.stop ≤ range.stop) :
    (range.pastName comment).Spans lines ∧ range.start ≤ (range.pastName comment).start ∧
      (range.pastName comment).stop = range.stop := by
  obtain ⟨line, listed, starts, inside, reaches⟩ := reaches
  have within := add_skipDash_lt_stop (stands line listed) starts inside
  have stop : (range.pastName comment).stop = range.stop :=
    Nat.max_eq_left (Nat.le_of_lt (Nat.lt_of_lt_of_le within reaches))
  have less : range.start ≤ (range.pastName comment).start := Nat.le_add_right _ _
  refine ⟨⟨⟨line, listed, Nat.le_trans starts less, within⟩, ?_, ?_⟩, less, stop⟩
  · rw [stop]
    exact spans.ends
  · rw [stop]
    exact Nat.lt_of_lt_of_le within reaches

/-! ## Text on a line -/

/-- Text after an offset of a line starts at the first character that is not blank. -/
theorem textFrom?_eq_some
    {offset place : Nat}
    (found : line.textFrom? offset = some place) :
    line.start + offset ≤ place ∧ place < line.stop ∧
      ∀ further c, offset ≤ further → line.start + further < place →
        line.content[further]? = some c → Text.isAsciiBlank c = true := by
  unfold Line.textFrom? at found
  dsimp only at found
  split at found
  · rename_i more
    rw [← Option.some.inj found, Line.stop]
    have length := List.length_drop (i := offset) (l := line.content)
    refine ⟨Nat.le_add_right _ _, by omega, fun further c after before isAt => ?_⟩
    obtain ⟨index, rfl⟩ := Nat.exists_eq_add_of_le after
    have short : index < ((line.content.drop offset).takeWhile Text.isAsciiBlank).length := by omega
    rw [← List.getElem?_drop, ← List.takeWhile_append_dropWhile (p := Text.isAsciiBlank)
      (l := line.content.drop offset), List.getElem?_append_left short] at isAt
    exact List.mem_takeWhile_imp (List.mem_of_getElem? isAt)
  · exact absurd found (by simp)

theorem textFrom?_inside {offset place : Nat} (found : line.textFrom? offset = some place) :
    line.start ≤ place ∧ place < line.stop := by
  obtain ⟨starts, stops, -⟩ := textFrom?_eq_some found
  exact ⟨by omega, stops⟩

/-- Without text after an offset of a line only blanks follow. -/
theorem isAsciiBlank_of_textFrom?_eq_none
    {offset further : Nat}
    {c : Char}
    (none : line.textFrom? offset = none)
    (after : offset ≤ further)
    (isAt : line.content[further]? = some c) :
    Text.isAsciiBlank c = true := by
  unfold Line.textFrom? at none
  dsimp only at none
  split at none
  · exact absurd none (by simp)
  · rename_i noMore
    have all : (line.content.drop offset).takeWhile Text.isAsciiBlank = line.content.drop offset :=
      (List.takeWhile_prefix _).eq_of_length_le (Nat.le_of_not_lt noMore)
    obtain ⟨index, rfl⟩ := Nat.exists_eq_add_of_le after
    rw [← List.getElem?_drop, ← all] at isAt
    exact List.mem_takeWhile_imp (List.mem_of_getElem? isAt)

theorem sentenceLength_le (ended : Bool) (content : List Char) :
    sentenceLength ended content ≤ content.length := by
  induction content with
  | nil => exact Nat.le_refl 0
  | cons c rest hypothesis =>
      unfold sentenceLength
      dsimp only
      split
      · exact Nat.le_add_left 1 _
      · exact Nat.succ_le_succ hypothesis

theorem sentenceLength_pos {ended : Bool} {content : List Char} (nonempty : content ≠ []) :
    0 < sentenceLength ended content := by
  obtain ⟨c, rest, rfl⟩ := List.exists_cons_of_ne_nil nonempty
  unfold sentenceLength
  dsimp only
  split
  · exact Nat.one_pos
  · exact Nat.succ_pos _

/-! ## The passages -/

theorem content_eq_word_append (line : Line) : line.content = line.word ++ line.afterWord :=
  List.takeWhile_append_dropWhile.symm

theorem textAfterHeading?_inside {place : Nat} (found : line.textAfterHeading? = some place) :
    line.start ≤ place ∧ place < line.stop := by
  unfold Line.textAfterHeading? at found
  split at found
  · exact textFrom?_inside found
  · exact absurd found (by simp)

/-- The text of a heading's passage stands in its lines. -/
theorem headedPassage_spans
    {heading : Line × List Line}
    (stands : ∀ line ∈ heading.1 :: heading.2, line.StandsIn comment)
    (order : InOrder (heading.1 :: heading.2))
    (nonempty : heading.1.content.isEmpty = false)
    (text : (headedPassage comment identifier wantTerse heading).text = some range) :
    range.Spans (heading.1 :: heading.2) := by
  unfold headedPassage at text
  dsimp only at text
  have inFirst (place : Nat) (found : heading.1.textAfterHeading? = some place) :=
    textAfterHeading?_inside found
  split at text
  · obtain ⟨whole, isText, rfl⟩ := Option.map_eq_some_iff.1 text
    obtain ⟨spans, -, reaches⟩ := textRange?_spans order nonempty inFirst isText
    exact (spans_pastName stands spans reaches).1
  · exact (textRange?_spans order nonempty inFirst text).1

/-- The terse line is the first sentence of the first line, without a leading name. -/
theorem terseRange_spans
    (atStart : first.start = 0)
    (nonempty : first.content.isEmpty = false) :
    first.terseRange.Spans [first] := by
  have length := sentenceLength_le first.ended first.content
  have positive : 0 < sentenceLength first.ended first.content :=
    sentenceLength_pos (List.isEmpty_eq_false_iff.1 nonempty)
  have start : first.terseRange.start < sentenceLength first.ended first.content := by
    rw [Line.terseRange]
    dsimp only
    split <;> assumption
  have stop : first.stop = first.content.length := by rw [Line.stop, atStart, Nat.zero_add]
  refine ⟨⟨first, List.mem_singleton_self _, by omega, by omega⟩,
    ⟨first, List.mem_singleton_self _, ?_, ?_⟩, start⟩
  · rw [atStart]
    exact positive
  · rw [stop]
    exact length

/-- Before the first heading, the texts stand in their lines and in their order. -/
theorem openingPassages_ordered
    (atStart : first.start = 0)
    (order : InOrder (first :: body)) :
    (∀ passage ∈ openingPassages wantTerse (first :: body), ∀ range, passage.text = some range →
      range.Spans (first :: body)) ∧
    (openingPassages wantTerse (first :: body)).Pairwise fun passage later =>
      ∀ range, passage.text = some range → ∀ other, later.text = some other →
        range.stop ≤ other.start := by
  rw [openingPassages]
  cases nonempty : first.content.isEmpty with
  | true => exact ⟨by simp, .nil⟩
  | false =>
      have later := (List.pairwise_cons.1 order).1
      have length := sentenceLength_le first.ended first.content
      rw [if_neg Bool.false_ne_true]
      cases wantTerse with
      | true =>
          rw [if_pos rfl]
          have description
              (range : Range)
              (text : textRange? (first.textFrom? (sentenceLength first.ended first.content))
                first.stop body = some range) :
              range.Spans (first :: body) :=
            (textRange?_spans order nonempty (fun _ => textFrom?_inside) text).1
          refine ⟨?_, ?_⟩
          · intro passage listed range text
            rcases List.mem_cons.1 listed with rfl | listed
            · rw [← Option.some.inj text]
              exact (terseRange_spans atStart nonempty).mono (by simp)
            · rw [List.mem_singleton.1 listed] at text
              exact description range text
          · rw [List.pairwise_pair]
            intro range isTerse other text
            rw [← Option.some.inj isTerse]
            obtain ⟨place, isStart, rfl⟩ := Option.map_eq_some_iff.1 text
            rcases Option.or_eq_some_iff.1 isStart with onLine | ⟨-, below⟩
            · have := (textFrom?_eq_some onLine).1
              rw [atStart] at this
              exact Nat.le_trans (Nat.le_add_left _ _) this
            · obtain ⟨line, listed, -, rfl⟩ := firstText?_mem below
              have := later line listed
              rw [Line.stop, atStart] at this
              exact Nat.le_trans length (by simp only; omega)
      | false =>
          rw [if_neg Bool.false_ne_true]
          have inFirst (place : Nat) (isStart : some 0 = some place) :
              first.start ≤ place ∧ place < first.stop := by
            obtain rfl := Option.some.inj isStart
            have := start_lt_stop nonempty
            omega
          refine ⟨?_, List.pairwise_singleton _ _⟩
          intro passage listed range text
          rw [List.mem_singleton.1 listed] at text
          exact (textRange?_spans order nonempty inFirst text).1

/-! ## All passages -/

/-- The lines of a heading and its passage. -/
def sectionLines (heading : Line × List Line) : List Line :=
  heading.1 :: heading.2

/-- No line is lost where lines are cut at headings. -/
theorem cutAtHeadings_append (afterBlank : Bool) (lines : List Line) :
    (cutAtHeadings afterBlank lines).1 ++ (cutAtHeadings afterBlank lines).2.flatMap sectionLines =
      lines := by
  induction lines generalizing afterBlank with
  | nil => rfl
  | cons line rest hypothesis =>
      rw [cutAtHeadings]
      dsimp only
      split
      · exact congrArg (line :: ·) (hypothesis _)
      · exact congrArg (line :: ·) (hypothesis _)

/-- A line of a comment that is a heading there. -/
def IsHeadingIn (lines : List Line) (afterBlank : Bool) (line : Line) : Prop :=
  ∃ before after, lines = before ++ line :: after ∧
    line.isHeading ((before.getLast?.map (·.content.isEmpty)).getD afterBlank) = true

theorem isHeadingIn_of_mem_cutAtHeadings
    {afterBlank : Bool}
    {heading : Line × List Line}
    (listed : heading ∈ (cutAtHeadings afterBlank lines).2) :
    IsHeadingIn lines afterBlank heading.1 := by
  induction lines generalizing afterBlank with
  | nil => exact absurd listed List.not_mem_nil
  | cons line rest hypothesis =>
      rw [cutAtHeadings] at listed
      dsimp only at listed
      have later (inRest : heading ∈ (cutAtHeadings line.content.isEmpty rest).2) :
          IsHeadingIn (line :: rest) afterBlank heading.1 := by
        obtain ⟨before, after, rfl, isHeading⟩ := hypothesis inRest
        refine ⟨line :: before, after, rfl, ?_⟩
        rw [List.getLast?_cons]
        cases last : before.getLast? with
        | none => rwa [last] at isHeading
        | some previous => rwa [last] at isHeading
      split at listed
      · rename_i isHeading
        rcases List.mem_cons.1 listed with rfl | inRest
        · exact ⟨[], rest, rfl, isHeading⟩
        · exact later inRest
      · exact later listed

/-- The passages of a comment stand in its lines, and do not overlap. -/
theorem passages_ordered (comment : List Char) (identifier : String) (wantTerse : Bool) :
    (∀ passage ∈ passages comment identifier wantTerse, ∀ range, passage.text = some range →
      range.Spans (linesOf comment)) ∧
    (passages comment identifier wantTerse).Pairwise fun passage later =>
      ∀ range, passage.text = some range → ∀ other, later.text = some other →
        range.stop ≤ other.start := by
  have listed := fun heading => @isHeadingIn_of_mem_cutAtHeadings (linesOf comment) true heading
  have lines := cutAtHeadings_append true (linesOf comment)
  rw [passages]
  generalize cutAtHeadings true (linesOf comment) = cut at lines listed
  obtain ⟨opening, sections⟩ := cut
  dsimp only at lines listed ⊢
  have order : InOrder (opening ++ sections.flatMap sectionLines) :=
    lines ▸ pairwise_linesOf comment
  obtain ⟨orderOpening, orderSections, opensBefore⟩ := List.pairwise_append.1 order
  obtain ⟨orderSection, sectionsInOrder⟩ := List.pairwise_flatMap.1 orderSections
  have inOpening : opening ⊆ linesOf comment := fun line isListed =>
    lines ▸ List.mem_append_left _ isListed
  have inSection (heading : Line × List Line) (isListed : heading ∈ sections) :
      sectionLines heading ⊆ linesOf comment := fun line inLines =>
    lines ▸ List.mem_append_right _ (List.mem_flatMap.2 ⟨heading, isListed, inLines⟩)
  have opens : (∀ passage ∈ openingPassages wantTerse opening, ∀ range,
        passage.text = some range → range.Spans opening) ∧
      (openingPassages wantTerse opening).Pairwise fun passage later =>
        ∀ range, passage.text = some range → ∀ other, later.text = some other →
          range.stop ≤ other.start := by
    cases opening with
    | nil => exact ⟨by simp [openingPassages], .nil⟩
    | cons first body =>
        exact openingPassages_ordered (start_of_linesOf_eq_cons lines.symm) orderOpening
  have heads (heading : Line × List Line) (isListed : heading ∈ sections) (range : Range)
      (text : (headedPassage comment identifier wantTerse heading).text = some range) :
      range.Spans (sectionLines heading) := by
    obtain ⟨before, after, -, isHeading⟩ := listed heading isListed
    exact headedPassage_spans
      (fun line inLines => standsIn_of_mem_linesOf (inSection heading isListed inLines))
      (orderSection heading isListed) (isEmpty_of_isHeading isHeading) text
  refine ⟨?_, List.pairwise_append.2 ⟨opens.2, List.pairwise_map.2 ?_, ?_⟩⟩
  · intro passage inAll range text
    rcases List.mem_append.1 inAll with inFront | inRest
    · exact (opens.1 passage inFront range text).mono inOpening
    · obtain ⟨heading, isListed, rfl⟩ := List.mem_map.1 inRest
      exact (heads heading isListed range text).mono (inSection heading isListed)
  · refine sectionsInOrder.imp_of_mem ?_
    intro heading later isListed laterListed before range text other otherText
    exact (heads heading isListed range text).le_of_before
      (heads later laterListed other otherText) before
  · intro passage inFront later inRest range text other otherText
    obtain ⟨heading, isListed, rfl⟩ := List.mem_map.1 inRest
    exact (opens.1 passage inFront range text).le_of_before (heads heading isListed other otherText)
      fun line isLine next isNext =>
        opensBefore line isLine next (List.mem_flatMap.2 ⟨heading, isListed, isNext⟩)

/-! ## The parts -/

/-- The texts of all parts. -/
def PartsOf.texts {text : Type} (parts : PartsOf text) : List text :=
  parts.terse.toList ++ parts.description.toList ++ parts.returns.toList ++
    parts.sections.filterMap Prod.snd

theorem PartsOf.mem_texts {form : Type} {parts : PartsOf form} {text : form} :
    text ∈ parts.texts ↔
      parts.terse = some text ∨ parts.description = some text ∨ parts.returns = some text ∨
        ∃ heading, (heading, some text) ∈ parts.sections := by
  simp [PartsOf.texts]

/-- Two ranges that have no position in common. -/
def Range.Apart (range other : Range) : Prop :=
  range.stop ≤ other.start ∨ other.stop ≤ range.start

theorem Range.Apart.symm {other : Range} (apart : range.Apart other) : other.Apart range :=
  Or.symm apart

/-- A text that stands between others may take the place of one. -/
theorem exists_kept {α : Type} (front old back : List α) (new : α) :
    ∃ kept, kept.Sublist (front ++ old ++ back) ∧
      (front ++ [new] ++ back).Perm (kept ++ [new]) := by
  refine ⟨front ++ back, (List.sublist_append_left front old).append (.refl back), ?_⟩
  rw [List.append_assoc, List.singleton_append]
  exact List.perm_middle.trans (List.perm_append_singleton new (front ++ back)).symm

/-- Placing a passage adds its text, and may take the place of another one. -/
theorem texts_place (parts : PartsOf Range) (passage : Passage) :
    ∃ kept, kept.Sublist parts.texts ∧
      (parts.place passage).texts.Perm (kept ++ passage.text.toList) := by
  obtain ⟨part, text⟩ := passage
  cases text with
  | none =>
      refine ⟨parts.texts, .refl _, List.Perm.of_eq ?_⟩
      cases part <;> simp [PartsOf.texts, PartsOf.place]
  | some range =>
      cases part with
      | terse =>
          simpa [PartsOf.texts, PartsOf.place] using exists_kept [] parts.terse.toList
            (parts.description.toList ++ (parts.returns.toList ++
              parts.sections.filterMap Prod.snd)) range
      | description explicit =>
          simpa [PartsOf.texts, PartsOf.place] using exists_kept parts.terse.toList
            parts.description.toList (parts.returns.toList ++
              parts.sections.filterMap Prod.snd) range
      | returns =>
          simpa [PartsOf.texts, PartsOf.place] using exists_kept
            (parts.terse.toList ++ parts.description.toList) parts.returns.toList
            (parts.sections.filterMap Prod.snd) range
      | named heading =>
          refine ⟨parts.texts, .refl _, List.Perm.of_eq ?_⟩
          simp [PartsOf.texts, PartsOf.place]

/-- Placing passages in order keeps their texts apart. -/
theorem texts_foldl_place
    (passages : List Passage)
    (parts : PartsOf Range)
    (apart : parts.texts.Pairwise Range.Apart)
    (order : passages.Pairwise fun passage later => ∀ range, passage.text = some range →
      ∀ other, later.text = some other → range.stop ≤ other.start)
    (later : ∀ range ∈ parts.texts, ∀ passage ∈ passages, ∀ other, passage.text = some other →
      range.stop ≤ other.start) :
    (passages.foldl PartsOf.place parts).texts.Pairwise Range.Apart ∧
      ∀ range ∈ (passages.foldl PartsOf.place parts).texts,
        range ∈ parts.texts ∨ ∃ passage ∈ passages, passage.text = some range := by
  induction passages generalizing parts with
  | nil => exact ⟨apart, fun range listed => .inl listed⟩
  | cons passage rest hypothesis =>
      obtain ⟨before, orderRest⟩ := List.pairwise_cons.1 order
      obtain ⟨kept, sublist, perm⟩ := texts_place parts passage
      have placed {range : Range} (listed : range ∈ (parts.place passage).texts) :
          range ∈ parts.texts ∨ passage.text = some range := by
        rcases List.mem_append.1 (perm.mem_iff.1 listed) with isKept | isNew
        · exact .inl (sublist.subset isKept)
        · exact .inr (Option.mem_toList.1 isNew)
      have stillApart : (parts.place passage).texts.Pairwise Range.Apart := by
        rw [perm.pairwise_iff Range.Apart.symm, List.pairwise_append]
        refine ⟨apart.sublist sublist, by cases passage.text <;> simp, ?_⟩
        intro range isKept other isNew
        exact .inl (later range (sublist.subset isKept) passage List.mem_cons_self other
          (Option.mem_toList.1 isNew))
      obtain ⟨result, listed⟩ := hypothesis (parts.place passage) stillApart orderRest
        fun range listed next inRest other text => by
          rcases placed listed with isOld | isNew
          · exact later range isOld next (List.mem_cons_of_mem _ inRest) other text
          · exact before next inRest range isNew other text
      refine ⟨result, fun range inResult => ?_⟩
      rcases listed range inResult with inPlaced | ⟨next, inRest, text⟩
      · refine (placed inPlaced).imp_right fun text => ⟨passage, List.mem_cons_self, text⟩
      · exact .inr ⟨next, List.mem_cons_of_mem _ inRest, text⟩

/-- The texts of the parts stand in lines of the comment, and do not overlap. -/
theorem splitRanges_texts (comment : List Char) (identifier : String) (wantTerse : Bool) :
    (splitRanges comment identifier wantTerse).texts.Pairwise Range.Apart ∧
      ∀ range ∈ (splitRanges comment identifier wantTerse).texts,
        range.Spans (linesOf comment) := by
  obtain ⟨spans, order⟩ := passages_ordered comment identifier wantTerse
  rw [splitRanges_eq]
  obtain ⟨apart, listed⟩ := texts_foldl_place (passages comment identifier wantTerse) {} .nil order
    (fun range inNone => absurd inNone List.not_mem_nil)
  refine ⟨apart, fun range inTexts => ?_⟩
  rcases listed range inTexts with inNone | ⟨passage, inPassages, text⟩
  · exact absurd inNone List.not_mem_nil
  · exact spans passage inPassages range text

/-- A range in lines of a comment is a text: it is not empty, and has no newline at either
end. -/
theorem Range.Spans.isText (spans : range.Spans (linesOf comment)) :
    range.start < range.stop ∧ range.stop ≤ comment.length ∧
      comment[range.start]? ≠ some '\n' ∧ comment[range.stop - 1]? ≠ some '\n' := by
  have noNewline {place : Nat} {line : Line} (listed : line ∈ linesOf comment)
      (starts : line.start ≤ place) (inside : place < line.stop) : comment[place]? ≠ some '\n' := by
    have stands := standsIn_of_mem_linesOf listed
    obtain ⟨offset, rfl⟩ := Nat.exists_eq_add_of_le starts
    rw [stands.getElem? offset (Nat.lt_of_add_lt_add_left inside)]
    exact fun isAt => stands.noNewline (List.mem_of_getElem? isAt)
  obtain ⟨line, listed, starts, inside⟩ := spans.starts
  obtain ⟨last, lastListed, begins, ends⟩ := spans.ends
  have stop := (standsIn_of_mem_linesOf lastListed).stop_le_length
  exact ⟨spans.nonempty, by omega, noNewline listed starts inside,
    noNewline lastListed (by omega) (by omega)⟩

end Prose
end DeclManual
