import DeclManual.Proofs.Prose.Ranges

/-!
# Composing a comment and splitting it

A comment may be written from a terse line and from blocks, each with a heading on a line of its
own after an empty line.  Where the texts hold no line with the shape of a heading, splitting
the comment gives back what it was written from.
-/

namespace DeclManual
namespace Prose

variable
  {comment before text tail front body : List Char} {identifier : String} {c : Char}
  {start stop : Nat} {afterBlank followed : Bool} {line : Line} {lines rest : List Line}

/-! ## Blocks -/

/-- A heading with the text below it. -/
structure Block where
  heading : String
  body : String
deriving DecidableEq, Repr

namespace Block

/-- A block as it is written after other text. -/
def written (block : Block) : List Char :=
  '\n' :: '\n' :: (block.heading.toList ++ ':' :: '\n' :: block.body.toList)

def isDescription (block : Block) : Bool :=
  block.heading == "DESCRIPTION"

def isReturns (block : Block) : Bool :=
  block.heading == "RETURNS"

/-- A block that becomes a section of its own. -/
def isSection (block : Block) : Bool :=
  !block.isDescription && !block.isReturns

end Block

/-- Blocks as they are written one after the other. -/
def writtenBlocks (blocks : List Block) : List Char :=
  blocks.flatMap Block.written

/-- Writes a comment. -/
def composeComment (terse : String) (blocks : List Block) : String :=
  String.ofList (terse.toList ++ writtenBlocks blocks)

/-- A line that is empty or does not have the shape of a heading. -/
def Line.IsPlain (line : Line) : Prop :=
  line.content.isEmpty = true ∨ line.isShaped = false

instance (line : Line) : Decidable line.IsPlain :=
  inferInstanceAs (Decidable (_ ∨ _))

/-- A terse line that is read as it is written. -/
structure IsTerse (terse : List Char) (followed : Bool) : Prop where
  nonempty : terse ≠ []
  oneLine : '\n' ∉ terse
  noHeading : Line.isShaped { start := 0, content := terse, ended := followed } = false
  noDash : '-' ∉ terse
  oneSentence : ∀ before c after,
    terse = before ++ '.' :: c :: after → Text.isAsciiBlank c = false

/-- A heading in upper case that is no abbreviation of a keyword. -/
structure IsSectionHeading (heading : List Char) : Prop where
  nonempty : heading ≠ []
  characters : ∀ c ∈ heading, isHeadingChar c = true
  upperCase : ∀ c ∈ heading, c.isLower = false
  noBlankLast : heading.getLast? ≠ some ' '
  noKeyword : ∀ word ∈ keywordHeadings, abbreviates heading word = false

/-- A text that is read as it is written, in a block that others follow or not. -/
structure IsBody (body : List Char) (followed : Bool) : Prop where
  nonempty : body ≠ []
  noNewlineFirst : body.head? ≠ some '\n'
  noNewlineLast : body.getLast? ≠ some '\n'
  noHeading : ∀ line ∈ linesAt 1 (if followed then body ++ ['\n'] else body), line.IsPlain

/-- Blocks that are read as they are written. -/
inductive AreBlocks : List Block → Prop where
  | nil : AreBlocks []
  | cons {block : Block} {rest : List Block}
      (heading : block.isDescription = true ∨ block.isReturns = true ∨
        IsSectionHeading block.heading.toList)
      (body : IsBody block.body.toList (!rest.isEmpty))
      (more : AreBlocks rest) : AreBlocks (block :: rest)

/-! ## Lines of a text -/

/-- A text and what follows its end of line are read line by line. -/
theorem linesAt_append_newline (start : Nat) (text rest : List Char) :
    linesAt start (text ++ '\n' :: rest) =
      linesAt start (text ++ ['\n']) ++ linesAt (start + text.length + 1) rest := by
  induction text using Text.lines_induction generalizing start with
  | last content oneLine =>
      rw [linesAt_more oneLine, linesAt_more oneLine]
      rfl
  | more content further oneLine hypothesis =>
      rw [List.append_assoc, List.append_assoc, List.cons_append, List.cons_append,
        linesAt_more oneLine, linesAt_more oneLine, hypothesis, List.cons_append,
        List.length_append, List.length_cons]
      congr 4
      omega

/-- Newlines alone make empty lines. -/
theorem isEmpty_of_mem_linesAt_newlines
    (newlines : ∀ c ∈ tail, c = '\n')
    (listed : line ∈ linesAt start tail) :
    line.content.isEmpty = true := by
  induction tail generalizing start with
  | nil => exact absurd listed List.not_mem_nil
  | cons c rest hypothesis =>
      obtain ⟨rfl, moreNewlines⟩ := List.forall_mem_cons.1 newlines
      rw [← List.nil_append ('\n' :: rest), linesAt_more List.not_mem_nil] at listed
      rcases List.mem_cons.1 listed with rfl | later
      · rfl
      · exact hypothesis moreNewlines later

theorem firstText?_newlines (newlines : ∀ c ∈ tail, c = '\n') :
    firstText? (linesAt start tail) = none := by
  rw [firstText?, List.find?_eq_none.2 fun line listed => by
    rw [isEmpty_of_mem_linesAt_newlines newlines listed]; exact Bool.false_ne_true]
  rfl

theorem lastText_of_isEmpty (isEmpty : ∀ line ∈ lines, line.content.isEmpty = true) :
    lastText stop lines = stop := by
  rcases lastText_mem stop lines with same | ⟨line, listed, nonempty, -⟩
  · exact same
  · rw [isEmpty line listed] at nonempty
    contradiction

/-- A text that does not start with a newline starts on its first line. -/
theorem firstText?_linesAt (nonempty : text ≠ []) (noNewline : text.head? ≠ some '\n') :
    firstText? (linesAt start text) = some start := by
  induction text using Text.lines_induction with
  | last content oneLine =>
      rw [linesAt_last oneLine, if_neg fun isEmpty => nonempty (List.isEmpty_iff.1 isEmpty),
        firstText?_cons, if_neg fun isEmpty => nonempty (List.isEmpty_iff.1 isEmpty)]
  | more content rest oneLine hypothesis =>
      have text : content.isEmpty = false := by
        rw [List.isEmpty_eq_false_iff]
        rintro rfl
        exact noNewline rfl
      rw [linesAt_more oneLine, firstText?_cons, text, if_neg Bool.false_ne_true]

/-- A text that does not end with a newline ends with its last line, also before newlines. -/
theorem lastText_linesAt
    (nonempty : text ≠ [])
    (noNewline : text.getLast? ≠ some '\n')
    (newlines : ∀ c ∈ tail, c = '\n') :
    lastText stop (linesAt start (text ++ tail)) = start + text.length := by
  induction text using Text.lines_induction generalizing start stop with
  | last content oneLine =>
      have isText : content.isEmpty = false := List.isEmpty_eq_false_iff.2 nonempty
      cases tail with
      | nil =>
          rw [List.append_nil, linesAt_last oneLine, isText, if_neg Bool.false_ne_true,
            lastText_cons, isText, if_neg Bool.false_ne_true]
          rfl
      | cons c tail =>
          obtain ⟨rfl, moreNewlines⟩ := List.forall_mem_cons.1 newlines
          rw [linesAt_more oneLine, lastText_cons, isText, if_neg Bool.false_ne_true,
            lastText_of_isEmpty fun line => isEmpty_of_mem_linesAt_newlines moreNewlines]
          rfl
  | more content rest oneLine hypothesis =>
      have restText : rest ≠ [] := by
        rintro rfl
        exact noNewline (by simp)
      have restLast : rest.getLast? ≠ some '\n' := by
        intro isLast
        refine noNewline ?_
        rw [List.getLast?_append, List.getLast?_cons, isLast]
        rfl
      rw [List.append_assoc, List.cons_append, linesAt_more oneLine, lastText_cons,
        hypothesis restText restLast, List.length_append, List.length_cons]
      omega

/-! ## Lines that are no headings -/

theorem isHeading_of_isPlain (plain : line.IsPlain) : line.isHeading afterBlank = false := by
  rcases plain with isEmpty | noShape
  · rw [Line.isHeading, isEmpty, Bool.not_true, Bool.false_and, Bool.false_and]
  · rw [Line.isHeading, noShape, Bool.and_false, Bool.false_and]

/-- Lines that are no headings stay together. -/
theorem cutAtHeadings_append_plain
    (plain : ∀ line ∈ lines, line.IsPlain) :
    ∃ afterBlank', cutAtHeadings afterBlank (lines ++ rest) =
      (lines ++ (cutAtHeadings afterBlank' rest).1, (cutAtHeadings afterBlank' rest).2) := by
  induction lines generalizing afterBlank with
  | nil => exact ⟨afterBlank, rfl⟩
  | cons line lines hypothesis =>
      obtain ⟨plainFirst, plain⟩ := List.forall_mem_cons.1 plain
      obtain ⟨afterBlank', cut⟩ := hypothesis plain
      refine ⟨afterBlank', ?_⟩
      rw [List.cons_append, cutAtHeadings, cut, isHeading_of_isPlain plainFirst]
      rfl

/-! ## Positions of lines -/

/-- The lines of a text do not depend on where it stands. -/
theorem linesAt_add (start further : Nat) (text : List Char) :
    linesAt (start + further) text =
      (linesAt start text).map fun line => { line with start := line.start + further } := by
  induction text using Text.lines_induction generalizing start with
  | last content oneLine =>
      rw [linesAt_last oneLine, linesAt_last oneLine]
      split <;> rfl
  | more content rest oneLine hypothesis =>
      have moved : start + further + content.length + 1 = start + content.length + 1 + further := by
        omega
      rw [linesAt_more oneLine, linesAt_more oneLine, moved, hypothesis]
      rfl

/-- After the first line it does not matter where a line stands. -/
theorem isPlain_of_later
    (later : start ≠ 0)
    (plain : ∀ line ∈ linesAt 1 text, line.IsPlain)
    (line : Line)
    (listed : line ∈ linesAt start text) :
    line.IsPlain := by
  obtain ⟨further, rfl⟩ := Nat.exists_eq_add_of_le (Nat.one_le_iff_ne_zero.2 later)
  rw [linesAt_add] at listed
  obtain ⟨first, isFirst, rfl⟩ := List.mem_map.1 listed
  have isLater := start_le_of_mem_linesAt isFirst
  have notStart : (first.start == 0) = false := beq_false_of_ne (by omega)
  have stillNotStart : (first.start + further == 0) = false := beq_false_of_ne (by omega)
  refine (plain first isFirst).imp_right fun noShape => ?_
  unfold Line.isShaped at noShape ⊢
  rw [notStart] at noShape
  rw [stillNotStart]
  exact noShape

theorem textFrom?_length (line : Line) : line.textFrom? line.content.length = none := by
  rw [Line.textFrom?, List.drop_length]
  rfl

/-! ## Headings of blocks -/

namespace Block

/-- The part of a page that a block becomes. -/
def part (block : Block) : Part :=
  if block.isDescription then .description true
  else if block.isReturns then .returns
  else .named block.heading

/-- The passage that a block becomes. -/
def passage (block : Block) : PassageOf String where
  part := block.part
  text := some block.body

/-- The line of the heading of a block. -/
def headingLine (block : Block) (start : Nat) : Line where
  start
  content := block.heading.toList ++ [':']
  ended := true

end Block

section Heading

variable {block : Block}

theorem isHeadingChar_of_heading
    (heading : block.isDescription = true ∨ block.isReturns = true ∨
      IsSectionHeading block.heading.toList) :
    ∀ c ∈ block.heading.toList, isHeadingChar c = true := by
  rcases heading with isDescription | isReturns | isSection
  · rw [beq_iff_eq.1 isDescription]
    exact List.all_eq_true.1 (by decide)
  · rw [beq_iff_eq.1 isReturns]
    exact List.all_eq_true.1 (by decide)
  · exact isSection.characters

theorem word_headingLine (characters : ∀ c ∈ block.heading.toList, isHeadingChar c = true) :
    (block.headingLine start).word = block.heading.toList := by
  rw [Line.word, Block.headingLine, List.takeWhile_append_of_pos characters]
  exact List.append_nil _

theorem afterWord_headingLine (characters : ∀ c ∈ block.heading.toList, isHeadingChar c = true) :
    (block.headingLine start).afterWord = [':'] := by
  rw [Line.afterWord, Block.headingLine, List.dropWhile_append_of_pos characters]
  rfl

theorem isHeading_headingLine (characters : ∀ c ∈ block.heading.toList, isHeadingChar c = true) :
    (block.headingLine start).isHeading true = true := by
  have nonempty : (block.headingLine start).content.isEmpty = false := by
    rw [List.isEmpty_eq_false_iff, Block.headingLine]
    simp
  have shaped : (block.headingLine start).isShaped = true := by
    rw [Line.isShaped, afterWord_headingLine characters]
    exact Bool.or_true _
  rw [Line.isHeading, nonempty, shaped]
  rfl

theorem textAfterHeading?_headingLine
    (characters : ∀ c ∈ block.heading.toList, isHeadingChar c = true) :
    (block.headingLine start).textAfterHeading? = none := by
  have length : block.heading.toList.length + 1 = (block.headingLine start).content.length := by
    rw [Block.headingLine, List.length_append]
    rfl
  rw [Line.textAfterHeading?, afterWord_headingLine characters, word_headingLine characters]
  exact (congrArg _ length).trans (textFrom?_length _)

end Heading

theorem isBlank_of_isHeadingChar (holds : isHeadingChar c = true) (noSpace : c ≠ ' ') :
    Text.isBlank c = false := by
  have bounds := (isHeadingChar_bounds holds).resolve_left noSpace
  simp [Text.isBlank]
  omega

theorem trimEnd_heading {heading : List Char} (isSection : IsSectionHeading heading) :
    Text.trimEnd heading = heading := by
  have noSpace : heading.getLast isSection.nonempty ≠ ' ' := by
    intro same
    exact isSection.noBlankLast (by rw [List.getLast?_eq_some_getLast isSection.nonempty, same])
  have noBlank := isBlank_of_isHeadingChar (isSection.characters _ (List.getLast_mem _)) noSpace
  have backwards : heading.reverse =
      heading.getLast isSection.nonempty :: heading.dropLast.reverse := by
    rw [← List.reverse_concat, List.dropLast_concat_getLast]
  rw [Text.trimEnd, Text.dropEndWhile, backwards, List.dropWhile_cons_of_neg
    (by rw [noBlank]; exact Bool.false_ne_true), ← backwards, List.reverse_reverse]

theorem upperCase_heading {heading : List Char} (isSection : IsSectionHeading heading) :
    Text.upperCase heading = heading := by
  have fixed (c : Char) (listed : c ∈ heading) : c.toUpper = c := by
    exact Text.toUpper_of_not_isLower (by simp [isSection.upperCase c listed])
  exact (List.map_congr_left fixed).trans (List.map_id heading)

/-- The heading of a block opens its part. -/
theorem part_headingLine
    {block : Block}
    (heading : block.isDescription = true ∨ block.isReturns = true ∨
      IsSectionHeading block.heading.toList)
    (later : start ≠ 0) :
    (block.headingLine start).part identifier true = block.part := by
  have notStart : ((block.headingLine start).start == 0) = false := beq_false_of_ne later
  rw [Line.part, word_headingLine (isHeadingChar_of_heading heading), notStart]
  simp only [Bool.false_and, Bool.true_and, Bool.false_eq_true, if_false]
  rcases heading with isDescription | isReturns | isSection
  · rw [Block.part, isDescription, if_pos rfl, beq_iff_eq.1 isDescription]
    decide
  · have notDescription : block.isDescription = false := by
      rw [Block.isDescription, beq_iff_eq.1 isReturns]
      decide
    rw [Block.part, notDescription, isReturns, beq_iff_eq.1 isReturns]
    decide
  · have noTerse : terseHeadings.any (abbreviates block.heading.toList) = false := by
      rw [List.any_eq_false]
      intro word listed
      rw [isSection.noKeyword word (List.mem_append_left _ listed)]
      exact Bool.false_ne_true
    have noDescription := isSection.noKeyword "DESCRIPTION" (by decide)
    have noReturns := isSection.noKeyword "RETURNS" (by decide)
    have notDescription : block.isDescription = false := by
      rw [← Bool.not_eq_true]
      intro isDescription
      rw [beq_iff_eq.1 isDescription] at noDescription
      exact absurd noDescription (by decide)
    have notReturns : block.isReturns = false := by
      rw [← Bool.not_eq_true]
      intro isReturns
      rw [beq_iff_eq.1 isReturns] at noReturns
      exact absurd noReturns (by decide)
    rw [trimEnd_heading isSection, noTerse, noDescription, noReturns, upperCase_heading isSection,
      String.ofList_toList, Block.part, notDescription, notReturns]
    rfl

/-! ## The passages of blocks -/

/-- The passage of a block has its body for its text. -/
theorem headedPassage_headingLine
    {block : Block}
    (heading : block.isDescription = true ∨ block.isReturns = true ∨
      IsSectionHeading block.heading.toList)
    (later : start ≠ 0)
    (isBody : IsBody block.body.toList followed)
    (newlines : ∀ c ∈ tail, c = '\n')
    (isComment : comment = before ++ (block.body.toList ++ text)) :
    (headedPassage comment identifier true (block.headingLine start,
        linesAt before.length (block.body.toList ++ tail))).map
          (fun range => String.ofList (range.slice comment)) = block.passage := by
  have first : firstText? (linesAt before.length (block.body.toList ++ tail)) =
      some before.length := by
    have noNewline := isBody.noNewlineFirst
    obtain ⟨c, rest, isText⟩ := List.exists_cons_of_ne_nil isBody.nonempty
    rw [isText] at noNewline ⊢
    exact firstText?_linesAt (List.cons_ne_nil _ _) noNewline
  have last : lastText (block.headingLine start).stop
      (linesAt before.length (block.body.toList ++ tail)) =
        before.length + block.body.toList.length :=
    lastText_linesAt isBody.nonempty isBody.noNewlineLast newlines
  have noTerse : block.part ≠ .terse := by
    unfold Block.part
    split
    · exact Part.noConfusion
    · split <;> exact Part.noConfusion
  rw [headedPassage, part_headingLine heading later,
    textAfterHeading?_headingLine (isHeadingChar_of_heading heading), textRange?, first, last]
  rw [if_neg noTerse, Option.none_or, Option.map_some, Nat.max_eq_left (Nat.le_add_right _ _)]
  have slice : Range.slice ⟨before.length, before.length + block.body.toList.length⟩ comment =
      block.body.toList := by
    rw [Range.slice, isComment, List.drop_left, Nat.add_sub_cancel_left, List.take_left]
  rw [PassageOf.map, Option.map_some, slice, String.ofList_toList]
  rfl

/-- After an empty line a heading ends what comes before it. -/
theorem cutAtHeadings_heading (isHeading : line.isHeading true = true) (lines : List Line) :
    cutAtHeadings afterBlank ({ start, content := [], ended := true } :: line :: lines) =
      ([{ start, content := [], ended := true }],
        (line, (cutAtHeadings false lines).1) :: (cutAtHeadings false lines).2) := by
  have cut : cutAtHeadings true (line :: lines) =
      ([], (line, (cutAtHeadings false lines).1) :: (cutAtHeadings false lines).2) := by
    rw [cutAtHeadings, isEmpty_of_isHeading isHeading, isHeading]
    rfl
  rw [cutAtHeadings]
  dsimp only [List.isEmpty_nil]
  rw [cut]
  rfl

/-- The lines of a text before blocks, and of the first block. -/
theorem linesAt_writtenBlocks
    {block : Block}
    (characters : ∀ c ∈ block.heading.toList, isHeadingChar c = true)
    (start : Nat)
    (text : List Char)
    (rest : List Block) :
    linesAt start (text ++ writtenBlocks (block :: rest)) =
      linesAt start (text ++ ['\n']) ++
        { start := start + text.length + 1, content := [], ended := true } ::
        block.headingLine (start + text.length + 2) ::
        linesAt (start + text.length + 2 + block.heading.toList.length + 2)
          (block.body.toList ++ writtenBlocks rest) := by
  have isWritten : writtenBlocks (block :: rest) =
      '\n' :: ([] ++ '\n' :: ((block.heading.toList ++ [':']) ++
        '\n' :: (block.body.toList ++ writtenBlocks rest))) := by
    simp [writtenBlocks, Block.written]
  have oneLine : '\n' ∉ block.heading.toList ++ [':'] := by
    intro listed
    rcases List.mem_append.1 listed with inHeading | isColon
    · exact absurd (characters _ inHeading) (by decide)
    · exact absurd isColon (by decide)
  rw [isWritten, linesAt_append_newline, linesAt_more List.not_mem_nil, linesAt_more oneLine,
    List.length_append]
  rfl

/-- The blocks after a text are its further passages. -/
theorem cutAtHeadings_blocks
    {blocks : List Block}
    (areBlocks : AreBlocks blocks)
    (identifier : String)
    (afterBlank : Bool)
    (plain : ∀ line ∈ linesAt before.length
      (if !blocks.isEmpty then text ++ ['\n'] else text), line.IsPlain)
    (isComment : comment = before ++ (text ++ writtenBlocks blocks)) :
    ∃ tail sections,
      cutAtHeadings afterBlank (linesAt before.length (text ++ writtenBlocks blocks)) =
        (linesAt before.length (text ++ tail), sections) ∧
      (∀ c ∈ tail, c = '\n') ∧
      sections.map (fun heading => (headedPassage comment identifier true heading).map
        fun range => String.ofList (range.slice comment)) = blocks.map Block.passage := by
  induction areBlocks generalizing before text afterBlank with
  | nil =>
      obtain ⟨afterBlank', cut⟩ := @cutAtHeadings_append_plain afterBlank _ [] plain
      refine ⟨[], [], ?_, by simp, rfl⟩
      simpa [writtenBlocks, cutAtHeadings] using cut
  | @cons block rest heading isBody more hypothesis =>
      have characters := isHeadingChar_of_heading heading
      -- what stands before the body of the block
      obtain ⟨front, isFront⟩ : ∃ front, front =
        before ++ (text ++ '\n' :: '\n' :: (block.heading.toList ++ [':', '\n'])) := ⟨_, rfl⟩
      have place : front.length =
          before.length + text.length + 2 + block.heading.toList.length + 2 := by
        rw [isFront]
        simp only [List.length_append, List.length_cons, List.length_nil]
        omega
      have isRest : comment = front ++ (block.body.toList ++ writtenBlocks rest) := by
        rw [isComment, isFront]
        simp [writtenBlocks, Block.written]
      have later : front.length ≠ 0 := by omega
      obtain ⟨tail, sections, cut, newlines, passages⟩ :=
        hypothesis false (isPlain_of_later later isBody.noHeading) isRest
      obtain ⟨afterBlank', cutText⟩ := @cutAtHeadings_append_plain afterBlank
        (linesAt before.length (text ++ ['\n']))
        ({ start := before.length + text.length + 1, content := [], ended := true } ::
          block.headingLine (before.length + text.length + 2) ::
            linesAt front.length (block.body.toList ++ writtenBlocks rest)) plain
      refine ⟨['\n', '\n'], (block.headingLine (before.length + text.length + 2),
        linesAt front.length (block.body.toList ++ tail)) :: sections, ?_, by simp, ?_⟩
      · rw [linesAt_writtenBlocks characters, ← place, cutText,
          cutAtHeadings_heading (isHeading_headingLine characters), cut,
          linesAt_append_newline before.length text ['\n']]
        rfl
      · rw [List.map_cons, List.map_cons, passages,
          headedPassage_headingLine heading (Nat.succ_ne_zero _) isBody newlines isRest]

/-! ## The terse line -/

section Terse

variable {terse : List Char}

/-- A terse line is no heading. -/
theorem IsTerse.isPlain (isTerse : IsTerse terse followed) :
    ∀ line ∈ linesAt 0 (if followed then terse ++ ['\n'] else terse), line.IsPlain := by
  intro line listed
  have noHeading := isTerse.noHeading
  cases followed with
  | true =>
      rw [if_pos rfl, linesAt_more isTerse.oneLine] at listed
      rcases List.mem_cons.1 listed with rfl | later
      · exact .inr noHeading
      · exact absurd later List.not_mem_nil
  | false =>
      rw [if_neg Bool.false_ne_true, linesAt_last isTerse.oneLine] at listed
      split at listed
      · exact absurd listed List.not_mem_nil
      · rw [List.mem_singleton.1 listed]
        exact .inr noHeading

theorem sentenceLength_terse
    (ended : Bool)
    (oneSentence : ∀ before c after,
      terse = before ++ '.' :: c :: after → Text.isAsciiBlank c = false) :
    sentenceLength ended terse = terse.length := by
  induction terse with
  | nil => rfl
  | cons c rest hypothesis =>
      have later := hypothesis fun before b after isRest =>
        oneSentence (c :: before) b after (by rw [isRest]; rfl)
      rw [sentenceLength, later]
      split
      · rename_i stops
        obtain ⟨isStop, blank⟩ := Bool.and_eq_true_iff.1 stops
        cases rest with
        | nil => rfl
        | cons b after =>
            have noBlank := oneSentence [] b after (by rw [beq_iff_eq.1 isStop]; rfl)
            rw [List.head?_cons, Option.map_some, Option.getD_some, noBlank] at blank
            contradiction
      · rfl

theorem skipDash_terse (oneLine : '\n' ∉ terse) (noDash : '-' ∉ terse) : skipDash terse = 0 := by
  refine Decidable.byContradiction fun skips => noDash ?_
  have started : terse.head? ≠ some '\n' := fun isHead => oneLine (List.mem_of_head? isHead)
  obtain ⟨lead, c, after, rfl, -, -, name, blank, blanks, rfl, -⟩ :=
    exists_leadingName started skips
  simp

/-- A terse line is the terse line of its comment, and no description follows it. -/
theorem openingPassages_terse
    (isTerse : IsTerse terse followed)
    (newlines : ∀ c ∈ tail, c = '\n')
    (isComment : comment = terse ++ text) :
    (openingPassages true (linesAt 0 (terse ++ tail))).map
        (·.map fun range => String.ofList (range.slice comment)) =
      [{ part := .terse, text := some (String.ofList terse) },
        { part := .description false, text := none }] := by
  have nonempty : terse.isEmpty = false := List.isEmpty_eq_false_iff.2 isTerse.nonempty
  obtain ⟨ended, further, lines, noText⟩ : ∃ ended further,
      linesAt 0 (terse ++ tail) = { start := 0, content := terse, ended } :: further ∧
        firstText? further = none := by
    cases tail with
    | nil =>
        refine ⟨false, [], ?_, rfl⟩
        rw [List.append_nil, linesAt_last isTerse.oneLine, nonempty]
        rfl
    | cons c tail =>
        obtain ⟨rfl, moreNewlines⟩ := List.forall_mem_cons.1 newlines
        exact ⟨true, _, linesAt_more isTerse.oneLine tail, firstText?_newlines moreNewlines⟩
  have sentence := sentenceLength_terse ended isTerse.oneSentence
  have range : Line.terseRange { start := 0, content := terse, ended } = ⟨0, terse.length⟩ := by
    rw [Line.terseRange, sentence, skipDash_terse isTerse.oneLine isTerse.noDash, ite_self]
  have slice : Range.slice ⟨0, terse.length⟩ comment = terse := by
    rw [Range.slice, isComment, List.drop_zero, Nat.sub_zero, List.take_left]
  rw [lines, openingPassages, nonempty, if_neg Bool.false_ne_true, if_pos rfl, range, sentence,
    textRange?, noText, textFrom?_length, Option.none_or]
  simp only [List.map_cons, List.map_nil, PassageOf.map, Option.map_some, slice]
  rfl

end Terse

/-! ## The parts -/

/-- Where the description and the returns have one block at most, all blocks keep their places. -/
theorem foldl_place_blocks
    (blocks : List Block)
    (parts : PartsOf String)
    (oneDescription : blocks.countP Block.isDescription ≤ 1)
    (oneReturns : blocks.countP Block.isReturns ≤ 1) :
    (blocks.map Block.passage).foldl PartsOf.place parts =
      { terse := parts.terse
        description := ((blocks.find? Block.isDescription).map Block.body).or parts.description
        returns := ((blocks.find? Block.isReturns).map Block.body).or parts.returns
        sections := parts.sections ++
          (blocks.filter Block.isSection).map fun block => (block.heading, some block.body)
        explicitDescription := parts.explicitDescription || blocks.any Block.isDescription } := by
  induction blocks generalizing parts with
  | nil => simp
  | cons block rest hypothesis =>
      rw [List.countP_cons] at oneDescription oneReturns
      rw [List.map_cons, List.foldl_cons, hypothesis _ (by omega) (by omega)]
      cases isDescription : block.isDescription with
      | true =>
          have none : ∀ later ∈ rest, ¬ later.isDescription = true := by
            rw [isDescription, if_pos rfl] at oneDescription
            exact List.countP_eq_zero.1 (by omega)
          have noReturns : block.isReturns = false := by
            rw [Block.isReturns, beq_iff_eq.1 isDescription]
            decide
          have place : parts.place block.passage =
              { parts with description := some block.body, explicitDescription := true } := by
            simp [PartsOf.place, Block.passage, Block.part, isDescription]
          rw [place, List.find?_eq_none.2 none]
          simp [isDescription, noReturns, Block.isSection]
      | false =>
          cases isReturns : block.isReturns with
          | true =>
              have none : ∀ later ∈ rest, ¬ later.isReturns = true := by
                rw [isReturns, if_pos rfl] at oneReturns
                exact List.countP_eq_zero.1 (by omega)
              have place : parts.place block.passage =
                  { parts with returns := some block.body } := by
                simp [PartsOf.place, Block.passage, Block.part, isDescription, isReturns]
              rw [place, List.find?_eq_none.2 none]
              simp [isDescription, isReturns, Block.isSection]
          | false =>
              have place : parts.place block.passage =
                  { parts with
                    sections := parts.sections ++ [(block.heading, some block.body)] } := by
                simp [PartsOf.place, Block.passage, Block.part, isDescription, isReturns]
              rw [place]
              simp [isDescription, isReturns, Block.isSection]

/-- Splitting a composed comment gives back what it was composed from. -/
theorem splitComment_composeComment
    (terse : String)
    (blocks : List Block)
    (identifier : String)
    (isTerse : IsTerse terse.toList (!blocks.isEmpty))
    (areBlocks : AreBlocks blocks)
    (oneDescription : blocks.countP Block.isDescription ≤ 1)
    (oneReturns : blocks.countP Block.isReturns ≤ 1) :
    splitComment (composeComment terse blocks) identifier true =
      { terse := some terse
        description := (blocks.find? Block.isDescription).map Block.body
        returns := (blocks.find? Block.isReturns).map Block.body
        sections := (blocks.filter Block.isSection).map fun block =>
          (block.heading, some block.body)
        explicitDescription := blocks.any Block.isDescription } := by
  have isComment : (composeComment terse blocks).toList =
      [] ++ (terse.toList ++ writtenBlocks blocks) := String.toList_ofList
  have plain : ∀ line ∈ linesAt ([] : List Char).length
      (if !blocks.isEmpty then terse.toList ++ ['\n'] else terse.toList), line.IsPlain :=
    isTerse.isPlain
  obtain ⟨tail, sections, cut, newlines, headed⟩ :=
    cutAtHeadings_blocks areBlocks identifier true plain isComment
  have lines : linesOf (composeComment terse blocks).toList =
      linesAt 0 (terse.toList ++ writtenBlocks blocks) := congrArg (linesAt 0) isComment
  rw [splitComment, splitRanges_eq, map_foldl_place, passages, lines]
  rw [List.length_nil] at cut
  rw [cut, List.map_append, openingPassages_terse isTerse newlines isComment, List.map_map]
  have sectionsHeaded : (sections.map (PassageOf.map (fun range => String.ofList
      (range.slice (composeComment terse blocks).toList)) ∘
        headedPassage (composeComment terse blocks).toList identifier true)) =
          blocks.map Block.passage := headed
  rw [sectionsHeaded, List.foldl_append, foldl_place_blocks blocks _ oneDescription oneReturns,
    String.ofList_toList]
  simp [PartsOf.place, PartsOf.map]

/-- Blocks of all kinds, the first with an empty line in its text. -/
def sampleBlocks : List Block :=
  [⟨"NOTES", "Stops at the end.\n\nKeeps the rest."⟩, ⟨"DESCRIPTION", "Copies at most size bytes."⟩,
    ⟨"SEE ALSO/BUGS", "none yet"⟩, ⟨"RETURNS", "the length"⟩]

/-- The description and the returns are told from the sections. -/
theorem splitComment_composeComment_sampleBlocks :
    IsTerse "copies text".toList true ∧ AreBlocks sampleBlocks ∧
    sampleBlocks.countP Block.isDescription ≤ 1 ∧ sampleBlocks.countP Block.isReturns ≤ 1 ∧
    splitComment (composeComment "copies text" sampleBlocks) "copy" true =
      { terse := some "copies text"
        description := some "Copies at most size bytes."
        returns := some "the length"
        sections := [("NOTES", some "Stops at the end.\n\nKeeps the rest."),
          ("SEE ALSO/BUGS", some "none yet")]
        explicitDescription := true } := by
  have isTerse : IsTerse "copies text".toList true :=
    { nonempty := by decide
      oneLine := by decide
      noHeading := by decide
      noDash := by decide
      oneSentence := fun before c after isText => by
        have noStop : '.' ∉ "copies text".toList := by decide
        exact absurd (by rw [isText]; simp) noStop }
  have inUpperCase (text : List Char) (upper : text.all (!·.isLower) = true) (c : Char)
      (listed : c ∈ text) : c.isLower = false := by
    simpa using List.all_eq_true.1 upper c listed
  have notes : IsSectionHeading "NOTES".toList :=
    ⟨by decide, List.all_eq_true.1 (by decide), inUpperCase _ (by decide), by decide, by decide⟩
  have bugs : IsSectionHeading "SEE ALSO/BUGS".toList :=
    ⟨by decide, List.all_eq_true.1 (by decide), inUpperCase _ (by decide), by decide, by decide⟩
  have areBlocks : AreBlocks sampleBlocks :=
    .cons (.inr (.inr notes)) ⟨by decide, by decide, by decide, by decide⟩
      (.cons (.inl (by decide)) ⟨by decide, by decide, by decide, by decide⟩
        (.cons (.inr (.inr bugs)) ⟨by decide, by decide, by decide, by decide⟩
          (.cons (.inr (.inl (by decide))) ⟨by decide, by decide, by decide, by decide⟩ .nil)))
  exact ⟨isTerse, areBlocks, by decide, by decide,
    (splitComment_composeComment "copies text" sampleBlocks "copy" isTerse areBlocks (by decide)
      (by decide)).trans (by decide)⟩

end Prose
end DeclManual
