import DeclManual.Proofs.Prose.Ranges
import DeclManual.Proofs.Text.Bytes

/-!
# The scan of the bytes of a comment

The scan of a comment looks for ASCII characters alone.  So it may as well run over the bytes
of the comment, where it finds the same places by the offsets of their bytes.
-/

namespace DeclManual
namespace Prose

variable
  {comment text front rest : List Char} {identifier : String} {wantTerse ended : Bool}
  {c b previous : Char} {passed offset : Nat}
  {state : SplitState} {line : Line} {lines : List Line} {range : Range}

/-! ## ASCII tests of the scan -/

/-- A blank that counts is an `ASCII` character. -/
theorem ascii_of_isAsciiBlank (blank : Text.isAsciiBlank c = true) : c.toNat < 128 := by
  simp only [Text.isAsciiBlank, Bool.or_eq_true, beq_iff_eq] at blank
  rcases blank with (((rfl | rfl) | rfl) | rfl) | rfl <;> decide

/-- A test for line ends sees the same in bytes and in characters. -/
theorem isAsciiTest_ne_newline : Text.IsAsciiTest (· != '\n') := by
  intro c b other other'
  have noNewline {d : Char} (isOther : 128 ≤ d.toNat) : (d != '\n') = true := by
    rw [bne_iff_ne]
    rintro rfl
    exact absurd isOther (by decide)
  exact (noNewline other).trans (noNewline other').symm

/-- A test for the characters of a heading sees the same in both. -/
theorem isAsciiTest_isHeadingChar : Text.IsAsciiTest isHeadingChar :=
  .of_ascii fun _ => ascii_of_isHeadingChar

/-- A test for blanks sees the same in both. -/
theorem isAsciiTest_isAsciiBlank : Text.IsAsciiTest Text.isAsciiBlank :=
  .of_ascii fun _ => ascii_of_isAsciiBlank

/-! ## Leading names and sentences -/

/-- What has been passed before is added to where a dash ends. -/
theorem dashEnd?_passed (previous : Char) (passed : Nat) (text : List Char) :
    dashEnd? previous passed text = (dashEnd? previous 0 text).map (passed + ·) := by
  induction text generalizing previous passed with
  | nil => rfl
  | cons c rest hypothesis =>
      rw [dashEnd?, dashEnd?]
      split
      · rfl
      · split
        · dsimp only
          split
          · simp [Nat.add_assoc]
          · rfl
        · rw [hypothesis c (passed + 1), hypothesis c (0 + 1), Option.map_map]
          congr 1
          funext further
          simp only [Function.comp_apply]
          omega

/-- A blank that does not end its line. -/
def isBlankOnLine (c : Char) : Bool :=
  c != '\n' && Text.isAsciiBlank c

/-- A test for blanks within a line sees the same in both. -/
theorem isAsciiTest_isBlankOnLine : Text.IsAsciiTest isBlankOnLine :=
  .of_ascii fun _ holds => ascii_of_isAsciiBlank (Bool.and_eq_true_iff.1 holds).2

/-- A dash ends a name if it stands between blanks and text follows. -/
theorem dashEnd?_dash (previous : Char) (passed : Nat) (rest : List Char) :
    dashEnd? previous passed ('-' :: rest) =
      if Text.isAsciiBlank previous && (rest.head?.map Text.isAsciiBlank).getD false &&
          ((rest.dropWhile isBlankOnLine).head?.map (· != '\n')).getD false then
        some (passed + 1 + (rest.takeWhile isBlankOnLine).length)
      else none := by
  rw [dashEnd?, if_neg (by decide), if_pos rfl]
  dsimp only
  rw [drop_length_takeWhile]
  rfl

/-- No dash is found before the end of a text that holds none. -/
theorem dashEnd?_append
    (plain : ∀ c ∈ front, c ≠ '\n' ∧ c ≠ '-') :
    dashEnd? previous passed (front ++ rest) =
      dashEnd? ((previous :: front).getLast (List.cons_ne_nil _ _)) (passed + front.length)
        rest := by
  induction front generalizing previous passed with
  | nil => rfl
  | cons c front hypothesis =>
      obtain ⟨⟨noNewline, noDash⟩, plain⟩ := List.forall_mem_cons.1 plain
      rw [List.cons_append, dashEnd?, if_neg noNewline, if_neg noDash, hypothesis plain,
        List.getLast_cons (List.cons_ne_nil _ _), List.length_cons, Nat.add_right_comm,
        Nat.add_assoc]

/-- The last byte of a character is a blank just if the character is. -/
theorem isAsciiBlank_getLast (previous c : Char) :
    Text.isAsciiBlank ((previous :: Text.encodedChar c).getLast (List.cons_ne_nil _ _)) =
      Text.isAsciiBlank c := by
  rw [List.getLast_cons (Text.encodedChar_ne_nil c)]
  exact isAsciiTest_isAsciiBlank.encodedChar (List.getLast_mem _)

/-- In the bytes of a text a dash ends a name where it does in the text. -/
theorem dashEnd?_encoded (same : Text.isAsciiBlank b = Text.isAsciiBlank previous) :
    dashEnd? b 0 (Text.encoded text) = (dashEnd? previous 0 text).map (Text.byteOffset text) := by
  induction text generalizing b previous with
  | nil => rfl
  | cons c rest hypothesis =>
      by_cases newline : c = '\n'
      · rw [newline, Text.encoded_cons_of_ascii (by decide), dashEnd?, if_pos rfl]
        rfl
      · by_cases dash : c = '-'
        · subst dash
          have length : ((Text.encoded rest).takeWhile isBlankOnLine).length =
              Text.byteOffset rest (rest.takeWhile isBlankOnLine).length := by
            rw [isAsciiTest_isBlankOnLine.takeWhile, Text.length_encoded, Text.byteOffset,
              ← List.prefix_iff_eq_take.1 (List.takeWhile_prefix _)]
          rw [Text.encoded_cons_of_ascii (by decide),
            dashEnd?_dash, dashEnd?_dash, isAsciiTest_isBlankOnLine.dropWhile,
            isAsciiTest_ne_newline.head?, isAsciiTest_isAsciiBlank.head?, same, length]
          split
          · rw [Option.map_some, Nat.zero_add, Nat.add_comm 1 (List.length _),
              Text.byteOffset_cons_succ]
            rfl
          · rfl
        · have plain : ∀ d ∈ Text.encodedChar c, d ≠ '\n' ∧ d ≠ '-' := by
            intro d listed
            constructor <;> rintro rfl
            · exact newline ((Text.mem_encodedChar_of_ascii (by decide)).1 listed).symm
            · exact dash ((Text.mem_encodedChar_of_ascii (by decide)).1 listed).symm
          rw [Text.encoded_cons, dashEnd?_append plain, dashEnd?_passed,
            hypothesis (isAsciiBlank_getLast b c), dashEnd?, if_neg newline, if_neg dash,
            dashEnd?_passed c (0 + 1), Option.map_map, Option.map_map, Text.length_encodedChar]
          congr 1
          funext further
          simp only [Function.comp_apply]
          rw [Nat.zero_add, Nat.zero_add, Nat.add_comm 1 further, Text.byteOffset_cons_succ]

/-- In the bytes of a text the same leading name is skipped. -/
theorem skipDash_encoded (text : List Char) :
    skipDash (Text.encoded text) = Text.byteOffset text (skipDash text) := by
  cases text with
  | nil => rfl
  | cons c rest =>
      obtain ⟨b, bytes, isChar, others⟩ := Text.exists_encodedChar_eq_cons c
      have plain : ∀ d ∈ bytes, d ≠ '\n' ∧ d ≠ '-' := by
        intro d listed
        constructor <;> rintro rfl <;> exact absurd (others _ listed) (by decide)
      have size : c.utf8Size = bytes.length + 1 := by
        rw [← Text.length_encodedChar, isChar, List.length_cons]
      have last : Text.isAsciiBlank ((b :: bytes).getLast (List.cons_ne_nil _ _)) =
          Text.isAsciiBlank c := by
        refine isAsciiTest_isAsciiBlank.encodedChar ?_
        rw [isChar]
        exact List.getLast_mem _
      rw [Text.encoded_cons, isChar, List.cons_append, skipDash, skipDash, dashEnd?_append plain,
        dashEnd?_passed, dashEnd?_encoded last, dashEnd?_passed c 1]
      cases dashEnd? c 0 rest with
      | none => rfl
      | some further =>
          simp only [Option.map_some, Option.getD_some]
          rw [Nat.add_comm 1 further, Text.byteOffset_cons_succ, size, Nat.add_comm 1]

/-- The characters before a byte offset at which a character starts. -/
theorem splitAtByte_byteLength (before after : List Char) :
    splitAtByte (Text.byteLength before) (before ++ after) = (before, after) := by
  induction before with
  | nil =>
      cases after with
      | nil => rfl
      | cons c rest => exact if_pos (Char.utf8Size_pos c)
  | cons c rest hypothesis =>
      have notBefore : ¬ Text.byteLength (c :: rest) < c.utf8Size := by
        rw [Text.byteLength]
        omega
      rw [List.cons_append, splitAtByte, if_neg notBefore, Text.byteLength, Nat.add_sub_cancel_left,
        hypothesis]

/-- Where a character starts, a leading name is skipped in the bytes that follow. -/
theorem skipDashFrom_eq (before after : List Char) :
    skipDashFrom (before ++ after) (Text.byteLength before) =
      Text.byteLength before + skipDash (Text.encoded after) := by
  rw [skipDashFrom, splitAtByte_byteLength, skipDash_encoded, Text.byteOffset]
  dsimp only
  split
  · rename_i none
    rw [none]
    rfl
  · rfl

theorem sentenceLength_append (noStop : '.' ∉ front) :
    sentenceLength ended (front ++ rest) = front.length + sentenceLength ended rest := by
  induction front with
  | nil => exact (Nat.zero_add _).symm
  | cons c front hypothesis =>
      rw [List.mem_cons, not_or] at noStop
      have other : (c == '.') = false := beq_false_of_ne (Ne.symm noStop.1)
      rw [List.cons_append, sentenceLength, other, Bool.false_and]
      simp only [Bool.false_eq_true, if_false]
      rw [hypothesis noStop.2, List.length_cons]
      omega

/-- The first sentence of the bytes of a text is that of the text. -/
theorem sentenceLength_encoded (ended : Bool) (text : List Char) :
    sentenceLength ended (Text.encoded text) =
      Text.byteOffset text (sentenceLength ended text) := by
  induction text with
  | nil => rfl
  | cons c rest hypothesis =>
      by_cases isStop : c = '.'
      · subst isStop
        rw [Text.encoded_cons_of_ascii (by decide),
          sentenceLength, sentenceLength, isAsciiTest_isAsciiBlank.head?, hypothesis]
        split
        · rfl
        · rw [Text.byteOffset_cons_succ, Nat.add_comm]
          rfl
      · have noStop : '.' ∉ Text.encodedChar c :=
          fun listed => isStop ((Text.mem_encodedChar_of_ascii (by decide)).1 listed).symm
        rw [Text.encoded_cons, sentenceLength_append noStop, hypothesis, Text.length_encodedChar,
          ← Text.byteOffset_cons_succ, sentenceLength, beq_false_of_ne isStop, Bool.false_and]
        rfl

/-! ## Lines -/

/-- A range of a comment as a range of its bytes. -/
def Range.encoded (comment : List Char) (range : Range) : Range where
  start := Text.byteOffset comment range.start
  stop := Text.byteOffset comment range.stop

/-- A line of a comment as a line of its bytes. -/
def Line.encoded (comment : List Char) (line : Line) : Line where
  start := Text.byteOffset comment line.start
  content := Text.encoded line.content
  ended := line.ended

/-- The empty text alone has an empty encoding. -/
theorem isEmpty_encoded (text : List Char) : (Text.encoded text).isEmpty = text.isEmpty := by
  rw [Bool.eq_iff_iff, List.isEmpty_iff, List.isEmpty_iff, Text.encoded_eq_nil_iff]

/-- The lines of the bytes are the lines of the text, with offsets for places. -/
theorem linesAt_encoded (before text : List Char) :
    linesAt (Text.byteLength before) (Text.encoded text) =
      (linesAt before.length text).map (·.encoded (before ++ text)) := by
  induction text using Text.lines_induction generalizing before with
  | last content oneLine =>
      have oneLineBytes : '\n' ∉ Text.encoded content :=
        fun listed => oneLine ((Text.mem_encoded_of_ascii (by decide)).1 listed)
      rw [linesAt_last oneLine, linesAt_last oneLineBytes, isEmpty_encoded]
      split
      · rfl
      · rw [List.map_singleton, Line.encoded, Text.byteOffset_length_append]
  | more content rest oneLine hypothesis =>
      have oneLineBytes : '\n' ∉ Text.encoded content :=
        fun listed => oneLine ((Text.mem_encoded_of_ascii (by decide)).1 listed)
      have later := hypothesis (before ++ content ++ ['\n'])
      rw [Text.byteLength_append, Text.byteLength_append, List.length_append, List.length_append,
        List.append_assoc, List.append_assoc] at later
      rw [Text.encoded_append, Text.encoded_cons_of_ascii (by decide), linesAt_more oneLine,
        linesAt_more oneLineBytes, List.map_cons,
        Line.encoded, Text.byteOffset_length_append, Text.length_encoded]
      exact congrArg _ later

/-- The lines of the bytes of a comment are those of the comment. -/
theorem linesOf_encoded (comment : List Char) :
    linesOf (Text.encoded comment) = (linesOf comment).map (·.encoded comment) :=
  linesAt_encoded [] comment

/-- The words of a heading are their own bytes. -/
theorem encoded_word (line : Line) : Text.encoded line.word = line.word :=
  Text.encoded_of_ascii fun _ listed => ascii_of_isHeadingChar (List.mem_takeWhile_imp listed)

/-- The first word of a line is the same in bytes, for it is `ASCII`. -/
theorem word_encoded : (line.encoded comment).word = line.word :=
  (isAsciiTest_isHeadingChar.takeWhile line.content).trans (encoded_word line)

/-- The first word of a line has as many bytes as characters. -/
theorem byteOffset_word (line : Line) :
    Text.byteOffset line.content line.word.length = line.word.length := by
  rw [content_eq_word_append, Text.byteOffset_length_append, ← Text.length_encoded, encoded_word]

/-- What follows the first word of a line is encoded. -/
theorem afterWord_encoded : (line.encoded comment).afterWord = Text.encoded line.afterWord :=
  isAsciiTest_isHeadingChar.dropWhile line.content

section Line

variable (stands : line.StandsIn comment)
include stands

/-- The offset of a position in a line. -/
theorem byteOffset_inside (inside : offset ≤ line.content.length) :
    Text.byteOffset comment (line.start + offset) =
      Text.byteOffset comment line.start + Text.byteOffset line.content offset := by
  obtain ⟨after, isDrop, -⟩ := stands.drop_start
  rw [Text.byteOffset_add, isDrop, Text.byteOffset, Text.byteOffset,
    List.take_append_of_le_length inside]
  rfl

/-- A line stops at the offset of where it stops in characters. -/
theorem stop_encoded :
    (line.encoded comment).stop = Text.byteOffset comment line.stop := by
  rw [Line.stop, Line.stop, byteOffset_inside stands (Nat.le_refl _), Text.byteOffset_length,
    ← Text.length_encoded]
  rfl

/-- A line starts the comment in bytes just if it does in characters. -/
theorem isStart_encoded : ((line.encoded comment).start == 0) = (line.start == 0) := by
  have inside : line.start ≤ comment.length :=
    Nat.le_trans (start_le_stop line) stands.stop_le_length
  rw [Bool.eq_iff_iff, beq_iff_eq, beq_iff_eq]
  exact Text.byteOffset_eq_zero_iff inside

/-- A line has the shape of a heading in bytes just if it does in characters. -/
theorem isShaped_encoded : (line.encoded comment).isShaped = line.isShaped := by
  rw [Line.isShaped, Line.isShaped, word_encoded, afterWord_encoded, isStart_encoded stands]
  cases line.afterWord with
  | nil => rfl
  | cons c rest =>
      by_cases colon : c = ':'
      · subst colon
        rw [Text.encoded_cons_of_ascii (by decide)]
        exact congrArg (fun isLast => _ || (isLast && _)) (isEmpty_encoded rest)
      · obtain ⟨b, bytes, isBytes, other⟩ :=
          Text.exists_encoded_cons_eq_cons_of_ne (b := ':') (by decide) colon rest
        rw [isBytes]
        simp [colon, other]

/-- A line is a heading in bytes just if it is one in characters. -/
theorem isHeading_encoded (afterBlank : Bool) :
    (line.encoded comment).isHeading afterBlank = line.isHeading afterBlank := by
  rw [Line.isHeading, Line.isHeading, isShaped_encoded stands, word_encoded, Line.encoded,
    isEmpty_encoded]

/-- The same part of a comment is named in bytes. -/
theorem part_encoded :
    (line.encoded comment).part identifier wantTerse = line.part identifier wantTerse := by
  rw [Line.part, Line.part, word_encoded, isStart_encoded stands]

/-- Text on a line of the bytes starts where it does on the line. -/
theorem textFrom?_encoded (offset : Nat) :
    (line.encoded comment).textFrom? (Text.byteOffset line.content offset) =
      (line.textFrom? offset).map (Text.byteOffset comment) := by
  have blanks : (((Text.encoded line.content).drop (Text.byteOffset line.content offset)).takeWhile
      Text.isAsciiBlank).length =
        Text.byteOffset (line.content.drop offset)
          ((line.content.drop offset).takeWhile Text.isAsciiBlank).length := by
    rw [Text.drop_byteOffset, isAsciiTest_isAsciiBlank.takeWhile, Text.length_encoded,
      Text.byteOffset, ← List.prefix_iff_eq_take.1 (List.takeWhile_prefix _)]
  have size : ((Text.encoded line.content).drop (Text.byteOffset line.content offset)).length =
      Text.byteOffset (line.content.drop offset) (line.content.drop offset).length := by
    rw [Text.drop_byteOffset, Text.length_encoded, Text.byteOffset_length]
  rw [Line.textFrom?, Line.textFrom?, Line.encoded, blanks, size]
  dsimp only
  by_cases more : ((line.content.drop offset).takeWhile Text.isAsciiBlank).length <
      (line.content.drop offset).length
  · have inside : offset + ((line.content.drop offset).takeWhile Text.isAsciiBlank).length ≤
        line.content.length := by
      rw [List.length_drop] at more
      omega
    rw [if_pos more, if_pos ((Text.byteOffset_lt_iff (Nat.le_refl _)).2 more), Option.map_some,
      Nat.add_assoc, Nat.add_assoc, byteOffset_inside stands inside, Text.byteOffset_add]
  · rw [if_neg more, if_neg fun less => more ((Text.byteOffset_lt_iff (Nat.le_refl _)).1 less)]
    rfl

/-- The text after a heading starts at its offset. -/
theorem textAfterHeading?_encoded :
    (line.encoded comment).textAfterHeading? =
      line.textAfterHeading?.map (Text.byteOffset comment) := by
  rw [Line.textAfterHeading?, Line.textAfterHeading?, afterWord_encoded, word_encoded]
  cases isAfter : line.afterWord with
  | nil => rfl
  | cons c rest =>
      by_cases colon : c = ':'
      · subst colon
        have offset :
            Text.byteOffset line.content (line.word.length + 1) = line.word.length + 1 := by
          rw [Text.byteOffset_add, byteOffset_word, content_eq_word_append, List.drop_left, isAfter]
          rfl
        rw [Text.encoded_cons_of_ascii (by decide)]
        exact (congrArg _ offset.symm).trans (textFrom?_encoded stands _)
      · obtain ⟨b, bytes, isBytes, other⟩ :=
          Text.exists_encoded_cons_eq_cons_of_ne (b := ':') (by decide) colon rest
        rw [isBytes]
        simp [colon, other]

/-- In the first line of the bytes the terse line stands where it does in the first line. -/
theorem terseRange_encoded (atStart : line.start = 0) :
    (line.encoded comment).terseRange = line.terseRange.encoded comment := by
  have length := sentenceLength_le line.ended line.content
  have inLine {place : Nat} (inside : place ≤ line.content.length) :
      Text.byteOffset comment place = Text.byteOffset line.content place := by
    have := byteOffset_inside stands inside
    rwa [atStart, Nat.zero_add, Text.byteOffset_zero, Nat.zero_add] at this
  rw [Line.terseRange, Line.terseRange, Line.encoded, Range.encoded, sentenceLength_encoded,
    skipDash_encoded]
  dsimp only
  rw [inLine length]
  by_cases short : skipDash line.content < sentenceLength line.ended line.content
  · rw [if_pos short, if_pos ((Text.byteOffset_lt_iff length).2 short),
      inLine (Nat.le_trans (Nat.le_of_lt short) length)]
  · rw [if_neg short, if_neg fun less => short ((Text.byteOffset_lt_iff length).1 less),
      Text.byteOffset_zero]

end Line

/-! ## The scan -/

/-- A state of the scan of a comment as a state of the scan of its bytes. -/
def SplitState.encoded (comment : List Char) (state : SplitState) : SplitState where
  parts := state.parts.map (·.encoded comment)
  slot := state.slot
  start := state.start.map (Text.byteOffset comment)
  stop := Text.byteOffset comment state.stop
  lastBlank := state.lastBlank
  dash := state.dash

/-- The text collected so far is the same range by its offsets. -/
theorem text?_encoded (comment : List Char) (state : SplitState) :
    (state.encoded comment).text? (Text.encoded comment) =
      (state.text? comment).map (·.encoded comment) := by
  have skipped (start : Nat) : Text.byteOffset comment start +
      skipDash ((Text.encoded comment).drop (Text.byteOffset comment start)) =
        Text.byteOffset comment (start + skipDash (comment.drop start)) := by
    rw [Text.drop_byteOffset, skipDash_encoded, Text.byteOffset_add]
  unfold SplitState.text? SplitState.encoded
  rw [Option.map_map, Option.map_map]
  congr 1
  funext start
  dsimp only [Function.comp_apply, Range.encoded]
  rw [skipped, Text.byteOffset_max]
  cases state.dash <;> rfl

/-- A slot is filled before or after the ranges are read. -/
theorem map_fill (read : Range → Range) (parts : PartsOf Range) (range : Range) (slot : Slot) :
    (parts.fill range slot).map read = (parts.map read).fill (read range) slot := by
  cases slot with
  | named index =>
      have sections : (parts.sections.modify index fun item => (item.1, some range)).map
          (fun item => (item.1, item.2.map read)) =
            (parts.sections.map fun item => (item.1, item.2.map read)).modify index
              fun item => (item.1, some (read range)) := by
        refine List.ext_getElem? fun place => ?_
        rw [List.getElem?_map, List.getElem?_modify, List.getElem?_modify, List.getElem?_map]
        split <;> cases parts.sections[place]? <;> rfl
      exact congrArg (fun sections => { parts.map read with sections }) sections
  | terse => rfl
  | description => rfl
  | returns => rfl

/-- A heading is announced before or after the ranges are read. -/
theorem map_announce (read : Range → Range) (parts : PartsOf Range) (part : Part) :
    (part.announce parts).map read = part.announce (parts.map read) := by
  cases part with
  | description explicit => cases explicit <;> rfl
  | named heading => simp [Part.announce, PartsOf.map]
  | terse => rfl
  | returns => rfl

/-- The text collected so far is stored alike. -/
theorem stored_encoded (comment : List Char) (state : SplitState) :
    (state.encoded comment).stored (Text.encoded comment) =
      (state.stored comment).map (·.encoded comment) := by
  cases isSlot : state.slot with
  | none =>
      have noSlot : (state.encoded comment).slot = none := isSlot
      rw [SplitState.stored_of_no_slot isSlot, SplitState.stored_of_no_slot noSlot]
      rfl
  | some slot =>
      have sameSlot : (state.encoded comment).slot = some slot := isSlot
      rw [SplitState.stored_of_slot isSlot, SplitState.stored_of_slot sameSlot, text?_encoded]
      cases state.text? comment with
      | none => rfl
      | some range => exact (map_fill _ _ range slot).symm

/-- The first line gives the terse description, and the description goes on after it. -/
theorem takeFirst_true (state : SplitState) (line : Line) :
    state.takeFirst true line =
      { state with
        parts := { state.parts with terse := some line.terseRange }
        slot := some .description
        start := line.textFrom? (sentenceLength line.ended line.content)
        stop := line.stop
        lastBlank := false } := rfl

/-- Where no terse description is wanted the description starts with the comment. -/
theorem takeFirst_false (state : SplitState) (line : Line) :
    state.takeFirst false line =
      { state with
        slot := some .description
        start := some 0
        stop := line.stop
        lastBlank := false } := rfl

section Step

variable (stands : line.StandsIn comment)
include stands

/-- A heading is opened alike in bytes and in characters. -/
theorem openHeading_encoded (state : SplitState) :
    (state.encoded comment).openHeading (Text.encoded comment) identifier wantTerse
        (line.encoded comment) =
      (state.openHeading comment identifier wantTerse line).encoded comment := by
  have opened : ((state.stored comment).map (·.encoded comment)).sections.length =
      (state.stored comment).sections.length := List.length_map _
  rw [openHeading_eq, openHeading_eq, stored_encoded, part_encoded stands,
    textAfterHeading?_encoded stands, stop_encoded stands, opened, ← map_announce]
  rfl

/-- The first line is taken alike in bytes and in characters. -/
theorem takeFirst_encoded (atStart : line.start = 0) (state : SplitState) :
    (state.encoded comment).takeFirst wantTerse (line.encoded comment) =
      (state.takeFirst wantTerse line).encoded comment := by
  cases wantTerse with
  | false =>
      rw [takeFirst_false, takeFirst_false, stop_encoded stands]
      rfl
  | true =>
      have sentence : sentenceLength (line.encoded comment).ended (line.encoded comment).content =
          Text.byteOffset line.content (sentenceLength line.ended line.content) :=
        sentenceLength_encoded line.ended line.content
      rw [takeFirst_true, takeFirst_true, terseRange_encoded stands atStart, stop_encoded stands,
        sentence, textFrom?_encoded stands]
      rfl

/-- A line of the bytes is read as the line is. -/
theorem step_encoded (state : SplitState) :
    (state.encoded comment).step (Text.encoded comment) identifier wantTerse
        (line.encoded comment) =
      (state.step comment identifier wantTerse line).encoded comment := by
  have heading : (line.encoded comment).isHeading (state.encoded comment).lastBlank =
      line.isHeading state.lastBlank :=
    isHeading_encoded stands state.lastBlank
  have isEmpty : (line.encoded comment).content.isEmpty = line.content.isEmpty :=
    isEmpty_encoded line.content
  cases nonempty : line.content.isEmpty with
  | true =>
      rw [step_empty nonempty, step_empty (isEmpty.trans nonempty)]
      rfl
  | false =>
      cases isHeading : line.isHeading state.lastBlank with
      | true =>
          rw [step_heading isHeading, step_heading (heading.trans isHeading)]
          exact openHeading_encoded stands state
      | false =>
          rw [step_plain nonempty isHeading,
            step_plain (isEmpty.trans nonempty) (heading.trans isHeading), isStart_encoded stands]
          split
          · rename_i first
            exact takeFirst_encoded stands (beq_iff_eq.1 first) state
          · rw [stop_encoded stands]
            unfold SplitState.encoded
            dsimp only
            split <;> cases state.start <;> rfl

end Step

/-- The scan of some lines of a comment, and of the bytes of these lines. -/
theorem foldl_step_encoded
    (stands : ∀ line ∈ lines, line.StandsIn comment)
    (state : SplitState) :
    (lines.map (·.encoded comment)).foldl
        (SplitState.step (Text.encoded comment) identifier wantTerse) (state.encoded comment) =
      (lines.foldl (SplitState.step comment identifier wantTerse) state).encoded comment := by
  induction lines generalizing state with
  | nil => rfl
  | cons line rest hypothesis =>
      obtain ⟨standsFirst, stands⟩ := List.forall_mem_cons.1 stands
      rw [List.map_cons, List.foldl_cons, List.foldl_cons, step_encoded standsFirst,
        hypothesis stands]

/-- Where the bytes of a comment are scanned, the parts are found at the offsets of where they
stand in the comment. -/
theorem splitRanges_encoded (comment : List Char) (identifier : String) (wantTerse : Bool) :
    splitRanges (Text.encoded comment) identifier wantTerse =
      (splitRanges comment identifier wantTerse).map (·.encoded comment) := by
  have started : ({} : SplitState) = ({} : SplitState).encoded comment := rfl
  rw [splitRanges, splitRanges, linesOf_encoded, started,
    foldl_step_encoded fun _ listed => standsIn_of_mem_linesOf listed, stored_encoded]
  rfl

end Prose
end DeclManual
