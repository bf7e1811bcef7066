import DeclManual.Proofs.Prose.Fixup
import DeclManual.Proofs.Text.Lines

/-!
# What a returns body keeps of its comment

A returns body is read line by line.  A tagged line becomes an entry: its tag, and its text
without the run of colons and blanks between them.  With fixup off everything else is
written as it stands, up to blanks, with one exception: where an entry follows prose that
stops in the middle of a sentence, a full stop is written after that prose.  So the text is
unaltered exactly if every entry follows prose that has come to its end.
-/

namespace DeclManual
namespace Prose

open Markup

variable
  {voice : Voice} {state : ReturnsState} {sentence : Sentence} {last c : Char}
  {prose line text : List Char} {before lines : List (List Char)}

/-! ## Characters that are no blanks -/

/-- The characters of a text that are no blanks.  The blanks are the ASCII ones, so that no
other character of white space is overlooked. -/
def nonBlank (text : List Char) : List Char :=
  text.filter (!Text.isAsciiBlank ·)

theorem nonBlank_append (first second : List Char) :
    nonBlank (first ++ second) = nonBlank first ++ nonBlank second :=
  List.filter_append _ _

theorem writtenCharacters_append (first second : List Call) :
    writtenCharacters (first ++ second) = writtenCharacters first ++ writtenCharacters second :=
  List.filterMap_append

/-- A text that is written by characters is what was written. -/
theorem writtenCharacters_characters (text : List Char) :
    writtenCharacters (characters text) = text := by
  induction text with
  | nil => rfl
  | cons c rest hypothesis => exact congrArg (c :: ·) hypothesis

/-! ## Entries -/

/-- A line that is a request to the formatter. -/
def isRequest (voice : Voice) (line : List Char) : Bool :=
  voice.dotCommands && line.head? == some '.'

/-- A line that opens an entry. -/
def isEntry (voice : Voice) (line : List Char) : Bool :=
  !isRequest voice line && isTagged line

/-- The tag of an entry. -/
def tagOf (line : List Char) : List Char :=
  line.takeWhile (!endsTag ·)

/-- The run of colons and blanks after the tag of an entry. -/
def separatorOf (line : List Char) : List Char :=
  (line.dropWhile (!endsTag ·)).takeWhile endsTag

/-- What an entry says of its tag. -/
def entryText (line : List Char) : List Char :=
  (line.dropWhile (!endsTag ·)).dropWhile endsTag

/-- The line of a tag is its tag, its separator and its text. -/
theorem tagOf_separatorOf_entryText (line : List Char) :
    tagOf line ++ (separatorOf line ++ entryText line) = line := by
  rw [tagOf, separatorOf, entryText, List.takeWhile_append_dropWhile,
    List.takeWhile_append_dropWhile]

/-- A separator consists of characters that end a tag. -/
theorem endsTag_of_mem_separatorOf (member : c ∈ separatorOf line) : endsTag c = true :=
  List.mem_takeWhile_imp member

/-- What is kept of a line: all of it but the separator of an entry. -/
def kept (voice : Voice) (line : List Char) : List Char :=
  if isEntry voice line then tagOf line ++ entryText line else line

/-! ## Where a sentence is left open -/

/-- The prose of a line. -/
def proseOf (voice : Voice) (line : List Char) : List Char :=
  if isRequest voice line then [] else if isTagged line then entryText line else line

/-- The prose of lines from the last entry on. -/
def proseSinceTag (voice : Voice) (lines : List (List Char)) : List Char :=
  lines.foldl
    (fun prose line =>
      if isEntry voice line then entryText line else prose ++ proseOf voice line) []

/-- Whether prose stops in the middle of a sentence: of its letters, digits and full stops, the
last is no full stop. -/
def isMidSentence (prose : List Char) : Bool :=
  (prose.filter fun c => c.isAlphanum || c == '.').getLast?.any Char.isAlphanum

/-- The prose of the last of some lines. -/
def lastProse (voice : Voice) (lines : List (List Char)) : List Char :=
  (lines.getLast?.map (proseOf voice)).getD []

/-- The last character of prose, unless it is a punctuation character. -/
def openEnd (prose : List Char) : Option Char :=
  prose.getLast?.filter (!Text.isAsciiPunctuation ·)

/-- Whether lines leave a sentence open: the last of them ends in prose without punctuation, in
the middle of a sentence. -/
def leavesOpen (voice : Voice) (lines : List (List Char)) : Bool :=
  (openEnd (lastProse voice lines)).isSome && isMidSentence (proseSinceTag voice lines)

/-- What is kept of lines, with a full stop in front of every entry that follows an open
sentence; `before` are the lines in front of them. -/
def withStops (voice : Voice) : (before : List (List Char)) -> List (List Char) -> List Char
  | _, [] => []
  | before, line :: rest =>
    (if isEntry voice line && leavesOpen voice before then ['.'] else []) ++ kept voice line ++
      withStops voice (before ++ [line]) rest

/-! ## One line -/

theorem isMidSentence_concat (prose : List Char) (c : Char) :
    isMidSentence (prose ++ [c]) =
      if c.isAlphanum then true else if c = '.' then false else isMidSentence prose := by
  unfold isMidSentence
  rw [List.filter_append]
  by_cases word : c.isAlphanum = true
  · simp [word]
  · by_cases stop : c = '.'
    · subst stop
      simp
    · simp [word, stop]

/-- A sentence stands in its text exactly in the middle of a sentence. -/
def Sentence.Follows (sentence : Sentence) (prose : List Char) : Prop :=
  sentence = .text ↔ isMidSentence prose = true

/-- No prose stops in the middle of a sentence. -/
theorem follows_capitalise : Sentence.capitalise.Follows [] := by
  show Sentence.capitalise = .text ↔ isMidSentence [] = true
  decide

/-- The sentence follows the prose by one more character. -/
theorem Sentence.Follows.step (follows : sentence.Follows prose) (c : Char) :
    (sentence.step false c).1.Follows (prose ++ [c]) := by
  unfold Sentence.Follows at follows ⊢
  rw [isMidSentence_concat, Sentence.step]
  by_cases stop : c = '.'
  · subst stop
    simp
  rw [if_neg stop, if_neg stop]
  by_cases word : c.isAlphanum = true
  · simp [word, isAsciiBlank_of_isAlphanum word]
  rw [if_neg word, if_neg word, ← follows]
  split
  · rename_i blankAfterStop
    have atStop : sentence = .period := eq_of_beq (Bool.and_eq_true_iff.1 blankAfterStop).2
    simp [atStop]
  · rfl

/-- Without fixup a character is written as it is. -/
theorem step_snd (sentence : Sentence) (c : Char) : (sentence.step false c).2 = c := by
  unfold Sentence.step
  split
  · rfl
  split
  · rfl
  split <;> rfl

/-- With fixup off, a line is written as it stands. -/
theorem stepLine_off (sentence : Sentence) (last : Char) (line : List Char) :
    (stepLine false sentence last line).2.1 = line.getLast?.getD last ∧
      writtenCharacters (stepLine false sentence last line).2.2 = line := by
  induction line generalizing sentence last with
  | nil => exact ⟨rfl, rfl⟩
  | cons c rest hypothesis =>
      obtain ⟨ends, written⟩ := hypothesis (sentence.step false c).1 (sentence.step false c).2
      unfold stepLine
      dsimp only
      constructor
      · rw [ends, step_snd]
        cases rest <;> rfl
      · rw [step_snd] at written ⊢
        exact congrArg (c :: ·) written

/-- The sentence follows the prose by one more line. -/
theorem Sentence.Follows.stepLine
    (follows : sentence.Follows prose)
    (last : Char)
    (line : List Char) :
    (stepLine false sentence last line).1.Follows (prose ++ line) := by
  induction line generalizing sentence last prose with
  | nil => rwa [List.append_nil]
  | cons c rest hypothesis =>
      have further := hypothesis (follows.step c) (sentence.step false c).2
      rwa [List.append_assoc, List.singleton_append] at further

theorem openEnd_concat (front : List Char) (c : Char) :
    openEnd (front ++ [c]) = if Text.isAsciiPunctuation c then none else some c := by
  unfold openEnd
  rw [List.getLast?_concat]
  cases punctuation : Text.isAsciiPunctuation c <;> simp [Option.filter, punctuation]

/-- What a returns body remembers of the prose before it and of the last line of that prose:
where the sentence stands, and the last character, unless that ended the line. -/
structure ReturnsState.Follows
    (state : ReturnsState)
    (prose lastProse : List Char) : Prop where
  sentence : state.sentence.Follows prose
  last : state.last = (openEnd lastProse).getD '\n'

/-- The state follows the prose by the line that is written. -/
theorem follows_writeReturnsText
    (follows : state.sentence.Follows prose)
    (line : List Char) :
    (writeReturnsText false state line).1.Follows (prose ++ line) line := by
  have after := follows.stepLine '\n' line
  have ends := (stepLine_off state.sentence '\n' line).1
  unfold writeReturnsText
  dsimp only
  rw [ends]
  cases last : line.getLast? with
  | none => exact ⟨after, by rw [openEnd, last]; rfl⟩
  | some c =>
      obtain ⟨front, rfl⟩ := List.getLast?_eq_some_iff.1 last
      rw [Option.getD_some]
      split
      · rename_i punctuation
        refine ⟨?_, by rw [openEnd_concat, if_pos punctuation]; rfl⟩
        dsimp only
        split
        · rename_i stop
          have ended : isMidSentence (prose ++ front ++ [c]) = false := by
            rw [isMidSentence_concat, eq_of_beq stop]
            rfl
          rw [Sentence.Follows, ← List.append_assoc, ended]
          decide
        · exact after
      · rename_i noPunctuation
        exact ⟨after, by rw [openEnd_concat, if_neg noPunctuation]; rfl⟩

/-- A newline that ends the line before is a blank. -/
theorem nonBlank_lead (state : ReturnsState) :
    nonBlank (writtenCharacters
      (if state.last == '\n' then [] else [Call.character '\n'])) = [] := by
  split
  · rfl
  · decide

/-- The text between two tags shows as it is. -/
theorem nonBlank_writeReturnsText (state : ReturnsState) (line : List Char) :
    nonBlank (writtenCharacters (writeReturnsText false state line).2) = nonBlank line := by
  have written := (stepLine_off state.sentence '\n' line).2
  have newline : nonBlank (writtenCharacters [.character '\n']) = [] := by decide
  unfold writeReturnsText
  dsimp only
  split
  · rw [writtenCharacters_append, writtenCharacters_append, written, nonBlank_append,
      nonBlank_append, nonBlank_lead, newline, List.nil_append, List.append_nil]
  · rw [writtenCharacters_append, written, nonBlank_append, nonBlank_lead, List.nil_append]

/-! ## All lines -/

theorem proseSinceTag_concat (voice : Voice) (before : List (List Char)) (line : List Char) :
    proseSinceTag voice (before ++ [line]) =
      if isEntry voice line then entryText line
      else proseSinceTag voice before ++ proseOf voice line := by
  rw [proseSinceTag, List.foldl_append]
  rfl

theorem lastProse_concat (voice : Voice) (before : List (List Char)) (line : List Char) :
    lastProse voice (before ++ [line]) = proseOf voice line := by
  rw [lastProse, List.getLast?_concat]
  rfl

/-- A full stop is written before a tag just if a sentence is left open. -/
theorem nonBlank_closeBeforeTag
    (follows : state.Follows prose text)
    (oneLine : '\n' ∉ text) :
    nonBlank (writtenCharacters (closeBeforeTag state)) =
      if (openEnd text).isSome && isMidSentence prose then ['.'] else [] := by
  unfold closeBeforeTag
  cases ended : openEnd text with
  | none =>
      have atStart : state.last = '\n' := by rw [follows.last, ended]; rfl
      rw [atStart]
      rfl
  | some c =>
      have isLast : state.last = c := by rw [follows.last, ended]; rfl
      obtain ⟨isEnd, noPunctuation⟩ := Option.filter_eq_some_iff.1 ended
      have noNewline : c ≠ '\n' := by
        rintro rfl
        exact oneLine (List.mem_of_getLast? isEnd)
      have inText : (state.sentence == .text) = isMidSentence prose := by
        rw [Bool.eq_iff_iff, beq_iff_eq]
        exact follows.sentence
      rw [isLast, if_neg (mt eq_of_beq noNewline), inText, noPunctuation, Bool.and_true,
        Option.isSome_some, Bool.true_and]
      split
      · decide
      · decide

/-- A line is a request, opens an entry, or is plain prose. -/
theorem line_cases (voice : Voice) (line : List Char) :
    (isRequest voice line = true ∧ isEntry voice line = false ∧ proseOf voice line = []) ∨
      (isEntry voice line = true ∧ proseOf voice line = entryText line) ∨
      (isRequest voice line = false ∧ isTagged line = false ∧ isEntry voice line = false ∧
        proseOf voice line = line) := by
  unfold isEntry proseOf
  cases isRequest voice line with
  | true => exact .inl ⟨rfl, rfl, rfl⟩
  | false =>
      cases isTagged line with
      | true => exact .inr (.inl ⟨rfl, rfl⟩)
      | false => exact .inr (.inr ⟨rfl, rfl, rfl, rfl⟩)

/-- The line of a request is passed over. -/
theorem returnsLine_of_isRequest (request : isRequest voice line = true) :
    returnsLine voice state line =
      ({ state with last := '\n' },
        (if state.last == '\n' then [] else [Call.character '\n']) ++ characters line ++
          [.character '\n']) :=
  if_pos request

/-- The line of a tag closes the sentence before it and opens the tag. -/
theorem returnsLine_of_isEntry (off : voice.fixup = false) (entry : isEntry voice line = true) :
    returnsLine voice state line =
      let opened : ReturnsState := { sentence := .capitalise, last := '\n', listStarted := true }
      ((writeReturnsText false opened (entryText line)).1,
        closeBeforeTag state ++ openTag state (tagOf line) ++
          (writeReturnsText false opened (entryText line)).2) := by
  obtain ⟨noRequest, tagged⟩ := Bool.and_eq_true_iff.1 entry
  have noRequest : ¬ isRequest voice line = true := by simpa using noRequest
  rw [← off]
  exact (if_neg noRequest).trans (if_pos tagged)

/-- Any other line is written as text. -/
theorem returnsLine_of_plain
    (off : voice.fixup = false)
    (noRequest : isRequest voice line = false)
    (noTag : isTagged line = false) :
    returnsLine voice state line = writeReturnsText false state line := by
  rw [← off]
  exact (if_neg (Bool.eq_false_iff.1 noRequest)).trans (if_neg (Bool.eq_false_iff.1 noTag))

/-- The state follows the lines by one more line. -/
theorem follows_returnsLine
    (off : voice.fixup = false)
    (follows : state.Follows (proseSinceTag voice before) (lastProse voice before))
    (line : List Char) :
    (returnsLine voice state line).1.Follows (proseSinceTag voice (before ++ [line]))
      (lastProse voice (before ++ [line])) := by
  rw [proseSinceTag_concat, lastProse_concat]
  rcases line_cases voice line with
    ⟨request, noEntry, noProse⟩ | ⟨entry, isText⟩ | ⟨noRequest, noTag, noEntry, isLine⟩
  · rw [returnsLine_of_isRequest request, noEntry, noProse, if_neg Bool.false_ne_true,
      List.append_nil]
    exact ⟨follows.sentence, rfl⟩
  · have opened : (ReturnsState.mk .capitalise '\n' true).sentence.Follows [] := follows_capitalise
    rw [returnsLine_of_isEntry off entry, if_pos entry, isText]
    exact follows_writeReturnsText opened (entryText line)
  · rw [returnsLine_of_plain off noRequest noTag, noEntry, if_neg Bool.false_ne_true, isLine]
    exact follows_writeReturnsText follows.sentence line

/-- Opening a tag writes the tag and no other character. -/
theorem writtenCharacters_openTag (state : ReturnsState) (tag : List Char) :
    writtenCharacters (openTag state tag) = tag := by
  have start : writtenCharacters (if state.listStarted then [] else [Call.tagListStart]) = [] := by
    split <;> rfl
  have entry : writtenCharacters (.tagEntryStart :: characters tag ++ [.tagEntryEnd]) = tag := by
    rw [writtenCharacters_append, ← List.singleton_append, writtenCharacters_append,
      writtenCharacters_characters]
    exact List.append_nil tag
  unfold openTag
  rw [List.append_assoc, writtenCharacters_append, start, entry, List.nil_append]

/-- A line shows as what is kept of it, after a full stop if one is due. -/
theorem nonBlank_returnsLine
    (off : voice.fixup = false)
    (follows : state.Follows (proseSinceTag voice before) (lastProse voice before))
    (oneLine : '\n' ∉ lastProse voice before)
    (line : List Char) :
    nonBlank (writtenCharacters (returnsLine voice state line).2) =
      (if isEntry voice line && leavesOpen voice before then ['.'] else []) ++
        nonBlank (kept voice line) := by
  unfold kept
  rcases line_cases voice line with
    ⟨request, noEntry, -⟩ | ⟨entry, -⟩ | ⟨noRequest, noTag, noEntry, -⟩
  · have newline : nonBlank (writtenCharacters [.character '\n']) = [] := by decide
    rw [returnsLine_of_isRequest request, noEntry, writtenCharacters_append,
      writtenCharacters_append, nonBlank_append, nonBlank_append, nonBlank_lead, newline,
      writtenCharacters_characters, List.append_nil]
    rfl
  · rw [returnsLine_of_isEntry off entry, entry, Bool.true_and, if_pos rfl]
    dsimp only
    rw [writtenCharacters_append, writtenCharacters_append, nonBlank_append, nonBlank_append,
      nonBlank_closeBeforeTag follows oneLine, nonBlank_writeReturnsText,
      writtenCharacters_openTag, nonBlank_append, List.append_assoc]
    rfl
  · rw [returnsLine_of_plain off noRequest noTag, nonBlank_writeReturnsText, noEntry]
    rfl

/-- What stands in no line stands in no prose. -/
theorem not_mem_proseOf (absent : c ∉ line) : c ∉ proseOf voice line := by
  unfold proseOf entryText
  split
  · exact List.not_mem_nil
  split
  · intro member
    exact absent (List.dropWhile_subset _ (List.dropWhile_subset _ member))
  · exact absent

/-- Whatever lines stand before, what is written for the others is what is kept of them, with
the full stops after open sentences. -/
theorem nonBlank_returnsLines
    (off : voice.fixup = false)
    (follows : state.Follows (proseSinceTag voice before) (lastProse voice before))
    (oneLine : '\n' ∉ lastProse voice before)
    (noNewlines : ∀ line ∈ lines, '\n' ∉ line) :
    nonBlank (writtenCharacters (returnsLines voice state lines)) =
      nonBlank (withStops voice before lines) := by
  induction lines generalizing state before with
  | nil =>
      have ending :
          writtenCharacters (if state.listStarted then [Call.tagListEnd] else []) = [] := by
        split <;> rfl
      have close : nonBlank (writtenCharacters
          (if state.last == '\n' then [] else [Call.character '\n'])) = [] := nonBlank_lead state
      rw [returnsLines, off, Bool.and_false, if_neg Bool.false_ne_true, writtenCharacters_append,
        nonBlank_append, ending, close]
      rfl
  | cons line rest hypothesis =>
      have noNewline := noNewlines line List.mem_cons_self
      have further := hypothesis (follows_returnsLine off follows line)
        (lastProse_concat voice before line ▸ not_mem_proseOf noNewline)
        fun other later => noNewlines other (List.mem_cons_of_mem line later)
      rw [returnsLines, withStops]
      dsimp only
      rw [writtenCharacters_append, nonBlank_append, nonBlank_returnsLine off follows oneLine,
        further, nonBlank_append, nonBlank_append]
      split
      · rfl
      · rfl

/-! ## The whole body -/

/-- What is kept of lines is written in order, and nothing but full stops between it. -/
theorem kept_sublist_withStops (voice : Voice) (before lines : List (List Char)) :
    (nonBlank (lines.flatMap (kept voice))).Sublist (nonBlank (withStops voice before lines)) := by
  induction lines generalizing before with
  | nil => exact .slnil
  | cons line rest hypothesis =>
      rw [List.flatMap_cons, withStops, nonBlank_append, nonBlank_append, nonBlank_append,
        List.append_assoc]
      exact ((List.Sublist.refl _).append (hypothesis _)).trans (List.sublist_append_right _ _)

/-- A full stop shows. -/
theorem nonBlank_stop (isStopped : Bool) :
    nonBlank (if isStopped then ['.'] else []) = if isStopped then ['.'] else [] := by
  cases isStopped <;> decide

/-- Nothing is written beside what is kept of lines exactly if there is no full stop in front of
the first, and nothing beside what is kept of the others. -/
theorem withStops_cons_eq_iff (before lines : List (List Char)) (line : List Char) :
    nonBlank (withStops voice before (line :: lines)) =
        nonBlank ((line :: lines).flatMap (kept voice)) ↔
      (isEntry voice line && leavesOpen voice before) = false ∧
        nonBlank (withStops voice (before ++ [line]) lines) =
          nonBlank (lines.flatMap (kept voice)) := by
  rw [withStops, List.flatMap_cons, nonBlank_append, nonBlank_append, nonBlank_append,
    nonBlank_stop, List.append_assoc]
  cases isEntry voice line && leavesOpen voice before with
  | false =>
      rw [if_neg Bool.false_ne_true, List.nil_append, List.append_cancel_left_eq]
      exact (and_iff_right rfl).symm
  | true =>
      -- With a full stop in front, more is written than what is kept.
      have shorter := (kept_sublist_withStops voice (before ++ [line]) lines).length_le
      refine iff_of_false (fun same => ?_) fun both => Bool.noConfusion both.1
      have lengths := congrArg List.length same
      simp only [if_true, List.length_append, List.length_singleton] at lengths
      omega

/-- Nothing is written beside what is kept exactly if every entry follows prose that has come to
its end. -/
theorem withStops_eq_iff (before lines : List (List Char)) :
    nonBlank (withStops voice before lines) = nonBlank (lines.flatMap (kept voice)) ↔
      ∀ earlier line later, lines = earlier ++ line :: later -> isEntry voice line = true ->
        leavesOpen voice (before ++ earlier) = false := by
  induction lines generalizing before with
  | nil => simp [withStops]
  | cons line rest hypothesis =>
      rw [withStops_cons_eq_iff, hypothesis]
      constructor
      · rintro ⟨noStop, closed⟩ earlier entry later split opens
        cases earlier with
        | nil =>
            obtain ⟨rfl, rfl⟩ := List.cons.inj split
            rwa [opens, Bool.true_and, ← List.append_nil before] at noStop
        | cons first earlier =>
            obtain ⟨rfl, rfl⟩ := List.cons.inj split
            have further := closed earlier entry later rfl opens
            rwa [List.append_assoc, List.singleton_append] at further
      · intro closed
        constructor
        · cases opens : isEntry voice line with
          | false => rfl
          | true =>
              have here := closed [] line rest rfl opens
              rwa [List.append_nil] at here
        · intro earlier entry later split opens
          rw [List.append_assoc, List.singleton_append]
          exact closed (line :: earlier) entry later (congrArg (line :: ·) split) opens

/-- With fixup off, a returns body writes what is kept of its comment, with a full stop in front
of every entry that follows an open sentence.  So the text is unaltered exactly if every entry
follows prose that has come to its end.  All of the comment is kept but the runs of colons and
blanks between tags and what is said of them. -/
theorem returns_unaltered_iff (off : voice.fixup = false) (comment : String) :
    nonBlank (writtenCharacters (returns voice comment)) =
        nonBlank (withStops voice [] (Text.lines comment.toList)) ∧
      (nonBlank (writtenCharacters (returns voice comment)) =
          nonBlank ((Text.lines comment.toList).flatMap (kept voice)) ↔
        ∀ before line after, Text.lines comment.toList = before ++ line :: after ->
          isEntry voice line = true -> leavesOpen voice before = false) ∧
      nonBlank (Text.lines comment.toList).flatten = nonBlank comment.toList ∧
      ∀ line, tagOf line ++ (separatorOf line ++ entryText line) = line ∧
        ∀ c ∈ separatorOf line, endsTag c = true := by
  have initial : (ReturnsState.mk .capitalise '\n' false).Follows [] [] :=
    ⟨follows_capitalise, rfl⟩
  have written : nonBlank (writtenCharacters (returns voice comment)) =
      nonBlank (withStops voice [] (Text.lines comment.toList)) :=
    nonBlank_returnsLines off initial List.not_mem_nil
      fun _ member => Text.newline_not_mem_of_mem_lines member
  refine ⟨written, ?_, Text.filter_flatten_lines rfl rfl comment.toList, ?_⟩
  · rw [written]
    exact withStops_eq_iff [] _
  · exact fun line => ⟨tagOf_separatorOf_entryText line, fun _ => endsTag_of_mem_separatorOf⟩

/-- An entry after a closed sentence, and one after an empty line. -/
theorem returns_unaltered_iff_closed :
    nonBlank (writtenCharacters
        (returns { fixup := false } "zero.\nEINVAL: bad\n\nENOMEM:\tnone")) =
      "zero.EINVALbadENOMEMnone".toList ∧
      ∀ before line after,
        Text.lines "zero.\nEINVAL: bad\n\nENOMEM:\tnone".toList = before ++ line :: after ->
          isEntry { fixup := false } line = true -> leavesOpen { fixup := false } before = false :=
  ⟨by decide +kernel,
    (returns_unaltered_iff rfl "zero.\nEINVAL: bad\n\nENOMEM:\tnone").2.1.1 (by decide +kernel)⟩

/-- A full stop is written after an open sentence in front of an entry. -/
theorem returns_stops_openSentence :
    writtenCharacters (returns { fixup := false } "the sum\nEINVAL: bad") =
        "the sum.\nEINVALbad\n".toList ∧
      nonBlank ((Text.lines "the sum\nEINVAL: bad".toList).flatMap (kept { fixup := false })) =
        "thesumEINVALbad".toList := by
  decide +kernel

end Prose
end DeclManual
