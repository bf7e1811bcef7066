import DeclManual.Proofs.Lists
import DeclManual.Proofs.Prose.ScanBytes

/-!
# The slices of a comment

While a comment is scanned, texts are cut out of it: the words of headings, the terse line, and
what has been collected for a part.  Each of them starts and ends between two characters of the
comment, also where it is cut out of the bytes, and the parts are slices that do not overlap.
-/

namespace DeclManual
namespace Prose

variable
  {comment : List Char} {identifier : String} {wantTerse : Bool}
  {state : SplitState} {line : Line} {lines : List Line} {range : Range} {slot : Slot}

/-! ## Slices of the scan -/

/-- The words of a heading. -/
def Line.wordRange (line : Line) : Range where
  start := line.start
  stop := line.start + line.word.length

/-- The text that is cut out where the text of a part ends. -/
def SplitState.collected? (comment : List Char) (state : SplitState) : Option Range :=
  state.slot.bind fun _ => state.text? comment

/-- The texts that are cut out while a line is read: the words of a heading, what a heading
ends, and the terse line. -/
def SplitState.slices
    (comment : List Char)
    (wantTerse : Bool)
    (state : SplitState)
    (line : Line) : List Range :=
  if line.content.isEmpty then []
  else
    (if line.isShaped then [line.wordRange] else []) ++
      if line.isHeading state.lastBlank then (state.collected? comment).toList
      else if line.start == 0 && wantTerse then [line.terseRange] else []

/-- The texts that are cut out while lines are read from a state on, and at their end. -/
def slicesFrom
    (comment : List Char)
    (identifier : String)
    (wantTerse : Bool)
    (state : SplitState) : List Line → List Range
  | [] => (state.collected? comment).toList
  | line :: rest =>
    state.slices comment wantTerse line ++
      slicesFrom comment identifier wantTerse (state.step comment identifier wantTerse line) rest

/-- The texts that are cut out of a comment. -/
def slicesOf (comment : List Char) (identifier : String) (wantTerse : Bool) : List Range :=
  slicesFrom comment identifier wantTerse {} (linesOf comment)

/-! ## The end of a slice -/

theorem start_le_stop_of_mem_collected? (isText : range ∈ state.collected? comment) :
    range.start ≤ range.stop := by
  obtain ⟨slot, -, isText⟩ := Option.bind_eq_some_iff.1 isText
  obtain ⟨start, -, rfl⟩ := Option.map_eq_some_iff.1 isText
  exact Nat.le_max_right _ _

theorem start_le_stop_of_mem_slices (listed : range ∈ state.slices comment wantTerse line) :
    range.start ≤ range.stop := by
  unfold SplitState.slices at listed
  split at listed
  · exact absurd listed List.not_mem_nil
  · rcases List.mem_append.1 listed with isWord | isText
    · split at isWord
      · rw [List.mem_singleton.1 isWord]
        exact Nat.le_add_right _ _
      · exact absurd isWord List.not_mem_nil
    · split at isText
      · exact start_le_stop_of_mem_collected? (Option.mem_toList.1 isText)
      · split at isText
        · rw [List.mem_singleton.1 isText, Line.terseRange]
          dsimp only
          split
          · exact Nat.le_of_lt ‹_›
          · exact Nat.zero_le _
        · exact absurd isText List.not_mem_nil

/-- No slice ends before it starts. -/
theorem start_le_stop_of_mem_slicesFrom
    (listed : range ∈ slicesFrom comment identifier wantTerse state lines) :
    range.start ≤ range.stop := by
  induction lines generalizing state with
  | nil => exact start_le_stop_of_mem_collected? (Option.mem_toList.1 listed)
  | cons line rest hypothesis =>
      rcases List.mem_append.1 listed with here | later
      · exact start_le_stop_of_mem_slices here
      · exact hypothesis later

/-! ## The texts of the parts are slices -/

theorem mem_texts_fill
    {parts : PartsOf Range}
    {other : Range}
    (listed : other ∈ (parts.fill range slot).texts) :
    other ∈ parts.texts ∨ other = range := by
  cases slot with
  | named index =>
      rcases List.mem_append.1 listed with inFront | inSections
      · exact .inl (List.mem_append_left _ inFront)
      · obtain ⟨item, isItem, text⟩ := List.mem_filterMap.1 inSections
        rcases mem_modify isItem with isOld | ⟨old, -, rfl⟩
        · exact .inl (List.mem_append_right _ (List.mem_filterMap.2 ⟨item, isOld, text⟩))
        · exact .inr (Option.some.inj text).symm
  | terse =>
      rcases PartsOf.mem_texts.1 listed with isNew | rest
      · exact .inr (Option.some.inj isNew).symm
      · exact .inl (PartsOf.mem_texts.2 (.inr rest))
  | description =>
      rcases PartsOf.mem_texts.1 listed with terse | isNew | rest
      · exact .inl (PartsOf.mem_texts.2 (.inl terse))
      · exact .inr (Option.some.inj isNew).symm
      · exact .inl (PartsOf.mem_texts.2 (.inr (.inr rest)))
  | returns =>
      rcases PartsOf.mem_texts.1 listed with terse | description | isNew | rest
      · exact .inl (PartsOf.mem_texts.2 (.inl terse))
      · exact .inl (PartsOf.mem_texts.2 (.inr (.inl description)))
      · exact .inr (Option.some.inj isNew).symm
      · exact .inl (PartsOf.mem_texts.2 (.inr (.inr (.inr rest))))

theorem mem_texts_stored (listed : range ∈ (state.stored comment).texts) :
    range ∈ state.parts.texts ∨ range ∈ state.collected? comment := by
  cases isSlot : state.slot with
  | none =>
      rw [SplitState.stored_of_no_slot isSlot] at listed
      exact .inl listed
  | some slot =>
      rw [SplitState.stored_of_slot isSlot] at listed
      rw [SplitState.collected?, isSlot, Option.bind_some]
      cases isText : state.text? comment with
      | none =>
          rw [isText] at listed
          exact .inl listed
      | some text =>
          rw [isText] at listed
          exact (mem_texts_fill listed).imp_right fun same => congrArg some same.symm

theorem texts_announce (parts : PartsOf Range) (part : Part) :
    (part.announce parts).texts = parts.texts := by
  cases part with
  | description explicit => cases explicit <;> rfl
  | named heading => simp [Part.announce, PartsOf.texts]
  | terse => rfl
  | returns => rfl

/-- Reading a line adds no text to the parts but what is cut out. -/
theorem mem_texts_step
    (listed : range ∈ (state.step comment identifier wantTerse line).parts.texts) :
    range ∈ state.parts.texts ∨ range ∈ state.slices comment wantTerse line := by
  cases isEmpty : line.content.isEmpty with
  | true =>
      rw [step_empty isEmpty] at listed
      exact .inl listed
  | false =>
      rw [SplitState.slices, isEmpty, if_neg Bool.false_ne_true]
      cases isHeading : line.isHeading state.lastBlank with
      | true =>
          rw [step_heading isHeading, openHeading_eq, texts_announce] at listed
          exact (mem_texts_stored listed).imp_right fun isText =>
            List.mem_append_right _ (Option.mem_toList.2 isText)
      | false =>
          rw [step_plain isEmpty isHeading] at listed
          cases first : line.start == 0 with
          | false =>
              rw [first] at listed
              exact .inl listed
          | true =>
              rw [first, if_pos rfl] at listed
              cases wantTerse with
              | false => exact .inl listed
              | true =>
                  have filled : range ∈ (state.parts.fill line.terseRange .terse).texts := listed
                  refine (mem_texts_fill filled).imp_right fun same => ?_
                  rw [same]
                  exact List.mem_append_right _ (List.mem_singleton_self _)

theorem mem_texts_scan
    (listed : range ∈
      ((lines.foldl (SplitState.step comment identifier wantTerse) state).stored comment).texts) :
    range ∈ state.parts.texts ∨ range ∈ slicesFrom comment identifier wantTerse state lines := by
  induction lines generalizing state with
  | nil => exact (mem_texts_stored listed).imp_right Option.mem_toList.2
  | cons line rest hypothesis =>
      rcases hypothesis listed with inParts | later
      · exact (mem_texts_step inParts).imp_right fun here => List.mem_append_left _ here
      · exact .inr (List.mem_append_right _ later)

/-! ## Slices of the bytes -/

theorem collected?_encoded (comment : List Char) (state : SplitState) :
    (state.encoded comment).collected? (Text.encoded comment) =
      (state.collected? comment).map (·.encoded comment) := by
  rw [SplitState.collected?, SplitState.collected?, text?_encoded, Option.map_bind]
  rfl

theorem slices_encoded (stands : line.StandsIn comment) (state : SplitState) :
    (state.encoded comment).slices (Text.encoded comment) wantTerse (line.encoded comment) =
      (state.slices comment wantTerse line).map (·.encoded comment) := by
  have word : (line.encoded comment).wordRange = line.wordRange.encoded comment := by
    have inside : line.word.length ≤ line.content.length := (List.takeWhile_prefix _).length_le
    rw [Line.wordRange, Line.wordRange, word_encoded, Range.encoded,
      byteOffset_inside stands inside, byteOffset_word]
    rfl
  have isEmpty : (line.encoded comment).content.isEmpty = line.content.isEmpty :=
    isEmpty_encoded line.content
  have isHeading : (line.encoded comment).isHeading (state.encoded comment).lastBlank =
      line.isHeading state.lastBlank :=
    isHeading_encoded stands state.lastBlank
  rw [SplitState.slices, SplitState.slices, word, isEmpty, isHeading, isShaped_encoded stands,
    isStart_encoded stands, collected?_encoded]
  split
  · rfl
  · rw [List.map_append]
    congr 1
    · split <;> rfl
    · split
      · cases state.collected? comment <;> rfl
      · split
        · rename_i first
          obtain ⟨atStart, -⟩ := Bool.and_eq_true_iff.1 first
          rw [terseRange_encoded stands (beq_iff_eq.1 atStart)]
          rfl
        · rfl

theorem slicesFrom_encoded
    (stands : ∀ line ∈ lines, line.StandsIn comment)
    (state : SplitState) :
    slicesFrom (Text.encoded comment) identifier wantTerse (state.encoded comment)
        (lines.map (·.encoded comment)) =
      (slicesFrom comment identifier wantTerse state lines).map (·.encoded comment) := by
  induction lines generalizing state with
  | nil =>
      rw [List.map_nil, slicesFrom, slicesFrom, collected?_encoded]
      cases state.collected? comment <;> rfl
  | cons line rest hypothesis =>
      obtain ⟨standsFirst, stands⟩ := List.forall_mem_cons.1 stands
      rw [List.map_cons, slicesFrom, slicesFrom, slices_encoded standsFirst,
        step_encoded standsFirst, hypothesis stands, List.map_append]

theorem slicesOf_encoded (comment : List Char) (identifier : String) (wantTerse : Bool) :
    slicesOf (Text.encoded comment) identifier wantTerse =
      (slicesOf comment identifier wantTerse).map (·.encoded comment) := by
  have started : ({} : SplitState) = ({} : SplitState).encoded comment := rfl
  rw [slicesOf, slicesOf, linesOf_encoded, started,
    slicesFrom_encoded fun _ listed => standsIn_of_mem_linesOf listed]
  rfl

namespace PartsOf

variable {first second third : Type}

theorem map_map (read : first → second) (further : second → third) (parts : PartsOf first) :
    (parts.map read).map further = parts.map (further ∘ read) := by
  simp [PartsOf.map, Function.comp_def]

theorem map_congr
    {parts : PartsOf first}
    {read other : first → second}
    (same : ∀ text ∈ parts.texts, read text = other text) :
    parts.map read = parts.map other := by
  have sameOption {text : Option first}
      (isText : ∀ found, text = some found → found ∈ parts.texts) :
      text.map read = text.map other := by
    cases text with
    | none => rfl
    | some found => exact congrArg some (same found (isText found rfl))
  have sections : parts.sections.map (fun item => (item.1, item.2.map read)) =
      parts.sections.map fun item => (item.1, item.2.map other) := by
    refine List.map_congr_left fun item listed => ?_
    rw [sameOption fun found text => mem_texts.2 (.inr (.inr (.inr ⟨item.1, text ▸ listed⟩)))]
  unfold PartsOf.map
  rw [sameOption fun found text => mem_texts.2 (.inl text),
    sameOption fun found text => mem_texts.2 (.inr (.inl text)),
    sameOption fun found text => mem_texts.2 (.inr (.inr (.inl text)))]
  exact congrArg (fun sections => { parts.map other with sections }) sections

end PartsOf

/-- A range of the bytes of a comment that may be cut out of it. -/
structure IsSlice (comment : String) (range : Range) : Prop where
  order : range.start ≤ range.stop
  starts : String.Pos.Raw.IsValid comment ⟨range.start⟩
  stops : String.Pos.Raw.IsValid comment ⟨range.stop⟩

/-- The bytes of a comment, each as the character with its number. -/
def commentBytes (comment : String) : List Char :=
  (Text.ofLatin1 comment.toUTF8).toList

/-- The scan of the bytes of a comment cuts every text out of it between two characters, and it
finds the parts of the comment.  Their texts are not empty, do not overlap, and neither start
nor end with a newline. -/
theorem splitComment_slices (comment identifier : String) (wantTerse : Bool) :
    (∀ range ∈ slicesOf (commentBytes comment) identifier wantTerse, IsSlice comment range) ∧
    (splitComment comment identifier wantTerse).map String.toUTF8 =
      (splitRanges (commentBytes comment) identifier wantTerse).map
        (fun range => comment.toUTF8.extract range.start range.stop) ∧
    (splitRanges (commentBytes comment) identifier wantTerse).texts.Pairwise Range.Apart ∧
    ∀ range ∈ (splitRanges (commentBytes comment) identifier wantTerse).texts,
      range ∈ slicesOf (commentBytes comment) identifier wantTerse ∧
      range.start < range.stop ∧ (commentBytes comment)[range.start]? ≠ some '\n' ∧
      (commentBytes comment)[range.stop - 1]? ≠ some '\n' := by
  have isBytes : commentBytes comment = Text.encoded comment.toList :=
    Text.toList_ofLatin1_toUTF8 comment
  obtain ⟨apart, spans⟩ := splitRanges_texts (commentBytes comment) identifier wantTerse
  refine ⟨?_, ?_, apart, fun range listed => ?_⟩
  · intro range listed
    rw [isBytes, slicesOf_encoded] at listed
    obtain ⟨slice, isSlice, rfl⟩ := List.mem_map.1 listed
    exact ⟨Text.byteOffset_mono _ (start_le_stop_of_mem_slicesFrom isSlice),
      Text.isValid_byteOffset _ _, Text.isValid_byteOffset _ _⟩
  · rw [isBytes, splitRanges_encoded, PartsOf.map_map, splitComment, PartsOf.map_map]
    refine PartsOf.map_congr fun range listed => ?_
    have order := (splitRanges_texts comment.toList identifier wantTerse).2 range listed
    exact (Text.extract_byteOffset comment (Nat.le_of_lt order.nonempty)).symm
  · obtain ⟨nonempty, -, starts, stops⟩ := (spans range listed).isText
    exact ⟨(mem_texts_scan listed).resolve_left List.not_mem_nil, nonempty, starts, stops⟩

-- the terse line, the words of the heading and the text of the returns
example :
    slicesOf (Text.encoded "é - ü\n\nRETURNS: ç".toList) "" true = [⟨5, 7⟩, ⟨9, 16⟩, ⟨18, 20⟩] := by
  decide

end Prose
end DeclManual
