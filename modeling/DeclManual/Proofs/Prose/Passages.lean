import DeclManual.Proofs.Prose.Lines

/-!
# A comment as a sequence of passages

The headings of a comment cut its lines into passages.  Each passage goes to one part of the
page, and its text reaches from the first text after its heading to the end of its last line
that is not empty.  Before the first heading, the first line opens the description, and the
terse line is taken from it.  The scan of a comment, line by line, places the texts of the
passages in order: a later text of the terse line, the description or the returns takes the
place of an earlier one, and every other heading opens a section of its own.
-/

namespace DeclManual
namespace Prose

variable {comment : List Char} {identifier : String} {wantTerse : Bool} {line : Line}

/-! ## Parts -/

/-- The part of a page that a passage goes to. -/
inductive Part where
  | terse
  /-- The description, which may have a heading that says so. -/
  | description (explicit : Bool)
  | returns
  | named (heading : String)
deriving DecidableEq, Repr

/-- A passage of a comment over the form in which its text is given, if it has any. -/
structure PassageOf (text : Type) where
  part : Part
  text : Option text
deriving DecidableEq, Repr

/-- A passage of a comment, with the range of its text. -/
abbrev Passage := PassageOf Range

/-- A passage with its text in another form. -/
def PassageOf.map {first second : Type} (read : first → second) (passage : PassageOf first) :
    PassageOf second where
  part := passage.part
  text := passage.text.map read

/-- Puts a passage in its place. -/
def PartsOf.place {text : Type} (parts : PartsOf text) (passage : PassageOf text) : PartsOf text :=
  match passage.part with
  | .terse => { parts with terse := passage.text.or parts.terse }
  | .description explicit =>
    { parts with
      description := passage.text.or parts.description
      explicitDescription := parts.explicitDescription || explicit }
  | .returns => { parts with returns := passage.text.or parts.returns }
  | .named heading => { parts with sections := parts.sections ++ [(heading, passage.text)] }

/-- Texts may be read before or after they are placed. -/
theorem map_foldl_place
    {first second : Type}
    (read : first → second)
    (passages : List (PassageOf first))
    (parts : PartsOf first) :
    (passages.foldl PartsOf.place parts).map read =
      (passages.map (·.map read)).foldl PartsOf.place (parts.map read) := by
  induction passages generalizing parts with
  | nil => rfl
  | cons passage rest hypothesis =>
      have placed : (parts.place passage).map read =
          (parts.map read).place (passage.map read) := by
        obtain ⟨part, text⟩ := passage
        cases part <;> cases text <;> simp [PartsOf.place, PartsOf.map, PassageOf.map]
      rw [List.foldl_cons, hypothesis, placed]
      rfl

/-- The part that a heading opens. -/
def Line.part (identifier : String) (wantTerse : Bool) (line : Line) : Part :=
  let key := Text.trimEnd line.word
  if line.start == 0 && !key.isEmpty && key.isPrefixOf identifier.toList then .description false
  else if wantTerse && terseHeadings.any (abbreviates key) then .terse
  else if abbreviates key "DESCRIPTION" then .description true
  else if abbreviates key "RETURNS" then .returns
  else .named (String.ofList (Text.upperCase key))

/-! ## Texts -/

/-- Where the text of some lines starts: at the first line that is not empty. -/
def firstText? (lines : List Line) : Option Nat :=
  (lines.find? (!·.content.isEmpty)).map Line.start

/-- Where the text of some lines ends: at the end of the last line that is not empty, or else
at a given position. -/
def lastText (stop : Nat) (lines : List Line) : Nat :=
  lines.foldl (fun stop line => if line.content.isEmpty then stop else line.stop) stop

/-- The text of a passage, which starts at a given position or else in its further lines. -/
def textRange? (start : Option Nat) (stop : Nat) (body : List Line) : Option Range :=
  (start.or (firstText? body)).map fun start => { start, stop := max (lastText stop body) start }

/-- A range without the leading name of its text. -/
def Range.pastName (comment : List Char) (range : Range) : Range :=
  let start := range.start + skipDash (comment.drop range.start)
  { start, stop := max range.stop start }

/-- Where text stands on the line of a heading. -/
def Line.textAfterHeading? (line : Line) : Option Nat :=
  match line.afterWord with
  | ':' :: _ => line.textFrom? (line.word.length + 1)
  | _ => none

/-- The passage of a heading and the lines up to the next one. -/
def headedPassage
    (comment : List Char)
    (identifier : String)
    (wantTerse : Bool)
    (heading : Line × List Line) : Passage :=
  let part := heading.1.part identifier wantTerse
  let text := textRange? heading.1.textAfterHeading? heading.1.stop heading.2
  { part, text := if part = .terse then text.map (·.pastName comment) else text }

/-- The terse line in the first line of a comment. -/
def Line.terseRange (line : Line) : Range :=
  let length := sentenceLength line.ended line.content
  let skipped := skipDash line.content
  { start := if skipped < length then skipped else 0, stop := length }

/-- The passages before the first heading. -/
def openingPassages (wantTerse : Bool) : List Line → List Passage
  | [] => []
  | first :: body =>
    if first.content.isEmpty then []
    else if wantTerse then
      [{ part := .terse, text := some first.terseRange },
        { part := .description false
          text := textRange? (first.textFrom? (sentenceLength first.ended first.content))
            first.stop body }]
    else [{ part := .description false, text := textRange? (some 0) first.stop body }]

/-! ## Headings -/

/-- Whether a line is a heading: it has the shape of one, and it is a keyword or stands after
an empty line or at the start. -/
def Line.isHeading (afterBlank : Bool) (line : Line) : Bool :=
  !line.content.isEmpty && line.isShaped && (afterBlank || isKeyword line.word)

/-- The lines before the first heading, and each heading with the lines up to the next. -/
def cutAtHeadings (afterBlank : Bool) : List Line → List Line × List (Line × List Line)
  | [] => ([], [])
  | line :: rest =>
    let (body, sections) := cutAtHeadings line.content.isEmpty rest
    if line.isHeading afterBlank then ([], (line, body) :: sections)
    else (line :: body, sections)

/-- The passages of a comment. -/
def passages (comment : List Char) (identifier : String) (wantTerse : Bool) : List Passage :=
  let (opening, sections) := cutAtHeadings true (linesOf comment)
  openingPassages wantTerse opening ++
    sections.map (headedPassage comment identifier wantTerse)

/-! ## The scan -/

namespace SplitState

variable {state : SplitState}

/-- The state after lines that are no headings. -/
def extend (state : SplitState) (body : List Line) : SplitState :=
  { state with
    start := state.start.or (firstText? body)
    stop := lastText state.stop body }

theorem extend_nil (state : SplitState) : state.extend [] = state := by
  simp [extend, firstText?, lastText]

/-- Where the text collected so far stands. -/
def text? (comment : List Char) (state : SplitState) : Option Range :=
  state.start.map fun start =>
    let start := if state.dash then start + skipDash (comment.drop start) else start
    { start, stop := max state.stop start }

theorem stored_of_slot {slot : Slot} (isSlot : state.slot = some slot) :
    state.stored comment =
      (state.text? comment).elim state.parts fun range => state.parts.fill range slot := by
  unfold stored text?
  rw [isSlot]
  cases state.start <;> rfl

theorem stored_of_no_slot (noSlot : state.slot = none) : state.stored comment = state.parts := by
  unfold stored
  rw [noSlot]

end SplitState

/-- The place that the text of a part goes to, when some sections have been opened. -/
def Part.slot (opened : Nat) : Part → Slot
  | .terse => .terse
  | .description _ => .description
  | .returns => .returns
  | .named _ => .named opened

/-- What a heading does to the parts before its text is known. -/
def Part.announce (parts : PartsOf Range) : Part → PartsOf Range
  | .description true => { parts with explicitDescription := true }
  | .named heading => { parts with sections := parts.sections ++ [(heading, none)] }
  | _ => parts

theorem openHeading_eq (state : SplitState) (line : Line) :
    state.openHeading comment identifier wantTerse line =
      { parts := (line.part identifier wantTerse).announce (state.stored comment)
        slot := some ((line.part identifier wantTerse).slot (state.stored comment).sections.length)
        start := line.textAfterHeading?
        stop := line.stop
        lastBlank := false
        dash := line.part identifier wantTerse = .terse } := by
  unfold SplitState.openHeading Line.part
  dsimp only
  split
  · rfl
  · split
    · rfl
    · split
      · rfl
      · split
        · rfl
        · rfl

/-- A place is filled as the passage is placed. -/
theorem fill_announce (parts : PartsOf Range) (part : Part) (range : Range) :
    (part.announce parts).fill range (part.slot parts.sections.length) =
      parts.place { part, text := some range } := by
  cases part with
  | terse => rfl
  | description explicit =>
      cases explicit <;> simp [Part.announce, Part.slot, PartsOf.fill, PartsOf.place]
  | returns => rfl
  | named heading =>
      dsimp only [Part.announce, Part.slot, PartsOf.fill, PartsOf.place]
      rw [List.modify_eq_take_cons_drop (by simp)]
      simp

theorem announce_eq_place (parts : PartsOf Range) (part : Part) :
    part.announce parts = parts.place { part, text := none } := by
  cases part with
  | description explicit => cases explicit <;> simp [Part.announce, PartsOf.place]
  | terse => rfl
  | returns => rfl
  | named heading => rfl

/-- The text that the lines of a heading add up to. -/
theorem stored_openHeading (state : SplitState) (heading : Line) (body : List Line) :
    ((state.openHeading comment identifier wantTerse heading).extend body).stored comment =
      (state.stored comment).place
        (headedPassage comment identifier wantTerse (heading, body)) := by
  have text : ((state.openHeading comment identifier wantTerse heading).extend body).text? comment =
      (headedPassage comment identifier wantTerse (heading, body)).text := by
    rw [openHeading_eq, headedPassage, textRange?, SplitState.text?, SplitState.extend]
    dsimp only
    cases heading.textAfterHeading?.or (firstText? body) with
    | none => simp
    | some start =>
        by_cases name : heading.part identifier wantTerse = .terse
        · simp [name, Range.pastName, Nat.max_assoc]
        · simp [name]
  rw [openHeading_eq] at text ⊢
  rw [SplitState.stored_of_slot rfl, text]
  cases isText : (headedPassage comment identifier wantTerse (heading, body)).text with
  | none => exact (announce_eq_place _ _).trans (by rw [← isText]; rfl)
  | some range => exact (fill_announce _ _ range).trans (by rw [← isText]; rfl)

/-! ## The steps of the scan -/

section Steps

variable {state : SplitState}

theorem firstText?_cons (line : Line) (body : List Line) :
    firstText? (line :: body) =
      if line.content.isEmpty then firstText? body else some line.start := by
  rw [firstText?, firstText?, List.find?_cons]
  cases line.content.isEmpty <;> rfl

theorem lastText_cons (stop : Nat) (line : Line) (body : List Line) :
    lastText stop (line :: body) =
      lastText (if line.content.isEmpty then stop else line.stop) body :=
  rfl

theorem step_empty (isEmpty : line.content.isEmpty = true) :
    state.step comment identifier wantTerse line = { state with lastBlank := true } := by
  rw [SplitState.step, if_pos isEmpty]

theorem isEmpty_of_isHeading {afterBlank : Bool} (heading : line.isHeading afterBlank = true) :
    line.content.isEmpty = false := by
  rw [Line.isHeading, Bool.and_assoc, Bool.and_eq_true, Bool.not_eq_true'] at heading
  exact heading.1

theorem step_heading (heading : line.isHeading state.lastBlank = true) :
    state.step comment identifier wantTerse line =
      state.openHeading comment identifier wantTerse line := by
  have nonempty := isEmpty_of_isHeading heading
  rw [Line.isHeading, nonempty, Bool.not_false, Bool.true_and] at heading
  rw [SplitState.step, nonempty, if_neg Bool.false_ne_true, if_pos heading]

/-- A line that is neither empty nor a heading goes on with the text. -/
theorem step_plain
    (nonempty : line.content.isEmpty = false)
    (noHeading : line.isHeading state.lastBlank = false) :
    state.step comment identifier wantTerse line =
      if line.start == 0 then state.takeFirst wantTerse line
      else
        { state with
          start := if state.slot.isSome then state.start.or (some line.start) else state.start
          stop := line.stop
          lastBlank := false } := by
  rw [Line.isHeading, nonempty, Bool.not_false, Bool.true_and] at noHeading
  rw [SplitState.step, nonempty, if_neg Bool.false_ne_true, noHeading, if_neg Bool.false_ne_true]
  rfl

theorem lastBlank_step :
    (state.step comment identifier wantTerse line).lastBlank = line.content.isEmpty := by
  cases isEmpty : line.content.isEmpty with
  | true => rw [step_empty isEmpty]
  | false =>
      cases heading : line.isHeading state.lastBlank with
      | true => rw [step_heading heading, openHeading_eq]
      | false =>
          rw [step_plain isEmpty heading]
          split
          · unfold SplitState.takeFirst
            split <;> rfl
          · rfl

/-- A line that is no heading adds to what has been collected. -/
theorem stored_step_extend
    (noHeading : line.isHeading state.lastBlank = false)
    (later : line.start ≠ 0)
    (body : List Line) :
    ((state.step comment identifier wantTerse line).extend body).stored comment =
      (state.extend (line :: body)).stored comment := by
  cases isEmpty : line.content.isEmpty with
  | true =>
      rw [step_empty isEmpty, SplitState.extend, SplitState.extend, firstText?_cons, lastText_cons,
        isEmpty]
      rfl
  | false =>
      rw [step_plain isEmpty noHeading, beq_eq_false_iff_ne.2 later, if_neg Bool.false_ne_true,
        SplitState.extend, SplitState.extend, firstText?_cons, lastText_cons, isEmpty]
      cases isSlot : state.slot with
      | none => rfl
      | some slot => simp [SplitState.stored]

end Steps

/-- The scan of lines after the first places what has been collected, and then the passages of
the headings. -/
theorem stored_foldl_step
    (state : SplitState)
    (lines : List Line)
    (later : ∀ line ∈ lines, line.start ≠ 0) :
    (lines.foldl (SplitState.step comment identifier wantTerse) state).stored comment =
      ((cutAtHeadings state.lastBlank lines).2.map
        (headedPassage comment identifier wantTerse)).foldl PartsOf.place
          ((state.extend (cutAtHeadings state.lastBlank lines).1).stored comment) := by
  induction lines generalizing state with
  | nil => rw [cutAtHeadings, SplitState.extend_nil]; rfl
  | cons line rest hypothesis =>
      have isLater := later line List.mem_cons_self
      rw [List.foldl_cons,
        hypothesis _ fun next listed => later next (List.mem_cons_of_mem _ listed),
        cutAtHeadings, lastBlank_step]
      dsimp only
      cases heading : line.isHeading state.lastBlank with
      | true =>
          rw [if_pos rfl, step_heading heading, stored_openHeading, SplitState.extend_nil]
          rfl
      | false =>
          rw [if_neg Bool.false_ne_true, stored_step_extend heading isLater]

/-- The first line places the terse line and opens the description. -/
theorem stored_takeFirst
    {first : Line}
    (atStart : first.start = 0)
    (nonempty : first.content.isEmpty = false)
    (body : List Line) :
    ((({} : SplitState).takeFirst wantTerse first).extend body).stored comment =
      (openingPassages wantTerse (first :: body)).foldl PartsOf.place {} := by
  have stop : first.stop = first.content.length := by rw [Line.stop, atStart, Nat.zero_add]
  rw [openingPassages, nonempty, if_neg Bool.false_ne_true, SplitState.takeFirst, atStart,
    Nat.zero_add]
  cases wantTerse with
  | true =>
      rw [if_pos rfl, if_pos rfl, SplitState.stored_of_slot rfl, textRange?, stop]
      unfold SplitState.text? SplitState.extend
      dsimp only
      cases (first.textFrom? (sentenceLength first.ended first.content)).or (firstText? body) <;>
        rfl
  | false =>
      rw [if_neg Bool.false_ne_true, if_neg Bool.false_ne_true, SplitState.stored_of_slot rfl, stop]
      rfl

/-- The scan of a comment places its passages in order. -/
theorem splitRanges_eq (comment : List Char) (identifier : String) (wantTerse : Bool) :
    splitRanges comment identifier wantTerse =
      (passages comment identifier wantTerse).foldl PartsOf.place {} := by
  rw [splitRanges, passages]
  cases lines : linesOf comment with
  | nil => rfl
  | cons first rest =>
      have atStart := start_of_linesOf_eq_cons lines
      rw [List.foldl_cons, stored_foldl_step _ _ (start_ne_zero_of_linesOf_eq_cons lines),
        lastBlank_step, cutAtHeadings]
      dsimp only
      generalize cutAtHeadings first.content.isEmpty rest = cut
      cases heading : first.isHeading true with
      | true =>
          rw [if_pos rfl, step_heading heading, stored_openHeading]
          rfl
      | false =>
          rw [if_neg Bool.false_ne_true, List.foldl_append]
          congr 1
          cases isEmpty : first.content.isEmpty with
          | true => rw [step_empty isEmpty, openingPassages, if_pos isEmpty]; rfl
          | false =>
              rw [step_plain isEmpty heading, atStart, beq_self_eq_true, if_pos rfl,
                stored_takeFirst atStart isEmpty]

end Prose
end DeclManual
