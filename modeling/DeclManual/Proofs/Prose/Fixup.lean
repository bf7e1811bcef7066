import DeclManual.Proofs.Text.Case
import DeclManual.Prose.Fixup
import Mathlib.Data.List.TakeWhile

/-!
# What fixup does to a text

Fixup writes the characters of a text in order.  Some lower-case letters become upper-case,
and a full stop may follow at the end; nothing else changes.  Fixing up what has been fixed
up changes nothing, although a full stop added at the end may turn a number at the start of
the last line into a list marker.
-/

namespace DeclManual
namespace Prose

open Markup

variable {voice : Voice} {state : DescriptionState} {c d : Char} {text rest other : List Char}

/-! ## Characters in another case -/

/-- A character stays as it is or is a lower-case letter that is put in upper case. -/
def Recased (c d : Char) : Prop :=
  d = c ∨ c.isLower = true ∧ d = c.toUpper

/-- A letter is no digit. -/
theorem isDecimalDigit_of_isAlpha (letter : c.isAlpha = true) : Text.isDecimalDigit c = false := by
  have ascii : c.toNat < 128 ∧ ¬ (0x30 ≤ c.toNat ∧ c.toNat ≤ 0x39) := by
    rw [Text.isAlpha_iff, Text.isUpper_iff, Text.isLower_iff] at letter
    omega
  have others : ∀ range ∈ Text.digitRanges.tail, 128 ≤ range.1 := by decide
  rw [← Bool.not_eq_true, Text.isDecimalDigit, List.any_eq_true]
  rintro ⟨range, listed, inside⟩
  simp only [Bool.and_eq_true, decide_eq_true_eq] at inside
  obtain rfl | later : range = (0x30, 0x39) ∨ range ∈ Text.digitRanges.tail :=
    List.mem_cons.1 listed
  · exact ascii.2 inside
  · have := others range later
    omega

namespace Recased

theorem refl (c : Char) : Recased c c :=
  .inl rfl

/-- Every character is recased as its capital. -/
theorem toUpper (c : Char) : Recased c c.toUpper := by
  by_cases lower : c.isLower = true
  · exact .inr ⟨lower, rfl⟩
  · exact .inl (Text.toUpper_of_not_isLower lower)

/-- Letters stay letters, and everything else stays what it is. -/
theorem eq_or_isAlpha (recased : Recased c d) :
    d = c ∨ c.isAlpha = true ∧ d.isAlpha = true := by
  obtain rfl | ⟨lower, rfl⟩ := recased
  · exact .inl rfl
  · exact .inr ⟨Text.isAlpha_iff.2 (.inr lower), (Text.toUpper_of_isLower lower).1⟩

/-- A character that is no letter is recased as itself alone. -/
theorem eq_iff {mark : Char} (recased : Recased c d) (noLetter : mark.isAlpha = false) :
    d = mark ↔ c = mark := by
  obtain rfl | ⟨letter, letter'⟩ := recased.eq_or_isAlpha
  · rfl
  · constructor <;> rintro rfl <;> simp_all

/-- What is recased is a letter or digit just if the character is. -/
theorem isAlphanum (recased : Recased c d) : d.isAlphanum = c.isAlphanum := by
  obtain rfl | ⟨letter, letter'⟩ := recased.eq_or_isAlpha
  · rfl
  · rw [Text.isAlphanum_iff.2 (.inl letter), Text.isAlphanum_iff.2 (.inl letter')]

/-- What is recased is a digit just if the character is. -/
theorem isDecimalDigit (recased : Recased c d) :
    Text.isDecimalDigit d = Text.isDecimalDigit c := by
  obtain rfl | ⟨letter, letter'⟩ := recased.eq_or_isAlpha
  · rfl
  · rw [isDecimalDigit_of_isAlpha letter, isDecimalDigit_of_isAlpha letter']

end Recased

/-! ## List markers -/

/-- After a bracket, a number is ended by a bracket. -/
theorem isNumbered_bracket :
    isNumbered ('(' :: rest) =
      (!(rest.takeWhile Text.isDecimalDigit).isEmpty &&
        (rest.dropWhile Text.isDecimalDigit).head? == some ')') :=
  rfl

/-- Without a bracket in front, a number is ended by a full stop or by a bracket. -/
theorem isNumbered_of_head?_ne (plain : text.head? ≠ some '(') :
    isNumbered text =
      (!(text.takeWhile Text.isDecimalDigit).isEmpty &&
        ((text.dropWhile Text.isDecimalDigit).head? == some '.' ||
          (text.dropWhile Text.isDecimalDigit).head? == some ')')) := by
  unfold isNumbered
  split
  · exact absurd rfl plain
  · rfl

section Markers

variable (recased : List.Forall₂ Recased text other)
include recased

/-- A character that is no letter starts both texts or neither. -/
theorem head?_recased {mark : Char} (noLetter : mark.isAlpha = false) :
    other.head? = some mark ↔ text.head? = some mark := by
  cases recased with
  | nil => exact .rfl
  | cons first rest => simpa using first.eq_iff noLetter

/-- Both texts start with digits or neither does. -/
theorem isEmpty_digits_recased :
    (other.takeWhile Text.isDecimalDigit).isEmpty =
      (text.takeWhile Text.isDecimalDigit).isEmpty := by
  cases recased with
  | nil => rfl
  | cons first rest =>
      simp only [List.takeWhile_cons, first.isDecimalDigit]
      split <;> rfl

/-- Past their digits both texts are recased alike. -/
theorem pastDigits_recased :
    List.Forall₂ Recased
      (text.dropWhile Text.isDecimalDigit) (other.dropWhile Text.isDecimalDigit) := by
  induction recased with
  | nil => exact .nil
  | cons first rest hypothesis =>
      simp only [List.dropWhile_cons, first.isDecimalDigit]
      split
      · exact hypothesis
      · exact .cons first rest

/-- Both texts start with a numbered list marker or neither does. -/
theorem isNumbered_recased : isNumbered other = isNumbered text := by
  have ended {text other : List Char} (recased : List.Forall₂ Recased text other)
      (mark : Char) (noLetter : mark.isAlpha = false) :
      ((other.dropWhile Text.isDecimalDigit).head? == some mark) =
        ((text.dropWhile Text.isDecimalDigit).head? == some mark) := by
    rw [Bool.eq_iff_iff, beq_iff_eq, beq_iff_eq]
    exact head?_recased (pastDigits_recased recased) noLetter
  by_cases bracket : text.head? = some '('
  · cases recased with
    | nil => cases bracket
    | @cons first second rest rest' same recased =>
        obtain rfl : first = '(' := Option.some.inj bracket
        obtain rfl : second = '(' := (same.eq_iff rfl).2 rfl
        rw [isNumbered_bracket, isNumbered_bracket, isEmpty_digits_recased recased,
          ended recased ')' rfl]
  · have bracket' : other.head? ≠ some '(' := fun isBracket =>
      bracket ((head?_recased recased rfl).1 isBracket)
    rw [isNumbered_of_head?_ne bracket, isNumbered_of_head?_ne bracket',
      isEmpty_digits_recased recased, ended recased '.' rfl, ended recased ')' rfl]

/-- Both texts start with the marker of a list or neither does. -/
theorem isListMarker_recased : isListMarker other = isListMarker text := by
  have starts (mark : Char) (noLetter : mark.isAlpha = false) :
      (other.head? == some mark) = (text.head? == some mark) := by
    rw [Bool.eq_iff_iff, beq_iff_eq, beq_iff_eq]
    exact head?_recased recased noLetter
  rw [isListMarker, isListMarker, isNumbered_recased recased, starts '-' rfl, starts '*' rfl]

end Markers

/-- A full stop at the end adds no digit to the start. -/
theorem isEmpty_digits_append_stop :
    ((text ++ ['.']).takeWhile Text.isDecimalDigit).isEmpty =
      (text.takeWhile Text.isDecimalDigit).isEmpty := by
  cases text with
  | nil => rfl
  | cons first rest =>
      simp only [List.cons_append, List.takeWhile_cons]
      split <;> rfl

/-- Past the digits a text ends in the full stop that was added. -/
theorem pastDigits_append_stop :
    (text ++ ['.']).dropWhile Text.isDecimalDigit =
      text.dropWhile Text.isDecimalDigit ++ ['.'] := by
  rw [List.dropWhile_append]
  split
  · rename_i none
    rw [List.isEmpty_iff.1 none]
    rfl
  · rfl

/-- A full stop at the end makes a list marker only of a text that is a number. -/
theorem isListMarker_append_stop
    (started : text ≠ [])
    (noNumber : text.all Text.isDecimalDigit = false) :
    isListMarker (text ++ ['.']) = isListMarker text := by
  obtain ⟨first, rest, rfl⟩ := List.exists_cons_of_ne_nil started
  have numbered : isNumbered (first :: rest ++ ['.']) = isNumbered (first :: rest) := by
    by_cases bracket : first = '('
    · subst bracket
      have ended : ((rest.dropWhile Text.isDecimalDigit ++ ['.']).head? == some ')') =
          ((rest.dropWhile Text.isDecimalDigit).head? == some ')') := by
        cases rest.dropWhile Text.isDecimalDigit <;> rfl
      rw [List.cons_append, isNumbered_bracket, isNumbered_bracket, isEmpty_digits_append_stop,
        pastDigits_append_stop, ended]
    · have plain {text : List Char} : (first :: text).head? ≠ some '(' := by simpa using bracket
      rw [isNumbered_of_head?_ne plain, List.cons_append, isNumbered_of_head?_ne plain,
        ← List.cons_append, isEmpty_digits_append_stop, pastDigits_append_stop]
      cases past : (first :: rest).dropWhile Text.isDecimalDigit with
      | nil =>
          have number := List.all_eq_true.2 (List.dropWhile_eq_nil_iff.1 past)
          rw [noNumber] at number
          contradiction
      | cons second more => rfl
  rw [isListMarker, isListMarker, numbered]
  rfl

/-! ## One character -/

/-- The characters that calls write one by one. -/
def writtenCharacters (calls : List Call) : List Char :=
  calls.filterMap fun
    | .character c => some c
    | _ => none

/-- What a description does with a character: the next state, and what is written. -/
def DescriptionState.advance
    (voice : Voice)
    (state : DescriptionState)
    (c : Char)
    (rest : List Char) : DescriptionState × Char :=
  if state.dotCommand then
    ({ state with dotCommand := c != '\n', newLine := c == '\n', last := c }, c)
  else if state.newLine && c == '.' && voice.dotCommands then
    ({ state with dotCommand := true, newLine := false, last := c }, c)
  else if state.newLine && (isListMarker (c :: rest) || (voice.blankLineBreaks && c == '\n')) then
    ({ state with sentence := .capitalise, newLine := c == '\n', last := c }, c)
  else
    let (sentence, written) := state.sentence.step true c
    ({ state with sentence, newLine := written == '\n', last := written }, written)

theorem writtenCharacters_describeFrom_cons :
    writtenCharacters (describeFrom voice state (c :: rest)) =
      (state.advance voice c rest).2 ::
        writtenCharacters (describeFrom voice (state.advance voice c rest).1 rest) := by
  rw [describeFrom, DescriptionState.advance]
  split
  · rfl
  · split
    · rfl
    · split <;> rfl

/-- At the end of a text a full stop may be written. -/
theorem writtenCharacters_describeFrom_nil :
    writtenCharacters (describeFrom voice state []) = [] ∨
      writtenCharacters (describeFrom voice state []) = ['.'] := by
  rw [describeFrom]
  split
  · exact .inr rfl
  · exact .inl rfl

/-- A letter or digit is no blank. -/
theorem isAsciiBlank_of_isAlphanum (word : c.isAlphanum = true) : Text.isAsciiBlank c = false := by
  rw [Text.isAsciiBlank, ← Bool.not_eq_true]
  simp only [Bool.or_eq_true, beq_iff_eq]
  rintro ((((rfl | rfl) | rfl) | rfl) | rfl) <;> contradiction

/-- A letter or a digit stands in the text of a sentence. -/
theorem step_of_isAlphanum (sentence : Sentence) (word : c.isAlphanum = true) :
    sentence.step true c = (.text, if sentence == .capitalise then c.toUpper else c) := by
  have noStop : c ≠ '.' := by rintro rfl; contradiction
  rw [Sentence.step, if_neg noStop, isAsciiBlank_of_isAlphanum word, Bool.false_and,
    if_neg Bool.false_ne_true, if_pos word, Bool.true_and]

/-- A character that is no letter or digit is written as it is. -/
theorem step_of_not_isAlphanum (sentence : Sentence) (noWord : c.isAlphanum = false) :
    (sentence.step true c).2 = c := by
  unfold Sentence.step
  split
  · rfl
  · split
    · rfl
    · rw [noWord, if_neg Bool.false_ne_true]

/-- A character is written recased at most. -/
theorem recased_step (sentence : Sentence) (c : Char) : Recased c (sentence.step true c).2 := by
  cases word : c.isAlphanum with
  | false => rw [step_of_not_isAlphanum sentence word]; exact .refl c
  | true =>
      rw [step_of_isAlphanum sentence word]
      dsimp only
      split
      · exact .toUpper c
      · exact .refl c

/-- The character that is written moves a sentence as the one that was read. -/
theorem step_step (sentence : Sentence) (c : Char) :
    sentence.step true (sentence.step true c).2 = sentence.step true c := by
  cases word : c.isAlphanum with
  | false => rw [step_of_not_isAlphanum sentence word]
  | true =>
      have still : (sentence.step true c).2.isAlphanum = true := by
        rw [(recased_step sentence c).isAlphanum, word]
      rw [step_of_isAlphanum sentence still, step_of_isAlphanum sentence word]
      dsimp only
      split
      · rw [Text.toUpper_toUpper]
      · rfl

/-- A character of a description is written recased at most. -/
theorem recased_advance : Recased c (state.advance voice c rest).2 := by
  unfold DescriptionState.advance
  split
  · exact .refl c
  · split
    · exact .refl c
    · split
      · exact .refl c
      · exact recased_step state.sentence c

/-- What follows a character matters only in that it may make it a list marker. -/
theorem advance_congr (sameMarker : isListMarker (c :: other) = isListMarker (c :: rest)) :
    state.advance voice c other = state.advance voice c rest := by
  rw [DescriptionState.advance, DescriptionState.advance, sameMarker]

/-- Where a line starts with a list marker as before, the character that is written is treated
as the one that was read. -/
theorem advance_advance
    (sameMarker : isListMarker ((state.advance voice c rest).2 :: other) =
      isListMarker (c :: rest)) :
    state.advance voice (state.advance voice c rest).2 other = state.advance voice c rest := by
  by_cases same : (state.advance voice c rest).2 = c
  · rw [same] at sameMarker ⊢
    exact advance_congr sameMarker
  · -- a character that changes is a letter, and stands outside requests and list markers
    have isMark (mark : Char) (noLetter : mark.isAlpha = false) :
        ((state.advance voice c rest).2 == mark) = (c == mark) := by
      rw [Bool.eq_iff_iff, beq_iff_eq, beq_iff_eq, recased_advance.eq_iff noLetter]
    have stop := isMark '.' rfl
    have newline := isMark '\n' rfl
    rw [DescriptionState.advance, stop, newline, sameMarker]
    rw [DescriptionState.advance] at same ⊢
    split at same
    · exact absurd rfl same
    · split at same
      · exact absurd rfl same
      · split at same
        · exact absurd rfl same
        · rename_i noRequest noCommand noMarker
          rw [if_neg noRequest, if_neg noCommand, if_neg noMarker]
          simp only [if_neg noRequest, if_neg noCommand, if_neg noMarker, step_step]

/-! ## The whole text -/

/-- A description is the text with some letters in upper case, and a full stop may follow. -/
theorem writtenCharacters_describeFrom (state : DescriptionState) (text : List Char) :
    ∃ recased closing, writtenCharacters (describeFrom voice state text) = recased ++ closing ∧
      List.Forall₂ Recased text recased ∧ (closing = [] ∨ closing = ['.']) := by
  induction text generalizing state with
  | nil => exact ⟨[], _, rfl, .nil, writtenCharacters_describeFrom_nil⟩
  | cons c rest hypothesis =>
      obtain ⟨recased, closing, written, same, closes⟩ := hypothesis (state.advance voice c rest).1
      refine ⟨(state.advance voice c rest).2 :: recased, closing, ?_, .cons recased_advance same,
        closes⟩
      rw [writtenCharacters_describeFrom_cons, written, List.cons_append]

/-- Past its first character no line is a request. -/
theorem dotCommand_advance (plain : state.dotCommand = false) (noStop : c ≠ '.') :
    (state.advance voice c rest).1.dotCommand = false := by
  unfold DescriptionState.advance
  rw [plain, if_neg Bool.false_ne_true, beq_eq_false_iff_ne.2 noStop, Bool.and_false,
    Bool.false_and, if_neg Bool.false_ne_true]
  split <;> rfl

/-- A full stop is followed by no other. -/
theorem writtenCharacters_stop (plain : state.dotCommand = false) :
    writtenCharacters (describeFrom voice state ['.']) = ['.'] := by
  have noMarker :
      (isListMarker ['.'] || (voice.blankLineBreaks && ('.' : Char) == '\n')) = false := by
    rw [show isListMarker ['.'] = false by decide, show (('.' : Char) == '\n') = false by decide,
      Bool.and_false, Bool.or_false]
  rw [writtenCharacters_describeFrom_cons, DescriptionState.advance, noMarker, plain,
    if_neg Bool.false_ne_true, Bool.and_false, if_neg Bool.false_ne_true]
  split <;> rfl

/-- A number that a full stop makes a list marker is written as it is. -/
theorem writtenCharacters_number
    (plain : state.dotCommand = false)
    (number : text.all Text.isDecimalDigit = true) :
    writtenCharacters (describeFrom voice state (text ++ ['.'])) = text ++ ['.'] := by
  induction text generalizing state with
  | nil => exact writtenCharacters_stop plain
  | cons c rest hypothesis =>
      obtain ⟨digit, number⟩ := Bool.and_eq_true_iff.1 (List.all_cons.symm.trans number)
      have same : (state.advance voice c (rest ++ ['.'])).2 = c := by
        refine recased_advance.eq_or_isAlpha.resolve_right fun letter => ?_
        rw [isDecimalDigit_of_isAlpha letter.1] at digit
        contradiction
      have noStop : c ≠ '.' := by rintro rfl; exact absurd digit (by decide)
      rw [List.cons_append, writtenCharacters_describeFrom_cons, same,
        hypothesis (dotCommand_advance plain noStop) number]

/-- In a request every character passes, whatever follows it. -/
theorem advance_of_dotCommand (request : state.dotCommand = true) :
    state.advance voice c rest =
      ({ state with dotCommand := c != '\n', newLine := c == '\n', last := c }, c) := by
  rw [DescriptionState.advance, if_pos request]

/-- Writing what has been written changes nothing. -/
theorem writtenCharacters_describeFrom_twice (state : DescriptionState) (text : List Char) :
    writtenCharacters (describeFrom voice state
        (writtenCharacters (describeFrom voice state text))) =
      writtenCharacters (describeFrom voice state text) := by
  induction text generalizing state with
  | nil =>
      cases request : state.dotCommand with
      | true => simp [describeFrom, request, writtenCharacters]
      | false =>
          rcases @writtenCharacters_describeFrom_nil voice state with none | stop
          · rw [none, none]
          · rw [stop, writtenCharacters_stop request]
  | cons c rest hypothesis =>
      obtain ⟨recased, closing, after, same, closes⟩ :=
        writtenCharacters_describeFrom (state.advance voice c rest).1 rest
      have marker : isListMarker ((state.advance voice c rest).2 :: recased) =
          isListMarker (c :: rest) :=
        isListMarker_recased (.cons recased_advance same)
      have alike
          (treated : state.advance voice (state.advance voice c rest).2 (recased ++ closing) =
          state.advance voice c rest) :
          writtenCharacters (describeFrom voice state
              ((state.advance voice c rest).2 :: (recased ++ closing))) =
            (state.advance voice c rest).2 :: (recased ++ closing) := by
        rw [writtenCharacters_describeFrom_cons, treated, ← after, hypothesis]
      rw [writtenCharacters_describeFrom_cons, after]
      cases request : state.dotCommand with
      | true =>
          apply alike
          rw [advance_of_dotCommand request, advance_of_dotCommand request]
      | false =>
          obtain rfl | rfl := closes
          · apply alike
            apply advance_advance
            rw [List.append_nil, marker]
          · rw [← List.cons_append]
            cases number : ((state.advance voice c rest).2 :: recased).all Text.isDecimalDigit with
            | true => exact writtenCharacters_number request number
            | false =>
                apply alike
                apply advance_advance
                rw [← List.cons_append, isListMarker_append_stop (List.cons_ne_nil _ _) number,
                  marker]

/-- The text that a description is written as. -/
def fixedUp (voice : Voice) (text : String) : String :=
  String.ofList (writtenCharacters (description voice text))

/-- Fixup is stable and only touches case and the final full stop. -/
theorem fixedUp_stable (voice : Voice) (text : String) :
    (∃ recased closing, (fixedUp voice text).toList = recased ++ closing ∧
      List.Forall₂ Recased text.toList recased ∧ (closing = [] ∨ closing = ['.'])) ∧
    fixedUp voice (fixedUp voice text) = fixedUp voice text := by
  constructor
  · rw [fixedUp, String.toList_ofList]
    exact writtenCharacters_describeFrom {} text.toList
  · rw [fixedUp, fixedUp, description, description, String.toList_ofList,
      writtenCharacters_describeFrom_twice]

/-- The full stop makes the number a list marker. -/
example : fixedUp {} "two of them. see\n12" = "Two of them. See\n12." := by decide

end Prose
end DeclManual
