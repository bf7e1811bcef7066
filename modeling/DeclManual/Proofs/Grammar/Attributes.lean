import DeclManual.Proofs.Grammar.Takes

/-!
# Runs of attributes

An attribute is a word with arguments in parentheses.  Since the brackets of a run of
attributes are closed, whatever skips tokens up to a bracket or up to a mark outside all
brackets passes over the run and goes on behind it as if it were not there.
-/

namespace DeclManual
namespace Grammar

open Source (Token)

/-- An attribute with its arguments in parentheses. -/
structure Attribute where
  word : Token
  opener : Token
  arguments : List Token
  closer : Token
  isWord : word.isWord = true
  isAttribute : attributes.contains word.text = true
  opens : opener.kind = .punctuator ∧ opener.text = "("
  closes : closer.kind = .punctuator ∧ closer.text = ")"
  closed : BracketsClosed arguments
  proper : ∀ token ∈ arguments, token.isEnd = false ∧ token.Marked

namespace Attribute

/-- The tokens of an attr. -/
def tokens (attr : Attribute) : List Token :=
  attr.word :: attr.opener :: (attr.arguments ++ [attr.closer])

/-- The tokens of some attributes, one after another. -/
def runTokens (run : List Attribute) : List Token :=
  run.flatMap tokens

theorem runTokens_cons (attr : Attribute) (run : List Attribute) :
    runTokens (attr :: run) = attr.tokens ++ runTokens run := rfl

theorem length_tokens (attr : Attribute) :
    attr.tokens.length = attr.arguments.length + 3 := by
  simp [tokens]

theorem noEnd
    (attr : Attribute)
    {token : Token}
    (member : token ∈ attr.tokens) :
    token.isEnd = false := by
  simp only [tokens, List.mem_cons, List.mem_append, List.not_mem_nil, or_false] at member
  rcases member with rfl | rfl | inside | rfl
  · exact Token.not_isEnd_of_isWord attr.isWord
  · exact Token.not_isEnd_of_punctuator attr.opens.1
  · exact (attr.proper token inside).1
  · exact Token.not_isEnd_of_punctuator attr.closes.1

theorem noEnd_run
    {run : List Attribute}
    {token : Token}
    (member : token ∈ runTokens run) :
    token.isEnd = false := by
  obtain ⟨attr, -, member⟩ := List.mem_flatMap.1 member
  exact attr.noEnd member

/-- Where there are attributes, the last of their tokens closes a parenthesis. -/
theorem runTokens_last
    {run : List Attribute}
    (filled : run ≠ []) :
    ∃ front last, runTokens run = front ++ [last] ∧
      last.kind = .punctuator ∧ last.text = ")" := by
  obtain ⟨others, attr, rfl⟩ := List.eq_nil_or_concat run |>.resolve_left filled
  refine ⟨runTokens others ++ attr.word :: attr.opener :: attr.arguments,
    attr.closer, ?_, attr.closes⟩
  simp [runTokens, tokens]

end Attribute

open Attribute

/-! ## Passing over attributes -/

/-- Inside further brackets as many are open, and those. -/
theorem openAfter_add
    {depth left : Nat}
    {tokens : List Token}
    (opened : openAfter depth tokens = some left)
    (further : Nat) :
    openAfter (depth + further) tokens = some (left + further) := by
  induction further with
  | zero => exact opened
  | succ further hypothesis => exact openAfter_succ hypothesis

theorem openAfter_tokens (attr : Attribute) (depth : Nat) :
    openAfter depth attr.tokens = some depth := by
  have inside : openAfter (depth + 1) attr.arguments = some (depth + 1) := by
    simpa using openAfter_add attr.closed (depth + 1)
  have isWord : attr.word.kind = .identifier := by
    simpa [Token.isWord] using attr.isWord
  have through : openAfter (depth + 1) (attr.arguments ++ [attr.closer]) =
      some depth := by
    rw [openAfter_append, inside]
    simp [openAfter, attr.closes, isOpener, isCloser]
  simpa [tokens, openAfter, isWord, attr.opens, isOpener] using through

/-- A run of attributes leaves as many brackets open as there were. -/
theorem openAfter_run (run : List Attribute) (depth : Nat) :
    openAfter depth (runTokens run) = some depth := by
  induction run with
  | nil => rfl
  | cons attr run hypothesis =>
      rw [runTokens_cons, openAfter_append, openAfter_tokens]
      exact hypothesis

/-- Inside brackets an expression goes on over tokens that open no more than they close. -/
theorem expressionRun_inside
    (stops : List String)
    {depth left : Nat}
    {tokens : List Token}
    (opened : openAfter depth tokens = some left)
    (proper : ∀ token ∈ tokens, token.isEnd = false ∧ token.Marked)
    (rest : List Token) :
    expressionRun stops (depth + 1) (tokens ++ rest) =
      ((expressionRun stops (left + 1) rest).1 + tokens.length,
        (expressionRun stops (left + 1) rest).2) := by
  have noEnd := fun token member => (proper token member).1
  refine expressionRun_append (openAfter_succ opened) noEnd ?_ ?_ rest
  · exact fun token member bracket => (proper token member).2 (isMark_of_isBracket bracket)
  · rintro front token back rfl outside
    rw [openAfter_append] at opened
    obtain ⟨middle, isMiddle, -⟩ := Option.bind_eq_some_iff.1 opened
    rw [openAfter_succ isMiddle] at outside
    cases outside

/-- An expression goes on over attributes wherever they stand. -/
theorem expressionRun_tokens
    {stops : List String}
    (noStop : ∀ text ∈ stops, isOpener text = false ∧ attributes.contains text = false)
    (depth : Nat)
    (attr : Attribute)
    (rest : List Token) :
    expressionRun stops depth (attr.tokens ++ rest) =
      ((expressionRun stops depth rest).1 + attr.tokens.length,
        (expressionRun stops depth rest).2) := by
  have wordNotEnd : attr.word.isEnd = false := attr.noEnd (by simp [tokens])
  have openerNotEnd : attr.opener.isEnd = false := attr.noEnd (by simp [tokens])
  have closerNotEnd : attr.closer.isEnd = false := attr.noEnd (by simp [tokens])
  have wordNoStop : attr.word.text ∉ stops := by
    intro member
    exact Bool.false_ne_true ((noStop _ member).2.symm.trans attr.isAttribute)
  have openerNoStop : "(" ∉ stops := by
    intro member
    exact absurd (noStop _ member).1 (by decide)
  have wordNoMark := attribute_noMark attr.isAttribute
  simp only [isMark, Bool.or_eq_false_iff] at wordNoMark
  have inside : openAfter depth attr.arguments = some depth := by
    simpa using openAfter_add attr.closed depth
  have closing : expressionRun stops (depth + 1) (attr.closer :: rest) =
      ((expressionRun stops depth rest).1 + 1, (expressionRun stops depth rest).2) := by
    simp [expressionRun, closerNotEnd, attr.closes, isOpener, isCloser]
  have opening :
      expressionRun stops depth (attr.opener :: (attr.arguments ++ attr.closer :: rest)) =
      ((expressionRun stops (depth + 1) (attr.arguments ++ attr.closer :: rest)).1 + 1,
        (expressionRun stops (depth + 1) (attr.arguments ++ attr.closer :: rest)).2) := by
    simp [expressionRun, openerNotEnd, openerNoStop, attr.opens, isOpener]
  have word (rest : List Token) : expressionRun stops depth (attr.word :: rest) =
      ((expressionRun stops depth rest).1 + 1, (expressionRun stops depth rest).2) := by
    simp [expressionRun, wordNotEnd, wordNoStop, wordNoMark]
  calc
    expressionRun stops depth (attr.tokens ++ rest)
      = expressionRun stops depth
          (attr.word :: attr.opener :: (attr.arguments ++ attr.closer :: rest)) := by
        simp [tokens]
    _ = ((expressionRun stops depth rest).1 + attr.tokens.length,
          (expressionRun stops depth rest).2) := by
        rw [word, opening, expressionRun_inside stops inside attr.proper, closing, length_tokens]
        simp only [Prod.mk.injEq, and_true]
        omega

theorem expressionRun_attributes
    {stops : List String}
    (noStop : ∀ text ∈ stops, isOpener text = false ∧ attributes.contains text = false)
    (depth : Nat)
    (run : List Attribute)
    (rest : List Token) :
    expressionRun stops depth (runTokens run ++ rest) =
      ((expressionRun stops depth rest).1 + (runTokens run).length,
        (expressionRun stops depth rest).2) := by
  induction run with
  | nil => rfl
  | cons attr run hypothesis =>
      rw [runTokens_cons, List.append_assoc, expressionRun_tokens noStop, hypothesis,
        List.length_append, Nat.add_right_comm, Nat.add_assoc]

/-! ## Skipping attributes -/

/-- One attribute is skipped in one step. -/
theorem skipAttributesUpTo_tokens
    {cursor : Cursor}
    {attr : Attribute}
    {rest : List Token}
    (count : Nat)
    (isRest : cursor.rest = attr.tokens ++ rest) :
    skipAttributesUpTo (count + 1) cursor =
      skipAttributesUpTo count (cursor.advanceBy attr.tokens.length) := by
  have isWord : cursor.peek = attr.word := Cursor.peek_eq_head isRest
  have taken : cursor.advance.rest =
      attr.opener :: (attr.arguments ++ attr.closer :: rest) := by
    rw [Cursor.rest_advance (by rw [isWord]; exact attr.noEnd (by simp [tokens])), isRest]
    simp [tokens]
  have isOpener : cursor.advance.peek = attr.opener := Cursor.peek_eq_head taken
  have opens : cursor.advance.peek.hasText "(" = true := by
    rw [isOpener, Token.hasText, attr.opens.1, attr.opens.2]
    rfl
  have opened : cursor.advance.advance.rest = attr.arguments ++ attr.closer :: rest := by
    rw [Cursor.rest_advance (Token.not_isEnd_of_hasText opens), taken]
    rfl
  have closerNotEnd : attr.closer.isEnd = false := attr.noEnd (by simp [tokens])
  have closing : closingRun ")" 0 (attr.arguments ++ attr.closer :: rest) =
      (attr.arguments.length + 1, true) := by
    have closes : closingRun ")" 0 (attr.closer :: rest) = (1, true) := by
      simp [closingRun, closerNotEnd, attr.closes,
        Grammar.isOpener, isCloser]
    rw [closingRun_append ")" attr.closed fun token member => (attr.proper token member).1, closes,
      Nat.add_comm]
  have group : skipGroup "(" ")" cursor.advance =
      .ok () (cursor.advanceBy attr.tokens.length) := by
    unfold skipGroup skipBalanced
    rw [sees_bind_run, opens, if_pos rfl, discard_bind_run, bind_run, expect_run, if_pos opens]
    dsimp only
    unfold skipUntilClose
    rw [get_bind_run, opened, closing]
    dsimp only
    rw [skip_bind_run, if_pos rfl, length_tokens]
    rfl
  rw [skipAttributesUpTo, peek_bind_run, isWord, if_pos attr.isAttribute, discard_bind_run,
    take_bind_run, bind_run_ok group]

/-- A run of attributes is skipped in as many steps. -/
theorem skipAttributesUpTo_run
    {cursor : Cursor}
    {run : List Attribute}
    {rest : List Token}
    (count : Nat)
    (isRest : cursor.rest = runTokens run ++ rest) :
    skipAttributesUpTo (count + run.length) cursor =
      skipAttributesUpTo count (cursor.advanceBy (runTokens run).length) := by
  induction run generalizing cursor with
  | nil => rfl
  | cons attr run hypothesis =>
      rw [runTokens_cons, List.append_assoc] at isRest
      have passes := Cursor.Passes.advanceBy attr.tokens isRest fun _ => attr.noEnd
      have further := isRest.symm.trans passes.rest
      rw [List.length_cons, ← Nat.add_assoc, skipAttributesUpTo_tokens _ isRest,
        hypothesis (List.append_cancel_left further).symm, runTokens_cons, List.length_append,
        Cursor.advanceBy_add]

end Grammar
end DeclManual
