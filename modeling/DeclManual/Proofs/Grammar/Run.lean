import DeclManual.Grammar.SourceFile
import Mathlib.Data.List.Basic

/-!
# Running a step of reading

What each elementary step of reading does to the cursor, as equations.  The loops
of the grammar are opened with these and not by unfolding the monad.
-/

namespace DeclManual

namespace Source.Token

/-- A token that has a text does not end the input. -/
theorem not_isEnd_of_hasText
    {token : Token}
    {text : String}
    (matching : token.hasText text = true) :
    token.isEnd = false := by
  simp_all [hasText, isEnd]

/-- A token that has a text is spelled so. -/
theorem text_of_hasText
    {token : Token}
    {text : String}
    (matching : token.hasText text = true) :
    token.text = text := by
  simp_all [hasText]

/-- A token that is spelled so has a text unless it ends the input. -/
theorem hasText_of_text
    {token : Token}
    {text : String}
    (notEnd : token.isEnd = false)
    (same : token.text = text) :
    token.hasText text = true := by
  simp_all [hasText, isEnd]

/-- A token that is spelled differently has not the text. -/
theorem hasText_of_text_ne
    {token : Token}
    {text : String}
    (different : token.text ≠ text) :
    token.hasText text = false := by
  simp [hasText, different]

theorem hasText_of_isEnd
    {token : Token}
    (ended : token.isEnd = true)
    (text : String) :
    token.hasText text = false := by
  simp_all [hasText, isEnd]

theorem not_isEnd_of_isWord
    {token : Token}
    (word : token.isWord = true) :
    token.isEnd = false := by
  simp_all [isWord, isEnd]

theorem isWord_of_isEnd
    {token : Token}
    (ended : token.isEnd = true) :
    token.isWord = false := by
  simp_all [isWord, isEnd]

theorem not_isEnd_of_punctuator
    {token : Token}
    (isMark : token.kind = .punctuator) :
    token.isEnd = false := by
  rw [isEnd, isMark]
  rfl

end Source.Token

namespace Grammar

open Source (Token)

variable {α β : Type}

/-! ## The cursor -/

namespace Cursor

/-- Noting where a token stands takes nothing. -/
@[simp] theorem rest_sync (cursor : Cursor) (token : Token) :
    (cursor.sync token).rest = cursor.rest := rfl

/-- The next token is the first of the rest. -/
theorem peek_eq_head
    {cursor : Cursor}
    {token : Token}
    {rest : List Token}
    (here : cursor.rest = token :: rest) :
    cursor.peek = token := by
  simp [peek, here]

/-- A token that does not end the input is the first of the rest. -/
theorem rest_of_not_isEnd
    {cursor : Cursor}
    (notEnd : cursor.peek.isEnd = false) :
    cursor.rest = cursor.peek :: cursor.rest.tail := by
  unfold peek at notEnd ⊢
  cases tokens : cursor.rest with
  | nil =>
      rw [tokens] at notEnd
      contradiction
  | cons token rest => rfl

/-- Taking a token leaves the tokens after it. -/
theorem rest_advance
    {cursor : Cursor}
    (notEnd : cursor.peek.isEnd = false) :
    cursor.advance.rest = cursor.rest.tail := by
  simp [advance, notEnd]

/-- The token taken last is the one that was next. -/
theorem previous_advance
    {cursor : Cursor}
    (notEnd : cursor.peek.isEnd = false) :
    cursor.advance.previous = some cursor.peek := by
  simp [advance, notEnd]

/-- Moving on changes no more of the session than the current position. -/
theorem session_advance (cursor : Cursor) :
    cursor.advance.session = (cursor.sync cursor.peek).session := by
  unfold advance
  dsimp only
  split <;> rfl

/-- The end of the input is never passed. -/
theorem rest_advance_of_end
    {cursor : Cursor}
    (ended : cursor.peek.isEnd = true) :
    cursor.advance.rest = cursor.rest := by
  simp [advance, ended]

end Cursor

/-! ## Elementary steps -/

/-- What follows a step runs where the step succeeds. -/
theorem bind_run (step : Parse α) (next : α -> Parse β) (cursor : Cursor) :
    (step >>= next) cursor =
      match step cursor with
      | .ok value after => next value after
      | .error error after => .error error after := by
  simp only [bind, EStateM.bind]
  cases step cursor <;> rfl

theorem bind_run_ok
    {step : Parse α}
    {cursor after : Cursor}
    {value : α}
    (succeeded : step cursor = .ok value after)
    (next : α -> Parse β) :
    (step >>= next) cursor = next value after := by
  rw [bind_run, succeeded]

/-- Steps that succeed one after another each succeed. -/
theorem of_bind_run
    {step : Parse α}
    {next : α -> Parse β}
    {cursor after : Cursor}
    {value : β}
    (succeeded : (step >>= next) cursor = .ok value after) :
    ∃ middle between, step cursor = .ok middle between ∧ next middle between = .ok value after := by
  rw [bind_run] at succeeded
  cases result : step cursor with
  | ok middle between =>
      rw [result] at succeeded
      exact ⟨middle, between, rfl, succeeded⟩
  | error error between =>
      rw [result] at succeeded
      cases succeeded

theorem discard_run (step : Parse α) (cursor : Cursor) :
    discard step cursor =
      match step cursor with
      | .ok _ after => .ok () after
      | .error error after => .error error after := by
  simp only [discard, Functor.mapConst, EStateM.map, Function.comp, Function.const]
  cases step cursor <;> rfl

theorem discard_bind_run
    (step : Parse α)
    (next : Unit -> Parse β)
    (cursor : Cursor) :
    (discard step >>= next) cursor = (step >>= fun _ => next ()) cursor := by
  simp only [bind_run, discard_run]
  cases step cursor <;> rfl

@[simp] theorem pure_run (value : α) (cursor : Cursor) :
    (pure value : Parse α) cursor = .ok value cursor := rfl

@[simp] theorem get_bind_run (next : Cursor -> Parse β) (cursor : Cursor) :
    ((get : Parse Cursor) >>= next) cursor = next cursor cursor := rfl

@[simp] theorem modify_bind_run
    (change : Cursor -> Cursor)
    (next : Unit -> Parse β)
    (cursor : Cursor) :
    ((modify change : Parse Unit) >>= next) cursor = next () (change cursor) := rfl

@[simp] theorem peek_bind_run (next : Token -> Parse β) (cursor : Cursor) :
    (peek >>= next) cursor = next cursor.peek cursor := rfl

@[simp] theorem take_run (cursor : Cursor) :
    take cursor = .ok cursor.peek cursor.advance := rfl

@[simp] theorem take_bind_run (next : Token -> Parse β) (cursor : Cursor) :
    (take >>= next) cursor = next cursor.peek cursor.advance := rfl

@[simp] theorem skip_bind_run
    (count : Nat)
    (next : Unit -> Parse β)
    (cursor : Cursor) :
    (skip count >>= next) cursor = next () (cursor.advanceBy count) := rfl

@[simp] theorem sees_bind_run
    (text : String)
    (next : Bool -> Parse β)
    (cursor : Cursor) :
    (sees text >>= next) cursor = next (cursor.peek.hasText text) cursor := rfl

/-- An action on the session leaves the tokens as they are. -/
@[simp] theorem act_run (action : Session -> Session × α) (cursor : Cursor) :
    act action cursor =
      .ok (action cursor.session).2 { cursor with session := (action cursor.session).1 } := rfl

@[simp] theorem act_bind_run
    (action : Session -> Session × α)
    (next : α -> Parse β)
    (cursor : Cursor) :
    (act action >>= next) cursor =
      next (action cursor.session).2 { cursor with session := (action cursor.session).1 } := rfl

@[simp] theorem takeCarried_bind_run
    (next : Option String -> Parse β)
    (cursor : Cursor) :
    (takeCarried >>= next) cursor = next cursor.carried { cursor with carried := none } := rfl

/-- A mark is taken if it is the next token. -/
theorem accept_run (text : String) (cursor : Cursor) :
    accept text cursor =
      if cursor.peek.hasText text then .ok (some cursor.peek) cursor.advance
      else .ok none cursor := by
  unfold accept
  rw [sees_bind_run]
  split <;> rfl

theorem accept_bind_run
    (text : String)
    (next : Option Token -> Parse β)
    (cursor : Cursor) :
    (accept text >>= next) cursor =
      if cursor.peek.hasText text then next (some cursor.peek) cursor.advance
      else next none cursor := by
  rw [bind_run, accept_run]
  by_cases matching : cursor.peek.hasText text = true <;> simp [matching]

/-- A mark that is missing is reported as a syntax error. -/
theorem expect_run (text : String) (cursor : Cursor) :
    expect text cursor =
      if cursor.peek.hasText text then .ok cursor.peek cursor.advance
      else .error .recorded (cursor.recordError ("expected '" ++ text ++ "'")) := by
  unfold expect
  rw [accept_bind_run]
  split <;> rfl

/-- A token that had to be there was there. -/
theorem of_expect_bind_run
    {text : String}
    {next : Token -> Parse β}
    {cursor after : Cursor}
    {value : β}
    (succeeded : (expect text >>= next) cursor = .ok value after) :
    cursor.peek.hasText text = true ∧ next cursor.peek cursor.advance = .ok value after := by
  rw [bind_run, expect_run] at succeeded
  by_cases matching : cursor.peek.hasText text = true
  · rw [if_pos matching] at succeeded
    exact ⟨matching, succeeded⟩
  · rw [if_neg matching] at succeeded
    cases succeeded

/-- The comments around the end of an item, and the separator if it is there. -/
theorem trailingComments_run (separator : String) (cursor : Cursor) :
    trailingComments separator cursor =
      if cursor.peek.hasText separator then
        .ok (cursor.trailingComment.toList ++ cursor.peek.commentBefore.toList ++
          cursor.peek.commentAfter.toList) cursor.advance
      else
        .ok (cursor.trailingComment.toList ++ cursor.peek.commentBefore.toList) cursor := by
  unfold trailingComments
  simp only [get_bind_run, peek_bind_run, accept_bind_run]
  split <;> simp

end Grammar
end DeclManual
