import DeclManual.Proofs.Grammar.MoreSteps

/-!
# Reading up to a bracket

Two files may be the same up to a brace and go on in different ways after it.  As long
as the brace has not been taken, nothing that is read depends on what follows it: the
readings of the two files take the same tokens, yield the same values and do the same
to the session.  The same holds of a parenthesis, if the token after it is still the
same: nothing looks further past it.  Here this is shown for the steps of reading and
what skips tokens.
-/

namespace DeclManual
namespace Grammar

open Source (Token)

variable {α β γ : Type}

/-- The cursor that a reading leaves, whether it succeeds or fails. -/
def landing : EStateM.Result SyntaxError Cursor α -> Cursor
  | .ok _ after => after
  | .error _ after => after

/-- Where a reading may lead a cursor: no token is put back, and the token taken last and
the comment that is carried stood among the tokens if they are new. -/
structure Cursor.LeadsTo (cursor after : Cursor) : Prop where
  rest : after.rest <:+ cursor.rest
  previous : ∀ token ∈ after.previous, token ∈ cursor.previous ∨ token ∈ cursor.rest
  carried : ∀ comment ∈ after.carried,
    comment ∈ cursor.carried ∨ ∃ token ∈ cursor.rest, comment ∈ token.commentBefore

namespace Cursor.LeadsTo

variable {cursor middle after : Cursor}

theorem refl (cursor : Cursor) : cursor.LeadsTo cursor :=
  ⟨List.suffix_rfl, fun _ => .inl, fun _ => .inl⟩

theorem trans
    (first : cursor.LeadsTo middle)
    (second : middle.LeadsTo after) :
    cursor.LeadsTo after where
  rest := second.rest.trans first.rest
  previous token isPrevious := by
    rcases second.previous token isPrevious with before | member
    · exact first.previous token before
    · exact .inr (first.rest.subset member)
  carried comment isCarried := by
    rcases second.carried comment isCarried with before | ⟨token, member, isComment⟩
    · exact first.carried comment before
    · exact .inr ⟨token, first.rest.subset member, isComment⟩

/-- What touches neither the tokens nor what is known of them. -/
theorem of_same
    (rest : after.rest = cursor.rest)
    (previous : after.previous = cursor.previous)
    (carried : after.carried = cursor.carried) :
    cursor.LeadsTo after := by
  refine ⟨?_, ?_, ?_⟩
  · rw [rest]
  · rw [previous]
    exact fun _ => .inl
  · rw [carried]
    exact fun _ => .inl

/-- On the way fewer tokens are left. -/
theorem length (leads : cursor.LeadsTo after) : after.rest.length ≤ cursor.rest.length :=
  leads.rest.length_le

theorem advance (cursor : Cursor) : cursor.LeadsTo cursor.advance where
  rest := cursor.rest_advance_suffix
  previous token isPrevious := by
    by_cases isEnd : cursor.peek.isEnd = true
    · simp only [Cursor.advance, isEnd, if_true] at isPrevious
      exact .inl isPrevious
    · have notEnd : cursor.peek.isEnd = false := by simpa using isEnd
      rw [previous_advance notEnd] at isPrevious
      cases isPrevious
      rw [rest_of_not_isEnd notEnd]
      exact .inr List.mem_cons_self
  carried comment isCarried := by
    have same : cursor.advance.carried = cursor.carried := by
      unfold Cursor.advance
      dsimp only
      split <;> rfl
    rw [same] at isCarried
    exact .inl isCarried

theorem advanceBy (cursor : Cursor) (count : Nat) : cursor.LeadsTo (cursor.advanceBy count) := by
  induction count generalizing cursor with
  | zero => exact refl cursor
  | succ count hypothesis => exact (advance cursor).trans (hypothesis cursor.advance)

end Cursor.LeadsTo

/-- A bracket after which a file may go on in two ways. -/
structure Fork where
  opener : Token
  here : List Token
  there : List Token
  bracket : String := "\x7b"
  isMark : opener.kind = .punctuator
  isBrace : opener.text = bracket
  /-- The token after a parenthesis may be seen before the parenthesis is taken. -/
  isBracket : bracket = "\x7b" ∨ bracket = "(" ∧ here.head? = there.head? := by
    exact .inl rfl

namespace Fork

/-- Two cursors that differ in no more than how the file goes on after the bracket. -/
structure Twins (fork : Fork) (first second : Cursor) : Prop where
  apart : ∃ front, first.rest = front ++ fork.opener :: fork.here ∧
    second = { first with rest := front ++ fork.opener :: fork.there }
  input : EndsOnce first.rest
  otherInput : EndsOnce second.rest

/-- The bracket has not been taken. -/
def Ahead (fork : Fork) (cursor : Cursor) : Prop :=
  fork.here.length < cursor.rest.length

/-- Two readings come to the same. -/
inductive Agree (fork : Fork) :
    EStateM.Result SyntaxError Cursor α -> EStateM.Result SyntaxError Cursor α -> Prop where
  | ok (value : α) {first second : Cursor} :
      fork.Twins first second -> Agree fork (.ok value first) (.ok value second)
  | error (error : SyntaxError) {first second : Cursor} :
      fork.Twins first second -> Agree fork (.error error first) (.error error second)

/-- A reading does not see past the bracket: unless it takes the bracket, it comes to the
same however the file goes on. -/
structure Blind (fork : Fork) (reading : Parse α) : Prop where
  leads : ∀ cursor : Cursor, cursor.LeadsTo (landing (reading cursor))
  agrees : ∀ {first second}, fork.Twins first second ->
    fork.Ahead (landing (reading first)) -> fork.Agree (reading first) (reading second)

variable {fork : Fork} {first second : Cursor}

theorem isOpener_opener : isOpener fork.opener.text = true := by
  rw [fork.isBrace]
  rcases fork.isBracket with isBrace | ⟨isParenthesis, -⟩
  · rw [isBrace]
    decide
  · rw [isParenthesis]
    decide

/-- The bracket has no text but those of opening brackets. -/
theorem bracket_ne
    {text : String}
    (noBracket : isOpener text = false) :
    fork.opener.text ≠ text := by
  rintro rfl
  rw [isOpener_opener] at noBracket
  contradiction

/-- What agrees with a success is one, with the same value. -/
theorem Agree.of_ok
    {value : α}
    {other : EStateM.Result SyntaxError Cursor α}
    (agree : fork.Agree (.ok value first) other) :
    ∃ second, other = .ok value second ∧ fork.Twins first second := by
  cases agree with
  | ok value twins => exact ⟨_, rfl, twins⟩

/-- What agrees with a failure is one, with the same error. -/
theorem Agree.of_error
    {error : SyntaxError}
    {other : EStateM.Result SyntaxError Cursor α}
    (agree : fork.Agree (.error error first) other) :
    ∃ second, other = .error error second ∧ fork.Twins first second := by
  cases agree with
  | error error twins => exact ⟨_, rfl, twins⟩

/-- A reading that succeeds before the bracket succeeds however the file goes on. -/
theorem Blind.succeeds
    {reading : Parse α}
    {value : α}
    {after : Cursor}
    (blind : fork.Blind reading)
    (twins : fork.Twins first second)
    (read : reading first = .ok value after)
    (ahead : fork.Ahead after) :
    ∃ other, reading second = .ok value other ∧ fork.Twins after other := by
  have agree := blind.agrees twins
  rw [read] at agree
  exact (agree ahead).of_ok

/-- Where a reading that succeeds leads. -/
theorem Blind.leadsTo
    {reading : Parse α}
    {value : α}
    {cursor after : Cursor}
    (blind : fork.Blind reading)
    (read : reading cursor = .ok value after) :
    cursor.LeadsTo after := by
  have leads := blind.leads cursor
  rwa [read] at leads

/-- Where the bracket has not been taken after a reading, it had not been before. -/
theorem Blind.ahead
    {reading : Parse α}
    {value : α}
    {cursor after : Cursor}
    (blind : fork.Blind reading)
    (read : reading cursor = .ok value after)
    (ahead : fork.Ahead after) :
    fork.Ahead cursor :=
  Nat.lt_of_lt_of_le ahead (blind.leadsTo read).length

/-! ## Two cursors -/

namespace Twins

/-- Both cursors have the same session. -/
theorem session (twins : fork.Twins first second) : second.session = first.session := by
  obtain ⟨front, -, rfl⟩ := twins.apart
  rfl

theorem previous (twins : fork.Twins first second) : second.previous = first.previous := by
  obtain ⟨front, -, rfl⟩ := twins.apart
  rfl

theorem peek (twins : fork.Twins first second) : second.peek = first.peek := by
  obtain ⟨front, isFirst, rfl⟩ := twins.apart
  unfold Cursor.peek
  rw [isFirst]
  cases front <;> rfl

/-- Up to the bracket nothing ends the input. -/
theorem notEnd (twins : fork.Twins first second) : first.peek.isEnd = false := by
  obtain ⟨front, isFirst, -⟩ := twins.apart
  by_contra isEnd
  have tokens := Cursor.rest_eq_peek_cons twins.input
  have input := twins.input
  rw [tokens] at input
  rw [tokens, (input.of_isEnd (by simpa using isEnd)).1] at isFirst
  cases front with
  | nil =>
      obtain ⟨isOpener, -⟩ := List.cons.inj isFirst
      rw [isOpener, Token.isEnd, fork.isMark] at isEnd
      contradiction
  | cons token front => simp at isFirst

/-- The token after the next is the same unless a brace comes next. -/
theorem peekNth_one
    (twins : fork.Twins first second)
    (before : first.peek ≠ fork.opener ∨ fork.here.head? = fork.there.head?) :
    second.peekNth 1 = first.peekNth 1 := by
  obtain ⟨front, isFirst, rfl⟩ := twins.apart
  unfold Cursor.peekNth
  rw [isFirst]
  rcases front with _ | ⟨token, _ | ⟨next, front⟩⟩
  · have sameNext := before.resolve_left fun before => before (Cursor.peek_eq_head isFirst)
    cases here : fork.here <;> cases there : fork.there <;> simp_all
  · rfl
  · rfl

theorem peekNth_two
    (twins : fork.Twins first second)
    (before : first.peek ≠ fork.opener)
    (nextBefore : first.peekNth 1 ≠ fork.opener ∨ fork.here.head? = fork.there.head?) :
    second.peekNth 2 = first.peekNth 2 := by
  obtain ⟨front, isFirst, rfl⟩ := twins.apart
  unfold Cursor.peekNth at nextBefore ⊢
  rw [isFirst] at nextBefore ⊢
  rcases front with _ | ⟨token, _ | ⟨next, _ | ⟨third, front⟩⟩⟩
  · exact absurd (Cursor.peek_eq_head isFirst) before
  · have sameNext := nextBefore.resolve_left fun before => before rfl
    cases here : fork.here <;> cases there : fork.there <;> simp_all
  · rfl
  · rfl

/-- What does not touch the tokens keeps two cursors together. -/
theorem change
    (twins : fork.Twins first second)
    {change : Cursor -> Cursor}
    (steady : ∀ (cursor : Cursor) (rest : List Token),
      change { cursor with rest } = { change cursor with rest }) :
    fork.Twins (change first) (change second) := by
  have sameRest (cursor : Cursor) : (change cursor).rest = cursor.rest := by
    rw [show change cursor = { change cursor with rest := cursor.rest } from
      steady cursor cursor.rest]
  obtain ⟨front, isFirst, rfl⟩ := twins.apart
  refine ⟨⟨front, by rw [sameRest, isFirst], steady first _⟩, ?_, ?_⟩
  · rw [sameRest]
    exact twins.input
  · rw [sameRest]
    exact twins.otherInput

/-- A syntax error is the same in both files. -/
theorem recordError
    (twins : fork.Twins first second)
    (expected : String) :
    fork.Twins (first.recordError expected) (second.recordError expected) := by
  have found (cursor : Cursor) : cursor.recordError expected =
      (fun token : Token =>
        { cursor.sync token with
          session := (cursor.sync token).session.error ("syntax error: " ++ expected ++
            ", found " ++ if token.isEnd then "end of file" else "'" ++ token.text ++ "'") })
        cursor.peek := rfl
  rw [found, found, twins.peek]
  exact @change fork first second twins
    (fun cursor =>
      { cursor.sync first.peek with session := (cursor.sync first.peek).session.error _ })
    fun _ _ => rfl

/-- Until the bracket is taken, the same tokens are taken. -/
theorem advance
    (twins : fork.Twins first second)
    (ahead : fork.Ahead first.advance) :
    fork.Twins first.advance second.advance ∧
      ∃ token front, first.rest = token :: front ++ fork.opener :: fork.here ∧
        first.advance.rest = front ++ fork.opener :: fork.here := by
  have notEnd := twins.notEnd
  have otherNotEnd : second.peek.isEnd = false := by rw [twins.peek, notEnd]
  have rest := Cursor.rest_advance notEnd
  have input := endsOnce_advance twins.input
  have otherInput := endsOnce_advance twins.otherInput
  have samePeek := twins.peek
  obtain ⟨front, isFirst, rfl⟩ := twins.apart
  rw [isFirst] at rest
  cases front with
  | nil =>
      rw [Ahead, rest] at ahead
      exact absurd ahead (Nat.lt_irrefl _)
  | cons token front =>
      refine ⟨⟨⟨front, rest, ?_⟩, input, otherInput⟩, token, front, isFirst, rest⟩
      unfold Cursor.advance
      rw [samePeek]
      simp only [notEnd, Bool.false_eq_true, if_false]
      rfl

end Twins

/-- Where the bracket has not been taken, no more tokens have been taken than stand
before it. -/
theorem Twins.advanceBy
    {front : List Token}
    (twins : fork.Twins first second)
    (isFirst : first.rest = front ++ fork.opener :: fork.here)
    (count : Nat)
    (ahead : fork.Ahead (first.advanceBy count)) :
    fork.Twins (first.advanceBy count) (second.advanceBy count) ∧ count ≤ front.length := by
  induction count generalizing first second front with
  | zero => exact ⟨twins, Nat.zero_le _⟩
  | succ count hypothesis =>
      have stillAhead : fork.Ahead first.advance :=
        Nat.lt_of_lt_of_le ahead (Cursor.LeadsTo.advanceBy first.advance count).length
      obtain ⟨further, token, others, isRest, isFurther⟩ := twins.advance stillAhead
      obtain ⟨together, fewer⟩ := hypothesis further isFurther ahead
      refine ⟨together, ?_⟩
      have length := congrArg List.length (isFirst.symm.trans isRest)
      simp only [List.length_append, List.length_cons] at length
      omega

/-- A run of tokens that ends before the bracket has to be the same however the file goes on;
then it is taken in both files. -/
theorem Twins.advanceBy_run
    {run : List Token -> Nat × γ}
    (twins : fork.Twins first second)
    (same : ∀ front, (run (front ++ fork.opener :: fork.here)).1 ≤ front.length ->
      run (front ++ fork.opener :: fork.there) = run (front ++ fork.opener :: fork.here))
    (ahead : fork.Ahead (first.advanceBy (run first.rest).1)) :
    run second.rest = run first.rest ∧
      fork.Twins (first.advanceBy (run first.rest).1) (second.advanceBy (run first.rest).1) := by
  obtain ⟨front, isFirst, isSecond⟩ := twins.apart
  obtain ⟨together, within⟩ := twins.advanceBy isFirst _ ahead
  refine ⟨?_, together⟩
  rw [isFirst] at within
  rw [isSecond, isFirst]
  exact same front within

/-! ## Steps of reading -/

namespace Blind

theorem pure (value : α) : fork.Blind (pure value : Parse α) where
  leads := .refl
  agrees twins _ := .ok value twins

/-- Running out of fuel sees nothing. -/
theorem exhausted : fork.Blind (throw .exhausted : Parse α) where
  leads := .refl
  agrees twins _ := .error .exhausted twins

theorem fail (expected : String) : fork.Blind (Grammar.fail expected : Parse α) where
  leads _ := .of_same rfl rfl rfl
  agrees twins _ := .error .recorded (twins.recordError expected)

/-- One reading after another. -/
theorem bind
    {reading : Parse α}
    {next : α -> Parse β}
    (blind : fork.Blind reading)
    (further : ∀ value, fork.Blind (next value)) :
    fork.Blind (reading >>= next) where
  leads cursor := by
    have leads := blind.leads cursor
    rw [bind_run]
    cases result : reading cursor with
    | ok value after =>
        rw [result] at leads
        exact leads.trans ((further value).leads after)
    | error error after =>
        rw [result] at leads
        exact leads
  agrees {first second} twins ahead := by
    rw [bind_run] at ahead ⊢
    rw [bind_run]
    have agree := blind.agrees twins
    cases result : reading first with
    | ok value after =>
        rw [result] at ahead agree
        have stillAhead := Nat.lt_of_lt_of_le ahead ((further value).leads after).length
        obtain ⟨other, otherResult, together⟩ := (agree stillAhead).of_ok
        rw [otherResult]
        exact (further value).agrees together ahead
    | error error after =>
        rw [result] at ahead agree
        obtain ⟨other, otherResult, together⟩ := (agree ahead).of_error
        rw [otherResult]
        exact .error error together

theorem ite
    {condition : Prop}
    [Decidable condition]
    {reading otherwise : Parse α}
    (holds : fork.Blind reading)
    (fails : fork.Blind otherwise) :
    fork.Blind (if condition then reading else otherwise) := by
  split
  · exact holds
  · exact fails

theorem discard {reading : Parse α} (blind : fork.Blind reading) :
    fork.Blind (discard reading) := by
  have same : Functor.discard reading = reading >>= fun _ => Pure.pure () := by
    funext cursor
    rw [discard_run, bind_run]
    cases reading cursor <;> rfl
  rw [same]
  exact .bind blind fun _ => .pure ()

/-- What is read may depend on all of the cursor that does not lie past the bracket. -/
theorem get_bind
    {next : Cursor -> Parse β}
    (each : ∀ cursor, fork.Blind (next cursor))
    (same : ∀ {first second}, fork.Twins first second -> next second = next first) :
    fork.Blind (get >>= next) where
  leads cursor := (each cursor).leads cursor
  agrees {first second} twins ahead := by
    rw [get_bind_run, get_bind_run, same twins]
    exact (each first).agrees twins ahead

theorem peek : fork.Blind Grammar.peek :=
  .get_bind (fun cursor => .pure cursor.peek) fun twins => by rw [twins.peek]

/-- Taking a token that is not the bracket does not see past it. -/
theorem take : fork.Blind take where
  leads := .advance
  agrees twins ahead := by
    rw [take_run, take_run, twins.peek]
    exact .ok _ (twins.advance ahead).1

/-- A change that is the same at both cursors does not see past the bracket. -/
theorem modify_of
    {change : Cursor -> Cursor}
    (leads : ∀ cursor : Cursor, cursor.LeadsTo (change cursor))
    (together : ∀ {first second}, fork.Twins first second ->
      fork.Twins (change first) (change second)) :
    fork.Blind (modify change : Parse Unit) where
  leads := leads
  agrees twins _ := .ok () (together twins)

theorem act (action : Session -> Session × α) : fork.Blind (act action) where
  leads _ := .of_same rfl rfl rfl
  agrees {first second} twins _ := by
    have together := @Twins.change fork first second twins
      (fun cursor => { cursor with session := (action cursor.session).1 }) fun _ _ => rfl
    rw [act_run, act_run]
    simp only [twins.session] at together ⊢
    exact .ok _ together

theorem sees (text : String) : fork.Blind (sees text) :=
  .bind .peek fun _ => .pure _

theorem accept (text : String) : fork.Blind (accept text) :=
  .bind (.sees text) fun _ => .ite (.bind .take fun _ => .pure _) (.pure _)

theorem expect (text : String) : fork.Blind (expect text) := by
  refine .bind (.accept text) fun token => ?_
  cases token with
  | none => exact .fail _
  | some token => exact .pure token

/-- A loop that is given as many steps as the tokens that are left call for. -/
theorem fuelled
    {loop : Nat -> Parse α}
    {steps : Cursor -> Nat}
    (each : ∀ count, fork.Blind (loop count))
    (refines : ∀ {fewer more : Nat}, fewer ≤ more -> Refines (loop fewer) (loop more))
    (finishes : ∀ {cursor : Cursor}, EndsOnce cursor.rest ->
      Finishes (loop (steps cursor) cursor)) :
    fork.Blind (get >>= fun cursor => loop (steps cursor)) where
  leads cursor := (each (steps cursor)).leads cursor
  agrees {first second} twins ahead := by
    have agree := (each (max (steps first) (steps second))).agrees twins
    rw [refines (Nat.le_max_left _ _) first (finishes twins.input),
      refines (Nat.le_max_right _ _) second (finishes twins.otherInput)] at agree
    exact agree ahead

/-- A loop with as much fuel as tokens are left does not see past the bracket if it needs no
more. -/
theorem fuelled_bind
    {loop : Nat -> Parse α}
    {steps : Cursor -> Nat}
    {next : α -> Parse β}
    (each : ∀ count, fork.Blind (loop count))
    (refines : ∀ {fewer more : Nat}, fewer ≤ more -> Refines (loop fewer) (loop more))
    (finishes : ∀ {cursor : Cursor}, EndsOnce cursor.rest ->
      Finishes (loop (steps cursor) cursor))
    (further : ∀ value, fork.Blind (next value)) :
    fork.Blind (get >>= fun cursor => loop (steps cursor) >>= next) := by
  rw [← bind_assoc]
  exact .bind (.fuelled each refines finishes) further

/-- A run of tokens is measured and then taken. -/
theorem skipRun
    {run : List Token -> Nat × γ}
    {next : γ -> Parse α}
    (same : ∀ front, (run (front ++ fork.opener :: fork.here)).1 ≤ front.length ->
      run (front ++ fork.opener :: fork.there) = run (front ++ fork.opener :: fork.here))
    (each : ∀ ending, fork.Blind (next ending)) :
    fork.Blind (get >>= fun cursor =>
      skip (run cursor.rest).1 >>= fun _ => next (run cursor.rest).2) where
  leads cursor := by
    rw [get_bind_run, skip_bind_run]
    exact (Cursor.LeadsTo.advanceBy cursor _).trans ((each _).leads _)
  agrees {first second} twins ahead := by
    rw [get_bind_run, skip_bind_run] at ahead ⊢
    rw [get_bind_run, skip_bind_run]
    obtain ⟨sameRun, together⟩ :=
      twins.advanceBy_run same (Nat.lt_of_lt_of_le ahead ((each _).leads _).length)
    rw [sameRun]
    exact (each _).agrees together ahead

end Blind

/-! ## Skipping -/

/-- A closing bracket is looked for in the same way in both files. -/
theorem closingRun_same
    (close : String)
    (depth : Nat)
    {front : List Token}
    (within : (closingRun close depth (front ++ fork.opener :: fork.here)).1 ≤ front.length) :
    closingRun close depth (front ++ fork.opener :: fork.there) =
      closingRun close depth (front ++ fork.opener :: fork.here) := by
  induction front generalizing depth with
  | nil => simp [closingRun, Token.isEnd, fork.isMark, isOpener_opener] at within
  | cons token front hypothesis =>
      simp only [List.cons_append, closingRun] at within ⊢
      split_ifs at within ⊢ with ended opens closes
      · rfl
      · rw [hypothesis _ (by simpa using within)]
      · cases depth with
        | zero => rfl
        | succ depth =>
            dsimp only at within ⊢
            rw [hypothesis _ (by simpa using within)]
      · rw [hypothesis _ (by simpa using within)]

/-- An expression is looked through in the same way in both files. -/
theorem expressionRun_same
    {stops : List String}
    (noStop : ∀ text ∈ stops, isOpener text = false)
    (depth : Nat)
    {front : List Token}
    (within : (expressionRun stops depth (front ++ fork.opener :: fork.here)).1 ≤ front.length) :
    expressionRun stops depth (front ++ fork.opener :: fork.there) =
      expressionRun stops depth (front ++ fork.opener :: fork.here) := by
  induction front generalizing depth with
  | nil =>
      have noStop : fork.opener.text ∉ stops := fun member =>
        bracket_ne (noStop _ member) rfl
      simp [expressionRun, Token.isEnd, fork.isMark, isOpener_opener, noStop] at within
  | cons token front hypothesis =>
      simp only [List.cons_append, expressionRun] at within ⊢
      split_ifs at within ⊢ with ended stopped opens closes closed
      · rfl
      · rfl
      · rw [hypothesis _ (by simpa using within)]
      · rfl
      · rw [hypothesis _ (by simpa using within)]
      · rw [hypothesis _ (by simpa using within)]

/-- What is skipped after an error is the same in both files. -/
theorem recoveryRun_same
    (depth : Nat)
    {front : List Token}
    (within : recoveryRun depth (front ++ fork.opener :: fork.here) ≤ front.length) :
    recoveryRun depth (front ++ fork.opener :: fork.there) =
      recoveryRun depth (front ++ fork.opener :: fork.here) := by
  induction front generalizing depth with
  | nil =>
      have noSemicolon : fork.opener.text ≠ ";" := bracket_ne (by decide)
      have noCloser : fork.opener.text ≠ "\x7d" := bracket_ne (by decide)
      simp only [List.nil_append, recoveryRun, Token.isEnd, fork.isMark, beq_iff_eq,
        noCloser] at within
      split_ifs at within <;> simp_all
  | cons token front hypothesis =>
      simp only [List.cons_append, recoveryRun] at within ⊢
      split_ifs at within ⊢ with ended semicolon opens closes
      · rfl
      · rfl
      · rw [hypothesis _ (by simpa using within)]
      · rcases depth with _ | _ | depth
        · rfl
        · rfl
        · exact congrArg (· + 1) (hypothesis (depth + 1) (Nat.le_of_succ_le_succ within))
      · rw [hypothesis _ (by simpa using within)]

namespace Blind

/-- The search for a closing bracket does not see past an opening one. -/
theorem skipUntilClose (close : String) : fork.Blind (skipUntilClose close) := by
  have each (closed : Bool) : fork.Blind
      (if closed then Pure.pure () else Grammar.fail ("expected '" ++ close ++ "'")) :=
    .ite (.pure ()) (.fail _)
  exact skipRun (fun _ => closingRun_same close 0) each

theorem skipBalanced (opener close : String) : fork.Blind (skipBalanced opener close) :=
  .bind (.discard (.expect opener)) fun _ => skipUntilClose close

theorem skipGroup (opener close : String) : fork.Blind (skipGroup opener close) :=
  .bind (.sees opener) fun _ => .ite (skipBalanced opener close) (.pure ())

/-- Skipping an expression does not see past the bracket. -/
theorem skipExpression
    {stops : List String}
    (noStop : ∀ text ∈ stops, isOpener text = false) :
    fork.Blind (skipExpression stops) where
  leads cursor := by
    unfold Grammar.skipExpression
    simp only [get_bind_run, skip_bind_run]
    have leads := Cursor.LeadsTo.advanceBy cursor (expressionRun stops 0 cursor.rest).1
    cases (expressionRun stops 0 cursor.rest).2 with
    | stop => exact leads
    | unbalanced => exact leads.trans (.of_same rfl rfl rfl)
    | endOfFile => exact leads.trans (.of_same rfl rfl rfl)
  agrees {first second} twins ahead := by
    unfold Grammar.skipExpression at ahead ⊢
    simp only [get_bind_run, skip_bind_run] at ahead ⊢
    have stillAhead : fork.Ahead (first.advanceBy (expressionRun stops 0 first.rest).1) := by
      revert ahead
      cases (expressionRun stops 0 first.rest).2 <;> exact id
    obtain ⟨sameRun, together⟩ :=
      twins.advanceBy_run (fun _ => expressionRun_same noStop 0) stillAhead
    rw [sameRun]
    cases (expressionRun stops 0 first.rest).2 with
    | stop => exact .ok () together
    | unbalanced => exact (Blind.fail _).agrees together stillAhead
    | endOfFile => exact (Blind.fail _).agrees together stillAhead

/-- Skipping a value does not see past the bracket. -/
theorem skipValue
    {stops : List String}
    (noStop : ∀ text ∈ stops, isOpener text = false) :
    fork.Blind (skipValue stops) :=
  .bind (.accept "=") fun _ => .ite (skipExpression noStop) (.pure ())

/-- Skipping attributes does not see past the bracket. -/
theorem skipAttributesUpTo (count : Nat) : fork.Blind (skipAttributesUpTo count) := by
  induction count with
  | zero => exact .exhausted
  | succ count hypothesis =>
      unfold Grammar.skipAttributesUpTo
      refine .bind .peek fun token => .ite ?_ (.pure ())
      exact .bind (.discard .take) fun _ => .bind (skipGroup "(" ")") fun _ => hypothesis

theorem skipAttributes : fork.Blind skipAttributes :=
  .fuelled skipAttributesUpTo skipAttributesUpTo_refines fun input =>
    (skipAttributesUpTo_lands input (Nat.le_refl _)).finishes

/-- Recovering from an error does not see past the bracket. -/
theorem recover : fork.Blind recover := by
  have same (front : List Token)
      (within : recoveryRun 0 (front ++ fork.opener :: fork.here) ≤ front.length) :
      (recoveryRun 0 (front ++ fork.opener :: fork.there), ()) =
        (recoveryRun 0 (front ++ fork.opener :: fork.here), ()) := by
    rw [recoveryRun_same 0 within]
  exact @skipRun _ _ fork (fun tokens => (recoveryRun 0 tokens, ())) _ same fun _ => .pure ()

/-- Skipping a statement does not see past the bracket. -/
theorem skipStatementUpTo (steps : Nat) : fork.Blind (skipStatementUpTo steps) := by
  induction steps with
  | zero => exact .exhausted
  | succ steps hypothesis =>
      unfold Grammar.skipStatementUpTo
      refine .bind .peek fun next => .ite (.pure ()) (.bind (.sees "(") fun opens => .ite ?_ ?_)
      · exact .bind (skipBalanced "(" ")") fun _ => hypothesis
      · exact .bind .take fun token => .ite (.pure ()) hypothesis

theorem skipStatement : fork.Blind skipStatement :=
  .fuelled skipStatementUpTo skipStatementUpTo_refines fun input =>
    (skipStatementUpTo_lands input (Nat.le_refl _)).finishes

end Blind
end Fork
end Grammar
end DeclManual
