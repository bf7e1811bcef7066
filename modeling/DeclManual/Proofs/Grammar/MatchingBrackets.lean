import DeclManual.Proofs.Grammar.DeclaratorReading
import DeclManual.Proofs.Grammar.Gap

/-!
# Matching brackets

What is skipped in brackets is measured by one counter for all three kinds of them.  Where
every bracket has its match, the counter leads through the match of the bracket that has been
taken, and an expression is left at the first stop outside all brackets.  In any case the
tokens that are skipped close one bracket more than they open, and their last token is the
first at which they do.
-/

namespace DeclManual
namespace Grammar

open Source (Token)

variable {tokens inside rest : List Token} {depth left : Nat} {cursor after : Cursor}

/-! ## Tokens in which brackets match -/

/-- Tokens in which every bracket has a match of its own kind.  A bracket is a punctuator; any
other token is passed over, whatever its text. -/
inductive WellBracketed : List Token → Prop where
  | nil : WellBracketed []
  | plain
      {token : Token}
      {rest : List Token}
      (notBracket : token.kind = .punctuator → isBracket token.text = false)
      (further : WellBracketed rest) :
      WellBracketed (token :: rest)
  | group
      {opener closer : Token}
      {inside rest : List Token}
      (opens : opener.kind = .punctuator)
      (closes : closer.kind = .punctuator)
      (paired : arePaired opener.text closer.text = true)
      (within : WellBracketed inside)
      (further : WellBracketed rest) :
      WellBracketed (opener :: (inside ++ closer :: rest))

/-- The one counter sees every bracket of well bracketed tokens closed. -/
theorem WellBracketed.closed (bracketed : WellBracketed tokens) : BracketsClosed tokens := by
  induction bracketed with
  | nil => rfl
  | @plain token rest notBracket further hypothesis =>
      have passed : openAfter 0 [token] = some 0 := by
        by_cases isMark : token.kind = .punctuator
        · have noBracket := notBracket isMark
          rw [isBracket, Bool.or_eq_false_iff] at noBracket
          simp [openAfter, noBracket]
        · simp [openAfter, isMark]
      rw [BracketsClosed, ← List.singleton_append, openAfter_append, passed]
      exact hypothesis
  | @group opener closer inside rest opens closes paired within further closed hypothesis =>
      obtain ⟨isOpener, isCloser, notOpener⟩ := brackets_of_arePaired paired
      have opened : openAfter 0 [opener] = some 1 := by simp [openAfter, opens, isOpener]
      have back : openAfter 1 [closer] = some 0 := by simp [openAfter, closes, isCloser, notOpener]
      have through : openAfter 1 inside = some 1 := openAfter_succ closed
      rw [BracketsClosed, ← List.singleton_append, ← List.singleton_append (l := rest),
        openAfter_append, opened, Option.bind_some, openAfter_append, through, Option.bind_some,
        openAfter_append, back]
      exact hypothesis

/-! ## Counting brackets -/

/-- The number of brackets that tokens open. -/
def openers (tokens : List Token) : Nat :=
  tokens.countP fun token => token.kind == .punctuator && isOpener token.text

/-- The number of brackets that tokens close. -/
def closers (tokens : List Token) : Nat :=
  tokens.countP fun token => token.kind == .punctuator && isCloser token.text

/-- Tokens close one bracket more than they open. -/
def ClosesOneMore (tokens : List Token) : Prop :=
  closers tokens = openers tokens + 1

theorem openers_append (front back : List Token) :
    openers (front ++ back) = openers front + openers back :=
  List.countP_append

theorem closers_append (front back : List Token) :
    closers (front ++ back) = closers front + closers back :=
  List.countP_append

/-- The brackets that are open are those that were opened and not closed. -/
theorem openers_add
    (opened : openAfter depth tokens = some left) :
    depth + openers tokens = left + closers tokens := by
  induction tokens generalizing depth with
  | nil =>
      cases opened
      rfl
  | cons token tokens hypothesis =>
      simp only [openAfter] at opened
      rw [openers, closers, List.countP_cons, List.countP_cons]
      change depth + (openers tokens + _) = left + (closers tokens + _)
      by_cases opens : (token.kind == .punctuator && isOpener token.text) = true
      · have notCloser : ¬ (token.kind == .punctuator && isCloser token.text) = true := by
          intro closes
          simp only [Bool.and_eq_true] at opens closes
          rw [not_isOpener_of_isCloser closes.2] at opens
          exact Bool.false_ne_true opens.2
        rw [if_pos opens] at opened ⊢
        rw [if_neg notCloser]
        have counted := hypothesis opened
        omega
      rw [if_neg opens] at opened ⊢
      by_cases closes : (token.kind == .punctuator && isCloser token.text) = true
      · rw [if_pos closes] at opened ⊢
        cases depth with
        | zero => cases opened
        | succ depth =>
            have counted := hypothesis opened
            omega
      · rw [if_neg closes] at opened ⊢
        exact hypothesis opened

/-- Tokens in which no bracket is closed that had not been opened close no more than they
open. -/
theorem not_closesOneMore (opened : openAfter 0 tokens = some left) : ¬ ClosesOneMore tokens := by
  have counted := openers_add opened
  unfold ClosesOneMore
  omega

/-- The tokens up to a closing bracket without a match are the first that close one more than
they open. -/
theorem closesOneMore_through
    {closer : Token}
    (closed : BracketsClosed inside)
    (isMark : closer.kind = .punctuator)
    (closes : isCloser closer.text = true) :
    ClosesOneMore (inside ++ [closer]) ∧
    ∀ front, front <+: inside ++ [closer] → front ≠ inside ++ [closer] → ¬ ClosesOneMore front := by
  constructor
  · have counted := openers_add closed
    have notOpener := not_isOpener_of_isCloser closes
    have ends : openers [closer] = 0 ∧ closers [closer] = 1 := by
      simp [openers, closers, isMark, closes, notOpener]
    rw [ClosesOneMore, openers_append, closers_append, ends.1, ends.2]
    omega
  · intro front begins proper
    obtain ⟨back, rfl⟩ := (List.prefix_concat_iff.1 begins).resolve_left proper
    rw [BracketsClosed, openAfter_append] at closed
    obtain ⟨left, opened, -⟩ := Option.bind_eq_some_iff.1 closed
    exact not_closesOneMore opened

/-! ## What is skipped -/

/-- Skipping ends right behind the bracket that matches one already taken. -/
theorem skipUntilClose_matching
    {closer : Token}
    (isRest : cursor.rest = inside ++ closer :: rest)
    (bracketed : WellBracketed inside)
    (noEnd : ∀ token ∈ inside, token.isEnd = false)
    (isMark : closer.kind = .punctuator)
    (closes : isCloser closer.text = true) :
    skipUntilClose closer.text cursor = .ok () (cursor.past closer rest) := by
  have notEnd : closer.isEnd = false := Token.not_isEnd_of_punctuator isMark
  rw [Gap.skipUntilClose_run isRest bracketed.closed noEnd ⟨isMark, closes⟩,
    Cursor.advanceBy_eq_past isRest noEnd notEnd]

/-- An expression ends at its first stop outside all brackets. -/
theorem skipExpression_stop
    {stops : List String}
    {stop : Token}
    (isRest : cursor.rest = inside ++ stop :: rest)
    (bracketed : WellBracketed inside)
    (noEnd : ∀ token ∈ inside, token.isEnd = false)
    (marked : ∀ token ∈ inside, isBracket token.text = true → token.kind = .punctuator)
    (noStop : NoneOutside stops 0 inside)
    (notEnd : stop.isEnd = false)
    (isStop : stops.contains stop.text = true) :
    skipExpression stops cursor = .ok () (cursor.advanceBy inside.length) ∧
    (cursor.advanceBy inside.length).rest = stop :: rest := by
  have ends : expressionRun stops 0 (stop :: rest) = (0, .stop) := by
    simp only [expressionRun, notEnd, isStop, Bool.false_eq_true, if_false, beq_self_eq_true,
      Bool.and_self, if_true]
  have run : expressionRun stops 0 cursor.rest = (inside.length, .stop) := by
    rw [isRest, expressionRun_append bracketed.closed noEnd marked noStop, ends, Nat.zero_add]
  have passes := Cursor.Passes.advanceBy inside isRest noEnd
  refine ⟨Gap.skipExpression_run run, ?_⟩
  exact (List.append_cancel_left (isRest.symm.trans passes.rest)).symm

/-- What is skipped up to a bracket are the first tokens that close one more than they open. -/
theorem skipUntilClose_consumed
    {close : String}
    (skipped : skipUntilClose close cursor = .ok () after) :
    ∃ run, cursor.rest = run ++ after.rest ∧ ClosesOneMore run ∧
      ∀ front, front <+: run → front ≠ run → ¬ ClosesOneMore front := by
  obtain ⟨inside, closer, rest, isRest, closed, noEnd, isMark, closes, -, rfl⟩ :=
    Gap.skipUntilClose_ok skipped
  have notEnd : closer.isEnd = false := Token.not_isEnd_of_punctuator isMark
  refine ⟨inside ++ [closer], ?_, closesOneMore_through closed isMark closes⟩
  rw [Cursor.advanceBy_eq_past isRest noEnd notEnd, isRest, List.append_assoc]
  rfl

/-- In front of well bracketed tokens and a closing bracket, skipping up to it ends right behind
it.  In front of well bracketed tokens and a stop, an expression ends right before the stop, if
none stands among them outside all brackets.  Whatever is skipped up to a closing bracket, its
tokens are the first that close one bracket more than they open.  Of the tokens of a source
punctuators alone are brackets, so no bracket in a literal is among those. -/
theorem skipping_stops_at_match :
    (∀ (cursor : Cursor) (inside rest : List Token) (closer : Token),
      cursor.rest = inside ++ closer :: rest → WellBracketed inside →
      (∀ token ∈ inside, token.isEnd = false) →
      closer.kind = .punctuator → isCloser closer.text = true →
      skipUntilClose closer.text cursor = .ok () (cursor.past closer rest) ∧
      (cursor.past closer rest).rest = rest) ∧
    (∀ (stops : List String) (cursor : Cursor) (inside rest : List Token) (stop : Token),
      cursor.rest = inside ++ stop :: rest → WellBracketed inside →
      (∀ token ∈ inside, token.isEnd = false) →
      (∀ token ∈ inside, isBracket token.text = true → token.kind = .punctuator) →
      NoneOutside stops 0 inside → stop.isEnd = false → stops.contains stop.text = true →
      skipExpression stops cursor = .ok () (cursor.advanceBy inside.length) ∧
      (cursor.advanceBy inside.length).rest = stop :: rest) ∧
    (∀ (close : String) (cursor after : Cursor), skipUntilClose close cursor = .ok () after →
      ∃ run, cursor.rest = run ++ after.rest ∧ ClosesOneMore run ∧
        ∀ front, front <+: run → front ≠ run → ¬ ClosesOneMore front) ∧
    ∀ (source : String) (baseFile : Option String) (lexed : Source.Lexed),
      Source.tokenize source baseFile = .ok lexed →
      ∀ token ∈ lexed.tokens, isBracket token.text = true → token.kind = .punctuator := by
  refine ⟨?_, ?_, ?_, ?_⟩
  · intro cursor inside rest closer isRest bracketed noEnd isMark closes
    exact ⟨skipUntilClose_matching isRest bracketed noEnd isMark closes, rfl⟩
  · intro stops cursor inside rest stop isRest bracketed noEnd marked noStop notEnd isStop
    exact skipExpression_stop isRest bracketed noEnd marked noStop notEnd isStop
  · intro close cursor after skipped
    exact skipUntilClose_consumed skipped
  · intro source baseFile lexed read token member bracket
    exact (tidy_of_tokenize read).marked token member (isMark_of_isBracket bracket)

/-- A call with a comma, a nested bracket, and the other bracket of each in a literal. -/
def bracketedCall : List Token :=
  [.word "f", .mark "(", .plain .charLiteral "')'", .mark ",", .word "a", .mark "[",
    .plain .stringLiteral "\"]\"", .mark "]", .mark ")"]

theorem wellBracketed_bracketedCall : WellBracketed bracketedCall := by
  have index : WellBracketed [.mark "[", .plain .stringLiteral "\"]\"", .mark "]"] :=
    @WellBracketed.group (.mark "[") (.mark "]") [.plain .stringLiteral "\"]\""] [] rfl rfl
      (by decide) (.plain nofun .nil) .nil
  have arguments : WellBracketed [.plain .charLiteral "')'", .mark ",", .word "a", .mark "[",
      .plain .stringLiteral "\"]\"", .mark "]"] :=
    .plain nofun (.plain (fun _ => by decide) (.plain nofun index))
  exact .plain nofun
    (@WellBracketed.group (.mark "(") (.mark ")") _ [] rfl rfl (by decide) arguments .nil)

/-- A cursor before the call and what follows it. -/
def beforeCall (following : List Token) : Cursor where
  session := {}
  rest := bracketedCall ++ following

-- the comma inside the call does not stop the expression
theorem skipping_stops_at_match_call :
    (skipUntilClose "\x7d" (beforeCall [.mark "\x7d", .mark ";"]) =
        .ok () ((beforeCall [.mark "\x7d", .mark ";"]).past (.mark "\x7d") [.mark ";"]) ∧
      ((beforeCall [.mark "\x7d", .mark ";"]).past (.mark "\x7d") [.mark ";"]).rest =
        [.mark ";"]) ∧
    (skipExpression [",", ";"] (beforeCall [.mark ";"]) =
        .ok () ((beforeCall [.mark ";"]).advanceBy bracketedCall.length) ∧
      ((beforeCall [.mark ";"]).advanceBy bracketedCall.length).rest = [.mark ";"]) ∧
    (∃ run, (beforeCall [.mark "\x7d", .mark ";"]).rest = run ++ [.mark ";"] ∧
      ClosesOneMore run ∧ ∀ front, front <+: run → front ≠ run → ¬ ClosesOneMore front) ∧
    ∃ lexed, Source.tokenize "f(')', a[\"]\"]);" none = .ok lexed ∧
      ∀ token ∈ lexed.tokens, isBracket token.text = true → token.kind = .punctuator := by
  obtain ⟨closing, stopping, consumed, marked⟩ := skipping_stops_at_match
  have closed := closing (beforeCall [.mark "\x7d", .mark ";"]) bracketedCall [.mark ";"]
    (.mark "\x7d") rfl wellBracketed_bracketedCall (by decide) rfl rfl
  refine ⟨closed, ?_, consumed _ _ _ closed.1, ?_⟩
  · exact stopping [",", ";"] (beforeCall [.mark ";"]) bracketedCall [] (.mark ";") rfl
      wellBracketed_bracketedCall (by decide) (by decide) (by decide) rfl rfl
  · have reads : (Source.tokenize "f(')', a[\"]\"]);" none).toOption.isSome = true := by
      decide +kernel
    cases read : Source.tokenize "f(')', a[\"]\"]);" none with
    | ok lexed => exact ⟨lexed, rfl, marked _ none lexed read⟩
    | error error =>
        rw [read] at reads
        cases reads

end Grammar
end DeclManual
