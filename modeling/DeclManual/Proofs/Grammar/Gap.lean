import DeclManual.Proofs.Grammar.Attributes
import DeclManual.Proofs.Grammar.BareNames

/-!
# Reading over attributes

Of two files one may have attributes after a closing parenthesis where the other has none.
As long as the first is read without an error, and no comment stands among the tokens that
are read, both are read in step: before the parenthesis their cursors differ in no more
than the tokens left, between the parenthesis and the attributes nothing is read but
attributes, and behind them the cursors differ in no more than the token taken last, until
another is taken.
-/

namespace DeclManual
namespace Grammar

open Decl
open Source (CommentFree Token)

variable {α β γ δ : Type}

/-- A closing parenthesis after which attributes are put in. -/
structure Gap where
  closer : Token
  run : List Attribute
  after : List Token
  closes : closer.kind = .punctuator ∧ closer.text = ")"
  /-- Whether the declaration around the parenthesis may get a page, so that all that is read
  of it matters. -/
  documented : Prop

namespace Gap

/-- The tokens that are put in. -/
def tokens (gap : Gap) : List Token :=
  Attribute.runTokens gap.run

/-- What is read of the tokens before the parenthesis cannot depend on the attributes: the
parenthesis stands in no brackets of an array, and if it closes a list of bare names, it is
clear without the attributes that they are an identifier list. -/
structure Clear (gap : Gap) (session : Session) (front : List Token) : Prop where
  arrays : ∀ {earlier later : List Token} {bracket : Token},
    front = earlier ++ bracket :: later → bracket.hasText "[" = true → openAfter 0 later = none
  names : ∀ {earlier inside : List Token} {opener : Token},
    front = earlier ++ opener :: inside → opener.hasText "(" = true →
      BareNames session inside → Announces gap.after = true

/-- How the cursor of a file without the attributes and that of the file with them stand
apart. -/
inductive Apart (gap : Gap) : (within : Bool) → (first second : Cursor) → Prop where
  /-- The parenthesis has not been taken. -/
  | ahead {within : Bool} {first : Cursor} (front : List Token) :
      first.rest = front ++ gap.closer :: gap.after →
      (gap.documented → gap.Clear first.session front) →
      Apart gap within first { first with rest := front ++ gap.closer :: (gap.tokens ++ gap.after) }
  /-- The parenthesis has been taken, but no attribute. -/
  | here {first : Cursor} :
      first.rest = gap.after → first.previous = some gap.closer →
      Apart gap true first { first with rest := gap.tokens ++ gap.after }
  /-- The attributes have been taken, and nothing after them. -/
  | behind {within : Bool} {first : Cursor} (last : Token) :
      first.previous = some gap.closer → last.text = ")" →
      Apart gap within first { first.sync last with previous := some last }
  /-- A token after the attributes has been taken. -/
  | past {within : Bool} {first : Cursor} : Apart gap within first first

/-- Two cursors that are read in step, before tokens without comments. -/
structure Beside (gap : Gap) (within : Bool) (first second : Cursor) (fresh : Bool := false) :
    Prop where
  apart : gap.Apart within first second
  plain : first.Plain fresh
  otherPlain : second.Plain fresh

variable {gap : Gap} {within fresh : Bool} {first second : Cursor}

/-- The parenthesis before the attributes does not end the input. -/
theorem closer_notEnd : gap.closer.isEnd = false :=
  Token.not_isEnd_of_punctuator gap.closes.1

/-- The parenthesis before the attributes has its own text alone. -/
theorem hasText_closer (text : String) : gap.closer.hasText text = (")" == text) := by
  rw [Token.hasText, gap.closes.1, gap.closes.2]
  rfl

namespace Clear

variable {session other : Session} {before front : List Token}

/-- What is clear depends on no more of a session than its typedef names. -/
theorem congr
    (clear : gap.Clear session front)
    (same : other.typedefs = session.typedefs) :
    gap.Clear other front where
  arrays := clear.arrays
  names isFront opens bare := clear.names isFront opens ((BareNames.congr same).1 bare)

theorem of_append (clear : gap.Clear session (before ++ front)) : gap.Clear session front where
  arrays isFront opens := clear.arrays (by rw [isFront, List.append_assoc]) opens
  names isFront opens bare := clear.names (by rw [isFront, List.append_assoc]) opens bare

end Clear

theorem Apart.weaken (apart : gap.Apart false first second) : gap.Apart within first second := by
  cases apart with
  | ahead front isRest clear => exact .ahead front isRest clear
  | behind last taken closes => exact .behind last taken closes
  | past => exact .past

namespace Beside

theorem weaken (beside : gap.Beside false first second fresh) :
    gap.Beside within first second fresh :=
  { beside with apart := beside.apart.weaken }

/-- What holds after a token has been taken holds at the start as well. -/
theorem refresh (beside : gap.Beside within first second) :
    gap.Beside within first second fresh :=
  ⟨beside.apart, beside.plain.weaken, beside.otherPlain.weaken⟩

theorem peek (beside : gap.Beside false first second fresh) : second.peek = first.peek := by
  cases beside.apart with
  | ahead front isRest clear =>
      unfold Cursor.peek
      rw [isRest]
      cases front <;> rfl
  | behind last taken closes => rfl
  | past => rfl

/-- The same was taken last, unless it is a closing parenthesis. -/
theorem justTook
    (beside : gap.Beside false first second fresh)
    {text : String}
    (noCloser : text ≠ ")") :
    second.justTook text = first.justTook text := by
  cases beside.apart with
  | ahead front isRest clear => rfl
  | behind last taken closes =>
      have isLast : last.hasText text = false :=
        Token.hasText_of_text_ne (by rw [closes]; exact noCloser.symm)
      have isCloser : gap.closer.hasText text = false := by
        rw [hasText_closer]
        exact beq_false_of_ne noCloser.symm
      rw [Cursor.justTook_of_previous taken, isCloser, ← isLast]
      rfl
  | past => rfl

/-! ## Looking ahead -/

theorem typedefs (beside : gap.Beside within first second fresh) :
    second.session.typedefs = first.session.typedefs := by
  cases beside.apart <;> rfl

/-- Both sessions have the same tags of enumerations. -/
theorem enumTags (beside : gap.Beside within first second fresh) :
    second.session.enumTags = first.session.enumTags := by
  cases beside.apart <;> rfl

/-- The token after the next one is the same unless the next one is a closing
parenthesis. -/
theorem peekNth_one
    (beside : gap.Beside false first second fresh)
    (before : first.peek.hasText ")" = false) :
    second.peekNth 1 = first.peekNth 1 := by
  cases beside.apart with
  | ahead front isRest clear =>
      unfold Cursor.peekNth
      rw [isRest]
      rcases front with _ | ⟨token, _ | ⟨next, front⟩⟩
      · rw [Cursor.peek_eq_head isRest, hasText_closer] at before
        contradiction
      · rfl
      · rfl
  | behind last taken closes => rfl
  | past => rfl

/-- The second token after the next one is the same unless a closing parenthesis stands
before it. -/
theorem peekNth_two
    (beside : gap.Beside false first second fresh)
    (before : first.peek.hasText ")" = false)
    (nextBefore : (first.peekNth 1).hasText ")" = false) :
    second.peekNth 2 = first.peekNth 2 := by
  cases beside.apart with
  | ahead front isRest clear =>
      unfold Cursor.peekNth at nextBefore ⊢
      rw [isRest] at nextBefore ⊢
      rcases front with _ | ⟨token, _ | ⟨next, _ | ⟨third, front⟩⟩⟩
      · rw [Cursor.peek_eq_head isRest, hasText_closer] at before
        contradiction
      · simp [hasText_closer] at nextBefore
      · rfl
      · rfl
  | behind last taken closes => rfl
  | past => rfl

/-- The next token names a type for both or for neither. -/
theorem namesType
    (beside : gap.Beside false first second fresh)
    (context : Context)
    (isWord : first.peek.isWord = true) :
    namesType context second = namesType context first := by
  have before : first.peek.hasText ")" = false := beside.plain.hasText_word (by decide) isWord
  unfold Grammar.namesType
  cases context with
  | parameter => rfl
  | declaration =>
      dsimp only
      rw [beside.peekNth_one before]
      by_cases opens : (first.peekNth 1).hasText "(" = true
      · have nextBefore : (first.peekNth 1).hasText ")" = false :=
          Token.hasText_of_text_ne (by rw [Token.text_of_hasText opens]; decide)
        rw [beside.peekNth_two before nextBefore]
      · simp [opens]

/-- The next token means the same to both. -/
theorem meaningAt
    (beside : gap.Beside false first second fresh)
    (context : Context)
    (seenType : Bool)
    (isWord : first.peek.isWord = true) :
    meaningAt context seenType second = meaningAt context seenType first := by
  unfold Grammar.meaningAt Session.isTypedefName
  rw [beside.peek, beside.peekNth_one (beside.plain.hasText_word (by decide) isWord),
    beside.typedefs,
    beside.namesType context isWord]

/-- A parenthesis opens a nested declarator for both or for neither. -/
theorem opensNested
    (beside : gap.Beside false first second fresh)
    (opens : first.peek.hasText "(" = true) :
    opensNested second = opensNested first := by
  have before : first.peek.hasText ")" = false :=
    Token.hasText_of_text_ne (by rw [Token.text_of_hasText opens]; decide)
  unfold Grammar.opensNested Session.isTypedefName
  rw [beside.peekNth_one before, beside.typedefs]

/-! ## Taking tokens -/

/-- Taking the same token from both. -/
theorem advance
    (beside : gap.Beside false first second fresh)
    (notEnd : first.peek.isEnd = false) :
    gap.Beside true first.advance second.advance where
  apart := by
    cases beside.apart with
    | ahead front isRest clear =>
        cases front with
        | nil =>
            rw [Cursor.advance_eq_past isRest closer_notEnd,
              Cursor.advance_eq_past rfl closer_notEnd]
            exact .here rfl rfl
        | cons token front =>
            rw [Cursor.peek_eq_head isRest] at notEnd
            rw [Cursor.advance_eq_past isRest notEnd, Cursor.advance_eq_past rfl notEnd]
            exact .ahead front rfl fun documented =>
              (@Clear.of_append gap _ [token] front (clear documented)).congr rfl
    | behind last taken closes =>
        have tokens := Cursor.rest_of_not_isEnd notEnd
        rw [Cursor.advance_eq_past tokens notEnd, Cursor.advance_eq_past (by exact tokens) notEnd]
        exact .past
    | past => exact .past
  plain := beside.plain.advance notEnd
  otherPlain := beside.otherPlain.advance (by rw [beside.peek, notEnd])

/-- A gap that does not start after the token taken last has been passed or is ahead. -/
theorem narrow
    (beside : gap.Beside true first second fresh)
    (notTaken : first.previous ≠ some gap.closer) :
    gap.Beside false first second fresh := by
  refine { beside with apart := ?_ }
  cases beside.apart with
  | ahead front isRest clear => exact .ahead front isRest clear
  | here isRest taken => exact absurd taken notTaken
  | behind last taken closes => exact absurd taken notTaken
  | past => exact .past

/-- Taking a token that is no closing parenthesis. -/
theorem advance_ne
    (beside : gap.Beside false first second fresh)
    (notEnd : first.peek.isEnd = false)
    (noCloser : first.peek.hasText ")" = false) :
    gap.Beside false first.advance second.advance := by
  apply (beside.advance notEnd).narrow
  rw [Cursor.previous_advance notEnd]
  intro isCloser
  rw [Option.some.inj isCloser, hasText_closer] at noCloser
  contradiction

/-- Both stay beside one another past a mark other than a closing parenthesis. -/
theorem advance_text
    {text : String}
    (beside : gap.Beside false first second fresh)
    (isText : first.peek.hasText text = true)
    (noCloser : text ≠ ")") :
    gap.Beside false first.advance second.advance := by
  apply beside.advance_ne (Token.not_isEnd_of_hasText isText)
  exact Token.hasText_of_text_ne (by rw [Token.text_of_hasText isText]; exact noCloser)

/-- Both stay beside one another past a word. -/
theorem advance_word
    (beside : gap.Beside false first second fresh)
    (isWord : first.peek.isWord = true) :
    gap.Beside false first.advance second.advance :=
  beside.advance_ne (Token.not_isEnd_of_isWord isWord)
    (beside.plain.hasText_word (by decide) isWord)

/-- Both stay beside one another past a token that is no mark. -/
theorem advance_noMark
    (beside : gap.Beside false first second fresh)
    (notEnd : first.peek.isEnd = false)
    (noMark : isMark first.peek.text = false) :
    gap.Beside false first.advance second.advance := by
  apply beside.advance_ne notEnd
  apply Token.hasText_of_text_ne
  intro isText
  rw [isText] at noMark
  exact absurd noMark (by decide)

/-- Taking some tokens from each. -/
theorem passing
    {other : Bool}
    {taken otherTaken : List Token}
    {after otherAfter : Cursor}
    (beside : gap.Beside within first second fresh)
    (passes : first.Passes taken after)
    (otherPasses : second.Passes otherTaken otherAfter)
    (apart : gap.Apart other after otherAfter) :
    gap.Beside other after otherAfter fresh where
  apart := apart
  plain := beside.plain.of_passes passes
  otherPlain := beside.otherPlain.of_passes otherPasses

end Beside

/-! ## Taking runs of tokens -/

/-- No token in front of another ends the input. -/
theorem not_isEnd_of_append
    {front back : List Token}
    (input : EndsOnce (front ++ back))
    (filled : back ≠ [])
    {token : Token}
    (member : token ∈ front) :
    token.isEnd = false := by
  obtain ⟨before, between, rfl⟩ := List.append_of_mem member
  have input : EndsOnce (token :: (between ++ back)) := by
    apply @EndsOnce.of_append before _ (by simpa using input)
    simp
  by_contra isEnd
  have nothing := (input.of_isEnd (by simpa using isEnd)).1
  exact filled (List.append_eq_nil_iff.1 nothing).2

/-- Two tokens of a list are one or the other comes first. -/
theorem append_cons_cases
    {inside rest front back : List Token}
    {last mark : Token}
    (same : inside ++ last :: rest = front ++ mark :: back) :
    (∃ more, front = inside ++ last :: more ∧ rest = more ++ mark :: back) ∨
      (inside = front ∧ last = mark ∧ rest = back) ∨
      (∃ more, inside = front ++ mark :: more ∧ back = more ++ last :: rest) := by
  rcases List.append_eq_append_iff.1 same with ⟨between, isFront, isLast⟩ |
    ⟨between, isInside, isMark⟩
  · cases between with
    | nil =>
        obtain ⟨isLast, isRest⟩ := List.cons.inj isLast
        exact .inr (.inl ⟨by rw [isFront, List.append_nil], isLast, isRest⟩)
    | cons token between =>
        obtain ⟨rfl, isRest⟩ := List.cons.inj isLast
        exact .inl ⟨between, isFront, isRest⟩
  · cases between with
    | nil =>
        obtain ⟨isMark, isBack⟩ := List.cons.inj isMark
        exact .inr (.inl ⟨by rw [isInside, List.append_nil], isMark.symm, isBack.symm⟩)
    | cons token between =>
        obtain ⟨rfl, isBack⟩ := List.cons.inj isMark
        exact .inr (.inr ⟨between, isInside, isBack⟩)

namespace Apart

variable {front : List Token}

/-- The parenthesis is ahead, or the cursors are the same as soon as another token is
taken. -/
theorem ahead_or_passed (apart : gap.Apart false first second) :
    (∃ front, first.rest = front ++ gap.closer :: gap.after ∧
        (gap.documented → gap.Clear first.session front) ∧
        second = { first with rest := front ++ gap.closer :: (gap.tokens ++ gap.after) }) ∨
      (second.rest = first.rest ∧
        ∀ last rest, second.past last rest = first.past last rest) := by
  cases apart with
  | ahead front isRest clear => exact .inl ⟨front, isRest, clear, rfl⟩
  | behind last taken closes => exact .inr ⟨rfl, fun _ _ => rfl⟩
  | past => exact .inr ⟨rfl, fun _ _ => rfl⟩

/-- Before the parenthesis. -/
theorem advanceBy_front
    (isRest : first.rest = front ++ gap.closer :: gap.after)
    (clear : gap.documented → gap.Clear first.session front)
    (noEnd : ∀ token ∈ front, token.isEnd = false)
    {count : Nat}
    (within : count ≤ front.length) :
    gap.Apart false (first.advanceBy count)
      (Cursor.advanceBy { first with rest := front ++ gap.closer :: (gap.tokens ++ gap.after) }
        count) := by
  induction count generalizing first front with
  | zero => exact .ahead front isRest clear
  | succ count hypothesis =>
      cases front with
      | nil => cases within
      | cons token front =>
          have notEnd := noEnd token List.mem_cons_self
          have noEnd := fun other member => noEnd other (List.mem_cons_of_mem token member)
          rw [Cursor.advanceBy, Cursor.advanceBy, Cursor.advance_eq_past isRest notEnd,
            Cursor.advance_eq_past rfl notEnd]
          refine @hypothesis (first.past token _) front rfl (fun documented => ?_) noEnd
            (Nat.le_of_succ_le_succ within)
          exact (@Clear.of_append gap _ [token] front (clear documented)).congr rfl

/-- Through the parenthesis. -/
theorem advanceBy_closer
    (isRest : first.rest = front ++ gap.closer :: gap.after)
    (noEnd : ∀ token ∈ front, token.isEnd = false) :
    gap.Apart true (first.advanceBy (front.length + 1))
      (Cursor.advanceBy { first with rest := front ++ gap.closer :: (gap.tokens ++ gap.after) }
        (front.length + 1)) := by
  rw [Cursor.advanceBy_eq_past isRest noEnd closer_notEnd,
    Cursor.advanceBy_eq_past rfl noEnd closer_notEnd]
  exact .here rfl rfl

/-- Through the attributes alone. -/
theorem advanceBy_attributes
    (isRest : first.rest = gap.after)
    (taken : first.previous = some gap.closer) :
    gap.Apart within first
      (Cursor.advanceBy { first with rest := gap.tokens ++ gap.after } gap.tokens.length) := by
  by_cases filled : gap.run = []
  · have same : { first with rest := gap.tokens ++ gap.after } = first := by
      rw [tokens, filled, ← isRest]
      rfl
    rw [same, tokens, filled]
    exact .past
  · obtain ⟨inside, last, isRun, isMark, closes⟩ := Attribute.runTokens_last filled
    have isTokens : gap.tokens = inside ++ [last] := isRun
    have noEnd : ∀ token ∈ inside, token.isEnd = false := by
      intro token member
      apply Attribute.noEnd_run
      rw [isRun]
      exact List.mem_append_left _ member
    have notEnd : last.isEnd = false := Token.not_isEnd_of_punctuator isMark
    have passed : Cursor.advanceBy { first with rest := gap.tokens ++ gap.after }
        gap.tokens.length = { first.sync last with previous := some last } := by
      have passed := @Cursor.advanceBy_eq_past { first with rest := gap.tokens ++ gap.after }
        inside gap.after last (by simp [isTokens]) noEnd notEnd
      rw [isTokens, List.length_append, ← isTokens]
      exact passed.trans (by rw [← isRest]; rfl)
    rw [passed]
    exact .behind last taken closes

/-- Past a token after the attributes. -/
theorem advanceBy_past
    {more rest : List Token}
    {last : Token}
    (isAfter : gap.after = more ++ last :: rest)
    (isRest : first.rest = front ++ gap.closer :: gap.after)
    (noEnd : ∀ token ∈ front ++ more, token.isEnd = false)
    (notEnd : last.isEnd = false) :
    gap.Apart within (first.advanceBy ((front ++ gap.closer :: more).length + 1))
      (Cursor.advanceBy { first with rest := front ++ gap.closer :: (gap.tokens ++ gap.after) }
        ((front ++ gap.closer :: (gap.tokens ++ more)).length + 1)) := by
  have noEndFirst : ∀ token ∈ front ++ gap.closer :: more, token.isEnd = false := by
    intro token member
    rcases List.mem_append.1 member with early | late
    · exact noEnd token (List.mem_append_left _ early)
    · rcases List.mem_cons.1 late with rfl | late
      · exact closer_notEnd
      · exact noEnd token (List.mem_append_right _ late)
  have noEndSecond : ∀ token ∈ front ++ gap.closer :: (gap.tokens ++ more),
      token.isEnd = false := by
    intro token member
    simp only [List.mem_append, List.mem_cons] at member
    rcases member with early | rfl | inserted | late
    · exact noEnd token (List.mem_append_left _ early)
    · exact closer_notEnd
    · exact Attribute.noEnd_run inserted
    · exact noEnd token (List.mem_append_right _ late)
  have firstRest : first.rest = (front ++ gap.closer :: more) ++ last :: rest := by
    simp [isRest, isAfter]
  have secondRest : front ++ gap.closer :: (gap.tokens ++ gap.after) =
      (front ++ gap.closer :: (gap.tokens ++ more)) ++ last :: rest := by
    simp [isAfter]
  rw [Cursor.advanceBy_eq_past firstRest noEndFirst notEnd,
    Cursor.advanceBy_eq_past secondRest noEndSecond notEnd]
  exact .past

/-- Where the parenthesis and the attributes have been passed. -/
theorem advanceBy_passed
    (apart : gap.Apart within first second)
    (sameRest : second.rest = first.rest)
    (samePast : ∀ last rest, second.past last rest = first.past last rest)
    {taken rest : List Token}
    (isRest : first.rest = taken ++ rest)
    (noEnd : ∀ token ∈ taken, token.isEnd = false) :
    gap.Apart within (first.advanceBy taken.length) (second.advanceBy taken.length) := by
  rcases List.eq_nil_or_concat taken with rfl | ⟨inside, last, rfl⟩
  · exact apart
  · rw [List.concat_eq_append] at isRest noEnd ⊢
    have isRest : first.rest = inside ++ last :: rest := by simpa using isRest
    have insideNoEnd : ∀ token ∈ inside, token.isEnd = false :=
      fun token member => noEnd token (List.mem_append_left _ member)
    have notEnd : last.isEnd = false := noEnd last (by simp)
    rw [List.length_append, List.length_singleton,
      Cursor.advanceBy_eq_past isRest insideNoEnd notEnd,
      Cursor.advanceBy_eq_past (sameRest.trans isRest) insideNoEnd notEnd, samePast]
    exact .past

/-- Past the attributes, and perhaps tokens after them. -/
theorem advanceBy_through
    {more rest : List Token}
    (isAfter : gap.after = more ++ rest)
    (isRest : first.rest = front ++ gap.closer :: gap.after)
    (noEnd : ∀ token ∈ front, token.isEnd = false)
    (noEndMore : ∀ token ∈ more, token.isEnd = false) :
    gap.Apart within (first.advanceBy (front ++ [gap.closer] ++ more).length)
      (Cursor.advanceBy { first with rest := front ++ gap.closer :: (gap.tokens ++ gap.after) }
        ((front ++ [gap.closer] ++ more).length + gap.tokens.length)) := by
  rcases List.eq_nil_or_concat more with rfl | ⟨more, last, rfl⟩
  · rw [List.append_nil, List.length_append, List.length_singleton,
      Cursor.advanceBy_add _ (front.length + 1),
      Cursor.advanceBy_eq_past isRest noEnd closer_notEnd,
      Cursor.advanceBy_eq_past rfl noEnd closer_notEnd]
    exact advanceBy_attributes rfl rfl
  · rw [List.concat_eq_append] at isAfter noEndMore ⊢
    have notEnd : last.isEnd = false := noEndMore last (by simp)
    have passed : gap.Apart within _ _ :=
      advanceBy_past (by simpa using isAfter) isRest
        (fun token member => (List.mem_append.1 member).elim (noEnd token)
          fun late => noEndMore token (List.mem_append_left _ late)) notEnd
    convert passed using 2 <;> simp <;> omega

end Apart

/-! ## Readings in step -/

/-- If a reading of the file without the attributes succeeds, one of the file with them
succeeds too, with as much fuel as is enough; the values are related, and the cursors are
left beside one another. -/
def Follows
    (gap : Gap)
    (within : Bool)
    (related : α → β → Prop)
    (result : EStateM.Result SyntaxError Cursor α)
    (others : Nat → EStateM.Result SyntaxError Cursor β)
    (fresh : Bool := false) : Prop :=
  ∀ value after, result = .ok value after →
    ∃ other otherAfter, (∃ least, ∀ fuel, least ≤ fuel → others fuel = .ok other otherAfter) ∧
      related value other ∧ gap.Beside within after otherAfter fresh

namespace Follows

variable {related : α → β → Prop} {result : EStateM.Result SyntaxError Cursor α}
  {others : Nat → EStateM.Result SyntaxError Cursor β}

theorem done
    {value : α}
    {other : β}
    (beside : gap.Beside within first second fresh)
    (values : related value other) :
    gap.Follows within related (.ok value first) (fun _ => .ok other second) fresh := by
  rintro _ _ ⟨⟩
  exact ⟨other, second, ⟨0, fun _ _ => rfl⟩, values, beside⟩

theorem error {error : SyntaxError} :
    gap.Follows within related (.error error first) others fresh := by
  intro _ _ read
  cases read

theorem fail {expected : String} :
    gap.Follows within related (Grammar.fail expected first) others fresh :=
  .error

/-- A reading that needs no fuel. -/
theorem of_ok
    {otherResult : EStateM.Result SyntaxError Cursor β}
    (succeeds : ∀ value after, result = .ok value after →
      ∃ other otherAfter, otherResult = .ok other otherAfter ∧ related value other ∧
        gap.Beside within after otherAfter fresh) :
    gap.Follows within related result (fun _ => otherResult) fresh := by
  intro value after read
  obtain ⟨other, otherAfter, otherRead, holds⟩ := succeeds value after read
  exact ⟨other, otherAfter, ⟨0, fun _ _ => otherRead⟩, holds⟩

/-- One reading after another, which may depend on where the first has led. -/
theorem bind_read
    {between middle : Bool}
    {next : α → Parse γ}
    {otherNext : Nat → β → Parse δ}
    {further : γ → δ → Prop}
    {reading : Parse α}
    {otherReading : Nat → Parse β}
    (follows : gap.Follows between related (reading first) (fun fuel => otherReading fuel second)
      middle)
    (continues : ∀ value other after otherAfter, reading first = .ok value after →
      related value other → gap.Beside between after otherAfter middle →
      gap.Follows within further (next value after) (fun fuel => otherNext fuel other otherAfter)
        fresh) :
    gap.Follows within further ((reading >>= next) first)
      (fun fuel => (otherReading fuel >>= otherNext fuel) second) fresh := by
  intro value after read
  obtain ⟨middle, middleAfter, readMiddle, readNext⟩ := of_bind_run read
  obtain ⟨other, otherAfter, ⟨least, enough⟩, values, beside⟩ :=
    follows middle middleAfter readMiddle
  obtain ⟨last, lastAfter, ⟨leastNext, enoughNext⟩, valuesNext, besideNext⟩ :=
    continues middle other middleAfter otherAfter readMiddle values beside value after readNext
  refine ⟨last, lastAfter, ⟨max least leastNext, fun fuel more => ?_⟩, valuesNext, besideNext⟩
  dsimp only
  rw [bind_run_ok (enough fuel ((Nat.le_max_left _ _).trans more))]
  exact enoughNext fuel ((Nat.le_max_right _ _).trans more)

/-- One reading after another. -/
theorem bind
    {between middle : Bool}
    {next : α → Parse γ}
    {otherNext : Nat → β → Parse δ}
    {further : γ → δ → Prop}
    {reading : Parse α}
    {otherReading : Nat → Parse β}
    (follows : gap.Follows between related (reading first) (fun fuel => otherReading fuel second)
      middle)
    (continues : ∀ value other after otherAfter, related value other →
      gap.Beside between after otherAfter middle →
      gap.Follows within further (next value after) (fun fuel => otherNext fuel other otherAfter)
        fresh) :
    gap.Follows within further ((reading >>= next) first)
      (fun fuel => (otherReading fuel >>= otherNext fuel) second) fresh :=
  .bind_read follows fun value other after otherAfter _ => continues value other after otherAfter

theorem refresh (follows : gap.Follows within related result others) :
    gap.Follows within related result others fresh := by
  intro value after read
  obtain ⟨other, otherAfter, enough, values, beside⟩ := follows value after read
  exact ⟨other, otherAfter, enough, values, beside.refresh⟩

/-- More fuel than some is enough as well. -/
theorem more
    (count : Nat)
    (follows : gap.Follows within related result (fun fuel => others (fuel + count)) fresh) :
    gap.Follows within related result others fresh := by
  intro value after read
  obtain ⟨other, otherAfter, ⟨least, enough⟩, holds⟩ := follows value after read
  refine ⟨other, otherAfter, ⟨least + count, fun fuel more => ?_⟩, holds⟩
  obtain ⟨spare, rfl⟩ := Nat.exists_eq_add_of_le' more
  rw [← Nat.add_assoc]
  exact enough (spare + least) (Nat.le_add_left least spare)

/-- A loop that is given as many steps as the tokens that are left call for. -/
theorem fuelled
    {loop : Nat → Parse β}
    {steps : Nat}
    (follows : gap.Follows within related result (fun fuel => loop fuel second) fresh)
    (refines : ∀ {fewer more : Nat}, fewer ≤ more → Refines (loop fewer) (loop more))
    (finishes : Finishes (loop steps second)) :
    gap.Follows within related result (fun _ => loop steps second) fresh := by
  intro value after read
  obtain ⟨other, otherAfter, ⟨least, enough⟩, holds⟩ := follows value after read
  refine ⟨other, otherAfter, ⟨0, fun _ _ => ?_⟩, holds⟩
  rw [← refines (Nat.le_max_right least steps) second finishes]
  exact enough _ (Nat.le_max_left _ _)

/-- What follows a token that may be there, and is no closing parenthesis. -/
theorem accept_bind
    {middle : Bool}
    {text : String}
    {next : Option Token → Parse α}
    {otherNext : Nat → Option Token → Parse β}
    (beside : gap.Beside false first second middle)
    (noCloser : text ≠ ")")
    (present : first.peek.hasText text = true →
      gap.Beside false first.advance second.advance →
      gap.Follows within related (next (some first.peek) first.advance)
        (fun fuel => otherNext fuel (some first.peek) second.advance) fresh)
    (absent : gap.Follows within related (next none first)
      (fun fuel => otherNext fuel none second) fresh) :
    gap.Follows within related ((accept text >>= next) first)
      (fun fuel => (accept text >>= otherNext fuel) second) fresh := by
  simp only [accept_bind_run, beside.peek]
  split
  · rename_i isText
    exact present isText (beside.advance_text isText noCloser)
  · exact absent

/-- What follows a token that has to be there, and is no closing parenthesis. -/
theorem expect_bind
    {middle : Bool}
    {text : String}
    {next : Token → Parse α}
    {otherNext : Nat → Token → Parse β}
    (beside : gap.Beside false first second middle)
    (noCloser : text ≠ ")")
    (present : first.peek.hasText text = true →
      gap.Beside false first.advance second.advance →
      gap.Follows within related (next first.peek first.advance)
        (fun fuel => otherNext fuel first.peek second.advance) fresh) :
    gap.Follows within related ((expect text >>= next) first)
      (fun fuel => (expect text >>= otherNext fuel) second) fresh := by
  unfold expect
  simp only [bind_assoc]
  refine .accept_bind beside noCloser (fun isText taken => ?_) .fail
  exact present isText taken

end Follows

/-! ## Skipping -/

/-- A run through a closing bracket is as long as the tokens before the bracket that opens
as many as it closes. -/
theorem closingRun_through
    {inside : List Token}
    {last : Token}
    (closed : openAfter 0 inside = some 0)
    (noEnd : ∀ token ∈ inside, token.isEnd = false)
    (closes : last.kind = .punctuator ∧ isCloser last.text = true)
    (rest : List Token) :
    closingRun last.text 0 (inside ++ last :: rest) = (inside.length + 1, true) := by
  have notEnd : last.isEnd = false := Token.not_isEnd_of_punctuator closes.1
  have through : closingRun last.text 0 (last :: rest) = (1, true) := by
    simp [closingRun, notEnd, closes, not_isOpener_of_isCloser closes.2]
  rw [closingRun_append last.text closed noEnd, through, Nat.add_comm]

/-- A search that succeeds has passed a balanced run and its closing bracket. -/
theorem skipUntilClose_ok
    {close : String}
    {cursor after : Cursor}
    (read : skipUntilClose close cursor = .ok () after) :
    ∃ inside last rest, cursor.rest = inside ++ last :: rest ∧ openAfter 0 inside = some 0 ∧
      (∀ token ∈ inside, token.isEnd = false) ∧
      last.kind = .punctuator ∧ isCloser last.text = true ∧ last.text = close ∧
      after = cursor.advanceBy (inside.length + 1) := by
  unfold skipUntilClose at read
  rw [get_bind_run] at read
  dsimp only at read
  rw [skip_bind_run] at read
  split at read
  · rename_i closed
    obtain ⟨inside, last, rest, isRest, isLength, insideClosed, isMark, closes, isClose, noEnd⟩ :=
      of_closingRun closed
    rw [isLength] at read
    cases read
    exact ⟨inside, last, rest, isRest, insideClosed,
      fun token member => noEnd token (List.mem_append_left _ member), isMark, closes, isClose, rfl⟩
  · cases read

/-- A balanced run and its closing bracket are passed. -/
theorem skipUntilClose_run
    {cursor : Cursor}
    {inside rest : List Token}
    {last : Token}
    (isRest : cursor.rest = inside ++ last :: rest)
    (closed : openAfter 0 inside = some 0)
    (noEnd : ∀ token ∈ inside, token.isEnd = false)
    (closes : last.kind = .punctuator ∧ isCloser last.text = true) :
    skipUntilClose last.text cursor = .ok () (cursor.advanceBy (inside.length + 1)) := by
  have run := closingRun_through closed noEnd closes rest
  unfold skipUntilClose
  rw [get_bind_run, isRest, run]
  rfl

/-- Whether attributes are put in, as many brackets are open. -/
theorem openAfter_inserted (front more : List Token) (depth : Nat) :
    openAfter depth (front ++ gap.closer :: (gap.tokens ++ more)) =
      openAfter depth (front ++ gap.closer :: more) := by
  have inserted (depth : Nat) : openAfter depth (gap.tokens ++ more) = openAfter depth more := by
    rw [openAfter_append, tokens, openAfter_run]
    rfl
  rw [openAfter_append, openAfter_append]
  congr 1
  funext depth
  simp only [openAfter, inserted]

/-- Attributes may stand in what is skipped or right after it. -/
theorem skipUntilClose_within
    (close : String)
    (beside : gap.Beside false first second) :
    gap.Follows true (fun _ _ => True) (skipUntilClose close first)
      fun _ => skipUntilClose close second := by
  refine .of_ok ?_
  rintro ⟨⟩ after read
  obtain ⟨inside, last, rest, isRest, closed, noEnd, isMark, closes, rfl, rfl⟩ :=
    skipUntilClose_ok read
  have notEnd : last.isEnd = false := Token.not_isEnd_of_punctuator isMark
  -- a run through the same bracket in the other file
  have through {otherInside otherRest : List Token}
      (isOther : second.rest = otherInside ++ last :: otherRest)
      (otherClosed : openAfter 0 otherInside = some 0)
      (apart : gap.Apart true (first.advanceBy (inside.length + 1))
        (second.advanceBy (otherInside.length + 1))) :
      ∃ other otherAfter, skipUntilClose last.text second = .ok other otherAfter ∧ True ∧
        gap.Beside true (first.advanceBy (inside.length + 1)) otherAfter := by
    have otherNoEnd : ∀ token ∈ otherInside, token.isEnd = false := fun token =>
      not_isEnd_of_append (isOther ▸ beside.otherPlain.tidy.input) (by simp)
    have run := skipUntilClose_run isOther otherClosed otherNoEnd ⟨isMark, closes⟩
    have passes := Cursor.Passes.advanceBy (inside ++ [last]) (by simpa using isRest)
      (by simpa [or_imp, forall_and] using ⟨noEnd, notEnd⟩)
    have otherPasses := Cursor.Passes.advanceBy (otherInside ++ [last]) (by simpa using isOther)
      (by simpa [or_imp, forall_and] using ⟨otherNoEnd, notEnd⟩)
    rw [List.length_append] at passes otherPasses
    exact ⟨(), _, run, trivial, beside.passing passes otherPasses apart⟩
  rcases beside.apart.ahead_or_passed with ⟨front, isFront, clear, rfl⟩ | ⟨sameRest, samePast⟩
  · have frontNoEnd : ∀ token ∈ front, token.isEnd = false := fun token =>
      not_isEnd_of_append (isFront ▸ beside.plain.tidy.input) (by simp)
    rcases append_cons_cases (isRest.symm.trans isFront) with
      ⟨more, isInside, -⟩ | ⟨rfl, rfl, -⟩ | ⟨more, rfl, isAfter⟩
    · have isOther : front ++ gap.closer :: (gap.tokens ++ gap.after) =
          inside ++ last :: (more ++ gap.closer :: (gap.tokens ++ gap.after)) := by
        simp [isInside]
      apply through isOther closed
      exact (Apart.advanceBy_front isFront clear frontNoEnd (by simp [isInside])).weaken
    · exact through rfl closed (.advanceBy_closer isFront noEnd)
    · have isOther : front ++ gap.closer :: (gap.tokens ++ gap.after) =
          (front ++ gap.closer :: (gap.tokens ++ more)) ++ last :: rest := by
        simp [isAfter]
      apply through isOther ((openAfter_inserted front more 0).trans closed)
      apply Apart.advanceBy_past isAfter isFront _ notEnd
      intro token member
      apply noEnd
      simp only [List.mem_append, List.mem_cons] at member ⊢
      tauto
  · apply through (by rw [sameRest, isRest]) closed
    have isRest : first.rest = (inside ++ [last]) ++ rest := by simpa using isRest
    have passed := beside.apart.advanceBy_passed sameRest samePast isRest
      (by simpa [or_imp, forall_and] using ⟨noEnd, notEnd⟩)
    rw [List.length_append] at passed
    exact passed.weaken

/-- After another bracket than a closing parenthesis no attributes are put in. -/
theorem skipUntilClose_follows
    {close : String}
    (wide : close = ")" → within = true)
    (beside : gap.Beside false first second) :
    gap.Follows within (fun _ _ => True) (skipUntilClose close first)
      fun _ => skipUntilClose close second := by
  intro value after read
  obtain ⟨other, otherAfter, enough, values, further⟩ :=
    skipUntilClose_within close beside value after read
  refine ⟨other, otherAfter, enough, values, ?_⟩
  cases within with
  | true => exact further
  | false =>
      apply further.narrow
      obtain ⟨inside, last, rest, isRest, -, noEnd, isMark, -, isClose, rfl⟩ :=
        skipUntilClose_ok read
      have notEnd : last.isEnd = false := Token.not_isEnd_of_punctuator isMark
      rw [Cursor.advanceBy_eq_past isRest noEnd notEnd]
      intro isCloser
      rw [Option.some.inj isCloser, gap.closes.2] at isClose
      exact Bool.false_ne_true (wide isClose.symm)

/-- A bracketed run is skipped alike with the attributes and without. -/
theorem skipBalanced_follows
    {opener close : String}
    (noCloser : opener ≠ ")")
    (wide : close = ")" → within = true)
    (beside : gap.Beside false first second) :
    gap.Follows within (fun _ _ => True) (skipBalanced opener close first)
      fun _ => skipBalanced opener close second := by
  unfold skipBalanced
  simp only [discard_bind_run]
  exact .expect_bind beside noCloser fun _ taken => skipUntilClose_follows wide taken

/-- A group is skipped alike with the attributes and without. -/
theorem skipGroup_follows
    {opener close : String}
    (noCloser : opener ≠ ")")
    (wide : close = ")" → within = true)
    (beside : gap.Beside false first second) :
    gap.Follows within (fun _ _ => True) (skipGroup opener close first)
      fun _ => skipGroup opener close second := by
  unfold skipGroup
  simp only [sees_bind_run, beside.peek]
  split
  · exact skipBalanced_follows noCloser wide beside
  · exact .done beside.weaken trivial

/-- An expression that goes on past the parenthesis goes on over the attributes. -/
theorem expressionRun_inserted
    {stops : List String}
    (noStop : ∀ text ∈ stops, isOpener text = false ∧ attributes.contains text = false)
    (noCloser : ")" ∉ stops)
    {depth : Nat}
    {front : List Token}
    (stopped : (expressionRun stops depth (front ++ gap.closer :: gap.after)).2 = .stop) :
    ((expressionRun stops depth (front ++ gap.closer :: gap.after)).1 ≤ front.length ∧
      expressionRun stops depth (front ++ gap.closer :: (gap.tokens ++ gap.after)) =
        expressionRun stops depth (front ++ gap.closer :: gap.after)) ∨
    (front.length < (expressionRun stops depth (front ++ gap.closer :: gap.after)).1 ∧
      expressionRun stops depth (front ++ gap.closer :: (gap.tokens ++ gap.after)) =
        ((expressionRun stops depth (front ++ gap.closer :: gap.after)).1 + gap.tokens.length,
          .stop)) := by
  induction front generalizing depth with
  | nil =>
      have closes (rest : List Token) : expressionRun stops depth (gap.closer :: rest) =
          if depth == 0 then (0, .unbalanced)
          else ((expressionRun stops (depth - 1) rest).1 + 1,
            (expressionRun stops (depth - 1) rest).2) := by
        simp [expressionRun, closer_notEnd, gap.closes, noCloser, isOpener, isCloser]
      rw [List.nil_append, closes] at stopped ⊢
      rw [List.nil_append, closes]
      split at stopped
      · cases stopped
      · rename_i inside
        rw [if_neg inside] at *
        rw [if_neg inside, tokens, expressionRun_attributes noStop]
        refine .inr ⟨Nat.succ_pos _, ?_⟩
        rw [stopped, Nat.add_right_comm]
  | cons token front hypothesis =>
      simp only [List.cons_append, expressionRun, List.length_cons] at stopped ⊢
      split_ifs at stopped ⊢ with ended stop opens closes bottom
      · exact .inl ⟨Nat.zero_le _, rfl⟩
      all_goals
        rcases hypothesis stopped with ⟨before, same⟩ | ⟨behind, longer⟩
        · rw [same]
          exact .inl ⟨Nat.succ_le_succ before, rfl⟩
        · rw [longer, Nat.add_right_comm]
          exact .inr ⟨Nat.succ_lt_succ behind, rfl⟩

/-- An expression is passed up to what stops it. -/
theorem skipExpression_run
    {stops : List String}
    {cursor : Cursor}
    {length : Nat}
    (run : expressionRun stops 0 cursor.rest = (length, .stop)) :
    skipExpression stops cursor = .ok () (cursor.advanceBy length) := by
  unfold skipExpression
  rw [get_bind_run, run]
  rfl

/-- An expression that is skipped ends where something stops it. -/
theorem expressionRun_of_skipExpression
    {stops : List String}
    {cursor after : Cursor}
    (read : skipExpression stops cursor = .ok () after) :
    (expressionRun stops 0 cursor.rest).2 = .stop := by
  unfold skipExpression at read
  rw [get_bind_run] at read
  dsimp only at read
  rw [skip_bind_run] at read
  cases ending : (expressionRun stops 0 cursor.rest).2 with
  | stop => rfl
  | unbalanced =>
      rw [ending] at read
      cases read
  | endOfFile =>
      rw [ending] at read
      cases read

/-- Attributes may stand in an expression or right after it. -/
theorem skipExpression_follows
    {stops : List String}
    (noStop : ∀ text ∈ stops, isOpener text = false ∧ attributes.contains text = false)
    (noCloser : ")" ∉ stops)
    (stopsAtComma : stops.contains "," = true)
    (beside : gap.Beside false first second) :
    gap.Follows false (fun _ _ => True) (skipExpression stops first)
      fun _ => skipExpression stops second := by
  refine .of_ok ?_
  rintro ⟨⟩ after read
  have stopped := expressionRun_of_skipExpression read
  obtain ⟨taken, rest, isRest, isLength, -, -, noEnd⟩ :=
    of_expressionRun stopped stopsAtComma beside.plain.tidy.marked
  rw [skipExpression_run (Prod.ext isLength stopped)] at read
  cases read
  -- an expression of the other file, of the same tokens and perhaps the attributes
  have through {otherTaken otherRest : List Token}
      (isOther : second.rest = otherTaken ++ otherRest)
      (run : expressionRun stops 0 second.rest = (otherTaken.length, .stop))
      (otherNoEnd : ∀ token ∈ otherTaken, token ∈ taken ∨ token ∈ gap.tokens)
      (apart : gap.Apart false (first.advanceBy taken.length)
        (second.advanceBy otherTaken.length)) :
      ∃ other otherAfter, skipExpression stops second = .ok other otherAfter ∧ True ∧
        gap.Beside false (first.advanceBy taken.length) otherAfter := by
    have otherPasses := Cursor.Passes.advanceBy otherTaken isOther fun token member =>
      (otherNoEnd token member).elim (noEnd token) Attribute.noEnd_run
    exact ⟨(), _, skipExpression_run run, trivial,
      beside.passing (.advanceBy taken isRest noEnd) otherPasses apart⟩
  rcases beside.apart.ahead_or_passed with ⟨front, isFront, clear, rfl⟩ | ⟨sameRest, samePast⟩
  · have frontNoEnd : ∀ token ∈ front, token.isEnd = false := fun token =>
      not_isEnd_of_append (isFront ▸ beside.plain.tidy.input) (by simp)
    rw [isFront] at stopped isLength isRest
    have inserted := expressionRun_inserted noStop noCloser stopped
    rw [isLength] at inserted
    have whole : front ++ gap.closer :: gap.after = taken ++ rest := isRest
    rcases inserted with ⟨before, same⟩ | ⟨behind, longer⟩
    · obtain ⟨more, rfl⟩ : taken <+: front :=
        List.prefix_of_prefix_length_le (List.prefix_append taken rest)
          (whole ▸ List.prefix_append front _) before
      refine through (List.append_assoc taken more _) ?_ (fun _ => .inl)
        (.advanceBy_front isFront clear frontNoEnd before)
      exact same.trans (Prod.ext isLength stopped)
    · obtain ⟨more, rfl⟩ : front ++ [gap.closer] <+: taken :=
        List.prefix_of_prefix_length_le (whole ▸ ⟨gap.after, by simp⟩)
          (List.prefix_append taken rest)
          (by rw [List.length_append]; exact behind)
      have isAfter : gap.after = more ++ rest := by simpa using whole
      have isOther : front ++ gap.closer :: (gap.tokens ++ gap.after) =
          (front ++ gap.closer :: (gap.tokens ++ more)) ++ rest := by
        simp [isAfter]
      have length : (front ++ gap.closer :: (gap.tokens ++ more)).length =
          (front ++ [gap.closer] ++ more).length + gap.tokens.length := by
        simp only [List.length_append, List.length_cons, List.length_nil]
        omega
      refine through isOther (by rw [longer, length]) ?_ ?_
      · intro token member
        simp only [List.mem_append, List.mem_cons, List.not_mem_nil, or_false] at member ⊢
        tauto
      · rw [length]
        exact .advanceBy_through isAfter isFront frontNoEnd
          fun token member => noEnd token (by simp [member])
  · refine through (sameRest.trans isRest) ?_ (fun _ => .inl)
      (beside.apart.advanceBy_passed sameRest samePast isRest noEnd)
    rw [sameRest]
    exact Prod.ext isLength stopped

/-- A value is skipped alike with the attributes and without. -/
theorem skipValue_follows
    {stops : List String}
    (noStop : ∀ text ∈ stops, isOpener text = false ∧ attributes.contains text = false)
    (noCloser : ")" ∉ stops)
    (stopsAtComma : stops.contains "," = true)
    (beside : gap.Beside false first second) :
    gap.Follows false (fun _ _ => True) (skipValue stops first)
      fun _ => skipValue stops second := by
  unfold skipValue
  refine .accept_bind beside (by decide) (fun _ taken => ?_) (.done beside trivial)
  exact skipExpression_follows noStop noCloser stopsAtComma taken

/-- The attributes that are put in may be passed at once. -/
theorem Beside.pass (beside : gap.Beside within first second fresh) :
    gap.Beside false first second fresh ∨
      (second.rest = gap.tokens ++ gap.after ∧
        gap.Beside false first (second.advanceBy gap.tokens.length) fresh) := by
  have same := beside.apart
  cases same with
  | ahead front isRest clear => exact .inl { beside with apart := .ahead front isRest clear }
  | here isRest taken =>
      exact .inr ⟨rfl, beside.passing (.refl first)
        (.advanceBy gap.tokens rfl fun _ => Attribute.noEnd_run)
        (.advanceBy_attributes isRest taken)⟩
  | behind last taken closes =>
      exact .inl { beside with apart := .behind last taken closes }
  | past => exact .inl { beside with apart := .past }

/-- Attributes are skipped alike, those of the gap with more fuel. -/
theorem skipAttributesUpTo_follows
    (count : Nat)
    (beside : gap.Beside within first second fresh) :
    gap.Follows false (fun _ _ => True) (skipAttributesUpTo count first)
      (fun fuel => skipAttributesUpTo fuel second) fresh := by
  induction count generalizing within fresh first second with
  | zero => exact .error
  | succ count hypothesis =>
      have closed {second : Cursor} (beside : gap.Beside false first second fresh) :
          gap.Follows false (fun _ _ => True) (skipAttributesUpTo (count + 1) first)
            (fun fuel => skipAttributesUpTo fuel second) fresh := by
        apply Follows.more 1
        simp only [skipAttributesUpTo, peek_bind_run, beside.peek]
        split
        · rename_i isAttribute
          have taken := beside.advance_noMark
            (peek_not_end_of_attribute beside.plain.tidy.input isAttribute)
            (attribute_noMark isAttribute)
          simp only [discard_bind_run, take_bind_run]
          refine .bind (skipGroup_follows (by decide) (fun _ => rfl) taken) ?_
          intro _ _ after otherAfter _ beside
          exact (hypothesis beside).refresh
        · exact .done beside trivial
      rcases beside.pass with beside | ⟨isRest, passed⟩
      · exact closed beside
      · apply Follows.more gap.run.length
        simp only [skipAttributesUpTo_run _ isRest]
        exact closed passed

/-- Attributes are skipped with those that are put in. -/
theorem skipAttributes_follows (beside : gap.Beside within first second fresh) :
    gap.Follows false (fun _ _ => True) (skipAttributes first) (fun _ => skipAttributes second)
      fresh := by
  unfold skipAttributes
  simp only [get_bind_run]
  exact .fuelled (skipAttributesUpTo_follows _ beside) skipAttributesUpTo_refines
    (skipAttributesUpTo_lands beside.otherPlain.tidy.input (Nat.le_refl _)).finishes

end Gap
end Grammar
end DeclManual
