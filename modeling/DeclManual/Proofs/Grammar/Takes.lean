import DeclManual.Proofs.Grammar.Bodies
import DeclManual.Proofs.Grammar.DeclaratorInPlace

/-!
# What a reading takes

A reading that succeeds has taken a run of tokens off the front of the input.  What is
taken for specifiers, for a declarator or for a parameter is whole: its brackets are
closed, and its commas stand inside them.  So the commas outside all brackets are those
that divide the items of a list.
-/

namespace DeclManual

/-- Whether a text is a bracket or a comma. -/
def Grammar.isMark (text : String) : Bool :=
  Grammar.isOpener text || Grammar.isCloser text || text == ","

/-- Brackets and commas are punctuators. -/
def Source.Token.Marked (token : Token) : Prop :=
  Grammar.isMark token.text = true → token.kind = .punctuator

instance (token : Source.Token) : Decidable token.Marked :=
  inferInstanceAs (Decidable (_ → _))

namespace Grammar

open Decl
open Source (Token)

variable {α β : Type} {cursor after : Cursor}

/-- Tokens that end once and whose brackets and commas are punctuators, as those of every
source. -/
structure Tidy (tokens : List Token) : Prop where
  input : EndsOnce tokens
  marked : ∀ token ∈ tokens, token.Marked

/-! The tokens of a source are tidy. -/

/-- A bracket or a comma is a single character. -/
theorem head_of_isMark
    {c : Char}
    {tail : List Char}
    (mark : isMark (String.ofList (c :: tail)) = true) :
    c ∈ ['(', '[', '\x7b', ')', ']', '\x7d', ','] := by
  simp only [isMark, isOpener, isCloser, Bool.or_eq_true, beq_iff_eq, String.ext_iff,
    String.toList_ofList] at mark
  rcases mark with (((text | text) | text) | ((text | text) | text)) | text <;>
  · obtain ⟨rfl, -⟩ := List.cons.inj (text.trans (by rfl : _ = [_]))
    decide

/-- A lexeme that becomes a bracket or a comma becomes a punctuator. -/
def MarkedLexeme (lexeme : Source.Lexeme) : Prop :=
  ∀ kind, lexeme.kind = .token kind → isMark (String.ofList lexeme.text) = true →
    kind = .punctuator

/-- A lexeme that is a bracket is a punctuator. -/
theorem lexemeAt_marked
    (blankLine : Bool)
    (c : Char)
    (rest : List Char) :
    MarkedLexeme (Source.lexemeAt blankLine c rest) := by
  have lexes := Source.lexesAs_lexemeAt blankLine c rest
  generalize Source.lexemeAt blankLine c rest = lexeme at lexes ⊢
  cases lexes with
  | word start starts taken =>
      intro _ _ mark
      have noStart : ['(', '[', '\x7b', ')', ']', '\x7d', ','].all
          (fun c => !Source.startsWord c) = true := by decide
      simpa [starts] using List.all_eq_true.1 noStart c (head_of_isMark mark)
  | number start notWord starts taken =>
      intro _ _ mark
      have noDigit : ['(', '[', '\x7b', ')', ']', '\x7d', ','].all
          (fun c => !c.isDigit && c != '.') = true := by decide
      have atMark := List.all_eq_true.1 noDigit c (head_of_isMark mark)
      simp only [Bool.and_eq_true, Bool.not_eq_true', bne_iff_ne] at atMark
      simp [atMark.1, atMark.2] at starts
  | literal start quote closed =>
      intro _ _ mark
      have head := head_of_isMark mark
      rcases quote with rfl | rfl <;> simp at head
  | punctuator =>
      rintro _ ⟨⟩ _
      rfl
  | _ => rintro _ ⟨⟩

/-- The tokens of every text are tidy. -/
theorem tidy_of_tokenize
    {source : String}
    {baseFile : Option String}
    {lexed : Source.Lexed}
    (read : Source.tokenize source baseFile = .ok lexed) :
    Tidy lexed.tokens := by
  refine ⟨endsOnce_of_tokenize read, ?_⟩
  obtain ⟨tokens, last, whole, ended, -, shapes⟩ := Source.tokenize_shapes read
  rw [whole]
  intro token member mark
  rcases List.mem_append.1 member with inBody | isLast
  · have shaped := List.mem_map_of_mem (f := Token.shape) inBody
    rw [shapes] at shaped
    obtain ⟨lexeme, inLexemes, becomes⟩ := List.mem_filterMap.1 shaped
    obtain ⟨blankLine, c, rest, rfl⟩ := Source.mem_lexemesFrom inLexemes
    have marked := lexemeAt_marked blankLine c rest
    unfold Source.Lexeme.shape? at becomes
    split at becomes
    · rename_i kind isKind
      obtain ⟨sameKind, sameText⟩ := Prod.mk.inj (Option.some.inj becomes)
      rw [← sameKind]
      exact marked kind isKind (by rw [sameText]; exact mark)
    · cases becomes
  · obtain rfl := List.mem_singleton.1 isLast
    rw [(Prod.mk.inj ended).2] at mark
    exact absurd mark (by decide)

/-! ## Whole runs -/

theorem openAfter_append
    (depth : Nat)
    (front back : List Token) :
    openAfter depth (front ++ back) = (openAfter depth front).bind (openAfter · back) := by
  induction front generalizing depth with
  | nil => rfl
  | cons token front hypothesis =>
      simp only [List.cons_append, openAfter]
      split_ifs with opens closes
      · exact hypothesis _
      · cases depth with
        | zero => rfl
        | succ depth => exact hypothesis _
      · exact hypothesis _

/-- Inside a further bracket as many are open, and that one. -/
theorem openAfter_succ
    {depth left : Nat}
    {tokens : List Token}
    (opened : openAfter depth tokens = some left) :
    openAfter (depth + 1) tokens = some (left + 1) := by
  induction tokens generalizing depth with
  | nil =>
      cases opened
      rfl
  | cons token tokens hypothesis =>
      simp only [openAfter] at opened ⊢
      split_ifs at opened ⊢ with opens closes
      · exact hypothesis opened
      · cases depth with
        | zero => cases opened
        | succ depth => exact hypothesis opened
      · exact hypothesis opened

theorem BracketsClosed.append
    {front back : List Token}
    (first : BracketsClosed front)
    (second : BracketsClosed back) :
    BracketsClosed (front ++ back) := by
  unfold BracketsClosed at *
  rw [openAfter_append, first]
  exact second

/-- What closes does not open. -/
theorem not_isOpener_of_isCloser
    {text : String}
    (closes : isCloser text = true) :
    isOpener text = false := by
  simp only [isCloser, Bool.or_eq_true, beq_iff_eq] at closes
  rcases closes with (rfl | rfl) | rfl <;> decide

/-- Tokens through the bracket that closes one already taken. -/
def Closing (tokens : List Token) : Prop :=
  ∃ inside closer, tokens = inside ++ [closer] ∧ BracketsClosed inside ∧
    closer.kind = .punctuator ∧ isCloser closer.text = true

theorem Closing.prepend
    {front back : List Token}
    (closing : Closing back)
    (closed : BracketsClosed front) :
    Closing (front ++ back) := by
  obtain ⟨inside, closer, rfl, insideClosed, isMark, closes⟩ := closing
  exact ⟨front ++ inside, closer, by simp, closed.append insideClosed, isMark, closes⟩

/-- Tokens in which every bracket is closed and every comma stands inside brackets. -/
structure Whole (tokens : List Token) : Prop where
  closed : BracketsClosed tokens
  noComma : ∀ front token back, tokens = front ++ token :: back → token.text = "," →
    openAfter 0 front ≠ some 0

namespace Whole

theorem nil : Whole [] where
  closed := rfl
  noComma front token back empty := by simp at empty

theorem append
    {front back : List Token}
    (first : Whole front)
    (second : Whole back) :
    Whole (front ++ back) where
  closed := first.closed.append second.closed
  noComma before token behind isWhole isComma := by
    rcases List.append_eq_append_iff.1 isWhole with
      ⟨between, rfl, isBack⟩ | ⟨between, isFront, isRest⟩
    · have isClosed : openAfter 0 front = some 0 := first.closed
      rw [openAfter_append, isClosed]
      exact second.noComma between token behind isBack isComma
    · cases between with
      | nil =>
          rw [List.append_nil] at isFront
          rw [List.nil_append] at isRest
          have isClosed : openAfter 0 front = some 0 := first.closed
          have here := second.noComma [] token behind isRest.symm isComma
          exact absurd rfl here
      | cons head between =>
          obtain ⟨rfl, -⟩ := List.cons.inj isRest
          exact first.noComma before _ between isFront isComma

/-- A token that is neither a bracket nor a comma. -/
theorem single
    {token : Token}
    (noOpener : isOpener token.text = false)
    (noCloser : isCloser token.text = false)
    (noComma : token.text ≠ ",") :
    Whole [token] where
  closed := by simp [BracketsClosed, openAfter, noOpener, noCloser]
  noComma front other back isWhole isComma := by
    obtain ⟨rfl, rfl, -⟩ : front = [] ∧ token = other ∧ back = [] := by
      cases front with
      | nil => simpa [eq_comm] using isWhole
      | cons head front => simp at isWhole
    exact absurd isComma noComma

/-- Closed tokens in brackets. -/
theorem bracketed
    {opener : Token}
    {taken : List Token}
    (opens : opener.kind = .punctuator ∧ isOpener opener.text = true)
    (closing : Closing taken) :
    Whole (opener :: taken) := by
  obtain ⟨inside, closer, rfl, closed, isMark, isCloser⟩ := closing
  have inner (front : List Token) : openAfter 0 (opener :: front) = openAfter 1 front := by
    simp [openAfter, opens]
  refine ⟨?_, ?_⟩
  · unfold BracketsClosed
    rw [inner, openAfter_append, openAfter_succ closed]
    simp [openAfter, isMark, isCloser, not_isOpener_of_isCloser isCloser]
  · intro front token back isWhole isComma
    cases front with
    | nil =>
        obtain ⟨rfl, -⟩ := List.cons.inj isWhole
        simp [isComma, isOpener] at opens
    | cons head front =>
        rw [List.cons_append] at isWhole
        obtain ⟨rfl, isRest⟩ := List.cons.inj isWhole
        rw [inner]
        -- the comma is not the closing bracket, so it stands in what is closed
        obtain ⟨rest, rfl⟩ : ∃ rest, inside = front ++ token :: rest := by
          rcases List.eq_nil_or_concat back with rfl | ⟨rest, last, rfl⟩
          · have isLast := congrArg List.getLast? isRest
            simp only [List.getLast?_append_cons, List.getLast?_singleton,
              Option.some.injEq] at isLast
            rw [isLast, isComma] at isCloser
            exact absurd isCloser (by decide)
          · have isRest : inside ++ [closer] = (front ++ token :: rest) ++ [last] := by
              rw [isRest, List.append_assoc, List.cons_append, List.concat_eq_append]
            exact ⟨rest, (List.append_inj' isRest rfl).1⟩
        unfold BracketsClosed at closed
        rw [openAfter_append] at closed
        obtain ⟨left, opened, -⟩ := Option.bind_eq_some_iff.1 closed
        rw [openAfter_succ opened]
        simp

/-- The last token of a whole run is no comma. -/
theorem getLast_ne_comma
    {tokens : List Token}
    (whole : Whole tokens)
    {last : Token}
    (isLast : tokens.getLast? = some last) :
    last.text ≠ "," := by
  intro isComma
  obtain ⟨front, rfl⟩ := List.getLast?_eq_some_iff.1 isLast
  have closed := whole.closed
  have inside := whole.noComma front last [] rfl isComma
  unfold BracketsClosed at closed
  rw [openAfter_append] at closed
  obtain ⟨left, opened, closes⟩ := Option.bind_eq_some_iff.1 closed
  rw [opened] at inside
  simp [openAfter, isComma, isOpener, isCloser] at closes
  simp [closes] at inside

/-- A word is neither a bracket nor a comma. -/
theorem of_isWord
    {token : Token}
    (marked : token.Marked)
    (isWord : token.isWord = true) :
    Whole [token] := by
  have noMark : ¬ isMark token.text = true := by
    intro isMark
    have kind := marked isMark
    simp [Token.isWord, kind] at isWord
  simp only [isMark, Bool.or_eq_true, beq_iff_eq, not_or, Bool.not_eq_true] at noMark
  exact single noMark.1.1 noMark.1.2 noMark.2

end Whole

/-! ## Runs that are skipped -/

/-- Tokens start with a run of a length through a bracket that closes `depth` open ones
and then one already taken. -/
def RunsThrough
    (close : String)
    (depth : Nat)
    (tokens : List Token)
    (length : Nat) : Prop :=
  ∃ inside closer rest, tokens = inside ++ closer :: rest ∧ length = inside.length + 1 ∧
    openAfter depth inside = some 0 ∧ closer.kind = .punctuator ∧
    isCloser closer.text = true ∧ closer.text = close ∧
    ∀ token ∈ inside ++ [closer], token.isEnd = false

theorem RunsThrough.cons
    {close : String}
    {depth next length : Nat}
    {token : Token}
    {tokens : List Token}
    (through : RunsThrough close next tokens length)
    (notEnd : token.isEnd = false)
    (opened : ∀ inside, openAfter depth (token :: inside) = openAfter next inside) :
    RunsThrough close depth (token :: tokens) (length + 1) := by
  obtain ⟨inside, closer, rest, rfl, rfl, closed, isMark, closes, isClose, noEnd⟩ := through
  refine ⟨token :: inside, closer, rest, rfl, rfl, by rw [opened, closed], isMark, closes,
    isClose, ?_⟩
  intro other member
  rcases List.mem_cons.1 member with rfl | later
  · exact notEnd
  · exact noEnd other later

/-- A run through a closing bracket. -/
theorem of_closingRun
    {close : String}
    {depth : Nat}
    {tokens : List Token}
    (closed : (closingRun close depth tokens).2 = true) :
    RunsThrough close depth tokens (closingRun close depth tokens).1 := by
  induction tokens generalizing depth with
  | nil => cases closed
  | cons token tokens hypothesis =>
      simp only [closingRun] at closed ⊢
      split_ifs at closed ⊢ with isEnd opens closes
      · exact (hypothesis closed).cons (by simpa using isEnd) fun inside => by
          simp only [openAfter, opens, if_true]
      · cases depth with
        | zero =>
            simp only [Bool.and_eq_true, beq_iff_eq] at closes
            exact ⟨[], token, tokens, rfl, rfl, rfl, closes.1, closes.2, by simpa using closed,
              by simpa using isEnd⟩
        | succ depth =>
            exact (hypothesis closed).cons (by simpa using isEnd) fun inside => by
              simp only [openAfter, if_neg opens, closes, if_true]
      · exact (hypothesis closed).cons (by simpa using isEnd) fun inside => by
          simp only [openAfter, if_neg opens, if_neg closes]

/-- Tokens start with a run of a length that closes all open brackets and has no comma
outside them. -/
def RunsUpTo
    (depth : Nat)
    (tokens : List Token)
    (length : Nat) : Prop :=
  ∃ taken rest, tokens = taken ++ rest ∧ length = taken.length ∧
    openAfter depth taken = some 0 ∧
    (∀ front token back, taken = front ++ token :: back → token.text = "," →
      openAfter depth front ≠ some 0) ∧
    ∀ token ∈ taken, token.isEnd = false

theorem RunsUpTo.cons
    {depth next length : Nat}
    {token : Token}
    {tokens : List Token}
    (upTo : RunsUpTo next tokens length)
    (notEnd : token.isEnd = false)
    (inside : token.text = "," → depth ≠ 0)
    (opened : ∀ further, openAfter depth (token :: further) = openAfter next further) :
    RunsUpTo depth (token :: tokens) (length + 1) := by
  obtain ⟨taken, rest, rfl, rfl, closed, noComma, noEnd⟩ := upTo
  refine ⟨token :: taken, rest, rfl, rfl, by rw [opened, closed], ?_, ?_⟩
  · intro front comma back isTaken isComma
    cases front with
    | nil =>
        obtain ⟨rfl, -⟩ := List.cons.inj isTaken
        simpa [openAfter] using inside isComma
    | cons head front =>
        rw [List.cons_append] at isTaken
        obtain ⟨rfl, isFurther⟩ := List.cons.inj isTaken
        rw [opened]
        exact noComma front comma back isFurther isComma
  · intro other member
    rcases List.mem_cons.1 member with rfl | later
    · exact notEnd
    · exact noEnd other later

/-- An expression that stops at commas. -/
theorem of_expressionRun
    {stops : List String}
    {depth : Nat}
    {tokens : List Token}
    (stopped : (expressionRun stops depth tokens).2 = .stop)
    (stopsAtComma : stops.contains "," = true)
    (marked : ∀ token ∈ tokens, token.Marked) :
    RunsUpTo depth tokens (expressionRun stops depth tokens).1 := by
  induction tokens generalizing depth with
  | nil => cases stopped
  | cons token tokens hypothesis =>
      have isMarked := marked token List.mem_cons_self
      have further {depth : Nat} (stopped : (expressionRun stops depth tokens).2 = .stop) :=
        hypothesis stopped fun other member => marked other (List.mem_cons_of_mem token member)
      have inside (noStop : ¬ (depth == 0 && stops.contains token.text) = true)
          (isComma : token.text = ",") : depth ≠ 0 := by
        rintro rfl
        rw [isComma, stopsAtComma] at noStop
        exact noStop rfl
      simp only [expressionRun] at stopped ⊢
      split_ifs at stopped ⊢ with isEnd stop opens closes bottom
      · simp only [Bool.and_eq_true, beq_iff_eq] at stop
        exact ⟨[], token :: tokens, rfl, rfl, by rw [stop.1]; rfl, by simp,
          fun _ member => absurd member List.not_mem_nil⟩
      · have kind := isMarked (by simp [isMark, opens])
        exact (further stopped).cons (by simpa using isEnd) (inside stop) fun _ => by
          simp [openAfter, kind, opens]
      · have kind := isMarked (by simp [isMark, closes])
        obtain ⟨below, rfl⟩ : ∃ below, depth = below + 1 :=
          Nat.exists_eq_succ_of_ne_zero (by simpa using bottom)
        exact (further stopped).cons (by simpa using isEnd) (inside stop) fun _ => by
          simp [openAfter, kind, closes, opens]
      · exact (further stopped).cons (by simpa using isEnd) (inside stop) fun _ => by
          simp [openAfter, closes, opens]

/-- Whether a text is a bracket. -/
def isBracket (text : String) : Bool :=
  isOpener text || isCloser text

/-- A bracket is a mark. -/
theorem isMark_of_isBracket {text : String} (bracket : isBracket text = true) :
    isMark text = true :=
  Bool.or_eq_true_iff.2 (.inl bracket)

/-- None of the texts stands among tokens outside all brackets, of which `depth` are open
before them. -/
def NoneOutside (texts : List String) (depth : Nat) (tokens : List Token) : Prop :=
  ∀ front token back, tokens = front ++ token :: back → openAfter depth front = some 0 →
    texts.contains token.text = false

instance (texts : List String) (depth : Nat) (tokens : List Token) :
    Decidable (NoneOutside texts depth tokens) :=
  decidable_of_iff
    (∀ index, (bound : index < tokens.length) → openAfter depth (tokens.take index) = some 0 →
      texts.contains tokens[index].text = false)
    ⟨fun none front token back parts outside => by
        subst parts
        simpa using none front.length (by simp) (by simpa using outside),
      fun none index bound outside =>
        none _ _ (tokens.drop (index + 1))
          (by rw [← List.drop_eq_getElem_cons bound, List.take_append_drop]) outside⟩

/-- An expression goes on over a token, unless it ends there. -/
theorem expressionRun_step
    {stops : List String}
    {depth next : Nat}
    {token : Token}
    (opened : openAfter depth [token] = some next)
    (notEnd : token.isEnd = false)
    (marked : isBracket token.text = true → token.kind = .punctuator)
    (noStop : depth = 0 → stops.contains token.text = false)
    (rest : List Token) :
    expressionRun stops depth (token :: rest) =
      ((expressionRun stops next rest).1 + 1, (expressionRun stops next rest).2) := by
  have goesOn : ¬ (depth == 0 && stops.contains token.text) = true := by simpa using noStop
  simp only [openAfter] at opened
  simp only [expressionRun, notEnd, Bool.false_eq_true, if_false, if_neg goesOn]
  by_cases opens : isOpener token.text = true
  · have isMark := marked (by simp [isBracket, opens])
    rw [if_pos (by simp [isMark, opens])] at opened
    cases opened
    rw [if_pos opens]
  rw [if_neg (by simp [opens])] at opened
  rw [if_neg opens]
  by_cases closes : isCloser token.text = true
  · have isMark := marked (by simp [isBracket, closes])
    rw [if_pos (by simp [isMark, closes])] at opened
    rw [if_pos closes]
    cases depth with
    | zero => cases opened
    | succ depth =>
        cases opened
        rfl
  · rw [if_neg (by simp [closes])] at opened
    cases opened
    rw [if_neg closes]

/-- An expression goes on over tokens none of which stops it outside all brackets. -/
theorem expressionRun_append
    {stops : List String}
    {depth left : Nat}
    {tokens : List Token}
    (opened : openAfter depth tokens = some left)
    (noEnd : ∀ token ∈ tokens, token.isEnd = false)
    (marked : ∀ token ∈ tokens, isBracket token.text = true → token.kind = .punctuator)
    (noStop : NoneOutside stops depth tokens)
    (rest : List Token) :
    expressionRun stops depth (tokens ++ rest) =
      ((expressionRun stops left rest).1 + tokens.length, (expressionRun stops left rest).2) := by
  induction tokens generalizing depth with
  | nil =>
      cases opened
      rfl
  | cons token tokens hypothesis =>
      obtain ⟨notEnd, noEnd⟩ := List.forall_mem_cons.1 noEnd
      obtain ⟨isMarked, marked⟩ := List.forall_mem_cons.1 marked
      rw [← List.singleton_append, openAfter_append] at opened
      obtain ⟨next, first, opened⟩ := Option.bind_eq_some_iff.1 opened
      have noStopHere : depth = 0 → stops.contains token.text = false := by
        rintro rfl
        exact noStop [] token tokens rfl rfl
      have noStop : NoneOutside stops next tokens := by
        rintro front other back rfl outside
        refine noStop (token :: front) other back rfl ?_
        rw [← List.singleton_append, openAfter_append, first]
        exact outside
      rw [List.cons_append, expressionRun_step first notEnd isMarked noStopHere,
        hypothesis opened noEnd marked noStop]
      rfl

/-! ## Passing tokens -/

/-- A cursor has passed some tokens to become another; the session may have changed. -/
structure Cursor.Passes (cursor : Cursor) (taken : List Token) (after : Cursor) : Prop where
  rest : cursor.rest = taken ++ after.rest
  previous : after.previous = taken.getLast?.or cursor.previous
  noEnd : ∀ token ∈ taken, token.isEnd = false

namespace Cursor.Passes

variable {middle : Cursor} {taken further : List Token}

theorem refl (cursor : Cursor) : cursor.Passes [] cursor :=
  ⟨rfl, rfl, nofun⟩

theorem trans
    (first : cursor.Passes taken middle)
    (second : middle.Passes further after) :
    cursor.Passes (taken ++ further) after where
  rest := by rw [first.rest, second.rest, List.append_assoc]
  previous := by rw [second.previous, first.previous, List.getLast?_append, Option.or_assoc]
  noEnd token member := (List.mem_append.1 member).elim (first.noEnd token) (second.noEnd token)

theorem act
    (passes : cursor.Passes taken after)
    (session : Session) :
    cursor.Passes taken { after with session } :=
  ⟨passes.rest, passes.previous, passes.noEnd⟩

theorem advance (notEnd : cursor.peek.isEnd = false) :
    cursor.Passes [cursor.peek] cursor.advance where
  rest := by
    rw [rest_advance notEnd]
    exact rest_of_not_isEnd notEnd
  previous := previous_advance notEnd
  noEnd := by simpa using notEnd

theorem advanceBy
    (taken : List Token)
    {rest : List Token}
    (isRest : cursor.rest = taken ++ rest)
    (noEnd : ∀ token ∈ taken, token.isEnd = false) :
    cursor.Passes taken (cursor.advanceBy taken.length) := by
  induction taken generalizing cursor with
  | nil => exact .refl cursor
  | cons token taken hypothesis =>
      have isPeek : cursor.peek = token := peek_eq_head isRest
      have notEnd := noEnd token List.mem_cons_self
      rw [← isPeek] at notEnd
      have first := advance notEnd
      rw [isPeek] at first
      refine first.trans (hypothesis ?_ fun other member =>
        noEnd other (List.mem_cons_of_mem token member))
      rw [rest_advance notEnd, isRest]
      rfl

end Cursor.Passes

namespace Tidy

/-- What is left after some tokens of tidy input is tidy. -/
theorem of_passes
    {taken : List Token}
    (tidy : Tidy cursor.rest)
    (passes : cursor.Passes taken after) :
    Tidy after.rest := by
  rw [passes.rest] at tidy
  refine ⟨?_, fun token member => tidy.marked token (List.mem_append_right taken member)⟩
  have input := tidy.input
  have noEnd := passes.noEnd
  clear tidy passes
  induction taken with
  | nil => exact input
  | cons token taken hypothesis =>
      exact hypothesis (input.tail (noEnd token List.mem_cons_self))
        fun other member => noEnd other (List.mem_cons_of_mem token member)

theorem peek_mem (tidy : Tidy cursor.rest) : cursor.peek ∈ cursor.rest := by
  rw [Cursor.rest_eq_peek_cons tidy.input]
  exact List.mem_cons_self

theorem marked_peek (tidy : Tidy cursor.rest) : cursor.peek.Marked :=
  tidy.marked _ tidy.peek_mem

end Tidy

/-- A reading that succeeds has taken a run of tokens, which with the value has a
property. -/
def Takes
    (cursor : Cursor)
    (holds : List Token → α → Prop)
    (result : EStateM.Result SyntaxError Cursor α) : Prop :=
  ∀ value after, result = .ok value after →
    ∃ taken, cursor.Passes taken after ∧ holds taken value

namespace Takes

variable {holds : List Token → α → Prop}

theorem done
    {value : α}
    {taken : List Token}
    (passes : cursor.Passes taken after)
    (has : holds taken value) :
    Takes cursor holds (.ok value after) := by
  rintro _ _ ⟨⟩
  exact ⟨taken, passes, has⟩

theorem error {error : SyntaxError} : Takes cursor holds (.error error after) := by
  intro _ _ read
  cases read

theorem mono
    {result : EStateM.Result SyntaxError Cursor α}
    {weaker : List Token → α → Prop}
    (takes : Takes cursor holds result)
    (weaken : ∀ taken value, holds taken value → weaker taken value) :
    Takes cursor weaker result := by
  intro value after read
  obtain ⟨taken, passes, has⟩ := takes value after read
  exact ⟨taken, passes, weaken taken value has⟩

/-- What is taken after some tokens, together with them. -/
theorem after_passing
    {middle : Cursor}
    {front : List Token}
    {result : EStateM.Result SyntaxError Cursor α}
    (passes : cursor.Passes front middle)
    (takes : Takes middle (fun taken => holds (front ++ taken)) result) :
    Takes cursor holds result := by
  intro value after read
  obtain ⟨taken, further, has⟩ := takes value after read
  exact ⟨front ++ taken, passes.trans further, has⟩

/-- One reading after another. -/
theorem bind
    {first : Parse β}
    {next : β → Parse α}
    {held : List Token → β → Prop}
    (takes : Takes cursor held (first cursor))
    (continues : ∀ front value middle, cursor.Passes front middle → held front value →
      Takes middle (fun taken => holds (front ++ taken)) (next value middle)) :
    Takes cursor holds ((first >>= next) cursor) := by
  intro value after read
  obtain ⟨between, middle, readFirst, readNext⟩ := of_bind_run read
  obtain ⟨front, passes, has⟩ := takes between middle readFirst
  exact after_passing passes (continues front between middle passes has) value after readNext

/-- What follows a token that may be there. -/
theorem accept_bind
    {text : String}
    {next : Option Token → Parse α}
    (present : cursor.peek.hasText text = true → cursor.Passes [cursor.peek] cursor.advance →
      Takes cursor.advance (fun taken => holds (cursor.peek :: taken))
        (next (some cursor.peek) cursor.advance))
    (absent : Takes cursor holds (next none cursor)) :
    Takes cursor holds ((accept text >>= next) cursor) := by
  rw [accept_bind_run]
  split
  · rename_i isText
    have passes := Cursor.Passes.advance (Token.not_isEnd_of_hasText isText)
    exact after_passing passes (present isText passes)
  · exact absent

/-- What follows a token that has to be there. -/
theorem expect_bind
    {text : String}
    {next : Token → Parse α}
    (present : cursor.peek.hasText text = true → cursor.Passes [cursor.peek] cursor.advance →
      Takes cursor.advance (fun taken => holds (cursor.peek :: taken))
        (next cursor.peek cursor.advance)) :
    Takes cursor holds ((expect text >>= next) cursor) := by
  intro value after read
  obtain ⟨isText, read⟩ := of_expect_bind_run read
  have passes := Cursor.Passes.advance (Token.not_isEnd_of_hasText isText)
  exact after_passing passes (present isText passes) value after read

end Takes

/-! ## Skipping -/

/-- In tidy input a token with the text of a bracket is that bracket. -/
theorem Tidy.mark_of_hasText
    {text : String}
    (tidy : Tidy cursor.rest)
    (isText : cursor.peek.hasText text = true)
    (isMark : isMark text = true) :
    cursor.peek.kind = .punctuator :=
  tidy.marked_peek (by rwa [Token.text_of_hasText isText])

/-- A token with a text that is neither a bracket nor a comma. -/
theorem Whole.of_text
    {token : Token}
    {text : String}
    (isText : token.text = text)
    (noMark : isMark text = false) :
    Whole [token] := by
  subst isText
  simp only [isMark, Bool.or_eq_false_iff, beq_eq_false_iff_ne] at noMark
  exact .single noMark.1.1 noMark.1.2 noMark.2

/-- The search for a closing bracket takes what it closes, and the bracket. -/
theorem skipUntilClose_takes (close : String) :
    Takes cursor (fun taken _ => Closing taken) (skipUntilClose close cursor) := by
  unfold skipUntilClose
  rw [get_bind_run]
  dsimp only
  rw [skip_bind_run]
  split
  · rename_i closed
    obtain ⟨inside, closer, rest, isRest, isLength, insideClosed, isMark, closes, -, noEnd⟩ :=
      of_closingRun closed
    have passes := Cursor.Passes.advanceBy (inside ++ [closer]) (by simpa using isRest) noEnd
    rw [isLength]
    rw [List.length_append] at passes
    exact .done passes ⟨inside, closer, rfl, insideClosed, isMark, closes⟩
  · exact .error

/-- Skipping a bracketed run takes a whole run. -/
theorem skipBalanced_takes
    {opener : String}
    (close : String)
    (isOpener : isOpener opener = true)
    (tidy : Tidy cursor.rest) :
    Takes cursor (fun taken _ => Whole taken ∧ taken ≠ []) (skipBalanced opener close cursor) := by
  unfold skipBalanced
  rw [discard_bind_run]
  refine .expect_bind ?_
  intro isText passes
  refine (skipUntilClose_takes close).mono ?_
  intro taken _ closing
  have isMark := tidy.mark_of_hasText isText (by simp [Grammar.isMark, isOpener])
  exact ⟨.bracketed ⟨isMark, by rwa [Token.text_of_hasText isText]⟩ closing, by simp⟩

/-- Skipping a group takes a whole run or nothing. -/
theorem skipGroup_takes
    {opener : String}
    (close : String)
    (isOpener : isOpener opener = true)
    (tidy : Tidy cursor.rest) :
    Takes cursor (fun taken _ => Whole taken) (skipGroup opener close cursor) := by
  unfold skipGroup
  rw [sees_bind_run]
  split
  · exact (skipBalanced_takes close isOpener tidy).mono fun _ _ whole => whole.1
  · exact .done (.refl cursor) .nil

theorem attribute_noMark
    {word : String}
    (isAttribute : attributes.contains word = true) :
    isMark word = false :=
  (by decide : ∀ word ∈ attributes, isMark word = false) word
    (List.contains_iff_mem.1 isAttribute)

theorem qualifier_noMark
    {word : String}
    (isQualifier : qualifiers.contains word = true) :
    isMark word = false :=
  (by decide : ∀ word ∈ qualifiers, isMark word = false) word
    (List.contains_iff_mem.1 isQualifier)

/-- Attributes are whole runs. -/
theorem skipAttributesUpTo_takes
    (count : Nat)
    (tidy : Tidy cursor.rest) :
    Takes cursor (fun taken _ => Whole taken) (skipAttributesUpTo count cursor) := by
  induction count generalizing cursor with
  | zero => exact .error
  | succ count hypothesis =>
      unfold skipAttributesUpTo
      rw [peek_bind_run]
      split
      · rename_i isAttribute
        have passes := Cursor.Passes.advance (peek_not_end_of_attribute tidy.input isAttribute)
        rw [discard_bind_run, take_bind_run]
        refine .after_passing passes ?_
        refine .bind (skipGroup_takes ")" rfl (tidy.of_passes passes)) ?_
        intro group _ middle further isGroup
        refine (hypothesis ((tidy.of_passes passes).of_passes further)).mono ?_
        intro taken _ whole
        exact (Whole.of_text rfl (attribute_noMark isAttribute)).append (isGroup.append whole)
      · exact .done (.refl cursor) .nil

/-- All attributes together are a whole run. -/
theorem skipAttributes_takes (tidy : Tidy cursor.rest) :
    Takes cursor (fun taken _ => Whole taken) (skipAttributes cursor) := by
  unfold skipAttributes
  rw [get_bind_run]
  exact skipAttributesUpTo_takes _ tidy

/-- A value is an expression up to a comma outside brackets. -/
theorem skipValue_takes
    {stops : List String}
    (stopsAtComma : stops.contains "," = true)
    (tidy : Tidy cursor.rest) :
    Takes cursor (fun taken _ => Whole taken) (skipValue stops cursor) := by
  unfold skipValue
  refine .accept_bind ?_ (.done (.refl cursor) .nil)
  intro isEquals passes
  rw [Option.isSome_some, if_pos rfl]
  unfold skipExpression
  rw [get_bind_run]
  dsimp only
  rw [skip_bind_run]
  cases stopped : (expressionRun stops 0 cursor.advance.rest).2 with
  | stop =>
      obtain ⟨taken, rest, isRest, isLength, closed, noComma, noEnd⟩ :=
        of_expressionRun stopped stopsAtComma (tidy.of_passes passes).marked
      rw [isLength]
      refine .done (.advanceBy taken isRest noEnd) ?_
      exact (Whole.of_text (Token.text_of_hasText isEquals) (by decide)).append ⟨closed, noComma⟩
  | unbalanced => exact .error
  | endOfFile => exact .error

/-! ## Specifiers -/

/-- A tag is a whole run. -/
theorem optionalTag_takes (tidy : Tidy cursor.rest) :
    Takes cursor (fun taken _ => Whole taken) (optionalTag cursor) := by
  unfold optionalTag
  rw [peek_bind_run]
  split
  · rename_i isWord
    rw [take_bind_run]
    exact .done (.advance (Token.not_isEnd_of_isWord isWord))
      (.of_isWord tidy.marked_peek isWord)
  · exact .done (.refl cursor) .nil

/-- What follows a word that is taken. -/
theorem Takes.word_bind
    {next : Token → Parse α}
    {holds : List Token → α → Prop}
    (tidy : Tidy cursor.rest)
    (isWord : cursor.peek.isWord = true)
    (continues : Tidy cursor.advance.rest → Whole [cursor.peek] →
      Takes cursor.advance (fun taken => holds (cursor.peek :: taken))
        (next cursor.peek cursor.advance)) :
    Takes cursor holds ((take >>= next) cursor) := by
  have passes := Cursor.Passes.advance (Token.not_isEnd_of_isWord isWord)
  rw [take_bind_run]
  exact .after_passing passes
    (continues (tidy.of_passes passes) (.of_isWord tidy.marked_peek isWord))

/-- The specifier of a structure is a whole run. -/
theorem recordSpecifier_takes
    (tidy : Tidy cursor.rest)
    (isWord : cursor.peek.isWord = true) :
    Takes cursor (fun taken _ => Whole taken ∧ taken ≠ []) (recordSpecifier cursor) := by
  unfold recordSpecifier
  refine .word_bind tidy isWord ?_
  intro tidy keyword
  refine .bind (skipAttributes_takes tidy) ?_
  intro first _ _ passes isFirst
  have tidy := tidy.of_passes passes
  refine .bind (optionalTag_takes tidy) ?_
  intro tag _ _ passes isTag
  have tidy := tidy.of_passes passes
  refine .bind (skipGroup_takes "\x7d" rfl tidy) ?_
  intro members _ _ passes isMembers
  have tidy := tidy.of_passes passes
  refine .bind (skipAttributes_takes tidy) ?_
  intro last _ _ passes isLast
  refine .done (.refl _) ⟨?_, by simp⟩
  exact keyword.append (isFirst.append (isTag.append (isMembers.append (isLast.append .nil))))

/-- The comments around the end of an item go with its separator. -/
theorem trailingComments_takes :
    Takes cursor (fun taken _ => BracketsClosed taken) (trailingComments "," cursor) := by
  rw [trailingComments_run]
  split
  · rename_i isComma
    refine .done (.advance (Token.not_isEnd_of_hasText isComma)) ?_
    simp [BracketsClosed, openAfter, Token.text_of_hasText isComma, isOpener, isCloser]
  · exact .done (.refl cursor) rfl

/-- The session with a further enumerator, and the list it is in. -/
def withEnumerator
    (tag : Option String)
    (list : Option ListId)
    (enumerator : Enumerator)
    (session : Session) : Session × ListId :=
  match list with
  | some list => (session.appendEnumerator list enumerator, list)
  | none => session.newEnumList tag enumerator

/-- Adding an enumerator changes the session and takes nothing. -/
theorem addEnumerator_bind_run
    (tag : Option String)
    (list : Option ListId)
    (enumerator : Enumerator)
    (next : ListId → Parse α) :
    (addEnumerator tag list enumerator >>= next) cursor =
      next (withEnumerator tag list enumerator cursor.session).2
        { cursor with session := (withEnumerator tag list enumerator cursor.session).1 } := by
  rw [addEnumerator_eq]
  cases list <;> rfl

/-- The session after comments for the last enumerator of a list. -/
def commentedLast (list : ListId) (comments : List String) (session : Session) : Session :=
  comments.foldl (fun session comment => (session.commentLastEnumerator list comment).1) session

/-- Comments for an enumerator change the session and take nothing. -/
theorem commentEnumerator_bind_run
    (list : ListId)
    (comments : List String)
    (next : Unit → Parse α) :
    (commentEnumerator list comments >>= next) cursor =
      next () { cursor with session := commentedLast list comments cursor.session } := by
  induction comments generalizing cursor with
  | nil => rfl
  | cons comment comments hypothesis =>
      rw [commentEnumerator_cons]
      rw [bind_assoc, discard_bind_run, act_bind_run]
      exact hypothesis

/-- Enumerators take their closing brace and no other unmatched bracket. -/
theorem enumerators_takes
    (tag : Option String)
    (count : Nat)
    (leading : Option String)
    (list : Option ListId)
    (tidy : Tidy cursor.rest) :
    Takes cursor (fun taken _ => Closing taken) (enumerators tag count leading list cursor) := by
  induction count generalizing leading list cursor with
  | zero => exact .error
  | succ count hypothesis =>
      rw [enumerators_succ]
      rw [sees_bind_run]
      split
      · rename_i closes
        rw [discard_bind_run, take_bind_run]
        refine .done (.advance (Token.not_isEnd_of_hasText closes)) ?_
        exact ⟨[], cursor.peek, rfl, rfl, tidy.mark_of_hasText closes (by decide),
          by rw [Token.text_of_hasText closes]; decide⟩
      unfold enumeratorName
      rw [bind_assoc, peek_bind_run]
      split
      · rename_i isWord
        refine .word_bind tidy isWord ?_
        intro tidy isName
        refine .bind (skipValue_takes (by decide) tidy) ?_
        intro value _ _ passes isValue
        have tidy := tidy.of_passes passes
        refine .bind trailingComments_takes ?_
        intro separator comments middle passes isSeparator
        have tidy := tidy.of_passes passes
        rw [addEnumerator_bind_run, commentEnumerator_bind_run, get_bind_run]
        have again (leading : Option String) (list : Option ListId) (session : Session) :
            Takes middle (fun taken _ => Closing (cursor.peek :: (value ++ (separator ++ taken))))
              (enumerators tag count leading list { middle with session }) := by
          refine .after_passing ((Cursor.Passes.refl middle).act session) ?_
          refine (hypothesis leading list (by exact tidy)).mono ?_
          intro taken _ closing
          simpa using closing.prepend (isName.closed.append (isValue.closed.append isSeparator))
        split
        · exact again _ _ _
        · rw [sees_bind_run]
          split
          · exact again _ _ _
          · exact .error
      · exact .error

/-- An enumerator list is a whole run. -/
theorem enumeratorList_takes
    (tag : Option String)
    (tidy : Tidy cursor.rest) :
    Takes cursor (fun taken _ => Whole taken) (enumeratorList tag cursor) := by
  rw [enumeratorList_eq]
  refine .expect_bind ?_
  intro opens passes
  rw [get_bind_run]
  refine (enumerators_takes tag _ _ none (tidy.of_passes passes)).mono ?_
  intro taken _ closing
  have isMark := tidy.mark_of_hasText opens (by decide)
  exact .bracketed ⟨isMark, by rw [Token.text_of_hasText opens]; decide⟩ closing

/-- The specifier of an enumeration is a whole run. -/
theorem enumSpecifier_takes
    (tidy : Tidy cursor.rest)
    (isWord : cursor.peek.isWord = true) :
    Takes cursor (fun taken _ => Whole taken ∧ taken ≠ []) (enumSpecifier cursor) := by
  unfold enumSpecifier
  refine .word_bind tidy isWord ?_
  intro tidy keyword
  refine .bind (skipAttributes_takes tidy) ?_
  intro front _ _ passes isFront
  have tidy := tidy.of_passes passes
  refine .bind (optionalTag_takes tidy) ?_
  intro tagged tag tagPassed passes isTag
  have tidy := tidy.of_passes passes
  have list : Takes tagPassed (fun taken _ => Whole taken) (enumerationList tag tagPassed) := by
    unfold enumerationList
    rw [sees_bind_run]
    split
    · exact enumeratorList_takes tag tidy
    · exact .done (.refl _) .nil
  refine .bind list ?_
  intro braces _ _ passes isList
  refine .done (.refl _) ⟨?_, by simp⟩
  exact keyword.append (isFront.append (isTag.append (isList.append .nil)))

/-- Specifiers are whole, and where there are any further ones a token has been taken. -/
theorem specifiersUpTo_takes
    (context : Context)
    (count : Nat)
    (seenType : Bool)
    (read : Option Specifiers)
    (tidy : Tidy cursor.rest) :
    Takes cursor (fun taken value => Whole taken ∧ (value = read ∨ taken ≠ []))
      (specifiersUpTo context count seenType read cursor) := by
  induction count generalizing seenType read cursor with
  | zero => exact .error
  | succ count hypothesis =>
      have again (seenType : Bool) (further : Option Specifiers) {front : List Token}
          {middle : Cursor} (passes : cursor.Passes front middle) (isFront : Whole front)
          (filled : front ≠ []) :
          Takes middle
            (fun taken value => Whole (front ++ taken) ∧ (value = read ∨ front ++ taken ≠ []))
            (specifiersUpTo context count seenType further middle) := by
        refine (hypothesis seenType further (tidy.of_passes passes)).mono ?_
        intro taken _ whole
        exact ⟨isFront.append whole.1, .inr (by simp [filled])⟩
      unfold specifiersUpTo
      rw [get_bind_run]
      split
      · exact .done (.refl cursor) ⟨.nil, .inl rfl⟩
      rename_i word
      have isWord : cursor.peek.isWord = true := by simpa using word
      have passes := Cursor.Passes.advance (Token.not_isEnd_of_isWord isWord)
      have whole := Whole.of_isWord tidy.marked_peek isWord
      have single (seenType : Bool) (further : Option Specifiers) :
          Takes cursor (fun taken value => Whole taken ∧ (value = read ∨ taken ≠ []))
            (specifiersUpTo context count seenType further cursor.advance) :=
        .after_passing passes (again seenType further passes whole (by simp))
      cases meaning : meaningAt context seenType cursor with
      | typedefWord => exact single _ _
      | modifier flags => exact single _ _
      | typeWord flags => exact single _ _
      | extensionWord =>
          dsimp only
          rw [discard_bind_run]
          exact single _ _
      | «attribute» =>
          refine .bind (skipAttributes_takes tidy) ?_
          intro front _ middle passes isFront
          refine (hypothesis seenType read (tidy.of_passes passes)).mono ?_
          rintro taken _ ⟨isTaken, further⟩
          exact ⟨isFront.append isTaken, further.imp_right fun filled => by simp [filled]⟩
      | record =>
          refine .bind (recordSpecifier_takes tidy isWord) ?_
          intro front _ middle passes isFront
          exact again _ _ passes isFront.1 isFront.2
      | enumeration =>
          refine .bind (enumSpecifier_takes tidy isWord) ?_
          intro front _ middle passes isFront
          exact again _ _ passes isFront.1 isFront.2
      | typedefName => exact single _ _
      | stop => exact .done (.refl cursor) ⟨.nil, .inl rfl⟩

/-- The specifiers of a declaration are a whole run. -/
theorem declarationSpecifiers_takes
    (context : Context)
    (tidy : Tidy cursor.rest) :
    Takes cursor (fun taken value => Whole taken ∧ (value = none ∨ taken ≠ []))
      (declarationSpecifiers context cursor) := by
  unfold declarationSpecifiers
  rw [get_bind_run]
  exact specifiersUpTo_takes context _ false none tidy

/-! ## Declarators -/

/-- The stars and qualifiers of a pointer operator are a whole run. -/
theorem pointerTail_takes
    (count : Nat)
    (text : String)
    (tidy : Tidy cursor.rest) :
    Takes cursor (fun taken _ => Whole taken) (pointerTail count text cursor) := by
  induction count generalizing text cursor with
  | zero => exact .error
  | succ count hypothesis =>
      have again (text : String) {front : List Token} {middle : Cursor}
          (passes : cursor.Passes front middle) (isFront : Whole front) :
          Takes cursor (fun taken _ => Whole taken) (pointerTail count text middle) := by
        refine .after_passing passes ((hypothesis text (tidy.of_passes passes)).mono ?_)
        exact fun _ _ whole => isFront.append whole
      unfold pointerTail
      simp only [peek_bind_run, sees_bind_run]
      split
      · rename_i isStar
        rw [discard_bind_run, take_bind_run]
        exact again _ (.advance (Token.not_isEnd_of_hasText isStar))
          (.of_text (Token.text_of_hasText isStar) (by decide))
      split
      · rename_i isQualifier
        rw [discard_bind_run, take_bind_run]
        exact again _ (.advance (peek_not_end_of_qualifier tidy.input isQualifier))
          (.of_text rfl (qualifier_noMark isQualifier))
      split
      · refine .bind (skipAttributes_takes tidy) ?_
        intro front _ middle passes isFront
        refine (hypothesis text (tidy.of_passes passes)).mono ?_
        exact fun _ _ whole => isFront.append whole
      · exact .done (.refl cursor) .nil

/-- A pointer operator is a whole run. -/
theorem pointer_takes (tidy : Tidy cursor.rest) :
    Takes cursor (fun taken value => Whole taken ∧ (value = none ∨ taken ≠ []))
      (pointer cursor) := by
  unfold pointer
  refine .accept_bind ?_ (.done (.refl cursor) ⟨.nil, .inl rfl⟩)
  intro isStar passes
  rw [Option.isSome_some, if_pos rfl, get_bind_run]
  refine .bind (pointerTail_takes _ _ (tidy.of_passes passes)) ?_
  intro further _ _ _ isFurther
  have isStar := Whole.of_text (Token.text_of_hasText isStar) (by decide)
  exact .done (.refl _) ⟨isStar.append (isFurther.append .nil), .inr (by simp)⟩

/-- Brackets with what they hold are a whole run. -/
theorem bracketText_takes (tidy : Tidy cursor.rest) :
    Takes cursor (fun taken _ => Whole taken ∧ taken ≠ []) (bracketText cursor) := by
  unfold bracketText
  rw [get_bind_run]
  refine .bind (skipBalanced_takes "]" rfl tidy) ?_
  intro taken _ _ _ ⟨isTaken, filled⟩
  rw [get_bind_run]
  exact .done (.refl _) ⟨isTaken.append .nil, by simp [filled]⟩

/-- A declarator, if there is one, without a comment. -/
def Uncommented (shape : Option Declarator) : Prop :=
  ∀ declarator ∈ shape, declarator.comment = none

theorem uncommented_none : Uncommented none := nofun

theorem uncommented_some
    {declarator : Declarator}
    (noComment : declarator.comment = none) :
    Uncommented (some declarator) := by
  rintro _ ⟨⟩
  exact noComment

/-- What a suffix is applied to has no comment. -/
theorem Uncommented.suffixBase
    {base : Option Declarator}
    (uncommented : Uncommented base) :
    (suffixBase base).comment = none := by
  cases base with
  | none => rfl
  | some declarator => exact uncommented declarator rfl

/-- A pointer operator adds no comment. -/
theorem Uncommented.withPointer
    {direct : Option Declarator}
    (uncommented : Uncommented direct)
    (operator : Option String) :
    Uncommented (withPointer operator direct) := by
  cases operator with
  | none => exact uncommented
  | some operator =>
      cases direct with
      | none => exact uncommented_some rfl
      | some declarator => exact uncommented_some (uncommented declarator rfl)

end Grammar
end DeclManual
