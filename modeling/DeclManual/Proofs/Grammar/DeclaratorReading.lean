import DeclManual.Proofs.Grammar.DeclaratorTree

/-!
# Reading declarators back

The tokens of a declarator tree are read as the declarator that the tree
prescribes.  Wherever they stand, and with whatever fuel is enough for the tokens
left, nothing else happens than that the tokens are taken.
-/

namespace DeclManual
namespace Grammar

open Decl
open Source (Token)

/-! ## Standing before tokens -/

namespace Cursor

/-- Tokens are passed in two goes as in one. -/
theorem advanceBy_add (cursor : Cursor) (first second : Nat) :
    cursor.advanceBy (first + second) = (cursor.advanceBy first).advanceBy second := by
  induction first generalizing cursor with
  | zero => rw [Nat.zero_add]; rfl
  | succ first hypothesis =>
      rw [Nat.succ_add]
      exact hypothesis cursor.advance

/-- A token further on is a token after the next one. -/
theorem peekNth_succ
    {cursor : Cursor}
    (notEnd : cursor.peek.isEnd = false)
    (filled : cursor.advance.rest ≠ [])
    (count : Nat) :
    cursor.peekNth (count + 1) = cursor.advance.peekNth count := by
  rw [rest_advance notEnd] at filled
  unfold peekNth
  rw [rest_advance notEnd]
  rcases tokens : cursor.rest with _ | ⟨first, _ | ⟨second, rest⟩⟩
  · simp [tokens] at filled
  · simp [tokens] at filled
  · rfl

theorem peekNth_one
    {cursor : Cursor}
    (notEnd : cursor.peek.isEnd = false)
    (filled : cursor.advance.rest ≠ []) :
    cursor.peekNth 1 = cursor.advance.peek := by
  rw [peekNth_succ notEnd filled]
  unfold peekNth peek
  rcases tokens : cursor.advance.rest with _ | ⟨next, rest⟩
  · contradiction
  · rfl

/-- Taking tokens changes no more of the session than the current position. -/
theorem session_advanceBy (cursor : Cursor) (count : Nat) :
    ∃ source, (cursor.advanceBy count).session = { cursor.session with source } := by
  induction count generalizing cursor with
  | zero => exact ⟨cursor.session.source, rfl⟩
  | succ count hypothesis =>
      obtain ⟨source, moved⟩ := hypothesis cursor.advance
      exact ⟨source, by rw [advanceBy, moved, cursor.session_advance]; rfl⟩

/-- Passing tokens leaves the names of types as they are. -/
@[simp] theorem typedefs_advanceBy (cursor : Cursor) (count : Nat) :
    (cursor.advanceBy count).session.typedefs = cursor.session.typedefs := by
  obtain ⟨source, moved⟩ := cursor.session_advanceBy count
  rw [moved]

end Cursor

/-- The cursor stands before some tokens, wherever these are placed, and others after
them. -/
structure Faces (cursor : Cursor) (tokens after : List Token) : Prop where
  bare : Bare tokens
  placed : ∃ placed, placed.map Token.unplaced = tokens ∧ cursor.rest = placed ++ after

namespace Faces

variable {cursor : Cursor} {token : Token} {tokens first second after : List Token}

theorem length (faces : Faces cursor tokens after) :
    cursor.rest.length = tokens.length + after.length := by
  obtain ⟨placed, rfl, here⟩ := faces.placed
  simp [here]

theorem peek (faces : Faces cursor (token :: tokens) after) :
    cursor.peek.unplaced = token := by
  obtain ⟨placed, isPlaced, here⟩ := faces.placed
  obtain ⟨next, rest, rfl, isNext, -⟩ := List.map_eq_cons_iff.1 isPlaced
  rw [Cursor.peek_eq_head here, isNext]

/-- A token that a cursor faces does not end the input. -/
theorem notEnd (faces : Faces cursor (token :: tokens) after) :
    cursor.peek.isEnd = false := by
  rw [← Token.isEnd_unplaced, faces.peek]
  exact (faces.bare token List.mem_cons_self).1

theorem advance (faces : Faces cursor (token :: tokens) after) :
    Faces cursor.advance tokens after := by
  refine ⟨fun other member => faces.bare other (List.mem_cons_of_mem token member), ?_⟩
  obtain ⟨placed, isPlaced, here⟩ := faces.placed
  obtain ⟨next, rest, rfl, -, isRest⟩ := List.map_eq_cons_iff.1 isPlaced
  refine ⟨rest, isRest, ?_⟩
  rw [Cursor.rest_advance faces.notEnd, here]
  rfl

/-- Tokens that have been taken are behind the cursor. -/
theorem advanceBy (faces : Faces cursor (first ++ second) after) :
    Faces (cursor.advanceBy first.length) second after := by
  induction first generalizing cursor with
  | nil => exact faces
  | cons token first hypothesis => exact hypothesis faces.advance

/-- Past the tokens that a cursor faces the rest is left. -/
theorem rest (faces : Faces cursor tokens after) :
    (cursor.advanceBy tokens.length).rest = after := by
  rw [← List.append_nil tokens] at faces
  obtain ⟨placed, isPlaced, here⟩ := faces.advanceBy.placed
  rw [here, List.map_eq_nil_iff.1 isPlaced]
  rfl

/-- The first of some tokens, as what stands before the others. -/
theorem left (faces : Faces cursor (first ++ second) after) :
    Faces cursor first (cursor.advanceBy first.length).rest := by
  refine ⟨fun token member => faces.bare token (List.mem_append_left second member), ?_⟩
  obtain ⟨placed, isPlaced, here⟩ := faces.placed
  obtain ⟨before, behind, rfl, isFirst, isSecond⟩ := List.map_eq_append_iff.1 isPlaced
  have whole : Faces cursor first (behind ++ after) :=
    ⟨fun token member => faces.bare token (List.mem_append_left second member),
      before, isFirst, by rw [here, List.append_assoc]⟩
  exact ⟨before, isFirst, by rw [whole.rest, here, List.append_assoc]⟩

theorem hasText (faces : Faces cursor (token :: tokens) after) (text : String) :
    cursor.peek.hasText text = token.hasText text := by
  rw [← faces.peek, Token.hasText_unplaced]

theorem isWord (faces : Faces cursor (token :: tokens) after) :
    cursor.peek.isWord = token.isWord := by
  rw [← faces.peek, Token.isWord_unplaced]

theorem text (faces : Faces cursor (token :: tokens) after) :
    cursor.peek.text = token.text := by
  rw [← faces.peek, Token.text_unplaced]

/-- A mark that a cursor faces is taken where it is expected. -/
theorem expect
    {text : String}
    (faces : Faces cursor (.mark text :: tokens) after) :
    Grammar.expect text cursor = .ok cursor.peek cursor.advance := by
  rw [expect_run, if_pos]
  rw [faces.hasText]
  exact beq_self_eq_true text

end Faces

@[simp] theorem hasText_mark (text other : String) :
    (Token.mark text).hasText other = (text == other) := rfl

@[simp] theorem hasText_word (text other : String) :
    (Token.word text).hasText other = (text == other) := rfl

@[simp] theorem isWord_word (text : String) : (Token.word text).isWord = true := rfl

@[simp] theorem text_word (text : String) : (Token.word text).text = text := rfl

/-! ## Words -/

/-- A keyword among specifiers is a keyword. -/
theorem keywordMeaning?_eq_none
    {word : String}
    (notKeyword : isKeyword word = false) :
    keywordMeaning? word = none := by
  simp only [isKeyword, otherKeywords, Bool.or_eq_false_iff, List.contains_eq_mem,
    List.mem_cons, decide_eq_false_iff_not, not_or] at notKeyword
  simp [keywordMeaning?, notKeyword]

theorem isKeyword_typeWord (word : TypeWord) : isKeyword word.text = true := by
  have isType := word.isTypeWord
  simp only [isTypeWord, Bool.or_eq_true, beq_iff_eq] at isType
  rcases isType with ((isChar | isShort) | isFloat) | isOther
  · rw [isChar]; decide
  · rw [isShort]; decide
  · rw [isFloat]; decide
  · simp only [isKeyword, isOther, Bool.true_or]

/-- A type word is read with its marker. -/
theorem keywordMeaning?_typeWord (word : TypeWord) :
    keywordMeaning? word.text =
      some (.typeWord
        { isChar := word.text == "char"
          isShort := word.text == "short"
          isFloat := word.text == "float" }) := by
  have isType := word.isTypeWord
  simp only [isTypeWord, Bool.or_eq_true, beq_iff_eq, typeKeywords, List.contains_eq_mem,
    List.mem_cons, List.not_mem_nil, or_false, decide_eq_true_eq] at isType
  rcases isType with ((isWord | isWord) | isWord) | isWord | isWord | isWord | isWord | isWord |
    isWord | isWord | isWord | isWord | isWord <;> rw [isWord] <;> decide

/-- A qualifier is read without a marker. -/
theorem keywordMeaning?_qualifier (word : Qualifier) :
    keywordMeaning? word.text = some (.modifier {}) ∧
      wordSpec word.text = .ofText word.text {} := by
  have isQualifier := word.isQualifier
  simp only [qualifiers, List.contains_eq_mem, List.mem_cons, List.not_mem_nil, or_false,
    decide_eq_true_eq] at isQualifier
  rcases isQualifier with isWord | isWord | isWord | isWord | isWord | isWord | isWord | isWord <;>
    rw [isWord] <;> decide

/-! ## Brackets -/

/-- A closing bracket is found by what tokens are, not by where they stand. -/
theorem closingRun_unplaced (close : String) (depth : Nat) (tokens : List Token) :
    closingRun close depth (tokens.map Token.unplaced) = closingRun close depth tokens := by
  induction tokens generalizing depth with
  | nil => rfl
  | cons token tokens hypothesis =>
      cases depth <;>
        simp only [List.map_cons, closingRun, Token.isEnd_unplaced, Token.kind_unplaced,
          Token.text_unplaced, hypothesis]

/-- A token that is no bracket is passed at any depth. -/
theorem closingRun_plain
    (close : String)
    (depth : Nat)
    {token : Token}
    (rest : List Token)
    (notEnd : token.isEnd = false)
    (notBracket :
      token.kind = .punctuator → isOpener token.text = false ∧ isCloser token.text = false) :
    closingRun close depth (token :: rest) =
      ((closingRun close depth rest).1 + 1, (closingRun close depth rest).2) := by
  by_cases isMark : token.kind = .punctuator
  · simp [closingRun, notEnd, isMark, notBracket isMark]
  · simp [closingRun, notEnd, isMark]

/-- An opening bracket leads one level down. -/
theorem closingRun_opener
    (close : String)
    (depth : Nat)
    {opener : String}
    (rest : List Token)
    (opens : isOpener opener = true) :
    closingRun close depth (.mark opener :: rest) =
      ((closingRun close (depth + 1) rest).1 + 1, (closingRun close (depth + 1) rest).2) := by
  simp [closingRun, Token.mark, Token.plain, Token.isEnd, opens]

/-- A closing bracket inside of others leads one level up. -/
theorem closingRun_closer
    (close : String)
    (depth : Nat)
    {closer : String}
    (rest : List Token)
    (closes : isCloser closer = true)
    (notOpener : isOpener closer = false) :
    closingRun close (depth + 1) (.mark closer :: rest) =
      ((closingRun close depth rest).1 + 1, (closingRun close depth rest).2) := by
  simp [closingRun, Token.mark, Token.plain, Token.isEnd, closes, notOpener]

/-- The run ends with the bracket that closes it. -/
theorem closingRun_close
    {close : String}
    (rest : List Token)
    (closes : isCloser close = true)
    (notOpener : isOpener close = false) :
    closingRun close 0 (.mark close :: rest) = (1, true) := by
  simp [closingRun, Token.mark, Token.plain, Token.isEnd, closes, notOpener]

/-- Of two paired brackets one opens, and one closes and does not open. -/
theorem brackets_of_arePaired
    {opener close : String}
    (paired : arePaired opener close = true) :
    isOpener opener = true ∧ isCloser close = true ∧ isOpener close = false := by
  simp only [arePaired, Bool.or_eq_true, beq_iff_eq, Prod.mk.injEq] at paired
  rcases paired with (⟨rfl, rfl⟩ | ⟨rfl, rfl⟩) | ⟨rfl, rfl⟩ <;> decide

/-- The run through a closing bracket passes over balanced tokens. -/
theorem closingRun_balanced
    {tokens : List Token}
    (balanced : Balanced tokens)
    (close : String)
    (depth : Nat)
    (rest : List Token) :
    closingRun close depth (tokens ++ rest) =
      ((closingRun close depth rest).1 + tokens.length, (closingRun close depth rest).2) := by
  induction balanced generalizing depth rest with
  | nil => rfl
  | plain notEnd notBracket balanced hypothesis =>
      rw [List.cons_append, closingRun_plain close depth _ (by simpa [Token.isEnd, Token.plain])
        notBracket, hypothesis]
      rfl
  | @group opener closer inside after paired within balanced hypothesis afterHypothesis =>
      obtain ⟨opens, closes, notOpener⟩ := brackets_of_arePaired paired
      rw [List.cons_append, List.cons_append, List.append_assoc, List.cons_append,
        closingRun_opener close depth _ opens, hypothesis,
        closingRun_closer close depth _ closes notOpener, afterHypothesis]
      simp only [List.length_cons, List.length_append, Prod.mk.injEq, and_true]
      omega

/-- The text of a run of tokens does not depend on where they stand. -/
theorem runText_unplaced (afterWord : Bool) (tokens : List Token) :
    runText afterWord (tokens.map Token.unplaced) = runText afterWord tokens := by
  induction tokens generalizing afterWord with
  | nil => rfl
  | cons token tokens hypothesis =>
      simp only [List.map_cons, runText, Token.kind_unplaced, Token.text_unplaced, hypothesis]
      rfl

/-- An extent is taken with its brackets and gives their text. -/
theorem bracketText_extent
    (extent : Extent)
    {cursor : Cursor}
    {after : List Token}
    (faces : Faces cursor extent.bracketed after) :
    bracketText cursor =
      .ok (runText false extent.bracketed) (cursor.advanceBy extent.bracketed.length) := by
  have opened : Faces cursor.advance (extent.tokens ++ [Token.mark "]"]) after := faces.advance
  have run : closingRun "]" 0 cursor.advance.rest = (extent.tokens.length + 1, true) := by
    obtain ⟨placed, isPlaced, here⟩ := opened.placed
    rw [← closingRun_unplaced, here, List.map_append, isPlaced, List.append_assoc,
      closingRun_balanced extent.balanced, List.singleton_append,
      closingRun_close _ (by decide) (by decide)]
    simp only [Prod.mk.injEq, and_true]
    omega
  have length : extent.bracketed.length = extent.tokens.length + 1 + 1 := by
    simp [Extent.bracketed]
  have taken : cursor.advanceBy extent.bracketed.length =
      cursor.advance.advanceBy (extent.tokens.length + 1) := by
    rw [length]
    rfl
  have skipped : skipBalanced "[" "]" cursor =
      .ok () (cursor.advanceBy extent.bracketed.length) := by
    unfold skipBalanced skipUntilClose
    rw [discard_bind_run, bind_run_ok faces.expect, get_bind_run, run]
    exact congrArg _ taken.symm
  obtain ⟨placed, isPlaced, here⟩ := faces.placed
  unfold bracketText
  rw [get_bind_run, bind_run_ok skipped, get_bind_run, faces.rest, here]
  simp only [List.length_append, Nat.add_sub_cancel_right, List.take_left', pure_run]
  rw [← runText_unplaced, isPlaced]

/-! ## Pointer operators -/

/-- A word that is no keyword is neither an attribute nor a qualifier. -/
theorem attributes_not_contains_of_notKeyword
    {word : String}
    (notKeyword : isKeyword word = false) :
    attributes.contains word = false ∧ qualifiers.contains word = false := by
  simp only [isKeyword, Bool.or_eq_false_iff] at notKeyword
  exact ⟨notKeyword.1.1.2, notKeyword.1.1.1.2⟩

/-- The rest of a pointer operator takes a star. -/
theorem pointerTail_star
    {cursor : Cursor}
    {tokens after : List Token}
    (faces : Faces cursor (.mark "*" :: tokens) after)
    (count : Nat)
    (text : String) :
    pointerTail (count + 1) text cursor = pointerTail count (text ++ "*") cursor.advance := by
  conv_lhs => unfold pointerTail
  have star : cursor.peek.hasText "*" = true := faces.hasText "*"
  rw [peek_bind_run, sees_bind_run, star, if_pos rfl, discard_bind_run, take_bind_run]

theorem qualifier_ne_star (word : Qualifier) : word.text ≠ "*" := by
  intro star
  have isQualifier := word.isQualifier
  rw [star] at isQualifier
  contradiction

/-- The rest of a pointer operator takes a qualifier. -/
theorem pointerTail_qualifier
    (word : Qualifier)
    {cursor : Cursor}
    {tokens after : List Token}
    (faces : Faces cursor (.word word.text :: tokens) after)
    (count : Nat)
    (text : String) :
    pointerTail (count + 1) text cursor =
      pointerTail count (text ++ word.text ++ " ") cursor.advance := by
  conv_lhs => unfold pointerTail
  have noStar : cursor.peek.hasText "*" = false := by
    rw [faces.hasText, hasText_word]
    exact beq_eq_false_iff_ne.2 (qualifier_ne_star word)
  have isWord : cursor.peek.text = word.text := faces.text
  rw [peek_bind_run, sees_bind_run, noStar, if_neg (by simp), isWord, if_pos word.isQualifier,
    discard_bind_run, take_bind_run]

/-- The qualifiers after a star are added to the text of the operator. -/
theorem pointerTail_qualifiers
    (words : List Qualifier)
    {cursor : Cursor}
    {tokens after : List Token}
    (faces : Faces cursor (words.map (fun word => Token.word word.text) ++ tokens) after)
    (count : Nat)
    (text : String) :
    pointerTail (words.length + count) text cursor =
      pointerTail count (words.foldl (fun text word => text ++ word.text ++ " ") text)
        (cursor.advanceBy words.length) := by
  induction words generalizing cursor text with
  | nil => rw [List.length_nil, Nat.zero_add]; rfl
  | cons word words hypothesis =>
      rw [List.length_cons, Nat.succ_add, Nat.succ_eq_add_one,
        pointerTail_qualifier word faces, hypothesis faces.advance]
      rfl

/-- The text of an operator goes on what was read before it. -/
theorem operatorText_prepend (text : String) (operator : List Qualifier) :
    operator.foldl (fun text word => text ++ word.text ++ " ") (text ++ "*") =
      text ++ operatorText operator := by
  unfold operatorText
  generalize "*" = start
  induction operator generalizing start with
  | nil => rfl
  | cons word operator hypothesis =>
      rw [List.foldl_cons, List.foldl_cons, ← hypothesis]
      simp only [String.append_assoc]

@[simp] theorem length_operatorTokens (operator : List Qualifier) :
    (operatorTokens operator).length = operator.length + 1 := by
  simp [operatorTokens]

/-- The rest of a pointer operator takes a further operator. -/
theorem pointerTail_operator
    (operator : List Qualifier)
    {cursor : Cursor}
    {tokens after : List Token}
    (faces : Faces cursor (operatorTokens operator ++ tokens) after)
    (count : Nat)
    (text : String) :
    pointerTail ((operatorTokens operator).length + count) text cursor =
      pointerTail count (text ++ operatorText operator)
        (cursor.advanceBy (operatorTokens operator).length) := by
  have starred : Faces cursor (.mark "*" :: (operator.map (fun word => .word word.text) ++ tokens))
      after := faces
  rw [length_operatorTokens, Nat.add_right_comm, pointerTail_star starred,
    pointerTail_qualifiers operator starred.advance, operatorText_prepend]
  rfl

/-- The rest of a pointer operator ends at any other token. -/
theorem pointerTail_stop
    {cursor : Cursor}
    (noStar : cursor.peek.hasText "*" = false)
    (noQualifier : qualifiers.contains cursor.peek.text = false)
    (noAttribute : attributes.contains cursor.peek.text = false)
    (count : Nat)
    (text : String) :
    pointerTail (count + 1) text cursor = .ok text cursor := by
  unfold pointerTail
  rw [peek_bind_run, sees_bind_run, noStar, if_neg (by simp), noQualifier, if_neg (by simp),
    noAttribute, if_neg (by simp), pure_run]

/-- Where no star stands there is no pointer operator. -/
theorem pointer_absent
    {cursor : Cursor}
    (noStar : cursor.peek.hasText "*" = false) :
    pointer cursor = .ok none cursor := by
  unfold pointer
  rw [accept_bind_run, noStar, if_neg (by simp)]
  rfl

/-- Pointer operators are read like what follows a star, from the first star on. -/
theorem pointer_of_tail
    {cursor middle : Cursor}
    {tokens after : List Token}
    {text : String}
    (faces : Faces cursor (.mark "*" :: tokens) after)
    (tail : pointerTail cursor.rest.length "" cursor = .ok text middle) :
    pointer cursor = .ok (some text) middle := by
  have star : cursor.peek.hasText "*" = true := faces.hasText "*"
  have length : cursor.rest.length = cursor.advance.rest.length + 1 := by
    rw [faces.length, faces.advance.length, List.length_cons]
    omega
  rw [length, pointerTail_star faces, String.empty_append] at tail
  unfold pointer
  rw [accept_bind_run, star, if_pos rfl, Option.isSome_some, if_pos rfl, get_bind_run,
    bind_run_ok tail]
  rfl

/-! ## Suffixes -/

/-- What may stand after a declarator. -/
def Follows (after : List Token) : Prop :=
  ∃ stop rest, after = stop :: rest ∧
    (stop.hasText ";" = true ∨ stop.hasText "," = true ∨ stop.hasText ")" = true)

theorem Follows.length_pos {after : List Token} (follows : Follows after) :
    0 < after.length := by
  obtain ⟨stop, rest, rfl, -⟩ := follows
  exact Nat.succ_pos _

/-- What may stand after a declarator is part of none. -/
theorem Follows.stops
    {cursor : Cursor}
    (follows : Follows cursor.rest) :
    ∃ text, cursor.peek.text = text ∧ (text = ";" ∨ text = "," ∨ text = ")") := by
  obtain ⟨stop, rest, here, isStop⟩ := follows
  rw [Cursor.peek_eq_head here]
  rcases isStop with isStop | isStop | isStop
  · exact ⟨";", Token.text_of_hasText isStop, by simp⟩
  · exact ⟨",", Token.text_of_hasText isStop, by simp⟩
  · exact ⟨")", Token.text_of_hasText isStop, by simp⟩

/-- What may stand after a parameter. -/
def FollowsParameter (after : List Token) : Prop :=
  ∃ stop rest, after = stop :: rest ∧ stop.isWord = false ∧
    (stop.hasText "," = true ∨ stop.hasText ")" = true)

/-- What may follow a parameter may follow a declarator. -/
theorem FollowsParameter.follows
    {after : List Token}
    (follows : FollowsParameter after) :
    Follows after := by
  obtain ⟨stop, rest, here, -, isStop⟩ := follows
  exact ⟨stop, rest, here, .inr isStop⟩

/-- No word follows a parameter. -/
theorem FollowsParameter.noWord
    {cursor : Cursor}
    (follows : FollowsParameter cursor.rest) :
    cursor.peek.isWord = false := by
  obtain ⟨stop, rest, here, noWord, -⟩ := follows
  rw [Cursor.peek_eq_head here, noWord]

/-- What stands after some tokens, if it is a comma or a parenthesis. -/
theorem Faces.followsParameter
    {cursor : Cursor}
    {tokens others after : List Token}
    {stop : String}
    (faces : Faces cursor (tokens ++ .mark stop :: others) after)
    (isStop : stop = "," ∨ stop = ")") :
    FollowsParameter (cursor.advanceBy tokens.length).rest := by
  obtain ⟨placed, isPlaced, here⟩ := faces.advanceBy.placed
  obtain ⟨token, rest, rfl, isToken, -⟩ := List.map_eq_cons_iff.1 isPlaced
  refine ⟨token, rest ++ after, here, ?_, ?_⟩
  · rw [← Token.isWord_unplaced, isToken]
    rfl
  · rw [← Token.hasText_unplaced token ",", ← Token.hasText_unplaced token ")", isToken]
    rcases isStop with rfl | rfl
    · exact .inl rfl
    · exact .inr rfl

/-- Where neither a bracket nor an attribute stands there is no suffix. -/
theorem suffixes_absent
    {cursor : Cursor}
    (noBracket : cursor.peek.hasText "[" = false)
    (noOpener : cursor.peek.hasText "(" = false)
    (noAttribute : attributes.contains cursor.peek.text = false)
    (fuel : Nat)
    (base : Option Declarator) :
    suffixes (fuel + 1) base cursor = .ok base cursor := by
  unfold suffixes
  rw [sees_bind_run, noBracket, if_neg (by simp), sees_bind_run, noOpener, if_neg (by simp),
    peek_bind_run, noAttribute, if_neg (by simp), pure_run]

/-- What may follow a declarator is no suffix of it. -/
theorem suffixes_stop
    {cursor : Cursor}
    (follows : Follows cursor.rest)
    (fuel : Nat)
    (base : Option Declarator) :
    suffixes (fuel + 1) base cursor = .ok base cursor := by
  obtain ⟨text, isText, stops⟩ := follows.stops
  have noBracket : cursor.peek.hasText "[" = false := by
    apply Token.hasText_of_text_ne
    rw [isText]
    rcases stops with rfl | rfl | rfl <;> decide
  have noOpener : cursor.peek.hasText "(" = false := by
    apply Token.hasText_of_text_ne
    rw [isText]
    rcases stops with rfl | rfl | rfl <;> decide
  have noAttribute : attributes.contains cursor.peek.text = false := by
    rw [isText]
    rcases stops with rfl | rfl | rfl <;> decide
  exact suffixes_absent noBracket noOpener noAttribute fuel base

/-- An extent in brackets makes an array of what was read. -/
theorem suffixes_array
    (extent : Extent)
    {cursor : Cursor}
    {after : List Token}
    (faces : Faces cursor extent.bracketed after)
    (fuel : Nat)
    (base : Declarator) :
    suffixes (fuel + 1) (some base) cursor =
      suffixes fuel (some (base.arrayOf (runText false extent.bracketed)))
        (cursor.advanceBy extent.bracketed.length) := by
  have bracket : cursor.peek.hasText "[" = true := faces.hasText "["
  conv_lhs => unfold suffixes
  rw [sees_bind_run, bracket, if_pos rfl, bind_run_ok (bracketText_extent extent faces)]
  rfl

/-- A parameter list makes a function of what was read. -/
theorem suffixes_function
    {cursor after : Cursor}
    {tokens rest : List Token}
    (faces : Faces cursor (.mark "(" :: tokens) rest)
    {fuel : Nat}
    {parameters : List Parameter}
    (read : parameterList fuel cursor = .ok parameters after)
    (base : Declarator) :
    suffixes (fuel + 1) (some base) cursor =
      suffixes fuel (some (.function base parameters)) after := by
  have noBracket : cursor.peek.hasText "[" = false := faces.hasText "["
  have opener : cursor.peek.hasText "(" = true := faces.hasText "("
  conv_lhs => unfold suffixes
  rw [sees_bind_run, noBracket, if_neg (by simp), sees_bind_run, opener, if_pos rfl,
    bind_run_ok read]
  rfl

/-! ## Direct declarators -/

variable {session : Session}

/-- Reading the tokens of a direct declarator comes to reading its suffixes with what
the tree prescribes. -/
def DirectTree.Reads (tree : DirectTree session) : Prop :=
  ∀ {fuel : Nat} {abstractAllowed : Bool} {cursor : Cursor} {after : List Token},
    Faces cursor tree.tokens after →
    cursor.session.typedefs = session.typedefs →
    6 * cursor.rest.length + 3 ≤ fuel →
    ∃ left, 6 * after.length + 2 ≤ left ∧
      directDeclarator fuel abstractAllowed cursor =
        suffixes left (some tree.meaning) (cursor.advanceBy tree.tokens.length)

/-- The tokens of a declarator are read as what the tree prescribes. -/
def DeclaratorTree.Reads (tree : DeclaratorTree session) : Prop :=
  ∀ {fuel : Nat} {abstractAllowed : Bool} {cursor : Cursor} {after : List Token},
    Faces cursor tree.tokens after →
    Follows after →
    cursor.session.typedefs = session.typedefs →
    6 * cursor.rest.length + 4 ≤ fuel →
    declarator fuel abstractAllowed cursor =
      .ok (some tree.meaning) (cursor.advanceBy tree.tokens.length)

/-- A name is read as itself. -/
theorem DirectTree.reads_name (name : Name session) : (DirectTree.name name).Reads := by
  intro fuel abstractAllowed cursor after faces sameTypedefs enough
  rw [DirectTree.tokens] at faces
  obtain ⟨left, rfl⟩ : ∃ left, fuel = left + 1 := ⟨fuel - 1, by omega⟩
  have length := faces.length
  rw [List.length_singleton] at length
  have isWord : cursor.peek.isWord = true := faces.isWord
  have isText : cursor.peek.text = name.text := faces.text
  refine ⟨left, by omega, ?_⟩
  unfold directDeclarator
  rw [get_bind_run, if_pos (by rw [isWord, isText, name.notKeyword]; rfl), take_bind_run, isText,
    DirectTree.meaning, DirectTree.tokens]
  rfl

/-- An array is read if its element is. -/
theorem DirectTree.reads_array
    {element : DirectTree session}
    (reads : element.Reads)
    (extent : Extent) :
    (DirectTree.array element extent).Reads := by
  intro fuel abstractAllowed cursor after faces sameTypedefs enough
  rw [DirectTree.tokens] at faces
  obtain ⟨left, enoughLeft, read⟩ := reads faces.left sameTypedefs enough
  have bracketed := faces.advanceBy
  have length := bracketed.length
  have positive : 2 ≤ extent.bracketed.length := by simp [Extent.bracketed]
  obtain ⟨fewer, rfl⟩ : ∃ fewer, left = fewer + 1 := ⟨left - 1, by omega⟩
  refine ⟨fewer, by omega, ?_⟩
  rw [read, suffixes_array extent bracketed, DirectTree.meaning, DirectTree.tokens,
    List.length_append, Cursor.advanceBy_add]

/-- The parenthesis of a nested declarator is seen to open one. -/
theorem opensNested_of_tree
    (inner : DeclaratorTree session)
    {cursor : Cursor}
    {tokens after : List Token}
    (faces : Faces cursor (.mark "(" :: (inner.tokens ++ tokens)) after)
    (sameTypedefs : cursor.session.typedefs = session.typedefs) :
    opensNested cursor = true := by
  have inside := faces.advance
  have filled : cursor.advance.rest ≠ [] := by
    rw [← List.length_pos_iff, inside.length, List.length_append]
    obtain ⟨front, last, ends, -⟩ := inner.tokens_end
    rw [ends, List.length_append, List.length_singleton]
    omega
  have second := Cursor.peekNth_one faces.notEnd filled
  unfold opensNested
  rw [second]
  rcases inner.tokens_start with ⟨name, tail, starts, -⟩ | ⟨tail, starts⟩ | ⟨tail, starts⟩
  · rw [starts] at inside
    have isWord : cursor.advance.peek.isWord = true := inside.isWord
    have isText : cursor.advance.peek.text = name.text := inside.text
    have notTypedef : cursor.session.isTypedefName name.text = false := by
      unfold Session.isTypedefName
      rw [sameTypedefs]
      exact name.notTypedef
    simp [isWord, isText, name.notKeyword, notTypedef]
  · rw [starts] at inside
    have opener : cursor.advance.peek.hasText "(" = true := inside.hasText "("
    simp [opener]
  · rw [starts] at inside
    have star : cursor.advance.peek.hasText "*" = true := inside.hasText "*"
    simp [star]

/-- A declarator in parentheses is read if the declarator is. -/
theorem DirectTree.reads_nested
    {inner : DeclaratorTree session}
    (reads : inner.Reads) :
    (DirectTree.nested inner).Reads := by
  intro fuel abstractAllowed cursor after faces sameTypedefs enough
  rw [DirectTree.tokens] at faces
  obtain ⟨left, rfl⟩ : ∃ left, fuel = left + 1 := ⟨fuel - 1, by omega⟩
  have length := faces.length
  simp only [List.length_append, List.length_cons, List.length_nil] at length
  have opens := opensNested_of_tree inner faces sameTypedefs
  have noWord : cursor.peek.isWord = false := faces.isWord
  have opener : cursor.peek.hasText "(" = true := faces.hasText "("
  have inside : Faces cursor.advance (inner.tokens ++ [Token.mark ")"]) after := faces.advance
  have closing := inside.advanceBy
  have insideLength := inside.length
  simp only [List.length_append, List.length_cons, List.length_nil] at insideLength
  have follows := (inside.followsParameter (.inr rfl)).follows
  have typedefs : cursor.advance.session.typedefs = session.typedefs :=
    (cursor.typedefs_advanceBy 1).trans sameTypedefs
  have read := @reads left abstractAllowed _ _ inside.left follows typedefs (by omega)
  have taken : cursor.advanceBy (DirectTree.nested inner).tokens.length =
      (cursor.advance.advanceBy inner.tokens.length).advance := by
    rw [DirectTree.tokens, List.length_append, List.length_cons, Nat.add_comm _ 1,
      Cursor.advanceBy_add, Cursor.advanceBy_add]
    rfl
  refine ⟨left, by omega, ?_⟩
  unfold directDeclarator
  rw [get_bind_run, if_neg (by simp [noWord]), if_pos (by simp [opener, opens]), discard_bind_run,
    take_bind_run, bind_run_ok read, discard_bind_run, bind_run_ok closing.expect, taken,
    DirectTree.meaning]
  rfl

/-- A parameter list may be empty. -/
theorem parameterList_empty
    {cursor : Cursor}
    {after : List Token}
    (faces : Faces cursor [.mark "(", .mark ")"] after)
    (fuel : Nat) :
    parameterList (fuel + 1) cursor = .ok [] (cursor.advanceBy 2) := by
  have closer : cursor.advance.peek.hasText ")" = true := faces.advance.hasText ")"
  unfold parameterList
  rw [bind_run_ok faces.expect, accept_bind_run, closer, if_pos rfl]
  rfl

/-- A function without parameters is read if its result is. -/
theorem DirectTree.reads_function
    {result : DirectTree session}
    (reads : result.Reads) :
    (DirectTree.function result).Reads := by
  intro fuel abstractAllowed cursor after faces sameTypedefs enough
  rw [DirectTree.tokens] at faces
  obtain ⟨left, enoughLeft, read⟩ := reads faces.left sameTypedefs enough
  have list := faces.advanceBy
  have length := list.length
  rw [List.length_cons, List.length_singleton] at length
  obtain ⟨fewer, rfl⟩ : ∃ fewer, left = fewer + 1 + 1 := ⟨left - 2, by omega⟩
  refine ⟨fewer + 1, by omega, ?_⟩
  rw [read, suffixes_function list (parameterList_empty list fewer), DirectTree.meaning,
    DirectTree.tokens, List.length_append, Cursor.advanceBy_add]
  rfl

/-! ## Declarators -/

/-- After a star, the pointer operators and the direct declarator of a tree are read
such that together they are what the tree prescribes. -/
def DeclaratorTree.ReadsAfterStar (tree : DeclaratorTree session) : Prop :=
  ∀ {fuel count : Nat} {abstractAllowed : Bool} {cursor : Cursor} {after : List Token}
    (text : String),
    Faces cursor tree.tokens after →
    Follows after →
    cursor.session.typedefs = session.typedefs →
    6 * cursor.rest.length + 3 ≤ fuel →
    cursor.rest.length ≤ count →
    ∃ whole middle direct,
      pointerTail count text cursor = .ok whole middle ∧
      directDeclarator fuel abstractAllowed middle =
        .ok (some direct) (cursor.advanceBy tree.tokens.length) ∧
      direct.pointerTo whole = tree.meaning.pointerTo text

/-- Two pointer operators act as one with both texts. -/
theorem pointerTo_pointerTo (declarator : Declarator) (inner outer : String) :
    (declarator.pointerTo inner).pointerTo outer = declarator.pointerTo (outer ++ inner) := by
  simp [Declarator.pointerTo, String.append_assoc]

/-- A direct declarator is read up to what follows it. -/
theorem DirectTree.Reads.complete
    {tree : DirectTree session}
    (reads : tree.Reads)
    {fuel : Nat}
    {abstractAllowed : Bool}
    {cursor : Cursor}
    {after : List Token}
    (faces : Faces cursor tree.tokens after)
    (follows : Follows after)
    (sameTypedefs : cursor.session.typedefs = session.typedefs)
    (enough : 6 * cursor.rest.length + 3 ≤ fuel) :
    directDeclarator fuel abstractAllowed cursor =
      .ok (some tree.meaning) (cursor.advanceBy tree.tokens.length) := by
  obtain ⟨left, enoughLeft, read⟩ := @reads fuel abstractAllowed _ _ faces sameTypedefs enough
  obtain ⟨fewer, rfl⟩ : ∃ fewer, left = fewer + 1 := ⟨left - 1, by omega⟩
  rw [read, suffixes_stop (by rwa [faces.rest])]

/-- A direct declarator starts with no pointer operator. -/
theorem DirectTree.peek_of_faces
    (tree : DirectTree session)
    {cursor : Cursor}
    {after : List Token}
    (faces : Faces cursor tree.tokens after) :
    cursor.peek.hasText "*" = false ∧ qualifiers.contains cursor.peek.text = false ∧
      attributes.contains cursor.peek.text = false := by
  rcases tree.tokens_start with ⟨name, tail, starts, -⟩ | ⟨tail, starts⟩
  · rw [starts] at faces
    obtain ⟨noAttribute, noQualifier⟩ := attributes_not_contains_of_notKeyword name.notKeyword
    refine ⟨?_, ?_, ?_⟩
    · rw [faces.hasText]
      exact beq_eq_false_iff_ne.2 (name.text_ne (by decide))
    · rw [faces.text]
      exact noQualifier
    · rw [faces.text]
      exact noAttribute
  · rw [starts] at faces
    refine ⟨faces.hasText "*", ?_, ?_⟩
    · rw [faces.text]
      decide
    · rw [faces.text]
      decide

/-- What is read without a pointer is read after one. -/
theorem DeclaratorTree.readsAfterStar_direct
    {direct : DirectTree session}
    (reads : direct.Reads) :
    (DeclaratorTree.direct direct).ReadsAfterStar := by
  intro fuel count abstractAllowed cursor after text faces follows sameTypedefs enough enoughCount
  rw [DeclaratorTree.tokens] at faces
  obtain ⟨noStar, noQualifier, noAttribute⟩ := direct.peek_of_faces faces
  have length := faces.length
  have filled := follows.length_pos
  obtain ⟨fewer, rfl⟩ : ∃ fewer, count = fewer + 1 := ⟨count - 1, by omega⟩
  refine ⟨text, cursor, direct.meaning,
    pointerTail_stop noStar noQualifier noAttribute fewer text, ?_, ?_⟩
  · rw [DeclaratorTree.tokens]
    exact reads.complete faces follows sameTypedefs enough
  · rw [DeclaratorTree.meaning]

/-- Further pointers are read after a pointer. -/
theorem DeclaratorTree.readsAfterStar_pointer
    {target : DeclaratorTree session}
    (reads : target.ReadsAfterStar)
    (operator : List Qualifier) :
    (DeclaratorTree.pointer operator target).ReadsAfterStar := by
  intro fuel count abstractAllowed cursor after text faces follows sameTypedefs enough enoughCount
  rw [DeclaratorTree.tokens] at faces
  have length := faces.length
  rw [List.length_append] at length
  have targetFaces := faces.advanceBy
  have targetLength := targetFaces.length
  obtain ⟨fewer, rfl⟩ : ∃ fewer, count = (operatorTokens operator).length + fewer :=
    ⟨count - (operatorTokens operator).length, by omega⟩
  obtain ⟨whole, middle, direct, tail, read, means⟩ :=
    @reads fuel fewer abstractAllowed _ _ (text ++ operatorText operator) targetFaces follows
      ((cursor.typedefs_advanceBy _).trans sameTypedefs) (by omega) (by omega)
  refine ⟨whole, middle, direct, ?_, ?_, ?_⟩
  · rw [pointerTail_operator operator faces, tail]
  · rw [read, DeclaratorTree.tokens, List.length_append, Cursor.advanceBy_add]
  · rw [means, DeclaratorTree.meaning, pointerTo_pointerTo]

/-- A declarator without pointers is read if what it wraps is. -/
theorem DeclaratorTree.reads_direct
    {direct : DirectTree session}
    (reads : direct.Reads) :
    (DeclaratorTree.direct direct).Reads := by
  intro fuel abstractAllowed cursor after faces follows sameTypedefs enough
  rw [DeclaratorTree.tokens] at faces
  obtain ⟨noStar, -, -⟩ := direct.peek_of_faces faces
  obtain ⟨left, rfl⟩ : ∃ left, fuel = left + 1 := ⟨fuel - 1, by omega⟩
  unfold declarator
  rw [bind_run_ok (pointer_absent noStar),
    bind_run_ok (reads.complete faces follows sameTypedefs (by omega)),
    DeclaratorTree.meaning, DeclaratorTree.tokens]
  rfl

/-- A pointer is read if its target is read after a star. -/
theorem DeclaratorTree.reads_pointer
    {target : DeclaratorTree session}
    (reads : target.ReadsAfterStar)
    (operator : List Qualifier) :
    (DeclaratorTree.pointer operator target).Reads := by
  intro fuel abstractAllowed cursor after faces follows sameTypedefs enough
  obtain ⟨left, rfl⟩ : ∃ left, fuel = left + 1 := ⟨fuel - 1, by omega⟩
  obtain ⟨whole, middle, direct, tail, read, means⟩ :=
    @readsAfterStar_pointer _ _ reads operator left _ abstractAllowed _ _ "" faces follows
      sameTypedefs (by omega) (Nat.le_refl _)
  rw [DeclaratorTree.tokens] at faces
  rw [DeclaratorTree.meaning, pointerTo_pointerTo, String.empty_append] at means
  unfold declarator
  rw [bind_run_ok (pointer_of_tail faces tail), bind_run_ok read, DeclaratorTree.meaning, ← means]
  rfl

/-! ## Specifiers of parameters -/

/-- A keyword means the same in every context. -/
theorem meaningAt_keyword
    {cursor : Cursor}
    {meaning : SpecifierWord}
    (isKeyword : keywordMeaning? cursor.peek.text = some meaning)
    (context : Context)
    (seenType : Bool) :
    meaningAt context seenType cursor = meaning := by
  simp [meaningAt, isKeyword]

/-- A modifier is added to the specifiers and decides no type. -/
theorem specifiersUpTo_modifier
    {context : Context}
    {seenType : Bool}
    {cursor : Cursor}
    {flags : Flags}
    (isWord : cursor.peek.isWord = true)
    (meaning : meaningAt context seenType cursor = .modifier flags)
    (count : Nat)
    (read : Option Specifiers) :
    specifiersUpTo context (count + 1) seenType read cursor =
      specifiersUpTo context count seenType
        (Specifiers.add read false (.ofText cursor.peek.text flags)) cursor.advance := by
  conv_lhs => unfold specifiersUpTo
  rw [get_bind_run, if_neg (by simp [isWord]), meaning]
  rfl

/-- A word of a type is added to the specifiers, after which the type is known. -/
theorem specifiersUpTo_typeWord
    {context : Context}
    {seenType : Bool}
    {cursor : Cursor}
    {flags : Flags}
    (isWord : cursor.peek.isWord = true)
    (meaning : meaningAt context seenType cursor = .typeWord flags)
    (count : Nat)
    (read : Option Specifiers) :
    specifiersUpTo context (count + 1) seenType read cursor =
      specifiersUpTo context count true
        (Specifiers.add read false (.ofText cursor.peek.text flags)) cursor.advance := by
  conv_lhs => unfold specifiersUpTo
  rw [get_bind_run, if_neg (by simp [isWord]), meaning]
  rfl

/-- The first word of a type starts the specifiers of a parameter. -/
theorem specifiersUpTo_first
    (word : TypeWord)
    {cursor : Cursor}
    {tokens after : List Token}
    (faces : Faces cursor (.word word.text :: tokens) after)
    (count : Nat) :
    specifiersUpTo .parameter (count + 1) false none cursor =
      specifiersUpTo .parameter count true
        (some { spec := wordSpec word.text, isTypedef := false }) cursor.advance := by
  have isText : cursor.peek.text = word.text := faces.text
  have isKeyword := keywordMeaning?_typeWord word
  rw [← isText] at isKeyword ⊢
  exact specifiersUpTo_typeWord faces.isWord (meaningAt_keyword isKeyword _ _) count none

/-- A further word of a type is joined to the specifiers. -/
theorem specifiersUpTo_part
    (part : TypePart)
    {cursor : Cursor}
    {tokens after : List Token}
    (faces : Faces cursor (.word part.text :: tokens) after)
    (count : Nat)
    (spec : Spec) :
    specifiersUpTo .parameter (count + 1) true (some { spec, isTypedef := false }) cursor =
      specifiersUpTo .parameter count true
        (some { spec := spec.join (wordSpec part.text), isTypedef := false }) cursor.advance := by
  have isText : cursor.peek.text = part.text := faces.text
  cases part with
  | typeWord word =>
      have isKeyword := keywordMeaning?_typeWord word
      rw [TypePart.text] at isText ⊢
      rw [← isText] at isKeyword ⊢
      exact specifiersUpTo_typeWord faces.isWord (meaningAt_keyword isKeyword _ _) count _
  | qualifier word =>
      obtain ⟨isKeyword, isPlain⟩ := keywordMeaning?_qualifier word
      rw [TypePart.text] at isText ⊢
      rw [isPlain]
      rw [← isText] at isKeyword ⊢
      exact specifiersUpTo_modifier faces.isWord (meaningAt_keyword isKeyword _ _) count _

/-- All further words of a type are joined to the specifiers. -/
theorem specifiersUpTo_parts
    (parts : List TypePart)
    {cursor : Cursor}
    {tokens after : List Token}
    (faces : Faces cursor (parts.map (fun part => Token.word part.text) ++ tokens) after)
    (count : Nat)
    (spec : Spec) :
    specifiersUpTo .parameter (parts.length + count) true (some { spec, isTypedef := false })
        cursor =
      specifiersUpTo .parameter count true
        (some { spec := parts.foldl (fun spec part => spec.join (wordSpec part.text)) spec
                isTypedef := false })
        (cursor.advanceBy parts.length) := by
  induction parts generalizing cursor spec with
  | nil => rw [List.length_nil, Nat.zero_add]; rfl
  | cons part parts hypothesis =>
      rw [List.length_cons, Nat.succ_add, Nat.succ_eq_add_one, specifiersUpTo_part part faces,
        hypothesis faces.advance]
      rfl

/-- Whether specifiers with a type end at the cursor. -/
def EndsSpecifiers (cursor : Cursor) : Prop :=
  cursor.peek.isWord = false ∨ meaningAt .parameter true cursor = .stop

/-- The specifiers end where none can stand. -/
theorem specifiersUpTo_stop
    {cursor : Cursor}
    (ends : EndsSpecifiers cursor)
    (context : Context)
    (count : Nat)
    (read : Option Specifiers) :
    specifiersUpTo context (count + 1) true read cursor = .ok read cursor := by
  have sameMeaning : meaningAt context true cursor = meaningAt .parameter true cursor := rfl
  unfold specifiersUpTo
  rw [get_bind_run]
  by_cases isWord : cursor.peek.isWord = true
  · rcases ends with noWord | stops
    · rw [isWord] at noWord
      contradiction
    · rw [if_neg (by simp [isWord]), sameMeaning, stops]
      rfl
  · rw [if_pos (by simpa using isWord)]
    rfl

@[simp] theorem length_typeTokens (first : TypeWord) (parts : List TypePart) :
    (typeTokens first parts).length = parts.length + 1 := by
  simp [typeTokens]

/-- The specifier of a parameter is read up to where it ends. -/
theorem declarationSpecifiers_type
    (first : TypeWord)
    (parts : List TypePart)
    {cursor : Cursor}
    {tokens after : List Token}
    (faces : Faces cursor (typeTokens first parts ++ tokens) after)
    (ends : EndsSpecifiers (cursor.advanceBy (typeTokens first parts).length)) :
    declarationSpecifiers .parameter cursor =
      .ok (some { spec := typeSpec first parts, isTypedef := false })
        (cursor.advanceBy (typeTokens first parts).length) := by
  have typed : Faces cursor
      (.word first.text :: (parts.map (fun part => Token.word part.text) ++ tokens)) after := faces
  have length := faces.length
  rw [List.length_append, length_typeTokens] at length
  obtain ⟨fewer, steps⟩ : ∃ fewer, cursor.rest.length + 1 = parts.length + (fewer + 1) + 1 :=
    ⟨tokens.length + after.length, by omega⟩
  rw [length_typeTokens] at ends ⊢
  unfold declarationSpecifiers
  rw [get_bind_run, steps, specifiersUpTo_first first typed,
    specifiersUpTo_parts parts typed.advance]
  exact specifiersUpTo_stop ends .parameter fewer _

/-! ## Parameters -/

/-- The tokens of a parameter are read as its specifier and its declarator. -/
def ParameterTree.Reads (tree : ParameterTree session) : Prop :=
  ∀ {fuel : Nat} {cursor : Cursor} {after : List Token},
    Faces cursor tree.tokens after →
    FollowsParameter after →
    cursor.session.typedefs = session.typedefs →
    6 * cursor.rest.length + 5 ≤ fuel →
    ∃ spec shape,
      parameterParts fuel cursor =
        .ok (some spec, shape) (cursor.advanceBy tree.tokens.length) ∧
      tree.meaning = .ofParts spec (shape.getD .abstract)

/-- A parameter is read by its specifier and its declarator. -/
theorem parameterParts_type
    (first : TypeWord)
    (parts : List TypePart)
    {cursor after : Cursor}
    {tokens rest : List Token}
    (faces : Faces cursor (typeTokens first parts ++ tokens) rest)
    (ends : EndsSpecifiers (cursor.advanceBy (typeTokens first parts).length))
    {fuel : Nat}
    {shape : Option Declarator}
    (read : declarator fuel true (cursor.advanceBy (typeTokens first parts).length) =
      .ok shape after) :
    parameterParts (fuel + 1) cursor = .ok (some (typeSpec first parts), shape) after := by
  have noEllipsis : cursor.peek.hasText "..." = false := by
    have isText : cursor.peek.text = first.text := faces.text
    apply Token.hasText_of_text_ne
    rw [isText]
    intro ellipsis
    have isType := first.isTypeWord
    rw [ellipsis] at isType
    contradiction
  unfold parameterParts
  rw [accept_bind_run, noEllipsis, if_neg (by simp), Option.isSome_none, if_neg (by simp),
    bind_run_ok (declarationSpecifiers_type first parts faces ends), bind_run_ok read]
  rfl

/-- Where nothing stands before the end of a parameter, no direct declarator is read. -/
theorem directDeclarator_absent
    {cursor : Cursor}
    (follows : FollowsParameter cursor.rest)
    (fuel : Nat) :
    directDeclarator (fuel + 2) true cursor = .ok none cursor := by
  have noOpener : cursor.peek.hasText "(" = false := by
    obtain ⟨text, isText, stops⟩ := follows.follows.stops
    apply Token.hasText_of_text_ne
    rw [isText]
    rcases stops with rfl | rfl | rfl <;> decide
  unfold directDeclarator
  rw [get_bind_run, if_neg (by simp [follows.noWord]), if_neg (by simp [noOpener]), if_pos rfl]
  exact suffixes_stop follows.follows fuel none

/-- What follows a declarator starts no pointer operator. -/
theorem Follows.noPointer
    {cursor : Cursor}
    (follows : Follows cursor.rest) :
    cursor.peek.hasText "*" = false ∧ qualifiers.contains cursor.peek.text = false ∧
      attributes.contains cursor.peek.text = false := by
  obtain ⟨text, isText, stops⟩ := follows.stops
  refine ⟨Token.hasText_of_text_ne ?_, ?_, ?_⟩ <;> rw [isText] <;>
    rcases stops with rfl | rfl | rfl <;> decide

/-- A type alone is read as a parameter. -/
theorem ParameterTree.reads_unnamed
    (first : TypeWord)
    (parts : List TypePart) :
    (ParameterTree.unnamed first parts : ParameterTree session).Reads := by
  intro fuel cursor after faces follows sameTypedefs enough
  rw [ParameterTree.tokens, ← List.append_nil (typeTokens first parts)] at faces
  have stands : FollowsParameter (cursor.advanceBy (typeTokens first parts).length).rest := by
    have rest := faces.rest
    rw [List.append_nil] at rest
    rwa [rest]
  obtain ⟨left, rfl⟩ : ∃ left, fuel = left + 3 + 1 := ⟨fuel - 4, by omega⟩
  obtain ⟨noStar, -, -⟩ := stands.follows.noPointer
  have absent : declarator (left + 3) true (cursor.advanceBy (typeTokens first parts).length) =
      .ok none (cursor.advanceBy (typeTokens first parts).length) := by
    unfold declarator
    rw [bind_run_ok (pointer_absent noStar), bind_run_ok (directDeclarator_absent stands left)]
    rfl
  refine ⟨typeSpec first parts, none, ?_, ?_⟩
  · rw [ParameterTree.tokens]
    exact parameterParts_type first parts faces (.inl stands.noWord) absent
  · rw [ParameterTree.meaning, Option.getD_none]

/-- Specifiers end before a declarator. -/
theorem endsSpecifiers_of_tree
    (tree : DeclaratorTree session)
    {cursor : Cursor}
    {after : List Token}
    (faces : Faces cursor tree.tokens after)
    (follows : FollowsParameter after) :
    EndsSpecifiers cursor := by
  rcases tree.tokens_start with ⟨name, tail, starts, second⟩ | ⟨tail, starts⟩ | ⟨tail, starts⟩
  · right
    rw [starts] at faces
    have noWord : cursor.advance.peek.isWord = false := by
      cases tail with
      | nil =>
          have rest := faces.advance.rest
          apply FollowsParameter.noWord
          exact (show cursor.advance.rest = after from rest).symm ▸ follows
      | cons next tail =>
          rw [faces.advance.isWord]
          exact second next rfl
    have filled : cursor.advance.rest ≠ [] := by
      have positive := follows.follows.length_pos
      rw [← List.length_pos_iff, faces.advance.length]
      omega
    have isText : cursor.peek.text = name.text := faces.text
    have noKeyword := keywordMeaning?_eq_none name.notKeyword
    simp [meaningAt, isText, noKeyword, Cursor.peekNth_one faces.notEnd filled, noWord]
  · left
    rw [starts] at faces
    exact faces.isWord
  · left
    rw [starts] at faces
    exact faces.isWord

/-- A type with a declarator is read as a parameter if the declarator is. -/
theorem ParameterTree.reads_named
    (first : TypeWord)
    (parts : List TypePart)
    {tree : DeclaratorTree session}
    (reads : tree.Reads) :
    (ParameterTree.named first parts tree).Reads := by
  intro fuel cursor after faces follows sameTypedefs enough
  rw [ParameterTree.tokens] at faces
  have declared := faces.advanceBy
  have length := faces.length
  have declaredLength := declared.length
  rw [List.length_append, length_typeTokens] at length
  obtain ⟨left, rfl⟩ : ∃ left, fuel = left + 1 := ⟨fuel - 1, by omega⟩
  have read := @reads left true _ _ declared follows.follows
    ((cursor.typedefs_advanceBy _).trans sameTypedefs) (by omega)
  refine ⟨typeSpec first parts, some tree.meaning, ?_, ?_⟩
  · rw [ParameterTree.tokens, List.length_append, Cursor.advanceBy_add]
    exact parameterParts_type first parts faces (endsSpecifiers_of_tree tree declared follows) read
  · rw [ParameterTree.meaning, Option.getD_some]

/-- Pointer operators one after another are read as one text. -/
theorem pointerTail_operators
    (operators : List (List Qualifier))
    {cursor : Cursor}
    {tokens after : List Token}
    (faces : Faces cursor (operatorsTokens operators ++ tokens) after)
    (count : Nat)
    (text : String) :
    pointerTail ((operatorsTokens operators).length + count) text cursor =
      pointerTail count
        (operators.foldl (fun text operator => text ++ operatorText operator) text)
        (cursor.advanceBy (operatorsTokens operators).length) := by
  induction operators generalizing cursor text with
  | nil => exact congrArg (fun count => pointerTail count text cursor) (Nat.zero_add count)
  | cons operator operators hypothesis =>
      have whole : operatorsTokens (operator :: operators) =
          operatorTokens operator ++ operatorsTokens operators := rfl
      rw [whole, List.append_assoc] at faces
      rw [whole, List.length_append, Nat.add_assoc, pointerTail_operator operator faces,
        hypothesis faces.advanceBy, Cursor.advanceBy_add]
      rfl

/-- A type with pointer operators alone is read as a parameter. -/
theorem ParameterTree.reads_pointers
    (first : TypeWord)
    (parts : List TypePart)
    (operator : List Qualifier)
    (others : List (List Qualifier)) :
    (ParameterTree.pointers first parts operator others : ParameterTree session).Reads := by
  intro fuel cursor after faces follows sameTypedefs enough
  rw [ParameterTree.tokens] at faces
  have pointed : Faces (cursor.advanceBy (typeTokens first parts).length)
      (operatorsTokens (operator :: others) ++ []) after := by
    rw [List.append_nil]
    exact faces.advanceBy
  have length := pointed.length
  have positive := follows.follows.length_pos
  rw [List.append_nil] at length
  have stands : FollowsParameter ((cursor.advanceBy (typeTokens first parts).length).advanceBy
      (operatorsTokens (operator :: others)).length).rest := by
    have rest := pointed.rest
    rw [List.append_nil] at rest
    rwa [rest]
  obtain ⟨noStar, noQualifier, noAttribute⟩ := stands.follows.noPointer
  obtain ⟨more, isMore⟩ : ∃ more, after.length = more + 1 := ⟨after.length - 1, by omega⟩
  have tail : pointerTail (cursor.advanceBy (typeTokens first parts).length).rest.length ""
      (cursor.advanceBy (typeTokens first parts).length) =
        .ok (operatorsText (operator :: others))
          ((cursor.advanceBy (typeTokens first parts).length).advanceBy
            (operatorsTokens (operator :: others)).length) := by
    rw [length, pointerTail_operators _ pointed, isMore]
    exact pointerTail_stop noStar noQualifier noAttribute more _
  obtain ⟨left, rfl⟩ : ∃ left, fuel = left + 3 + 1 := ⟨fuel - 4, by omega⟩
  refine ⟨typeSpec first parts, some (pointersOnly (operator :: others)), ?_, ?_⟩
  · rw [ParameterTree.tokens, List.length_append, Cursor.advanceBy_add]
    refine parameterParts_type first parts faces (.inl pointed.isWord) ?_
    unfold declarator
    rw [bind_run_ok (pointer_of_tail pointed tail),
      bind_run_ok (directDeclarator_absent stands left)]
    rfl
  · rw [ParameterTree.meaning, Option.getD_some]

/-- The tokens of parameters are read through the parenthesis that closes their list. -/
def ParameterTrees.Reads (trees : ParameterTrees session) : Prop :=
  ∀ {fuel : Nat} {cursor : Cursor} {after : List Token} (read : List Parameter),
    Faces cursor (trees.tokens ++ [Token.mark ")"]) after →
    cursor.session.typedefs = session.typedefs →
    6 * cursor.rest.length + 6 ≤ fuel →
    parameters fuel none read cursor =
      .ok (read ++ trees.meaning) (cursor.advanceBy (trees.tokens.length + 1))

/-- A parameter without comments is made of its parts. -/
theorem newParameter_uncommented
    (session : Session)
    (spec : Option Spec)
    (shape : Option Declarator) :
    session.newParameter spec shape none none =
      (session, .ofParts (spec.getD (.untexted .junk)) (shape.getD .abstract)) := by
  unfold Session.newParameter
  cases shape.getD .abstract
  rfl

/-- The token taken last, after some tokens. -/
theorem Faces.previous
    {cursor : Cursor}
    {tokens after : List Token}
    {last : Token}
    (faces : Faces cursor (tokens ++ [last]) after) :
    ∃ token, (cursor.advanceBy (tokens.length + 1)).previous = some token ∧
      token.unplaced = last ∧ token.commentAfter = none := by
  have final := faces.advanceBy
  have bare := faces.bare last (by simp)
  refine ⟨_, ?_, final.peek, ?_⟩
  · rw [Cursor.advanceBy_add]
    exact Cursor.previous_advance final.notEnd
  · rw [← Token.commentAfter_unplaced, final.peek]
    exact bare.2.2

/-- Where no comments are, the end of a parameter has none. -/
theorem trailingComments_uncommented
    {cursor : Cursor}
    {tokens after : List Token}
    {stop : String}
    (faces : Faces cursor (tokens ++ [Token.mark stop]) after)
    (ends : EndsInNoComma tokens) :
    (cursor.advanceBy tokens.length).justTook "," = false ∧
      trailingComments "," (cursor.advanceBy tokens.length) =
        .ok [] (if stop = "," then cursor.advanceBy (tokens.length + 1)
          else cursor.advanceBy tokens.length) := by
  obtain ⟨front, last, rfl, noComma⟩ := ends
  obtain ⟨token, previous, isLast, noComment⟩ := faces.left.previous
  rw [List.length_append, List.length_singleton]
  have closing := faces.advanceBy
  rw [List.length_append, List.length_singleton] at closing
  have noTrailing : (cursor.advanceBy (front.length + 1)).trailingComment = none := by
    simp [Cursor.trailingComment, previous, noComment]
  have noBefore : (cursor.advanceBy (front.length + 1)).peek.commentBefore = none := by
    rw [← Token.commentBefore_unplaced, closing.peek]
    rfl
  have noAfter : (cursor.advanceBy (front.length + 1)).peek.commentAfter = none := by
    rw [← Token.commentAfter_unplaced, closing.peek]
    rfl
  refine ⟨?_, ?_⟩
  · simp only [Cursor.justTook, previous, Option.map_some, Option.getD_some]
    rw [← Token.hasText_unplaced, isLast, noComma]
  · rw [trailingComments_run, noTrailing, noBefore, noAfter, closing.hasText, hasText_mark]
    by_cases comma : stop = ","
    · rw [if_pos (by simpa using comma), if_pos comma, Cursor.advanceBy_add _ (front.length + 1)]
      rfl
    · rw [if_neg (by simpa using comma), if_neg comma]
      rfl

/-- What is done after the parts of a parameter, where no comments are. -/
theorem parameters_parts
    {fuel : Nat}
    {cursor : Cursor}
    {tokens after : List Token}
    {stop : String}
    {spec : Spec}
    {shape : Option Declarator}
    (faces : Faces cursor (tokens ++ [Token.mark stop]) after)
    (ends : EndsInNoComma tokens)
    (parts : parameterParts fuel cursor = .ok (some spec, shape)
      (cursor.advanceBy tokens.length))
    (read : List Parameter) :
    parameters (fuel + 1) none read cursor =
      (do
        if (← get).justTook "," then
          parameters fuel none (read ++ [ParameterOf.ofParts spec (shape.getD .abstract)])
        else
          discard (expect ")")
          return read ++ [ParameterOf.ofParts spec (shape.getD .abstract)] : Parse (List Parameter))
        (if stop = "," then cursor.advanceBy (tokens.length + 1)
          else cursor.advanceBy tokens.length) := by
  have noBefore : cursor.peek.commentBefore = none := by
    obtain ⟨first, others, whole⟩ := List.exists_cons_of_ne_nil
      (List.concat_ne_nil (Token.mark stop) tokens)
    rw [whole] at faces
    rw [← Token.commentBefore_unplaced, faces.peek]
    exact (faces.bare first List.mem_cons_self).2.1
  have commented : ∀ session : Session, session.commentLastParameterAll
      (read ++ [ParameterOf.ofParts spec (shape.getD .abstract)]) [] =
        (session, read ++ [ParameterOf.ofParts spec (shape.getD .abstract)]) := fun _ => rfl
  obtain ⟨-, trailing⟩ := trailingComments_uncommented faces ends
  conv_lhs => unfold parameters
  rw [peek_bind_run, noBefore]
  unfold itemComment
  dsimp only
  rw [bind_run_ok parts]
  dsimp only
  rw [bind_run_ok trailing]
  unfold commentParameters
  simp only [List.head?_nil, List.tail_nil, act_bind_run, newParameter_uncommented,
    Option.getD_some, commented]

/-- The last parameter ends the list at the closing parenthesis. -/
theorem parameters_close
    {fuel : Nat}
    {cursor : Cursor}
    {tokens after : List Token}
    {spec : Spec}
    {shape : Option Declarator}
    (faces : Faces cursor (tokens ++ [Token.mark ")"]) after)
    (ends : EndsInNoComma tokens)
    (parts : parameterParts fuel cursor = .ok (some spec, shape)
      (cursor.advanceBy tokens.length))
    (read : List Parameter) :
    parameters (fuel + 1) none read cursor =
      .ok (read ++ [ParameterOf.ofParts spec (shape.getD .abstract)])
        (cursor.advanceBy (tokens.length + 1)) := by
  obtain ⟨notJustTook, -⟩ := trailingComments_uncommented faces ends
  rw [parameters_parts faces ends parts, if_neg (by decide), get_bind_run, notJustTook,
    if_neg (by simp), discard_bind_run, bind_run_ok faces.advanceBy.expect, Cursor.advanceBy_add]
  rfl

/-- A parameter before a comma is added, and the list goes on. -/
theorem parameters_comma
    {fuel : Nat}
    {cursor : Cursor}
    {tokens after : List Token}
    {spec : Spec}
    {shape : Option Declarator}
    (faces : Faces cursor (tokens ++ [Token.mark ","]) after)
    (ends : EndsInNoComma tokens)
    (parts : parameterParts fuel cursor = .ok (some spec, shape)
      (cursor.advanceBy tokens.length))
    (read : List Parameter) :
    parameters (fuel + 1) none read cursor =
      parameters fuel none (read ++ [ParameterOf.ofParts spec (shape.getD .abstract)])
        (cursor.advanceBy (tokens.length + 1)) := by
  obtain ⟨token, previous, isComma, -⟩ := faces.previous
  have justTook : (cursor.advanceBy (tokens.length + 1)).justTook "," = true := by
    simp only [Cursor.justTook, previous, Option.map_some, Option.getD_some]
    rw [← Token.hasText_unplaced, isComma]
    rfl
  rw [parameters_parts faces ends parts, if_pos rfl, get_bind_run, justTook, if_pos rfl]

/-- Three dots are read as a list of parameters. -/
theorem ParameterTrees.reads_ellipsis :
    (ParameterTrees.ellipsis : ParameterTrees session).Reads := by
  intro fuel cursor after read faces sameTypedefs enough
  rw [ParameterTrees.tokens] at faces
  obtain ⟨left, rfl⟩ : ∃ left, fuel = left + 1 + 1 := ⟨fuel - 2, by omega⟩
  have ellipsis : cursor.peek.hasText "..." = true := faces.hasText "..."
  have parts : parameterParts (left + 1) cursor =
      .ok (some (.untexted .junk), some .ellipsis)
        (cursor.advanceBy [Token.mark "..."].length) := by
    unfold parameterParts
    rw [accept_bind_run, ellipsis, if_pos rfl]
    rfl
  rw [parameters_close faces ⟨[], _, rfl, by decide⟩ parts, ParameterTrees.tokens,
    ParameterTrees.meaning]
  rfl

/-- One parameter is read as a list if it is read at all. -/
theorem ParameterTrees.reads_last
    {parameter : ParameterTree session}
    (reads : parameter.Reads) :
    (ParameterTrees.last parameter).Reads := by
  intro fuel cursor after read faces sameTypedefs enough
  rw [ParameterTrees.tokens] at faces
  obtain ⟨left, rfl⟩ : ∃ left, fuel = left + 1 := ⟨fuel - 1, by omega⟩
  obtain ⟨spec, shape, parts, means⟩ :=
    @reads left _ _ faces.left (faces.followsParameter (.inr rfl)) sameTypedefs (by omega)
  rw [parameters_close faces parameter.tokens_end parts, ParameterTrees.tokens,
    ParameterTrees.meaning, means]

/-- A list with one more parameter in front is read if both are. -/
theorem ParameterTrees.reads_more
    {parameter : ParameterTree session}
    {rest : ParameterTrees session}
    (reads : parameter.Reads)
    (restReads : rest.Reads) :
    (ParameterTrees.more parameter rest).Reads := by
  intro fuel cursor after read faces sameTypedefs enough
  rw [ParameterTrees.tokens, List.append_assoc, List.cons_append] at faces
  obtain ⟨left, rfl⟩ : ∃ left, fuel = left + 1 := ⟨fuel - 1, by omega⟩
  obtain ⟨spec, shape, parts, means⟩ :=
    @reads left _ _ faces.left (faces.followsParameter (.inl rfl)) sameTypedefs (by omega)
  rw [List.append_cons] at faces
  have further := faces.advanceBy
  have length := faces.length
  have furtherLength := further.length
  rw [List.length_append, List.length_append, List.length_singleton] at length
  rw [List.length_append, List.length_singleton] at further furtherLength
  have readRest := @restReads left _ _ (read ++ [parameter.meaning]) further
    ((cursor.typedefs_advanceBy _).trans sameTypedefs) (by omega)
  have taken : cursor.advanceBy ((ParameterTrees.more parameter rest).tokens.length + 1) =
      (cursor.advanceBy (parameter.tokens.length + 1)).advanceBy (rest.tokens.length + 1) := by
    rw [← Cursor.advanceBy_add, ParameterTrees.tokens, List.length_append, List.length_cons]
    congr 1
    omega
  rw [parameters_comma faces.left parameter.tokens_end parts, ← means, readRest, taken,
    ParameterTrees.meaning, List.append_assoc]
  rfl

/-! ## Parameter lists -/

/-- An identifier list starts with no keyword. -/
theorem identifierListRun_of_head
    (session : Session)
    {token : Token}
    (other : token.isWord = false ∨ isKeyword token.text = true ∨
      session.isTypedefName token.text = true)
    (rest : List Token) :
    identifierListRun session (token :: rest) = false := by
  cases rest with
  | nil => rfl
  | cons separator rest =>
      unfold identifierListRun
      rcases other with noWord | isKeyword | isTypedef
      · rw [if_pos (by simp [noWord])]
      · rw [if_pos (by simp [isKeyword])]
      · rw [if_pos (by simp [isTypedef])]

/-- A parameter starts with a word of a type. -/
theorem ParameterTree.tokens_start (tree : ParameterTree session) :
    ∃ (first : TypeWord) (tail : List Token), tree.tokens = .word first.text :: tail := by
  cases tree with
  | unnamed first parts => exact ⟨first, _, by rw [ParameterTree.tokens]; rfl⟩
  | named first parts declarator => exact ⟨first, _, by rw [ParameterTree.tokens]; rfl⟩
  | pointers first parts operator others => exact ⟨first, _, by rw [ParameterTree.tokens]; rfl⟩

/-- The first token of parameters is no name and closes no list. -/
theorem ParameterTrees.tokens_start (trees : ParameterTrees session) :
    ∃ head tail, trees.tokens = head :: tail ∧
      (head.isWord = false ∨ isKeyword head.text = true) ∧ head.hasText ")" = false := by
  have typed (first : TypeWord) :
      ((Token.word first.text).isWord = false ∨ isKeyword (Token.word first.text).text = true) ∧
        (Token.word first.text).hasText ")" = false := by
    refine ⟨.inr (isKeyword_typeWord first), ?_⟩
    rw [hasText_word]
    refine beq_eq_false_iff_ne.2 ?_
    intro closer
    have isType := first.isTypeWord
    rw [closer] at isType
    contradiction
  cases trees with
  | ellipsis => exact ⟨_, _, by rw [ParameterTrees.tokens], .inl rfl, rfl⟩
  | last parameter =>
      obtain ⟨first, tail, starts⟩ := parameter.tokens_start
      exact ⟨_, tail, by rw [ParameterTrees.tokens, starts], typed first⟩
  | more parameter rest =>
      obtain ⟨first, tail, starts⟩ := parameter.tokens_start
      exact ⟨_, _, by rw [ParameterTrees.tokens, starts]; rfl, typed first⟩

/-- Parameters in parentheses are read as a parameter list. -/
theorem parameterList_of_trees
    {trees : ParameterTrees session}
    (reads : trees.Reads)
    {fuel : Nat}
    {cursor : Cursor}
    {after : List Token}
    (faces : Faces cursor (.mark "(" :: trees.tokens ++ [Token.mark ")"]) after)
    (sameTypedefs : cursor.session.typedefs = session.typedefs)
    (enough : 6 * cursor.rest.length + 1 ≤ fuel) :
    parameterList fuel cursor =
      .ok trees.meaning (cursor.advanceBy (trees.tokens.length + 2)) := by
  obtain ⟨left, rfl⟩ : ∃ left, fuel = left + 1 := ⟨fuel - 1, by omega⟩
  have opened : Faces cursor.advance (trees.tokens ++ [Token.mark ")"]) after := faces.advance
  have length := faces.length
  have openedLength := opened.length
  simp only [List.length_append, List.length_cons] at length openedLength
  have noComment : cursor.peek.commentAfter = none := by
    rw [← Token.commentAfter_unplaced, faces.peek]
    rfl
  obtain ⟨head, tail, starts, other, noCloser⟩ := trees.tokens_start
  have headed : Faces cursor.advance (head :: (tail ++ [Token.mark ")"])) after := by
    rw [starts] at opened
    exact opened
  have noList : identifierListRun cursor.advance.session cursor.advance.rest = false := by
    obtain ⟨placed, isPlaced, here⟩ := headed.placed
    obtain ⟨token, rest, rfl, isToken, -⟩ := List.map_eq_cons_iff.1 isPlaced
    rw [here, List.cons_append]
    apply identifierListRun_of_head
    rw [← isToken] at other
    rcases other with noWord | isKeyword
    · exact .inl noWord
    · exact .inr (.inl isKeyword)
  have read := @reads left cursor.advance after [] opened
    ((cursor.typedefs_advanceBy 1).trans sameTypedefs) (by omega)
  unfold parameterList
  rw [bind_run_ok faces.expect, accept_bind_run, headed.hasText, noCloser, if_neg (by simp),
    Option.isSome_none, if_neg (by simp), get_bind_run, noList, if_neg (by simp), noComment, read]
  rfl

/-- A function is read if its result and its parameters are. -/
theorem DirectTree.reads_functionOf
    {result : DirectTree session}
    {parameters : ParameterTrees session}
    (reads : result.Reads)
    (parametersRead : parameters.Reads) :
    (DirectTree.functionOf result parameters).Reads := by
  intro fuel abstractAllowed cursor after faces sameTypedefs enough
  rw [DirectTree.tokens, List.append_assoc] at faces
  obtain ⟨left, enoughLeft, read⟩ := reads faces.left sameTypedefs enough
  have list := faces.advanceBy
  have length := list.length
  simp only [List.length_append, List.length_cons, List.length_nil] at length
  obtain ⟨fewer, rfl⟩ : ∃ fewer, left = fewer + 1 := ⟨left - 1, by omega⟩
  have readList := parameterList_of_trees parametersRead list
    ((cursor.typedefs_advanceBy _).trans sameTypedefs) (show _ ≤ fewer by omega)
  refine ⟨fewer, by omega, ?_⟩
  have taken : cursor.advanceBy (DirectTree.functionOf result parameters).tokens.length =
      (cursor.advanceBy result.tokens.length).advanceBy (parameters.tokens.length + 2) := by
    rw [← Cursor.advanceBy_add, DirectTree.tokens, List.append_assoc, List.length_append]
    simp
  rw [read, suffixes_function list readList, DirectTree.meaning, taken]

/-! ## All trees -/

mutual

/-- Every declarator is read as it is built, by induction on its tree. -/
theorem DeclaratorTree.reads :
    (tree : DeclaratorTree session) → tree.Reads ∧ tree.ReadsAfterStar
  | .pointer operator target =>
    ⟨DeclaratorTree.reads_pointer target.reads.2 operator,
      DeclaratorTree.readsAfterStar_pointer target.reads.2 operator⟩
  | .direct declarator =>
    ⟨DeclaratorTree.reads_direct declarator.reads,
      DeclaratorTree.readsAfterStar_direct declarator.reads⟩

theorem DirectTree.reads : (tree : DirectTree session) → tree.Reads
  | .name declared => DirectTree.reads_name declared
  | .nested inner => DirectTree.reads_nested inner.reads.1
  | .array element extent => DirectTree.reads_array element.reads extent
  | .function result => DirectTree.reads_function result.reads
  | .functionOf result parameters => DirectTree.reads_functionOf result.reads parameters.reads

theorem ParameterTrees.reads : (trees : ParameterTrees session) → trees.Reads
  | .ellipsis => ParameterTrees.reads_ellipsis
  | .last parameter => ParameterTrees.reads_last parameter.reads
  | .more parameter rest => ParameterTrees.reads_more parameter.reads rest.reads

theorem ParameterTree.reads : (tree : ParameterTree session) → tree.Reads
  | .unnamed first parts => ParameterTree.reads_unnamed first parts
  | .named first parts declarator => ParameterTree.reads_named first parts declarator.reads.1
  | .pointers first parts operator others =>
    ParameterTree.reads_pointers first parts operator others

end

/-- A declarator is read as it was written: the tokens of every tree, wherever they
stand and followed by a semicolon, are taken up to the semicolon and read as the
declarator that the tree prescribes, and no diagnostic is recorded. -/
theorem declarator_of_tree
    {cursor : Cursor}
    (tree : DeclaratorTree cursor.session)
    {tokens after : List Token}
    {semicolon : Token}
    (written : tokens.map Token.unplaced = tree.tokens)
    (isSemicolon : semicolon.hasText ";" = true)
    (here : cursor.rest = tokens ++ semicolon :: after) :
    declarator cursor.fuel false cursor =
        .ok (some tree.meaning) (cursor.advanceBy tokens.length) ∧
      (cursor.advanceBy tokens.length).rest = semicolon :: after ∧
      (cursor.advanceBy tokens.length).session.diagnostics = cursor.session.diagnostics := by
  have faces : Faces cursor tree.tokens (semicolon :: after) :=
    ⟨tree.bare, tokens, written, here⟩
  have length : tokens.length = tree.tokens.length := by rw [← written, List.length_map]
  obtain ⟨source, moved⟩ := cursor.session_advanceBy tokens.length
  refine ⟨?_, ?_, by rw [moved]⟩
  · rw [length]
    refine tree.reads.1 faces ⟨semicolon, after, rfl, .inl isSemicolon⟩ rfl ?_
    unfold Cursor.fuel
    omega
  · rw [length]
    exact faces.rest

/-- The tree of `*(*table[2])(int count, char *, ...)`. -/
def tableTree : DeclaratorTree {} :=
  .pointer [] (.direct (.functionOf
    (.nested (.pointer [] (.direct (.array
      (.name ⟨"table", ⟨'t', _, rfl, rfl⟩, by decide, rfl⟩)
      ⟨[.plain .number "2"], .plain (by decide) (by decide) .nil⟩))))
    (.more (.named ⟨"int", by decide⟩ []
        (.direct (.name ⟨"count", ⟨'c', _, rfl, rfl⟩, by decide, rfl⟩)))
      (.more (.pointers ⟨"char", by decide⟩ [] [] []) .ellipsis))))

/-- An array of pointers to functions is read with its extent and its parameters. -/
theorem declarator_of_tree_table :
    tableTree.tokens.map (·.text) =
        ["*", "(", "*", "table", "[", "2", "]", ")", "(", "int", "count", ",", "char", "*", ",",
          "...", ")"] ∧
      ∃ start final : Cursor,
        start.rest = tableTree.tokens ++ [Token.mark ";"] ∧
        declarator start.fuel false start = .ok (some tableTree.meaning) final ∧
        final.rest = [.mark ";"] := by
  have read := @declarator_of_tree { session := {}, rest := tableTree.tokens ++ [Token.mark ";"] }
    tableTree tableTree.tokens [] (.mark ";") rfl rfl rfl
  exact ⟨rfl, _, _, rfl, read.1, read.2.1⟩

end Grammar
end DeclManual
