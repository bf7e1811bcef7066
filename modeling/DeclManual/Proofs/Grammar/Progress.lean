import DeclManual.Proofs.Grammar.Run
import Mathlib.Tactic.SplitIfs

/-!
# Reading moves on

Every step of reading leaves the cursor where it was or further on, and every turn
of a loop takes a token.  So no loop uses up the steps it is given.  Here this is
shown for what declarations are made of: skipped runs, specifiers and declarators.
-/

namespace DeclManual
namespace Grammar

open Source (Token)

variable {α β : Type}

/-! ## Input that ends once -/

/-- Tokens of which the last, and no other, ends the input.  The end has no text,
and a comma is never a word. -/
def EndsOnce (tokens : List Token) : Prop :=
  ∃ body last, tokens = body ++ [last] ∧ last.isEnd = true ∧ last.text = "" ∧
    ∀ token ∈ body, token.isEnd = false ∧ (token.isWord = true → token.text ≠ ",")

namespace EndsOnce

theorem ne_nil {tokens : List Token} (input : EndsOnce tokens) : tokens ≠ [] := by
  obtain ⟨body, last, rfl, -⟩ := input
  simp

/-- What is left after a token that does not end the input ends once. -/
theorem tail
    {token : Token}
    {rest : List Token}
    (input : EndsOnce (token :: rest))
    (notEnd : token.isEnd = false) :
    EndsOnce rest := by
  obtain ⟨body, last, whole, ended, empty, others⟩ := input
  cases body with
  | nil =>
      simp only [List.nil_append, List.cons.injEq] at whole
      rw [whole.1, ended] at notEnd
      contradiction
  | cons first body =>
      simp only [List.cons_append, List.cons.injEq] at whole
      exact ⟨body, last, whole.2, ended, empty,
        fun other member => others other (List.mem_cons_of_mem first member)⟩

/-- The token that ends the input is the last and has no text. -/
theorem of_isEnd
    {token : Token}
    {rest : List Token}
    (input : EndsOnce (token :: rest))
    (isEnd : token.isEnd = true) :
    rest = [] ∧ token.text = "" := by
  obtain ⟨body, last, whole, ended, empty, others⟩ := input
  cases body with
  | nil =>
      simp only [List.nil_append, List.cons.injEq] at whole
      exact ⟨whole.2, by rw [whole.1, empty]⟩
  | cons first body =>
      simp only [List.cons_append, List.cons.injEq] at whole
      have notEnd := (others first List.mem_cons_self).1
      rw [← whole.1, isEnd] at notEnd
      contradiction

/-- No word of the input is a comma. -/
theorem not_comma
    {tokens : List Token}
    (input : EndsOnce tokens)
    {token : Token}
    (member : token ∈ tokens)
    (word : token.isWord = true) :
    token.hasText "," = false := by
  obtain ⟨body, last, rfl, ended, -, others⟩ := input
  rcases List.mem_append.1 member with inBody | isLast
  · have different := (others token inBody).2 word
    simp [Token.hasText, different]
  · rw [List.mem_singleton.1 isLast, Token.hasText]
    simp only [Token.isEnd, beq_iff_eq] at ended
    simp [ended]

end EndsOnce

/-- The next token is the first that is left. -/
theorem Cursor.rest_eq_peek_cons
    {cursor : Cursor}
    (input : EndsOnce cursor.rest) :
    cursor.rest = cursor.peek :: cursor.rest.tail := by
  unfold Cursor.peek
  cases tokens : cursor.rest with
  | nil => exact absurd tokens input.ne_nil
  | cons token rest => rfl

/-- A text that is not empty is not that of the end. -/
theorem Cursor.peek_not_end_of_text
    {cursor : Cursor}
    (input : EndsOnce cursor.rest)
    (filled : cursor.peek.text ≠ "") :
    cursor.peek.isEnd = false := by
  rw [Cursor.rest_eq_peek_cons input] at input
  by_contra isEnd
  exact filled (input.of_isEnd (by simpa using isEnd)).2

/-- Taking a token keeps the end of the input. -/
theorem endsOnce_advance
    {cursor : Cursor}
    (input : EndsOnce cursor.rest) :
    EndsOnce cursor.advance.rest := by
  by_cases isEnd : cursor.peek.isEnd = true
  · rwa [Cursor.rest_advance_of_end isEnd]
  · have notEnd : cursor.peek.isEnd = false := by simpa using isEnd
    rw [Cursor.rest_advance notEnd]
    rw [Cursor.rest_eq_peek_cons input] at input
    exact input.tail notEnd

theorem Cursor.rest_advance_suffix (cursor : Cursor) :
    cursor.advance.rest <:+ cursor.rest := by
  by_cases isEnd : cursor.peek.isEnd = true
  · exact ⟨[], by rw [List.nil_append, Cursor.rest_advance_of_end isEnd]⟩
  · rw [Cursor.rest_advance (by simpa using isEnd)]
    exact List.tail_suffix _

/-- A token that does not end the input is taken off. -/
theorem Cursor.length_advance
    {cursor : Cursor}
    (input : EndsOnce cursor.rest)
    (notEnd : cursor.peek.isEnd = false) :
    cursor.advance.rest.length + 1 = cursor.rest.length := by
  rw [Cursor.rest_advance notEnd]
  conv_rhs => rw [Cursor.rest_eq_peek_cons input]
  rfl

/-! ## Where a reading lands -/

/-- Tokens that are left after a number of others have been taken. -/
structure Onward (base : List Token) (taken : Nat) (rest : List Token) : Prop where
  input : EndsOnce rest
  suffix : rest <:+ base
  length : rest.length + taken ≤ base.length

namespace Onward

theorem refl {tokens : List Token} (input : EndsOnce tokens) : Onward tokens 0 tokens :=
  ⟨input, List.suffix_rfl, Nat.le_refl _⟩

theorem weaken
    {base rest : List Token}
    {taken fewer : Nat}
    (onward : Onward base taken rest)
    (less : fewer ≤ taken) :
    Onward base fewer rest := by
  refine ⟨onward.input, onward.suffix, ?_⟩
  have length := onward.length
  omega

theorem trans
    {base middle rest : List Token}
    {first second : Nat}
    (left : Onward base first middle)
    (right : Onward middle second rest) :
    Onward base (first + second) rest := by
  refine ⟨right.input, right.suffix.trans left.suffix, ?_⟩
  have firstLength := left.length
  have secondLength := right.length
  omega

/-- Taking a token never leads back. -/
theorem advance
    {base : List Token}
    {taken : Nat}
    {cursor : Cursor}
    (onward : Onward base taken cursor.rest) :
    Onward base taken cursor.advance.rest := by
  refine ⟨endsOnce_advance onward.input, cursor.rest_advance_suffix.trans onward.suffix, ?_⟩
  have shorter := cursor.rest_advance_suffix.length_le
  have length := onward.length
  omega

/-- Taking a token that does not end the input leads on. -/
theorem advance_succ
    {base : List Token}
    {taken : Nat}
    {cursor : Cursor}
    (onward : Onward base taken cursor.rest)
    (notEnd : cursor.peek.isEnd = false) :
    Onward base (taken + 1) cursor.advance.rest := by
  refine ⟨endsOnce_advance onward.input, cursor.rest_advance_suffix.trans onward.suffix, ?_⟩
  have shorter := Cursor.length_advance onward.input notEnd
  have length := onward.length
  omega

theorem advanceBy
    {base : List Token}
    {taken : Nat}
    {cursor : Cursor}
    (onward : Onward base taken cursor.rest)
    (count : Nat) :
    Onward base taken (cursor.advanceBy count).rest := by
  induction count generalizing cursor with
  | zero => exact onward
  | succ count hypothesis => exact hypothesis onward.advance

end Onward

/-- A reading lands at or after some tokens.  If it succeeds it has taken at least a
given number of them; if it fails its error has been recorded. -/
def Lands
    (least : Nat)
    (base : List Token) :
    EStateM.Result SyntaxError Cursor α → Prop
  | .ok _ after => Onward base least after.rest
  | .error error after => error = .recorded ∧ Onward base 0 after.rest

namespace Lands

variable {base : List Token} {least taken : Nat} {cursor : Cursor}

theorem fail
    (here : Onward base taken cursor.rest)
    (expected : String) :
    Lands least base ((Grammar.fail expected : Parse α) cursor) :=
  ⟨rfl, here.weaken (Nat.zero_le _)⟩

/-- A reading that lands after a cursor lands after every earlier one. -/
theorem from_here
    {result : EStateM.Result SyntaxError Cursor α}
    {further : Nat}
    (here : Onward base taken cursor.rest)
    (lands : Lands further cursor.rest result)
    (enough : least ≤ taken + further) :
    Lands least base result := by
  cases result with
  | ok value after => exact (here.trans lands).weaken enough
  | error error after => exact ⟨lands.1, (here.trans lands.2).weaken (Nat.zero_le _)⟩

/-- One reading after another. -/
theorem bind
    {first : Parse α}
    {next : α → Parse β}
    {further : Nat}
    (here : Onward base taken cursor.rest)
    (lands : Lands further cursor.rest (first cursor))
    (continues : ∀ value after, first cursor = .ok value after →
      Onward base (taken + further) after.rest → Lands least base (next value after)) :
    Lands least base ((first >>= next) cursor) := by
  rw [bind_run]
  cases result : first cursor with
  | ok value after =>
      rw [result] at lands
      exact continues value after result (here.trans lands)
  | error error after =>
      rw [result] at lands
      exact ⟨lands.1, (here.trans lands.2).weaken (Nat.zero_le _)⟩

/-- A token that has to be there is taken. -/
theorem expect
    (input : EndsOnce cursor.rest)
    (text : String) :
    Lands 1 cursor.rest (Grammar.expect text cursor) := by
  rw [expect_run]
  split
  · rename_i matching
    exact (Onward.refl input).advance_succ (Token.not_isEnd_of_hasText matching)
  · exact ⟨rfl, Onward.refl input⟩

/-- What follows a token that may be there. -/
theorem accept_bind
    {text : String}
    {next : Option Token → Parse β}
    (here : Onward base taken cursor.rest)
    (present : Onward base (taken + 1) cursor.advance.rest →
      Lands least base (next (some cursor.peek) cursor.advance))
    (absent : Lands least base (next none cursor)) :
    Lands least base ((accept text >>= next) cursor) := by
  rw [accept_bind_run]
  split
  · rename_i matching
    exact present (here.advance_succ (Token.not_isEnd_of_hasText matching))
  · exact absent

end Lands

/-- A reading takes a token, or else it leaves the cursor alone and yields a given
value. -/
def TakesOr
    (value : α)
    (cursor : Cursor)
    (result : EStateM.Result SyntaxError Cursor α) : Prop :=
  Lands 1 cursor.rest result ∨ result = .ok value cursor

/-- What takes a token or leaves its value alone lands. -/
theorem TakesOr.lands
    {value : α}
    {cursor : Cursor}
    {result : EStateM.Result SyntaxError Cursor α}
    (takes : TakesOr value cursor result)
    (input : EndsOnce cursor.rest) :
    Lands 0 cursor.rest result := by
  rcases takes with lands | rfl
  · exact .from_here (.refl input) lands (Nat.zero_le _)
  · exact Onward.refl input

/-- A reading takes a token, or else nothing has to be there and it does nothing. -/
def TakesUnless
    (allowed : Bool)
    (cursor : Cursor)
    (result : EStateM.Result SyntaxError Cursor (Option α)) : Prop :=
  Lands 1 cursor.rest result ∨ allowed = true ∧ result = .ok none cursor

/-- What takes a token unless it may be absent lands. -/
theorem TakesUnless.lands
    {allowed : Bool}
    {cursor : Cursor}
    {result : EStateM.Result SyntaxError Cursor (Option α)}
    (takes : TakesUnless allowed cursor result)
    (input : EndsOnce cursor.rest) :
    Lands 0 cursor.rest result :=
  TakesOr.lands (takes.imp_right And.right) input

/-! ## Skipping -/

/-- The search for a closing bracket lands, whether or not it is found. -/
theorem skipUntilClose_lands
    (close : String)
    {cursor : Cursor}
    (input : EndsOnce cursor.rest) :
    Lands 0 cursor.rest (skipUntilClose close cursor) := by
  have here := (Onward.refl input).advanceBy (closingRun close 0 cursor.rest).1
  unfold skipUntilClose
  simp only [get_bind_run, skip_bind_run]
  split
  · exact here
  · exact .fail here _

/-- Skipping a bracketed run takes its opening bracket at least. -/
theorem skipBalanced_lands
    (opener close : String)
    {cursor : Cursor}
    (input : EndsOnce cursor.rest) :
    Lands 1 cursor.rest (skipBalanced opener close cursor) := by
  unfold skipBalanced
  rw [discard_bind_run]
  refine .bind (.refl input) (.expect input opener) ?_
  intro _ after _ here
  exact .from_here here (skipUntilClose_lands close here.input) (by omega)

/-- Skipping a group lands, also where there is none. -/
theorem skipGroup_lands
    (opener close : String)
    {cursor : Cursor}
    (input : EndsOnce cursor.rest) :
    Lands 0 cursor.rest (skipGroup opener close cursor) := by
  unfold skipGroup
  rw [sees_bind_run]
  split
  · exact .from_here (.refl input) (skipBalanced_lands opener close input) (Nat.zero_le _)
  · exact Onward.refl input

/-- Skipping an expression lands. -/
theorem skipExpression_lands
    (stops : List String)
    {cursor : Cursor}
    (input : EndsOnce cursor.rest) :
    Lands 0 cursor.rest (skipExpression stops cursor) := by
  have here := (Onward.refl input).advanceBy (expressionRun stops 0 cursor.rest).1
  unfold skipExpression
  simp only [get_bind_run, skip_bind_run]
  cases (expressionRun stops 0 cursor.rest).2 with
  | stop => exact here
  | unbalanced => exact .fail here _
  | endOfFile => exact .fail here _

/-- Skipping a value lands, also where there is none. -/
theorem skipValue_lands
    (stops : List String)
    {cursor : Cursor}
    (input : EndsOnce cursor.rest) :
    Lands 0 cursor.rest (skipValue stops cursor) := by
  refine .accept_bind (.refl input) ?_ (Onward.refl input)
  intro here
  exact .from_here here (skipExpression_lands stops here.input) (Nat.zero_le _)

/-- The text of the end introduces no attribute. -/
theorem peek_not_end_of_attribute
    {cursor : Cursor}
    (input : EndsOnce cursor.rest)
    (isAttribute : attributes.contains cursor.peek.text = true) :
    cursor.peek.isEnd = false := by
  apply Cursor.peek_not_end_of_text input
  intro empty
  rw [empty] at isAttribute
  contradiction

/-- Skipping attributes takes a token where one stands. -/
theorem skipAttributesUpTo_lands
    {count : Nat}
    {cursor : Cursor}
    (input : EndsOnce cursor.rest)
    (enough : cursor.rest.length ≤ count) :
    Lands (if attributes.contains cursor.peek.text then 1 else 0) cursor.rest
      (skipAttributesUpTo count cursor) := by
  induction count generalizing cursor with
  | zero =>
      have empty := List.length_eq_zero_iff.1 (Nat.le_zero.1 enough)
      exact absurd empty input.ne_nil
  | succ count hypothesis =>
      unfold skipAttributesUpTo
      rw [peek_bind_run]
      split
      · rename_i isAttribute
        have taken := (Onward.refl input).advance_succ
          (peek_not_end_of_attribute input isAttribute)
        have rest {after : Cursor} (here : Onward cursor.rest 1 after.rest) :
            Lands 1 cursor.rest (skipAttributesUpTo count after) := by
          have length := here.length
          exact .from_here here (hypothesis here.input (by omega)) (by omega)
        simp only [discard_bind_run, take_bind_run]
        refine .bind taken (skipGroup_lands _ _ taken.input) ?_
        intro _ after _ here
        exact rest here
      · exact Onward.refl input

/-- Skipping all attributes lands. -/
theorem skipAttributes_lands
    {cursor : Cursor}
    (input : EndsOnce cursor.rest) :
    Lands 0 cursor.rest (skipAttributes cursor) :=
  .from_here (.refl input) (skipAttributesUpTo_lands input (Nat.le_refl _)) (Nat.zero_le _)

/-- Attributes that are there are skipped. -/
theorem skipAttributes_lands_succ
    {cursor : Cursor}
    (input : EndsOnce cursor.rest)
    (isAttribute : attributes.contains cursor.peek.text = true) :
    Lands 1 cursor.rest (skipAttributes cursor) := by
  have lands := skipAttributesUpTo_lands input (Nat.le_refl _)
  rwa [if_pos isAttribute] at lands

/-- Skipping a statement lands, however it ends. -/
theorem skipStatementUpTo_lands
    {steps : Nat}
    {cursor : Cursor}
    (input : EndsOnce cursor.rest)
    (enough : cursor.rest.length ≤ steps) :
    Lands 0 cursor.rest (skipStatementUpTo steps cursor) := by
  induction steps generalizing cursor with
  | zero =>
      have empty := List.length_eq_zero_iff.1 (Nat.le_zero.1 enough)
      exact absurd empty input.ne_nil
  | succ steps hypothesis =>
      have rest {after : Cursor} (here : Onward cursor.rest 1 after.rest) :
          Lands 0 cursor.rest (skipStatementUpTo steps after) := by
        have length := here.length
        exact .from_here here (hypothesis here.input (by omega)) (by omega)
      unfold skipStatementUpTo
      simp only [peek_bind_run]
      split
      · exact Onward.refl input
      · rename_i notEnd
        rw [sees_bind_run]
        split
        · refine .bind (.refl input) (skipBalanced_lands _ _ input) ?_
          intro _ after _ here
          exact rest here
        · have taken := (Onward.refl input).advance_succ (by simpa using notEnd)
          rw [take_bind_run]
          split
          · exact taken.weaken (by omega)
          · exact rest taken

/-! ## Specifiers -/

/-- A tag is taken or absent. -/
theorem optionalTag_lands
    {cursor : Cursor}
    (input : EndsOnce cursor.rest) :
    Lands 0 cursor.rest (optionalTag cursor) := by
  unfold optionalTag
  rw [peek_bind_run]
  split
  · exact (Onward.refl input).advance
  · exact Onward.refl input

/-- The specifier of a structure lands, and takes no less than its keyword did. -/
theorem recordSpecifier_lands
    {least : Nat}
    {cursor : Cursor}
    (taken : Onward cursor.rest least cursor.advance.rest) :
    Lands least cursor.rest (recordSpecifier cursor) := by
  unfold recordSpecifier
  rw [take_bind_run]
  refine .bind taken (skipAttributes_lands taken.input) ?_
  intro _ attributed _ here
  refine .bind here (optionalTag_lands here.input) ?_
  intro tag tagged _ here
  refine .bind here (skipGroup_lands _ _ here.input) ?_
  intro _ closed _ here
  refine .bind here (skipAttributes_lands here.input) ?_
  intro _ after _ here
  exact here

/-- Reading comments around a separator lands. -/
theorem trailingComments_lands
    (separator : String)
    {cursor : Cursor}
    (input : EndsOnce cursor.rest) :
    Lands 0 cursor.rest (trailingComments separator cursor) := by
  refine .accept_bind (.refl input) ?_ (Onward.refl input)
  intro here
  exact here.weaken (Nat.zero_le _)

/-- Comments leave the tokens as they are. -/
theorem commentEnumerator_lands
    (list : Decl.ListId)
    (comments : List String)
    {cursor : Cursor}
    (input : EndsOnce cursor.rest) :
    Lands 0 cursor.rest (commentEnumerator list comments cursor) := by
  induction comments generalizing cursor with
  | nil => exact Onward.refl input
  | cons comment rest hypothesis =>
      rw [commentEnumerator_cons]
      rw [discard_bind_run, act_bind_run]
      exact hypothesis input

/-- Adding an enumerator lands. -/
theorem addEnumerator_lands
    (tag : Option String)
    (list : Option Decl.ListId)
    (enumerator : Decl.Enumerator)
    {cursor : Cursor}
    (input : EndsOnce cursor.rest) :
    Lands 0 cursor.rest (addEnumerator tag list enumerator cursor) := by
  rw [addEnumerator_eq]
  cases list <;> exact Onward.refl input

/-- The name of an enumerator is a token. -/
theorem enumeratorName_lands
    {cursor : Cursor}
    (input : EndsOnce cursor.rest) :
    Lands 1 cursor.rest (enumeratorName cursor) := by
  unfold enumeratorName
  rw [peek_bind_run]
  split
  · rename_i word
    exact (Onward.refl input).advance_succ (Token.not_isEnd_of_isWord word)
  · exact .fail (.refl input) _

/-- Enumerators are read on and on, each of them a token at least. -/
theorem enumerators_lands
    (tag : Option String)
    {count : Nat}
    (leading : Option String)
    (list : Option Decl.ListId)
    {cursor : Cursor}
    (input : EndsOnce cursor.rest)
    (enough : cursor.rest.length ≤ count) :
    Lands 0 cursor.rest (enumerators tag count leading list cursor) := by
  induction count generalizing leading list cursor with
  | zero =>
      have empty := List.length_eq_zero_iff.1 (Nat.le_zero.1 enough)
      exact absurd empty input.ne_nil
  | succ count hypothesis =>
      rw [enumerators_succ]
      rw [sees_bind_run]
      split
      · exact (Onward.refl input).advance
      · refine .bind (.refl input) (enumeratorName_lands input) ?_
        intro name named _ here
        refine .bind here (skipValue_lands _ here.input) ?_
        intro _ valued _ here
        refine .bind here (trailingComments_lands _ here.input) ?_
        intro comments commented _ here
        refine .bind here (addEnumerator_lands tag list _ here.input) ?_
        intro id added _ here
        refine .bind here (commentEnumerator_lands id _ here.input) ?_
        intro _ after _ here
        have length := here.length
        have again := fun leading => hypothesis leading (some id) here.input (by omega)
        rw [get_bind_run]
        split
        · exact .from_here here (again _) (Nat.zero_le _)
        · rw [sees_bind_run]
          split
          · exact .from_here here (again _) (Nat.zero_le _)
          · exact .fail here _

/-- An enumerator list takes its brace at least. -/
theorem enumeratorList_lands
    (tag : Option String)
    {cursor : Cursor}
    (input : EndsOnce cursor.rest) :
    Lands 1 cursor.rest (enumeratorList tag cursor) := by
  refine .bind (.refl input) (.expect input _) ?_
  intro opener after _ here
  rw [get_bind_run]
  exact .from_here here (enumerators_lands tag _ none here.input (by omega)) (by omega)

/-- The list of an enumeration may stand there or be known already. -/
theorem enumerationList_lands
    (tag : Option String)
    {cursor : Cursor}
    (input : EndsOnce cursor.rest) :
    Lands 0 cursor.rest (enumerationList tag cursor) := by
  unfold enumerationList
  rw [sees_bind_run]
  split
  · exact .from_here (.refl input) (enumeratorList_lands tag input) (Nat.zero_le _)
  · exact Onward.refl input

/-- The specifier of an enumeration lands, and takes no less than its keyword did. -/
theorem enumSpecifier_lands
    {least : Nat}
    {cursor : Cursor}
    (taken : Onward cursor.rest least cursor.advance.rest) :
    Lands least cursor.rest (enumSpecifier cursor) := by
  unfold enumSpecifier
  rw [take_bind_run]
  refine .bind taken (skipAttributes_lands taken.input) ?_
  intro _ attributed _ here
  refine .bind here (optionalTag_lands here.input) ?_
  intro tag tagged _ here
  refine .bind here (enumerationList_lands tag here.input) ?_
  intro list after _ here
  exact here

/-- Only a word that introduces an attribute is read as one. -/
theorem attributes_contains_of_keywordMeaning?
    {word : String}
    (meaning : keywordMeaning? word = some .attribute) :
    attributes.contains word = true := by
  revert meaning
  fun_cases keywordMeaning? word with
  | case12 =>
      intro _
      assumption
  | _ =>
      intro meaning
      cases meaning

/-- What is read as an attribute is an attribute. -/
theorem attributes_contains_of_meaningAt
    {context : Context}
    {seenType : Bool}
    {cursor : Cursor}
    (meaning : meaningAt context seenType cursor = .attribute) :
    attributes.contains cursor.peek.text = true := by
  unfold meaningAt at meaning
  dsimp only at meaning
  split at meaning
  · rename_i found
    rw [meaning] at found
    exact attributes_contains_of_keywordMeaning? found
  · split_ifs at meaning

/-- Specifiers take a token or leave those read before as they are. -/
theorem specifiersUpTo_takesOr
    (context : Context)
    {count : Nat}
    (seenType : Bool)
    (read : Option Specifiers)
    {cursor : Cursor}
    (input : EndsOnce cursor.rest)
    (enough : cursor.rest.length ≤ count) :
    TakesOr read cursor (specifiersUpTo context count seenType read cursor) := by
  induction count generalizing seenType read cursor with
  | zero =>
      have empty := List.length_eq_zero_iff.1 (Nat.le_zero.1 enough)
      exact absurd empty input.ne_nil
  | succ count hypothesis =>
      have again (seenType : Bool) (read : Option Specifiers) {after : Cursor}
          (here : Onward cursor.rest 1 after.rest) :
          Lands 1 cursor.rest (specifiersUpTo context count seenType read after) := by
        have length := here.length
        have lands := (hypothesis seenType read here.input (by omega)).lands here.input
        exact .from_here here lands (Nat.le_refl _)
      unfold specifiersUpTo
      rw [get_bind_run]
      split
      · exact .inr rfl
      · rename_i word
        have notEnd : cursor.peek.isEnd = false :=
          Token.not_isEnd_of_isWord (by simpa using word)
        have taken := (Onward.refl input).advance_succ notEnd
        cases meaning : meaningAt context seenType cursor with
        | typedefWord => exact .inl (again _ _ taken)
        | modifier flags => exact .inl (again _ _ taken)
        | typeWord flags => exact .inl (again _ _ taken)
        | extensionWord =>
            dsimp only
            rw [discard_bind_run]
            exact .inl (again _ _ taken)
        | «attribute» =>
            have isAttribute := attributes_contains_of_meaningAt meaning
            refine .inl (.bind (.refl input) (skipAttributes_lands_succ input isAttribute) ?_)
            intro _ after _ here
            exact again _ _ (here.weaken (by omega))
        | record =>
            refine .inl (.bind (.refl input) (recordSpecifier_lands taken) ?_)
            intro part after _ here
            exact again _ _ (here.weaken (by omega))
        | enumeration =>
            refine .inl (.bind (.refl input) (enumSpecifier_lands taken) ?_)
            intro part after _ here
            exact again _ _ (here.weaken (by omega))
        | typedefName => exact .inl (again _ _ taken)
        | stop => exact .inr rfl

/-- The specifiers of a declaration take a token or are absent. -/
theorem declarationSpecifiers_takesOr
    (context : Context)
    {cursor : Cursor}
    (input : EndsOnce cursor.rest) :
    TakesOr none cursor (declarationSpecifiers context cursor) := by
  unfold declarationSpecifiers
  rw [get_bind_run]
  exact specifiersUpTo_takesOr context false none input (by omega)

/-- The specifiers of a declaration land. -/
theorem declarationSpecifiers_lands
    (context : Context)
    {cursor : Cursor}
    (input : EndsOnce cursor.rest) :
    Lands 0 cursor.rest (declarationSpecifiers context cursor) :=
  (declarationSpecifiers_takesOr context input).lands input

/-! ## Declarators -/

/-- The text of the end is no qualifier. -/
theorem peek_not_end_of_qualifier
    {cursor : Cursor}
    (input : EndsOnce cursor.rest)
    (isQualifier : qualifiers.contains cursor.peek.text = true) :
    cursor.peek.isEnd = false := by
  apply Cursor.peek_not_end_of_text input
  intro empty
  rw [empty] at isQualifier
  contradiction

/-- The stars and qualifiers of a pointer operator land. -/
theorem pointerTail_lands
    {count : Nat}
    (text : String)
    {cursor : Cursor}
    (input : EndsOnce cursor.rest)
    (enough : cursor.rest.length ≤ count) :
    Lands 0 cursor.rest (pointerTail count text cursor) := by
  induction count generalizing text cursor with
  | zero =>
      have empty := List.length_eq_zero_iff.1 (Nat.le_zero.1 enough)
      exact absurd empty input.ne_nil
  | succ count hypothesis =>
      have again (text : String) {after : Cursor} (here : Onward cursor.rest 1 after.rest) :
          Lands 0 cursor.rest (pointerTail count text after) := by
        have length := here.length
        exact .from_here here (hypothesis text here.input (by omega)) (Nat.zero_le _)
      have start := Onward.refl input
      unfold pointerTail
      simp only [peek_bind_run, sees_bind_run]
      split
      · rename_i star
        rw [discard_bind_run]
        exact again _ (start.advance_succ (Token.not_isEnd_of_hasText star))
      split
      · rename_i isQualifier
        rw [discard_bind_run]
        exact again _ (start.advance_succ (peek_not_end_of_qualifier input isQualifier))
      split
      · rename_i isAttribute
        refine .bind start (skipAttributes_lands_succ input isAttribute) ?_
        intro _ after _ here
        exact again _ (here.weaken (by omega))
      · exact start

/-- A pointer operator takes a token or is absent. -/
theorem pointer_takesOr
    {cursor : Cursor}
    (input : EndsOnce cursor.rest) :
    TakesOr none cursor (pointer cursor) := by
  unfold pointer
  rw [accept_bind_run]
  split
  · rename_i star
    have taken := (Onward.refl input).advance_succ (Token.not_isEnd_of_hasText star)
    rw [Option.isSome_some, if_pos rfl, get_bind_run]
    refine .inl (.bind taken (pointerTail_lands "*" taken.input (Nat.le_refl _)) ?_)
    intro text after _ here
    exact here
  · exact .inr rfl

/-- The text of brackets takes the opening bracket at least. -/
theorem bracketText_lands
    {cursor : Cursor}
    (input : EndsOnce cursor.rest) :
    Lands 1 cursor.rest (bracketText cursor) := by
  unfold bracketText
  rw [get_bind_run]
  refine .bind (.refl input) (skipBalanced_lands "[" "]" input) ?_
  intro _ after _ here
  exact here

/-! An identifier list is read only where its lookahead succeeds, which depends on
the typedef names alone. -/

/-- Comments for parameters define no type name. -/
theorem typedefs_commentLastParameterAll
    (session : Session)
    (parameters : List Decl.Parameter)
    (comments : List String) :
    (session.commentLastParameterAll parameters comments).1.typedefs = session.typedefs := by
  induction comments generalizing session parameters with
  | nil => rfl
  | cons comment rest hypothesis =>
      unfold Session.commentLastParameterAll
      rw [hypothesis]
      unfold Session.commentLastParameter
      split
      · rfl
      · split <;> rfl

/-- A new parameter defines no type name. -/
theorem typedefs_newParameter
    (session : Session)
    (spec : Option Decl.Spec)
    (declarator : Option Decl.Declarator)
    (before after : Option String) :
    (session.newParameter spec declarator before after).1.typedefs = session.typedefs := by
  unfold Session.newParameter
  dsimp only
  split <;> rfl

/-- Whether names form an identifier list depends on the type names of a session alone. -/
theorem identifierListRun_congr
    {first second : Session}
    (same : first.typedefs = second.typedefs)
    (tokens : List Token) :
    identifierListRun first tokens = identifierListRun second tokens := by
  fun_induction identifierListRun first tokens <;>
    simp_all [identifierListRun, Session.isTypedefName]

/-- The lookahead of an identifier list sees a word, and after it a comma before a
further list or a parenthesis. -/
theorem identifierListRun_cases
    {session : Session}
    {tokens : List Token}
    (run : identifierListRun session tokens = true) :
    ∃ name separator rest, tokens = name :: separator :: rest ∧ name.isWord = true ∧
      (separator.hasText "," = true ∧ identifierListRun session rest = true ∨
        separator.hasText "," = false ∧ separator.hasText ")" = true) := by
  fun_cases identifierListRun session tokens <;> simp_all [identifierListRun]

theorem Cursor.justTook_of_previous
    {cursor : Cursor}
    {token : Token}
    (taken : cursor.previous = some token)
    (text : String) :
    cursor.justTook text = token.hasText text := by
  simp [Cursor.justTook, taken]

/-- An identifier list lands if it has been seen to be one. -/
theorem identifierList_lands
    {count : Nat}
    (leading : Option String)
    (parameters : List Decl.Parameter)
    {cursor : Cursor}
    (input : EndsOnce cursor.rest)
    (run : identifierListRun cursor.session cursor.rest = true)
    (enough : cursor.rest.length ≤ count) :
    Lands 0 cursor.rest (identifierList count leading parameters cursor) := by
  induction count generalizing leading parameters cursor with
  | zero =>
      have empty := List.length_eq_zero_iff.1 (Nat.le_zero.1 enough)
      exact absurd empty input.ne_nil
  | succ count hypothesis =>
      obtain ⟨name, separator, rest, tokens, word, next⟩ := identifierListRun_cases run
      have isName := Cursor.peek_eq_head tokens
      have notEnd : cursor.peek.isEnd = false := by
        rw [isName]
        exact Token.not_isEnd_of_isWord word
      have taken := (Onward.refl input).advance_succ notEnd
      have left : cursor.advance.rest = separator :: rest := by
        rw [Cursor.rest_advance notEnd, tokens]
        rfl
      have isSeparator := Cursor.peek_eq_head left
      have member : name ∈ cursor.rest := by simp [tokens]
      unfold identifierList
      rw [take_bind_run]
      cases itemComment cursor.peek.commentBefore leading with
      | mk before leading =>
        dsimp only
        rw [bind_run, trailingComments_run, isSeparator]
        rcases next with ⟨comma, further⟩ | ⟨noComma, -⟩
        · have separatorNotEnd : cursor.advance.peek.isEnd = false := by
            rw [isSeparator]
            exact Token.not_isEnd_of_hasText comma
          have here := taken.advance_succ separatorNotEnd
          have length := here.length
          have further : identifierListRun cursor.session cursor.advance.advance.rest = true := by
            rwa [Cursor.rest_advance separatorNotEnd, left]
          have justTook : cursor.advance.advance.justTook "," = true := by
            rw [Cursor.justTook_of_previous (Cursor.previous_advance separatorNotEnd),
              isSeparator, comma]
          rw [if_pos comma]
          unfold commentParameters
          simp only [act_bind_run, get_bind_run]
          rw [if_pos (by exact justTook)]
          refine .from_here here (hypothesis _ _ here.input ?_ (by simp only; omega))
            (Nat.zero_le _)
          rw [← further]
          apply identifierListRun_congr
          simp only [typedefs_commentLastParameterAll, Session.identifierParameter,
            typedefs_newParameter, Cursor.session_advance, Cursor.sync]
        · have notJustTook : ¬ cursor.advance.justTook "," = true := by
            rw [Cursor.justTook_of_previous (Cursor.previous_advance notEnd), isName,
              input.not_comma member word]
            exact Bool.false_ne_true
          rw [if_neg (by simp [noComma])]
          unfold commentParameters
          simp only [act_bind_run, get_bind_run]
          rw [if_neg (by exact notJustTook), discard_bind_run]
          refine .bind taken (.expect (by exact taken.input) _) ?_
          intro _ after _ here
          exact here.weaken (Nat.zero_le _)

/-- What the functions that read declarators do with enough fuel: they land, and
they take a token unless nothing has to be there. -/
structure DeclaratorsLand (fuel : Nat) : Prop where
  declarator :
    ∀ {cursor : Cursor} (abstractAllowed : Bool), EndsOnce cursor.rest →
      6 * cursor.rest.length + 4 ≤ fuel →
      TakesUnless abstractAllowed cursor (declarator fuel abstractAllowed cursor)
  directDeclarator :
    ∀ {cursor : Cursor} (abstractAllowed : Bool), EndsOnce cursor.rest →
      6 * cursor.rest.length + 3 ≤ fuel →
      TakesUnless abstractAllowed cursor (directDeclarator fuel abstractAllowed cursor)
  suffixes :
    ∀ {cursor : Cursor} (base : Option Decl.Declarator), EndsOnce cursor.rest →
      6 * cursor.rest.length + 2 ≤ fuel →
      TakesOr base cursor (suffixes fuel base cursor)
  parameterList :
    ∀ {cursor : Cursor}, EndsOnce cursor.rest →
      6 * cursor.rest.length + 1 ≤ fuel →
      Lands 1 cursor.rest (parameterList fuel cursor)
  parameters :
    ∀ {cursor : Cursor} (leading : Option String) (read : List Decl.Parameter),
      EndsOnce cursor.rest → 6 * cursor.rest.length + 6 ≤ fuel →
      Lands 1 cursor.rest (parameters fuel leading read cursor)
  parameterParts :
    ∀ {cursor : Cursor}, EndsOnce cursor.rest →
      6 * cursor.rest.length + 5 ≤ fuel →
      Lands 1 cursor.rest (parameterParts fuel cursor)

namespace DeclaratorsLand

variable {fuel : Nat} {cursor : Cursor}

/-- One more step of fuel lets a declarator take a token or be absent. -/
theorem declarator_succ
    (land : DeclaratorsLand fuel)
    (abstractAllowed : Bool)
    (input : EndsOnce cursor.rest)
    (enough : 6 * cursor.rest.length + 4 ≤ fuel + 1) :
    TakesUnless abstractAllowed cursor
      (Grammar.declarator (fuel + 1) abstractAllowed cursor) := by
  unfold Grammar.declarator
  rcases pointer_takesOr input with lands | absent
  · refine .inl (.bind (.refl input) lands ?_)
    intro operator pointed _ here
    have length := here.length
    refine .bind here ((land.directDeclarator abstractAllowed here.input (by omega)).lands
      here.input) ?_
    intro shape after _ here
    exact here
  · rw [bind_run_ok absent]
    rcases land.directDeclarator abstractAllowed input (by omega) with lands | ⟨allowed, nothing⟩
    · refine .inl (.bind (.refl input) lands ?_)
      intro shape after _ here
      exact here
    · rw [bind_run_ok nothing]
      exact .inr ⟨allowed, rfl⟩

/-- The suffixes after at least one token. -/
theorem suffixes_lands
    {base : List Token}
    {taken : Nat}
    (land : DeclaratorsLand fuel)
    (shape : Option Decl.Declarator)
    (here : Onward base (taken + 1) cursor.rest)
    (enough : 6 * base.length ≤ fuel + 4) :
    Lands 1 base (Grammar.suffixes fuel shape cursor) := by
  have length := here.length
  exact .from_here here ((land.suffixes shape here.input (by omega)).lands here.input) (by omega)

/-- One more step of fuel lets a direct declarator take a token or be absent. -/
theorem directDeclarator_succ
    (land : DeclaratorsLand fuel)
    (abstractAllowed : Bool)
    (input : EndsOnce cursor.rest)
    (enough : 6 * cursor.rest.length + 3 ≤ fuel + 1) :
    TakesUnless abstractAllowed cursor
      (Grammar.directDeclarator (fuel + 1) abstractAllowed cursor) := by
  have start := Onward.refl input
  unfold Grammar.directDeclarator
  rw [get_bind_run]
  split
  · rename_i name
    simp only [Bool.and_eq_true] at name
    have taken := start.advance_succ (Token.not_isEnd_of_isWord name.1)
    rw [take_bind_run]
    exact .inl (land.suffixes_lands _ taken (by omega))
  split
  · rename_i opener
    simp only [Bool.and_eq_true] at opener
    have taken := start.advance_succ (Token.not_isEnd_of_hasText opener.1)
    have length := taken.length
    rw [discard_bind_run, take_bind_run]
    refine .inl (.bind taken ((land.declarator abstractAllowed taken.input (by omega)).lands
      taken.input) ?_)
    intro inner nested _ here
    rw [discard_bind_run]
    refine .bind here (.expect here.input _) ?_
    intro _ after _ here
    exact land.suffixes_lands _ here (by omega)
  split
  · rename_i allowed
    rcases land.suffixes none input (by omega) with lands | nothing
    · exact .inl lands
    · exact .inr ⟨allowed, nothing⟩
  · exact .inl (.fail start _)

/-- One more step of fuel lets suffixes take a token or leave the declarator as it is. -/
theorem suffixes_succ
    (land : DeclaratorsLand fuel)
    (base : Option Decl.Declarator)
    (input : EndsOnce cursor.rest)
    (enough : 6 * cursor.rest.length + 2 ≤ fuel + 1) :
    TakesOr base cursor (Grammar.suffixes (fuel + 1) base cursor) := by
  have start := Onward.refl input
  unfold Grammar.suffixes
  rw [sees_bind_run]
  split
  · refine .inl (.bind start (bracketText_lands input) ?_)
    intro suffix after _ here
    exact land.suffixes_lands _ here (by omega)
  rw [sees_bind_run]
  split
  · refine .inl (.bind start (land.parameterList input (by omega)) ?_)
    intro parameters after _ here
    exact land.suffixes_lands _ here (by omega)
  rw [peek_bind_run]
  split
  · rename_i isAttribute
    refine .inl (.bind start (skipAttributes_lands_succ input isAttribute) ?_)
    intro _ after _ here
    exact land.suffixes_lands _ here (by omega)
  · exact .inr rfl

/-- One more step of fuel lets a parameter list take its parenthesis. -/
theorem parameterList_succ
    (land : DeclaratorsLand fuel)
    (input : EndsOnce cursor.rest)
    (enough : 6 * cursor.rest.length + 1 ≤ fuel + 1) :
    Lands 1 cursor.rest (Grammar.parameterList (fuel + 1) cursor) := by
  unfold Grammar.parameterList
  refine .bind (.refl input) (.expect input _) ?_
  intro opener opened _ here
  have length := here.length
  refine .accept_bind here ?_ ?_
  · intro closed
    exact closed.weaken (by omega)
  · rw [Option.isSome_none, if_neg (by simp), get_bind_run]
    split
    · rename_i run
      exact .from_here here (identifierList_lands _ _ here.input run (Nat.le_refl _)) (by omega)
    · exact .from_here here (land.parameters _ _ here.input (by omega)) (by omega)

/-- One more step of fuel lets the parts of a parameter take a token. -/
theorem parameterParts_succ
    (land : DeclaratorsLand fuel)
    (input : EndsOnce cursor.rest)
    (enough : 6 * cursor.rest.length + 5 ≤ fuel + 1) :
    Lands 1 cursor.rest (Grammar.parameterParts (fuel + 1) cursor) := by
  unfold Grammar.parameterParts
  refine .accept_bind (.refl input) ?_ ?_
  · intro taken
    exact taken
  rw [Option.isSome_none, if_neg (by simp)]
  have parts (specifiers : Option Specifiers) (shape : Option Decl.Declarator) {after : Cursor}
      (here : Onward cursor.rest 1 after.rest) :
      Lands 1 cursor.rest
        ((if specifiers.isNone && shape.isNone then fail "expected parameter"
          else return (specifiers.map (·.spec), shape) :
          Parse (Option Decl.Spec × Option Decl.Declarator)) after) := by
    split
    · exact .fail here _
    · exact here
  rcases declarationSpecifiers_takesOr .parameter input with lands | absent
  · refine .bind (.refl input) lands ?_
    intro specifiers specified _ here
    have length := here.length
    refine .bind here ((land.declarator true here.input (by omega)).lands here.input) ?_
    intro shape after _ here
    exact parts specifiers shape (here.weaken (by omega))
  · rw [bind_run_ok absent]
    rcases land.declarator true input (by omega) with lands | ⟨-, nothing⟩
    · refine .bind (.refl input) lands ?_
      intro shape after _ here
      exact parts none shape here
    · rw [bind_run_ok nothing]
      exact .fail (.refl input) _

/-- One more step of fuel lets parameters take a token. -/
theorem parameters_succ
    (land : DeclaratorsLand fuel)
    (leading : Option String)
    (read : List Decl.Parameter)
    (input : EndsOnce cursor.rest)
    (enough : 6 * cursor.rest.length + 6 ≤ fuel + 1) :
    Lands 1 cursor.rest (Grammar.parameters (fuel + 1) leading read cursor) := by
  unfold Grammar.parameters
  rw [peek_bind_run]
  cases itemComment cursor.peek.commentBefore leading with
  | mk before leading =>
    refine .bind (.refl input) (land.parameterParts input (by omega)) ?_
    intro parts shaped _ here
    refine .bind here (trailingComments_lands _ here.input) ?_
    intro comments commented _ here
    have length := here.length
    unfold commentParameters
    simp only [act_bind_run, get_bind_run]
    split
    · exact .from_here here (land.parameters _ _ (by exact here.input) (by simp only; omega))
        (by omega)
    · rw [discard_bind_run]
      refine .bind here (.expect (by exact here.input) _) ?_
      intro _ after _ here
      exact here.weaken (by omega)

/-- The functions that read declarators land with every fuel that is enough. -/
theorem all (fuel : Nat) : DeclaratorsLand fuel := by
  induction fuel with
  | zero =>
      constructor <;> intros <;> exfalso <;> omega
  | succ fuel hypothesis =>
      exact {
        declarator := hypothesis.declarator_succ
        directDeclarator := hypothesis.directDeclarator_succ
        suffixes := hypothesis.suffixes_succ
        parameterList := hypothesis.parameterList_succ
        parameters := hypothesis.parameters_succ
        parameterParts := hypothesis.parameterParts_succ
      }

end DeclaratorsLand

/-- A declarator that has to be there takes a token. -/
theorem requiredDeclarator_lands
    {cursor : Cursor}
    (input : EndsOnce cursor.rest) :
    Lands 1 cursor.rest (requiredDeclarator cursor) := by
  unfold requiredDeclarator
  rw [get_bind_run]
  have lands : Lands 1 cursor.rest (declarator cursor.fuel false cursor) := by
    rcases (DeclaratorsLand.all cursor.fuel).declarator false input
      (by unfold Cursor.fuel; omega) with lands | ⟨allowed, -⟩
    · exact lands
    · contradiction
  refine .bind (.refl input) lands ?_
  intro shape after _ here
  cases shape with
  | none => exact .fail here _
  | some shape => exact here

end Grammar
end DeclManual
