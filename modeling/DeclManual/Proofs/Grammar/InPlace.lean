import DeclManual.Proofs.Grammar.DeclaratorReading
import DeclManual.Proofs.Grammar.Progress

/-!
# Reading on its own and in place

What is read on its own, up to the end of the input, is read in the same way where
something else follows, and wherever the tokens are placed.  Two readings are
compared step by step: one of some tokens alone, and one of the same tokens in
front of others.  As long as the first succeeds, the second takes the same tokens,
yields the same value and does the same to the session.
-/

namespace DeclManual

/-- The state of the source, whatever the current position is. -/
def SourceState.unplaced (source : SourceState) : SourceState :=
  { source with line := 0, inBaseFile := false, currentFile := none }

namespace Grammar

open Decl
open Source (Token)

variable {α β : Type}

/-- The last of tokens that end once is the end. -/
theorem EndsOnce.last_isEnd
    {tokens : List Token}
    {ending : Token}
    (input : EndsOnce (tokens ++ [ending])) :
    ending.isEnd = true := by
  obtain ⟨body, last, whole, ended, -⟩ := input
  obtain ⟨-, sameLast⟩ := List.append_inj' whole rfl
  rw [(List.cons.inj sameLast).1]
  exact ended

/-- At the end of the input nothing else is left. -/
theorem Cursor.rest_of_end
    {cursor : Cursor}
    (input : EndsOnce cursor.rest)
    (ended : cursor.peek.isEnd = true) :
    cursor.rest = [cursor.peek] := by
  have tokens := Cursor.rest_eq_peek_cons input
  rw [tokens] at input
  rw [tokens, (input.of_isEnd ended).1]

/-! ## Two cursors -/

/-- Where tokens that are read on their own stand: how many they are, what follows
them, and the diagnostics recorded before them, alone and in place. -/
structure Place where
  size : Nat
  tail : List Token
  alone : List Diagnostic
  inPlace : List Diagnostic

/-- Words are spelled like words. -/
def WordsSpelled (tokens : List Token) : Prop :=
  ∀ token ∈ tokens, token.isWord = true →
    ∃ c rest, token.text.toList = c :: rest ∧ Source.startsWord c = true

namespace Place

/-- What follows is no word, and part of no specifier. -/
structure Closed (place : Place) : Prop where
  tail : ∃ stop rest, place.tail = stop :: rest ∧ stop.isEnd = false ∧ stop.isWord = false ∧
    (stop.text = ";" ∨ stop.text = "," ∨ stop.text = ")" ∨
      stop.text = "(" ∧ ∃ next more, rest = next :: more ∧ next.hasText "*" = false)

/-- Two sessions that differ in the current position and in what was recorded before
the tokens. -/
def SameSession (place : Place) (alone placed : Session) : Prop :=
  ∃ source recorded others,
    placed = { alone with source, diagnostics := place.inPlace ++ others } ∧
    alone.diagnostics = place.alone ++ recorded ∧
    others.length = recorded.length ∧
    source.unplaced = alone.source.unplaced

end Place

/-- Two cursors that stand before the same number of the same tokens, after which one
ends and the other goes on. -/
structure Beside (place : Place) (left : Nat) (alone placed : Cursor) : Prop where
  rest : ∃ tokens others ending,
    alone.rest = tokens ++ [ending] ∧ placed.rest = others ++ place.tail ∧
    tokens.map Token.unplaced = others.map Token.unplaced ∧ tokens.length = left ∧
    ∀ token ∈ tokens.getLast?, attributes.contains token.text = false
  within : left ≤ place.size
  input : EndsOnce alone.rest
  spelled : WordsSpelled alone.rest
  /-- The token taken last is the same unless it stands before all of them. -/
  previous : left < place.size →
    alone.previous.map Token.unplaced = placed.previous.map Token.unplaced
  session : place.SameSession alone.session placed.session

namespace Place.SameSession

variable {place : Place} {alone placed : Session}

theorem typedefs (same : place.SameSession alone placed) :
    alone.typedefs = placed.typedefs := by
  obtain ⟨source, recorded, others, rfl, -⟩ := same
  rfl

theorem sync
    {first second : Cursor}
    (same : place.SameSession first.session second.session)
    (token other : Token) :
    place.SameSession (first.sync token).session (second.sync other).session := by
  obtain ⟨source, recorded, others, isSecond, isRecorded, length, isSource⟩ := same
  refine ⟨(second.sync other).session.source, recorded, others, ?_, isRecorded, length, ?_⟩
  · simp only [Cursor.sync, isSecond]
  · simp only [Cursor.sync, isSecond]
    simp only [SourceState.unplaced, SourceState.mk.injEq] at isSource ⊢
    exact isSource

theorem error
    (same : place.SameSession alone placed)
    (message : String) :
    place.SameSession (alone.error message) (placed.error message) := by
  obtain ⟨source, recorded, others, rfl, isRecorded, length, isSource⟩ := same
  let found : Diagnostic := { file := alone.source.currentFile, line := alone.source.line, message }
  let foundInPlace : Diagnostic := { file := source.currentFile, line := source.line, message }
  refine ⟨source, recorded ++ [found], others ++ [foundInPlace], ?_, ?_, ?_, isSource⟩
  · simp only [Session.error, List.append_assoc, foundInPlace]
  · simp only [Session.error, isRecorded, List.append_assoc, found]
  · simp only [List.length_append, List.length_singleton, length]

theorem report
    (same : place.SameSession alone placed)
    (conflict : Conflict) :
    place.SameSession (alone.report conflict) (placed.report conflict) :=
  same.error conflict.message

end Place.SameSession

/-- An action that does the same to sessions that differ in their position. -/
def Place.Steady (place : Place) (action : Session → Session × α) : Prop :=
  ∀ {alone placed : Session}, place.SameSession alone placed →
    (action alone).2 = (action placed).2 ∧ place.SameSession (action alone).1 (action placed).1

namespace Place.Steady

variable (place : Place)

/-- A new parameter is the same in both sessions. -/
theorem newParameter
    (spec : Option Spec)
    (declarator : Option Declarator)
    (before after : Option String) :
    place.Steady fun session => session.newParameter spec declarator before after := by
  intro alone placed same
  unfold Session.newParameter
  refine ⟨rfl, ?_⟩
  dsimp only
  split
  · exact same.report _
  · exact same

/-- A comment for the last parameter acts the same in both sessions. -/
theorem commentLastParameter
    (parameters : List Parameter)
    (comment : String) :
    place.Steady fun session => session.commentLastParameter parameters comment := by
  intro alone placed same
  unfold Session.commentLastParameter
  split
  · exact ⟨rfl, same.report _⟩
  · split
    · exact ⟨rfl, same.report _⟩
    · exact ⟨rfl, same⟩

/-- Comments for the last parameter act the same in both sessions. -/
theorem commentLastParameterAll
    (parameters : List Parameter)
    (comments : List String) :
    place.Steady fun session => session.commentLastParameterAll parameters comments := by
  intro alone placed same
  induction comments generalizing parameters alone placed with
  | nil => exact ⟨rfl, same⟩
  | cons comment comments hypothesis =>
      have step (session : Session) :
          session.commentLastParameterAll parameters (comment :: comments) =
            (session.commentLastParameter parameters comment).1.commentLastParameterAll
              (session.commentLastParameter parameters comment).2.1 comments := rfl
      obtain ⟨sameValue, sameAfter⟩ := commentLastParameter place parameters comment same
      dsimp only at sameValue sameAfter ⊢
      rw [step, step, ← sameValue]
      exact hypothesis _ sameAfter

/-- A comment for an enumerator acts the same in both sessions. -/
theorem commentLastEnumerator
    (list : ListId)
    (comment : String) :
    place.Steady fun session => session.commentLastEnumerator list comment := by
  intro alone placed same
  have sameEnums : alone.enums = placed.enums := by
    obtain ⟨source, recorded, others, rfl, -⟩ := same
    rfl
  unfold Session.commentLastEnumerator
  dsimp only
  rw [← sameEnums]
  cases alone.enums.attachComment list comment with
  | ok enums =>
      obtain ⟨source, recorded, others, rfl, isRecorded, length, isSource⟩ := same
      exact ⟨rfl, source, recorded, others, rfl, isRecorded, length, isSource⟩
  | error name => exact ⟨rfl, same.report _⟩

/-- A new enumerator list is the same in both sessions. -/
theorem newEnumList
    (tag : Option String)
    (enumerator : Enumerator) :
    place.Steady fun session => session.newEnumList tag enumerator := by
  intro alone placed same
  obtain ⟨source, recorded, others, rfl, isRecorded, length, isSource⟩ := same
  cases tag <;> exact ⟨rfl, source, recorded, others, rfl, isRecorded, length, isSource⟩

/-- An enumerator is added to the same list in both sessions. -/
theorem appendEnumerator
    (list : ListId)
    (enumerator : Enumerator) :
    place.Steady fun session => (session.appendEnumerator list enumerator, list) := by
  intro alone placed same
  obtain ⟨source, recorded, others, rfl, isRecorded, length, isSource⟩ := same
  exact ⟨rfl, source, recorded, others, rfl, isRecorded, length, isSource⟩

end Place.Steady

namespace Beside

variable {place : Place} {left : Nat} {alone placed : Cursor}

/-- Two cursors before the same token. -/
theorem peek (beside : Beside place (left + 1) alone placed) :
    alone.peek.unplaced = placed.peek.unplaced := by
  obtain ⟨tokens, others, ending, isAlone, isPlaced, same, length, -⟩ := beside.rest
  rcases tokens with _ | ⟨token, tokens⟩
  · contradiction
  rcases others with _ | ⟨other, others⟩
  · simp at same
  rw [Cursor.peek_eq_head isAlone, Cursor.peek_eq_head isPlaced]
  exact (List.cons.inj same).1

/-- Inside of the part that is read on its own nothing ends the input. -/
theorem notEnd (beside : Beside place (left + 1) alone placed) :
    alone.peek.isEnd = false := by
  by_contra isEnd
  have onlyEnd := Cursor.rest_of_end beside.input (by simpa using isEnd)
  obtain ⟨tokens, others, ending, isAlone, isPlaced, same, length, -⟩ := beside.rest
  have lengths := congrArg List.length isAlone
  rw [List.length_append, length, onlyEnd] at lengths
  simp at lengths

theorem notEndInPlace (beside : Beside place (left + 1) alone placed) :
    placed.peek.isEnd = false := by
  rw [← Token.isEnd_unplaced, ← beside.peek]
  exact beside.notEnd

/-- How much is left to read on its own and in place. -/
theorem length (beside : Beside place left alone placed) :
    alone.rest.length = left + 1 ∧ placed.rest.length = left + place.tail.length := by
  obtain ⟨tokens, others, ending, isAlone, isPlaced, same, length, -⟩ := beside.rest
  have sameLength := congrArg List.length same
  rw [List.length_map, List.length_map] at sameLength
  rw [isAlone, isPlaced, List.length_append, List.length_append, ← sameLength, length]
  exact ⟨rfl, rfl⟩

/-- Both cursors take a token. -/
theorem advance (beside : Beside place (left + 1) alone placed) :
    Beside place left alone.advance placed.advance := by
  refine ⟨?_, Nat.le_of_succ_le beside.within, endsOnce_advance beside.input, ?_, ?_, ?_⟩
  · obtain ⟨tokens, others, ending, isAlone, isPlaced, same, length, last⟩ := beside.rest
    rcases tokens with _ | ⟨token, tokens⟩
    · contradiction
    rcases others with _ | ⟨other, others⟩
    · simp at same
    refine ⟨tokens, others, ending, ?_, ?_, (List.cons.inj same).2, Nat.succ.inj length, ?_⟩
    · rw [Cursor.rest_advance beside.notEnd, isAlone]
      rfl
    · rw [Cursor.rest_advance beside.notEndInPlace, isPlaced]
      rfl
    · intro final isLast
      rcases tokens with _ | ⟨next, tokens⟩
      · contradiction
      · exact last final isLast
  · intro token member
    exact beside.spelled token (alone.rest_advance_suffix.subset member)
  · intro _
    rw [Cursor.previous_advance beside.notEnd, Cursor.previous_advance beside.notEndInPlace,
      Option.map_some, Option.map_some, beside.peek]
  · rw [Cursor.session_advance, Cursor.session_advance]
    exact beside.session.sync _ _

/-- Two cursors before the same token agree on all its properties. -/
theorem hasText_eq
    (beside : Beside place (left + 1) alone placed)
    (text : String) :
    alone.peek.hasText text = placed.peek.hasText text := by
  rw [← Token.hasText_unplaced, beside.peek, Token.hasText_unplaced]

/-- The last of the tokens is no attribute. -/
theorem last (beside : Beside place 1 alone placed) :
    attributes.contains alone.peek.text = false := by
  obtain ⟨tokens, others, ending, isAlone, isPlaced, same, length, last⟩ := beside.rest
  obtain ⟨token, rfl⟩ := List.length_eq_one_iff.1 length
  rw [Cursor.peek_eq_head isAlone]
  exact last token rfl

/-- At the end of the tokens, one cursor stands before the end of the input. -/
theorem peek_end (beside : Beside place 0 alone placed) :
    alone.peek.isEnd = true ∧ alone.peek.text = "" := by
  obtain ⟨tokens, others, ending, isAlone, isPlaced, same, length, -⟩ := beside.rest
  have input := beside.input
  rw [List.length_eq_zero_iff.1 length, List.nil_append] at isAlone
  rw [isAlone] at input
  rw [Cursor.peek_eq_head isAlone]
  obtain ⟨body, last, whole, ended, empty, -⟩ := input
  rcases body with _ | ⟨token, body⟩
  · obtain ⟨rfl, -⟩ := List.cons.inj whole
    exact ⟨ended, empty⟩
  · obtain ⟨-, impossible⟩ := List.cons.inj whole
    simp at impossible

/-- At the end of the tokens, the other cursor stands before what follows. -/
theorem rest_end (beside : Beside place 0 alone placed) :
    placed.rest = place.tail := by
  obtain ⟨tokens, others, ending, isAlone, isPlaced, same, length, -⟩ := beside.rest
  have none := List.length_eq_zero_iff.1 length
  rw [none, List.map_nil] at same
  rw [isPlaced, List.map_eq_nil_iff.1 same.symm, List.nil_append]

/-- A token that does not end the input is one of those compared. -/
theorem exists_succ
    (beside : Beside place left alone placed)
    (notEnd : alone.peek.isEnd = false) :
    ∃ fewer, left = fewer + 1 := by
  cases left with
  | zero =>
      rw [beside.peek_end.1] at notEnd
      contradiction
  | succ fewer => exact ⟨fewer, rfl⟩

/-- The next token has the same text on its own and in place. -/
theorem text_eq (beside : Beside place (left + 1) alone placed) :
    alone.peek.text = placed.peek.text := by
  rw [← Token.text_unplaced, beside.peek, Token.text_unplaced]

theorem commentBefore_eq (beside : Beside place (left + 1) alone placed) :
    alone.peek.commentBefore = placed.peek.commentBefore := by
  rw [← Token.commentBefore_unplaced, beside.peek, Token.commentBefore_unplaced]

theorem commentAfter_eq (beside : Beside place (left + 1) alone placed) :
    alone.peek.commentAfter = placed.peek.commentAfter := by
  rw [← Token.commentAfter_unplaced, beside.peek, Token.commentAfter_unplaced]

/-- After the first of the tokens, the cursors agree on what was taken last. -/
theorem justTook_eq
    (beside : Beside place left alone placed)
    (within : left < place.size)
    (text : String) :
    alone.justTook text = placed.justTook text := by
  have same := congrArg (fun token => (token.map (·.hasText text)).getD false)
    (beside.previous within)
  simp only [Option.map_map] at same
  exact same

/-- The same comment stands after the token taken last, if there is one. -/
theorem trailingComment_eq
    (beside : Beside place left alone placed)
    (within : left < place.size) :
    alone.trailingComment = placed.trailingComment := by
  have same := congrArg (fun token => token.bind (·.commentAfter)) (beside.previous within)
  simp only [Option.bind_map] at same
  exact same

/-- A property of the next token on which the two cursors agree if they agree at the
end of the tokens. -/
theorem agree
    (beside : Beside place left alone placed)
    (property : Token → Bool)
    (unplaced : ∀ token, property token.unplaced = property token)
    (atEnd : left = 0 → property alone.peek = property placed.peek) :
    property alone.peek = property placed.peek := by
  cases left with
  | zero => exact atEnd rfl
  | succ left => rw [← unplaced, beside.peek, unplaced]

end Beside

/-- The texts that may follow tokens that are read on their own. -/
def stopTexts : List String := [";", ",", ")", "("]

namespace Place.Closed

variable {place : Place} {left : Nat} {alone placed : Cursor}

/-- What the cursor in place stands before at the end of the tokens. -/
theorem stop
    (closed : place.Closed)
    (beside : Beside place 0 alone placed) :
    placed.peek.isEnd = false ∧ placed.peek.isWord = false ∧ placed.peek.text ∈ stopTexts := by
  obtain ⟨stop, rest, isTail, notEnd, noWord, isStop⟩ := closed.tail
  rw [Cursor.peek_eq_head (beside.rest_end.trans isTail)]
  refine ⟨notEnd, noWord, ?_⟩
  simp only [stopTexts, List.mem_cons, List.not_mem_nil, or_false]
  rcases isStop with isStop | isStop | isStop | ⟨isStop, -⟩ <;> simp [isStop]

/-- The next token is a word on its own just if it is one in place. -/
theorem isWord_eq
    (closed : place.Closed)
    (beside : Beside place left alone placed) :
    alone.peek.isWord = placed.peek.isWord := by
  refine beside.agree Token.isWord Token.isWord_unplaced ?_
  rintro rfl
  rw [(closed.stop beside).2.1]
  exact Token.isWord_of_isEnd beside.peek_end.1

/-- The next token has a text on its own just if it does in place, unless the text is one
that can stop a declaration. -/
theorem hasText_eq
    (closed : place.Closed)
    (beside : Beside place left alone placed)
    {text : String}
    (other : stopTexts.contains text = false) :
    alone.peek.hasText text = placed.peek.hasText text := by
  refine beside.agree (·.hasText text) (fun token => token.hasText_unplaced text) ?_
  rintro rfl
  have different : placed.peek.text ≠ text := by
    intro same
    have isStop := (closed.stop beside).2.2
    rw [same] at isStop
    simp [isStop] at other
  rw [Token.hasText_of_text_ne different]
  exact Token.hasText_of_isEnd beside.peek_end.1 text

/-- The next token is one of some words on its own just if it is in place. -/
theorem contains_eq
    (closed : place.Closed)
    (beside : Beside place left alone placed)
    (words : List String)
    (other : ("" :: stopTexts).all (fun text => !words.contains text) = true) :
    words.contains alone.peek.text = words.contains placed.peek.text := by
  refine beside.agree (fun token => words.contains token.text) (fun _ => rfl) ?_
  rintro rfl
  simp only [List.all_eq_true, Bool.not_eq_true'] at other
  rw [beside.peek_end.2, other "" List.mem_cons_self,
    other _ (List.mem_cons_of_mem _ (closed.stop beside).2.2)]

theorem tail_ne_nil (closed : place.Closed) : place.tail ≠ [] := by
  obtain ⟨stop, rest, isTail, -⟩ := closed.tail
  rw [isTail]
  exact List.cons_ne_nil stop rest

/-- The token after the next one. -/
theorem peekNth_one
    (closed : place.Closed)
    (beside : Beside place (left + 1) alone placed) :
    alone.peekNth 1 = alone.advance.peek ∧ placed.peekNth 1 = placed.advance.peek := by
  have after := beside.advance
  have filled := List.length_pos_iff.2 closed.tail_ne_nil
  refine ⟨Cursor.peekNth_one beside.notEnd after.input.ne_nil,
    Cursor.peekNth_one beside.notEndInPlace ?_⟩
  rw [← List.length_pos_iff, after.length.2]
  omega

end Place.Closed

/-! ## Two readings -/

/-- If one reading succeeds, so does the other with the same value, and the cursors stand
before the same tokens again, of which a given number are left at most. -/
def Tracks
    (place : Place)
    (bound : Nat)
    (alone placed : EStateM.Result SyntaxError Cursor α) : Prop :=
  ∀ value after, alone = .ok value after →
    ∃ fewer afterInPlace, placed = .ok value afterInPlace ∧ fewer ≤ bound ∧
      Beside place fewer after afterInPlace

namespace Tracks

variable {place : Place} {left bound : Nat} {alone placed : Cursor}

theorem done
    (beside : Beside place left alone placed)
    (within : left ≤ bound)
    (value : α) :
    Tracks place bound (.ok value alone) (.ok value placed) := by
  intro _ after succeeded
  cases succeeded
  exact ⟨left, placed, rfl, within, beside⟩

/-- A reading that fails on its own is followed by any. -/
theorem failed
    {error : SyntaxError}
    (other : EStateM.Result SyntaxError Cursor α) :
    Tracks place bound (.error error alone) other := by
  intro _ _ succeeded
  cases succeeded

theorem weaken
    {first second : EStateM.Result SyntaxError Cursor α}
    {more : Nat}
    (tracks : Tracks place bound first second)
    (within : bound ≤ more) :
    Tracks place more first second := by
  intro value after succeeded
  obtain ⟨fewer, afterInPlace, read, less, beside⟩ := tracks value after succeeded
  exact ⟨fewer, afterInPlace, read, Nat.le_trans less within, beside⟩

/-- One reading after another. -/
theorem bind
    {first second : Parse α}
    {next other : α → Parse β}
    {middle : Nat}
    (tracks : Tracks place middle (first alone) (second placed))
    (continues : ∀ value fewer {after afterInPlace : Cursor},
      first alone = .ok value after → fewer ≤ middle →
      Beside place fewer after afterInPlace →
      Tracks place bound (next value after) (other value afterInPlace)) :
    Tracks place bound ((first >>= next) alone) ((second >>= other) placed) := by
  rw [bind_run]
  cases result : first alone with
  | ok value after =>
      obtain ⟨fewer, afterInPlace, read, less, beside⟩ := tracks value after result
      rw [bind_run_ok read]
      exact continues value fewer result less beside
  | error error after => exact .failed _

/-- An action that does the same to both sessions. -/
theorem act
    {action : Session → Session × α}
    (steady : place.Steady action)
    (beside : Beside place left alone placed) :
    Tracks place left (Grammar.act action alone) (Grammar.act action placed) := by
  obtain ⟨sameValue, sameSession⟩ := steady beside.session
  have after : Beside place left { alone with session := (action alone.session).1 }
      { placed with session := (action placed.session).1 } :=
    ⟨beside.rest, beside.within, beside.input, beside.spelled, beside.previous, sameSession⟩
  rw [act_run, act_run, ← sameValue]
  exact .done after (Nat.le_refl _) _

/-- A token that has to be there is never the end of the input. -/
theorem expect_bind
    {text : String}
    {next other : Token → Parse β}
    (beside : Beside place left alone placed)
    (continues : ∀ fewer, left = fewer + 1 →
      alone.peek.hasText text = true →
      Beside place fewer alone.advance placed.advance →
      Tracks place bound (next alone.peek alone.advance) (other placed.peek placed.advance)) :
    Tracks place bound ((expect text >>= next) alone) ((expect text >>= other) placed) := by
  rw [bind_run, bind_run, expect_run, expect_run]
  by_cases matching : alone.peek.hasText text = true
  · obtain ⟨fewer, rfl⟩ := beside.exists_succ (Token.not_isEnd_of_hasText matching)
    rw [if_pos matching, if_pos (by rw [← beside.hasText_eq, matching])]
    exact continues fewer rfl matching beside.advance
  · rw [if_neg matching]
    exact .failed _

end Tracks

namespace Beside

variable {place : Place} {left : Nat} {alone placed : Cursor}

theorem advanceBy
    (count : Nat)
    (beside : Beside place (count + left) alone placed) :
    Beside place left (alone.advanceBy count) (placed.advanceBy count) := by
  induction count generalizing alone placed with
  | zero => rwa [Nat.zero_add] at beside
  | succ count hypothesis =>
      rw [Nat.succ_add] at beside
      exact hypothesis beside.advance

end Beside

/-! ## Skipping -/

section

variable {place : Place} {left : Nat} {alone placed : Cursor}

/-- The run through a closing bracket that is there does not depend on what follows. -/
theorem closingRun_inPlace
    {close : String}
    {depth length : Nat}
    {tokens others : List Token}
    {ending : Token}
    (same : tokens.map Token.unplaced = others.map Token.unplaced)
    (ended : ending.isEnd = true)
    (tail : List Token)
    (run : closingRun close depth (tokens ++ [ending]) = (length, true)) :
    closingRun close depth (others ++ tail) = (length, true) ∧ length ≤ tokens.length := by
  induction tokens generalizing others depth length with
  | nil => simp [closingRun, ended] at run
  | cons token tokens hypothesis =>
      rcases others with _ | ⟨other, others⟩
      · simp at same
      obtain ⟨sameToken, sameTokens⟩ := List.cons.inj same
      have sameEnd : other.isEnd = token.isEnd := by
        rw [← Token.isEnd_unplaced, ← sameToken, Token.isEnd_unplaced]
      have sameKind : other.kind = token.kind := by
        rw [← Token.kind_unplaced, ← sameToken, Token.kind_unplaced]
      have sameText : other.text = token.text := by
        rw [← Token.text_unplaced, ← sameToken, Token.text_unplaced]
      have further (depth : Nat)
          (run : ((closingRun close depth (tokens ++ [ending])).1 + 1,
            (closingRun close depth (tokens ++ [ending])).2) = (length, true)) :
          ((closingRun close depth (others ++ tail)).1 + 1,
            (closingRun close depth (others ++ tail)).2) = (length, true) ∧
              length ≤ tokens.length + 1 := by
        obtain ⟨isLength, isClosed⟩ := Prod.mk.inj run
        obtain ⟨inPlace, within⟩ := hypothesis sameTokens (Prod.ext rfl isClosed)
        rw [inPlace]
        exact ⟨by rw [isLength], isLength ▸ Nat.succ_le_succ within⟩
      rw [List.cons_append] at run ⊢
      unfold closingRun at run ⊢
      rw [sameEnd, sameKind, sameText, List.length_cons]
      by_cases isEnd : token.isEnd = true
      · rw [if_pos isEnd] at run
        cases run
      rw [if_neg isEnd] at run ⊢
      by_cases opens : (token.kind == .punctuator && isOpener token.text) = true
      · rw [if_pos opens] at run ⊢
        exact further (depth + 1) run
      rw [if_neg opens] at run ⊢
      by_cases closes : (token.kind == .punctuator && isCloser token.text) = true
      · rw [if_pos closes] at run ⊢
        cases depth with
        | zero =>
            obtain ⟨rfl, -⟩ := Prod.mk.inj run
            exact ⟨run, by omega⟩
        | succ depth => exact further depth run
      · rw [if_neg closes] at run ⊢
        exact further depth run

/-- A closing bracket is found on its own just where it is found in place. -/
theorem skipUntilClose_tracks
    (close : String)
    (beside : Beside place left alone placed) :
    Tracks place left (skipUntilClose close alone) (skipUntilClose close placed) := by
  unfold skipUntilClose
  rw [get_bind_run, get_bind_run]
  obtain ⟨tokens, others, ending, isAlone, isPlaced, same, length, -⟩ := beside.rest
  cases run : closingRun close 0 alone.rest with
  | mk count closed =>
      cases closed with
      | false => exact .failed _
      | true =>
          have input := beside.input
          rw [isAlone] at run input
          obtain ⟨inPlace, within⟩ := closingRun_inPlace same input.last_isEnd place.tail run
          rw [isPlaced, inPlace]
          obtain ⟨fewer, rfl⟩ : ∃ fewer, left = count + fewer := ⟨left - count, by omega⟩
          exact .done (beside.advanceBy count) (by omega) ()

/-- A bracketed run is skipped on its own as in place. -/
theorem skipBalanced_tracks
    (opener close : String)
    (beside : Beside place left alone placed) :
    Tracks place (left - 1) (skipBalanced opener close alone)
      (skipBalanced opener close placed) := by
  unfold skipBalanced
  rw [discard_bind_run, discard_bind_run]
  refine .expect_bind beside ?_
  rintro fewer rfl - opened
  exact skipUntilClose_tracks close opened

/-- A reading chosen by a text that both cursors agree on. -/
theorem Tracks.sees_bind
    {bound : Nat}
    {text : String}
    {next other : Bool → Parse β}
    (agree : alone.peek.hasText text = placed.peek.hasText text)
    (continues : ∀ seen, alone.peek.hasText text = seen →
      Tracks place bound (next seen alone) (other seen placed)) :
    Tracks place bound ((sees text >>= next) alone) ((sees text >>= other) placed) := by
  rw [sees_bind_run, sees_bind_run, ← agree]
  exact continues _ rfl

theorem skipGroup_tracks
    {opener : String}
    (close : String)
    (beside : Beside place left alone placed)
    (agree : alone.peek.hasText opener = placed.peek.hasText opener) :
    Tracks place left (skipGroup opener close alone) (skipGroup opener close placed) := by
  unfold skipGroup
  refine .sees_bind agree ?_
  intro seen _
  cases seen with
  | true => exact (skipBalanced_tracks opener close beside).weaken (Nat.sub_le _ _)
  | false => exact .done beside (Nat.le_refl _) ()

/-- Attributes are skipped on their own as in place. -/
theorem skipAttributesUpTo_tracks
    (closed : place.Closed)
    {count steps : Nat}
    (beside : Beside place left alone placed)
    (enough : left < steps) :
    Tracks place (if attributes.contains alone.peek.text then left - 1 else left)
      (skipAttributesUpTo count alone) (skipAttributesUpTo steps placed) := by
  induction count generalizing left alone placed steps with
  | zero => exact .failed _
  | succ count hypothesis =>
      obtain ⟨fewer, rfl⟩ : ∃ fewer, steps = fewer + 1 := ⟨steps - 1, by omega⟩
      have agree := closed.contains_eq beside attributes (by decide)
      unfold skipAttributesUpTo
      rw [peek_bind_run, peek_bind_run, ← agree]
      by_cases isAttribute : attributes.contains alone.peek.text = true
      · rw [if_pos isAttribute, if_pos isAttribute, if_pos isAttribute]
        obtain ⟨left, rfl⟩ :=
          beside.exists_succ (peek_not_end_of_attribute beside.input isAttribute)
        have agreeOpener : alone.advance.peek.hasText "(" = placed.advance.peek.hasText "(" := by
          cases left with
          | zero =>
              rw [beside.last] at isAttribute
              contradiction
          | succ left => exact beside.advance.hasText_eq "("
        simp only [discard_bind_run, take_bind_run]
        refine .bind (skipGroup_tracks ")" beside.advance agreeOpener) ?_
        intro _ more after afterInPlace _ less besideAfter
        refine (hypothesis besideAfter (by omega)).weaken ?_
        split <;> omega
      · rw [if_neg isAttribute, if_neg isAttribute, if_neg isAttribute]
        exact .done beside (Nat.le_refl _) ()


theorem skipAttributes_tracks
    (closed : place.Closed)
    (beside : Beside place left alone placed) :
    Tracks place left (skipAttributes alone) (skipAttributes placed) := by
  have filled := List.length_pos_iff.2 closed.tail_ne_nil
  have enough : left < placed.rest.length := by
    rw [beside.length.2]
    omega
  refine (skipAttributesUpTo_tracks closed beside enough).weaken ?_
  split <;> omega

/-- Attributes that are there are skipped in both readings. -/
theorem skipAttributes_tracks_succ
    (closed : place.Closed)
    (beside : Beside place left alone placed)
    (isAttribute : attributes.contains alone.peek.text = true) :
    Tracks place (left - 1) (skipAttributes alone) (skipAttributes placed) := by
  have filled := List.length_pos_iff.2 closed.tail_ne_nil
  have enough : left < placed.rest.length := by
    rw [beside.length.2]
    omega
  have tracks : Tracks place _ (skipAttributesUpTo alone.rest.length alone)
      (skipAttributesUpTo placed.rest.length placed) :=
    skipAttributesUpTo_tracks closed beside enough
  rwa [if_pos isAttribute] at tracks

/-- An expression that ends at a stop does not depend on what follows. -/
theorem expressionRun_inPlace
    {stops : List String}
    {depth length : Nat}
    {tokens others : List Token}
    {ending : Token}
    (same : tokens.map Token.unplaced = others.map Token.unplaced)
    (ended : ending.isEnd = true)
    (tail : List Token)
    (run : expressionRun stops depth (tokens ++ [ending]) = (length, .stop)) :
    expressionRun stops depth (others ++ tail) = (length, .stop) ∧ length ≤ tokens.length := by
  induction tokens generalizing others depth length with
  | nil => simp [expressionRun, ended] at run
  | cons token tokens hypothesis =>
      rcases others with _ | ⟨other, others⟩
      · simp at same
      obtain ⟨sameToken, sameTokens⟩ := List.cons.inj same
      have sameEnd : other.isEnd = token.isEnd := by
        rw [← Token.isEnd_unplaced, ← sameToken, Token.isEnd_unplaced]
      have sameText : other.text = token.text := by
        rw [← Token.text_unplaced, ← sameToken, Token.text_unplaced]
      have further (depth : Nat)
          (run : ((expressionRun stops depth (tokens ++ [ending])).1 + 1,
            (expressionRun stops depth (tokens ++ [ending])).2) = (length, .stop)) :
          ((expressionRun stops depth (others ++ tail)).1 + 1,
            (expressionRun stops depth (others ++ tail)).2) = (length, .stop) ∧
              length ≤ tokens.length + 1 := by
        obtain ⟨isLength, isStop⟩ := Prod.mk.inj run
        obtain ⟨inPlace, within⟩ := hypothesis sameTokens (Prod.ext rfl isStop)
        rw [inPlace]
        exact ⟨by rw [isLength], isLength ▸ Nat.succ_le_succ within⟩
      rw [List.cons_append] at run ⊢
      unfold expressionRun at run ⊢
      dsimp only at run ⊢
      rw [sameEnd, sameText, List.length_cons]
      by_cases isEnd : token.isEnd = true
      · rw [if_pos isEnd] at run
        cases run
      rw [if_neg isEnd] at run ⊢
      by_cases stopped : (depth == 0 && stops.contains token.text) = true
      · rw [if_pos stopped] at run ⊢
        obtain ⟨rfl, -⟩ := Prod.mk.inj run
        exact ⟨rfl, Nat.zero_le _⟩
      rw [if_neg stopped] at run ⊢
      by_cases opens : isOpener token.text = true
      · rw [if_pos opens] at run ⊢
        exact further (depth + 1) run
      rw [if_neg opens] at run ⊢
      by_cases closes : isCloser token.text = true
      · rw [if_pos closes] at run ⊢
        by_cases outside : (depth == 0) = true
        · rw [if_pos outside] at run
          cases run
        · rw [if_neg outside] at run ⊢
          exact further (depth - 1) run
      · rw [if_neg closes] at run ⊢
        exact further depth run

/-- An expression is skipped on its own as in place. -/
theorem skipExpression_tracks
    (stops : List String)
    (beside : Beside place left alone placed) :
    Tracks place left (skipExpression stops alone) (skipExpression stops placed) := by
  unfold skipExpression
  rw [get_bind_run, get_bind_run]
  obtain ⟨tokens, others, ending, isAlone, isPlaced, same, length, -⟩ := beside.rest
  cases run : expressionRun stops 0 alone.rest with
  | mk count found =>
      cases found with
      | stop =>
          have input := beside.input
          rw [isAlone] at run input
          obtain ⟨inPlace, within⟩ := expressionRun_inPlace same input.last_isEnd place.tail run
          rw [isPlaced, inPlace]
          obtain ⟨fewer, rfl⟩ : ∃ fewer, left = count + fewer := ⟨left - count, by omega⟩
          exact .done (beside.advanceBy count) (by omega) ()
      | unbalanced => exact .failed _
      | endOfFile => exact .failed _

/-- What follows a token that may be there, if both cursors agree whether it is. -/
theorem Tracks.accept_bind
    {bound : Nat}
    {text : String}
    {next other : Option Token → Parse β}
    (beside : Beside place left alone placed)
    (agree : alone.peek.hasText text = placed.peek.hasText text)
    (present : ∀ fewer, left = fewer + 1 →
      Beside place fewer alone.advance placed.advance →
      Tracks place bound (next (some alone.peek) alone.advance)
        (other (some placed.peek) placed.advance))
    (absent : Tracks place bound (next none alone) (other none placed)) :
    Tracks place bound ((accept text >>= next) alone) ((accept text >>= other) placed) := by
  rw [accept_bind_run, accept_bind_run, ← agree]
  by_cases matching : alone.peek.hasText text = true
  · obtain ⟨fewer, rfl⟩ := beside.exists_succ (Token.not_isEnd_of_hasText matching)
    rw [if_pos matching, if_pos matching]
    exact present fewer rfl beside.advance
  · rw [if_neg matching, if_neg matching]
    exact absent

/-- A value is skipped on its own as in place. -/
theorem skipValue_tracks
    (closed : place.Closed)
    (stops : List String)
    (beside : Beside place left alone placed) :
    Tracks place left (skipValue stops alone) (skipValue stops placed) := by
  unfold skipValue
  refine .accept_bind beside (closed.hasText_eq beside (by decide)) ?_ ?_
  · rintro fewer rfl taken
    exact (skipExpression_tracks stops taken).weaken (Nat.le_succ _)
  · exact .done beside (Nat.le_refl _) ()

/-! ## Specifiers -/

theorem optionalTag_tracks
    (closed : place.Closed)
    (beside : Beside place left alone placed) :
    Tracks place left (optionalTag alone) (optionalTag placed) := by
  unfold optionalTag
  rw [peek_bind_run, peek_bind_run, ← closed.isWord_eq beside]
  by_cases isWord : alone.peek.isWord = true
  · obtain ⟨fewer, rfl⟩ := beside.exists_succ (Token.not_isEnd_of_isWord isWord)
    rw [if_pos isWord, take_bind_run, take_bind_run, ← beside.text_eq]
    exact .done beside.advance (Nat.le_succ _) _
  · rw [if_neg isWord]
    exact .done beside (Nat.le_refl _) _

/-- A structure or union is read on its own as in place. -/
theorem recordSpecifier_tracks
    (closed : place.Closed)
    (beside : Beside place (left + 1) alone placed) :
    Tracks place left (recordSpecifier alone) (recordSpecifier placed) := by
  unfold recordSpecifier
  rw [take_bind_run, take_bind_run, ← beside.text_eq]
  refine .bind (skipAttributes_tracks closed beside.advance) ?_
  intro _ _ _ _ _ less beside
  refine .bind (optionalTag_tracks closed beside) ?_
  intro tag _ _ _ _ lessTagged beside
  refine .bind (skipGroup_tracks _ beside (closed.hasText_eq beside (by decide))) ?_
  intro _ _ _ _ _ lessSkipped beside
  refine .bind (skipAttributes_tracks closed beside) ?_
  intro _ _ _ _ _ lessAttributes beside
  exact .done beside (by omega) _

/-- Before the end of the tokens, the comments around the end of an item are the same. -/
theorem trailingComments_tracks
    (separator : String)
    (beside : Beside place (left + 1) alone placed)
    (within : left + 1 < place.size) :
    Tracks place (left + 1) (trailingComments separator alone)
      (trailingComments separator placed) := by
  rw [trailingComments_run, trailingComments_run, ← beside.hasText_eq,
    ← beside.trailingComment_eq within, ← beside.commentBefore_eq, ← beside.commentAfter_eq]
  by_cases matching : alone.peek.hasText separator = true
  · rw [if_pos matching, if_pos matching]
    exact .done beside.advance (Nat.le_succ _) _
  · rw [if_neg matching, if_neg matching]
    exact .done beside (Nat.le_refl _) _

/-- Comments are given to an enumerator on its own as in place. -/
theorem commentEnumerator_tracks
    (list : ListId)
    (comments : List String)
    (beside : Beside place left alone placed) :
    Tracks place left (commentEnumerator list comments alone)
      (commentEnumerator list comments placed) := by
  induction comments generalizing left alone placed with
  | nil => exact .done beside (Nat.le_refl _) _
  | cons comment comments hypothesis =>
      rw [commentEnumerator_cons]
      rw [discard_bind_run, discard_bind_run]
      refine .bind (.act (Place.Steady.commentLastEnumerator place list comment) beside) ?_
      intro _ _ _ _ _ less beside
      exact (hypothesis beside).weaken less

/-- An enumerator is added on its own as in place. -/
theorem addEnumerator_tracks
    (tag : Option String)
    (list : Option ListId)
    (enumerator : Enumerator)
    (beside : Beside place left alone placed) :
    Tracks place left (addEnumerator tag list enumerator alone)
      (addEnumerator tag list enumerator placed) := by
  rw [addEnumerator_eq]
  cases list with
  | none => exact .act (Place.Steady.newEnumList place tag enumerator) beside
  | some list => exact .act (Place.Steady.appendEnumerator place list enumerator) beside

/-! An item list that has come to the end of the input cannot be closed. -/

/-- A reading does not succeed. -/
def Fails (result : EStateM.Result SyntaxError Cursor α) : Prop :=
  ∀ value after, result ≠ .ok value after

/-- A reading that fails on its own tracks any other. -/
theorem Fails.tracks
    {bound : Nat}
    {result other : EStateM.Result SyntaxError Cursor α}
    (fails : Fails result) :
    Tracks place bound result other := by
  intro value after succeeded
  exact absurd succeeded (fails value after)

theorem Fails.error
    {error : SyntaxError}
    {cursor : Cursor} :
    Fails (.error error cursor : EStateM.Result SyntaxError Cursor α) := by
  intro value after succeeded
  cases succeeded

theorem Fails.bind
    {first : Parse α}
    {next : α → Parse β}
    {cursor : Cursor}
    (fails : Fails (first cursor)) :
    Fails ((first >>= next) cursor) := by
  rw [bind_run]
  cases result : first cursor with
  | ok value after => exact absurd result (fails value after)
  | error error after => exact .error

/-- At the end of the input, what lands has not moved. -/
theorem Fails.bind_of_end
    {first : Parse α}
    {next : α → Parse β}
    {cursor : Cursor}
    (input : EndsOnce cursor.rest)
    (ended : cursor.peek.isEnd = true)
    (lands : Lands 0 cursor.rest (first cursor))
    (continues : ∀ value after, EndsOnce after.rest → after.peek.isEnd = true →
      Fails (next value after)) :
    Fails ((first >>= next) cursor) := by
  rw [bind_run]
  cases result : first cursor with
  | error error after => exact .error
  | ok value after =>
      rw [result] at lands
      have same : after.rest = cursor.rest := by
        refine lands.suffix.eq_of_length_le ?_
        rw [Cursor.rest_of_end input ended]
        exact List.length_pos_iff.2 lands.input.ne_nil
      refine continues value after lands.input ?_
      unfold Cursor.peek
      rw [same]
      exact ended

/-- No enumerator is read at the end of the input. -/
theorem enumerators_fails
    (tag : Option String)
    (count : Nat)
    (leading : Option String)
    (list : Option ListId)
    {cursor : Cursor}
    (ended : cursor.peek.isEnd = true) :
    Fails (enumerators tag count leading list cursor) := by
  cases count with
  | zero => exact .error
  | succ count =>
      rw [enumerators_succ]
      unfold enumeratorName
      rw [sees_bind_run, Token.hasText_of_isEnd ended, if_neg (by simp), bind_run, peek_bind_run,
        Token.isWord_of_isEnd ended, if_neg (by simp)]
      exact .error

/-- What stands after the value of an enumerator. -/
theorem enumeratorEnd_fails
    (tag : Option String)
    (count : Nat)
    (leading : Option String)
    (list : Option ListId)
    (enumerator : Option String → Enumerator)
    {cursor : Cursor}
    (input : EndsOnce cursor.rest)
    (ended : cursor.peek.isEnd = true) :
    Fails ((do
      let after ← trailingComments ","
      let id ← addEnumerator tag list (enumerator after.head?)
      commentEnumerator id after.tail
      if (← get).justTook "," then enumerators tag count leading (some id)
      else if ← sees "\x7d" then enumerators tag count leading (some id)
      else fail "expected ',' or '\x7d'" : Parse (Option ListId)) cursor) := by
  refine .bind_of_end input ended (trailingComments_lands "," input) ?_
  intro comments after input ended
  refine .bind_of_end input ended (addEnumerator_lands tag list _ input) ?_
  intro id after input ended
  refine .bind_of_end input ended (commentEnumerator_lands id _ input) ?_
  intro _ after input ended
  rw [get_bind_run]
  split
  · exact enumerators_fails tag count leading _ ended
  · rw [sees_bind_run]
    split
    · exact enumerators_fails tag count leading _ ended
    · exact .error

theorem enumeratorName_run
    {cursor : Cursor}
    (isWord : cursor.peek.isWord = true) :
    enumeratorName cursor = .ok cursor.peek cursor.advance := by
  unfold enumeratorName
  rw [peek_bind_run, if_pos isWord, take_run]

/-- Enumerators are read on their own as in place. -/
theorem enumerators_tracks
    (closed : place.Closed)
    (tag : Option String)
    {count steps : Nat}
    (leading : Option String)
    (list : Option ListId)
    (beside : Beside place left alone placed)
    (within : left < place.size)
    (enough : left < steps) :
    Tracks place left (enumerators tag count leading list alone)
      (enumerators tag steps leading list placed) := by
  induction count generalizing left alone placed steps leading list with
  | zero => exact .failed _
  | succ count hypothesis =>
      obtain ⟨fewer, rfl⟩ : ∃ fewer, steps = fewer + 1 := ⟨steps - 1, by omega⟩
      simp only [enumerators_succ]
      refine .sees_bind (closed.hasText_eq beside (by decide)) ?_
      intro seen isSeen
      cases seen with
      | true =>
          obtain ⟨fewer, rfl⟩ := beside.exists_succ (Token.not_isEnd_of_hasText isSeen)
          rw [if_pos rfl, if_pos rfl, discard_bind_run, discard_bind_run, take_bind_run,
            take_bind_run]
          exact .done beside.advance (Nat.le_succ _) _
      | false =>
          rw [if_neg (by simp), if_neg (by simp)]
          by_cases isWord : alone.peek.isWord = true
          · obtain ⟨left, rfl⟩ := beside.exists_succ (Token.not_isEnd_of_isWord isWord)
            have isWordInPlace : placed.peek.isWord = true := by
              rw [← closed.isWord_eq beside, isWord]
            rw [bind_run_ok (enumeratorName_run isWord),
              bind_run_ok (enumeratorName_run isWordInPlace), ← beside.commentBefore_eq,
              ← beside.text_eq]
            refine .bind (skipValue_tracks closed _ beside.advance) ?_
            intro _ more valued _ _ less beside
            cases more with
            | zero =>
                exact (enumeratorEnd_fails tag count _ list
                  (fun after => .ofComments _ _ after) beside.input beside.peek_end.1).tracks
            | succ more =>
                refine .bind (trailingComments_tracks "," beside (by omega)) ?_
                intro comments _ _ _ _ lessCommented beside
                refine .bind (addEnumerator_tracks tag list _ beside) ?_
                intro id _ _ _ _ lessAdded beside
                refine .bind (commentEnumerator_tracks id _ beside) ?_
                intro _ final after afterInPlace _ lessFinal beside
                have again (leading : Option String) :
                    Tracks place (left + 1) (enumerators tag count leading (some id) after)
                      (enumerators tag fewer leading (some id) afterInPlace) :=
                  (hypothesis leading (some id) beside (by omega) (by omega)).weaken (by omega)
                rw [get_bind_run, get_bind_run, ← beside.justTook_eq (by omega)]
                split
                · exact again _
                · refine .sees_bind (closed.hasText_eq beside (by decide)) ?_
                  intro seen _
                  cases seen with
                  | true => exact again _
                  | false => exact .failed _
          · have fails : Fails (enumeratorName alone) := by
              unfold enumeratorName
              rw [peek_bind_run, if_neg isWord]
              exact .error
            exact fails.bind.tracks

/-- An enumerator list is read on its own as in place. -/
theorem enumeratorList_tracks
    (closed : place.Closed)
    (tag : Option String)
    (beside : Beside place left alone placed) :
    Tracks place left (enumeratorList tag alone) (enumeratorList tag placed) := by
  simp only [enumeratorList_eq]
  refine .expect_bind beside ?_
  rintro fewer rfl - opened
  have within := beside.within
  rw [get_bind_run, get_bind_run, ← beside.commentAfter_eq]
  refine (enumerators_tracks closed tag _ none opened (by omega) ?_).weaken (Nat.le_succ _)
  rw [opened.length.2]
  omega

theorem enumerationList_tracks
    (closed : place.Closed)
    (tag : Option String)
    (beside : Beside place left alone placed) :
    Tracks place left (enumerationList tag alone) (enumerationList tag placed) := by
  unfold enumerationList
  refine .sees_bind (closed.hasText_eq beside (by decide)) ?_
  intro seen _
  cases seen with
  | true => exact enumeratorList_tracks closed tag beside
  | false =>
      have sameTags : alone.session.tagEnumList = placed.session.tagEnumList := by
        obtain ⟨source, recorded, others, isPlaced, -⟩ := beside.session
        rw [isPlaced]
        rfl
      rw [if_neg (by simp), get_bind_run, get_bind_run, sameTags]
      exact .done beside (Nat.le_refl _) _

/-- An enumeration is read on its own as in place. -/
theorem enumSpecifier_tracks
    (closed : place.Closed)
    (beside : Beside place (left + 1) alone placed) :
    Tracks place left (enumSpecifier alone) (enumSpecifier placed) := by
  unfold enumSpecifier
  rw [take_bind_run, take_bind_run, ← beside.text_eq]
  refine .bind (skipAttributes_tracks closed beside.advance) ?_
  intro _ _ _ _ _ less beside
  refine .bind (optionalTag_tracks closed beside) ?_
  intro tag _ _ _ _ lessTagged beside
  refine .bind (enumerationList_tracks closed tag beside) ?_
  intro list _ _ _ _ lessListed beside
  exact .done beside (by omega) _

theorem typedefSpecifier_tracks
    (beside : Beside place (left + 1) alone placed) :
    Tracks place left (typedefSpecifier alone) (typedefSpecifier placed) := by
  have sameTypedefs : alone.advance.session.typedefEnumList =
      placed.advance.session.typedefEnumList := by
    unfold Session.typedefEnumList
    rw [beside.advance.session.typedefs]
  unfold typedefSpecifier
  rw [take_bind_run, take_bind_run, get_bind_run, get_bind_run, ← beside.text_eq, sameTypedefs]
  exact .done beside.advance (Nat.le_refl _) _

/-- Both cursors agree on whether a pointer in parentheses follows the next token. -/
theorem opensPointer_eq
    (closed : place.Closed)
    (beside : Beside place (left + 1) alone placed) :
    (alone.advance.peek.hasText "(" && (alone.peekNth 2).hasText "*") =
      (placed.advance.peek.hasText "(" && (placed.peekNth 2).hasText "*") := by
  have taken := beside.advance
  cases left with
  | zero =>
      obtain ⟨stop, rest, isTail, -, -, isStop⟩ := closed.tail
      have isRest := taken.rest_end.trans isTail
      have noOpener : alone.advance.peek.hasText "(" = false := by
        exact Token.hasText_of_text_ne (by simp [taken.peek_end.2])
      have third : placed.advance.peek.hasText "(" = true →
          (placed.peekNth 2).hasText "*" = false := by
        intro opens
        have isOpener := Token.text_of_hasText opens
        rw [Cursor.peek_eq_head isRest] at isOpener
        rcases isStop with isStop | isStop | isStop | ⟨-, next, more, rfl, noStar⟩
        · simp [isStop] at isOpener
        · simp [isStop] at isOpener
        · simp [isStop] at isOpener
        · rw [Cursor.peekNth_succ beside.notEndInPlace (by simp [isRest]), Cursor.peekNth, isRest]
          exact noStar
      rw [noOpener]
      cases opens : placed.advance.peek.hasText "(" with
      | false => rfl
      | true => rw [third opens]; rfl
  | succ left =>
      have filled : placed.advance.rest ≠ [] := by
        rw [← List.length_pos_iff, taken.length.2]
        omega
      obtain ⟨aloneNext, placedNext⟩ := closed.peekNth_one taken
      rw [Cursor.peekNth_succ beside.notEnd taken.input.ne_nil,
        Cursor.peekNth_succ beside.notEndInPlace filled, aloneNext, placedNext, taken.hasText_eq,
        closed.hasText_eq taken.advance (by decide)]

/-- Both cursors agree on whether an unknown identifier names a type. -/
theorem namesType_eq
    (closed : place.Closed)
    (context : Context)
    (beside : Beside place (left + 1) alone placed) :
    namesType context alone = namesType context placed := by
  cases context with
  | parameter => rfl
  | declaration =>
      have taken := beside.advance
      obtain ⟨aloneNext, placedNext⟩ := closed.peekNth_one beside
      have sameWord := closed.isWord_eq taken
      have sameStar : alone.advance.peek.hasText "*" = placed.advance.peek.hasText "*" :=
        closed.hasText_eq taken (by decide)
      have sameOpener : (alone.advance.peek.hasText "(" && (alone.peekNth 2).hasText "*") =
          (placed.advance.peek.hasText "(" && (placed.peekNth 2).hasText "*") :=
        opensPointer_eq closed beside
      unfold namesType
      simp only [aloneNext, placedNext, sameWord, sameStar, sameOpener]

/-- Both cursors agree on what the next word means. -/
theorem meaningAt_eq
    (closed : place.Closed)
    (context : Context)
    (seenType : Bool)
    (beside : Beside place (left + 1) alone placed) :
    meaningAt context seenType alone = meaningAt context seenType placed := by
  obtain ⟨aloneNext, placedNext⟩ := closed.peekNth_one beside
  have sameTypedefs : alone.session.isTypedefName = placed.session.isTypedefName := by
    unfold Session.isTypedefName
    rw [beside.session.typedefs]
  unfold meaningAt
  rw [beside.text_eq, aloneNext, placedNext, closed.isWord_eq beside.advance, sameTypedefs,
    namesType_eq closed context beside]

/-- Specifiers are read on their own as in place. -/
theorem specifiersUpTo_tracks
    (closed : place.Closed)
    (context : Context)
    {count steps : Nat}
    (seenType : Bool)
    (read : Option Specifiers)
    (beside : Beside place left alone placed)
    (enough : left < steps) :
    Tracks place left (specifiersUpTo context count seenType read alone)
      (specifiersUpTo context steps seenType read placed) := by
  induction count generalizing left alone placed steps seenType read with
  | zero => exact .failed _
  | succ count hypothesis =>
      obtain ⟨steps, rfl⟩ : ∃ fewer, steps = fewer + 1 := ⟨steps - 1, by omega⟩
      unfold specifiersUpTo
      rw [get_bind_run, get_bind_run, ← closed.isWord_eq beside]
      by_cases isWord : alone.peek.isWord = true
      · obtain ⟨left, rfl⟩ := beside.exists_succ (Token.not_isEnd_of_isWord isWord)
        have again (seenType : Bool) (read : Option Specifiers) {fewer : Nat}
            {after afterInPlace : Cursor} (less : fewer ≤ left)
            (beside : Beside place fewer after afterInPlace) :
            Tracks place (left + 1) (specifiersUpTo context count seenType read after)
              (specifiersUpTo context steps seenType read afterInPlace) :=
          (hypothesis seenType read beside (by omega)).weaken (by omega)
        have takes (flags : Flags) :
            Tracks place left (takeSpecifier flags alone) (takeSpecifier flags placed) := by
          unfold takeSpecifier
          rw [take_bind_run, take_bind_run, ← beside.text_eq]
          exact .done beside.advance (Nat.le_refl _) _
        rw [if_neg (by simp [isWord]), if_neg (by simp [isWord]),
          ← meaningAt_eq closed context seenType beside]
        cases meaning : meaningAt context seenType alone with
        | typedefWord =>
            refine .bind (takes .junk) ?_
            intro part _ _ _ _ less beside
            exact again _ _ less beside
        | modifier flags =>
            refine .bind (takes flags) ?_
            intro part _ _ _ _ less beside
            exact again _ _ less beside
        | typeWord flags =>
            refine .bind (takes flags) ?_
            intro part _ _ _ _ less beside
            exact again _ _ less beside
        | extensionWord =>
            dsimp only
            rw [discard_bind_run, discard_bind_run, take_bind_run, take_bind_run]
            exact again _ _ (Nat.le_refl _) beside.advance
        | «attribute» =>
            have isAttribute := attributes_contains_of_meaningAt meaning
            refine .bind (skipAttributes_tracks_succ closed beside isAttribute) ?_
            intro _ _ _ _ _ less beside
            exact again _ _ less beside
        | record =>
            refine .bind (recordSpecifier_tracks closed beside) ?_
            intro part _ _ _ _ less beside
            exact again _ _ less beside
        | enumeration =>
            refine .bind (enumSpecifier_tracks closed beside) ?_
            intro part _ _ _ _ less beside
            exact again _ _ less beside
        | typedefName =>
            refine .bind (typedefSpecifier_tracks beside) ?_
            intro part _ _ _ _ less beside
            exact again _ _ less beside
        | stop => exact .done beside (Nat.le_refl _) _
      · rw [if_pos (by simpa using isWord), if_pos (by simpa using isWord)]
        exact .done beside (Nat.le_refl _) _

/-- The specifiers of a declaration are read on their own as in place. -/
theorem declarationSpecifiers_tracks
    (closed : place.Closed)
    (context : Context)
    (beside : Beside place left alone placed) :
    Tracks place left (declarationSpecifiers context alone)
      (declarationSpecifiers context placed) := by
  unfold declarationSpecifiers
  rw [get_bind_run, get_bind_run]
  refine specifiersUpTo_tracks closed context false none beside ?_
  rw [beside.length.2]
  omega

end

end Grammar
end DeclManual
