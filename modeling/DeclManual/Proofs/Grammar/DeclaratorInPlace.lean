import DeclManual.Proofs.Grammar.InPlace
import Mathlib.Data.List.Induction

/-!
# Declarators on their own and in place

A declarator that is read on its own is read in the same way before a semicolon, a
comma or a closing parenthesis.  The only lookahead that goes beyond the next tokens
is that of an identifier list, which may run past the declarator if a parenthesis is
open there; but then the declarator is not complete on its own.
-/

namespace DeclManual
namespace Grammar

open Decl
open Source (Token)

/-- What follows divides or closes. -/
structure Place.Delimited (place : Place) : Prop where
  tail : ∃ stop rest, place.tail = stop :: rest ∧ stop.isEnd = false ∧ stop.isWord = false ∧
    (stop.text = ";" ∨ stop.text = "," ∨ stop.text = ")")

section

variable {place : Place} {left : Nat} {alone placed : Cursor}

/-- What is delimited on its own is closed. -/
theorem Place.Delimited.closed (delimited : place.Delimited) : place.Closed := by
  obtain ⟨stop, rest, isTail, notEnd, noWord, isStop⟩ := delimited.tail
  refine ⟨stop, rest, isTail, notEnd, noWord, ?_⟩
  rcases isStop with isStop | isStop | isStop
  · exact .inl isStop
  · exact .inr (.inl isStop)
  · exact .inr (.inr (.inl isStop))

/-- Both cursors agree on whether a parenthesis is opened. -/
theorem Place.Delimited.opener_eq
    (delimited : place.Delimited)
    (beside : Beside place left alone placed) :
    alone.peek.hasText "(" = placed.peek.hasText "(" := by
  refine beside.agree (·.hasText "(") (fun token => token.hasText_unplaced "(") ?_
  rintro rfl
  obtain ⟨stop, rest, isTail, -, -, isStop⟩ := delimited.tail
  have noOpener : stop.text ≠ "(" := by
    rcases isStop with isStop | isStop | isStop <;> simp [isStop]
  rw [Cursor.peek_eq_head (beside.rest_end.trans isTail), Token.hasText_of_text_ne noOpener,
    Token.hasText_of_text_ne (by simp [beside.peek_end.2])]

/-- A reading that lands has left fewer of the tokens. -/
theorem Beside.fewer_of_lands
    {fewer least : Nat}
    {after afterInPlace : Cursor}
    {result : EStateM.Result SyntaxError Cursor α}
    {value : α}
    (beside : Beside place left alone placed)
    (lands : Lands least alone.rest result)
    (read : result = .ok value after)
    (besideAfter : Beside place fewer after afterInPlace) :
    fewer + least ≤ left := by
  rw [read] at lands
  have length := lands.length
  rw [beside.length.1, besideAfter.length.1] at length
  omega

/-! ## Pointers and arrays -/

/-- The tail of a pointer operator is read on its own as in place. -/
theorem pointerTail_tracks
    (closed : place.Closed)
    {count steps : Nat}
    (text : String)
    (beside : Beside place left alone placed)
    (enough : left < steps) :
    Tracks place left (pointerTail count text alone) (pointerTail steps text placed) := by
  induction count generalizing left alone placed steps text with
  | zero => exact .failed _
  | succ count hypothesis =>
      obtain ⟨steps, rfl⟩ : ∃ fewer, steps = fewer + 1 := ⟨steps - 1, by omega⟩
      have again (text : String) {fewer : Nat} {after afterInPlace : Cursor} (less : fewer < left)
          (beside : Beside place fewer after afterInPlace) :
          Tracks place left (pointerTail count text after)
            (pointerTail steps text afterInPlace) :=
        (hypothesis text beside (by omega)).weaken (by omega)
      have sameText : qualifiers.contains alone.peek.text = qualifiers.contains placed.peek.text :=
        closed.contains_eq beside qualifiers (by decide)
      unfold pointerTail
      rw [peek_bind_run, peek_bind_run]
      refine .sees_bind (closed.hasText_eq beside (by decide)) ?_
      intro seen isStar
      cases seen with
      | true =>
          obtain ⟨fewer, rfl⟩ := beside.exists_succ (Token.not_isEnd_of_hasText isStar)
          rw [if_pos rfl, if_pos rfl, discard_bind_run, discard_bind_run, take_bind_run,
            take_bind_run]
          exact again _ (Nat.lt_succ_self _) beside.advance
      | false =>
          rw [if_neg Bool.false_ne_true, if_neg Bool.false_ne_true, ← sameText,
            ← closed.contains_eq beside attributes (by decide)]
          by_cases isQualifier : qualifiers.contains alone.peek.text = true
          · obtain ⟨fewer, rfl⟩ :=
              beside.exists_succ (peek_not_end_of_qualifier beside.input isQualifier)
            rw [if_pos isQualifier, if_pos isQualifier, discard_bind_run, discard_bind_run,
              take_bind_run, take_bind_run, ← beside.text_eq]
            exact again _ (Nat.lt_succ_self _) beside.advance
          rw [if_neg isQualifier, if_neg isQualifier]
          by_cases isAttribute : attributes.contains alone.peek.text = true
          · obtain ⟨fewer, rfl⟩ :=
              beside.exists_succ (peek_not_end_of_attribute beside.input isAttribute)
            rw [if_pos isAttribute, if_pos isAttribute]
            refine .bind (skipAttributes_tracks_succ closed beside isAttribute) ?_
            intro _ _ _ _ _ less beside
            exact again _ (Nat.lt_succ_of_le less) beside
          · rw [if_neg isAttribute, if_neg isAttribute]
            exact .done beside (Nat.le_refl _) _

/-- A pointer operator is read on its own as in place. -/
theorem pointer_tracks
    (closed : place.Closed)
    (beside : Beside place left alone placed) :
    Tracks place left (pointer alone) (pointer placed) := by
  unfold pointer
  refine .accept_bind beside (closed.hasText_eq beside (by decide)) ?_ ?_
  · rintro fewer rfl taken
    have filled := List.length_pos_iff.2 closed.tail_ne_nil
    have enough : fewer < placed.advance.rest.length := by
      rw [taken.length.2]
      omega
    rw [Option.isSome_some, Option.isSome_some, if_pos rfl, get_bind_run, get_bind_run]
    refine .bind (pointerTail_tracks closed "*" taken enough) ?_
    intro text _ _ _ _ less beside
    exact .done beside (Nat.le_succ_of_le less) _
  · exact .done beside (Nat.le_refl _) _

/-- The text of the tokens taken since both cursors stood beside each other. -/
theorem Beside.runText_eq
    {fewer : Nat}
    {after afterInPlace : Cursor}
    (beside : Beside place left alone placed)
    (besideAfter : Beside place fewer after afterInPlace)
    (afterWord : Bool) :
    runText afterWord (alone.rest.take (alone.rest.length - after.rest.length)) =
      runText afterWord (placed.rest.take (placed.rest.length - afterInPlace.rest.length)) := by
  have counts : alone.rest.length - after.rest.length = left - fewer ∧
      placed.rest.length - afterInPlace.rest.length = left - fewer := by
    rw [beside.length.1, beside.length.2, besideAfter.length.1, besideAfter.length.2]
    omega
  obtain ⟨tokens, others, ending, isAlone, isPlaced, same, length, -⟩ := beside.rest
  have sameLength := congrArg List.length same
  rw [List.length_map, List.length_map] at sameLength
  rw [counts.1, counts.2, isAlone, isPlaced, List.take_append_of_le_length (by omega),
    List.take_append_of_le_length (by omega), ← runText_unplaced, List.map_take, same,
    ← List.map_take, runText_unplaced]

/-- Brackets are read on their own as in place. -/
theorem bracketText_tracks
    (beside : Beside place left alone placed) :
    Tracks place left (bracketText alone) (bracketText placed) := by
  unfold bracketText
  rw [get_bind_run, get_bind_run]
  refine .bind (skipBalanced_tracks "[" "]" beside) ?_
  intro _ fewer after afterInPlace _ less besideAfter
  rw [get_bind_run, get_bind_run, beside.runText_eq besideAfter]
  exact .done besideAfter (by omega) _

/-! ## Lists of parameters -/

/-- What is done after the parts of a parameter have been read: its comments are taken,
and either the list is closed or further parameters follow. -/
def parameterEnd
    (more : List Parameter → Parse (List Parameter))
    (read : List Parameter)
    (spec : Option Spec)
    (shape : Option Declarator)
    (before : Option String) :
    Parse (List Parameter) := do
  let after ← trailingComments ","
  let parameter ← act fun session => session.newParameter spec shape before after.head?
  let read ← commentParameters (read ++ [parameter]) after.tail
  if (← get).justTook "," then more read
  else
    discard (expect ")")
    return read

/-- One step of parameters reads the parts of one and goes on at a comma. -/
theorem parameters_eq
    (fuel : Nat)
    (leading : Option String)
    (read : List Parameter) :
    parameters (fuel + 1) leading read = (do
      let token ← peek
      let comments := itemComment token.commentBefore leading
      let parts ← parameterParts fuel
      parameterEnd (parameters fuel comments.2) read parts.1 parts.2 comments.1) := by
  rw [parameters.eq_def]
  rfl

/-- One step of an identifier list reads one name and goes on at a comma. -/
theorem identifierList_eq
    (count : Nat)
    (leading : Option String)
    (read : List Parameter) :
    identifierList (count + 1) leading read = (do
      let name ← take
      let comments := itemComment name.commentBefore leading
      parameterEnd (identifierList count comments.2) read none (some (.identifier name.text))
        comments.1) :=
  rfl

/-- No list is closed at the end of the input. -/
theorem parameterEnd_fails
    {more : List Parameter → Parse (List Parameter)}
    (read : List Parameter)
    (spec : Option Spec)
    (shape : Option Declarator)
    (before : Option String)
    {cursor : Cursor}
    (input : EndsOnce cursor.rest)
    (ended : cursor.peek.isEnd = true)
    (stuck : ∀ read {after : Cursor}, EndsOnce after.rest → after.peek.isEnd = true →
      Fails (more read after)) :
    Fails (parameterEnd more read spec shape before cursor) := by
  unfold parameterEnd commentParameters
  refine .bind_of_end input ended (trailingComments_lands "," input) ?_
  intro comments after input ended
  simp only [act_bind_run, get_bind_run]
  split
  · exact stuck _ (by exact input) (by exact ended)
  · rw [discard_bind_run]
    apply Fails.bind
    rw [expect_run, if_neg]
    · exact .error
    · intro closes
      have notEnd : after.peek.isEnd = false := Token.not_isEnd_of_hasText closes
      rw [ended] at notEnd
      contradiction

/-- The end of a parameter is read on its own as in place. -/
theorem parameterEnd_tracks
    {more moreInPlace : List Parameter → Parse (List Parameter)}
    (read : List Parameter)
    (spec : Option Spec)
    (shape : Option Declarator)
    (before : Option String)
    (beside : Beside place left alone placed)
    (within : left < place.size)
    (stuck : ∀ read {after : Cursor}, EndsOnce after.rest → after.peek.isEnd = true →
      Fails (more read after))
    (again : ∀ read {fewer : Nat} {after afterInPlace : Cursor}, fewer ≤ left →
      Beside place fewer after afterInPlace →
      Tracks place left (more read after) (moreInPlace read afterInPlace)) :
    Tracks place left (parameterEnd more read spec shape before alone)
      (parameterEnd moreInPlace read spec shape before placed) := by
  cases left with
  | zero =>
      exact (parameterEnd_fails read spec shape before beside.input beside.peek_end.1 stuck).tracks
  | succ left =>
      unfold parameterEnd commentParameters
      refine .bind (trailingComments_tracks "," beside within) ?_
      intro comments _ _ _ _ less beside
      refine .bind (.act (Place.Steady.newParameter place spec shape before _) beside) ?_
      intro parameter _ _ _ _ lessAdded beside
      refine .bind (.act (Place.Steady.commentLastParameterAll place _ _) beside) ?_
      intro read final after afterInPlace _ lessCommented beside
      rw [get_bind_run, get_bind_run, ← beside.justTook_eq (by omega)]
      split
      · exact again read (by omega) beside
      · rw [discard_bind_run, discard_bind_run]
        refine .expect_bind beside ?_
        rintro fewer rfl - closed
        exact .done closed (by omega) read

/-- An identifier list fails where it is not closed. -/
theorem identifierList_fails
    (count : Nat)
    (leading : Option String)
    (read : List Parameter)
    {cursor : Cursor}
    (input : EndsOnce cursor.rest)
    (ended : cursor.peek.isEnd = true) :
    Fails (identifierList count leading read cursor) := by
  induction count generalizing leading read cursor with
  | zero => exact .error
  | succ count hypothesis =>
      have remains : cursor.advance.rest = cursor.rest := Cursor.rest_advance_of_end ended
      rw [identifierList_eq, take_bind_run]
      refine parameterEnd_fails read _ _ _ (endsOnce_advance input) ?_ ?_
      · unfold Cursor.peek
        rw [remains]
        exact ended
      · intro read after input ended
        exact hypothesis _ read input ended

/-- An identifier list is read on its own as in place. -/
theorem identifierList_tracks
    {count steps : Nat}
    (leading : Option String)
    (read : List Parameter)
    (beside : Beside place left alone placed)
    (within : left < place.size)
    (enough : left ≤ steps) :
    Tracks place left (identifierList count leading read alone)
      (identifierList steps leading read placed) := by
  induction count generalizing left alone placed steps leading read with
  | zero => exact .failed _
  | succ count hypothesis =>
      cases left with
      | zero =>
          exact (identifierList_fails _ leading read beside.input beside.peek_end.1).tracks
      | succ left =>
          obtain ⟨steps, rfl⟩ : ∃ fewer, steps = fewer + 1 := ⟨steps - 1, by omega⟩
          rw [identifierList_eq, identifierList_eq, take_bind_run, take_bind_run,
            ← beside.commentBefore_eq, ← beside.text_eq]
          refine (parameterEnd_tracks read _ _ _ beside.advance (by omega) ?_ ?_).weaken
            (Nat.le_succ _)
          · intro read after input ended
            exact identifierList_fails _ _ read input ended
          · intro read fewer after afterInPlace less beside
            exact (hypothesis _ read beside (by omega) (by omega)).weaken less

/-- Tokens that differ in their place are the same to a lookahead. -/
theorem Token.look_eq
    {token other : Token}
    (same : token.unplaced = other.unplaced) :
    token.isWord = other.isWord ∧ token.text = other.text ∧
      ∀ text, token.hasText text = other.hasText text := by
  refine ⟨?_, ?_, ?_⟩
  · rw [← Token.isWord_unplaced, same, Token.isWord_unplaced]
  · rw [← Token.text_unplaced, same, Token.text_unplaced]
  · intro text
    rw [← Token.hasText_unplaced, same, Token.hasText_unplaced]

/-- The lookahead of an identifier list at a word and what divides it from the next. -/
theorem identifierListRun_cons
    (session : Session)
    (name separator : Token)
    (rest : List Token) :
    identifierListRun session (name :: separator :: rest) =
      (name.isWord && !isKeyword name.text && !session.isTypedefName name.text &&
        (separator.hasText "," && identifierListRun session rest ||
          !separator.hasText "," && separator.hasText ")" &&
            (rest.head?.map fun after => after.hasText "\x7b" || after.isWord).getD false)) := by
  conv_lhs => unfold identifierListRun
  by_cases isOther :
      (!name.isWord || isKeyword name.text || session.isTypedefName name.text) = true
  · rw [if_pos isOther]
    cases isWord : name.isWord <;> cases keyword : isKeyword name.text <;> simp_all
  · rw [if_neg isOther]
    simp only [Bool.or_eq_true, Bool.not_eq_true', not_or, Bool.not_eq_true,
      Bool.not_eq_false] at isOther
    rw [isOther.1.1, isOther.1.2, isOther.2]
    cases separator.hasText "," <;> cases separator.hasText ")" <;> cases rest <;> simp

/-- A word is no closing parenthesis. -/
theorem WordsSpelled.not_closer
    {tokens : List Token}
    {token : Token}
    (spelled : WordsSpelled tokens)
    (member : token ∈ tokens)
    (isWord : token.isWord = true) :
    token.hasText ")" = false := by
  apply Token.hasText_of_text_ne
  intro isCloser
  obtain ⟨c, rest, text, starts⟩ := spelled token member isWord
  rw [isCloser] at text
  obtain ⟨rfl, -⟩ := List.cons.inj text
  contradiction

/-- Whether a body or a declaration of parameters comes next is the same in place. -/
theorem head?_map_inPlace
    (delimited : place.Delimited)
    {ending : Token}
    (ended : ending.isEnd = true)
    {tokens others : List Token}
    (same : tokens.map Token.unplaced = others.map Token.unplaced) :
    ((tokens ++ [ending]).head?.map fun after => after.hasText "\x7b" || after.isWord) =
      ((others ++ place.tail).head?.map fun after => after.hasText "\x7b" || after.isWord) := by
  rcases tokens with _ | ⟨after, tokens⟩
  · have none := List.map_eq_nil_iff.1 same.symm
    obtain ⟨stop, rest, isTail, -, noWord, isStop⟩ := delimited.tail
    have noBrace : stop.hasText "\x7b" = false := by
      apply Token.hasText_of_text_ne
      rcases isStop with isStop | isStop | isStop <;> simp [isStop]
    rw [none, isTail]
    simp only [List.nil_append, List.head?_cons, Option.map_some, Token.isWord_of_isEnd ended,
      Token.hasText_of_isEnd ended, noWord, noBrace]
  · rcases others with _ | ⟨afterInPlace, others⟩
    · simp at same
    obtain ⟨sameAfter, -, sameTexts⟩ := Token.look_eq (List.cons.inj same).1
    simp only [List.cons_append, List.head?_cons, Option.map_some, sameAfter, sameTexts]

/-- The lookahead of an identifier list is the same in place, unless it runs past the
tokens, none of which closes a parenthesis then. -/
theorem identifierListRun_inPlace
    (delimited : place.Delimited)
    (session : Session)
    {ending : Token}
    (ended : ending.isEnd = true)
    {tokens others : List Token}
    (same : tokens.map Token.unplaced = others.map Token.unplaced)
    (spelled : WordsSpelled tokens) :
    identifierListRun session (tokens ++ [ending]) =
        identifierListRun session (others ++ place.tail) ∨
      identifierListRun session (tokens ++ [ending]) = false ∧
        ∀ token ∈ tokens, token.hasText ")" = false := by
  have noEndingText := Token.hasText_of_isEnd ended
  induction tokens using List.twoStepInduction generalizing others with
  | nil =>
      right
      simp [identifierListRun]
  | singleton name =>
      obtain ⟨other, rfl⟩ : ∃ other, others = [other] :=
        List.length_eq_one_iff.1 (by simpa using (congrArg List.length same).symm)
      obtain ⟨sameWord, -⟩ := Token.look_eq (List.cons.inj same).1
      by_cases isWord : name.isWord = true
      · right
        refine ⟨?_, ?_⟩
        · simp [identifierListRun_cons, noEndingText]
        · intro token member
          rw [List.mem_singleton.1 member]
          exact spelled.not_closer List.mem_cons_self isWord
      · left
        obtain ⟨stop, rest, isTail, -⟩ := delimited.tail
        rw [isTail]
        simp only [List.cons_append, List.nil_append, identifierListRun_cons, ← sameWord, isWord,
          Bool.false_and]
  | cons_cons name separator tokens hypothesis _ =>
      rcases others with _ | ⟨other, _ | ⟨divider, others⟩⟩
      · simp at same
      · simp at same
      obtain ⟨sameName, sameRest⟩ := List.cons.inj same
      obtain ⟨sameSeparator, sameTokens⟩ := List.cons.inj sameRest
      obtain ⟨sameWord, sameText, -⟩ := Token.look_eq sameName
      obtain ⟨-, -, sameTexts⟩ := Token.look_eq sameSeparator
      have sameHead := head?_map_inPlace delimited ended sameTokens
      have spelledRest : WordsSpelled tokens := by
        intro token member
        exact spelled token (List.mem_cons_of_mem _ (List.mem_cons_of_mem _ member))
      simp only [List.cons_append, identifierListRun_cons, sameHead, ← sameWord, ← sameText,
        ← sameTexts]
      rcases hypothesis sameTokens spelledRest with agree | ⟨noList, noCloser⟩
      · left
        rw [agree]
      · by_cases isWord : name.isWord = true
        · by_cases isComma : separator.hasText "," = true
          · right
            refine ⟨?_, ?_⟩
            · simp [isComma, noList]
            intro token member
            rcases List.mem_cons.1 member with rfl | member
            · exact spelled.not_closer List.mem_cons_self isWord
            rcases List.mem_cons.1 member with rfl | member
            · apply Token.hasText_of_text_ne
              rw [Token.text_of_hasText isComma]
              decide
            · exact noCloser token member
          · left
            simp only [isComma, Bool.false_and]
        · left
          simp only [isWord, Bool.false_and]

/-! A list of parameters ends with a parenthesis. -/

/-- If a reading succeeds, one of some tokens closes a parenthesis. -/
def Closes (base : List Token) (result : EStateM.Result SyntaxError Cursor α) : Prop :=
  ∀ value after, result = .ok value after → ∃ token ∈ base, token.hasText ")" = true

theorem Closes.bind
    {base : List Token}
    {taken further : Nat}
    {cursor : Cursor}
    {first : Parse α}
    {next : α → Parse β}
    (here : Onward base taken cursor.rest)
    (lands : Lands further cursor.rest (first cursor))
    (continues : ∀ value after, Onward base (taken + further) after.rest →
      Closes base (next value after)) :
    Closes base ((first >>= next) cursor) := by
  rw [bind_run]
  cases result : first cursor with
  | error error after =>
      intro _ _ succeeded
      cases succeeded
  | ok value after =>
      rw [result] at lands
      exact continues value after (here.trans lands)

/-- The end of a parameter closes the list if what follows a comma does. -/
theorem parameterEnd_closes
    {base : List Token}
    {taken : Nat}
    {cursor : Cursor}
    {more : List Parameter → Parse (List Parameter)}
    (read : List Parameter)
    (spec : Option Spec)
    (shape : Option Declarator)
    (before : Option String)
    (here : Onward base taken cursor.rest)
    (again : ∀ read {after : Cursor}, Onward base taken after.rest →
      Closes base (more read after)) :
    Closes base (parameterEnd more read spec shape before cursor) := by
  unfold parameterEnd commentParameters
  refine .bind here (trailingComments_lands "," here.input) ?_
  intro comments after here
  simp only [act_bind_run, get_bind_run]
  split
  · exact again _ here
  · rw [discard_bind_run, bind_run, expect_run]
    intro value final succeeded
    by_cases closes : after.peek.hasText ")" = true
    · refine ⟨after.peek, here.suffix.subset ?_, closes⟩
      rw [Cursor.rest_eq_peek_cons here.input]
      exact List.mem_cons_self
    · rw [if_neg (by exact closes)] at succeeded
      cases succeeded

/-- Parameters are read up to the closing parenthesis. -/
theorem parameters_closes
    {base : List Token}
    {taken fuel : Nat}
    {cursor : Cursor}
    (leading : Option String)
    (read : List Parameter)
    (here : Onward base taken cursor.rest)
    (enough : 6 * base.length + 6 ≤ fuel + 6 * taken) :
    Closes base (parameters fuel leading read cursor) := by
  have length := here.length
  induction fuel generalizing leading read cursor taken with
  | zero => omega
  | succ fuel hypothesis =>
      rw [parameters_eq, peek_bind_run]
      refine .bind here ((DeclaratorsLand.all fuel).parameterParts here.input (by omega)) ?_
      intro parts shaped here
      refine parameterEnd_closes read _ _ _ here ?_
      intro read after here
      exact hypothesis _ read here (by omega) here.length

/-! ## Declarators -/

/-- Reading with enough fuel on its own, and with no less in place, the functions that read
declarators do the same. -/
structure DeclaratorsTrack (place : Place) (fuel steps : Nat) : Prop where
  declarator :
    ∀ {left : Nat} {alone placed : Cursor} (abstractAllowed : Bool),
      Beside place left alone placed → 6 * (left + 1) + 4 ≤ fuel →
      Tracks place left (declarator fuel abstractAllowed alone)
        (declarator steps abstractAllowed placed)
  directDeclarator :
    ∀ {left : Nat} {alone placed : Cursor} (abstractAllowed : Bool),
      Beside place left alone placed → 6 * (left + 1) + 3 ≤ fuel →
      Tracks place left (directDeclarator fuel abstractAllowed alone)
        (directDeclarator steps abstractAllowed placed)
  suffixes :
    ∀ {left : Nat} {alone placed : Cursor} (base : Option Declarator),
      Beside place left alone placed → 6 * (left + 1) + 2 ≤ fuel →
      Tracks place left (suffixes fuel base alone) (suffixes steps base placed)
  parameterList :
    ∀ {left : Nat} {alone placed : Cursor},
      Beside place left alone placed → 6 * (left + 1) + 1 ≤ fuel →
      Tracks place left (parameterList fuel alone) (parameterList steps placed)
  parameters :
    ∀ {left : Nat} {alone placed : Cursor} (leading : Option String) (read : List Parameter),
      Beside place left alone placed → left < place.size → 6 * (left + 1) + 6 ≤ fuel →
      Tracks place left (parameters fuel leading read alone)
        (parameters steps leading read placed)
  parameterParts :
    ∀ {left : Nat} {alone placed : Cursor},
      Beside place left alone placed → 6 * (left + 1) + 5 ≤ fuel →
      Tracks place left (parameterParts fuel alone) (parameterParts steps placed)

namespace DeclaratorsTrack

variable {fuel steps : Nat}

/-- With one more step of fuel a declarator is read on its own as in place. -/
theorem declarator_succ
    (closed : place.Closed)
    (track : DeclaratorsTrack place fuel steps)
    (abstractAllowed : Bool)
    (beside : Beside place left alone placed)
    (enough : 6 * (left + 1) + 4 ≤ fuel + 1) :
    Tracks place left (Grammar.declarator (fuel + 1) abstractAllowed alone)
      (Grammar.declarator (steps + 1) abstractAllowed placed) := by
  unfold Grammar.declarator
  refine .bind (pointer_tracks closed beside) ?_
  intro operator _ _ _ _ less beside
  refine .bind (track.directDeclarator abstractAllowed beside (by omega)) ?_
  intro direct _ _ _ _ lessDirect beside
  exact .done beside (by omega) _

/-- Both cursors agree on whether a nested declarator is opened. -/
theorem opensNested_eq
    (delimited : place.Delimited)
    (beside : Beside place (left + 1) alone placed) :
    opensNested alone = opensNested placed := by
  have closed := delimited.closed
  have taken := beside.advance
  obtain ⟨aloneNext, placedNext⟩ := closed.peekNth_one beside
  have sameTypedefs : alone.session.isTypedefName = placed.session.isTypedefName := by
    unfold Session.isTypedefName
    rw [beside.session.typedefs]
  have sameName :
      (alone.advance.peek.isWord && !isKeyword alone.advance.peek.text &&
          !placed.session.isTypedefName alone.advance.peek.text) =
        (placed.advance.peek.isWord && !isKeyword placed.advance.peek.text &&
          !placed.session.isTypedefName placed.advance.peek.text) := by
    cases left with
    | zero =>
        have noWord := (closed.stop taken).2.1
        rw [closed.isWord_eq taken, noWord]
        rfl
    | succ left => rw [closed.isWord_eq taken, taken.text_eq]
  unfold opensNested
  simp only [aloneNext, placedNext, sameTypedefs, sameName, delimited.opener_eq taken]
  rw [closed.hasText_eq taken (by decide), closed.hasText_eq taken (by decide)]

/-- With one more step of fuel a direct declarator is read on its own as in place. -/
theorem directDeclarator_succ
    (delimited : place.Delimited)
    (track : DeclaratorsTrack place fuel steps)
    (abstractAllowed : Bool)
    (beside : Beside place left alone placed)
    (enough : 6 * (left + 1) + 3 ≤ fuel + 1) :
    Tracks place left (Grammar.directDeclarator (fuel + 1) abstractAllowed alone)
      (Grammar.directDeclarator (steps + 1) abstractAllowed placed) := by
  have sameName : (alone.peek.isWord && !isKeyword alone.peek.text) =
      (placed.peek.isWord && !isKeyword placed.peek.text) := by
    cases left with
    | zero =>
        rw [delimited.closed.isWord_eq beside, (delimited.closed.stop beside).2.1]
        rfl
    | succ left => rw [delimited.closed.isWord_eq beside, beside.text_eq]
  have sameNested : (alone.peek.hasText "(" && (!abstractAllowed || opensNested alone)) =
      (placed.peek.hasText "(" && (!abstractAllowed || opensNested placed)) := by
    cases left with
    | zero =>
        have noOpener : alone.peek.hasText "(" = false :=
          Token.hasText_of_text_ne (by simp [beside.peek_end.2])
        rw [← delimited.opener_eq beside, noOpener]
        rfl
    | succ left => rw [delimited.opener_eq beside, opensNested_eq delimited beside]
  unfold Grammar.directDeclarator
  rw [get_bind_run, get_bind_run, ← sameName, ← sameNested]
  by_cases isName : (alone.peek.isWord && !isKeyword alone.peek.text) = true
  · have isWord : alone.peek.isWord = true := by
      simp only [Bool.and_eq_true] at isName
      exact isName.1
    obtain ⟨fewer, rfl⟩ := beside.exists_succ (Token.not_isEnd_of_isWord isWord)
    rw [if_pos isName, if_pos isName, take_bind_run, take_bind_run, ← beside.text_eq]
    exact (track.suffixes _ beside.advance (by omega)).weaken (Nat.le_succ _)
  rw [if_neg isName, if_neg isName]
  by_cases nested : (alone.peek.hasText "(" && (!abstractAllowed || opensNested alone)) = true
  · have opens : alone.peek.hasText "(" = true := by
      simp only [Bool.and_eq_true] at nested
      exact nested.1
    obtain ⟨fewer, rfl⟩ := beside.exists_succ (Token.not_isEnd_of_hasText opens)
    rw [if_pos nested, if_pos nested, discard_bind_run, discard_bind_run, take_bind_run,
      take_bind_run]
    refine .bind (track.declarator abstractAllowed beside.advance (by omega)) ?_
    intro inner _ _ _ _ less beside
    rw [discard_bind_run, discard_bind_run]
    refine .expect_bind beside ?_
    rintro fewer rfl - closed
    exact (track.suffixes _ closed (by omega)).weaken (by omega)
  rw [if_neg nested, if_neg nested]
  cases abstractAllowed with
  | true => exact track.suffixes none beside (by omega)
  | false => exact .failed _

/-- With one more step of fuel suffixes are read on their own as in place. -/
theorem suffixes_succ
    (delimited : place.Delimited)
    (track : DeclaratorsTrack place fuel steps)
    (base : Option Declarator)
    (beside : Beside place left alone placed)
    (enough : 6 * (left + 1) + 2 ≤ fuel + 1) :
    Tracks place left (Grammar.suffixes (fuel + 1) base alone)
      (Grammar.suffixes (steps + 1) base placed) := by
  have closed := delimited.closed
  have start := beside
  have again (shape : Option Declarator) {fewer : Nat} {after afterInPlace : Cursor}
      (less : fewer + 1 ≤ left) (beside : Beside place fewer after afterInPlace) :
      Tracks place left (Grammar.suffixes fuel shape after)
        (Grammar.suffixes steps shape afterInPlace) :=
    (track.suffixes shape beside (by omega)).weaken (by omega)
  unfold Grammar.suffixes
  refine .sees_bind (closed.hasText_eq beside (by decide)) ?_
  intro seen _
  cases seen with
  | true =>
      refine .bind (bracketText_tracks beside) ?_
      intro suffix fewer after _ read _ beside
      exact again _ (start.fewer_of_lands (bracketText_lands start.input) read beside) beside
  | false =>
      rw [if_neg Bool.false_ne_true, if_neg Bool.false_ne_true]
      refine .sees_bind (delimited.opener_eq beside) ?_
      intro seen _
      cases seen with
      | true =>
          refine .bind (track.parameterList beside (by omega)) ?_
          intro parameters fewer after _ read _ beside
          have lands := (DeclaratorsLand.all fuel).parameterList start.input
            (by rw [start.length.1]; omega)
          exact again _ (start.fewer_of_lands lands read beside) beside
      | false =>
          rw [if_neg Bool.false_ne_true, if_neg Bool.false_ne_true, peek_bind_run, peek_bind_run,
            ← closed.contains_eq beside attributes (by decide)]
          by_cases isAttribute : attributes.contains alone.peek.text = true
          · rw [if_pos isAttribute, if_pos isAttribute]
            refine .bind (skipAttributes_tracks closed beside) ?_
            intro _ fewer after _ read _ beside
            have lands := skipAttributes_lands_succ start.input isAttribute
            exact again _ (start.fewer_of_lands lands read beside) beside
          · rw [if_neg isAttribute, if_neg isAttribute]
            exact .done beside (Nat.le_refl _) _

/-- Parameters are not read where nothing closes their list. -/
theorem parameters_fails
    {cursor : Cursor}
    (leading : Option String)
    (read : List Parameter)
    (input : EndsOnce cursor.rest)
    (noCloser : ∀ token ∈ cursor.rest, token.hasText ")" = false)
    (enough : 6 * cursor.rest.length + 6 ≤ fuel) :
    Fails (Grammar.parameters fuel leading read cursor) := by
  intro value after succeeded
  obtain ⟨token, member, closes⟩ :=
    parameters_closes leading read (.refl input) enough value after succeeded
  rw [noCloser token member] at closes
  contradiction

/-- With one more step of fuel a parameter list is read on its own as in place. -/
theorem parameterList_succ
    (delimited : place.Delimited)
    (track : DeclaratorsTrack place fuel steps)
    (beside : Beside place left alone placed)
    (enough : 6 * (left + 1) + 1 ≤ fuel + 1) :
    Tracks place left (Grammar.parameterList (fuel + 1) alone)
      (Grammar.parameterList (steps + 1) placed) := by
  unfold Grammar.parameterList
  refine .expect_bind beside ?_
  rintro fewer rfl - opened
  have within := beside.within
  obtain ⟨tokens, others, ending, isAlone, isPlaced, same, length, -⟩ := opened.rest
  have input := opened.input
  rw [isAlone] at input
  have ended := input.last_isEnd
  have noEndingText := Token.hasText_of_isEnd ended ")"
  have fails (noCloser : ∀ token ∈ tokens, token.hasText ")" = false) :
      Fails (Grammar.parameters fuel alone.peek.commentAfter [] alone.advance) := by
    refine parameters_fails _ _ opened.input ?_ (by rw [opened.length.1]; omega)
    rw [isAlone]
    intro token member
    rcases List.mem_append.1 member with member | member
    · exact noCloser token member
    · rw [List.mem_singleton.1 member]
      exact noEndingText
  cases fewer with
  | zero =>
      have none := List.length_eq_zero_iff.1 length
      have noCloser : alone.advance.peek.hasText ")" = false :=
        Token.hasText_of_text_ne (by simp [opened.peek_end.2])
      have noList : identifierListRun alone.advance.session alone.advance.rest = false := by
        rw [isAlone, none]
        rfl
      rw [accept_bind_run, noCloser, if_neg (by simp), Option.isSome_none, if_neg (by simp),
        get_bind_run, noList, if_neg (by simp)]
      apply Fails.tracks
      apply fails
      simp [none]
  | succ fewer =>
      refine .accept_bind opened (opened.hasText_eq ")") ?_ ?_
      · rintro _ isFewer closed
        exact .done closed (by omega) []
      · rw [Option.isSome_none, if_neg (by simp), if_neg (by simp), get_bind_run, get_bind_run,
          ← identifierListRun_congr opened.session.typedefs, ← beside.commentAfter_eq]
        have spelled : WordsSpelled tokens := by
          intro token member
          exact opened.spelled token (by rw [isAlone]; exact List.mem_append_left _ member)
        rcases identifierListRun_inPlace delimited alone.advance.session ended same spelled with
          agree | ⟨noList, noCloser⟩
        · rw [isPlaced, ← agree, ← isAlone]
          split
          · refine (identifierList_tracks _ [] opened (by omega) ?_).weaken (Nat.le_succ _)
            rw [← isPlaced, opened.length.2]
            omega
          · exact (track.parameters _ [] opened (by omega) (by omega)).weaken (Nat.le_succ _)
        · rw [isAlone, noList, if_neg (by simp)]
          apply Fails.tracks
          exact fails noCloser

/-- With one more step of fuel the parts of a parameter are read on their own as in place.
-/
theorem parameterParts_succ
    (closed : place.Closed)
    (track : DeclaratorsTrack place fuel steps)
    (beside : Beside place left alone placed)
    (enough : 6 * (left + 1) + 5 ≤ fuel + 1) :
    Tracks place left (Grammar.parameterParts (fuel + 1) alone)
      (Grammar.parameterParts (steps + 1) placed) := by
  unfold Grammar.parameterParts
  refine .accept_bind beside (closed.hasText_eq beside (by decide)) ?_ ?_
  · rintro fewer rfl taken
    exact .done taken (Nat.le_succ _) _
  · rw [Option.isSome_none, if_neg (by simp), if_neg (by simp)]
    refine .bind (declarationSpecifiers_tracks closed .parameter beside) ?_
    intro specifiers _ _ _ _ less beside
    refine .bind (track.declarator true beside (by omega)) ?_
    intro shape _ _ _ _ lessShaped beside
    split
    · exact .failed _
    · exact .done beside (by omega) _

/-- With one more step of fuel parameters are read on their own as in place. -/
theorem parameters_succ
    (track : DeclaratorsTrack place fuel steps)
    (leading : Option String)
    (read : List Parameter)
    (beside : Beside place left alone placed)
    (within : left < place.size)
    (enough : 6 * (left + 1) + 6 ≤ fuel + 1) :
    Tracks place left (Grammar.parameters (fuel + 1) leading read alone)
      (Grammar.parameters (steps + 1) leading read placed) := by
  have lands := (DeclaratorsLand.all fuel).parameterParts beside.input
    (by rw [beside.length.1]; omega)
  have sameBefore : 0 < left → alone.peek.commentBefore = placed.peek.commentBefore := by
    intro positive
    obtain ⟨fewer, rfl⟩ : ∃ fewer, left = fewer + 1 := ⟨left - 1, by omega⟩
    exact beside.commentBefore_eq
  rw [parameters_eq, parameters_eq, peek_bind_run, peek_bind_run]
  refine .bind (track.parameterParts beside (by omega)) ?_
  intro parts fewer shaped _ shapes _ besideShaped
  have less := beside.fewer_of_lands lands shapes besideShaped
  rw [← sameBefore (by omega)]
  refine (parameterEnd_tracks read _ _ _ besideShaped (by omega) ?_ ?_).weaken (by omega)
  · intro read after input ended
    have onlyEnd := Cursor.rest_of_end input ended
    refine parameters_fails _ read input ?_ (by rw [onlyEnd, List.length_singleton]; omega)
    rw [onlyEnd]
    intro token member
    rw [List.mem_singleton.1 member]
    exact Token.hasText_of_isEnd ended ")"
  · intro read fewer after afterInPlace lessFurther besideFurther
    exact (track.parameters _ read besideFurther (by omega) (by omega)).weaken lessFurther

/-- A reading of declarators on its own is followed in place. -/
theorem all
    (delimited : place.Delimited)
    {fuel steps : Nat}
    (enough : fuel ≤ steps) :
    DeclaratorsTrack place fuel steps := by
  induction fuel generalizing steps with
  | zero =>
      constructor <;> intros <;> exfalso <;> omega
  | succ fuel hypothesis =>
      obtain ⟨steps, rfl⟩ : ∃ fewer, steps = fewer + 1 := ⟨steps - 1, by omega⟩
      have track := hypothesis (Nat.le_of_succ_le_succ enough)
      exact {
        declarator := track.declarator_succ delimited.closed
        directDeclarator := track.directDeclarator_succ delimited
        suffixes := track.suffixes_succ delimited
        parameterList := track.parameterList_succ delimited
        parameters := track.parameters_succ
        parameterParts := track.parameterParts_succ delimited.closed
      }

end DeclaratorsTrack

end

end Grammar
end DeclManual
