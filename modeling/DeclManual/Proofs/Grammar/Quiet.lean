import DeclManual.Proofs.Grammar.DeclaratorInPlace

/-!
# Reading without comments

What is told to a session while specifiers and declarators without comments are
read: enumerator lists at most, and never a diagnostic.  The token taken last is a
word, a star or a closing bracket, but no comma.
-/

namespace DeclManual
namespace Grammar

open Decl
open Source (Token)

/-- A cursor before tokens without comments, in a session that differs from another in
its position and its enumerator lists.  Unless it may be, the token taken last is no
comma. -/
structure Quiet (base : Session) (comma : Bool) (cursor : Cursor) : Prop where
  session : ∃ source enums enumTags,
    cursor.session = { base with source, enums, enumTags } ∧
      source.unplaced = base.source.unplaced
  uncommented : ∀ token ∈ cursor.rest, token.commentBefore = none ∧ token.commentAfter = none
  spelled : WordsSpelled cursor.rest
  previous : ∀ token ∈ cursor.previous, token.commentAfter = none
  noComma : cursor.justTook "," = true → comma = true

variable {α β : Type} {base : Session} {comma other : Bool} {cursor : Cursor}

theorem WordsSpelled.peek
    (spelled : WordsSpelled cursor.rest)
    (isWord : cursor.peek.isWord = true) :
    ∃ c rest, cursor.peek.text.toList = c :: rest ∧ Source.startsWord c = true := by
  rcases tokens : cursor.rest with _ | ⟨token, rest⟩
  · simp [Cursor.peek, tokens, Cursor.endToken, Token.isWord] at isWord
  · rw [Cursor.peek_eq_head tokens] at isWord ⊢
    exact spelled token (by simp [tokens]) isWord

/-- A word is no mark. -/
theorem WordsSpelled.hasText_peek
    (spelled : WordsSpelled cursor.rest)
    (isWord : cursor.peek.isWord = true)
    {text : String}
    (isMark : text.toList.head?.map Source.startsWord = some false) :
    cursor.peek.hasText text = false := by
  apply Token.hasText_of_text_ne
  rintro rfl
  obtain ⟨c, rest, isText, starts⟩ := spelled.peek isWord
  rw [isText, List.head?_cons, Option.map_some, starts] at isMark
  contradiction

namespace Quiet

/-- What may be a comma need not be one. -/
theorem weaken (quiet : Quiet base false cursor) : Quiet base comma cursor :=
  { quiet with noComma := fun justTook => absurd (quiet.noComma justTook) Bool.false_ne_true }

/-- No comment stands before the next token. -/
theorem commentBefore_peek (quiet : Quiet base comma cursor) :
    cursor.peek.commentBefore = none := by
  rcases tokens : cursor.rest with _ | ⟨token, rest⟩
  · simp [Cursor.peek, tokens, Cursor.endToken]
  · rw [Cursor.peek_eq_head tokens]
    exact (quiet.uncommented token (by simp [tokens])).1

/-- No comment stands after the next token. -/
theorem commentAfter_peek (quiet : Quiet base comma cursor) :
    cursor.peek.commentAfter = none := by
  rcases tokens : cursor.rest with _ | ⟨token, rest⟩
  · simp [Cursor.peek, tokens, Cursor.endToken]
  · rw [Cursor.peek_eq_head tokens]
    exact (quiet.uncommented token (by simp [tokens])).2

/-- No comment is left behind the token taken last. -/
theorem trailingComment (quiet : Quiet base comma cursor) : cursor.trailingComment = none := by
  unfold Cursor.trailingComment
  cases isPrevious : cursor.previous with
  | none => rfl
  | some token => exact quiet.previous token isPrevious

/-- Taking any token. -/
theorem advance (quiet : Quiet base comma cursor) : Quiet base true cursor.advance where
  session := by
    obtain ⟨source, enums, enumTags, isSession, isSource⟩ := quiet.session
    refine ⟨cursor.advance.session.source, enums, enumTags, ?_, ?_⟩
    · rw [Cursor.session_advance]
      simp only [Cursor.sync, isSession]
    · rw [Cursor.session_advance, ← isSource]
      simp only [Cursor.sync, isSession, SourceState.unplaced]
  uncommented := fun token member =>
    quiet.uncommented token (cursor.rest_advance_suffix.subset member)
  spelled := fun token member => quiet.spelled token (cursor.rest_advance_suffix.subset member)
  previous := by
    intro token isPrevious
    by_cases ended : cursor.peek.isEnd = true
    · have same : cursor.advance.previous = cursor.previous := by
        simp [Cursor.advance, ended, Cursor.sync]
      rw [same] at isPrevious
      exact quiet.previous token isPrevious
    · rw [Cursor.previous_advance (by simpa using ended)] at isPrevious
      obtain rfl := Option.some.inj isPrevious
      exact quiet.commentAfter_peek
  noComma := fun _ => rfl

/-- Taking a token that is no comma. -/
theorem advance_of_ne
    (quiet : Quiet base comma cursor)
    (notEnd : cursor.peek.isEnd = false)
    (noComma : cursor.peek.hasText "," = false) :
    Quiet base other cursor.advance := by
  refine { quiet.advance with noComma := ?_ }
  intro justTook
  rw [Cursor.justTook_of_previous (Cursor.previous_advance notEnd), noComma] at justTook
  contradiction

/-- Taking a token that is no comma, or staying at the end of the input. -/
theorem advance_same
    (quiet : Quiet base comma cursor)
    (noComma : cursor.peek.hasText "," = false) :
    Quiet base comma cursor.advance := by
  by_cases ended : cursor.peek.isEnd = true
  · refine { quiet.advance with noComma := ?_ }
    have same : cursor.advance.previous = cursor.previous := by
      simp [Cursor.advance, ended, Cursor.sync]
    unfold Cursor.justTook
    rw [same]
    exact quiet.noComma
  · exact quiet.advance_of_ne (by simpa using ended) noComma

/-- Taking a word. -/
theorem advance_word
    (quiet : Quiet base comma cursor)
    (isWord : cursor.peek.isWord = true) :
    Quiet base other cursor.advance := by
  have noComma : cursor.peek.hasText "," = false :=
    quiet.spelled.hasText_peek isWord (by decide)
  exact quiet.advance_of_ne (Token.not_isEnd_of_isWord isWord) noComma

/-- Taking a token with a given text. -/
theorem advance_text
    {text : String}
    (quiet : Quiet base comma cursor)
    (hasText : cursor.peek.hasText text = true)
    (noComma : text ≠ ",") :
    Quiet base other cursor.advance := by
  refine quiet.advance_of_ne (Token.not_isEnd_of_hasText hasText) ?_
  apply Token.hasText_of_text_ne
  rw [Token.text_of_hasText hasText]
  exact noComma

theorem advanceBy
    (quiet : Quiet base true cursor)
    (count : Nat) :
    Quiet base true (cursor.advanceBy count) := by
  induction count generalizing cursor with
  | zero => exact quiet
  | succ count hypothesis => exact hypothesis quiet.advance

end Quiet

/-- A reading that leaves a quiet cursor where it succeeds. -/
def StaysQuiet
    (base : Session)
    (comma : Bool)
    (result : EStateM.Result SyntaxError Cursor α) : Prop :=
  ∀ value after, result = .ok value after → Quiet base comma after

namespace StaysQuiet

theorem done
    (quiet : Quiet base comma cursor)
    (value : α) :
    StaysQuiet base comma (.ok value cursor) := by
  intro _ _ succeeded
  cases succeeded
  exact quiet

theorem failed
    {error : SyntaxError} :
    StaysQuiet base comma (.error error cursor : EStateM.Result SyntaxError Cursor α) := by
  intro _ _ succeeded
  cases succeeded

/-- One reading after another. -/
theorem bind
    {first : Parse α}
    {next : α → Parse β}
    (quiet : StaysQuiet base other (first cursor))
    (continues : ∀ value {after : Cursor}, Quiet base other after →
      StaysQuiet base comma (next value after)) :
    StaysQuiet base comma ((first >>= next) cursor) := by
  rw [bind_run]
  cases result : first cursor with
  | ok value after => exact continues value (quiet value after result)
  | error error after => exact .failed

/-- A token that has to be there. -/
theorem expect_bind
    {text : String}
    {next : Token → Parse β}
    (quiet : Quiet base other cursor)
    (noComma : text ≠ ",")
    (continues : Quiet base comma cursor.advance →
      StaysQuiet base comma (next cursor.peek cursor.advance)) :
    StaysQuiet base comma ((expect text >>= next) cursor) := by
  rw [bind_run, expect_run]
  by_cases matching : cursor.peek.hasText text = true
  · rw [if_pos matching]
    exact continues (quiet.advance_text matching noComma)
  · rw [if_neg matching]
    exact .failed

/-- An action that adds no more than enumerator lists. -/
theorem act
    {action : Session → Session × α}
    (quiet : Quiet base comma cursor)
    (source : SourceState)
    (enums : EnumStore)
    (enumTags : Symbol.Table)
    (isSession : (action cursor.session).1 = { base with source, enums, enumTags })
    (isSource : source.unplaced = base.source.unplaced) :
    StaysQuiet base comma (Grammar.act action cursor) := by
  rw [act_run]
  have acted : Quiet base comma { cursor with session := (action cursor.session).1 } :=
    ⟨⟨source, enums, enumTags, isSession, isSource⟩, quiet.uncommented, quiet.spelled,
      quiet.previous, quiet.noComma⟩
  exact .done acted _

end StaysQuiet

/-! ## Skipping -/

/-- The bracket that closes a run is no comma. -/
theorem Quiet.closingRun
    {close : String}
    {depth length : Nat}
    (quiet : Quiet base true cursor)
    (run : closingRun close depth cursor.rest = (length, true)) :
    Quiet base comma (cursor.advanceBy length) := by
  generalize isRest : cursor.rest = tokens at run
  induction tokens generalizing cursor depth length with
  | nil => cases run
  | cons token tokens hypothesis =>
      have isToken := Cursor.peek_eq_head isRest
      unfold Grammar.closingRun at run
      by_cases isEnd : token.isEnd = true
      · rw [if_pos isEnd] at run
        cases run
      rw [if_neg isEnd] at run
      have notEnd : cursor.peek.isEnd = false := by
        rw [isToken]
        simpa using isEnd
      have remains : cursor.advance.rest = tokens := by
        rw [Cursor.rest_advance notEnd, isRest]
        rfl
      have further (depth : Nat)
          (run : ((Grammar.closingRun close depth tokens).1 + 1,
            (Grammar.closingRun close depth tokens).2) = (length, true)) :
          Quiet base comma (cursor.advanceBy length) := by
        obtain ⟨rfl, isClosed⟩ := Prod.mk.inj run
        have after : Quiet base comma (cursor.advance.advanceBy _) :=
          hypothesis quiet.advance remains (Prod.ext rfl isClosed)
        exact after
      by_cases opens : (token.kind == .punctuator && isOpener token.text) = true
      · rw [if_pos opens] at run
        exact further (depth + 1) run
      rw [if_neg opens] at run
      by_cases closes : (token.kind == .punctuator && isCloser token.text) = true
      · rw [if_pos closes] at run
        cases depth with
        | zero =>
            obtain ⟨rfl, -⟩ := Prod.mk.inj run
            refine quiet.advance_of_ne notEnd (Token.hasText_of_text_ne ?_)
            rw [isToken]
            intro isComma
            simp [isComma, isCloser] at closes
        | succ depth => exact further depth run
      · rw [if_neg closes] at run
        exact further depth run

/-- The search for a closing bracket stays quiet. -/
theorem skipUntilClose_quiet
    (close : String)
    (quiet : Quiet base true cursor) :
    StaysQuiet base comma (skipUntilClose close cursor) := by
  unfold skipUntilClose
  rw [get_bind_run]
  cases run : closingRun close 0 cursor.rest with
  | mk count closed =>
      cases closed with
      | true => exact .done (quiet.closingRun run) ()
      | false => exact .failed

/-- Skipping a bracketed run stays quiet. -/
theorem skipBalanced_quiet
    {opener : String}
    (close : String)
    (noComma : opener ≠ ",")
    (quiet : Quiet base true cursor) :
    StaysQuiet base comma (skipBalanced opener close cursor) := by
  unfold skipBalanced
  rw [discard_bind_run]
  refine .expect_bind quiet noComma ?_
  intro _
  exact skipUntilClose_quiet close quiet.advance

/-- Skipping a group stays quiet. -/
theorem skipGroup_quiet
    {opener : String}
    (close : String)
    (noComma : opener ≠ ",")
    (quiet : Quiet base comma cursor) :
    StaysQuiet base comma (skipGroup opener close cursor) := by
  unfold skipGroup
  rw [sees_bind_run]
  split
  · exact skipBalanced_quiet close noComma { quiet with noComma := fun _ => rfl }
  · exact .done quiet ()

/-- Skipping attributes stays quiet, by induction on their number. -/
theorem skipAttributesUpTo_quiet
    (count : Nat)
    (quiet : Quiet base comma cursor) :
    StaysQuiet base comma (skipAttributesUpTo count cursor) := by
  induction count generalizing cursor with
  | zero => exact .failed
  | succ count hypothesis =>
      unfold skipAttributesUpTo
      rw [peek_bind_run]
      split
      · rename_i isAttribute
        have noComma : cursor.peek.hasText "," = false := by
          apply Token.hasText_of_text_ne
          intro isComma
          rw [isComma] at isAttribute
          revert isAttribute
          decide
        rw [discard_bind_run, take_bind_run]
        refine .bind (skipGroup_quiet ")" (by decide) (quiet.advance_same noComma)) ?_
        intro _ after quiet
        exact hypothesis quiet
      · exact .done quiet ()

/-- Skipping all attributes stays quiet. -/
theorem skipAttributes_quiet (quiet : Quiet base comma cursor) :
    StaysQuiet base comma (skipAttributes cursor) :=
  skipAttributesUpTo_quiet cursor.rest.length quiet

/-- A comment may stand before attributes. -/
theorem skipAttributes_quiet_first
    (isAttribute : attributes.contains cursor.peek.text = true)
    (quiet : Quiet base comma cursor.advance) :
    StaysQuiet base comma (skipAttributes cursor) := by
  unfold skipAttributes
  rw [get_bind_run]
  cases cursor.rest.length with
  | zero => exact .failed
  | succ count =>
      unfold skipAttributesUpTo
      rw [peek_bind_run, if_pos isAttribute, discard_bind_run, take_bind_run]
      refine .bind (skipGroup_quiet ")" (by decide) quiet) ?_
      intro _ after quiet
      exact skipAttributesUpTo_quiet count quiet

/-- Skipping a value stays quiet, though it may end at a comma. -/
theorem skipValue_quiet
    (stops : List String)
    (quiet : Quiet base true cursor) :
    StaysQuiet base true (skipValue stops cursor) := by
  unfold skipValue skipExpression
  rw [accept_bind_run]
  split
  · rw [Option.isSome_some, if_pos rfl, get_bind_run]
    cases run : expressionRun stops 0 cursor.advance.rest with
    | mk count found =>
        cases found with
        | stop => exact .done (quiet.advance.advanceBy count) ()
        | unbalanced => exact .failed
        | endOfFile => exact .failed
  · exact .done quiet ()

/-! ## Specifiers -/

/-- Reading a tag stays quiet. -/
theorem optionalTag_quiet (quiet : Quiet base comma cursor) :
    StaysQuiet base comma (optionalTag cursor) := by
  unfold optionalTag
  rw [peek_bind_run]
  split
  · rename_i isWord
    exact .done (quiet.advance_word isWord) _
  · exact .done quiet _

/-- Reading the specifier of a structure stays quiet. -/
theorem recordSpecifier_quiet (quiet : Quiet base comma cursor.advance) :
    StaysQuiet base comma (recordSpecifier cursor) := by
  unfold recordSpecifier
  rw [take_bind_run]
  refine .bind (skipAttributes_quiet quiet) ?_
  intro _ _ quiet
  refine .bind (optionalTag_quiet quiet) ?_
  intro tag _ quiet
  refine .bind (skipGroup_quiet _ (by decide) quiet) ?_
  intro _ _ quiet
  refine .bind (skipAttributes_quiet quiet) ?_
  intro _ _ quiet
  exact .done quiet _

/-- There are no comments around the end of an item. -/
theorem trailingComments_quiet
    (quiet : Quiet base true cursor)
    (separator : String) :
    ∃ after, trailingComments separator cursor = .ok [] after ∧ Quiet base true after := by
  rw [trailingComments_run, quiet.trailingComment, quiet.commentBefore_peek,
    quiet.commentAfter_peek]
  split
  · exact ⟨_, rfl, quiet.advance⟩
  · exact ⟨_, rfl, quiet⟩

/-- Adding an enumerator changes the enumerator lists alone. -/
theorem addEnumerator_quiet
    (tag : Option String)
    (list : Option ListId)
    (enumerator : Enumerator)
    (quiet : Quiet base comma cursor) :
    StaysQuiet base comma (addEnumerator tag list enumerator cursor) := by
  obtain ⟨source, enums, enumTags, isSession, isSource⟩ := quiet.session
  rw [addEnumerator_eq]
  cases list with
  | some list =>
      refine .act quiet source (enums.append list enumerator) enumTags ?_ isSource
      simp only [Session.appendEnumerator, isSession]
  | none =>
      cases tag with
      | none =>
          refine .act quiet source (enums.start enumerator).1 enumTags ?_ isSource
          simp only [Session.newEnumList, isSession]
      | some tag =>
          refine .act quiet source (enums.start enumerator).1
            (enumTags.register tag (enums.start enumerator).2) ?_ isSource
          simp only [Session.newEnumList, Session.registerEnumTag, isSession]

/-- Reading enumerators stays quiet, by induction on their number. -/
theorem enumerators_quiet
    (tag : Option String)
    (count : Nat)
    (leading : Option String)
    (list : Option ListId)
    (quiet : Quiet base true cursor) :
    StaysQuiet base comma (enumerators tag count leading list cursor) := by
  induction count generalizing cursor leading list with
  | zero => exact .failed
  | succ count hypothesis =>
      rw [enumerators_succ]
      rw [sees_bind_run]
      split
      · rename_i closes
        rw [discard_bind_run, take_bind_run]
        exact .done (quiet.advance_text closes (by decide)) _
      · by_cases isWord : cursor.peek.isWord = true
        · rw [bind_run_ok (enumeratorName_run isWord)]
          refine .bind (skipValue_quiet _ quiet.advance) ?_
          intro _ _ quiet
          obtain ⟨_, uncommented, quiet⟩ := trailingComments_quiet quiet ","
          rw [bind_run_ok uncommented]
          refine .bind (addEnumerator_quiet tag list _ quiet) ?_
          intro id _ quiet
          rw [List.tail_nil]
          rw [commentEnumerator_nil, pure_bind, get_bind_run]
          split
          · exact hypothesis _ _ quiet
          · rw [sees_bind_run]
            split
            · exact hypothesis _ _ quiet
            · exact .failed
        · rw [bind_run]
          unfold enumeratorName
          rw [peek_bind_run, if_neg isWord]
          exact .failed

/-- Reading the specifier of an enumeration stays quiet. -/
theorem enumSpecifier_quiet (quiet : Quiet base comma cursor.advance) :
    StaysQuiet base comma (enumSpecifier cursor) := by
  unfold enumSpecifier enumerationList
  rw [take_bind_run]
  refine .bind (skipAttributes_quiet quiet) ?_
  intro _ _ quiet
  refine .bind (optionalTag_quiet quiet) ?_
  intro tag after quiet
  have listed : StaysQuiet base comma (enumerationList tag after) := by
    unfold enumerationList enumeratorList
    rw [sees_bind_run]
    split
    · refine .expect_bind quiet (by decide) ?_
      intro _
      exact enumerators_quiet tag _ _ _ quiet.advance
    · exact .done quiet _
  refine .bind listed ?_
  intro list _ quiet
  exact .done quiet _

/-- Specifiers stop where they start, or are read quietly.  A comment may stand before
the first of them. -/
theorem specifiersUpTo_quiet
    (context : Context)
    (count : Nat)
    (seenType : Bool)
    (read : Option Specifiers)
    (quiet : cursor.peek.isWord = true → Quiet base comma cursor.advance) :
    ∀ value after, specifiersUpTo context count seenType read cursor = .ok value after →
      after = cursor ∨ Quiet base comma after := by
  induction count generalizing cursor seenType read with
  | zero =>
      intro _ _ succeeded
      cases succeeded
  | succ count hypothesis =>
      unfold specifiersUpTo
      rw [get_bind_run]
      by_cases isWord : cursor.peek.isWord = true
      · replace quiet := quiet isWord
        have again (seenType : Bool) (read : Option Specifiers) {after : Cursor}
            (quiet : Quiet base comma after) :
            StaysQuiet base comma (specifiersUpTo context count seenType read after) := by
          intro value final succeeded
          rcases hypothesis seenType read quiet.advance_word value final succeeded with
            rfl | quiet
          · exact quiet
          · exact quiet
        rw [if_neg (by simp [isWord])]
        cases meaning : meaningAt context seenType cursor with
        | typedefWord => exact fun value after => .inr ∘ again _ _ quiet value after
        | modifier flags => exact fun value after => .inr ∘ again _ _ quiet value after
        | typeWord flags => exact fun value after => .inr ∘ again _ _ quiet value after
        | extensionWord => exact fun value after => .inr ∘ again _ _ quiet value after
        | «attribute» =>
            have isAttribute := attributes_contains_of_meaningAt meaning
            have quietly := StaysQuiet.bind (skipAttributes_quiet_first isAttribute quiet)
              fun _ _ quiet => again seenType read quiet
            exact fun value after => .inr ∘ quietly value after
        | record =>
            have quietly := StaysQuiet.bind (recordSpecifier_quiet quiet) fun part _ quiet =>
              again true (Specifiers.add read false part) quiet
            exact fun value after => .inr ∘ quietly value after
        | enumeration =>
            have quietly := StaysQuiet.bind (enumSpecifier_quiet quiet) fun part _ quiet =>
              again true (Specifiers.add read false part) quiet
            exact fun value after => .inr ∘ quietly value after
        | typedefName => exact fun value after => .inr ∘ again _ _ quiet value after
        | stop =>
            intro value after succeeded
            cases succeeded
            exact .inl rfl
      · rw [if_pos (by simpa using isWord)]
        intro value after succeeded
        cases succeeded
        exact .inl rfl

/-- Reading the specifiers of a declaration stays quiet. -/
theorem declarationSpecifiers_quiet
    (context : Context)
    (quiet : Quiet base comma cursor) :
    StaysQuiet base comma (declarationSpecifiers context cursor) := by
  unfold declarationSpecifiers
  rw [get_bind_run]
  intro value after succeeded
  rcases specifiersUpTo_quiet context _ false none quiet.advance_word value after succeeded with
    rfl | quiet
  · exact quiet
  · exact quiet

/-! ## Declarators -/

/-- Reading the tail of a pointer operator stays quiet. -/
theorem pointerTail_quiet
    (count : Nat)
    (text : String)
    (quiet : Quiet base comma cursor) :
    StaysQuiet base comma (pointerTail count text cursor) := by
  induction count generalizing text cursor with
  | zero => exact .failed
  | succ count hypothesis =>
      unfold pointerTail
      simp only [peek_bind_run, sees_bind_run]
      split
      · rename_i star
        rw [discard_bind_run, take_bind_run]
        exact hypothesis _ (quiet.advance_text star (by decide))
      split
      · rename_i isQualifier
        have noComma : cursor.peek.hasText "," = false := by
          apply Token.hasText_of_text_ne
          intro isComma
          rw [isComma] at isQualifier
          revert isQualifier
          decide
        rw [discard_bind_run, take_bind_run]
        exact hypothesis _ (quiet.advance_same noComma)
      split
      · refine .bind (skipAttributes_quiet quiet) ?_
        intro _ after quiet
        exact hypothesis _ quiet
      · exact .done quiet _

/-- Reading a pointer operator stays quiet. -/
theorem pointer_quiet (quiet : Quiet base comma cursor) :
    StaysQuiet base comma (pointer cursor) := by
  unfold pointer
  rw [accept_bind_run]
  split
  · rename_i star
    have taken : Quiet base comma cursor.advance := quiet.advance_text star (by decide)
    rw [Option.isSome_some, if_pos rfl, get_bind_run]
    refine .bind (pointerTail_quiet _ "*" taken) ?_
    intro text after quiet
    exact .done quiet _
  · exact .done quiet _

/-- Reading brackets stays quiet. -/
theorem bracketText_quiet (quiet : Quiet base true cursor) :
    StaysQuiet base comma (bracketText cursor) := by
  have skipped : StaysQuiet base comma (skipBalanced "[" "]" cursor) :=
    skipBalanced_quiet "]" (by decide) quiet
  unfold bracketText
  rw [get_bind_run]
  refine .bind skipped ?_
  intro _ after quiet
  exact .done quiet _

/-- The end of a parameter without comments. -/
theorem parameterEnd_quiet
    {more : List Parameter → Parse (List Parameter)}
    (read : List Parameter)
    (spec : Option Spec)
    (shape : Option Declarator)
    (quiet : Quiet base true cursor)
    (again : ∀ read {after : Cursor}, Quiet base true after →
      StaysQuiet base comma (more read after)) :
    StaysQuiet base comma (parameterEnd more read spec shape none cursor) := by
  obtain ⟨after, uncommented, quiet⟩ := trailingComments_quiet quiet ","
  unfold parameterEnd commentParameters
  rw [bind_run_ok uncommented]
  simp only [act_bind_run, get_bind_run]
  split
  · exact again _ quiet
  · rw [discard_bind_run]
    refine .expect_bind quiet (by decide) ?_
    intro quiet
    exact .done quiet _

/-- Reading an identifier list stays quiet, by induction on its names. -/
theorem identifierList_quiet
    (count : Nat)
    (read : List Parameter)
    (quiet : Quiet base true cursor) :
    StaysQuiet base comma (identifierList count none read cursor) := by
  induction count generalizing cursor read with
  | zero => exact .failed
  | succ count hypothesis =>
      rw [identifierList_eq, take_bind_run, quiet.commentBefore_peek]
      refine parameterEnd_quiet read _ _ quiet.advance ?_
      intro read after quiet
      exact hypothesis read quiet

/-- The functions that read declarators do so quietly. -/
structure DeclaratorsStayQuiet (base : Session) (fuel : Nat) : Prop where
  declarator :
    ∀ {comma : Bool} {cursor : Cursor} (abstractAllowed : Bool), Quiet base comma cursor →
      StaysQuiet base comma (declarator fuel abstractAllowed cursor)
  directDeclarator :
    ∀ {comma : Bool} {cursor : Cursor} (abstractAllowed : Bool), Quiet base comma cursor →
      StaysQuiet base comma (directDeclarator fuel abstractAllowed cursor)
  suffixes :
    ∀ {comma : Bool} {cursor : Cursor} (shape : Option Declarator), Quiet base comma cursor →
      StaysQuiet base comma (suffixes fuel shape cursor)
  parameterList :
    ∀ {comma : Bool} {cursor : Cursor}, Quiet base true cursor →
      StaysQuiet base comma (parameterList fuel cursor)
  parameters :
    ∀ {comma : Bool} {cursor : Cursor} (read : List Parameter), Quiet base true cursor →
      StaysQuiet base comma (parameters fuel none read cursor)
  parameterParts :
    ∀ {cursor : Cursor}, Quiet base true cursor →
      StaysQuiet base true (parameterParts fuel cursor)

namespace DeclaratorsStayQuiet

variable {fuel : Nat}

/-- One more step of fuel keeps a declarator quiet. -/
theorem declarator_succ
    (stay : DeclaratorsStayQuiet base fuel)
    (abstractAllowed : Bool)
    (quiet : Quiet base comma cursor) :
    StaysQuiet base comma (Grammar.declarator (fuel + 1) abstractAllowed cursor) := by
  unfold Grammar.declarator
  refine .bind (pointer_quiet quiet) ?_
  intro operator _ quiet
  refine .bind (stay.directDeclarator abstractAllowed quiet) ?_
  intro direct _ quiet
  exact .done quiet _

/-- One more step of fuel keeps a direct declarator quiet. -/
theorem directDeclarator_succ
    (stay : DeclaratorsStayQuiet base fuel)
    (abstractAllowed : Bool)
    (quiet : Quiet base comma cursor) :
    StaysQuiet base comma (Grammar.directDeclarator (fuel + 1) abstractAllowed cursor) := by
  unfold Grammar.directDeclarator
  rw [get_bind_run]
  split
  · rename_i name
    simp only [Bool.and_eq_true] at name
    rw [take_bind_run]
    exact stay.suffixes _ (quiet.advance_word name.1)
  split
  · rename_i opener
    simp only [Bool.and_eq_true] at opener
    have opened : Quiet base comma cursor.advance := quiet.advance_text opener.1 (by decide)
    rw [discard_bind_run, take_bind_run]
    refine .bind (stay.declarator abstractAllowed opened) ?_
    intro inner _ quiet
    rw [discard_bind_run]
    refine .expect_bind quiet (by decide) ?_
    intro quiet
    exact stay.suffixes _ quiet
  split
  · exact stay.suffixes none quiet
  · exact .failed

/-- One more step of fuel keeps suffixes quiet. -/
theorem suffixes_succ
    (stay : DeclaratorsStayQuiet base fuel)
    (shape : Option Declarator)
    (quiet : Quiet base comma cursor) :
    StaysQuiet base comma (Grammar.suffixes (fuel + 1) shape cursor) := by
  have any : Quiet base true cursor := { quiet with noComma := fun _ => rfl }
  have bracketed : StaysQuiet base comma (bracketText cursor) := bracketText_quiet any
  have listed : StaysQuiet base comma (Grammar.parameterList fuel cursor) :=
    stay.parameterList any
  unfold Grammar.suffixes
  rw [sees_bind_run]
  split
  · refine .bind bracketed ?_
    intro suffix _ quiet
    exact stay.suffixes _ quiet
  rw [sees_bind_run]
  split
  · refine .bind listed ?_
    intro parameters _ quiet
    exact stay.suffixes _ quiet
  rw [peek_bind_run]
  split
  · refine .bind (skipAttributes_quiet quiet) ?_
    intro _ _ quiet
    exact stay.suffixes _ quiet
  · exact .done quiet _

/-- One more step of fuel keeps a parameter list quiet. -/
theorem parameterList_succ
    (stay : DeclaratorsStayQuiet base fuel)
    (quiet : Quiet base true cursor) :
    StaysQuiet base comma (Grammar.parameterList (fuel + 1) cursor) := by
  unfold Grammar.parameterList
  refine .expect_bind quiet (by decide) ?_
  intro opened
  rw [accept_bind_run, quiet.commentAfter_peek]
  split
  · rename_i closes
    exact .done (opened.advance_text closes (by decide)) _
  · rw [Option.isSome_none, if_neg (by simp), get_bind_run]
    split
    · exact identifierList_quiet _ [] quiet.advance
    · exact stay.parameters [] quiet.advance

/-- One more step of fuel keeps parameters quiet. -/
theorem parameters_succ
    (stay : DeclaratorsStayQuiet base fuel)
    (read : List Parameter)
    (quiet : Quiet base true cursor) :
    StaysQuiet base comma (Grammar.parameters (fuel + 1) none read cursor) := by
  rw [parameters_eq, peek_bind_run, quiet.commentBefore_peek]
  refine .bind (stay.parameterParts quiet) ?_
  intro parts _ quiet
  refine parameterEnd_quiet read _ _ quiet ?_
  intro read _ quiet
  exact stay.parameters read quiet

/-- One more step of fuel keeps the parts of a parameter quiet. -/
theorem parameterParts_succ
    (stay : DeclaratorsStayQuiet base fuel)
    (quiet : Quiet base true cursor) :
    StaysQuiet base true (Grammar.parameterParts (fuel + 1) cursor) := by
  unfold Grammar.parameterParts
  rw [accept_bind_run]
  split
  · exact .done quiet.advance _
  · rw [Option.isSome_none, if_neg (by simp)]
    refine .bind (declarationSpecifiers_quiet .parameter quiet) ?_
    intro specifiers _ quiet
    refine .bind (stay.declarator true quiet) ?_
    intro shape _ quiet
    split
    · exact .failed
    · exact .done quiet _

/-- Declarators stay quiet with any fuel. -/
theorem all (base : Session) (fuel : Nat) : DeclaratorsStayQuiet base fuel := by
  induction fuel with
  | zero =>
      constructor <;> intros <;> exact .failed
  | succ fuel hypothesis =>
      exact {
        declarator := hypothesis.declarator_succ
        directDeclarator := hypothesis.directDeclarator_succ
        suffixes := hypothesis.suffixes_succ
        parameterList := hypothesis.parameterList_succ
        parameters := hypothesis.parameters_succ
        parameterParts := hypothesis.parameterParts_succ
      }

end DeclaratorsStayQuiet

end Grammar
end DeclManual
