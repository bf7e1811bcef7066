import DeclManual.Proofs.Grammar.ParameterDeclarations

/-!
# Heads of definitions

The specifier and the name of a function are read in the same way before every list of
parameters.  What is left of the definition are its parameters and its body.
-/

namespace DeclManual
namespace Grammar

open Decl
open Source (Token)

/-! ## Definitions -/

section

variable {cursor : Cursor} {after : List Token}

/-- What a session holds after the definition of a function without a comment at the start
of its body. -/
def Session.define
    (session : Session)
    (comment : Option String)
    (spec : Spec)
    (function : Declarator) : Session :=
  (session.rememberDeclarations (definitionComment session.options comment none) spec
    [{ function with kind := .functionDef }] none).1

/-- A definition whose parameters have been declared is complete after an empty body. -/
theorem functionDefinition_run
    {body : Cursor}
    {function typed : Declarator}
    (comment : Option String)
    (spec : Spec)
    (declared : parameterDeclarations (cursor.rest.length + 1) function cursor = .ok typed body)
    (faces : Faces body [.mark "\x7b", .mark "\x7d"] after) :
    functionDefinition comment spec function cursor =
      .ok () { body.advance.advance with
        session := Session.define body.advance.advance.session comment spec typed } := by
  have closing := faces.advance
  have closes : closingRun "\x7d" 0 body.advance.rest = (1, true) := by
    obtain ⟨placed, isPlaced, here⟩ := closing.placed
    obtain ⟨token, rest, rfl, isToken, -⟩ := List.map_eq_cons_iff.1 isPlaced
    have isEnd : token.isEnd = false := by
      rw [← Token.isEnd_unplaced, isToken]
      rfl
    have isKind : token.kind = .punctuator := by
      rw [← Token.kind_unplaced, isToken]
      rfl
    have isText : token.text = "\x7d" := by
      rw [← Token.text_unplaced, isToken]
      rfl
    rw [here, List.cons_append]
    unfold closingRun
    simp [isEnd, isKind, isText, isOpener, isCloser]
  have skipped : skipUntilClose "\x7d" body.advance = .ok () body.advance.advance := by
    unfold skipUntilClose
    rw [get_bind_run, closes]
    rfl
  unfold functionDefinition
  rw [get_bind_run, bind_run_ok declared, take_bind_run, peek_bind_run, faces.comments.2,
    closing.comments.1, bind_run_ok skipped]
  rfl

/-- A declaration that starts with a function before a body or a word is a definition. -/
theorem declarators_function
    {start : DeclarationStart}
    {further : Cursor}
    {declarator : Declarator}
    (count : Nat)
    (notTypedef : start.isTypedef = false)
    (required : requiredDeclarator cursor = .ok declarator further)
    (isFunction : declarator.isFunction = true)
    (filled : further.rest ≠ [])
    (noAttribute : attributes.contains further.peek.text = false)
    (next : (further.peek.hasText "\x7b" || further.peek.isWord) = true) :
    declarators start (count + 1) [] cursor =
      functionDefinition start.comment start.spec
        { declarator with returnComment := start.returnComment } further := by
  unfold declarators
  rw [peek_bind_run, bind_run_ok required, bind_run_ok (skipAttributes_absent filled noAttribute),
    peek_bind_run, if_pos (by simp [notTypedef, isFunction, next])]

/-- A name before a parameter list is read as a function. -/
theorem requiredDeclarator_function
    {name : Token}
    {rest : List Token}
    {further : Cursor}
    {parameters : List Parameter}
    (isRest : cursor.rest = name :: rest)
    (isWord : name.isWord = true)
    (isSpelled : ∃ c others, name.text.toList = c :: others ∧ Source.startsWord c = true)
    (notKeyword : isKeyword name.text = false)
    (opens : cursor.advance.peek.hasText "(" = true)
    (listed : parameterList (6 * (cursor.rest.length + 2) - 3) cursor.advance =
      .ok parameters further)
    (noBracket : further.peek.hasText "[" = false)
    (noOpener : further.peek.hasText "(" = false)
    (noAttribute : attributes.contains further.peek.text = false) :
    requiredDeclarator cursor = .ok (functionNamed name.text parameters) further := by
  have isName := Cursor.peek_eq_head isRest
  have noStar : cursor.peek.hasText "*" = false := by
    apply Token.hasText_of_text_ne
    rw [isName]
    intro isStar
    obtain ⟨c, others, text, starts⟩ := isSpelled
    rw [isStar] at text
    obtain ⟨rfl, -⟩ := List.cons.inj text
    contradiction
  have noSuffix : cursor.advance.peek.hasText "[" = false :=
    Token.hasText_of_text_ne (by simp [Token.text_of_hasText opens])
  obtain ⟨fewer, isFuel⟩ : ∃ fewer, cursor.fuel = fewer + 4 :=
    ⟨cursor.fuel - 4, by unfold Cursor.fuel; omega⟩
  have isListFuel : 6 * (cursor.rest.length + 2) - 3 = fewer + 1 := by
    unfold Cursor.fuel at isFuel
    omega
  rw [isListFuel] at listed
  have suffixed : suffixes (fewer + 2) (some (.identifier name.text)) cursor.advance =
      .ok (some (functionNamed name.text parameters)) further := by
    unfold suffixes
    rw [sees_bind_run, noSuffix, if_neg (by simp), sees_bind_run, opens, if_pos rfl,
      bind_run_ok listed]
    exact suffixes_absent noBracket noOpener noAttribute fewer _
  have direct : directDeclarator (fewer + 3) false cursor =
      .ok (some (functionNamed name.text parameters)) further := by
    unfold directDeclarator
    rw [get_bind_run, isName, if_pos (by simp [isWord, notKeyword]), take_bind_run, isName]
    exact suffixed
  unfold requiredDeclarator
  rw [get_bind_run, isFuel]
  unfold declarator
  rw [bind_assoc, bind_run_ok (pointer_absent noStar), bind_assoc, bind_run_ok direct]
  rfl

end

/-! ## What stands before the parameters -/

/-- The specifier and the name of a function, which are read as such on their own.  A comment
may stand before them, and none within. -/
structure DefinitionHead (session : Session) where
  returns : List Token
  name : Token
  specifiers : Option Specifiers
  specified : Cursor
  isWord : name.isWord = true
  notKeyword : isKeyword name.text = false
  spelled : WordsSpelled (returns ++ [name])
  noEnd : ∀ token ∈ returns, token.isEnd = false
  noCommentAfter : ∀ token ∈ returns ++ [name], token.commentAfter = none
  noCommentBefore : ∀ token ∈ (returns ++ [name]).tail, token.commentBefore = none
  notStatement : ∀ token ∈ (returns ++ [name]).head?, statementWords.contains token.text = false
  reads : declarationSpecifiers .declaration
    { session, rest := returns ++ [name, Cursor.endToken] } = .ok specifiers specified
  stops : specified.rest = [name, Cursor.endToken]
  notTypedef : ∀ read ∈ specifiers, read.isTypedef = false

namespace DefinitionHead

variable {session : Session} (head : DefinitionHead session)

/-- The tokens of the head. -/
def tokens : List Token :=
  head.returns ++ [head.name]

/-- The cursor before the head alone. -/
def start : Cursor :=
  { session, rest := head.returns ++ [head.name, Cursor.endToken] }

/-- The comment before the head. -/
def comment : Option String :=
  head.start.peek.commentBefore

/-- The specifier of the function, by default `int`. -/
def spec : Spec :=
  (head.specifiers.map (·.spec)).getD (.ofText "int" {})

theorem rest_start : head.start.rest = head.tokens ++ [Cursor.endToken] := by
  simp [start, tokens]

theorem spelled_start : WordsSpelled head.start.rest := by
  intro token member isWord
  rw [rest_start] at member
  rcases List.mem_append.1 member with member | member
  · exact head.spelled token member isWord
  · rw [List.mem_singleton.1 member] at isWord
    contradiction

theorem endsOnce_start : EndsOnce head.start.rest := by
  refine ⟨head.tokens, Cursor.endToken, head.rest_start, rfl, rfl, ?_⟩
  intro token member
  refine ⟨?_, ?_⟩
  · rcases List.mem_append.1 member with member | member
    · exact head.noEnd token member
    · rw [List.mem_singleton.1 member]
      exact Token.not_isEnd_of_isWord head.isWord
  · rintro isWord isComma
    obtain ⟨c, rest, text, starts⟩ := head.spelled token member isWord
    rw [isComma] at text
    obtain ⟨rfl, -⟩ := List.cons.inj text
    contradiction

/-- The first token of the head. -/
theorem peek_mem : head.start.peek ∈ head.tokens.head? := by
  unfold start tokens Cursor.peek
  cases head.returns with
  | nil => rfl
  | cons first returns => rfl

theorem length_start : head.start.rest.length = head.returns.length + 2 := by
  simp [start]

/-- Where the specifiers are left at once, nothing stands before the name. -/
theorem returns_eq_nil (stays : head.specified = head.start) : head.returns = [] := by
  have length := head.length_start
  rw [← stays, head.stops, List.length_cons, List.length_singleton] at length
  exact List.length_eq_zero_iff.1 (by omega)

theorem isWord_start : head.start.peek.isWord = true := by
  by_contra noWord
  have left : declarationSpecifiers .declaration head.start = .ok none head.start := by
    unfold declarationSpecifiers specifiersUpTo
    rw [get_bind_run, get_bind_run, if_pos (by simpa using noWord)]
    rfl
  obtain ⟨-, stays⟩ := EStateM.Result.ok.inj (head.reads.symm.trans left)
  have isName : head.start.peek = head.name := by
    simp [start, head.returns_eq_nil stays, Cursor.peek]
  rw [isName, head.isWord] at noWord
  contradiction

theorem notEnd_start : head.start.peek.isEnd = false :=
  Token.not_isEnd_of_isWord head.isWord_start

theorem rest_advance_start : head.start.advance.rest = head.tokens.tail ++ [Cursor.endToken] := by
  rw [Cursor.rest_advance head.notEnd_start, head.rest_start, tokens, List.tail_append_of_ne_nil]
  simp

/-- After the first token of the head no comment stands in it. -/
theorem quiet_advance : Quiet session true head.start.advance where
  session := by
    refine ⟨head.start.advance.session.source, session.enums, session.enumTags, ?_, ?_⟩
    · rw [Cursor.session_advance]
      rfl
    · rw [Cursor.session_advance]
      rfl
  uncommented := by
    intro token member
    rw [rest_advance_start] at member
    rcases List.mem_append.1 member with member | member
    · exact ⟨head.noCommentBefore token member,
        head.noCommentAfter token (List.mem_of_mem_tail member)⟩
    · rw [List.mem_singleton.1 member]
      exact ⟨rfl, rfl⟩
  spelled := by
    intro token member
    exact head.spelled_start token (head.start.rest_advance_suffix.subset member)
  previous := by
    intro token isPrevious
    rw [Cursor.previous_advance head.notEnd_start] at isPrevious
    obtain rfl := Option.some.inj isPrevious
    exact head.noCommentAfter _ (List.mem_of_mem_head? head.peek_mem)
  noComma := fun _ => rfl

/-- The specifiers are left at once, or read without comments. -/
theorem stays_or_quiet : head.specified = head.start ∨ Quiet session true head.specified := by
  have reads := head.reads
  unfold declarationSpecifiers at reads
  rw [get_bind_run] at reads
  exact specifiersUpTo_quiet _ _ _ _ (fun _ => head.quiet_advance) _ _ reads

/-- The head tells the session no more than enumerator lists. -/
theorem session_specified :
    ∃ source enums enumTags,
      head.specified.session = { session with source, enums, enumTags } ∧
        source.unplaced = session.source.unplaced := by
  rcases head.stays_or_quiet with stays | quiet
  · rw [stays]
    exact ⟨session.source, session.enums, session.enumTags, rfl, rfl⟩
  · exact quiet.session

/-- Where there are specifiers, no comment stands between them and the name. -/
theorem noReturnComment (filled : head.specifiers ≠ none) :
    head.name.commentBefore = none := by
  apply head.noCommentBefore
  cases isReturns : head.returns with
  | nil =>
      rcases declarationSpecifiers_takesOr .declaration head.endsOnce_start with lands | nothing
      · rw [show declarationSpecifiers .declaration head.start = _ from head.reads] at lands
        have shorter := lands.length
        rw [head.stops, head.length_start, isReturns] at shorter
        simp at shorter
      · obtain ⟨none, -⟩ := EStateM.Result.ok.inj (head.reads.symm.trans nothing)
        contradiction
  | cons first returns => simp

/-- After `extern` stands a word. -/
theorem noLinkage (isExtern : head.start.peek.hasText "extern" = true) :
    head.start.advance.peek.isWord = true := by
  by_contra noWord
  have means : keywordMeaning? head.start.peek.text = some (.modifier { isExtern := true }) := by
    rw [Token.text_of_hasText isExtern]
    decide
  have left : ∃ read, declarationSpecifiers .declaration head.start =
      .ok read head.start.advance := by
    unfold declarationSpecifiers
    rw [get_bind_run, specifiersUpTo_modifier head.isWord_start (meaningAt_keyword means _ _),
      head.length_start]
    unfold specifiersUpTo
    rw [get_bind_run, if_pos (by simpa using noWord)]
    exact ⟨_, rfl⟩
  obtain ⟨read, left⟩ := left
  obtain ⟨-, isAdvance⟩ := EStateM.Result.ok.inj (head.reads.symm.trans left)
  have isName : head.start.advance.peek = head.name := by
    rw [← isAdvance]
    exact Cursor.peek_eq_head head.stops
  rw [isName, head.isWord] at noWord
  contradiction

/-- What follows the head in a definition: a parenthesis that opens no pointer. -/
def OpensList (tail : List Token) : Prop :=
  ∃ opener next more, tail = opener :: next :: more ∧ opener.unplaced = .mark "(" ∧
    next.text ≠ "*"

/-- The head is read in the same way before a list in parentheses. -/
theorem reads_inPlace
    {placed tail : List Token}
    (isPlaced : placed.map Token.unplaced = head.tokens)
    (opens : OpensList tail) :
    ∃ further name, declarationSpecifiers .declaration { session, rest := placed ++ tail } =
        .ok head.specifiers further ∧
      further.rest = name :: tail ∧ name.unplaced = head.name.unplaced ∧
      Elsewhere head.specified.session further.session := by
  let place : Place :=
    { size := head.tokens.length, tail, alone := session.diagnostics
      inPlace := session.diagnostics }
  have closed : place.Closed := by
    obtain ⟨opener, next, more, isTail, isOpener, noStar⟩ := opens
    refine ⟨opener, next :: more, isTail, ?_, ?_, .inr (.inr (.inr ⟨?_, next, more, rfl, ?_⟩))⟩
    · rw [← Token.isEnd_unplaced, isOpener]
      rfl
    · rw [← Token.isWord_unplaced, isOpener]
      rfl
    · rw [← Token.text_unplaced, isOpener]
      rfl
    · exact Token.hasText_of_text_ne noStar
  have unchanged : Elsewhere session session := ⟨session.source, rfl, rfl⟩
  have beside : Beside place head.tokens.length head.start { session, rest := placed ++ tail } := by
    refine beside_of_placed head.rest_start ⟨placed, isPlaced, rfl⟩ rfl head.endsOnce_start
      head.spelled_start ?_ (unchanged.sameSession rfl rfl)
    intro token isLast
    rw [tokens, List.getLast?_concat] at isLast
    obtain rfl := Option.some.inj isLast
    exact (attributes_not_contains_of_notKeyword head.notKeyword).1
  obtain ⟨fewer, further, inPlace, -, besideFurther⟩ :=
    declarationSpecifiers_tracks closed .declaration beside _ _ head.reads
  obtain ⟨names, others, ending, isSpecified, isFurther, same, length, -⟩ := besideFurther.rest
  rw [head.stops] at isSpecified
  obtain ⟨isNames, -⟩ :=
    List.append_inj' (show [head.name] ++ [Cursor.endToken] = _ from isSpecified) rfl
  rw [← isNames, List.map_singleton] at same
  obtain ⟨name, rfl, isName⟩ := List.map_eq_singleton_iff.1 same.symm
  refine ⟨further, name, inPlace, isFurther, isName, ?_⟩
  obtain ⟨source, enums, enumTags, isSession, -⟩ := head.session_specified
  have sameDiagnostics : session.diagnostics = head.specified.session.diagnostics := by
    rw [isSession]
  have specified : Elsewhere head.specified.session head.specified.session :=
    ⟨head.specified.session.source, rfl, rfl⟩
  exact specified.of_sameSession sameDiagnostics sameDiagnostics besideFurther.session

/-- The first token of the head in place. -/
theorem peek_inPlace
    {placed tail : List Token}
    (isPlaced : placed.map Token.unplaced = head.tokens) :
    ({ session, rest := placed ++ tail } : Cursor).peek.unplaced = head.start.peek.unplaced := by
  rcases placed with _ | ⟨first, others⟩
  · simp [tokens] at isPlaced
  · have isRest := head.rest_start
    rw [← isPlaced, List.map_cons, List.cons_append] at isRest
    rw [Cursor.peek_eq_head isRest]
    rfl

/-- A definition is no linkage specification. -/
theorem second_inPlace
    {placed tail : List Token}
    (isPlaced : placed.map Token.unplaced = head.tokens)
    (isExtern : head.start.peek.hasText "extern" = true) :
    (({ session, rest := placed ++ tail } : Cursor).peekNth 1).isWord = true := by
  have isWord := head.noLinkage isExtern
  have isRest := head.rest_advance_start
  rcases placed with _ | ⟨first, _ | ⟨second, others⟩⟩
  · simp [tokens] at isPlaced
  · rw [← isPlaced, List.map_singleton, List.tail_cons, List.nil_append] at isRest
    rw [Cursor.peek_eq_head isRest] at isWord
    contradiction
  · rw [← isPlaced, List.map_cons, List.map_cons, List.tail_cons, List.cons_append] at isRest
    rw [Cursor.peek_eq_head isRest] at isWord
    exact isWord

/-- A definition is read as a declaration. -/
theorem item_inPlace
    {placed tail : List Token}
    (isPlaced : placed.map Token.unplaced = head.tokens) :
    item { session, rest := placed ++ tail } =
      orElseRecorded externalDeclaration recover { session, rest := placed ++ tail } := by
  have isFirst := @peek_inPlace _ head placed tail isPlaced
  obtain ⟨-, sameText, sameTexts⟩ := Token.look_eq isFirst
  have noSemicolon := head.spelled_start.hasText_peek head.isWord_start
    (show (";".toList.head?.map Source.startsWord) = some false by decide)
  have noBrace := head.spelled_start.hasText_peek head.isWord_start
    (show ("\x7d".toList.head?.map Source.startsWord) = some false by decide)
  have noLinkage : (({ session, rest := placed ++ tail } : Cursor).peek.hasText "extern" &&
      (({ session, rest := placed ++ tail } : Cursor).peekNth 1).kind == .stringLiteral) =
        false := by
    rw [sameTexts]
    by_cases isExtern : head.start.peek.hasText "extern" = true
    · have isWord := @second_inPlace _ head placed tail isPlaced isExtern
      simp only [Token.isWord, beq_iff_eq] at isWord
      simp [isWord]
    · simp [isExtern]
  have notStatement := head.notStatement _ head.peek_mem
  unfold item
  rw [get_bind_run, sameTexts, noSemicolon, if_neg (by simp), sameTexts, noBrace, if_neg (by simp),
    noLinkage, if_neg (by simp), sameText, notStatement, if_neg (by simp)]

/-- What the head says about the definition. -/
def declarationStart : DeclarationStart :=
  { comment := head.comment, returnComment := none, spec := head.spec, isTypedef := false }

/-- After the head, the declarators of the definition are read. -/
theorem externalDeclaration_inPlace
    {placed tail : List Token}
    (isPlaced : placed.map Token.unplaced = head.tokens)
    (opens : OpensList tail) :
    ∃ further name, externalDeclaration { session, rest := placed ++ tail } =
        declarators head.declarationStart further.rest.length [] further ∧
      further.rest = name :: tail ∧ name.unplaced = head.name.unplaced ∧
      Elsewhere head.specified.session further.session := by
  obtain ⟨further, name, reads, isRest, isName, elsewhere⟩ := head.reads_inPlace isPlaced opens
  refine ⟨further, name, ?_, isRest, isName, elsewhere⟩
  have isPeek := Cursor.peek_eq_head isRest
  have isComment : ({ session, rest := placed ++ tail } : Cursor).peek.commentBefore =
      head.comment := by
    rw [comment, ← Token.commentBefore_unplaced, head.peek_inPlace isPlaced,
      Token.commentBefore_unplaced]
  have noSemicolon : further.peek.hasText ";" = false := by
    apply Token.hasText_of_text_ne
    rw [isPeek, ← Token.text_unplaced, isName, Token.text_unplaced]
    intro isSemicolon
    obtain ⟨c, rest, text, starts⟩ := head.spelled head.name (by simp) head.isWord
    rw [isSemicolon] at text
    obtain ⟨rfl, -⟩ := List.cons.inj text
    contradiction
  unfold externalDeclaration
  rw [takeCarried_bind_run, peek_bind_run, isComment, Option.or_none, bind_run_ok reads]
  cases isSpecifiers : head.specifiers with
  | none =>
      simp only [declarationStart, spec, isSpecifiers]
      rfl
  | some specifiers =>
      have noComment : further.peek.commentBefore = none := by
        rw [isPeek, ← Token.commentBefore_unplaced, isName, Token.commentBefore_unplaced]
        exact head.noReturnComment (by simp [isSpecifiers])
      have notTypedef := head.notTypedef specifiers (by simp [isSpecifiers])
      dsimp only
      rw [accept_bind_run, noSemicolon, if_neg (by simp), Option.isSome_none, if_neg (by simp),
        peek_bind_run, get_bind_run, noComment, notTypedef]
      simp only [declarationStart, spec, isSpecifiers]
      rfl

end DefinitionHead

end Grammar
end DeclManual
