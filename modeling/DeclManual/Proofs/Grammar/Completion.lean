import DeclManual.Proofs.Grammar.Progress
import DeclManual.Proofs.Source.Spelling

/-!
# Reading comes to an end

A declaration that is read takes a token, and so does one that cannot be read,
together with what is skipped after it.  So every item of a file leads on, and a
file is read to its end whatever its tokens are.
-/

namespace DeclManual
namespace Grammar

open Source (Token)

/-! ## Declarations -/

/-- Finding the comment at the end of a line lands. -/
theorem endOfLineComment_lands
    (trailing after : Option String)
    (declarators : List Decl.Declarator)
    {cursor : Cursor}
    (input : EndsOnce cursor.rest) :
    Lands 0 cursor.rest (endOfLineComment trailing after declarators cursor) := by
  unfold endOfLineComment
  cases trailing <;> cases after <;> exact Onward.refl input

/-- The end of a declarator is a token, whichever it is. -/
theorem declaratorEnd_lands
    (declarators : List Decl.Declarator)
    {cursor : Cursor}
    (input : EndsOnce cursor.rest) :
    Lands 1 cursor.rest (declaratorEnd declarators cursor) := by
  unfold declaratorEnd
  rw [get_bind_run]
  refine .accept_bind (.refl input) ?_ ?_
  · intro taken
    exact taken
  · refine .bind (.refl input) (.expect input _) ?_
    intro semicolon ended _ here
    refine .bind here (endOfLineComment_lands _ _ _ here.input) ?_
    intro parts after _ here
    exact here

/-- The declarators of an old-style declaration take its semicolon at least. -/
theorem parameterDeclarators_lands
    {count : Nat}
    (declarators : List Decl.Declarator)
    {cursor : Cursor}
    (input : EndsOnce cursor.rest)
    (enough : cursor.rest.length ≤ count) :
    Lands 1 cursor.rest (parameterDeclarators count declarators cursor) := by
  induction count generalizing declarators cursor with
  | zero =>
      have empty := List.length_eq_zero_iff.1 (Nat.le_zero.1 enough)
      exact absurd empty input.ne_nil
  | succ count hypothesis =>
      unfold parameterDeclarators
      refine .bind (.refl input) (requiredDeclarator_lands input) ?_
      intro shape declared _ here
      refine .bind here (declaratorEnd_lands _ here.input) ?_
      intro parts after _ here
      have length := here.length
      obtain ⟨declarators, ending⟩ := parts
      cases ending with
      | none => exact .from_here here (hypothesis declarators here.input (by omega)) (by omega)
      | some comment => exact here.weaken (by omega)

/-- An old-style declaration takes its semicolon at least. -/
theorem parameterDeclaration_lands
    (function : Decl.Declarator)
    {cursor : Cursor}
    (input : EndsOnce cursor.rest) :
    Lands 1 cursor.rest (parameterDeclaration function cursor) := by
  unfold parameterDeclaration
  rw [peek_bind_run]
  refine .bind (.refl input) (declarationSpecifiers_lands .declaration input) ?_
  intro specifiers specified _ here
  cases specifiers with
  | none => exact .fail here _
  | some specifiers =>
    dsimp only
    rw [get_bind_run]
    refine .bind here (parameterDeclarators_lands [] here.input (Nat.le_refl _)) ?_
    intro parts after _ here
    exact here.weaken (by omega)

/-- Old-style declarations may be absent, and each takes a token. -/
theorem parameterDeclarations_lands
    {count : Nat}
    (function : Decl.Declarator)
    {cursor : Cursor}
    (input : EndsOnce cursor.rest)
    (enough : cursor.rest.length ≤ count) :
    Lands 0 cursor.rest (parameterDeclarations count function cursor) := by
  induction count generalizing function cursor with
  | zero =>
      have empty := List.length_eq_zero_iff.1 (Nat.le_zero.1 enough)
      exact absurd empty input.ne_nil
  | succ count hypothesis =>
      unfold parameterDeclarations
      rw [sees_bind_run]
      split
      · exact Onward.refl input
      rw [peek_bind_run]
      split
      · exact .fail (.refl input) _
      refine .bind (.refl input) (parameterDeclaration_lands function input) ?_
      intro function after _ here
      have length := here.length
      exact .from_here here (hypothesis function here.input (by omega)) (Nat.zero_le _)

/-- A function definition lands. -/
theorem functionDefinition_lands
    (comment : Option String)
    (spec : Decl.Spec)
    (function : Decl.Declarator)
    {cursor : Cursor}
    (input : EndsOnce cursor.rest) :
    Lands 0 cursor.rest (functionDefinition comment spec function cursor) := by
  unfold functionDefinition
  rw [get_bind_run]
  refine .bind (.refl input) (parameterDeclarations_lands function input (by omega)) ?_
  intro function typed _ here
  rw [take_bind_run, peek_bind_run]
  refine .bind here.advance (skipUntilClose_lands _ here.advance.input) ?_
  intro _ after _ here
  exact here

/-- The declarators of a declaration take what ends it at least. -/
theorem declarators_lands
    (start : DeclarationStart)
    {count : Nat}
    (read : List Decl.Declarator)
    {cursor : Cursor}
    (input : EndsOnce cursor.rest)
    (enough : cursor.rest.length ≤ count) :
    Lands 1 cursor.rest (declarators start count read cursor) := by
  induction count generalizing read cursor with
  | zero =>
      have empty := List.length_eq_zero_iff.1 (Nat.le_zero.1 enough)
      exact absurd empty input.ne_nil
  | succ count hypothesis =>
      unfold declarators
      rw [peek_bind_run]
      refine .bind (.refl input) (requiredDeclarator_lands input) ?_
      intro shape declared _ here
      refine .bind here (skipAttributes_lands here.input) ?_
      intro _ attributed _ here
      rw [peek_bind_run]
      split
      · exact .from_here here (functionDefinition_lands _ _ _ here.input) (by omega)
      refine .bind here (skipValue_lands _ here.input) ?_
      intro _ valued _ here
      refine .bind here (declaratorEnd_lands _ here.input) ?_
      intro parts after _ here
      have length := here.length
      obtain ⟨read, ending⟩ := parts
      cases ending with
      | none => exact .from_here here (hypothesis read here.input (by omega)) (by omega)
      | some comment => exact here.weaken (by omega)

/-- An external declaration takes a token where it succeeds. -/
theorem externalDeclaration_lands
    {cursor : Cursor}
    (input : EndsOnce cursor.rest) :
    Lands 1 cursor.rest (externalDeclaration cursor) := by
  unfold externalDeclaration
  rw [takeCarried_bind_run, peek_bind_run]
  refine .bind (.refl input) (declarationSpecifiers_lands .declaration input) ?_
  intro specifiers specified _ here
  cases specifiers with
  | none =>
      dsimp only
      rw [get_bind_run]
      exact .from_here here (declarators_lands _ [] here.input (Nat.le_refl _)) (by omega)
  | some specifiers =>
      refine .accept_bind here ?_ ?_
      · intro ended
        exact ended.weaken (by omega)
      · rw [Option.isSome_none, if_neg (by simp), peek_bind_run, get_bind_run]
        exact .from_here here (declarators_lands _ [] here.input (Nat.le_refl _)) (by omega)

/-! ## Whole files -/

theorem orElseRecorded_run_ok
    {attempt : Parse Unit}
    (instead : Parse Unit)
    {cursor after : Cursor}
    (succeeded : attempt cursor = .ok () after) :
    orElseRecorded attempt instead cursor = .ok () after := by
  simp [orElseRecorded, tryCatch, tryCatchThe, MonadExceptOf.tryCatch, EStateM.tryCatch,
    succeeded]

theorem orElseRecorded_run_error
    {attempt : Parse Unit}
    (instead : Parse Unit)
    {cursor after : Cursor}
    (failed : attempt cursor = .error .recorded after) :
    orElseRecorded attempt instead cursor = instead after := by
  simp [orElseRecorded, tryCatch, tryCatchThe, MonadExceptOf.tryCatch, EStateM.tryCatch,
    failed]
  rfl

theorem orElseRecorded_run_exhausted
    {attempt : Parse Unit}
    (instead : Parse Unit)
    {cursor after : Cursor}
    (failed : attempt cursor = .error .exhausted after) :
    orElseRecorded attempt instead cursor = .error .exhausted after := by
  simp [orElseRecorded, tryCatch, tryCatchThe, MonadExceptOf.tryCatch, EStateM.tryCatch,
    failed]
  rfl

/-- What is left after the next token depends on what was left alone. -/
theorem Cursor.rest_advance_congr
    {first second : Cursor}
    (same : first.rest = second.rest) :
    first.advance.rest = second.advance.rest := by
  have samePeek : first.peek = second.peek := by rw [Cursor.peek, same, Cursor.peek]
  unfold Cursor.advance
  rw [samePeek, same]
  dsimp only
  split
  · exact same
  · rfl

/-- The brace that ends a linkage block is taken, whether or not one is open. -/
theorem closeLinkageBlock_onward
    {least : Nat}
    {cursor : Cursor}
    (taken : Onward cursor.rest least cursor.advance.rest) :
    ∃ after, closeLinkageBlock cursor = .ok () after ∧
      Onward cursor.rest least after.rest := by
  unfold closeLinkageBlock
  rw [modify_bind_run]
  refine ⟨_, rfl, ?_⟩
  have sameRest : (if 0 < cursor.linkageBlocks then
      { cursor with linkageBlocks := cursor.linkageBlocks - 1 }
      else cursor.recordError "unbalanced '\x7d'").rest = cursor.rest := by
    split <;> rfl
  rw [Cursor.rest_advance_congr sameRest]
  exact taken

/-- A linkage specifier leads on, with a block or without. -/
theorem linkage_onward
    {least : Nat}
    {cursor : Cursor}
    (taken : Onward cursor.rest least cursor.advance.rest) :
    ∃ after, linkage cursor = .ok () after ∧ Onward cursor.rest least after.rest := by
  unfold linkage
  rw [take_bind_run, discard_bind_run, take_bind_run, accept_bind_run]
  split
  · exact ⟨_, rfl, taken.advance.advance⟩
  · exact ⟨_, rfl, taken.advance⟩

/-- A statement between declarations is taken, whether or not it can be skipped. -/
theorem skipStatement_item
    {cursor : Cursor}
    (input : EndsOnce cursor.rest)
    (notEnd : cursor.peek.isEnd = false)
    (isWord : statementWords.contains cursor.peek.text = true) :
    ∃ after, orElseRecorded skipStatement (return ()) cursor = .ok () after ∧
      Onward cursor.rest 1 after.rest := by
  have taken := (Onward.refl input).advance_succ notEnd
  obtain ⟨steps, length⟩ : ∃ steps, cursor.rest.length = steps + 1 :=
    Nat.exists_eq_add_one.2 (List.length_pos_iff.2 input.ne_nil)
  have noOpener : cursor.peek.hasText "(" = false := by
    by_contra opener
    simp only [Bool.not_eq_false] at opener
    rw [Token.text_of_hasText opener] at isWord
    contradiction
  have noSemicolon : cursor.peek.hasText ";" = false := by
    by_contra semicolon
    simp only [Bool.not_eq_false] at semicolon
    rw [Token.text_of_hasText semicolon] at isWord
    contradiction
  have first : skipStatement cursor = skipStatementUpTo steps cursor.advance := by
    unfold skipStatement
    rw [get_bind_run, length]
    conv_lhs => unfold skipStatementUpTo
    rw [peek_bind_run, if_neg (by simp [notEnd]), sees_bind_run, noOpener, if_neg (by simp),
      take_bind_run, noSemicolon, if_neg (by simp)]
  have lands : Lands 0 cursor.advance.rest (skipStatement cursor) := by
    have shorter := taken.length
    rw [first]
    exact skipStatementUpTo_lands taken.input (by omega)
  cases result : skipStatement cursor with
  | ok value after =>
      rw [result] at lands
      exact ⟨after, orElseRecorded_run_ok _ result, taken.trans lands⟩
  | error error after =>
      rw [result] at lands
      obtain ⟨rfl, here⟩ := lands
      exact ⟨after, orElseRecorded_run_error _ result, taken.trans here⟩

/-- Recovery leads on unless it stands before a closing brace. -/
theorem recoveryRun_pos
    {token : Token}
    (rest : List Token)
    (notEnd : token.isEnd = false)
    (notClosing : token.text ≠ "\x7d") :
    0 < recoveryRun 0 (token :: rest) := by
  unfold recoveryRun
  rw [if_neg (by simp [notEnd])]
  split_ifs <;> simp_all

/-- A declaration that cannot be read leads on together with what is skipped. -/
theorem externalDeclaration_item
    {cursor : Cursor}
    (input : EndsOnce cursor.rest)
    (notEnd : cursor.peek.isEnd = false)
    (notClosing : cursor.peek.hasText "\x7d" = false) :
    ∃ after, orElseRecorded externalDeclaration recover cursor = .ok () after ∧
      Onward cursor.rest 1 after.rest := by
  have lands := externalDeclaration_lands input
  cases result : externalDeclaration cursor with
  | ok value after =>
      rw [result] at lands
      exact ⟨after, orElseRecorded_run_ok _ result, lands⟩
  | error error after =>
      rw [result] at lands
      obtain ⟨rfl, here⟩ := lands
      refine ⟨_, orElseRecorded_run_error _ result, ?_⟩
      by_cases moved : after.rest.length < cursor.rest.length
      · have taken : Onward cursor.rest 1 after.rest := ⟨here.input, here.suffix, moved⟩
        exact taken.advanceBy _
      · have same : after.rest = cursor.rest :=
          here.suffix.eq_of_length_le (Nat.le_of_not_lt moved)
        have samePeek : after.peek = cursor.peek := by rw [Cursor.peek, same, Cursor.peek]
        have notEnd : after.peek.isEnd = false := by rw [samePeek, notEnd]
        have notClosing : after.peek.text ≠ "\x7d" := by
          intro closing
          have seen := Token.hasText_of_text notEnd closing
          rw [samePeek, notClosing] at seen
          contradiction
        have leads := recoveryRun_pos after.rest.tail notEnd notClosing
        rw [← Cursor.rest_eq_peek_cons here.input] at leads
        obtain ⟨further, run⟩ := Nat.exists_eq_add_one.2 leads
        rw [run]
        exact (here.advance_succ notEnd).advanceBy further

/-- Every item of a file is read and leads on, whatever it is. -/
theorem item_onward
    {cursor : Cursor}
    (input : EndsOnce cursor.rest)
    (notEnd : cursor.peek.isEnd = false) :
    ∃ after, item cursor = .ok () after ∧ Onward cursor.rest 1 after.rest := by
  have taken := (Onward.refl input).advance_succ notEnd
  unfold item
  rw [get_bind_run]
  split
  · exact ⟨cursor.advance, rfl, taken⟩
  split
  · exact closeLinkageBlock_onward taken
  split
  · exact linkage_onward taken
  split
  · rename_i isWord
    exact skipStatement_item input notEnd isWord
  · rename_i notClosing _ _
    exact externalDeclaration_item input notEnd (by simpa using notClosing)

/-- The items of a file are read up to the token that ends it. -/
theorem items_complete
    {count : Nat}
    {cursor : Cursor}
    (input : EndsOnce cursor.rest)
    (enough : cursor.rest.length ≤ count) :
    ∃ after, items count cursor = .ok () after ∧ Onward cursor.rest 0 after.rest ∧
      after.peek.isEnd = true := by
  induction count generalizing cursor with
  | zero =>
      have empty := List.length_eq_zero_iff.1 (Nat.le_zero.1 enough)
      exact absurd empty input.ne_nil
  | succ count hypothesis =>
      unfold items
      rw [peek_bind_run]
      by_cases ended : cursor.peek.isEnd = true
      · rw [if_pos ended]
        exact ⟨cursor, rfl, .refl input, ended⟩
      · rw [if_neg ended]
        obtain ⟨next, read, here⟩ := item_onward input (by simpa using ended)
        have length := here.length
        obtain ⟨after, readOn, further, ended⟩ := hypothesis here.input (by omega)
        refine ⟨after, ?_, (here.trans further).weaken (Nat.zero_le _), ended⟩
        rw [← readOn]
        exact bind_run_ok read _

/-! ## The steps of reading -/

/-- A place in some tokens: at least one of them is left. -/
def Within (tokens rest : List Token) : Prop :=
  rest ≠ [] ∧ rest <:+ tokens

/-- From a cursor, a reading ends where it started or further on.  It may fail, but not for
want of steps. -/
def MovesOn {α : Type} (cursor : Cursor) (reading : Parse α) : Prop :=
  match reading cursor with
  | .ok _ after => Within cursor.rest after.rest
  | .error error after => error = .recorded ∧ Within cursor.rest after.rest

/-- The readings that the reading of a file is made of, each with the steps that the
tokens left at its cursor allow.  An identifier list is read only where one is seen. -/
inductive Reading (cursor : Cursor) : {α : Type} → Parse α → Prop where
  | take : Reading cursor take
  | accept (text : String) : Reading cursor (accept text)
  | expect (text : String) : Reading cursor (expect text)
  | skipUntilClose (close : String) : Reading cursor (skipUntilClose close)
  | skipBalanced (opener close : String) : Reading cursor (skipBalanced opener close)
  | skipExpression (stops : List String) : Reading cursor (skipExpression stops)
  | skipAttributes : Reading cursor skipAttributes
  | skipStatement : Reading cursor skipStatement
  | recover : Reading cursor recover
  | trailingComments (separator : String) : Reading cursor (trailingComments separator)
  | recordSpecifier : Reading cursor recordSpecifier
  | enumeratorList (tag : Option String) : Reading cursor (enumeratorList tag)
  | enumSpecifier : Reading cursor enumSpecifier
  | declarationSpecifiers (context : Context) : Reading cursor (declarationSpecifiers context)
  | pointer : Reading cursor pointer
  | bracketText : Reading cursor bracketText
  | declarator (abstractAllowed : Bool) :
      Reading cursor (do declarator (← get).fuel abstractAllowed)
  | directDeclarator (abstractAllowed : Bool) :
      Reading cursor (do directDeclarator (← get).fuel abstractAllowed)
  | suffixes (base : Option Decl.Declarator) : Reading cursor (do suffixes (← get).fuel base)
  | parameterList : Reading cursor (do parameterList (← get).fuel)
  | parameters (leading : Option String) (read : List Decl.Parameter) :
      Reading cursor (do parameters (← get).fuel leading read)
  | identifierList (leading : Option String) (read : List Decl.Parameter) :
      identifierListRun cursor.session cursor.rest = true →
      Reading cursor (do identifierList (← get).rest.length leading read)
  | parameterParts : Reading cursor (do parameterParts (← get).fuel)
  | requiredDeclarator : Reading cursor requiredDeclarator
  | declaratorEnd (read : List Decl.Declarator) : Reading cursor (declaratorEnd read)
  | parameterDeclaration (function : Decl.Declarator) :
      Reading cursor (parameterDeclaration function)
  | functionDefinition
      (comment : Option String)
      (spec : Decl.Spec)
      (function : Decl.Declarator) :
      Reading cursor (functionDefinition comment spec function)
  | declarators (start : DeclarationStart) (read : List Decl.Declarator) :
      Reading cursor (do declarators start (← get).rest.length read)
  | externalDeclaration : Reading cursor externalDeclaration
  | closeLinkageBlock : Reading cursor closeLinkageBlock
  | linkage : Reading cursor linkage

/-- Every reading lands. -/
theorem Reading.lands
    {α : Type}
    {reading : Parse α}
    {cursor : Cursor}
    (isReading : Reading cursor reading)
    (input : EndsOnce cursor.rest) :
    Lands 0 cursor.rest (reading cursor) := by
  have start := Onward.refl input
  have weaken {β : Type} {result : EStateM.Result SyntaxError Cursor β} {least : Nat}
      (lands : Lands least cursor.rest result) : Lands 0 cursor.rest result :=
    .from_here start lands (Nat.zero_le _)
  have fuelled := DeclaratorsLand.all cursor.fuel
  have enough (more : Nat) (small : more ≤ 12) :
      6 * cursor.rest.length + more ≤ cursor.fuel := by
    unfold Cursor.fuel
    omega
  cases isReading with
  | take => exact start.advance
  | accept text =>
      rw [accept_run]
      split
      · exact start.advance
      · exact start
  | expect text => exact weaken (.expect input text)
  | skipUntilClose close => exact skipUntilClose_lands close input
  | skipBalanced opener close => exact weaken (skipBalanced_lands opener close input)
  | skipExpression stops => exact skipExpression_lands stops input
  | skipAttributes => exact skipAttributes_lands input
  | skipStatement => exact skipStatementUpTo_lands input (Nat.le_refl _)
  | recover => exact start.advanceBy _
  | trailingComments separator => exact trailingComments_lands separator input
  | recordSpecifier => exact recordSpecifier_lands start.advance
  | enumeratorList tag => exact weaken (enumeratorList_lands tag input)
  | enumSpecifier => exact enumSpecifier_lands start.advance
  | declarationSpecifiers context => exact declarationSpecifiers_lands context input
  | pointer => exact (pointer_takesOr input).lands input
  | bracketText => exact weaken (bracketText_lands input)
  | declarator abstractAllowed =>
      exact (fuelled.declarator abstractAllowed input (enough 4 (by omega))).lands input
  | directDeclarator abstractAllowed =>
      exact (fuelled.directDeclarator abstractAllowed input (enough 3 (by omega))).lands input
  | suffixes base => exact (fuelled.suffixes base input (enough 2 (by omega))).lands input
  | parameterList => exact weaken (fuelled.parameterList input (enough 1 (by omega)))
  | parameters leading read =>
      exact weaken (fuelled.parameters leading read input (enough 6 (by omega)))
  | identifierList leading read run =>
      exact identifierList_lands leading read input run (Nat.le_refl _)
  | parameterParts => exact weaken (fuelled.parameterParts input (enough 5 (by omega)))
  | requiredDeclarator => exact weaken (requiredDeclarator_lands input)
  | declaratorEnd read => exact weaken (declaratorEnd_lands read input)
  | parameterDeclaration function => exact weaken (parameterDeclaration_lands function input)
  | functionDefinition comment spec function =>
      exact functionDefinition_lands comment spec function input
  | declarators start read => exact weaken (declarators_lands start read input (Nat.le_refl _))
  | externalDeclaration => exact weaken (externalDeclaration_lands input)
  | closeLinkageBlock =>
      obtain ⟨after, read, here⟩ := closeLinkageBlock_onward start.advance
      rw [read]
      exact here
  | linkage =>
      obtain ⟨after, read, here⟩ := linkage_onward start.advance
      rw [read]
      exact here

theorem EndsOnce.of_append
    {before rest : List Token}
    (input : EndsOnce (before ++ rest))
    (filled : rest ≠ []) :
    EndsOnce rest := by
  induction before with
  | nil => exact input
  | cons token before hypothesis =>
      refine hypothesis (input.tail ?_)
      by_contra isEnd
      have nothing := (input.of_isEnd (by simpa using isEnd)).1
      exact filled (List.append_eq_nil_iff.1 nothing).2

/-- What is left at any place ends once. -/
theorem EndsOnce.of_within
    {tokens rest : List Token}
    (input : EndsOnce tokens)
    (within : Within tokens rest) :
    EndsOnce rest := by
  obtain ⟨filled, before, rfl⟩ := within
  exact input.of_append filled

/-- What leads on stays within the tokens. -/
theorem Onward.within
    {base rest : List Token}
    {taken : Nat}
    (here : Onward base taken rest) :
    Within base rest :=
  ⟨here.input.ne_nil, here.suffix⟩

/-- The tokens of every text end once. -/
theorem endsOnce_of_tokenize
    {source : String}
    {baseFile : Option String}
    {lexed : Source.Lexed}
    (read : Source.tokenize source baseFile = .ok lexed) :
    EndsOnce lexed.tokens := by
  obtain ⟨tokens, last, whole, ended, -, shapes⟩ := Source.tokenize_shapes read
  obtain ⟨endKind, endText⟩ := Prod.mk.inj ended
  refine ⟨tokens, last, whole, by simp [Token.isEnd, endKind], endText, ?_⟩
  intro token member
  obtain ⟨notEnd, -, starts⟩ := Source.tokenize_proper shapes token member
  refine ⟨by simpa [Token.isEnd] using notEnd, ?_⟩
  intro word comma
  obtain ⟨c, tail, spelled, starts⟩ := starts (by simpa [Token.isWord] using word)
  rw [comma] at spelled
  obtain ⟨rfl, -⟩ := List.cons.inj (spelled.symm.trans (rfl : (",").toList = [',']))
  exact absurd starts (by decide)

/-- Reading always comes to an end.  The tokens of every text end once: the last of them,
and no other, ends the input, that end has no text, and no word is a comma.  Of all tokens
that end once a file is read up to the token that ends it; every item that is not that token
is read, and leads on; and every reading that items are made of ends where it started or
further on. -/
theorem wholeFile_completes :
    (∀ (source : String) (baseFile : Option String) (lexed : Source.Lexed),
      Source.tokenize source baseFile = .ok lexed → EndsOnce lexed.tokens) ∧
    ∀ tokens : List Token, EndsOnce tokens →
      (∀ session : Session, ∃ after last,
        wholeFile { session, rest := tokens } = .ok () after ∧ after.rest = [last] ∧
          tokens.getLast? = some last ∧ last.isEnd = true) ∧
      ∀ cursor : Cursor, Within tokens cursor.rest →
        (cursor.peek.isEnd = false →
          ∃ after, item cursor = .ok () after ∧ Within cursor.rest after.rest ∧
            after.rest.length < cursor.rest.length) ∧
        ∀ (α : Type) (reading : Parse α), Reading cursor reading → MovesOn cursor reading := by
  refine ⟨fun _ _ _ => endsOnce_of_tokenize, fun tokens input => ⟨?_, ?_⟩⟩
  · intro session
    obtain ⟨after, read, here, ended⟩ :=
      @items_complete tokens.length { session, rest := tokens } input (Nat.le_refl _)
    have rest := Cursor.rest_eq_peek_cons here.input
    have onlyEnd : after.rest = [after.peek] := by
      have left := here.input
      rw [rest] at left
      rw [rest, (left.of_isEnd ended).1]
    obtain ⟨before, whole⟩ := here.suffix
    refine ⟨after, after.peek, read, onlyEnd, ?_, ended⟩
    rw [show tokens = before ++ [after.peek] by rw [← onlyEnd]; exact whole.symm]
    exact List.getLast?_concat ..
  · intro cursor within
    refine ⟨fun notEnd => ?_, fun α reading isReading => ?_⟩
    · obtain ⟨after, read, here⟩ := item_onward (input.of_within within) notEnd
      exact ⟨after, read, here.within, here.length⟩
    · have lands := isReading.lands (input.of_within within)
      unfold MovesOn
      split
      · rename_i result
        rw [result] at lands
        exact lands.within
      · rename_i result
        rw [result] at lands
        exact ⟨lands.1, lands.2.within⟩

/-- Reading passes a brace that closes nothing, and a parameter list that breaks off in
an enumeration. -/
theorem wholeFile_completes_malformed :
    ∃ lexed, Source.tokenize "\x7d int f(a, enum \x7b B" none = .ok lexed ∧
      EndsOnce lexed.tokens ∧
      (∀ session : Session, ∃ after last,
        wholeFile { session, rest := lexed.tokens } = .ok () after ∧ after.rest = [last] ∧
          lexed.tokens.getLast? = some last ∧ last.isEnd = true) ∧
      ∀ cursor : Cursor, cursor.rest = lexed.tokens →
        (∃ after, item cursor = .ok () after ∧ Within cursor.rest after.rest ∧
          after.rest.length < cursor.rest.length) ∧
        MovesOn cursor recover := by
  have starts : (Source.tokenize "\x7d int f(a, enum \x7b B" none).map
      (·.tokens.head?.map Token.isEnd) = .ok (some false) := rfl
  cases read : Source.tokenize "\x7d int f(a, enum \x7b B" none with
  | error error =>
      rw [read] at starts
      cases starts
  | ok lexed =>
      rw [read] at starts
      obtain ⟨first, isFirst, notEnd⟩ := Option.map_eq_some_iff.1 (Except.ok.inj starts)
      have input := wholeFile_completes.1 _ _ _ read
      obtain ⟨completes, moves⟩ := wholeFile_completes.2 lexed.tokens input
      refine ⟨lexed, rfl, input, completes, fun cursor here => ?_⟩
      have within : Within lexed.tokens cursor.rest := by
        rw [here]
        exact ⟨input.ne_nil, List.suffix_refl _⟩
      obtain ⟨leads, readings⟩ := moves cursor within
      obtain ⟨rest, whole⟩ := List.head?_eq_some_iff.1 isFirst
      refine ⟨leads ?_, readings Unit recover .recover⟩
      rw [Cursor.peek_eq_head (here.trans whole), notEnd]

end Grammar
end DeclManual
