import DeclManual.Proofs.Grammar.Completion
import DeclManual.Proofs.Grammar.DefinitionHead

/-!
# Old-style definitions

A function definition may name its parameters in an identifier list and declare them
before its body, in any order.  It means the same as the definition with the parameters
in its parameter list.
-/

namespace DeclManual
namespace Grammar

open Decl
open Source (Token)

/-! ## Both styles -/

/-- What may stand after a parameter list of a definition: its body or a declaration. -/
structure PastList (cursor : Cursor) : Prop where
  filled : cursor.rest ≠ []
  noBracket : cursor.peek.hasText "[" = false
  noOpener : cursor.peek.hasText "(" = false
  noAttribute : attributes.contains cursor.peek.text = false
  next : (cursor.peek.hasText "\x7b" || cursor.peek.isWord) = true

/-- The tokens of an empty body. -/
def emptyBody : List Token :=
  [.mark "\x7b", .mark "\x7d"]

/-- Tokens between the name of a function and its body are read as given parameters. -/
structure ParametersRead
    (session : Session)
    (tokens : List Token)
    (parameters : List Parameter) : Prop where
  bare : Bare tokens
  opens : ∃ next more, tokens = .mark "(" :: next :: more ∧ next.text ≠ "*"
  reads : ∀ {cursor : Cursor} {after : List Token} {fuel : Nat} (name : String),
    Faces cursor (tokens ++ emptyBody) after → Elsewhere session cursor.session →
    6 * cursor.rest.length + 3 ≤ fuel →
    ∃ listed typed body, parameterList fuel cursor = .ok listed typed ∧ PastList typed ∧
      parameterDeclarations (typed.rest.length + 1) (functionNamed name listed) typed =
        .ok (functionNamed name parameters) body ∧
      Faces body emptyBody after ∧ Elsewhere session body.session

section

variable {session : Session}

/-- The parameters in their list. -/
def newStyle (parameters : List (WrittenParameter session)) : List Token :=
  .mark "(" :: divided (parameters.map (·.tokens)) ++ [Token.mark ")"]

/-- The names of the parameters in an identifier list, and the declarations of the
parameters in an order of their own. -/
def oldStyle (parameters declared : List (WrittenParameter session)) : List Token :=
  .mark "(" :: divided (parameters.map fun written => [.word written.name]) ++
    .mark ")" :: declared.flatMap WrittenParameter.declaration

theorem pastList_body
    {cursor : Cursor}
    {tokens after : List Token}
    (faces : Faces cursor (.mark "\x7b" :: tokens) after) :
    PastList cursor := by
  refine ⟨?_, faces.hasText "[", faces.hasText "(", ?_, ?_⟩
  · rw [← List.length_pos_iff, faces.length, List.length_cons]
    omega
  · rw [faces.text]
    decide
  · rw [faces.hasText]
    rfl

theorem pastList_word
    {cursor : Cursor}
    {tokens after : List Token}
    (part : SpecifierPart session)
    (faces : Faces cursor (.word part.head :: tokens) after) :
    PastList cursor := by
  refine ⟨?_, ?_, ?_, ?_, ?_⟩
  · rw [← List.length_pos_iff, faces.length, List.length_cons]
    omega
  · rw [faces.hasText, hasText_word, beq_eq_false_iff_ne]
    exact part.head_ne (by decide) (by decide)
  · rw [faces.hasText, hasText_word, beq_eq_false_iff_ne]
    exact part.head_ne (by decide) (by decide)
  · rw [faces.text]
    exact part.head_not_attribute
  · rw [faces.isWord, isWord_word, Bool.or_true]

theorem parametersRead_newStyle
    {parameters : List (WrittenParameter session)}
    (filled : parameters ≠ []) :
    ParametersRead session (newStyle parameters) (parameters.map (·.parameter)) := by
  rcases parameters with _ | ⟨first, others⟩
  · contradiction
  refine ⟨?_, ?_, ?_⟩
  · refine .append (.cons (by decide) "(" (bare_divided ?_)) (bare_mark ")")
    intro item member
    obtain ⟨written, -, rfl⟩ := List.mem_map.1 member
    exact written.bare
  · obtain ⟨part, tail, isTokens⟩ := first.tokens_start
    obtain ⟨rest, isDivided⟩ := divided_cons first.tokens (others.map (·.tokens))
    refine ⟨.word part.head, tail ++ rest ++ [Token.mark ")"], ?_, ?_⟩
    · rw [newStyle, List.map_cons, isDivided, isTokens]
      rfl
    · exact part.head_ne (by decide) (by decide)
  · intro cursor after fuel name faces elsewhere enough
    rw [newStyle, List.append_assoc, List.singleton_append] at faces
    obtain ⟨typed, listed, facesBody, elsewhereTyped⟩ :=
      parameterList_written first others faces elsewhere enough
    have opens : typed.peek.hasText "\x7b" = true := facesBody.hasText "\x7b"
    refine ⟨_, typed, typed, listed, pastList_body facesBody, ?_, facesBody, elsewhereTyped⟩
    unfold parameterDeclarations
    rw [sees_bind_run, opens, if_pos rfl]
    rfl

theorem parametersRead_oldStyle
    {parameters declared : List (WrittenParameter session)}
    (filled : parameters ≠ [])
    (distinct : (parameters.map (·.name)).Nodup)
    (order : declared.Perm parameters)
    (unpromoted : session.options.promoteParameters = false) :
    ParametersRead session (oldStyle parameters declared) (parameters.map (·.parameter)) := by
  have all : ∀ written ∈ parameters, written.name ∈ (declared.map (·.name)).reverse ++ [] := by
    intro written member
    rw [List.append_nil, List.mem_reverse]
    exact List.mem_map_of_mem (order.mem_iff.2 member)
  have declaredOnce : (declared.map (·.name)).Nodup :=
    (order.map (·.name)).nodup_iff.2 distinct
  rcases isParameters : parameters with _ | ⟨first, others⟩
  · contradiction
  rcases isDeclared : declared with _ | ⟨next, declaredOthers⟩
  · rw [isDeclared] at order
    exact absurd order.symm.eq_nil filled
  rw [← isParameters, ← isDeclared]
  refine ⟨?_, ?_, ?_⟩
  · refine .append (.cons (by decide) "(" (bare_divided ?_)) (.cons (by decide) ")" ?_)
    · intro item member
      obtain ⟨written, -, rfl⟩ := List.mem_map.1 member
      exact .cons (by decide) written.name bare_nil
    · intro token member
      obtain ⟨written, -, inDeclaration⟩ := List.mem_flatMap.1 member
      exact written.bare.append (bare_mark ";") token inDeclaration
  · obtain ⟨rest, isDivided⟩ := divided_cons [.word first.name]
      (others.map fun written => [.word written.name])
    refine ⟨.word first.name, rest ++ .mark ")" :: declared.flatMap WrittenParameter.declaration,
      ?_, first.declared.name.text_ne (by decide)⟩
    rw [oldStyle, isParameters, List.map_cons, isDivided]
    rfl
  · intro cursor after fuel name faces elsewhere enough
    obtain ⟨part, tail, isTokens⟩ := next.tokens_start
    obtain ⟨fewer, rfl⟩ : ∃ fewer, fuel = fewer + 1 := ⟨fuel - 1, by omega⟩
    have starts : declared.flatMap WrittenParameter.declaration ++ emptyBody =
        .word part.head :: (tail ++ [Token.mark ";"] ++
          declaredOthers.flatMap WrittenParameter.declaration ++ emptyBody) := by
      rw [isDeclared, List.flatMap_cons, WrittenParameter.declaration, isTokens]
      rfl
    rw [oldStyle, List.append_assoc, List.cons_append, List.cons_append, starts, isParameters]
      at faces
    obtain ⟨listed, reads, facesNext, elsewhereListed⟩ :=
      @parameterList_names _ _ _ _ first others fewer _ faces elsewhere
    rw [← isParameters] at reads
    have past := pastList_word part facesNext
    rw [← starts] at facesNext
    obtain ⟨body, typed, facesBody, elsewhereBody⟩ :=
      parameterDeclarations_written distinct unpromoted declared
        (fun written member => order.mem_iff.1 member) declaredOnce [] (by simp) name facesNext
        elsewhereListed (Nat.le_succ _)
    rw [typedParameters_all parameters all, typedParameters_none] at typed
    exact ⟨_, listed, body, reads, past, typed, facesBody, elsewhereBody⟩

end

/-- A definition with an empty body is told to the session when it is complete. -/
theorem DefinitionHead.externalDeclaration_run
    {session : Session}
    (head : DefinitionHead session)
    {written : List Token}
    {parameters : List Parameter}
    (reads : ParametersRead head.specified.session written parameters)
    {first others : List Token}
    {ending : Token}
    (isFirst : first.map Token.unplaced = head.tokens)
    (isOthers : others.map Token.unplaced = written ++ emptyBody)
    (input : EndsOnce (others ++ [ending])) :
    ∃ body, externalDeclaration { session, rest := first ++ (others ++ [ending]) } =
        .ok () { body.advance.advance with
          session := Session.define body.advance.advance.session head.comment head.spec
            (functionNamed head.name.text parameters) } ∧
      Faces body emptyBody [ending] ∧ Elsewhere head.specified.session body.session ∧
      body.rest <:+ others ++ [ending] := by
  obtain ⟨next, more, isWritten, noStar⟩ := reads.opens
  have opensList : DefinitionHead.OpensList (others ++ [ending]) := by
    rw [isWritten, List.cons_append, List.cons_append] at isOthers
    obtain ⟨opener, tail, rfl, isOpener, isTail⟩ := List.map_eq_cons_iff.1 isOthers
    obtain ⟨second, tail, rfl, isSecond, -⟩ := List.map_eq_cons_iff.1 isTail
    refine ⟨opener, second, tail ++ [ending], rfl, isOpener, ?_⟩
    rw [← Token.text_unplaced, isSecond]
    exact noStar
  obtain ⟨further, name, read, isRest, isName, elsewhere⟩ :=
    head.externalDeclaration_inPlace isFirst opensList
  obtain ⟨sameWord, sameText, -⟩ := Token.look_eq isName
  have notEnd : further.peek.isEnd = false := by
    rw [Cursor.peek_eq_head isRest]
    exact Token.not_isEnd_of_isWord (sameWord.trans head.isWord)
  have remains : further.advance.rest = others ++ [ending] := by
    rw [Cursor.rest_advance notEnd, isRest]
    rfl
  have faces : Faces further.advance (written ++ emptyBody) [ending] :=
    ⟨reads.bare.append (.cons (by decide) _ (bare_mark _)), others, isOthers, remains⟩
  have length : further.rest.length = further.advance.rest.length + 1 := by
    rw [remains, isRest, List.length_cons]
  obtain ⟨listed, typed, body, list, past, declared, facesBody, elsewhereBody⟩ :
      ∃ listed typed body, parameterList (6 * (further.rest.length + 2) - 3) further.advance =
          .ok listed typed ∧ PastList typed ∧
        parameterDeclarations (typed.rest.length + 1) (functionNamed head.name.text listed) typed =
          .ok (functionNamed head.name.text parameters) body ∧
        Faces body emptyBody [ending] ∧ Elsewhere head.specified.session body.session :=
    reads.reads head.name.text faces elsewhere.advance (by omega)
  have spelled := head.spelled head.name (by simp) head.isWord
  have opens : further.advance.peek.hasText "(" = true := by
    rw [isWritten, List.cons_append] at faces
    exact faces.hasText "("
  have required : requiredDeclarator further =
      .ok (functionNamed head.name.text listed) typed := by
    rw [← sameText] at spelled ⊢
    exact requiredDeclarator_function isRest (sameWord.trans head.isWord) spelled
      (by rw [sameText]; exact head.notKeyword) opens list past.noBracket past.noOpener
      past.noAttribute
  have suffix : body.rest <:+ others ++ [ending] := by
    rw [← remains] at input ⊢
    have landsList := (DeclaratorsLand.all (6 * (further.rest.length + 2) - 3)).parameterList input
      (by omega)
    rw [list] at landsList
    have landsDeclarations := parameterDeclarations_lands (functionNamed head.name.text listed)
      landsList.input (Nat.le_succ _)
    rw [declared] at landsDeclarations
    exact landsDeclarations.suffix.trans landsList.suffix
  refine ⟨body, ?_, facesBody, elsewhereBody, suffix⟩
  rw [read, length, declarators_function _ rfl required (isFunction_functionNamed spelled listed)
    past.filled past.noAttribute past.next]
  exact functionDefinition_run head.comment head.spec declared facesBody

/-- A file of one item is read to its end. -/
theorem wholeFile_item
    {cursor closed : Cursor}
    (notEnd : cursor.peek.isEnd = false)
    (reads : item cursor = .ok () closed)
    (ended : closed.peek.isEnd = true)
    (long : 2 ≤ cursor.rest.length) :
    wholeFile cursor = .ok () closed := by
  obtain ⟨count, length⟩ : ∃ count, cursor.rest.length = count + 2 :=
    ⟨cursor.rest.length - 2, by omega⟩
  have stops : items (count + 1) closed = .ok () closed := by
    unfold items
    rw [peek_bind_run, ended, if_pos rfl]
    rfl
  unfold wholeFile
  rw [get_bind_run, length]
  unfold items
  rw [peek_bind_run, notEnd, if_neg (by simp), bind_run_ok reads]
  exact stops

/-- A file that holds one definition with an empty body tells the session its function. -/
theorem DefinitionHead.readTokens
    {session : Session}
    (head : DefinitionHead session)
    {written : List Token}
    {parameters : List Parameter}
    (reads : ParametersRead head.specified.session written parameters)
    {placed : List Token}
    {ending : Token}
    (isPlaced : placed.map Token.unplaced = head.tokens ++ written ++ emptyBody)
    (input : EndsOnce (placed ++ [ending])) :
    ∃ source, session.readTokens (placed ++ [ending]) =
        Session.define { head.specified.session with source } head.comment head.spec
          (functionNamed head.name.text parameters) ∧
      source.unplaced = head.specified.session.source.unplaced ∧
      placed.getLast?.map (·.inBaseFile) = some source.inBaseFile := by
  rw [List.append_assoc] at isPlaced
  obtain ⟨first, others, rfl, isFirst, isOthers⟩ := List.map_eq_append_iff.1 isPlaced
  rw [List.append_assoc] at input ⊢
  obtain ⟨body, run, faces, elsewhere, before, isBefore⟩ :=
    head.externalDeclaration_run reads isFirst isOthers (input.of_append (by simp))
  obtain ⟨braces, isBraces, isBody⟩ := faces.placed
  obtain ⟨opener, closers, rfl, -, isClosers⟩ := List.map_eq_cons_iff.1 isBraces
  obtain ⟨closer, rfl, isCloser⟩ := List.map_eq_singleton_iff.1 isClosers
  have closing := faces.advance
  have atCloser : body.advance.rest = [closer, ending] := by
    rw [Cursor.rest_advance faces.notEnd, isBody]
    rfl
  have atEnd : body.advance.advance.rest = [ending] := by
    rw [Cursor.rest_advance closing.notEnd, atCloser]
    rfl
  have isOthersEnd : others = before ++ [opener, closer] := by
    rw [isBody, ← List.append_assoc] at isBefore
    exact (List.append_inj' isBefore rfl).1.symm
  have elsewhereEnd : Elsewhere head.specified.session body.advance.advance.session :=
    elsewhere.advance.advance
  obtain ⟨source, isSession, isSource⟩ := elsewhereEnd
  have notEnd : ({ session, rest := first ++ (others ++ [ending]) } : Cursor).peek.isEnd =
      false := by
    rw [← Token.isEnd_unplaced, head.peek_inPlace isFirst, Token.isEnd_unplaced]
    exact head.notEnd_start
  have ended : body.advance.advance.peek.isEnd = true := by
    obtain ⟨tokens, last, isInput, isEnd, -⟩ := input
    rw [← List.append_assoc] at isInput
    obtain ⟨-, isLast⟩ := List.append_inj' isInput rfl
    rw [Cursor.peek_eq_head atEnd, List.singleton_inj.1 isLast]
    exact isEnd
  have long : 2 ≤ (first ++ (others ++ [ending])).length := by
    rw [isOthersEnd]
    simp
    omega
  have reading := wholeFile_item notEnd
    ((head.item_inPlace isFirst).trans (orElseRecorded_run_ok recover run)) ended long
  refine ⟨source, ?_, isSource, ?_⟩
  · unfold Session.readTokens
    rw [reading, isSession]
  · have isSynced : source = (body.advance.sync closer).session.source := by
      rw [← Cursor.peek_eq_head atCloser, ← Cursor.session_advance, isSession]
    rw [isOthersEnd, isSynced]
    simp [Cursor.sync]

/-- The page of a definition, where it gets one. -/
def DefinitionHead.pages
    {session : Session}
    (head : DefinitionHead session)
    (inBaseFile : Bool)
    (parameters : List Parameter) : List ManualPage :=
  let comment := definitionComment session.options head.comment none
  let function := { functionNamed head.name.text parameters with kind := .functionDef }
  if deservesPage session.options { session.source with inBaseFile } comment head.spec function then
    [{ spec := head.spec
       declarator := { function with comment }
       sourceFile := session.source.baseFile
       sourceTime := session.source.baseTime }]
  else []

/-- The session learns no more from a definition than its page. -/
theorem DefinitionHead.define_eq
    {session : Session}
    (head : DefinitionHead session)
    (parameters : List Parameter)
    {source : SourceState}
    (sameSource : source.unplaced = head.specified.session.source.unplaced) :
    Session.define { head.specified.session with source } head.comment head.spec
        (functionNamed head.name.text parameters) =
      { head.specified.session with
        source
        pages := session.pages ++ head.pages source.inBaseFile parameters } := by
  obtain ⟨specified, enums, enumTags, isSession, isSpecified⟩ := head.session_specified
  rw [isSession] at sameSource ⊢
  have isSource := sameSource.trans isSpecified
  simp only [SourceState.unplaced, SourceState.mk.injEq] at isSource
  obtain ⟨sameFile, sameTime, -, sameHeader, -⟩ := isSource
  let function := { functionNamed head.name.text parameters with kind := .functionDef }
  have offered (current : Session) (comment : Option String) :
      (current.rememberDeclarations comment head.spec [function] none).1 =
        (current.consider comment head.spec function).1 := by
    unfold Session.rememberDeclarations Session.commentEndOfLine
    have noComment : function.comment = none := rfl
    dsimp only
    rw [noComment, Option.or_none]
    rfl
  have sameVerdict (comment : Option String) :
      deservesPage session.options source comment head.spec function =
        deservesPage session.options { session.source with inBaseFile := source.inBaseFile }
          comment head.spec function := by
    unfold deservesPage
    rw [sameHeader]
  unfold Session.define pages
  dsimp only
  rw [offered, Session.consider, sameVerdict]
  split
  · rw [sameFile, sameTime]
  · rw [List.append_nil]

/-- A definition that declares its parameters before its body, in any order, means the same
as the definition with the parameters in its list. -/
theorem oldStyle_reads_as_newStyle
    {session : Session}
    (head : DefinitionHead session)
    {parameters declared : List (WrittenParameter head.specified.session)}
    (filled : parameters ≠ [])
    (distinct : (parameters.map (·.name)).Nodup)
    (order : declared.Perm parameters)
    (unpromoted : session.options.promoteParameters = false)
    {old new : List Token}
    {oldEnd newEnd : Token}
    (isOld : old.map Token.unplaced = head.tokens ++ oldStyle parameters declared ++ emptyBody)
    (isNew : new.map Token.unplaced = head.tokens ++ newStyle parameters ++ emptyBody)
    (oldInput : EndsOnce (old ++ [oldEnd]))
    (newInput : EndsOnce (new ++ [newEnd]))
    {inBaseFile : Bool}
    (oldPlace : old.getLast?.map (·.inBaseFile) = some inBaseFile)
    (newPlace : new.getLast?.map (·.inBaseFile) = some inBaseFile) :
    (session.readTokens (new ++ [newEnd])).pages =
        session.pages ++ head.pages inBaseFile (parameters.map (·.parameter)) ∧
      (session.readTokens (new ++ [newEnd])).diagnostics = session.diagnostics ∧
      Elsewhere (session.readTokens (new ++ [newEnd])) (session.readTokens (old ++ [oldEnd])) := by
  obtain ⟨specified, enums, enumTags, isSession, -⟩ := head.session_specified
  have unpromotedSpecified : head.specified.session.options.promoteParameters = false := by
    rw [isSession]
    exact unpromoted
  have oldReads := parametersRead_oldStyle filled distinct order unpromotedSpecified
  obtain ⟨oldSource, readOld, sameOld, atOld⟩ := head.readTokens oldReads isOld oldInput
  obtain ⟨newSource, readNew, sameNew, atNew⟩ :=
    head.readTokens (parametersRead_newStyle filled) isNew newInput
  obtain rfl : inBaseFile = newSource.inBaseFile := Option.some.inj (newPlace.symm.trans atNew)
  have sameBase : oldSource.inBaseFile = newSource.inBaseFile :=
    Option.some.inj (atOld.symm.trans oldPlace)
  rw [readOld, readNew, head.define_eq _ sameOld, head.define_eq _ sameNew, sameBase]
  have sameDiagnostics : head.specified.session.diagnostics = session.diagnostics := by
    rw [isSession]
  exact ⟨rfl, sameDiagnostics, oldSource, rfl, sameOld.trans sameNew.symm⟩

/-- A session without promotion of parameters. -/
def unpromotedSession : Session :=
  .start { promoteParameters := false }

/-- The head `int copy` with a comment before it. -/
def copyHead : DefinitionHead unpromotedSession where
  returns := [{ Token.word "int" with commentBefore := some "Copies." }]
  name := .word "copy"
  specifiers := some { spec := .ofText "int" {}, isTypedef := false }
  specified := Cursor.advance
    { session := unpromotedSession
      rest := [{ Token.word "int" with commentBefore := some "Copies." }, .word "copy",
        Cursor.endToken] }
  isWord := rfl
  notKeyword := by decide
  spelled := by
    intro token member isWord
    rcases List.mem_pair.1 member with rfl | rfl
    · exact ⟨'i', _, rfl, rfl⟩
    · exact ⟨'c', _, rfl, rfl⟩
  noEnd := by decide
  noCommentAfter := by decide
  noCommentBefore := by decide
  notStatement := by decide
  reads := rfl
  stops := rfl
  notTypedef := by simp

/-- The parameter `char *to`. -/
def toParameter : WrittenParameter copyHead.specified.session where
  specifier :=
    { leading := []
      type := .typeWord "char" { isChar := true } (by decide)
      further := []
      leading_not_type := by simp
      isType := rfl
      further_not_typedefName := by simp }
  declared :=
    { name := ⟨"to", ⟨'t', _, rfl, rfl⟩, by decide, rfl⟩
      tokens := [.mark "*", .word "to"]
      shape := (Declarator.identifier "to").pointerTo "*"
      bare := .cons (by decide) "*" (.cons (by decide) "to" bare_nil)
      spelled := by
        intro token member isWord
        rcases List.mem_pair.1 member with rfl | rfl
        · contradiction
        · exact ⟨'t', _, rfl, rfl⟩
      noAttribute := by decide
      read := ⟨_, rfl, rfl, rfl, rfl⟩
      named := rfl }

theorem isSpelled_count :
    ∃ c rest, ("count").toList = c :: rest ∧ Source.startsWord c = true :=
  ⟨'c', _, rfl, rfl⟩

theorem notKeyword_count : isKeyword "count" = false := by decide

/-- The parameter `register int count`. -/
def countParameter : WrittenParameter copyHead.specified.session where
  specifier :=
    { leading := [.modifier "register" .junk (by decide)]
      type := .typeWord "int" {} (by decide)
      further := []
      leading_not_type := by simp [SpecifierPart.isType]
      isType := rfl
      further_not_typedefName := by simp }
  declared :=
    { name := ⟨"count", isSpelled_count, notKeyword_count, rfl⟩
      tokens := [.word "count"]
      shape := .identifier "count"
      bare := .cons (by decide) "count" bare_nil
      spelled := by
        intro token member isWord
        rw [List.mem_singleton.1 member]
        exact ⟨'c', _, rfl, rfl⟩
      noAttribute := by decide
      read := ⟨_, rfl, rfl, rfl, rfl⟩
      named := rfl }

/-- Tokens in a base file. -/
def inBaseFile (tokens : List Token) : List Token :=
  tokens.map fun token => { token with inBaseFile := true }

/-- The definition of `copy` gets its page also when `count` is declared before `to`. -/
theorem oldStyle_reads_as_newStyle_copy :
    ∃ old new : List Token,
      old.map (·.text) =
          ["int", "copy", "(", "to", ",", "count", ")", "register", "int", "count", ";", "char",
            "*", "to", ";", "\x7b", "\x7d"] ∧
        new.map (·.text) =
          ["int", "copy", "(", "char", "*", "to", ",", "register", "int", "count", ")", "\x7b",
            "\x7d"] ∧
        (unpromotedSession.readTokens (new ++ [Cursor.endToken])).pages =
          copyHead.pages true [toParameter.parameter, countParameter.parameter] ∧
        (copyHead.pages true [toParameter.parameter, countParameter.parameter]).length = 1 ∧
        Elsewhere (unpromotedSession.readTokens (new ++ [Cursor.endToken]))
          (unpromotedSession.readTokens (old ++ [Cursor.endToken])) := by
  have same := @oldStyle_reads_as_newStyle _ copyHead [toParameter, countParameter]
    [countParameter, toParameter] (by simp) (by decide) (.swap _ _ _) rfl
    (inBaseFile (copyHead.tokens ++
      oldStyle [toParameter, countParameter] [countParameter, toParameter] ++ emptyBody))
    (inBaseFile (copyHead.tokens ++ newStyle [toParameter, countParameter] ++ emptyBody))
    Cursor.endToken Cursor.endToken rfl rfl ⟨_, _, rfl, rfl, rfl, by decide⟩
    ⟨_, _, rfl, rfl, rfl, by decide⟩ true rfl rfl
  exact ⟨_, _, rfl, rfl, same.1, rfl, same.2.2⟩

/-- What a session without promotion of parameters holds after a text. -/
def readUnpromoted (text : String) : Option Session :=
  ((unpromotedSession.beginFile (some "a.c") none).readSource text).toOption

/-- The order of the declarations shows where one of them starts the enumerator list of a
tag in another, and a typedef name after a type is no type. -/
theorem oldStyle_enumerators_out_of_order :
    (readUnpromoted
        "/* F. */ int f(a, b) enum t b; int (*a)(enum t \x7b A \x7d x); \x7b \x7d").map (·.pages) ≠
      (readUnpromoted
        "/* F. */ int f(int (*a)(enum t \x7b A \x7d x), enum t b) \x7b \x7d").map (·.pages) ∧
    (readUnpromoted "typedef int T; /* F. */ int f(int T *a) \x7b \x7d").map (·.errorCount) =
      some 1 := by
  refine ⟨?_, by decide +kernel⟩
  intro same
  have sameLists := congrArg (Option.map fun pages : List ManualPage =>
    pages.map fun page => page.declarator.parameters.map (·.spec.enumList)) same
  revert sameLists
  decide +kernel

end Grammar
end DeclManual
