import DeclManual.Proofs.Source.Renumbering
import Mathlib.Data.List.Forall2

/-!
# Line markers move lines and not comments

Two sources that differ in the numbers of their line markers have the same tokens with the
same comments, apart from the lines, as long as no number makes a comment look as if it
stood on the line on which a token ended.
-/

namespace DeclManual
namespace Source

/-! ## Similar lexemes -/

namespace Lexeme
namespace Similar

variable {lexeme other : Lexeme}

theorem symm (similar : lexeme.Similar other) : other.Similar lexeme := by
  cases similar with
  | refl => exact .refl _
  | marker isHead fits otherFits stops => exact .marker isHead otherFits fits stops

theorem isToken_eq (similar : lexeme.Similar other) : lexeme.isToken = other.isToken := by
  cases similar <;> rfl

/-- What passes between a token and its comment passes with any number. -/
theorem passes
    (similar : lexeme.Similar other)
    (passes : other.Passes) :
    lexeme.Passes := by
  cases similar with
  | refl => exact passes
  | marker isHead fits otherFits stops =>
      obtain ⟨number, isNumber, -⟩ := applyMarker_of_head {} isHead otherFits stops
      have noMarker := passes.noMarker
      simp only [isMarker, marker?, isNumber, Option.isSome_some] at noMarker
      cases noMarker

end Similar
end Lexeme

/-- Whether a comment would follow the last token does not depend on the numbers. -/
theorem Trails.similar
    {front other : List Lexeme}
    (similar : List.Forall₂ Lexeme.Similar other front)
    (trails : Trails front) :
    Trails other := by
  obtain ⟨earlier, token, later, rfl, isToken, passes⟩ := trails
  obtain ⟨first, rest, sameToken, sameLater, isDrop⟩ :=
    List.forall₂_cons_right_iff.1 (List.forall₂_drop_append _ _ _ similar)
  refine ⟨other.take earlier.length, first, rest, ?_, ?_, ?_⟩
  · rw [← isDrop, List.take_append_drop]
  · rw [sameToken.isToken_eq, isToken]
  · clear isDrop similar
    induction sameLater with
    | nil => exact List.forall_mem_nil _
    | cons first _ hypothesis =>
        rw [List.forall_mem_cons] at passes ⊢
        exact ⟨first.passes passes.1, hypothesis passes.2⟩

theorem trails_iff_of_similar
    {front other : List Lexeme}
    (similar : List.Forall₂ Lexeme.Similar front other) :
    Trails front ↔ Trails other := by
  refine ⟨Trails.similar ?_, Trails.similar similar⟩
  exact similar.flip.imp fun _ _ related => related.symm

/-! ## States that differ in lines -/

/-- A token apart from its line. -/
def Token.unlined (token : Token) : Token :=
  { token with line := 0 }

namespace LexState

/-- Two states that differ in the lines only. -/
structure SameButLines (state other : LexState) : Prop where
  baseFile : state.baseFile = other.baseFile
  file : state.file = other.file
  inBaseFile : state.inBaseFile = other.inBaseFile
  pending : state.pending = other.pending
  firstComment : state.firstComment = other.firstComment
  tokens : state.tokens.map Token.unlined = other.tokens.map Token.unlined

namespace SameButLines

variable {state other : LexState}

theorem refl (state : LexState) : state.SameButLines state :=
  ⟨rfl, rfl, rfl, rfl, rfl, rfl⟩

theorem push
    (same : state.SameButLines other)
    (kind : Token.Kind)
    (text : List Char)
    (line otherLine : Nat) :
    (state.push kind text line).SameButLines (other.push kind text otherLine) where
  baseFile := same.baseFile
  file := same.file
  inBaseFile := same.inBaseFile
  pending := rfl
  firstComment := same.firstComment
  tokens := by
    rw [tokens_push, tokens_push, List.map_append, List.map_append, same.tokens, same.file,
      same.inBaseFile, same.pending]
    rfl

theorem enterFile
    (same : state.SameButLines other)
    (name : String) :
    (state.enterFile name).SameButLines (other.enterFile name) where
  baseFile := by simp [LexState.enterFile, same.baseFile]
  file := rfl
  inBaseFile := by simp [LexState.enterFile, same.baseFile]
  pending := same.pending
  firstComment := same.firstComment
  tokens := same.tokens

/-- A line marker does the same with any number. -/
theorem marker
    (same : state.SameButLines other)
    {head digits others tail : List Char}
    (isHead : MarkerHead head)
    (fits : (Text.word64? digits).isSome = true)
    (otherFits : (Text.word64? others).isSome = true)
    (stops : ∀ c ∈ tail.head?, c.isDigit = false) :
    (state.applyMarker (head ++ digits ++ tail)).SameButLines
      (other.applyMarker (head ++ others ++ tail)) := by
  obtain ⟨number, -, applied⟩ := applyMarker_of_head state isHead fits stops
  obtain ⟨otherNumber, -, otherApplied⟩ := applyMarker_of_head other isHead otherFits stops
  rw [applied, otherApplied]
  cases markerFile? tail with
  | none => exact { same with }
  | some name => exact { same.enterFile name with }

theorem applyMarker
    (same : state.SameButLines other)
    (body : List Char) :
    (state.applyMarker body).SameButLines (other.applyMarker body) := by
  unfold LexState.applyMarker
  dsimp only
  split
  · exact same
  · split
    · exact { same.enterFile _ with }
    · exact { same with }

/-- A comment is given to the same token if it follows the last token in both, or in
neither. -/
theorem attach
    (same : state.SameButLines other)
    {front others : List Lexeme}
    (stands : Stands front state)
    (otherStands : Stands others other)
    (unmistaken : Unmistaken front)
    (otherUnmistaken : Unmistaken others)
    (similar : List.Forall₂ Lexeme.Similar front others)
    (text : List Char)
    (comment : String) :
    ((state.advance text).attach state.line comment).SameButLines
      ((other.advance text).attach other.line comment) := by
  have attaches := stands.attaches_iff unmistaken
  have otherAttaches := otherStands.attaches_iff otherUnmistaken
  rw [← trails_iff_of_similar similar] at otherAttaches
  rcases attach_cases (state.advance text) state.line comment with
    ⟨older, newest, isTokens, sameLine, alone, attached⟩ | ⟨apart, attached⟩ <;>
  rcases attach_cases (other.advance text) other.line comment with
    ⟨olderOther, newestOther, otherTokens, otherLine, otherAlone, otherAttached⟩ |
      ⟨otherApart, otherAttached⟩
  · rw [attached, otherAttached]
    rw [tokens_advance] at isTokens otherTokens
    have tokens := same.tokens
    rw [isTokens, otherTokens, List.map_append, List.map_append] at tokens
    obtain ⟨sameOlder, sameNewest⟩ := List.append_inj' tokens rfl
    refine { same with tokens := ?_ }
    simp only [LexState.tokens, List.reverse_cons, List.reverse_reverse, List.map_append, sameOlder,
      List.map_singleton, List.append_cancel_left_eq, List.cons.injEq, and_true]
    have newestSame : newest.unlined = newestOther.unlined := by simpa using sameNewest
    change { newest.unlined with commentAfter := some comment } =
      { newestOther.unlined with commentAfter := some comment }
    rw [newestSame]
  · obtain ⟨olderOther, newestOther, otherTokens, otherLine, otherAlone⟩ :=
      otherAttaches.2 (attaches.1 ⟨older, newest, isTokens, sameLine, alone⟩)
    exact absurd otherAlone (otherApart olderOther newestOther otherTokens otherLine)
  · obtain ⟨older, newest, isTokens, sameLine, alone⟩ :=
      attaches.2 (otherAttaches.1 ⟨olderOther, newestOther, otherTokens, otherLine, otherAlone⟩)
    exact absurd alone (apart older newest isTokens sameLine)
  · rw [attached, otherAttached]
    exact { same with pending := rfl }

theorem addComment
    (same : state.SameButLines other)
    {front others : List Lexeme}
    (stands : Stands front state)
    (otherStands : Stands others other)
    (unmistaken : Unmistaken front)
    (otherUnmistaken : Unmistaken others)
    (similar : List.Forall₂ Lexeme.Similar front others)
    (text : List Char)
    (comment : String) :
    ((state.advance text).addComment state.line (some comment)).SameButLines
      ((other.advance text).addComment other.line (some comment)) := by
  have attached := same.attach stands otherStands unmistaken otherUnmistaken similar text comment
  rw [addComment_eq, addComment_eq]
  refine { attached with firstComment := ?_ }
  change (if state.inBaseFile && state.firstComment.isNone then some comment
    else state.firstComment) = if other.inBaseFile && other.firstComment.isNone then some comment
    else other.firstComment
  rw [same.inBaseFile, same.firstComment]

end SameButLines

/-- Two runs that both fail, or both end in states that differ in the lines only. -/
def Agree (run other : Except SourceError LexState) : Prop :=
  match run, other with
  | .ok state, .ok otherState => state.SameButLines otherState
  | .error _, .error _ => True
  | _, _ => False

/-- Steps over similar lexemes agree. -/
theorem step_agree
    {state other : LexState}
    {front others : List Lexeme}
    {lexeme otherLexeme : Lexeme}
    (same : state.SameButLines other)
    (stands : Stands front state)
    (otherStands : Stands others other)
    (unmistaken : lexeme.comment? ≠ none -> Unmistaken front)
    (otherUnmistaken : otherLexeme.comment? ≠ none -> Unmistaken others)
    (fronts : List.Forall₂ Lexeme.Similar front others)
    (similar : lexeme.Similar otherLexeme) :
    Agree (state.step lexeme) (other.step otherLexeme) := by
  cases similar with
  | marker isHead fits otherFits stops =>
      refine SameButLines.marker ?_ isHead fits otherFits stops
      exact { same with pending := rfl }
  | refl =>
      have noted (comment : Option String) (isComment : lexeme.comment? = comment) :
          ((state.advance lexeme.text).addComment state.line comment).SameButLines
            ((other.advance lexeme.text).addComment other.line comment) := by
        cases comment with
        | none => exact { same with }
        | some comment =>
            exact same.addComment stands otherStands (unmistaken (by simp [isComment]))
              (otherUnmistaken (by simp [isComment])) fronts lexeme.text comment
      obtain ⟨kind, text⟩ := lexeme
      cases kind with
      | blanks => exact { same with }
      | blockComment => exact noted _ rfl
      | lineComments => exact noted _ rfl
      | directive body =>
          refine SameButLines.applyMarker ?_ body
          exact { same with pending := rfl }
      | token kind =>
          have moved : (state.advance text).SameButLines (other.advance text) := { same with }
          exact moved.push kind text state.line other.line
      | unterminatedComment => trivial
      | unterminatedLiteral => trivial

end LexState

/-- No number makes a comment of a source look as if it stood on the line on which a token
ended. -/
def Unmisled (lexemes : List Lexeme) : Prop :=
  ∀ front lexeme back, lexemes = front ++ lexeme :: back -> lexeme.comment? ≠ none ->
    Unmistaken front

/-- Runs over similar lexemes agree. -/
theorem foldlM_agree
    {lexemes otherLexemes : List Lexeme}
    (unmisled : Unmisled lexemes)
    (otherUnmisled : Unmisled otherLexemes)
    {back otherBack : List Lexeme}
    (similar : List.Forall₂ Lexeme.Similar back otherBack) :
    ∀ {front others : List Lexeme} {state other : LexState}, lexemes = front ++ back ->
      otherLexemes = others ++ otherBack -> List.Forall₂ Lexeme.Similar front others ->
      Stands front state -> Stands others other -> state.SameButLines other ->
      LexState.Agree (back.foldlM LexState.step state) (otherBack.foldlM LexState.step other) := by
  induction similar with
  | nil =>
      intro front others state other _ _ _ _ _ same
      exact same
  | @cons lexeme otherLexeme back otherBack first _ hypothesis =>
      intro front others state other whole otherWhole fronts stands otherStands same
      have unmistaken := unmisled front lexeme back whole
      have otherUnmistaken := otherUnmisled others otherLexeme otherBack otherWhole
      have agree :=
        LexState.step_agree same stands otherStands unmistaken otherUnmistaken fronts first
      rw [List.foldlM_cons, List.foldlM_cons]
      cases stepped : state.step lexeme <;> cases otherStepped : other.step otherLexeme <;>
        rw [stepped, otherStepped] at agree
      · trivial
      · exact agree.elim
      · exact agree.elim
      · refine hypothesis (by simp [whole]) (by simp [otherWhole]) ?_
          (stands.step unmistaken stepped) (otherStands.step otherUnmistaken otherStepped) agree
        exact List.rel_append fronts (.cons first .nil)

/-- Line markers move line numbers and not comments: a source with other numbers in its
line markers can be read if and only if the source can, and then has the same tokens with
the same comments, apart from their lines, and the same first comment.  In neither source
may a number make a comment look as if it stood on the line on which a token ended. -/
theorem tokenize_renumbered
    {source other : String}
    {texts : List (List Char)}
    (renumbers : List.Forall₂ Lexeme.Renumbers (lexemes source.toList) texts)
    (isOther : other.toList = texts.flatten)
    (unmisled : Unmisled (lexemes source.toList))
    (otherUnmisled : Unmisled (lexemes other.toList))
    (baseFile : Option String) :
    (∃ lexed otherLexed, tokenize source baseFile = .ok lexed ∧
        tokenize other baseFile = .ok otherLexed ∧
        lexed.tokens.map Token.unlined = otherLexed.tokens.map Token.unlined ∧
        lexed.firstComment = otherLexed.firstComment) ∨
      (∃ error otherError, tokenize source baseFile = .error error ∧
        tokenize other baseFile = .error otherError) := by
  have similar := lexemes_similar renumbers
  rw [← isOther] at similar
  have agree := foldlM_agree unmisled otherUnmisled similar rfl rfl .nil (stands_start baseFile)
    (stands_start baseFile) (.refl _)
  unfold tokenize
  cases read : (lexemes source.toList).foldlM LexState.step (LexState.start baseFile) <;>
    cases otherRead : (lexemes other.toList).foldlM LexState.step (LexState.start baseFile) <;>
    rw [read, otherRead] at agree
  · exact .inr ⟨_, _, rfl, rfl⟩
  · exact agree.elim
  · exact agree.elim
  · rename_i state otherState
    refine .inl ⟨_, _, rfl, rfl, ?_, agree.firstComment⟩
    exact (agree.push .endOfFile [] state.line otherState.line).tokens

/-- Numbers mislead nowhere if no two lines with a marker or a newline between them have one
number. -/
theorem unmisled_of_apart
    {lexemes : List Lexeme}
    (apart : ∀ last < lexemes.length, ∀ first < last,
      ((lexemes.take last).drop (first + 1)).any
        (fun lexeme => lexeme.isMarker || lexeme.text.contains '\n') = true →
      lineAfter (lexemes.take last) ≠ lineAfter (lexemes.take (first + 1))) :
    Unmisled lexemes := by
  rintro front comment back rfl - earlier token between rfl - - breaks -
  have differ := apart (earlier ++ token :: between).length (by simp) earlier.length (by simp)
  have isFront : (earlier ++ token :: between ++ comment :: back).take
      (earlier ++ token :: between).length = earlier ++ token :: between := List.take_left
  have isToken : (earlier ++ token :: between ++ comment :: back).take (earlier.length + 1) =
      earlier ++ [token] := by
    simp [List.take_append, List.take_of_length_le]
  have isBetween : (earlier ++ token :: between).drop (earlier.length + 1) = between := by
    simp [List.drop_append]
  rw [isFront, isToken, isBetween] at differ
  refine differ (List.any_eq_true.2 ?_)
  simpa using breaks

/-- A source in which one lexeme has another text. -/
theorem forall₂_renumbers_one
    {lexeme : Lexeme}
    {text : List Char}
    (renumbers : lexeme.Renumbers text)
    (front back : List Lexeme) :
    List.Forall₂ Lexeme.Renumbers (front ++ lexeme :: back)
      (front.map (·.text) ++ text :: back.map (·.text)) := by
  have same (lexemes : List Lexeme) :
      List.Forall₂ Lexeme.Renumbers lexemes (lexemes.map (·.text)) :=
    List.forall₂_map_right_iff.2 (List.forall₂_same.2 fun _ _ => .same)
  exact List.rel_append (same front) (.cons renumbers (same back))

/-- A source with a comment on the line after a line marker. -/
def markedSource (number : List Char) : String :=
  String.ofList (['x', '\n', '#', ' '] ++ number ++
    [' ', '"', 'h', '"', '\n', '/', '*', 'c', '*', '/', '\n', 'y'])

/-- The lexemes of that source. -/
def markedLexemes (number : List Char) : List Lexeme :=
  [⟨.token .identifier, ['x']⟩, ⟨.blanks, ['\n']⟩] ++
    ⟨.directive (['#', ' '] ++ number ++ [' ', '"', 'h', '"']),
      ['#', ' '] ++ number ++ [' ', '"', 'h', '"']⟩ ::
    [⟨.blanks, ['\n']⟩, ⟨.blockComment, ['/', '*', 'c', '*', '/']⟩, ⟨.blanks, ['\n']⟩,
      ⟨.token .identifier, ['y']⟩]

theorem forall₂_renumbers_marked
    {number other : List Char}
    (isNumber : NumberText number number)
    (fits : (Text.word64? number).isSome = true)
    (isOther : NumberText other other)
    (otherFits : (Text.word64? other).isSome = true) :
    ∃ texts, List.Forall₂ Lexeme.Renumbers (markedLexemes number) texts ∧
      (markedSource other).toList = texts.flatten := by
  have isHead : MarkerHead ['#', ' '] :=
    ⟨[], [' '], [], [], rfl, by simp, by simp [Text.isBlank], .inl rfl, by simp⟩
  refine ⟨_, forall₂_renumbers_one (.marker rfl rfl isHead isNumber fits ?_ isOther otherFits) _ _,
    ?_⟩
  · intro c starts
    cases starts
    rfl
  · simp [markedSource]

theorem tokenize_renumbered_marked :
    ∃ lexed other, tokenize (markedSource ['5']) (some "h") = .ok lexed ∧
      tokenize (markedSource ['7', '0']) (some "h") = .ok other ∧
      lexed.tokens.map (·.commentBefore) = [none, some "c", none] ∧
      lexed.tokens.map Token.unlined = other.tokens.map Token.unlined ∧
      lexed.firstComment = other.firstComment := by
  have isLexemes : lexemes (markedSource ['5']).toList = markedLexemes ['5'] := by decide +kernel
  have read : (tokenize (markedSource ['5']) (some "h")).map
      (·.tokens.map (·.commentBefore)) = .ok [none, some "c", none] := by decide +kernel
  obtain ⟨texts, renumbers, isOther⟩ := forall₂_renumbers_marked
    (.last (by decide) : NumberText ['5'] ['5']) (by decide)
    (.digit (by decide) (.last (by decide)) : NumberText ['7', '0'] ['7', '0']) (by decide)
  rw [← isLexemes] at renumbers
  rcases tokenize_renumbered renumbers isOther (unmisled_of_apart (by decide +kernel))
      (unmisled_of_apart (by decide +kernel)) (some "h") with
    ⟨lexed, other, isLexed, isOtherLexed, sameTokens, sameFirst⟩ | ⟨error, otherError, isError, -⟩
  · rw [isLexed] at read
    exact ⟨lexed, other, isLexed, isOtherLexed, Except.ok.inj read, sameTokens, sameFirst⟩
  · rw [isError] at read
    cases read

/-- A number may still mislead: with the number 1, the comment on the line after the marker
is given to the token on the line before it. -/
theorem tokenize_renumbered_misled :
    (∃ texts, List.Forall₂ Lexeme.Renumbers (lexemes (markedSource ['1']).toList) texts ∧
        (markedSource ['5']).toList = texts.flatten) ∧
      (tokenize (markedSource ['1']) (some "h")).map (·.tokens.map Token.unlined) ≠
        (tokenize (markedSource ['5']) (some "h")).map (·.tokens.map Token.unlined) := by
  have isLexemes : lexemes (markedSource ['1']).toList = markedLexemes ['1'] := by decide +kernel
  refine ⟨?_, by decide +kernel⟩
  rw [isLexemes]
  exact forall₂_renumbers_marked (.last (by decide)) (by decide) (.last (by decide)) (by decide)

/-- Lines start again at 0 after the last number of a word, so that a marker with that number
can mislead as well. -/
example :
    (tokenize "x\n# 18446744073709551615\n\n\n/*c*/\ny" none).map
        (·.tokens.map fun token => (token.text, token.line, token.commentAfter)) =
      .ok [("x", 1, some "c"), ("y", 2, none), ("", 2, none)] := by
  decide +kernel

end Source
end DeclManual
