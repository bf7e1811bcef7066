import DeclManual.Proofs.Source.Attachment

/-!
# The comments that tokens carry

A comment that follows no token waits for the next one, until another comment or a
directive comes.  Without line markers this and `FollowedBy` say for every token, the end
of the source included, which comments it carries.
-/

namespace DeclManual
namespace Source

/-- What may stand between a comment and the token that it precedes: no token, no other
comment of which anything is left, and no directive. -/
structure Lexeme.Waits (lexeme : Lexeme) : Prop where
  noToken : lexeme.isToken = false
  noComment : lexeme.comment? = none
  noDirective : lexeme.isDirective = false

/-- A comment among some lexemes precedes the token after them. -/
def PrecededBy (front : List Lexeme) (comment : String) : Prop :=
  ∃ earlier lexeme between, front = earlier ++ lexeme :: between ∧
    (lexeme.comment? = some comment ∧ ¬ Trails earlier) ∧ ∀ other ∈ between, other.Waits

theorem precededBy_concat
    (front : List Lexeme)
    (lexeme : Lexeme)
    (comment : String) :
    PrecededBy (front ++ [lexeme]) comment ↔
      (lexeme.comment? = some comment ∧ ¬ Trails front) ∨
        lexeme.Waits ∧ PrecededBy front comment := by
  unfold PrecededBy
  exact @exists_last_concat Lexeme
    (fun earlier lexeme => lexeme.comment? = some comment ∧ ¬ Trails earlier)
    Lexeme.Waits front lexeme

/-- Where a comment would follow the last token, none waits. -/
theorem not_precededBy_of_trails
    {front : List Lexeme}
    (trails : Trails front)
    (comment : String) :
    ¬ PrecededBy front comment := by
  induction front using List.reverseRecOn with
  | nil => rintro ⟨earlier, lexeme, between, whole, -⟩; simp at whole
  | append_singleton front last hypothesis =>
      rw [precededBy_concat]
      rcases (trails_concat front last).1 trails with isToken | ⟨passes, earlier⟩
      · rintro (⟨isComment, -⟩ | ⟨waits, -⟩)
        · rw [Lexeme.isToken_of_comment? isComment] at isToken
          cases isToken
        · rw [waits.noToken] at isToken
          cases isToken
      · rintro (⟨isComment, -⟩ | ⟨-, precedes⟩)
        · rw [passes.noComment] at isComment
          cases isComment
        · exact hypothesis earlier precedes

/-- What a token is and what precedes it. -/
def Token.heading (token : Token) : (Token.Kind × String) × Option String :=
  (token.shape, token.commentBefore)

/-- A state after some lexemes without line markers knows which comments each token
carries, and which one waits. -/
structure Owned (front : List Lexeme) (state : LexState) : Prop extends Stands front state where
  inBaseFile : state.inBaseFile = true
  first : state.firstComment = front.findSome? Lexeme.comment?
  pending : ∀ comment, state.pending = some comment ↔ PrecededBy front comment
  precedes : ∀ {earlier lexeme later}, front = earlier ++ lexeme :: later ->
    lexeme.isToken = true ->
    ∃ shape before, (state.tokens.map Token.heading)[earlier.countP Lexeme.isToken]? =
        some (shape, before) ∧
      lexeme.shape? = some shape ∧ ∀ comment, before = some comment ↔ PrecededBy earlier comment

theorem owned_start (baseFile : Option String) : Owned [] (LexState.start baseFile) where
  toStands := stands_start baseFile
  inBaseFile := rfl
  first := rfl
  pending := by simp [LexState.start, PrecededBy]
  precedes := by simp

namespace Owned

variable {front : List Lexeme}
variable {state next : LexState}
variable {lexeme : Lexeme}

/-- A lexeme that becomes no token leaves what the tokens are and what precedes them. -/
private theorem precedes_concat
    (owned : Owned front state)
    (noToken : lexeme.isToken = false)
    (headings : next.tokens.map Token.heading = state.tokens.map Token.heading)
    {earlier later : List Lexeme}
    {other : Lexeme}
    (whole : front ++ [lexeme] = earlier ++ other :: later)
    (isToken : other.isToken = true) :
    ∃ shape before, (next.tokens.map Token.heading)[earlier.countP Lexeme.isToken]? =
        some (shape, before) ∧
      other.shape? = some shape ∧
      ∀ comment, before = some comment ↔ PrecededBy earlier comment := by
  rcases cut_of_concat whole with ⟨-, rfl, -⟩ | ⟨between, rfl, isFront⟩
  · rw [noToken] at isToken
    cases isToken
  · rw [headings]
    exact owned.precedes isFront isToken

/-- A token takes the comment that waits. -/
theorem token
    (owned : Owned front state)
    {kind : Token.Kind}
    (isKind : lexeme.kind = .token kind)
    (stands : Stands (front ++ [lexeme])
      ((state.advance lexeme.text).push kind lexeme.text state.line)) :
    Owned (front ++ [lexeme])
      ((state.advance lexeme.text).push kind lexeme.text state.line) where
  toStands := stands
  inBaseFile := owned.inBaseFile
  first := by
    have noComment : lexeme.comment? = none := by simp [Lexeme.comment?, isKind]
    simp [List.findSome?_append, noComment, ← owned.first, LexState.push, LexState.advance]
  pending := by
    intro comment
    rw [precededBy_concat]
    refine ⟨by simp [LexState.push], ?_⟩
    rintro (⟨isComment, -⟩ | ⟨waits, -⟩)
    · simp [Lexeme.comment?, isKind] at isComment
    · have noToken := waits.noToken
      simp [Lexeme.isToken, Lexeme.shape?, isKind] at noToken
  precedes := by
    intro earlier other later whole isToken
    rw [LexState.tokens_push, LexState.tokens_advance, List.map_append]
    rcases cut_of_concat whole with ⟨rfl, rfl, -⟩ | ⟨between, rfl, isFront⟩
    · refine ⟨(kind, String.ofList other.text), state.pending, ?_, ?_, owned.pending⟩
      · rw [← owned.count, ← List.length_map Token.heading, List.map_singleton,
          List.getElem?_concat_length]
        rfl
      · simp [Lexeme.shape?, isKind]
    · obtain ⟨shape, before, found, rest⟩ := owned.precedes isFront isToken
      refine ⟨shape, before, ?_, rest⟩
      rwa [List.getElem?_append_left (List.getElem?_eq_some_iff.1 found).1]

/-- A lexeme that is neither a token nor a comment keeps the comment that waits, unless it
is a directive. -/
theorem quiet
    (owned : Owned front state)
    (noToken : lexeme.isToken = false)
    (noComment : lexeme.comment? = none)
    (stands : Stands (front ++ [lexeme]) next)
    (inBaseFile : next.inBaseFile = state.inBaseFile)
    (first : next.firstComment = state.firstComment)
    (pending : next.pending = if lexeme.isDirective then none else state.pending)
    (tokens : next.tokens = state.tokens) :
    Owned (front ++ [lexeme]) next where
  toStands := stands
  inBaseFile := inBaseFile.trans owned.inBaseFile
  first := by rw [first, owned.first, List.findSome?_append]; simp [noComment]
  pending := by
    intro comment
    rw [precededBy_concat, noComment, pending]
    cases directive : lexeme.isDirective with
    | true =>
        refine ⟨by simp, ?_⟩
        rintro (⟨isComment, -⟩ | ⟨waits, -⟩)
        · cases isComment
        · rw [waits.noDirective] at directive
          cases directive
    | false =>
        simp only [Bool.false_eq_true, if_false, reduceCtorEq, false_and, false_or]
        rw [owned.pending, iff_and_self]
        exact fun _ => ⟨noToken, noComment, directive⟩
  precedes := owned.precedes_concat noToken (by rw [tokens])

/-- A comment is given to the last token if it follows that one, and waits otherwise. -/
theorem comment
    (owned : Owned front state)
    (unmistaken : Unmistaken front)
    {comment : String}
    (isComment : lexeme.comment? = some comment)
    (stands : Stands (front ++ [lexeme])
      ((state.advance lexeme.text).addComment state.line (some comment))) :
    Owned (front ++ [lexeme])
      ((state.advance lexeme.text).addComment state.line (some comment)) := by
  have noToken := Lexeme.isToken_of_comment? isComment
  have attaches := owned.attaches_iff unmistaken
  have first : (if state.inBaseFile && state.firstComment.isNone then some comment
      else state.firstComment) = (front ++ [lexeme]).findSome? Lexeme.comment? := by
    rw [List.findSome?_append, ← owned.first, owned.inBaseFile]
    cases state.firstComment <;> simp [isComment]
  have notWaits : ¬ lexeme.Waits := by
    intro waits
    rw [waits.noComment] at isComment
    cases isComment
  rw [LexState.addComment_eq] at stands ⊢
  rcases LexState.attach_cases (state.advance lexeme.text) state.line comment with
    ⟨older, newest, isTokens, sameLine, noComment, attached⟩ | ⟨apart, attached⟩
  · have trails : Trails front := attaches.1 ⟨older, newest, isTokens, sameLine, noComment⟩
    rw [attached] at stands ⊢
    refine ⟨stands, owned.inBaseFile, first, fun other => ?_, owned.precedes_concat noToken ?_⟩
    · rw [precededBy_concat]
      refine (owned.pending other).trans ?_
      simp [not_precededBy_of_trails trails other, trails]
    · rw [LexState.tokens_advance] at isTokens
      rw [isTokens]
      simp [LexState.tokens, Token.heading, Token.shape]
  · have apart : ¬ Trails front := by
      rw [← attaches]
      rintro ⟨older, newest, isTokens, sameLine, noComment⟩
      exact apart older newest isTokens sameLine noComment
    rw [attached] at stands ⊢
    refine ⟨stands, owned.inBaseFile, first, fun other => ?_, owned.precedes_concat noToken rfl⟩
    rw [precededBy_concat]
    simp [isComment, apart, notWaits]

/-- A step without a line marker keeps which comments the tokens carry. -/
theorem step
    (owned : Owned front state)
    (unmarked : ∀ other ∈ front ++ [lexeme], other.isMarker = false)
    (stepped : state.step lexeme = .ok next) :
    Owned (front ++ [lexeme]) next := by
  have unmistaken : Unmistaken front :=
    unmistaken_of_not_isMarker fun other member => unmarked other (by simp [member])
  have stands := owned.toStands.step (fun _ => unmistaken) stepped
  rcases LexState.step_cases stepped with ⟨kind, isKind, rfl⟩ | ⟨comment, isComment, rfl⟩ |
    ⟨body, isBody, rfl⟩ | ⟨noToken, noComment, noDirective, rfl⟩
  · exact owned.token isKind stands
  · exact owned.comment unmistaken isComment stands
  · have noMarker : markerNumber? body = none := by
      have unmarked := unmarked lexeme (by simp)
      simpa [Lexeme.isMarker, Lexeme.marker?, isBody] using unmarked
    rw [LexState.applyMarker_of_none _ noMarker] at stands ⊢
    refine owned.quiet ?_ ?_ stands rfl rfl ?_ rfl
    · simp [Lexeme.isToken, Lexeme.shape?, isBody]
    · simp [Lexeme.comment?, isBody]
    · simp [Lexeme.isDirective, isBody]
  · exact owned.quiet noToken noComment stands rfl rfl (by rw [noDirective]; rfl) rfl

end Owned

/-- Every token of a source without line markers carries exactly the comment that precedes
it and the comment that follows it: the first on the line on which it ends is the one that
follows, and of the others the last before a token precedes it, unless a directive comes
between.  The end of the source is the last token, and the first comment of the source is
the first of all. -/
theorem tokenize_comments
    {source : String}
    {baseFile : Option String}
    {lexed : Lexed}
    (read : tokenize source baseFile = .ok lexed)
    (unmarked : ∀ lexeme ∈ lexemes source.toList, lexeme.isMarker = false) :
    (lexemes source.toList).flatMap (·.text) = source.toList ∧
      lexed.tokens.length = (lexemes source.toList).countP Lexeme.isToken + 1 ∧
      lexed.firstComment = (lexemes source.toList).findSome? Lexeme.comment? ∧
      ∀ earlier later, lexemes source.toList = earlier ++ later ->
        (∀ lexeme ∈ later.head?, lexeme.isToken = true) ->
        ∃ token, lexed.tokens[earlier.countP Lexeme.isToken]? = some token ∧
          token.shape = (later.head?.bind Lexeme.shape?).getD (.endOfFile, "") ∧
          (∀ comment, token.commentBefore = some comment ↔ PrecededBy earlier comment) ∧
          ∀ comment, token.commentAfter = some comment ↔ FollowedBy later.tail comment := by
  unfold tokenize at read
  cases folded : (lexemes source.toList).foldlM LexState.step (LexState.start baseFile) with
  | error error =>
      rw [folded] at read
      cases read
  | ok state =>
      rw [folded] at read
      cases read
      have owned : Owned (lexemes source.toList) state := by
        refine LexState.foldlM_induction (owned_start baseFile) ?_ folded
        intro front lexeme back state next whole owned stepped
        refine owned.step (fun other member => unmarked other ?_) stepped
        rw [whole, List.append_cons]
        exact List.mem_append_left back member
      have tokens : state.finish.tokens = state.tokens ++
          [{ kind := .endOfFile, text := "", line := state.line, file := state.file,
             inBaseFile := state.inBaseFile, commentBefore := state.pending }] :=
        LexState.tokens_push state .endOfFile [] state.line
      refine ⟨lexemes_texts _, ?_, owned.first, fun earlier later whole isToken => ?_⟩
      · rw [tokens, List.length_append, owned.count, List.length_singleton]
      cases later with
      | nil =>
          rw [List.append_nil] at whole
          rw [tokens, ← whole, ← owned.count]
          refine ⟨_, List.getElem?_concat_length, rfl, owned.pending, fun comment => ?_⟩
          refine ⟨by simp, fun follows => ?_⟩
          exact absurd follows (not_followedBy_of_passes (by simp) comment)
      | cons lexeme later =>
          have isToken : lexeme.isToken = true := isToken lexeme rfl
          obtain ⟨token, found, follows⟩ := owned.follows whole isToken
          obtain ⟨shape, before, heading, isShape, precedes⟩ := owned.precedes whole isToken
          rw [List.getElem?_map, found] at heading
          cases heading
          refine ⟨token, ?_, by simp [isShape], precedes, follows⟩
          rw [tokens, List.getElem?_append_left (List.getElem?_eq_some_iff.1 found).1, found]

/-- A source with comments before and after tokens, one that a directive takes, and one
before the end. -/
def commentedSource : String :=
  "/*a*/ x /*b*/ /*c*/ y;// d\n//e\n#define N\n//f\n//g\n"

theorem tokenize_comments_commentedSource :
    ∃ lexed, tokenize commentedSource none = .ok lexed ∧
      lexed.tokens.map (fun token => (token.commentBefore, token.commentAfter)) =
        [(some "a", some "b"), (some "c", none), (none, some "d"), (some "f\ng", none)] ∧
      lexed.firstComment = (lexemes commentedSource.toList).findSome? Lexeme.comment? ∧
      ∃ token, lexed.tokens[(lexemes commentedSource.toList).countP Lexeme.isToken]? = some token ∧
        ∀ comment, token.commentBefore = some comment ↔
          PrecededBy (lexemes commentedSource.toList) comment := by
  have answer : (tokenize commentedSource none).map
      (·.tokens.map fun token => (token.commentBefore, token.commentAfter)) =
        .ok [(some "a", some "b"), (some "c", none), (none, some "d"), (some "f\ng", none)] := by
    decide +kernel
  cases read : tokenize commentedSource none with
  | error error =>
      rw [read] at answer
      cases answer
  | ok lexed =>
      rw [read] at answer
      obtain ⟨-, -, first, carries⟩ := tokenize_comments read (by decide +kernel)
      obtain ⟨token, found, -, precedes, -⟩ := carries _ [] (List.append_nil _).symm (by simp)
      exact ⟨lexed, rfl, Except.ok.inj answer, first, token, found, precedes⟩

end Source
end DeclManual
