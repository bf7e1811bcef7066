import DeclManual.Proofs.Source.Spelling

/-!
# Words and comments of tokens

The words of a source are made of letters, digits, underscores and dollar signs, and
no token of it carries an empty comment.  Both hold of every token that the lexer has
made, step after step.
-/

namespace DeclManual
namespace Source

/-- A text that is not empty and has only the characters of words. -/
def IsWordText (text : String) : Prop :=
  text ≠ "" ∧ ∀ c ∈ text.toList, isWordChar c = true

instance (text : String) : Decidable (IsWordText text) :=
  decidable_of_iff (text ≠ "" ∧ text.toList.all isWordChar = true) (by simp [IsWordText])

/-- A comment, if there is one, that is not empty. -/
def Filled (comment : Option String) : Prop :=
  ∀ text ∈ comment, text ≠ ""

theorem Filled.none : Filled none := nofun

theorem Filled.some {text : String} (filled : text ≠ "") : Filled (some text) := by
  rintro _ ⟨⟩
  exact filled

theorem Filled.or
    {first second : Option String}
    (left : Filled first)
    (right : Filled second) :
    Filled (first.or second) := by
  cases first with
  | none => exact right
  | some text => exact left

/-- A token whose text is that of a word if it is one, and whose comments are filled. -/
structure Token.Fit (token : Token) : Prop where
  word : token.isWord = true → IsWordText token.text
  before : Filled token.commentBefore
  after : Filled token.commentAfter

/-! ## Cleaned comments -/

theorem joinWith_ne_nil
    {separator line : List Char}
    {lines : List (List Char)}
    (member : line ∈ lines)
    (filled : line ≠ []) :
    Text.joinWith separator lines ≠ [] := by
  fun_induction Text.joinWith separator lines with
  | case1 => exact absurd member List.not_mem_nil
  | case2 only => rwa [← List.mem_singleton.1 member]
  | case3 first rest _ hypothesis =>
      rcases List.mem_cons.1 member with rfl | later
      · simp [filled]
      · simp [hypothesis later]

/-- What is left of the lines of a comment ends in a line that is not empty. -/
theorem exists_mem_dropOuterBlanks
    {lines : List (List Char)}
    (left : dropOuterBlanks lines ≠ []) :
    ∃ line ∈ dropOuterBlanks lines, line ≠ [] := by
  unfold dropOuterBlanks at left ⊢
  rw [ne_eq, List.reverse_eq_nil_iff] at left
  have filled := List.head_dropWhile_not List.isEmpty left
  refine ⟨_, List.mem_reverse.2 (List.head_mem left), ?_⟩
  intro empty
  rw [empty] at filled
  cases filled

theorem filled_cleanLines (lines : List (List Char)) : Filled (cleanLines lines) := by
  intro text kept
  unfold cleanLines at kept
  split at kept
  · cases kept
  · rename_i left
    obtain ⟨line, member, filled⟩ := exists_mem_dropOuterBlanks left
    obtain rfl := Option.some_inj.1 kept
    simpa using joinWith_ne_nil member filled

/-! ## Words -/

theorem isWordChar_of_startsWord {c : Char} (starts : startsWord c = true) :
    isWordChar c = true := by
  unfold startsWord isWordChar at *
  simp_all [Char.isAlphanum]
  tauto

/-- A lexeme of which the text is that of a word if it becomes one. -/
def Lexeme.Worded (lexeme : Lexeme) : Prop :=
  lexeme.kind = .token .identifier → IsWordText (String.ofList lexeme.text)

theorem lexemeAt_worded (blankLine : Bool) (c : Char) (rest : List Char) :
    (lexemeAt blankLine c rest).Worded := by
  have lexes := lexesAs_lexemeAt blankLine c rest
  generalize lexemeAt blankLine c rest = lexeme at lexes ⊢
  cases lexes with
  | word start starts taken =>
      obtain rfl := taken
      intro _
      refine ⟨by simp, fun d member => ?_⟩
      rw [String.toList_ofList] at member
      rcases List.mem_cons.1 member with rfl | later
      · exact isWordChar_of_startsWord starts
      · exact List.mem_takeWhile_imp later
  | literal => split_ifs <;> rintro ⟨⟩
  | _ => rintro ⟨⟩

namespace LexState

/-- The tokens so far are fit, and so is the comment that waits. -/
structure Fit (state : LexState) : Prop where
  tokens : ∀ token ∈ state.reversed, token.Fit
  pending : Filled state.pending

theorem Fit.push
    {state : LexState}
    (fit : state.Fit)
    {kind : Token.Kind}
    {text : List Char}
    (worded : kind = .identifier → IsWordText (String.ofList text))
    (line : Nat) :
    (state.push kind text line).Fit where
  tokens token member := by
    rcases List.mem_cons.1 member with rfl | earlier
    · exact ⟨fun word => worded (eq_of_beq word), fit.pending, .none⟩
    · exact fit.tokens token earlier
  pending := .none

theorem Fit.attach
    {state : LexState}
    (fit : state.Fit)
    (startLine : Nat)
    {comment : String}
    (filled : comment ≠ "") :
    (state.attach startLine comment).Fit := by
  have waiting : Filled (some comment) := .some filled
  unfold LexState.attach
  split
  · rename_i last before tokens
    have lastFit := fit.tokens last (tokens ▸ List.mem_cons_self)
    split
    · refine ⟨?_, fit.pending⟩
      intro token member
      rcases List.mem_cons.1 member with rfl | earlier
      · exact ⟨lastFit.word, lastFit.before, waiting⟩
      · exact fit.tokens token (tokens ▸ List.mem_cons_of_mem last earlier)
    · exact ⟨fit.tokens, waiting⟩
  · exact ⟨fit.tokens, waiting⟩

theorem Fit.addComment
    {state : LexState}
    (fit : state.Fit)
    (startLine : Nat)
    {comment : Option String}
    (filled : Filled comment) :
    (state.addComment startLine comment).Fit := by
  cases comment with
  | none => exact fit
  | some comment =>
      refine Fit.attach ?_ startLine (filled comment rfl)
      split
      · exact ⟨fit.tokens, fit.pending⟩
      · exact fit

theorem Fit.applyMarker
    {state : LexState}
    (fit : state.Fit)
    (body : List Char) :
    (state.applyMarker body).Fit := by
  unfold LexState.applyMarker
  dsimp only
  split
  · exact fit
  · split <;> exact ⟨fit.tokens, fit.pending⟩

theorem Fit.step
    {state next : LexState}
    (fit : state.Fit)
    {lexeme : Lexeme}
    (worded : lexeme.Worded)
    (stepped : state.step lexeme = .ok next) :
    next.Fit := by
  have moved : (state.advance lexeme.text).Fit := ⟨fit.tokens, fit.pending⟩
  obtain ⟨kind, text⟩ := lexeme
  cases kind with
  | token kind =>
      obtain rfl := Except.ok.inj stepped
      exact moved.push (fun word => worded (word ▸ rfl)) _
  | blanks =>
      obtain rfl := Except.ok.inj stepped
      exact moved
  | blockComment =>
      obtain rfl := Except.ok.inj stepped
      exact moved.addComment _ (filled_cleanLines _)
  | lineComments =>
      obtain rfl := Except.ok.inj stepped
      exact moved.addComment _ (filled_cleanLines _)
  | directive body =>
      obtain rfl := Except.ok.inj stepped
      have cleared : LexState.Fit { state.advance text with pending := none } :=
        ⟨fit.tokens, .none⟩
      exact cleared.applyMarker body
  | unterminatedComment => cases stepped
  | unterminatedLiteral => cases stepped

theorem Fit.foldlM
    {lexemes : List Lexeme}
    {state last : LexState}
    (fit : state.Fit)
    (worded : ∀ lexeme ∈ lexemes, lexeme.Worded)
    (folded : lexemes.foldlM LexState.step state = .ok last) :
    last.Fit := by
  induction lexemes generalizing state with
  | nil => exact Except.ok.inj folded ▸ fit
  | cons lexeme rest hypothesis =>
      rw [List.foldlM_cons] at folded
      cases stepped : state.step lexeme with
      | error error =>
          rw [stepped] at folded
          cases folded
      | ok next =>
          rw [stepped] at folded
          exact hypothesis (fit.step (worded lexeme List.mem_cons_self) stepped)
            (fun other member => worded other (List.mem_cons_of_mem lexeme member)) folded

end LexState

/-- The tokens of a source are fit. -/
theorem fit_of_tokenize
    {source : String}
    {baseFile : Option String}
    {lexed : Lexed}
    (read : tokenize source baseFile = .ok lexed) :
    ∀ token ∈ lexed.tokens, token.Fit := by
  unfold tokenize at read
  cases folded : (lexemes source.toList).foldlM LexState.step (LexState.start baseFile) with
  | error error =>
      rw [folded] at read
      cases read
  | ok state =>
      rw [folded] at read
      obtain rfl := Except.ok.inj read
      have worded : ∀ lexeme ∈ lexemes source.toList, lexeme.Worded := by
        intro lexeme member
        obtain ⟨blankLine, c, rest, rfl⟩ := mem_lexemesFrom member
        exact lexemeAt_worded blankLine c rest
      have start : (LexState.start baseFile).Fit := ⟨fun _ => nofun, .none⟩
      have ended := (start.foldlM worded folded).push
        (nofun : Token.Kind.endOfFile = .identifier → IsWordText (String.ofList [])) state.line
      intro token member
      exact ended.tokens token (List.mem_reverse.1 member)

end Source
end DeclManual
