import DeclManual.Proofs.Lists
import DeclManual.Proofs.Source.Spelling

/-!
# Which comment follows a token

A comment follows a token if it stands on the line on which the token ends and is the
first to do so.  The lexer decides this by line numbers, which line markers may move.
Here the numbers are computed from the lexemes, and it is shown that they decide
rightly wherever no marker gives two lines the same number by chance.
-/

namespace DeclManual
namespace Source

/-! ## Lexemes -/

/-- The number of the line marker that the text of a directive is. -/
def markerNumber? (body : List Char) : Option Nat :=
  let words := Text.trimStart (body.dropWhile (· == '#'))
  let words := Text.trimStart (dropLead "line".toList words)
  Text.word64? (words.takeWhile Char.isDigit)

namespace Lexeme

/-- Whether a lexeme becomes a token. -/
def isToken (lexeme : Lexeme) : Bool :=
  lexeme.shape?.isSome

/-- Whether a lexeme is a directive. -/
def isDirective (lexeme : Lexeme) : Bool :=
  match lexeme.kind with
  | .directive _ => true
  | _ => false

/-- The number of the line marker that a lexeme is. -/
def marker? (lexeme : Lexeme) : Option Nat :=
  match lexeme.kind with
  | .directive body => markerNumber? body
  | _ => none

/-- Whether a lexeme is a line marker. -/
def isMarker (lexeme : Lexeme) : Bool :=
  lexeme.marker?.isSome

/-- What is left of the comment that a lexeme is. -/
def comment? (lexeme : Lexeme) : Option String :=
  match lexeme.kind with
  | .blockComment => cleanBlock lexeme.text
  | .lineComments => cleanLines (Text.splitOn '\n' lexeme.text)
  | _ => none

/-- The number of the line after a lexeme on a line, which a marker may have numbered. -/
def lineAfter (numbered : Bool) (line : Nat) (lexeme : Lexeme) : Nat :=
  match lexeme.marker? with
  | some number => number - 1
  | none => lineFrom numbered line (lexeme.text.count '\n')

/-- What may stand between a token and the comment that follows it: no token, no other
comment of which anything is left, no newline, and no line marker. -/
structure Passes (lexeme : Lexeme) : Prop where
  noToken : lexeme.isToken = false
  noComment : lexeme.comment? = none
  noNewline : '\n' ∉ lexeme.text
  noMarker : lexeme.isMarker = false

theorem isToken_of_comment?
    {lexeme : Lexeme}
    {comment : String}
    (isComment : lexeme.comment? = some comment) :
    lexeme.isToken = false := by
  unfold comment? at isComment
  unfold isToken shape?
  split at isComment <;> simp_all

theorem isDirective_of_comment?
    {lexeme : Lexeme}
    {comment : String}
    (isComment : lexeme.comment? = some comment) :
    lexeme.isDirective = false := by
  unfold comment? at isComment
  unfold isDirective
  split at isComment <;> simp_all

theorem marker?_of_not_isDirective
    {lexeme : Lexeme}
    (noDirective : lexeme.isDirective = false) :
    lexeme.marker? = none := by
  unfold isDirective at noDirective
  unfold marker?
  split at noDirective <;> simp_all

theorem marker?_of_comment?
    {lexeme : Lexeme}
    {comment : String}
    (isComment : lexeme.comment? = some comment) :
    lexeme.marker? = none :=
  marker?_of_not_isDirective (isDirective_of_comment? isComment)

theorem lineAfter_of_not_isMarker
    {lexeme : Lexeme}
    (noMarker : lexeme.isMarker = false)
    (numbered : Bool)
    (line : Nat) :
    lexeme.lineAfter numbered line = lineFrom numbered line (lexeme.text.count '\n') := by
  have none : lexeme.marker? = none := by simpa [isMarker] using noMarker
  rw [lineAfter, none]

/-- The number of a line marker fits a word. -/
theorem marker?_lt
    {lexeme : Lexeme}
    {number : Nat}
    (isNumber : lexeme.marker? = some number) :
    number < Text.wordSize := by
  unfold marker? markerNumber? Text.word64? at isNumber
  split at isNumber <;> simp_all
  omega

/-- A line that a marker numbers has the number of a word. -/
theorem lineAfter_lt
    {lexeme : Lexeme}
    {numbered : Bool}
    (marked : numbered = true ∨ lexeme.isMarker = true)
    (line : Nat) :
    lexeme.lineAfter numbered line < Text.wordSize := by
  have positive : 0 < Text.wordSize := by decide
  unfold lineAfter
  cases isMarker : lexeme.marker? with
  | some number =>
      have fits := marker?_lt isMarker
      dsimp only
      omega
  | none =>
      have numbered : numbered = true := by simpa [Lexeme.isMarker, isMarker] using marked
      simp only [lineFrom, numbered, if_true]
      exact Nat.mod_lt _ positive

end Lexeme

/-- The number of the line on which some lexemes end that start on a line. -/
def lineAlong (numbered : Bool) (line : Nat) : List Lexeme -> Nat
  | [] => line
  | lexeme :: rest =>
      lineAlong (numbered || lexeme.isMarker) (lexeme.lineAfter numbered line) rest

/-- The number of the line on which some lexemes end, by the line markers. -/
def lineAfter (lexemes : List Lexeme) : Nat :=
  lineAlong false 1 lexemes

theorem lineAlong_append
    (numbered : Bool)
    (line : Nat)
    (front back : List Lexeme) :
    lineAlong numbered line (front ++ back) =
      lineAlong (numbered || front.any Lexeme.isMarker) (lineAlong numbered line front) back := by
  induction front generalizing numbered line with
  | nil => simp [lineAlong]
  | cons lexeme front hypothesis => simp [lineAlong, hypothesis, Bool.or_assoc]

@[simp] theorem lineAfter_concat (front : List Lexeme) (lexeme : Lexeme) :
    lineAfter (front ++ [lexeme]) =
      lexeme.lineAfter (front.any Lexeme.isMarker) (lineAfter front) := by
  simp [lineAfter, lineAlong_append, lineAlong]

/-- After a marker, line numbers are words. -/
theorem lineAfter_lt
    {front : List Lexeme}
    (marked : front.any Lexeme.isMarker = true) :
    lineAfter front < Text.wordSize := by
  induction front using List.reverseRecOn with
  | nil => cases marked
  | append_singleton front lexeme _ =>
      rw [lineAfter_concat]
      exact Lexeme.lineAfter_lt (by simpa using marked) _

/-- Where no marker stands at all, lines are counted by their newlines. -/
theorem lineAfter_of_not_isMarker
    {front : List Lexeme}
    (noMarker : ∀ lexeme ∈ front, lexeme.isMarker = false) :
    lineAfter front = 1 + (front.flatMap (·.text)).count '\n' := by
  induction front using List.reverseRecOn with
  | nil => rfl
  | append_singleton front lexeme hypothesis =>
      have earlier : ∀ other ∈ front, other.isMarker = false :=
        fun other member => noMarker other (by simp [member])
      have unnumbered : front.any Lexeme.isMarker = false := by simpa using earlier
      rw [lineAfter_concat, Lexeme.lineAfter_of_not_isMarker (noMarker lexeme (by simp)),
        unnumbered, hypothesis earlier]
      simp [lineFrom, Nat.add_assoc]

/-- After a marker, lines are counted on from the line that it numbers. -/
theorem lineAfter_append_of_isMarker
    {front between : List Lexeme}
    (marked : front.any Lexeme.isMarker = true)
    (noMarker : ∀ lexeme ∈ between, lexeme.isMarker = false) :
    lineAfter (front ++ between) =
      (lineAfter front + (between.flatMap (·.text)).count '\n') % Text.wordSize := by
  induction between using List.reverseRecOn with
  | nil => simp [Nat.mod_eq_of_lt (lineAfter_lt marked)]
  | append_singleton between lexeme hypothesis =>
      have earlier := hypothesis fun other member => noMarker other (by simp [member])
      have numbered : (front ++ between).any Lexeme.isMarker = true := by simp [marked]
      rw [← List.append_assoc, lineAfter_concat, numbered,
        Lexeme.lineAfter_of_not_isMarker (noMarker lexeme (by simp)), earlier, lineFrom,
        if_pos rfl, Nat.mod_add_mod]
      simp [Nat.add_assoc]

/-- The line stays the same as long as neither a newline nor a marker comes. -/
theorem lineAfter_append
    (front : List Lexeme)
    {between : List Lexeme}
    (noMarker : ∀ lexeme ∈ between, lexeme.isMarker = false)
    (noNewline : ∀ lexeme ∈ between, '\n' ∉ lexeme.text) :
    lineAfter (front ++ between) = lineAfter front := by
  have none : (between.flatMap (·.text)).count '\n' = 0 := by
    simpa [List.count_eq_zero] using noNewline
  cases marked : front.any Lexeme.isMarker with
  | true =>
      rw [lineAfter_append_of_isMarker marked noMarker, none, Nat.add_zero,
        Nat.mod_eq_of_lt (lineAfter_lt marked)]
  | false =>
      have unmarked : ∀ lexeme ∈ front, lexeme.isMarker = false := by simpa using marked
      rw [lineAfter_of_not_isMarker (List.forall_mem_append.2 ⟨unmarked, noMarker⟩),
        lineAfter_of_not_isMarker unmarked, List.flatMap_append, List.count_append, none,
        Nat.add_zero]

theorem lexemesFrom_of_lexemeAt
    {blankLine : Bool}
    {c : Char}
    {rest after : List Char}
    {lexeme : Lexeme}
    (isLexeme : lexemeAt blankLine c rest = lexeme)
    (whole : c :: rest = lexeme.text ++ after)
    (length : Nat) :
    lexemesFrom blankLine (length + 1) (c :: rest) =
      lexeme :: lexemesFrom (blankAfter blankLine lexeme.text) length after := by
  rw [lexemesFrom, isLexeme, whole, List.drop_left]

/-- The first lexeme of a text and those after it. -/
theorem lexemesFrom_cons
    (blankLine : Bool)
    {length : Nat}
    {c : Char}
    {rest : List Char}
    (enough : (c :: rest).length ≤ length + 1) :
    ∃ after, c :: rest = (lexemeAt blankLine c rest).text ++ after ∧
      (lexemeAt blankLine c rest).text ≠ [] ∧ after.length ≤ length ∧
      lexemesFrom blankLine (length + 1) (c :: rest) =
        lexemeAt blankLine c rest ::
          lexemesFrom (blankAfter blankLine (lexemeAt blankLine c rest).text) length after := by
  obtain ⟨after, whole, nonempty, -⟩ :=
    lexemeAt_stands (fun _ : blankLine = true => atLineStart_nil) c rest
  refine ⟨after, whole, nonempty, ?_, lexemesFrom_of_lexemeAt rfl whole length⟩
  have total := congrArg List.length whole
  have positive := List.length_pos_iff.2 nonempty
  simp only [List.length_cons, List.length_append] at total enough
  omega

/-- The lexemes of a text are all of it. -/
theorem lexemesFrom_texts
    {blankLine : Bool}
    {length : Nat}
    {source : List Char}
    (enough : source.length ≤ length) :
    (lexemesFrom blankLine length source).flatMap (·.text) = source := by
  induction length generalizing blankLine source with
  | zero => simp [lexemesFrom, List.length_eq_zero_iff.1 (Nat.le_zero.1 enough)]
  | succ length hypothesis =>
      cases source with
      | nil => rfl
      | cons c rest =>
          obtain ⟨after, whole, -, less, lexemes⟩ := lexemesFrom_cons blankLine enough
          rw [lexemes, List.flatMap_cons, hypothesis less, ← whole]

/-- The texts of the lexemes of a source are the source. -/
theorem lexemes_texts (source : List Char) :
    (lexemes source).flatMap (·.text) = source :=
  lexemesFrom_texts le_rfl

/-! ## The last of some lexemes -/

/-- A comment after some lexemes would follow the last token of them. -/
def Trails (front : List Lexeme) : Prop :=
  ∃ earlier token later, front = earlier ++ token :: later ∧ token.isToken = true ∧
    ∀ lexeme ∈ later, lexeme.Passes

theorem trails_concat (front : List Lexeme) (lexeme : Lexeme) :
    Trails (front ++ [lexeme]) ↔ lexeme.isToken = true ∨ lexeme.Passes ∧ Trails front := by
  unfold Trails
  exact @exists_last_concat Lexeme (fun _ token => token.isToken = true) Lexeme.Passes front lexeme

/-- Where a comment would follow the last token, all that comes after that token passes. -/
theorem Trails.passes
    {front earlier between : List Lexeme}
    {token : Lexeme}
    (trails : Trails front)
    (whole : front = earlier ++ token :: between)
    (noToken : ∀ lexeme ∈ between, lexeme.isToken = false) :
    ∀ lexeme ∈ between, lexeme.Passes := by
  induction between using List.reverseRecOn generalizing front with
  | nil => simp
  | append_singleton between last hypothesis =>
      rw [whole, ← List.cons_append, ← List.append_assoc, trails_concat] at trails
      rcases trails with isLast | ⟨passes, trails⟩
      · rw [noToken last (by simp)] at isLast
        cases isLast
      have earlier := hypothesis trails rfl fun other member => noToken other (by simp [member])
      exact List.forall_mem_append.2 ⟨earlier, List.forall_mem_singleton.2 passes⟩

/-- A comment among the lexemes after a token follows it. -/
def FollowedBy (later : List Lexeme) (comment : String) : Prop :=
  ∃ between lexeme rest, later = between ++ lexeme :: rest ∧
    (∀ other ∈ between, other.Passes) ∧ lexeme.comment? = some comment

theorem followedBy_concat
    (later : List Lexeme)
    (lexeme : Lexeme)
    (comment : String) :
    FollowedBy (later ++ [lexeme]) comment ↔
      FollowedBy later comment ∨
        (∀ other ∈ later, other.Passes) ∧ lexeme.comment? = some comment := by
  constructor
  · rintro ⟨between, found, rest, whole, passes, isComment⟩
    rcases cut_of_concat whole with ⟨rfl, rfl, -⟩ | ⟨before, rfl, rfl⟩
    · exact .inr ⟨passes, isComment⟩
    · exact .inl ⟨between, found, before, rfl, passes, isComment⟩
  · rintro (⟨between, found, rest, rfl, passes, isComment⟩ | ⟨passes, isComment⟩)
    · exact ⟨between, found, rest ++ [lexeme], by simp, passes, isComment⟩
    · exact ⟨later, lexeme, [], rfl, passes, isComment⟩

theorem not_followedBy_of_passes
    {later : List Lexeme}
    (passes : ∀ lexeme ∈ later, lexeme.Passes)
    (comment : String) :
    ¬ FollowedBy later comment := by
  rintro ⟨between, found, rest, rfl, -, isComment⟩
  rw [(passes found (by simp)).noComment] at isComment
  cases isComment

/-- After a token on whose line no comment follows it, nothing but what passes has come as
long as no newline, marker or token has. -/
theorem passes_of_not_followedBy
    {later : List Lexeme}
    (noToken : ∀ lexeme ∈ later, lexeme.isToken = false)
    (noMarker : ∀ lexeme ∈ later, lexeme.isMarker = false)
    (noNewline : ∀ lexeme ∈ later, '\n' ∉ lexeme.text)
    (alone : ∀ comment, ¬ FollowedBy later comment) :
    ∀ lexeme ∈ later, lexeme.Passes := by
  induction later using List.reverseRecOn with
  | nil => simp
  | append_singleton later last hypothesis =>
      have earlier : ∀ lexeme ∈ later, lexeme.Passes := by
        refine hypothesis (fun other member => noToken other (by simp [member]))
          (fun other member => noMarker other (by simp [member]))
          (fun other member => noNewline other (by simp [member])) fun comment follows => ?_
        exact alone comment ((followedBy_concat _ _ _).2 (.inl follows))
      have noComment : last.comment? = none := by
        cases isComment : last.comment? with
        | none => rfl
        | some comment =>
            exact absurd ((followedBy_concat _ _ _).2 (.inr ⟨earlier, isComment⟩)) (alone comment)
      have passes : last.Passes :=
        ⟨noToken last (by simp), noComment, noNewline last (by simp), noMarker last (by simp)⟩
      exact List.forall_mem_append.2 ⟨earlier, List.forall_mem_singleton.2 passes⟩

/-! ## Steps of the lexer -/

namespace LexState

/-- The tokens so far, in order. -/
def tokens (state : LexState) : List Token :=
  state.reversed.reverse

@[simp] theorem tokens_advance (state : LexState) (text : List Char) :
    (state.advance text).tokens = state.tokens := rfl

@[simp] theorem tokens_push
    (state : LexState)
    (kind : Token.Kind)
    (text : List Char)
    (line : Nat) :
    (state.push kind text line).tokens = state.tokens ++
      [{ kind, text := String.ofList text, line, file := state.file,
         inBaseFile := state.inBaseFile, commentBefore := state.pending }] := by
  simp [tokens, push]

/-- A directive that is no line marker does nothing. -/
theorem applyMarker_of_none
    (state : LexState)
    {body : List Char}
    (noMarker : markerNumber? body = none) :
    state.applyMarker body = state := by
  unfold applyMarker
  dsimp only
  rw [show Text.word64? _ = markerNumber? body from rfl, noMarker]

/-- A directive changes the file and the line at most. -/
theorem applyMarker_eq (state : LexState) (body : List Char) :
    ∃ baseFile file inBaseFile, state.applyMarker body =
      { state with
        baseFile, file, inBaseFile,
        line := (markerNumber? body).elim state.line (· - 1)
        numbered := state.numbered || (markerNumber? body).isSome } := by
  cases isNumber : markerNumber? body with
  | none =>
      rw [applyMarker_of_none state isNumber]
      exact ⟨state.baseFile, state.file, state.inBaseFile, by simp⟩
  | some number =>
      unfold applyMarker
      dsimp only
      rw [show Text.word64? _ = markerNumber? body from rfl, isNumber]
      simp only [Option.isSome_some, Bool.or_true]
      split <;> exact ⟨_, _, _, rfl⟩

/-- What a step does: a token is added, a comment noted, a directive taken, or no more
than the line moves on. -/
theorem step_cases
    {state next : LexState}
    {lexeme : Lexeme}
    (stepped : state.step lexeme = .ok next) :
    (∃ kind, lexeme.kind = .token kind ∧
        next = (state.advance lexeme.text).push kind lexeme.text state.line) ∨
      (∃ comment, lexeme.comment? = some comment ∧
        next = (state.advance lexeme.text).addComment state.line (some comment)) ∨
      (∃ body, lexeme.kind = .directive body ∧
        next = { state.advance lexeme.text with pending := none }.applyMarker body) ∨
      (lexeme.isToken = false ∧ lexeme.comment? = none ∧ lexeme.isDirective = false ∧
        next = state.advance lexeme.text) := by
  obtain ⟨kind, text⟩ := lexeme
  have noted
      {comment : Option String}
      (isNext : next = (state.advance text).addComment state.line comment) :
      (∃ left, comment = some left ∧
          next = (state.advance text).addComment state.line (some left)) ∨
        comment = none ∧ next = state.advance text := by
    cases comment with
    | none => exact .inr ⟨rfl, isNext⟩
    | some left => exact .inl ⟨left, rfl, isNext⟩
  cases kind with
  | token kind => exact .inl ⟨kind, rfl, (Except.ok.inj stepped).symm⟩
  | blanks => exact .inr (.inr (.inr ⟨rfl, rfl, rfl, (Except.ok.inj stepped).symm⟩))
  | blockComment =>
      rcases noted (Except.ok.inj stepped).symm with left | ⟨nothing, isNext⟩
      · exact .inr (.inl left)
      · exact .inr (.inr (.inr ⟨rfl, nothing, rfl, isNext⟩))
  | lineComments =>
      rcases noted (Except.ok.inj stepped).symm with left | ⟨nothing, isNext⟩
      · exact .inr (.inl left)
      · exact .inr (.inr (.inr ⟨rfl, nothing, rfl, isNext⟩))
  | directive body => exact .inr (.inr (.inl ⟨body, rfl, (Except.ok.inj stepped).symm⟩))
  | unterminatedComment => cases stepped
  | unterminatedLiteral => cases stepped

/-- A comment is given to the last token, if that ended on the line and has none, and is
left for the next token otherwise. -/
theorem attach_cases
    (state : LexState)
    (line : Nat)
    (comment : String) :
    (∃ older newest, state.tokens = older ++ [newest] ∧ state.lastTokenLine = some line ∧
        newest.commentAfter = none ∧
        state.attach line comment =
          { state with
            reversed := { newest with commentAfter := some comment } :: older.reverse }) ∨
      (∀ older newest, state.tokens = older ++ [newest] -> state.lastTokenLine = some line ->
        newest.commentAfter ≠ none) ∧
        state.attach line comment = { state with pending := some comment } := by
  have last
      {newest : Token}
      {before : List Token}
      (isReversed : state.reversed = newest :: before) :
      state.tokens = before.reverse ++ [newest] := by
    simp [tokens, isReversed]
  unfold attach
  split
  · rename_i newest before isReversed
    split
    · rename_i decided
      simp only [Bool.and_eq_true, decide_eq_true_eq, Option.isNone_iff_eq_none] at decided
      refine .inl ⟨before.reverse, newest, last isReversed, decided.1, decided.2, ?_⟩
      rw [List.reverse_reverse]
    · rename_i undecided
      refine .inr ⟨fun older other isTokens sameLine noComment => undecided ?_, rfl⟩
      obtain ⟨-, isNewest⟩ := List.append_inj' ((last isReversed).symm.trans isTokens) rfl
      cases isNewest
      simp [sameLine, noComment]
  · rename_i isReversed
    refine .inr ⟨fun older newest isTokens => ?_, rfl⟩
    simp [tokens, isReversed] at isTokens

/-- What holds at first and is kept by every step holds after all lexemes. -/
theorem foldlM_induction
    {holds : List Lexeme -> LexState -> Prop}
    {lexemes : List Lexeme}
    {start last : LexState}
    (begins : holds [] start)
    (steps : ∀ {front lexeme back state next}, lexemes = front ++ lexeme :: back ->
      holds front state -> step state lexeme = .ok next -> holds (front ++ [lexeme]) next)
    (folded : lexemes.foldlM step start = .ok last) :
    holds lexemes last := by
  have along (back : List Lexeme) : ∀ {front : List Lexeme} {state : LexState},
      lexemes = front ++ back -> holds front state -> back.foldlM step state = .ok last ->
      holds lexemes last := by
    induction back with
    | nil =>
        intro front state whole here folded
        rw [List.append_nil] at whole
        cases folded
        rwa [whole]
    | cons lexeme back hypothesis =>
        intro front state whole here folded
        rw [List.foldlM_cons] at folded
        cases stepped : step state lexeme with
        | error error =>
            rw [stepped] at folded
            cases folded
        | ok next =>
            rw [stepped] at folded
            exact hypothesis (by simp [whole]) (steps whole here stepped) folded
  exact along lexemes rfl begins folded

theorem attach_firstComment
    (state : LexState)
    (line : Nat)
    (comment : String)
    (first : Option String) :
    { state with firstComment := first }.attach line comment =
      { state.attach line comment with firstComment := first } := by
  unfold attach
  dsimp only
  split
  · split <;> rfl
  · rfl

/-- Noting a comment gives it to a token, and keeps it if it is the first. -/
theorem addComment_eq
    (state : LexState)
    (line : Nat)
    (comment : String) :
    state.addComment line (some comment) =
      { state.attach line comment with
        firstComment :=
          if state.inBaseFile && state.firstComment.isNone then some comment
          else state.firstComment } := by
  rw [← attach_firstComment]
  unfold addComment
  dsimp only
  split <;> rfl

/-- A step counts the newlines of its lexeme, or goes on from the number of its marker. -/
theorem step_counts
    {state next : LexState}
    {front : List Lexeme}
    {lexeme : Lexeme}
    (line : state.line = lineAfter front)
    (numbered : state.numbered = front.any Lexeme.isMarker)
    (stepped : state.step lexeme = .ok next) :
    next.line = lineAfter (front ++ [lexeme]) ∧
      next.numbered = (front ++ [lexeme]).any Lexeme.isMarker := by
  have isNumbered : (front ++ [lexeme]).any Lexeme.isMarker =
      (state.numbered || lexeme.isMarker) := by
    simp [numbered]
  rw [isNumbered, lineAfter_concat, ← line, ← numbered]
  have counted (noMarker : lexeme.marker? = none) :
      (state.advance lexeme.text).line = lexeme.lineAfter state.numbered state.line ∧
        state.numbered = (state.numbered || lexeme.isMarker) := by
    rw [Lexeme.lineAfter, Lexeme.isMarker, noMarker]
    simp [advance]
  rcases step_cases stepped with ⟨kind, isKind, rfl⟩ | ⟨comment, isComment, rfl⟩ |
    ⟨body, isBody, rfl⟩ | ⟨-, -, noDirective, rfl⟩
  · exact counted (by rw [Lexeme.marker?, isKind])
  · rw [addComment_eq]
    rcases attach_cases (state.advance lexeme.text) state.line comment with
      ⟨older, newest, -, -, -, attached⟩ | ⟨-, attached⟩
    all_goals
      rw [attached]
      exact counted (Lexeme.marker?_of_comment? isComment)
  · obtain ⟨baseFile, file, inBaseFile, applied⟩ :=
      { state.advance lexeme.text with pending := none }.applyMarker_eq body
    have isNumber : lexeme.marker? = markerNumber? body := by rw [Lexeme.marker?, isBody]
    rw [applied, Lexeme.lineAfter, Lexeme.isMarker, isNumber]
    refine ⟨?_, rfl⟩
    cases markerNumber? body <;> rfl
  · exact counted (Lexeme.marker?_of_not_isDirective noDirective)

end LexState

/-! ## Lines and the comments that follow tokens -/

/-- No number makes a comment after some lexemes look as if it stood on the line on which
the last token ended, while that token waits for a comment: where a marker or a newline
stands between the two, their lines have different numbers. -/
def Unmistaken (front : List Lexeme) : Prop :=
  ∀ earlier token between, front = earlier ++ token :: between -> token.isToken = true ->
    (∀ lexeme ∈ between, lexeme.isToken = false) ->
    (∃ lexeme ∈ between, lexeme.isMarker = true ∨ '\n' ∈ lexeme.text) ->
    (∀ comment, ¬ FollowedBy between comment) ->
    lineAfter front ≠ lineAfter (earlier ++ [token])

/-- Lines that are only counted are not mistaken. -/
theorem unmistaken_of_not_isMarker
    {front : List Lexeme}
    (noMarker : ∀ lexeme ∈ front, lexeme.isMarker = false) :
    Unmistaken front := by
  rintro earlier token between rfl - - ⟨lexeme, member, breaks⟩ -
  have newline : '\n' ∈ lexeme.text :=
    breaks.resolve_left (by simp [noMarker lexeme (by simp [member])])
  have counted : 0 < (between.flatMap (·.text)).count '\n' :=
    List.count_pos_iff.2 (List.mem_flatMap.2 ⟨lexeme, member, newline⟩)
  rw [lineAfter_of_not_isMarker noMarker, lineAfter_of_not_isMarker fun other isOther =>
    noMarker other (by rw [List.append_cons]; exact List.mem_append_left _ isOther)]
  simp only [List.flatMap_append, List.flatMap_cons, List.count_append, List.flatMap_nil]
  simp only [List.count_nil]
  omega

/-- A state after some lexemes knows the line, the line on which the last token ended, and
the comment that follows each token. -/
structure Stands (front : List Lexeme) (state : LexState) : Prop where
  line : state.line = lineAfter front
  numbered : state.numbered = front.any Lexeme.isMarker
  count : state.tokens.length = front.countP Lexeme.isToken
  last : ∀ {earlier token later}, front = earlier ++ token :: later -> token.isToken = true ->
    (∀ lexeme ∈ later, lexeme.isToken = false) ->
    state.lastTokenLine = some (lineAfter (earlier ++ [token]))
  follows : ∀ {earlier lexeme later}, front = earlier ++ lexeme :: later ->
    lexeme.isToken = true ->
    ∃ token, state.tokens[earlier.countP Lexeme.isToken]? = some token ∧
      ∀ comment, token.commentAfter = some comment ↔ FollowedBy later comment

/-- The scan starts before all lexemes. -/
theorem stands_start (baseFile : Option String) : Stands [] (LexState.start baseFile) where
  line := rfl
  numbered := rfl
  count := rfl
  last := by simp
  follows := by simp

namespace Stands

variable {front : List Lexeme}
variable {state : LexState}

/-- The last token of the state is that of the last lexeme that becomes one. -/
theorem newest
    (stands : Stands front state)
    {earlier later : List Lexeme}
    {lexeme : Lexeme}
    (whole : front = earlier ++ lexeme :: later)
    (isToken : lexeme.isToken = true)
    (noToken : ∀ other ∈ later, other.isToken = false) :
    ∃ older newest, state.tokens = older ++ [newest] ∧
      ∀ comment, newest.commentAfter = some comment ↔ FollowedBy later comment := by
  obtain ⟨token, found, follows⟩ := stands.follows whole isToken
  have none : later.countP Lexeme.isToken = 0 := by
    rw [List.countP_eq_zero]
    intro other member
    simp [noToken other member]
  have length : state.tokens.length = earlier.countP Lexeme.isToken + 1 := by
    rw [stands.count, whole, List.countP_append, List.countP_cons_of_pos isToken, none]
  refine ⟨state.tokens.dropLast, token, ?_, follows⟩
  have filled : state.tokens ≠ [] := List.ne_nil_of_length_eq_add_one length
  have isLast : state.tokens.getLast filled = token := by
    rw [List.getLast_eq_getElem, ← Option.some_inj, ← found, ← List.getElem?_eq_getElem]
    simp [length]
  rw [← isLast, List.dropLast_append_getLast]

/-- The lexer gives a comment to the last token exactly if it follows that token. -/
theorem attaches_iff
    (stands : Stands front state)
    (unmistaken : Unmistaken front) :
    (∃ older newest, state.tokens = older ++ [newest] ∧
        state.lastTokenLine = some state.line ∧ newest.commentAfter = none) ↔ Trails front := by
  constructor
  · rintro ⟨older, last, isTokens, sameLine, noComment⟩
    have filled : 0 < front.countP Lexeme.isToken := by
      rw [← stands.count, isTokens]
      simp
    obtain ⟨earlier, lexeme, later, whole, isToken, noToken⟩ :=
      exists_last (List.any_eq_true.2 (List.countP_pos_iff.1 filled))
    obtain ⟨others, other, sameTokens, follows⟩ := stands.newest whole isToken noToken
    obtain ⟨-, isNewest⟩ := List.append_inj' (isTokens.symm.trans sameTokens) rfl
    cases isNewest
    have alone : ∀ comment, ¬ FollowedBy later comment := by
      intro comment follow
      rw [(follows comment).2 follow] at noComment
      cases noComment
    have sameLine : lineAfter front = lineAfter (earlier ++ [lexeme]) := by
      rw [stands.last whole isToken noToken, Option.some_inj, stands.line] at sameLine
      exact sameLine.symm
    have unbroken : ∀ other ∈ later, other.isMarker = false ∧ '\n' ∉ other.text := by
      intro other member
      by_contra breaks
      refine unmistaken earlier lexeme later whole isToken noToken ⟨other, member, ?_⟩ alone
        sameLine
      rwa [← Bool.not_eq_true, ← not_or, not_not] at breaks
    exact ⟨earlier, lexeme, later, whole, isToken,
      passes_of_not_followedBy noToken (fun other member => (unbroken other member).1)
        (fun other member => (unbroken other member).2) alone⟩
  · rintro ⟨earlier, lexeme, later, whole, isToken, passes⟩
    have noToken : ∀ other ∈ later, other.isToken = false :=
      fun other member => (passes other member).noToken
    obtain ⟨older, last, isTokens, follows⟩ := stands.newest whole isToken noToken
    refine ⟨older, last, isTokens, ?_, ?_⟩
    · have sameLine : lineAfter front = lineAfter (earlier ++ [lexeme]) := by
        rw [whole, List.append_cons, lineAfter_append _
          (fun other member => (passes other member).noMarker)
          fun other member => (passes other member).noNewline]
      rw [stands.last whole isToken noToken, stands.line, sameLine]
    · cases after : last.commentAfter with
      | none => rfl
      | some comment =>
          exact absurd ((follows comment).1 after) (not_followedBy_of_passes passes comment)

/-- The last token stays the last after a lexeme that becomes none. -/
private theorem last_concat
    (stands : Stands front state)
    {lexeme : Lexeme}
    (noToken : lexeme.isToken = false)
    {earlier later : List Lexeme}
    {token : Lexeme}
    (whole : front ++ [lexeme] = earlier ++ token :: later)
    (isToken : token.isToken = true)
    (noTokens : ∀ other ∈ later, other.isToken = false) :
    state.lastTokenLine = some (lineAfter (earlier ++ [token])) := by
  rcases cut_of_concat whole with ⟨-, rfl, -⟩ | ⟨before, rfl, isFront⟩
  · rw [noToken] at isToken
    cases isToken
  · exact stands.last isFront isToken fun other member => noTokens other (by simp [member])

/-- A lexeme that becomes no token and is not given to one keeps the tokens. -/
theorem keep
    (stands : Stands front state)
    {next : LexState}
    {lexeme : Lexeme}
    (noToken : lexeme.isToken = false)
    (line : next.line = lineAfter (front ++ [lexeme]))
    (numbered : next.numbered = (front ++ [lexeme]).any Lexeme.isMarker)
    (tokens : next.tokens = state.tokens)
    (lastLine : next.lastTokenLine = state.lastTokenLine)
    (left : lexeme.comment? = none ∨ ¬ Trails front) :
    Stands (front ++ [lexeme]) next where
  line := line
  numbered := numbered
  count := by simp [tokens, stands.count, noToken]
  last := by
    rw [lastLine]
    exact stands.last_concat noToken
  follows := by
    intro earlier token later whole isToken
    rcases cut_of_concat whole with ⟨-, rfl, -⟩ | ⟨before, rfl, isFront⟩
    · rw [noToken] at isToken
      cases isToken
    · obtain ⟨found, isFound, follows⟩ := stands.follows isFront isToken
      refine ⟨found, by rwa [tokens], fun comment => ?_⟩
      rw [follows, followedBy_concat, or_iff_left]
      rintro ⟨passes, isComment⟩
      rcases left with noComment | apart
      · rw [noComment] at isComment
        cases isComment
      · exact apart ⟨earlier, token, before, isFront, isToken, passes⟩

/-- A lexeme that becomes a token adds it. -/
theorem token
    (stands : Stands front state)
    {next : LexState}
    {lexeme : Lexeme}
    {added : Token}
    (isToken : lexeme.isToken = true)
    (line : next.line = lineAfter (front ++ [lexeme]))
    (numbered : next.numbered = (front ++ [lexeme]).any Lexeme.isMarker)
    (tokens : next.tokens = state.tokens ++ [added])
    (alone : added.commentAfter = none)
    (lastLine : next.lastTokenLine = some next.line) :
    Stands (front ++ [lexeme]) next := by
  refine ⟨line, numbered, by simp [tokens, stands.count, isToken], ?_, ?_⟩
  · intro earlier other later whole isOther noTokens
    rcases cut_of_concat whole with ⟨rfl, rfl, -⟩ | ⟨before, rfl, -⟩
    · rw [lastLine, line]
    · have notToken := noTokens lexeme (by simp)
      rw [isToken] at notToken
      cases notToken
  · intro earlier other later whole isOther
    rcases cut_of_concat whole with ⟨rfl, rfl, rfl⟩ | ⟨before, rfl, isFront⟩
    · refine ⟨added, by simp [tokens, ← stands.count], fun comment => ?_⟩
      rw [alone]
      exact ⟨by simp, fun follows => absurd follows (not_followedBy_of_passes (by simp) comment)⟩
    · obtain ⟨found, isFound, follows⟩ := stands.follows isFront isOther
      refine ⟨found, ?_, fun comment => ?_⟩
      · rw [tokens, List.getElem?_append_left (List.getElem?_eq_some_iff.1 isFound).1, isFound]
      · rw [follows, followedBy_concat, or_iff_left]
        rintro ⟨-, isComment⟩
        rw [Lexeme.isToken_of_comment? isComment] at isToken
        cases isToken

/-- A comment that follows the last token is given to it. -/
theorem follow
    (stands : Stands front state)
    {next : LexState}
    {lexeme : Lexeme}
    {comment : String}
    {older : List Token}
    {newest : Token}
    (isComment : lexeme.comment? = some comment)
    (trails : Trails front)
    (before : state.tokens = older ++ [newest])
    (line : next.line = lineAfter (front ++ [lexeme]))
    (numbered : next.numbered = (front ++ [lexeme]).any Lexeme.isMarker)
    (tokens : next.tokens = older ++ [{ newest with commentAfter := some comment }])
    (lastLine : next.lastTokenLine = state.lastTokenLine) :
    Stands (front ++ [lexeme]) next := by
  have noToken := Lexeme.isToken_of_comment? isComment
  have length : older.length + 1 = front.countP Lexeme.isToken := by
    rw [← stands.count, before, List.length_append, List.length_singleton]
  refine ⟨line, numbered, ?_, ?_, ?_⟩
  · simp [tokens, noToken, ← length]
  · rw [lastLine]
    exact stands.last_concat noToken
  intro earlier token later whole isToken
  rcases cut_of_concat whole with ⟨-, rfl, -⟩ | ⟨between, rfl, isFront⟩
  · rw [noToken] at isToken
    cases isToken
  obtain ⟨found, isFound, follows⟩ := stands.follows isFront isToken
  rw [isFront, List.countP_append, List.countP_cons_of_pos isToken] at length
  by_cases isLast : ∀ other ∈ between, other.isToken = false
  · have passes := trails.passes isFront isLast
    have none : between.countP Lexeme.isToken = 0 :=
      List.countP_eq_zero.2 fun other member => by simp [isLast other member]
    have place : earlier.countP Lexeme.isToken = older.length := by omega
    refine ⟨_, by rw [tokens, place, List.getElem?_concat_length], fun other => ?_⟩
    rw [followedBy_concat, or_iff_right (not_followedBy_of_passes passes other), isComment]
    exact ⟨fun same => ⟨passes, same⟩, fun both => both.2⟩
  · obtain ⟨other, member, isOther⟩ : ∃ other ∈ between, other.isToken = true := by
      simpa using isLast
    have some : 0 < between.countP Lexeme.isToken := List.countP_pos_iff.2 ⟨other, member, isOther⟩
    refine ⟨found, ?_, fun comment => ?_⟩
    · rw [before] at isFound
      rw [tokens, List.getElem?_append_left (by omega)]
      rwa [List.getElem?_append_left (by omega)] at isFound
    · rw [follows, followedBy_concat, or_iff_left]
      rintro ⟨passes, -⟩
      rw [(passes other member).noToken] at isOther
      cases isOther

/-- A step keeps the line, the line of the last token and the comments after tokens, where
no marker misleads. -/
theorem step
    (stands : Stands front state)
    {next : LexState}
    {lexeme : Lexeme}
    (unmistaken : lexeme.comment? ≠ none -> Unmistaken front)
    (stepped : state.step lexeme = .ok next) :
    Stands (front ++ [lexeme]) next := by
  obtain ⟨line, numbered⟩ := LexState.step_counts stands.line stands.numbered stepped
  rcases LexState.step_cases stepped with ⟨kind, isKind, rfl⟩ | ⟨comment, isComment, rfl⟩ |
    ⟨body, isBody, rfl⟩ | ⟨noToken, noComment, -, rfl⟩
  · have isToken : lexeme.isToken = true := by simp [Lexeme.isToken, Lexeme.shape?, isKind]
    exact stands.token isToken line numbered (LexState.tokens_push _ _ _ _) rfl rfl
  · have attaches := stands.attaches_iff (unmistaken (by simp [isComment]))
    rcases LexState.attach_cases (state.advance lexeme.text) state.line comment with
      ⟨older, newest, isTokens, sameLine, noComment, attached⟩ | ⟨apart, attached⟩
    · rw [LexState.addComment_eq, attached] at line numbered ⊢
      exact stands.follow isComment (attaches.1 ⟨older, newest, isTokens, sameLine, noComment⟩)
        isTokens line numbered (by simp [LexState.tokens]) rfl
    · rw [LexState.addComment_eq, attached] at line numbered ⊢
      refine stands.keep (Lexeme.isToken_of_comment? isComment) line numbered rfl rfl
        (.inr ?_)
      rw [← attaches]
      rintro ⟨older, newest, isTokens, sameLine, noComment⟩
      exact apart older newest isTokens sameLine noComment
  · obtain ⟨baseFile, file, inBaseFile, applied⟩ :=
      { state.advance lexeme.text with pending := none }.applyMarker_eq body
    rw [applied] at line numbered ⊢
    have noToken : lexeme.isToken = false := by simp [Lexeme.isToken, Lexeme.shape?, isBody]
    exact stands.keep noToken line numbered rfl rfl (.inl (by simp [Lexeme.comment?, isBody]))
  · exact stands.keep noToken line numbered rfl rfl (.inl noComment)

end Stands
end Source
end DeclManual
