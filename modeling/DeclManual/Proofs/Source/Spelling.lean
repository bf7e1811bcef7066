import DeclManual.Proofs.Source.LexemeRules
import DeclManual.Proofs.Text.Search
import Mathlib.Data.List.Infix
import Mathlib.Data.List.TakeWhile

/-!
# Sources as tokens and gaps

A source text is spelled by its tokens with a gap before, between and after them.
A gap holds blanks, closed comments, comments that run to the end of their line,
and directives, and nothing else.  The main statement is that the tokens of a
source that can be read spell it, so that reading loses and invents nothing.
-/

namespace DeclManual

namespace Source

/-! ## Gaps -/

/-- Only blanks stand after the last newline of a stretch of source. -/
def AtLineStart (before : List Char) : Prop :=
  ∃ earlier line, before = earlier ++ line ∧
    (earlier = [] ∨ ∃ lines, earlier = lines ++ ['\n']) ∧
    ∀ c ∈ line, Text.isBlank c = true

theorem atLineStart_nil : AtLineStart [] :=
  ⟨[], [], rfl, .inl rfl, by simp⟩

/-- The current line ends where a text starts. -/
def EndsLine (after : List Char) : Prop :=
  after = [] ∨ ∃ more, after = '\n' :: more

/-- The whole text of a block comment: it is closed where `*/` first occurs. -/
def BlockComment (text : List Char) : Prop :=
  ∃ inside, ¬ ['*', '/'] <:+: inside ∧ text = ['/', '*'] ++ inside ++ ['*', '/']

/-- A character that stands for itself in a directive: it does not end or continue the
line, and starts no comment that is closed. -/
structure Plain (c : Char) (rest : List Char) : Prop where
  notNewline : c ≠ '\n'
  notContinued : c = '\\' -> rest.head? ≠ some '\n'
  notComment : c = '/' -> rest.head? = some '*' -> ¬ ['*', '/'] <:+: rest.drop 1

/-- The text of a directive, up to the end of its line, and what it stands for: its lines
are joined where they are continued, and a space takes the place of each comment. -/
inductive Joins : (text body after : List Char) → Prop
  | stop {after : List Char} :
      EndsLine after → Joins [] [] after
  | character {c : Char} {rest body after : List Char} :
      Plain c (rest ++ after) →
      Joins rest body after → Joins (c :: rest) (c :: body) after
  | continuation {rest body after : List Char} :
      Joins rest body after → Joins ('\\' :: '\n' :: rest) body after
  | comment {text rest body after : List Char} :
      BlockComment text →
      Joins rest body after → Joins (text ++ rest) (' ' :: body) after

/-- The text of a directive, with its continued lines and comments, up to the end
of its line. -/
def DirectiveText (text after : List Char) : Prop :=
  ∃ body, Joins text body after

/-- A stretch of source without tokens, between what stands before and after it. -/
inductive Gap : (before text after : List Char) → Prop
  | nil {before after : List Char} : Gap before [] after
  | blank {c : Char} {before rest after : List Char} :
      Text.isBlank c = true →
      Gap (before ++ [c]) rest after → Gap before (c :: rest) after
  | blockComment {text before rest after : List Char} :
      BlockComment text →
      Gap (before ++ text) rest after → Gap before (text ++ rest) after
  | lineComment {body before rest after : List Char} :
      '\n' ∉ body →
      EndsLine (rest ++ after) →
      Gap (before ++ ('/' :: '/' :: body)) rest after →
      Gap before ('/' :: '/' :: body ++ rest) after
  | directive {body before rest after : List Char} :
      AtLineStart before →
      DirectiveText ('#' :: body) (rest ++ after) →
      Gap (before ++ ('#' :: body)) rest after →
      Gap before ('#' :: body ++ rest) after

/-- Words with gaps before, between and after them make up a source, after what
stands before it. -/
inductive Spells : (before : List Char) → (words : List String) → (source : List Char) → Prop
  | done {before gap : List Char} :
      Gap before gap [] → Spells before [] gap
  | word {before gap rest : List Char} {word : String} {words : List String} :
      word ≠ "" →
      Gap before gap (word.toList ++ rest) →
      Spells (before ++ gap ++ word.toList) words rest →
      Spells before (word :: words) (gap ++ word.toList ++ rest)

/-- Two stretches without tokens are one. -/
theorem Gap.append
    {before first second after : List Char}
    (left : Gap before first (second ++ after))
    (right : Gap (before ++ first) second after) :
    Gap before (first ++ second) after := by
  generalize following : second ++ after = rest at left
  induction left with
  | nil => simpa using right
  | blank blank _ hypothesis =>
      exact .blank blank (hypothesis (by simpa using right) following)
  | blockComment closed _ hypothesis =>
      rw [List.append_assoc]
      exact .blockComment closed (hypothesis (by simpa using right) following)
  | lineComment oneLine ends _ hypothesis =>
      rw [List.append_assoc]
      refine .lineComment oneLine ?_ (hypothesis (by simpa using right) following)
      rwa [List.append_assoc, following]
  | directive start text _ hypothesis =>
      rw [List.append_assoc]
      refine .directive start ?_ (hypothesis (by simpa using right) following)
      rwa [List.append_assoc, following]

/-- A run of blanks is a gap. -/
theorem Gap.ofBlanks
    {blanks : List Char}
    (allBlank : ∀ c ∈ blanks, Text.isBlank c = true)
    (before after : List Char) :
    Gap before blanks after := by
  induction blanks generalizing before with
  | nil => exact .nil
  | cons c rest hypothesis =>
      exact .blank (allBlank c (by simp))
        (hypothesis (fun other member => allBlank other (by simp [member])) _)

/-- A gap in front of a spelled source belongs to its first gap. -/
theorem Spells.prepend
    {before text source : List Char}
    {words : List String}
    (gap : Gap before text source)
    (spells : Spells (before ++ text) words source) :
    Spells before words (text ++ source) := by
  cases spells with
  | done last => exact .done (Gap.append (by simpa using gap) last)
  | @word _ first rest word words nonempty second tail =>
      have whole : Gap before (text ++ first) (word.toList ++ rest) :=
        Gap.append (by simpa using gap) second
      have spelled := Spells.word nonempty whole (by simpa using tail)
      simpa using spelled

/-! ## Lexemes -/

/-- What stands up to the first `*/` is the inside of a block comment. -/
theorem BlockComment.ofSplit
    {text inside after : List Char}
    (found : Text.splitAtWord? ['*', '/'] text = some (inside, after)) :
    BlockComment (['/', '*'] ++ inside ++ ['*', '/']) :=
  ⟨inside, ((Text.splitAtWord?_pair_eq_some_iff (by decide)).1 found).2, rfl⟩

theorem directive_continued
    (steps : Nat)
    (rest : List Char) :
    directive (steps + 1) ('\\' :: '\n' :: rest) =
      ('\\' :: '\n' :: (directive steps rest).1, (directive steps rest).2) := by
  simp [directive]

theorem directive_comment
    {text inside after : List Char}
    (found : Text.splitAtWord? ['*', '/'] text = some (inside, after))
    (steps : Nat) :
    directive (steps + 1) ('/' :: '*' :: text) =
      (['/', '*'] ++ inside ++ ['*', '/'] ++ (directive steps after).1,
        ' ' :: (directive steps after).2) := by
  simp [directive, found]

theorem Plain.directive
    {c : Char}
    {rest : List Char}
    (plain : Plain c rest)
    (steps : Nat) :
    directive (steps + 1) (c :: rest) =
      (c :: (directive steps rest).1, c :: (directive steps rest).2) := by
  rw [Source.directive, if_neg plain.notNewline, if_neg]
  · split
    · rename_i opens
      simp only [Bool.and_eq_true, decide_eq_true_eq, beq_iff_eq] at opens
      rw [(Text.splitAtWord?_eq_none_iff _ _).2 (plain.notComment opens.1 opens.2)]
    · rfl
  · simp only [Bool.and_eq_true, decide_eq_true_eq, beq_iff_eq]
    exact fun continues => plain.notContinued continues.1 continues.2

/-- How a text goes on in a directive: its line ends, is continued, holds a comment, or
holds a character that stands for itself. -/
theorem directive_cases
    (c : Char)
    (rest : List Char) :
    c = '\n' ∨
      (∃ more, c = '\\' ∧ rest = '\n' :: more) ∨
      (∃ text inside after, c = '/' ∧ rest = '*' :: text ∧
        Text.splitAtWord? ['*', '/'] text = some (inside, after)) ∨
      Plain c rest := by
  by_cases newline : c = '\n'
  · exact .inl newline
  by_cases continues : c = '\\' ∧ rest.head? = some '\n'
  · obtain ⟨more, isMore⟩ := List.head?_eq_some_iff.1 continues.2
    exact .inr (.inl ⟨more, continues.1, isMore⟩)
  by_cases opens : c = '/' ∧ rest.head? = some '*'
  · obtain ⟨text, rfl⟩ := List.head?_eq_some_iff.1 opens.2
    cases found : Text.splitAtWord? ['*', '/'] text with
    | some parts => exact .inr (.inr (.inl ⟨text, parts.1, parts.2, opens.1, rfl, found⟩))
    | none =>
        exact .inr (.inr (.inr ⟨newline, fun isC next => continues ⟨isC, next⟩,
          fun _ _ => Text.not_infix_of_splitAtWord? found⟩))
  · exact .inr (.inr (.inr ⟨newline, fun isC next => continues ⟨isC, next⟩,
      fun isC next => absurd ⟨isC, next⟩ opens⟩))

theorem directive_of_endsLine
    {after : List Char}
    (ends : EndsLine after)
    (steps : Nat) :
    directive steps after = ([], []) := by
  rcases ends with rfl | ⟨more, rfl⟩ <;> cases steps <;> rfl

/-- A directive is read as the text that its lines stand for when joined. -/
theorem Joins.directive_eq
    {text body after : List Char}
    (joins : Joins text body after)
    {steps : Nat}
    (enough : (text ++ after).length ≤ steps) :
    directive steps (text ++ after) = (text, body) := by
  induction joins generalizing steps with
  | stop ends => exact directive_of_endsLine ends steps
  | character plain _ hypothesis =>
      cases steps with
      | zero => simp at enough
      | succ steps =>
          rw [List.cons_append, plain.directive, hypothesis (by simpa using enough)]
  | continuation _ hypothesis =>
      cases steps with
      | zero => simp at enough
      | succ steps =>
          rw [List.cons_append, List.cons_append, directive_continued,
            hypothesis (by simp at enough ⊢; omega)]
  | @comment text rest body after closed _ hypothesis =>
      obtain ⟨inside, unclosed, rfl⟩ := closed
      cases steps with
      | zero => simp at enough
      | succ steps =>
          have cut := (Text.splitAtWord?_pair_eq_some_iff (by decide)).2
            ⟨Eq.refl (inside ++ ['*', '/'] ++ (rest ++ after)), unclosed⟩
          have read := directive_comment cut steps
          rw [hypothesis (by simp at enough ⊢; omega)] at read
          simpa using read

theorem directive_joins
    (steps : Nat)
    (text : List Char)
    (enough : text.length ≤ steps) :
    ∃ after, text = (directive steps text).1 ++ after ∧
      Joins (directive steps text).1 (directive steps text).2 after := by
  induction steps generalizing text with
  | zero =>
      obtain rfl := List.length_eq_zero_iff.1 (Nat.le_zero.1 enough)
      exact ⟨[], rfl, .stop (.inl rfl)⟩
  | succ steps hypothesis =>
      cases text with
      | nil => exact ⟨[], rfl, .stop (.inl rfl)⟩
      | cons c rest =>
          have shorter : rest.length ≤ steps := by simpa using enough
          rcases directive_cases c rest with
            rfl | ⟨more, rfl, rfl⟩ | ⟨inner, inside, last, rfl, rfl, found⟩ | plain
          · exact ⟨'\n' :: rest, rfl, .stop (.inr ⟨rest, rfl⟩)⟩
          · obtain ⟨after, whole, joins⟩ := hypothesis more (by simp at shorter; omega)
            rw [directive_continued]
            exact ⟨after, by rw [List.cons_append, List.cons_append, ← whole],
              .continuation joins⟩
          · have cut := Text.eq_append_of_splitAtWord? found
            have less : last.length ≤ steps := by
              rw [cut] at shorter
              simp at shorter
              omega
            obtain ⟨after, whole, joins⟩ := hypothesis last less
            rw [directive_comment found]
            refine ⟨after, ?_, .comment (.ofSplit found) joins⟩
            rw [List.append_assoc, ← whole, cut]
            simp
          · obtain ⟨after, whole, joins⟩ := hypothesis rest shorter
            rw [plain.directive]
            refine ⟨after, by rw [List.cons_append, ← whole], .character ?_ joins⟩
            rwa [← whole]

theorem joins_of_directive
    {steps : Nat}
    {text body after : List Char}
    (read : directive steps (text ++ after) = (text, body))
    (enough : (text ++ after).length ≤ steps) :
    Joins text body after := by
  obtain ⟨last, whole, joins⟩ := directive_joins steps (text ++ after) enough
  rw [read] at whole joins
  rwa [List.append_cancel_left whole]

/-- A line is its text up to the newline, and the rest starts where it ends. -/
theorem firstLine_split (text : List Char) :
    ∃ after, text = Text.firstLine text ++ after ∧ EndsLine after ∧
      '\n' ∉ Text.firstLine text := by
  refine ⟨text.dropWhile (· != '\n'), List.takeWhile_append_dropWhile.symm, ?_, ?_⟩
  · cases rest : text.dropWhile (· != '\n') with
    | nil => exact .inl rfl
    | cons c more =>
        have newline := List.head?_dropWhile_not (· != '\n') text
        rw [rest] at newline
        exact .inr ⟨more, by simpa using newline⟩
  · intro member
    have notNewline := List.mem_takeWhile_imp member
    simp at notNewline

/-- The first line of an indented line comment is the comment with its indent. -/
theorem firstLine_lineComment
    {indent : List Char}
    (indented : ∀ c ∈ indent, c = ' ' ∨ c = '\t')
    (body : List Char) :
    Text.firstLine (indent ++ '/' :: '/' :: body) =
      indent ++ '/' :: '/' :: Text.firstLine body := by
  unfold Text.firstLine
  rw [List.takeWhile_append_of_pos]
  · simp
  · intro c member
    rcases indented c member with rfl | rfl <;> decide

/-- An indented line comment in front of a gap belongs to it. -/
theorem Gap.line
    {indent body before rest after : List Char}
    (indented : ∀ c ∈ indent, c = ' ' ∨ c = '\t')
    (oneLine : '\n' ∉ body)
    (ends : EndsLine (rest ++ after))
    (gap : Gap (before ++ (indent ++ '/' :: '/' :: body)) rest after) :
    Gap before (indent ++ '/' :: '/' :: body ++ rest) after := by
  have blanks : ∀ c ∈ indent, Text.isBlank c = true := by
    intro c member
    rcases indented c member with rfl | rfl <;> decide
  have comment : Gap (before ++ indent) ('/' :: '/' :: body ++ rest) after :=
    .lineComment oneLine ends (by simpa using gap)
  simpa using Gap.append (.ofBlanks blanks _ _) comment

/-- An indented line comment is a gap where a line ends. -/
theorem Gap.ofLine
    {indent body after : List Char}
    (indented : ∀ c ∈ indent, c = ' ' ∨ c = '\t')
    (oneLine : '\n' ∉ body)
    (ends : EndsLine after)
    (before : List Char) :
    Gap before (indent ++ '/' :: '/' :: body) after := by
  have line : Gap before (indent ++ '/' :: '/' :: body ++ []) after :=
    .line indented oneLine (by simpa using ends) .nil
  simpa using line

/-- The lines of a run of line comments are a gap. -/
theorem lineComments_gap
    (merge : Bool)
    (lines : Nat)
    {indent : List Char}
    (indented : ∀ c ∈ indent, c = ' ' ∨ c = '\t')
    (body before : List Char) :
    ∃ after,
      indent ++ '/' :: '/' :: body =
        lineComments merge lines (indent ++ '/' :: '/' :: body) ++ after ∧
      EndsLine after ∧
      Gap before (lineComments merge lines (indent ++ '/' :: '/' :: body)) after := by
  induction lines generalizing indent body before with
  | zero =>
      obtain ⟨tail, whole, ends, oneLine⟩ := firstLine_split body
      rw [lineComments, firstLine_lineComment indented]
      exact ⟨tail, by simpa using whole, ends, .ofLine indented oneLine ends before⟩
  | succ lines hypothesis =>
      obtain ⟨tail, whole, ends, oneLine⟩ := firstLine_split body
      have cut : indent ++ '/' :: '/' :: body =
          indent ++ '/' :: '/' :: Text.firstLine body ++ tail := by
        simpa using whole
      have stop : ∃ after,
          indent ++ '/' :: '/' :: body =
            indent ++ '/' :: '/' :: Text.firstLine body ++ after ∧
          EndsLine after ∧
          Gap before (indent ++ '/' :: '/' :: Text.firstLine body) after :=
        ⟨tail, cut, ends, .ofLine indented oneLine ends before⟩
      have dropped : (indent ++ '/' :: '/' :: body).drop
          (indent ++ '/' :: '/' :: Text.firstLine body).length = tail := by
        rw [cut, List.drop_left]
      unfold lineComments
      simp only [firstLine_lineComment indented, dropped]
      split
      · rename_i next
        split
        · rename_i merged
          simp only [Bool.and_eq_true] at merged
          obtain ⟨more, starts⟩ := List.isPrefixOf_iff_prefix.1 merged.2
          have split := @List.takeWhile_append_dropWhile _ (fun c => c == ' ' || c == '\t') next
          rw [← starts] at split
          have indentedNext : ∀ c ∈ next.takeWhile (fun c => c == ' ' || c == '\t'),
              c = ' ' ∨ c = '\t' := by
            intro c member
            simpa using List.mem_takeWhile_imp member
          obtain ⟨after, equal, endsNext, gap⟩ := hypothesis indentedNext more
            (before ++ (indent ++ '/' :: '/' :: Text.firstLine body) ++ ['\n'])
          simp only [List.cons_append, List.nil_append] at split
          rw [split] at equal gap
          refine ⟨after, ?_, endsNext, ?_⟩
          · rw [cut, List.append_assoc _ ('\n' :: _), List.cons_append, ← equal]
          · exact Gap.line indented oneLine (.inr ⟨_, rfl⟩) (.blank (by decide) gap)
        · exact stop
      · exact stop

/-- Text that does not start with a newline holds something before the end of its
line. -/
theorem EndsLine.ne_nil_of_eq
    {c : Char}
    {rest taken after : List Char}
    (ends : EndsLine after)
    (notNewline : c ≠ '\n')
    (whole : c :: rest = taken ++ after) :
    taken ≠ [] := by
  rintro rfl
  rcases ends with rfl | ⟨more, rfl⟩
  · simp at whole
  · simp [notNewline] at whole

/-- A directive starts with its mark. -/
theorem DirectiveText.starts
    {rest taken after : List Char}
    (text : DirectiveText taken after)
    (whole : '#' :: rest = taken ++ after) :
    ∃ body, taken = '#' :: body := by
  obtain ⟨body, joins⟩ := text
  cases joins with
  | stop ends => exact absurd rfl (ends.ne_nil_of_eq (by decide) whole)
  | character _ _ =>
      simp only [List.cons_append, List.cons.injEq] at whole
      exact ⟨_, by rw [← whole.1]⟩
  | continuation _ => simp at whole
  | comment closed _ =>
      obtain ⟨inside, -, rfl⟩ := closed
      simp at whole

/-- A number takes a part at the start of the text. -/
theorem numberTail_prefix
    (hexadecimal : Bool)
    (last : Char)
    (text : List Char) :
    numberTail hexadecimal last text <+: text := by
  induction text generalizing last with
  | nil => simp [numberTail]
  | cons c rest hypothesis =>
      unfold numberTail
      dsimp only
      split
      · exact (List.prefix_cons_inj c).2 (hypothesis c)
      · exact List.nil_prefix

/-- A literal takes a part at the start of the text. -/
theorem literalTail?_prefix
    {quote : Char}
    {text tail : List Char}
    (closed : literalTail? quote text = some tail) :
    tail <+: text := by
  fun_induction literalTail? quote text generalizing tail with
  | case1 => simp at closed
  | case2 => simp at closed
  | case3 c rest hypothesis =>
      obtain ⟨inner, found, rfl⟩ := Option.map_eq_some_iff.1 closed
      simpa using hypothesis found
  | case4 rest =>
      obtain rfl := Option.some.inj closed
      simp
  | case5 => simp at closed
  | case6 c rest _ _ _ _ hypothesis =>
      obtain ⟨inner, found, rfl⟩ := Option.map_eq_some_iff.1 closed
      simpa using hypothesis found

/-- Blanks after the start of a line leave it a start, and so does a newline. -/
theorem atLineStart_of_blankAfter
    {blankLine : Bool}
    {before text : List Char}
    (start : blankLine = true → AtLineStart before)
    (blank : blankAfter blankLine text = true) :
    AtLineStart (before ++ text) := by
  induction text generalizing blankLine before with
  | nil => simpa using start blank
  | cons c rest hypothesis =>
      have next : (c == '\n' || (blankLine && Text.isBlank c)) = true →
          AtLineStart (before ++ [c]) := by
        intro atStart
        simp only [Bool.or_eq_true, Bool.and_eq_true, beq_iff_eq] at atStart
        rcases atStart with rfl | ⟨atStart, blankChar⟩
        · exact ⟨before ++ ['\n'], [], by simp, .inr ⟨before, rfl⟩, by simp⟩
        · obtain ⟨earlier, line, rfl, starts, blanks⟩ := start atStart
          refine ⟨earlier, line ++ [c], by simp, starts, ?_⟩
          intro other member
          rcases List.mem_append.1 member with old | new
          · exact blanks other old
          · rwa [List.mem_singleton.1 new]
      simpa using hypothesis next blank

/-- A lexeme that is no token and has an end is a gap between what stands before
and after it. -/
def Lexeme.Stands (lexeme : Lexeme) (before after : List Char) : Prop :=
  match lexeme.kind with
  | .token _ => True
  | .unterminatedComment => True
  | .unterminatedLiteral => True
  | _ => Gap before lexeme.text after

/-- The lexeme at the start of a text is a part of it that is not empty. -/
theorem lexemeAt_stands
    {blankLine : Bool}
    {before : List Char}
    (start : blankLine = true → AtLineStart before)
    (c : Char)
    (rest : List Char) :
    ∃ after, c :: rest = (lexemeAt blankLine c rest).text ++ after ∧
      (lexemeAt blankLine c rest).text ≠ [] ∧
      (lexemeAt blankLine c rest).Stands before after := by
  have lexes := lexesAs_lexemeAt blankLine c rest
  generalize lexemeAt blankLine c rest = lexeme at lexes ⊢
  cases lexes with
  | blanks blank taken =>
      obtain rfl := taken
      refine ⟨rest.dropWhile Text.isBlank, by simp, by simp, ?_⟩
      apply Gap.ofBlanks
      intro other member
      rcases List.mem_cons.1 member with rfl | later
      · exact blank
      · exact List.mem_takeWhile_imp later
  | @blockComment rest inside after closed =>
      refine ⟨after, by simpa using Text.eq_append_of_splitAtWord? closed, by simp, ?_⟩
      have comment := Gap.blockComment (BlockComment.ofSplit closed)
        (Gap.nil : Gap (before ++ _) [] after)
      simpa [Lexeme.Stands] using comment
  | openComment leftOpen => exact ⟨[], by simp, by simp, trivial⟩
  | @lineComments rest text taken =>
      obtain ⟨after, whole, ends, gap⟩ := lineComments_gap blankLine
        ('/' :: '/' :: rest).length (List.forall_mem_nil _) rest before
      rw [List.nil_append, taken] at whole gap
      exact ⟨after, whole, ends.ne_nil_of_eq (by decide) whole, gap⟩
  | @directive rest text body blankBefore read =>
      obtain ⟨after, whole, joins⟩ := directive_joins ('#' :: rest).length ('#' :: rest) le_rfl
      rw [read] at whole joins
      have isText : DirectiveText text after := ⟨body, joins⟩
      obtain ⟨taken, rfl⟩ := isText.starts whole
      refine ⟨after, whole, by simp, ?_⟩
      have gap := Gap.directive (start blankBefore) (by simpa using isText)
        (Gap.nil : Gap (before ++ _) [] after)
      simpa [Lexeme.Stands] using gap
  | word start starts taken =>
      obtain rfl := taken
      exact ⟨rest.dropWhile isWordChar, by simp, by simp, trivial⟩
  | number start notWord starts taken =>
      obtain ⟨after, whole⟩ := numberTail_prefix (['0', 'x'].isPrefixOf (c :: rest)) c rest
      rw [taken] at whole
      exact ⟨after, by simp [whole], by simp, trivial⟩
  | literal start quote closed =>
      obtain ⟨after, whole⟩ := literalTail?_prefix closed
      exact ⟨after, by simp [whole], by simp, trivial⟩
  | openLiteral start quote leftOpen => exact ⟨[], by simp, by simp, trivial⟩
  | punctuator start notWord notNumber notQuote =>
      obtain ⟨after, whole⟩ := punctuatorAt_prefix c rest
      exact ⟨after, whole.symm, punctuatorAt_ne_nil c rest, trivial⟩

/-- A word starts like one, and no lexeme is the end of the input. -/
def Lexeme.Proper (lexeme : Lexeme) : Prop :=
  match lexeme.kind with
  | .token .endOfFile => False
  | .token .identifier => ∃ c tail, lexeme.text = c :: tail ∧ startsWord c = true
  | _ => True

theorem lexemeAt_proper
    (blankLine : Bool)
    (c : Char)
    (rest : List Char) :
    (lexemeAt blankLine c rest).Proper := by
  have lexes := lexesAs_lexemeAt blankLine c rest
  generalize lexemeAt blankLine c rest = lexeme at lexes ⊢
  cases lexes with
  | word start starts taken => exact ⟨c, _, rfl, starts⟩
  | literal => unfold Lexeme.Proper; split_ifs <;> trivial
  | _ => trivial

/-- Every lexeme of a text is the lexeme at some place of it. -/
theorem mem_lexemesFrom
    {blankLine : Bool}
    {length : Nat}
    {source : List Char}
    {lexeme : Lexeme}
    (member : lexeme ∈ lexemesFrom blankLine length source) :
    ∃ blankLine c rest, lexeme = lexemeAt blankLine c rest := by
  induction length generalizing blankLine source with
  | zero => simp [lexemesFrom] at member
  | succ length hypothesis =>
      cases source with
      | nil => simp [lexemesFrom] at member
      | cons c rest =>
          rcases List.mem_cons.1 member with equal | later
          · exact ⟨blankLine, c, rest, equal⟩
          · exact hypothesis later

/-! ## Tokens -/

/-- The kind and the text of the token that a lexeme becomes. -/
def Lexeme.shape? (lexeme : Lexeme) : Option (Token.Kind × String) :=
  match lexeme.kind with
  | .token kind => some (kind, String.ofList lexeme.text)
  | _ => none

/-- A lexeme is closed unless it is a comment or literal without an end. -/
def Lexeme.Closed (lexeme : Lexeme) : Prop :=
  lexeme.kind ≠ .unterminatedComment ∧ lexeme.kind ≠ .unterminatedLiteral

/-- The kind and the text of a token. -/
def Token.shape (token : Token) : Token.Kind × String :=
  (token.kind, token.text)

/-- A lexeme in front of a spelled source is its first word or belongs to its first
gap. -/
theorem Spells.lexeme
    {lexeme : Lexeme}
    {before after : List Char}
    {words : List String}
    (nonempty : lexeme.text ≠ [])
    (closed : lexeme.Closed)
    (stands : lexeme.Stands before after)
    (tail : Spells (before ++ lexeme.text) words after) :
    Spells before ((lexeme.shape?.map (·.2)).toList ++ words) (lexeme.text ++ after) := by
  obtain ⟨kind, text⟩ := lexeme
  cases kind with
  | token kind =>
      have word : Spells before (String.ofList text :: words)
          ([] ++ (String.ofList text).toList ++ after) :=
        .word (by simpa using nonempty) .nil (by simpa using tail)
      simpa [Lexeme.shape?] using word
  | unterminatedComment => exact absurd rfl closed.1
  | unterminatedLiteral => exact absurd rfl closed.2
  | blanks => exact .prepend stands tail
  | blockComment => exact .prepend stands tail
  | lineComments => exact .prepend stands tail
  | directive body => exact .prepend stands tail

/-- The texts of the token lexemes spell the source. -/
theorem lexemesFrom_spells
    {blankLine : Bool}
    {length : Nat}
    {before source : List Char}
    (start : blankLine = true → AtLineStart before)
    (enough : source.length ≤ length)
    (closed : ∀ lexeme ∈ lexemesFrom blankLine length source, lexeme.Closed) :
    Spells before
      (((lexemesFrom blankLine length source).filterMap Lexeme.shape?).map (·.2)) source := by
  induction length generalizing blankLine before source with
  | zero =>
      rw [List.length_eq_zero_iff.1 (Nat.le_zero.1 enough)]
      exact .done .nil
  | succ length hypothesis =>
      cases source with
      | nil => exact .done .nil
      | cons c rest =>
          obtain ⟨after, whole, nonempty, stands⟩ := lexemeAt_stands start c rest
          unfold lexemesFrom at closed ⊢
          dsimp only at closed ⊢
          generalize lexemeAt blankLine c rest = lexeme at closed whole nonempty stands ⊢
          have dropped : (c :: rest).drop lexeme.text.length = after := by
            rw [whole, List.drop_left]
          rw [dropped] at closed ⊢
          have less : after.length ≤ length := by
            have total := congrArg List.length whole
            have positive := List.length_pos_iff.2 nonempty
            simp only [List.length_cons, List.length_append] at total enough
            omega
          have tail := hypothesis (atLineStart_of_blankAfter start) less
            (fun other member => closed other (List.mem_cons_of_mem lexeme member))
          have spelled := Spells.lexeme nonempty (closed lexeme List.mem_cons_self) stands tail
          rw [whole]
          cases shape : lexeme.shape? <;> simpa [List.filterMap_cons, shape] using spelled

namespace LexState

/-- The kinds and texts of the tokens so far, the newest first. -/
def shapes (state : LexState) : List (Token.Kind × String) :=
  state.reversed.map Token.shape

@[simp] theorem shapes_advance (state : LexState) (text : List Char) :
    (state.advance text).shapes = state.shapes := rfl

@[simp] theorem shapes_push
    (state : LexState)
    (kind : Token.Kind)
    (text : List Char)
    (line : Nat) :
    (state.push kind text line).shapes = (kind, String.ofList text) :: state.shapes := rfl

/-- A comment changes no token's kind or text. -/
@[simp] theorem shapes_attach
    (state : LexState)
    (startLine : Nat)
    (comment : String) :
    (state.attach startLine comment).shapes = state.shapes := by
  unfold attach
  split
  · split
    · rename_i last before tokens _
      simp [shapes, tokens, Token.shape]
    · rfl
  · rfl

@[simp] theorem shapes_addComment
    (state : LexState)
    (startLine : Nat)
    (comment : Option String) :
    (state.addComment startLine comment).shapes = state.shapes := by
  cases comment with
  | none => rfl
  | some comment =>
      simp only [addComment, shapes_attach]
      split <;> rfl

@[simp] theorem shapes_applyMarker (state : LexState) (body : List Char) :
    (state.applyMarker body).shapes = state.shapes := by
  unfold applyMarker
  dsimp only
  split
  · rfl
  · split <;> rfl

/-- A lexeme that can be read is closed, and adds the token that it becomes. -/
theorem step_shapes
    {state next : LexState}
    {lexeme : Lexeme}
    (stepped : state.step lexeme = .ok next) :
    lexeme.Closed ∧ next.shapes = lexeme.shape?.toList ++ state.shapes := by
  obtain ⟨kind, text⟩ := lexeme
  cases kind with
  | token kind =>
      obtain rfl := Except.ok.inj stepped
      simp [Lexeme.Closed, Lexeme.shape?]
  | blanks =>
      obtain rfl := Except.ok.inj stepped
      simp [Lexeme.Closed, Lexeme.shape?]
  | blockComment =>
      obtain rfl := Except.ok.inj stepped
      simp [Lexeme.Closed, Lexeme.shape?]
  | lineComments =>
      obtain rfl := Except.ok.inj stepped
      simp [Lexeme.Closed, Lexeme.shape?]
  | directive body =>
      obtain rfl := Except.ok.inj stepped
      refine ⟨by simp [Lexeme.Closed], ?_⟩
      rw [shapes_applyMarker]
      rfl
  | unterminatedComment => simp [step] at stepped
  | unterminatedLiteral => simp [step] at stepped

/-- Lexemes that can be read are closed, and add the tokens that they become. -/
theorem foldlM_shapes
    {lexemes : List Lexeme}
    {state last : LexState}
    (folded : lexemes.foldlM step state = .ok last) :
    (∀ lexeme ∈ lexemes, lexeme.Closed) ∧
      last.shapes.reverse = state.shapes.reverse ++ lexemes.filterMap Lexeme.shape? := by
  induction lexemes generalizing state with
  | nil =>
      obtain rfl := Except.ok.inj folded
      simp
  | cons lexeme rest hypothesis =>
      cases stepped : state.step lexeme with
      | error error => simp [List.foldlM_cons, stepped, bind, Except.bind] at folded
      | ok next =>
          obtain ⟨closed, added⟩ := step_shapes stepped
          obtain ⟨othersClosed, whole⟩ : (∀ lexeme ∈ rest, lexeme.Closed) ∧ _ :=
            hypothesis (by simpa [List.foldlM_cons, stepped, bind, Except.bind] using folded)
          refine ⟨by simpa using ⟨closed, othersClosed⟩, ?_⟩
          rw [whole, added]
          cases shape : lexeme.shape? <;> simp [shape]

end LexState

/-- The tokens of a source are the token lexemes in order, and then the end. -/
theorem tokenize_shapes
    {source : String}
    {baseFile : Option String}
    {lexed : Lexed}
    (read : tokenize source baseFile = .ok lexed) :
    ∃ (tokens : List Token) (last : Token), lexed.tokens = tokens ++ [last] ∧
      last.shape = (.endOfFile, "") ∧
      (∀ lexeme ∈ lexemes source.toList, lexeme.Closed) ∧
      tokens.map Token.shape = (lexemes source.toList).filterMap Lexeme.shape? := by
  unfold tokenize at read
  cases folded : (lexemes source.toList).foldlM LexState.step (LexState.start baseFile) with
  | error error => simp [folded, Except.map] at read
  | ok state =>
      obtain ⟨closed, shapes⟩ := LexState.foldlM_shapes folded
      simp only [folded, Except.map, Except.ok.injEq] at read
      subst read
      refine ⟨state.reversed.reverse, _, List.reverse_cons .., rfl, closed, ?_⟩
      rw [List.map_reverse]
      exact shapes

/-- The tokens of a source that do not end it are not empty, and its words start
like words. -/
theorem tokenize_proper
    {source : List Char}
    {tokens : List Token}
    (shapes : tokens.map Token.shape = (lexemes source).filterMap Lexeme.shape?) :
    ∀ token ∈ tokens, token.kind ≠ .endOfFile ∧ token.text ≠ "" ∧
      (token.kind = .identifier →
        ∃ c tail, token.text.toList = c :: tail ∧ startsWord c = true) := by
  intro token member
  have shaped := List.mem_map_of_mem (f := Token.shape) member
  rw [shapes] at shaped
  obtain ⟨lexeme, inLexemes, becomes⟩ := List.mem_filterMap.1 shaped
  obtain ⟨blankLine, c, rest, rfl⟩ := mem_lexemesFrom inLexemes
  have proper := lexemeAt_proper blankLine c rest
  obtain ⟨-, -, nonempty, -⟩ :=
    lexemeAt_stands (fun _ : blankLine = true => atLineStart_nil) c rest
  generalize lexemeAt blankLine c rest = lexeme at becomes proper nonempty
  obtain ⟨kind, text⟩ := lexeme
  cases kind with
  | token kind =>
      obtain ⟨sameKind, sameText⟩ := Prod.mk.inj (Option.some.inj becomes)
      rw [← sameKind, ← sameText]
      have filled : String.ofList text ≠ "" := by simpa using nonempty
      clear shaped inLexemes becomes sameKind sameText nonempty
      cases kind with
      | identifier =>
          obtain ⟨first, tail, rfl, starts⟩ := proper
          exact ⟨by simp, filled, fun _ => ⟨first, tail, by simp, starts⟩⟩
      | endOfFile => exact proper.elim
      | number => exact ⟨by simp, filled, by simp⟩
      | stringLiteral => exact ⟨by simp, filled, by simp⟩
      | charLiteral => exact ⟨by simp, filled, by simp⟩
      | punctuator => exact ⟨by simp, filled, by simp⟩
  | _ => simp [Lexeme.shape?] at becomes

/-- The tokens of a source, without the end, spell it: their texts are not empty,
stand in it one after another, and leave only gaps.  The end is the last token and
has no text. -/
theorem tokenize_spells
    {source : String}
    {baseFile : Option String}
    {lexed : Lexed}
    (read : tokenize source baseFile = .ok lexed) :
    ∃ tokens last, lexed.tokens = tokens ++ [last] ∧
      (last.kind = .endOfFile ∧ last.text = "") ∧
      (∀ token ∈ tokens, token.kind ≠ .endOfFile ∧ token.text ≠ "") ∧
      Spells [] (tokens.map (·.text)) source.toList := by
  obtain ⟨tokens, last, whole, ended, closed, shapes⟩ := tokenize_shapes read
  have spelled := lexemesFrom_spells (fun _ => atLineStart_nil) le_rfl closed
  have texts : tokens.map (·.text) =
      ((lexemes source.toList).filterMap Lexeme.shape?).map (·.2) := by
    rw [← shapes, List.map_map]
    rfl
  refine ⟨tokens, last, whole, Prod.mk.inj ended, ?_, by rwa [texts]⟩
  intro token member
  obtain ⟨notEnd, nonempty, -⟩ := tokenize_proper shapes token member
  exact ⟨notEnd, nonempty⟩

theorem tokenize_spells_directive_and_comments :
    ∃ lexed, tokenize "#define N \\\n 1\nint /* c */ x;// end\n//" (some "a.h") = .ok lexed ∧
      lexed.tokens.map (·.text) = ["int", "x", ";", ""] ∧
      ∃ tokens last, lexed.tokens = tokens ++ [last] ∧
        (last.kind = .endOfFile ∧ last.text = "") ∧
        (∀ token ∈ tokens, token.kind ≠ .endOfFile ∧ token.text ≠ "") ∧
        Spells [] (tokens.map (·.text)) "#define N \\\n 1\nint /* c */ x;// end\n//".toList :=
  ⟨_, rfl, rfl, tokenize_spells rfl⟩

end Source
end DeclManual
