import DeclManual.Proofs.Source.Attachment
import DeclManual.Proofs.Source.Locality

/-!
# Sources that differ in the numbers of their line markers

Other numbers in the line markers of a source leave its lexemes as they are, apart from
the markers themselves, which still name the same files.
-/

namespace DeclManual
namespace Source

/-! ## The text of a line marker -/

/-- The text of a number in a directive, whose line may be continued between the digits,
and the digits. -/
inductive NumberText : (text digits : List Char) → Prop
  | last {c : Char} : c.isDigit = true → NumberText [c] [c]
  | digit {c : Char} {text digits : List Char} :
      c.isDigit = true → NumberText text digits → NumberText (c :: text) (c :: digits)
  | continued {text digits : List Char} :
      NumberText text digits → NumberText ('\\' :: '\n' :: text) digits

/-- What stands before the number of a line marker. -/
structure MarkerHead (head : List Char) : Prop where
  parts : ∃ marks gap word space, head = '#' :: marks ++ gap ++ word ++ space ∧
    (∀ c ∈ marks, c = '#') ∧ (∀ c ∈ gap, Text.isBlank c = true) ∧
    (word = [] ∨ word = "line".toList) ∧ ∀ c ∈ space, Text.isBlank c = true

/-- A text that may take the place of a lexeme: its own, or that of a line marker with
another number. -/
inductive Lexeme.Renumbers (lexeme : Lexeme) : List Char → Prop
  | same : lexeme.Renumbers lexeme.text
  | marker {before head number digits after tail other others : List Char} :
      lexeme = ⟨.directive (head ++ digits ++ tail), before ++ number ++ after⟩ →
      directive before.length before = (before, head) →
      MarkerHead head →
      NumberText number digits →
      (Text.word64? digits).isSome = true →
      (∀ c ∈ tail.head?, c.isDigit = false) →
      NumberText other others →
      (Text.word64? others).isSome = true →
      lexeme.Renumbers (before ++ other ++ after)

/-- A lexeme that differs in the number of a line marker at most. -/
inductive Lexeme.Similar : Lexeme → Lexeme → Prop
  | refl (lexeme : Lexeme) : Lexeme.Similar lexeme lexeme
  | marker {head digits others tail text otherText : List Char} :
      MarkerHead head →
      (Text.word64? digits).isSome = true →
      (Text.word64? others).isSome = true →
      (∀ c ∈ tail.head?, c.isDigit = false) →
      Lexeme.Similar ⟨.directive (head ++ digits ++ tail), text⟩
        ⟨.directive (head ++ others ++ tail), otherText⟩

theorem plain_of_isDigit
    {c : Char}
    (isDigit : c.isDigit = true)
    (rest : List Char) :
    Plain c rest := by
  refine ⟨?_, ?_, ?_⟩ <;> rintro rfl
  · cases isDigit
  · cases isDigit
  · cases isDigit

/-- A number in a directive stands for its digits. -/
theorem NumberText.joins
    {text digits : List Char}
    (number : NumberText text digits)
    {rest body after : List Char}
    (further : Joins rest body after) :
    Joins (text ++ rest) (digits ++ body) after := by
  induction number with
  | last isDigit => exact .character (plain_of_isDigit isDigit _) further
  | digit isDigit _ hypothesis => exact .character (plain_of_isDigit isDigit _) hypothesis
  | continued _ hypothesis => exact .continuation hypothesis

/-- A text in a directive stands for what it stands for alone, if neither slashes nor
backslashes are left of it. -/
theorem Joins.append
    {text body rest more after : List Char}
    (joins : Joins text body [])
    (noBackslash : '\\' ∉ body)
    (noSlash : '/' ∉ body)
    (further : Joins rest more after) :
    Joins (text ++ rest) (body ++ more) after := by
  generalize nothing : [] = last at joins
  induction joins with
  | stop _ => exact further
  | character plain _ hypothesis =>
      simp only [List.mem_cons, not_or] at noBackslash noSlash
      refine .character ⟨plain.notNewline, ?_, ?_⟩ (hypothesis noBackslash.2 noSlash.2 nothing)
      · exact fun isBackslash => absurd isBackslash.symm noBackslash.1
      · exact fun isSlash => absurd isSlash.symm noSlash.1
  | continuation _ hypothesis => exact .continuation (hypothesis noBackslash noSlash nothing)
  | comment closed _ hypothesis =>
      rw [List.append_assoc]
      exact .comment closed (hypothesis (fun member => noBackslash (List.mem_cons_of_mem _ member))
        (fun member => noSlash (List.mem_cons_of_mem _ member)) nothing)

/-! ## Reading a line marker -/

theorem MarkerHead.mem
    {head : List Char}
    (isHead : MarkerHead head)
    {c : Char}
    (member : c ∈ head) :
    c = '#' ∨ Text.isBlank c = true ∨ c ∈ "line".toList := by
  obtain ⟨marks, gap, word, space, rfl, areMarks, gapBlank, isWord, spaceBlank⟩ := isHead.parts
  simp only [List.cons_append, List.mem_cons, List.mem_append] at member
  rcases member with isMark | ((inMarks | inGap) | inWord) | inSpace
  · exact .inl isMark
  · exact .inl (areMarks c inMarks)
  · exact .inr (.inl (gapBlank c inGap))
  · rcases isWord with rfl | rfl
    · cases inWord
    · exact .inr (.inr inWord)
  · exact .inr (.inl (spaceBlank c inSpace))

theorem MarkerHead.ne_nil
    {before head : List Char}
    (isHead : MarkerHead head)
    (read : directive before.length before = (before, head)) :
    before ≠ [] := by
  rintro rfl
  cases read
  obtain ⟨_, _, _, _, empty, -⟩ := isHead.parts
  cases empty

/-- A number that fits a word is a run of digits. -/
theorem digits_of_word64?
    {digits : List Char}
    (fits : (Text.word64? digits).isSome = true) :
    digits ≠ [] ∧ ∀ c ∈ digits, c.isDigit = true := by
  unfold Text.word64? at fits
  split at fits
  · cases fits
  · rename_i isNumber
    simpa using isNumber

/-- What is left of a line marker before its number is read. -/
def markerWords (body : List Char) : List Char :=
  Text.trimStart (dropLead "line".toList (Text.trimStart (body.dropWhile (· == '#'))))

/-- A line marker gives its number to the line after it, and enters the file that it names. -/
theorem LexState.applyMarker_of_some
    (state : LexState)
    {body : List Char}
    {number : Nat}
    (isNumber : markerNumber? body = some number) :
    state.applyMarker body =
      { (LexState.markerFile? ((markerWords body).dropWhile Char.isDigit)).elim state
          state.enterFile with
        line := number - 1, numbered := true } := by
  have isTail : (markerWords body).drop ((markerWords body).takeWhile Char.isDigit).length =
      (markerWords body).dropWhile Char.isDigit := by
    generalize markerWords body = words
    have left : (words.takeWhile Char.isDigit ++ words.dropWhile Char.isDigit).drop
        (words.takeWhile Char.isDigit).length = words.dropWhile Char.isDigit :=
      List.drop_left
    rwa [List.takeWhile_append_dropWhile] at left
  rw [← isTail]
  unfold LexState.applyMarker
  dsimp only
  rw [show Text.word64? _ = markerNumber? body from rfl, isNumber]
  dsimp only [markerWords]
  split <;> rename_i found <;> rw [found] <;> rfl

theorem isBlank_of_isDigit
    {c : Char}
    (isDigit : c.isDigit = true) :
    Text.isBlank c = false := by
  have range : 48 ≤ c.toNat ∧ c.toNat ≤ 57 := by
    simpa [Char.isDigit, UInt32.le_iff_toNat_le] using isDigit
  simp only [Text.isBlank, Bool.or_eq_false_iff, Bool.and_eq_false_iff, decide_eq_false_iff_not,
    beq_eq_false_iff_ne]
  omega

theorem dropWhile_eq
    {p : Char -> Bool}
    {front rest : List Char}
    (all : ∀ c ∈ front, p c = true)
    (stops : ∀ c ∈ rest.head?, p c = false) :
    (front ++ rest).dropWhile p = rest := by
  rw [List.dropWhile_append_of_pos all]
  cases rest with
  | nil => rfl
  | cons c rest => rw [List.dropWhile_cons_of_neg (by simp [stops c rfl])]

/-- Blanks in front of a digit are trimmed, and nothing else is. -/
theorem trimStart_digit
    {blanks : List Char}
    (areBlank : ∀ c ∈ blanks, Text.isBlank c = true)
    {d : Char}
    (isDigit : d.isDigit = true)
    (rest : List Char) :
    Text.trimStart (blanks ++ d :: rest) = d :: rest :=
  dropWhile_eq areBlank (by simpa using isBlank_of_isDigit isDigit)

theorem dropLead_digit
    {d : Char}
    (isDigit : d.isDigit = true)
    (rest : List Char) :
    dropLead "line".toList (d :: rest) = d :: rest := by
  have absent : "line".toList.isPrefixOf? (d :: rest) = none := by
    rw [Option.eq_none_iff_forall_ne_some]
    intro more isPrefix
    rw [List.isPrefixOf?_eq_some_iff_append_eq] at isPrefix
    obtain ⟨rfl, -⟩ := List.cons.inj isPrefix
    cases isDigit
  rw [dropLead, absent, Option.getD_none]

/-- The marks of a directive end where blanks, a word or a number start. -/
theorem dropWhile_marks
    {marks gap word space rest : List Char}
    (areMarks : ∀ c ∈ marks, c = '#')
    (gapBlank : ∀ c ∈ gap, Text.isBlank c = true)
    (isWord : word = [] ∨ word = "line".toList)
    (spaceBlank : ∀ c ∈ space, Text.isBlank c = true)
    {d : Char}
    (isDigit : d.isDigit = true) :
    ('#' :: marks ++ (gap ++ (word ++ (space ++ d :: rest)))).dropWhile (· == '#') =
      gap ++ (word ++ (space ++ d :: rest)) := by
  refine dropWhile_eq (by simpa using areMarks) fun c starts => ?_
  rw [beq_eq_false_iff_ne]
  rintro rfl
  rcases gap with _ | ⟨g, gap⟩
  · rcases isWord with rfl | rfl
    · rcases space with _ | ⟨blank, space⟩
      · cases starts
        cases isDigit
      · cases starts
        cases spaceBlank '#' List.mem_cons_self
    · cases starts
  · cases starts
    cases gapBlank '#' List.mem_cons_self

theorem markerWords_of_head
    {head digits : List Char}
    (isHead : MarkerHead head)
    (fits : (Text.word64? digits).isSome = true)
    (tail : List Char) :
    markerWords (head ++ digits ++ tail) = digits ++ tail := by
  obtain ⟨nonempty, areDigits⟩ := digits_of_word64? fits
  obtain ⟨marks, gap, word, space, rfl, areMarks, gapBlank, isWord, spaceBlank⟩ := isHead.parts
  obtain ⟨d, digits, rfl⟩ := List.exists_cons_of_ne_nil nonempty
  have isDigit := areDigits d List.mem_cons_self
  have whole : '#' :: marks ++ gap ++ word ++ space ++ (d :: digits) ++ tail =
      '#' :: marks ++ (gap ++ (word ++ (space ++ d :: (digits ++ tail)))) := by simp
  unfold markerWords
  rw [whole, dropWhile_marks areMarks gapBlank isWord spaceBlank isDigit]
  rcases isWord with rfl | rfl
  · have blank := List.forall_mem_append.2 ⟨gapBlank, spaceBlank⟩
    rw [List.nil_append, ← List.append_assoc gap, trimStart_digit blank isDigit,
      dropLead_digit isDigit]
    exact trimStart_digit (List.forall_mem_nil _) isDigit _
  · have trimmed : Text.trimStart (gap ++ ("line".toList ++ (space ++ d :: (digits ++ tail)))) =
        "line".toList ++ (space ++ d :: (digits ++ tail)) := by
      refine dropWhile_eq gapBlank fun c starts => ?_
      cases starts
      decide
    rw [trimmed, dropLead, List.isPrefixOf?_eq_some_iff_append_eq.2 rfl, Option.getD_some]
    exact trimStart_digit spaceBlank isDigit _

theorem takeWhile_digits
    {digits tail : List Char}
    (fits : (Text.word64? digits).isSome = true)
    (stops : ∀ c ∈ tail.head?, c.isDigit = false) :
    (digits ++ tail).takeWhile Char.isDigit = digits := by
  rw [List.takeWhile_append_of_pos (digits_of_word64? fits).2]
  cases tail with
  | nil => simp
  | cons c tail => simp [stops c rfl]

theorem dropWhile_digits
    {digits tail : List Char}
    (fits : (Text.word64? digits).isSome = true)
    (stops : ∀ c ∈ tail.head?, c.isDigit = false) :
    (digits ++ tail).dropWhile Char.isDigit = tail := by
  rw [List.dropWhile_append_of_pos (digits_of_word64? fits).2]
  cases tail with
  | nil => rfl
  | cons c tail => simp [stops c rfl]

/-- A line marker moves the line to its number, and enters the file that it names. -/
theorem applyMarker_of_head
    (state : LexState)
    {head digits tail : List Char}
    (isHead : MarkerHead head)
    (fits : (Text.word64? digits).isSome = true)
    (stops : ∀ c ∈ tail.head?, c.isDigit = false) :
    ∃ number, markerNumber? (head ++ digits ++ tail) = some number ∧
      state.applyMarker (head ++ digits ++ tail) =
        { (LexState.markerFile? tail).elim state state.enterFile with
          line := number - 1, numbered := true } := by
  have words := markerWords_of_head isHead fits tail
  have isNumber : markerNumber? (head ++ digits ++ tail) = Text.word64? digits := by
    change Text.word64? ((markerWords (head ++ digits ++ tail)).takeWhile Char.isDigit) = _
    rw [words, takeWhile_digits fits stops]
  obtain ⟨number, found⟩ := Option.isSome_iff_exists.1 fits
  refine ⟨number, by rw [isNumber, found], ?_⟩
  rw [state.applyMarker_of_some (isNumber.trans found), words, dropWhile_digits fits stops]

/-! ## Lexemes of a renumbered source -/

theorem blankAfter_append
    (blankLine : Bool)
    (text rest : List Char) :
    blankAfter blankLine (text ++ rest) = blankAfter (blankAfter blankLine text) rest := by
  induction text generalizing blankLine with
  | nil => rfl
  | cons c text hypothesis => exact hypothesis _

/-- A line is not blank after a number. -/
theorem NumberText.blankAfter
    {text digits : List Char}
    (number : NumberText text digits)
    (blankLine : Bool) :
    blankAfter blankLine text = false := by
  have notBlank {c : Char} (isDigit : c.isDigit = true) (blankLine : Bool) :
      (c == '\n' || (blankLine && Text.isBlank c)) = false := by
    have notNewline : c ≠ '\n' := by rintro rfl; cases isDigit
    rw [isBlank_of_isDigit isDigit, Bool.and_false, Bool.or_false, beq_eq_false_iff_ne]
    exact notNewline
  induction number generalizing blankLine with
  | last isDigit => rw [Source.blankAfter, notBlank isDigit, Source.blankAfter]
  | digit isDigit _ hypothesis => rw [Source.blankAfter, hypothesis]
  | continued _ hypothesis => rw [Source.blankAfter, Source.blankAfter, hypothesis]

/-- A number neither closes a comment nor helps to. -/
theorem NumberText.closes
    {text digits : List Char}
    (number : NumberText text digits)
    (rest : List Char) :
    (['*', '/'] <:+: text ++ rest ↔ ['*', '/'] <:+: rest) ∧ (text ++ rest).head? ≠ some '/' := by
  have notStar {c : Char} (isDigit : c.isDigit = true) : '*' ≠ c ∧ some c ≠ some '/' := by
    constructor
    · rintro rfl
      cases isDigit
    · intro same
      cases same
      cases isDigit
  induction number with
  | last isDigit =>
      rw [List.singleton_append, List.infix_cons_iff, List.cons_prefix_cons, List.head?_cons]
      simp [notStar isDigit]
  | digit isDigit _ hypothesis =>
      rw [List.cons_append, List.infix_cons_iff, List.cons_prefix_cons, List.head?_cons]
      simp [notStar isDigit, hypothesis.1]
  | continued _ hypothesis =>
      simp [List.infix_cons_iff, List.cons_prefix_cons, hypothesis.1]

/-- Every line marker is a directive at the start of a line. -/
theorem directive_of_lexemeAt
    {blankLine : Bool}
    {c : Char}
    {rest body text : List Char}
    (isDirective : lexemeAt blankLine c rest = ⟨.directive body, text⟩) :
    c = '#' ∧ blankLine = true ∧ directive (c :: rest).length (c :: rest) = (text, body) := by
  have lexes := lexesAs_lexemeAt blankLine c rest
  rw [isDirective] at lexes
  cases lexes with
  | directive blankBefore read => exact ⟨rfl, blankBefore, read⟩

/-- A line marker with another number is a line marker in its place. -/
theorem lexemeAt_renumbered
    {before head number digits after tail other others rest next : List Char}
    (isBefore : directive before.length before = (before, head))
    (isHead : MarkerHead head)
    (isNumber : NumberText number digits)
    (isOther : NumberText other others)
    {c : Char}
    {text : List Char}
    {blankLine : Bool}
    (whole : c :: text = before ++ number ++ after ++ rest)
    (isLexeme : lexemeAt blankLine c text =
      ⟨.directive (head ++ digits ++ tail), before ++ number ++ after⟩)
    (sameHead : rest.head? = next.head?)
    (closes : ['*', '/'] <:+: rest ↔ ['*', '/'] <:+: next) :
    ∃ text, before ++ other ++ after ++ next = c :: text ∧
      lexemeAt blankLine c text =
        ⟨.directive (head ++ others ++ tail), before ++ other ++ after⟩ := by
  obtain ⟨rfl, rfl, isRead⟩ := directive_of_lexemeAt isLexeme
  have noBackslash : '\\' ∉ head := by
    intro member
    rcases isHead.mem member with isMark | blank | letter
    · cases isMark
    · cases blank
    · exact absurd letter (by decide)
  have noSlash : '/' ∉ head := by
    intro member
    rcases isHead.mem member with isMark | blank | letter
    · cases isMark
    · cases blank
    · exact absurd letter (by decide)
  have joinsBefore : Joins before head [] := by
    have read : directive before.length (before ++ []) = (before, head) := by
      rwa [List.append_nil]
    exact joins_of_directive read (by simp)
  -- how the text before the number and the number are read, whatever comes after them
  have around {number digits text body last : List Char} (isNumber : NumberText number digits)
      (further : Joins text body last) :
      Joins (before ++ (number ++ text)) (head ++ (digits ++ body)) last :=
    joinsBefore.append noBackslash noSlash (isNumber.joins further)
  have isAfter : Joins after tail rest := by
    obtain ⟨last, isRest, further⟩ := directive_joins _ (after ++ rest) le_rfl
    generalize directive (after ++ rest).length (after ++ rest) = parts at isRest further
    obtain ⟨taken, body⟩ := parts
    have sameText : before ++ (number ++ taken) ++ last = '#' :: text := by
      simpa [whole] using isRest.symm
    have again := (around isNumber further).directive_eq le_rfl
    rw [sameText, isRead] at again
    obtain ⟨isText, isBody⟩ := Prod.mk.inj again
    obtain rfl : after = taken := by simpa using isText
    obtain rfl : tail = body := by simpa using isBody
    rwa [List.append_cancel_left isRest]
  have stillAfter := isAfter.local sameHead closes
  obtain ⟨d, before, rfl⟩ := List.exists_cons_of_ne_nil (isHead.ne_nil isBefore)
  obtain rfl : '#' = d := (List.cons.inj whole).1
  refine ⟨before ++ other ++ after ++ next, rfl, ?_⟩
  have read := (around isOther stillAfter).directive_eq le_rfl
  have sameText : '#' :: before ++ (other ++ after) ++ next =
      '#' :: (before ++ other ++ after ++ next) := by simp
  rw [sameText] at read
  rw [lexemeAt_mark, read]
  simp

/-- Texts that start alike are alike for the first two characters. -/
theorem take_two_append
    {text after other : List Char}
    (nonempty : text ≠ [])
    (head : after.head? = other.head?) :
    (text ++ after).take 2 = (text ++ other).take 2 := by
  obtain ⟨c, text, rfl⟩ := List.exists_cons_of_ne_nil nonempty
  rw [List.cons_append, List.cons_append, List.take_succ_cons, List.take_succ_cons,
    List.take_one, List.take_one, List.head?_append, List.head?_append, head]

/-- Whether a line comment comes after a newline and blanks depends on the blanks and on
what comes after them. -/
theorem commentGoesOn_blanks
    {blanks after other : List Char}
    (areBlanks : ∀ c ∈ blanks, Text.isBlank c = true)
    (stops : ∀ c ∈ after.head?, Text.isBlank c = false)
    (head : after.head? = other.head?)
    (slashes : ['/', '/'] <+: after ↔ ['/', '/'] <+: other) :
    commentGoesOn ('\n' :: (blanks ++ after)) = commentGoesOn ('\n' :: (blanks ++ other)) := by
  have kept {text : List Char} (stops : ∀ c ∈ text.head?, Text.isBlank c = false) :
      text.dropWhile (fun c => c == ' ' || c == '\t') = text := by
    refine dropWhile_eq (List.forall_mem_nil _) fun c starts => ?_
    have notBlank := stops c starts
    rw [Bool.or_eq_false_iff, beq_eq_false_iff_ne, beq_eq_false_iff_ne]
    constructor <;> rintro rfl <;> cases notBlank
  have stopsOther : ∀ c ∈ other.head?, Text.isBlank c = false := by rwa [← head]
  simp only [commentGoesOn]
  rw [List.dropWhile_append, List.dropWhile_append, kept stops, kept stopsOther,
    Bool.eq_iff_iff, List.isPrefixOf_iff_prefix, List.isPrefixOf_iff_prefix]
  split
  · exact slashes
  · rename_i left
    -- the blank that is left is no slash
    have notSlash (text : List Char) :
        ¬ ['/', '/'] <+: blanks.dropWhile (fun c => c == ' ' || c == '\t') ++ text := by
      cases isLeft : blanks.dropWhile (fun c => c == ' ' || c == '\t') with
      | nil => exact absurd (by rw [isLeft]; rfl) left
      | cons c rest =>
          have blank : Text.isBlank c = true := by
            have suffix : c :: rest <:+ blanks := by
              rw [← isLeft]
              exact List.dropWhile_suffix _
            exact areBlanks c (suffix.subset List.mem_cons_self)
          rw [List.cons_append, List.cons_prefix_cons]
          rintro ⟨rfl, -⟩
          cases blank
    exact iff_of_false (notSlash after) (notSlash other)

theorem commentGoesOn_of_ne
    {c : Char}
    (notNewline : c ≠ '\n')
    (rest : List Char) :
    commentGoesOn (c :: rest) = false := by
  unfold commentGoesOn
  split
  · rename_i isNewline
    exact absurd (List.cons.inj isNewline).1 notNewline
  · rfl

/-- Whether a line comment comes after a text that starts with a lexeme depends on what
comes after the lexeme. -/
theorem commentGoesOn_lexeme
    {blankLine : Bool}
    {c : Char}
    {rest after other : List Char}
    (whole : c :: rest = (lexemeAt blankLine c rest).text ++ after)
    (nonempty : (lexemeAt blankLine c rest).text ≠ [])
    (head : after.head? = other.head?)
    (slashes : ['/', '/'] <+: after ↔ ['/', '/'] <+: other) :
    commentGoesOn ((lexemeAt blankLine c rest).text ++ after) =
      commentGoesOn ((lexemeAt blankLine c rest).text ++ other) := by
  by_cases newline : c = '\n'
  · subst newline
    have isLexeme : lexemeAt blankLine '\n' rest = ⟨.blanks, '\n' :: rest.takeWhile Text.isBlank⟩ :=
      rfl
    rw [isLexeme] at whole ⊢
    have isAfter : after = rest.dropWhile Text.isBlank := by
      have parts := @List.takeWhile_append_dropWhile _ Text.isBlank rest
      exact List.append_cancel_left ((List.cons.inj whole).2.symm.trans parts.symm)
    refine commentGoesOn_blanks (fun d member => List.mem_takeWhile_imp member) ?_ head slashes
    intro d starts
    rw [isAfter] at starts
    have notBlank := List.head?_dropWhile_not Text.isBlank rest
    rw [starts] at notBlank
    exact notBlank
  · obtain ⟨d, text, isText⟩ := List.exists_cons_of_ne_nil nonempty
    rw [isText] at whole ⊢
    obtain rfl : c = d := (List.cons.inj whole).1
    rw [List.cons_append, List.cons_append, commentGoesOn_of_ne newline,
      commentGoesOn_of_ne newline]

/-- A source with other numbers in its line markers starts alike. -/
theorem alike_of_renumbers
    {blankLine : Bool}
    {length : Nat}
    {source : List Char}
    {texts : List (List Char)}
    (enough : source.length ≤ length)
    (renumbers : List.Forall₂ Lexeme.Renumbers (lexemesFrom blankLine length source) texts) :
    Alike blankLine source texts.flatten ∧
      (['/', '/'] <+: source ↔ ['/', '/'] <+: texts.flatten) := by
  induction length generalizing blankLine source texts with
  | zero =>
      obtain rfl := List.length_eq_zero_iff.1 (Nat.le_zero.1 enough)
      cases renumbers
      exact ⟨⟨rfl, fun _ => rfl, rfl, Iff.rfl⟩, Iff.rfl⟩
  | succ length hypothesis =>
      cases source with
      | nil =>
          cases renumbers
          exact ⟨⟨rfl, fun _ => rfl, rfl, Iff.rfl⟩, Iff.rfl⟩
      | cons c rest =>
          obtain ⟨after, whole, nonempty, less, lexemes⟩ := lexemesFrom_cons blankLine enough
          rw [lexemes] at renumbers
          cases renumbers with
          | @cons _ text _ texts first others =>
              obtain ⟨alike, slashes⟩ := hypothesis less others
              rw [List.flatten_cons]
              cases first with
              | same =>
                  have pair := take_two_append nonempty alike.head
                  have goesOn := commentGoesOn_lexeme whole nonempty alike.head slashes
                  generalize lexemeAt blankLine c rest = lexeme at whole pair goesOn ⊢
                  rw [whole]
                  refine ⟨⟨?_, fun _ => pair, goesOn, ?_⟩, ?_⟩
                  · rw [List.head?_append, List.head?_append, alike.head]
                  · exact closes_append (by rw [alike.head]) alike.closes lexeme.text
                  · have two (text : List Char) :
                        ['/', '/'] <+: text ↔ ['/', '/'] <+: text.take 2 := by
                      simp [List.prefix_take_iff]
                    rw [two, pair, ← two]
              | @marker before head number digits last tail other others isText isBefore isHead
                  isNumber fits stops isOther otherFits =>
                  obtain ⟨rfl, rfl, -⟩ := directive_of_lexemeAt isText
                  obtain ⟨d, before, rfl⟩ := List.exists_cons_of_ne_nil (isHead.ne_nil isBefore)
                  rw [isText] at whole
                  obtain rfl : '#' = d := (List.cons.inj whole).1
                  rw [whole]
                  refine ⟨⟨rfl, (by simp), ?_, ?_⟩, ?_⟩
                  · exact (commentGoesOn_of_ne (by decide) _).trans
                      (commentGoesOn_of_ne (by decide) _).symm
                  · simp only [List.append_assoc]
                    refine closes_append ?_ ?_ ('#' :: before)
                    · exact iff_of_false (isNumber.closes _).2 (isOther.closes _).2
                    · rw [(isNumber.closes _).1, (isOther.closes _).1]
                      exact closes_append (by rw [alike.head]) alike.closes last
                  · simp [List.cons_prefix_cons]

/-- A source with other numbers in its line markers has the same lexemes, apart from
them. -/
theorem lexemesFrom_similar
    {blankLine : Bool}
    {length others : Nat}
    {source : List Char}
    {texts : List (List Char)}
    (enough : source.length ≤ length)
    (enoughOthers : texts.flatten.length ≤ others)
    (renumbers : List.Forall₂ Lexeme.Renumbers (lexemesFrom blankLine length source) texts) :
    List.Forall₂ Lexeme.Similar (lexemesFrom blankLine length source)
      (lexemesFrom blankLine others texts.flatten) := by
  induction length generalizing blankLine source texts others with
  | zero =>
      obtain rfl := List.length_eq_zero_iff.1 (Nat.le_zero.1 enough)
      cases renumbers
      cases others <;> exact .nil
  | succ length hypothesis =>
      cases source with
      | nil =>
          cases renumbers
          cases others <;> exact .nil
      | cons c rest =>
          obtain ⟨after, whole, nonempty, less, lexemes⟩ := lexemesFrom_cons blankLine enough
          rw [lexemes] at renumbers ⊢
          cases renumbers with
          | @cons _ text _ texts first following =>
              obtain ⟨alike, -⟩ := alike_of_renumbers less following
              rw [List.flatten_cons] at enoughOthers ⊢
              cases first with
              | same =>
                  obtain ⟨d, text, isText⟩ := List.exists_cons_of_ne_nil nonempty
                  rw [isText] at whole enoughOthers
                  obtain ⟨rfl, rfl⟩ : c = d ∧ rest = text ++ after := List.cons.inj whole
                  cases others with
                  | zero => simp at enoughOthers
                  | succ others =>
                      have isLexeme : lexemeAt blankLine c (text ++ texts.flatten) =
                          lexemeAt blankLine c (text ++ after) := by
                        refine lexemeAt_local isText ?_
                        rwa [← isText]
                      rw [show (lexemeAt blankLine c (text ++ after)).text ++ texts.flatten =
                          c :: (text ++ texts.flatten) by rw [isText]; rfl,
                        lexemesFrom_of_lexemeAt isLexeme (by rw [isText]; rfl)]
                      refine .cons (.refl _) (hypothesis less ?_ following)
                      simp at enoughOthers ⊢
                      omega
              | @marker before head number digits last tail other newDigits isText isBefore isHead
                  isNumber fits stops isOther otherFits =>
                  rw [isText] at whole following ⊢
                  obtain ⟨more, isMore, isLexeme⟩ := lexemeAt_renumbered isBefore isHead isNumber
                    isOther whole isText alike.head alike.closes
                  rw [isMore] at enoughOthers ⊢
                  cases others with
                  | zero => simp at enoughOthers
                  | succ others =>
                      rw [lexemesFrom_of_lexemeAt isLexeme isMore.symm]
                      refine .cons (.marker isHead fits otherFits stops) ?_
                      have sameBlank : blankAfter blankLine (before ++ other ++ last) =
                          blankAfter blankLine (before ++ number ++ last) := by
                        simp only [blankAfter_append, isNumber.blankAfter, isOther.blankAfter]
                      rw [sameBlank]
                      refine hypothesis less ?_ following
                      have positive := List.length_pos_iff.2 (isHead.ne_nil isBefore)
                      rw [← isMore] at enoughOthers
                      simp only [List.length_append] at enoughOthers
                      omega

theorem lexemes_similar
    {source : List Char}
    {texts : List (List Char)}
    (renumbers : List.Forall₂ Lexeme.Renumbers (lexemes source) texts) :
    List.Forall₂ Lexeme.Similar (lexemes source) (lexemes texts.flatten) :=
  lexemesFrom_similar le_rfl le_rfl renumbers

end Source
end DeclManual
