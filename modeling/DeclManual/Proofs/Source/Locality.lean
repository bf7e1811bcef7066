import DeclManual.Proofs.Source.Spelling
import Mathlib.Data.List.Find

/-!
# Lexemes look ahead little

The lexeme at the start of a text depends on its own text and on little of what comes
after it: on the next character, on the one after that if the line is not blank, on
whether a run of line comments goes on, and on whether a comment that is left open in a
directive is closed anywhere.  Texts that agree in this may take each other's place.
-/

namespace DeclManual

namespace Source

/-! ## Scans -/

theorem takeWhile_local
    {p : Char -> Bool}
    {text after other : List Char}
    (taken : (text ++ after).takeWhile p = text)
    (head : after.head? = other.head?) :
    (text ++ other).takeWhile p = text := by
  have all : ∀ c ∈ text, p c = true := by
    rw [← taken]
    exact fun c member => List.mem_takeWhile_imp member
  rw [List.takeWhile_append_of_pos all] at taken ⊢
  have stops : after.takeWhile p = [] := by simpa using taken
  have stillStops : other.takeWhile p = [] := by
    cases after with
    | nil => rw [List.head?_eq_none_iff.1 head.symm, List.takeWhile_nil]
    | cons c rest =>
        obtain ⟨more, rfl⟩ := List.head?_eq_some_iff.1 head.symm
        cases holds : p c <;> simp_all
  rw [stillStops, List.append_nil]

theorem numberTail_local
    {hexadecimal : Bool}
    {last : Char}
    {text after other : List Char}
    (taken : numberTail hexadecimal last (text ++ after) = text)
    (head : after.head? = other.head?) :
    numberTail hexadecimal last (text ++ other) = text := by
  induction text generalizing last with
  | nil =>
      cases after with
      | nil => rw [List.head?_eq_none_iff.1 head.symm]; rfl
      | cons c rest =>
          obtain ⟨more, rfl⟩ := List.head?_eq_some_iff.1 head.symm
          simp only [List.nil_append, numberTail] at taken ⊢
          split at taken
          · cases taken
          · rename_i stops
            rw [if_neg stops]
  | cons c text hypothesis =>
      simp only [List.cons_append, numberTail] at taken ⊢
      split at taken
      · rename_i goesOn
        rw [if_pos goesOn, hypothesis (List.cons.inj taken).2]
      · cases taken

/-- A character of a literal that is no backslash ends it or stands for itself. -/
theorem literalTail?_cons
    {c : Char}
    (notBackslash : c ≠ '\\')
    (quote : Char)
    (rest : List Char) :
    literalTail? quote (c :: rest) =
      if c = quote then some [c] else if c = '\n' then none
      else (literalTail? quote rest).map (c :: ·) := by
  rw [literalTail?.eq_def]
  split
  · rename_i empty
    cases empty
  · rename_i isBackslash
    exact absurd (List.cons.inj isBackslash).1 notBackslash
  · rename_i isBackslash
    exact absurd (List.cons.inj isBackslash).1 notBackslash
  · rename_i same
    cases same
    rfl

/-- A closed literal does not depend on what comes after it. -/
theorem literalTail?_append
    {quote : Char}
    {text tail : List Char}
    (notBackslash : quote ≠ '\\')
    (closed : literalTail? quote text = some tail)
    (other : List Char) :
    literalTail? quote (tail ++ other) = some tail := by
  fun_induction literalTail? quote text generalizing tail with
  | case1 => cases closed
  | case2 => cases closed
  | case3 c rest hypothesis =>
      obtain ⟨inner, found, rfl⟩ := Option.map_eq_some_iff.1 closed
      rw [List.cons_append, List.cons_append, literalTail?, hypothesis found]
      rfl
  | case4 =>
      cases closed
      rw [List.singleton_append, literalTail?_cons notBackslash, if_pos rfl]
  | case5 => cases closed
  | case6 c rest single pair notQuote notNewline hypothesis =>
      obtain ⟨inner, found, rfl⟩ := Option.map_eq_some_iff.1 closed
      have notBackslash : c ≠ '\\' := by
        rintro rfl
        cases rest with
        | nil => exact single rfl rfl
        | cons d rest => exact pair d rest rfl rfl
      rw [List.cons_append, literalTail?_cons notBackslash, if_neg notQuote, if_neg notNewline,
        hypothesis found]
      rfl

/-! ## Line comments -/

/-- Whether the next line holds a line comment and nothing before it. -/
def commentGoesOn (after : List Char) : Bool :=
  match after with
  | '\n' :: next => ['/', '/'].isPrefixOf (next.dropWhile fun c => c == ' ' || c == '\t')
  | _ => false

theorem lineComments_succ
    (merge : Bool)
    (lines : Nat)
    (text : List Char) :
    lineComments merge (lines + 1) text =
      Text.firstLine text ++
        if merge && commentGoesOn (text.drop (Text.firstLine text).length) then
          '\n' :: lineComments merge lines
            ((text.drop (Text.firstLine text).length).drop 1)
        else [] := by
  rw [lineComments]
  unfold commentGoesOn
  generalize text.drop (Text.firstLine text).length = after
  split
  · rw [apply_ite (Text.firstLine text ++ ·), List.append_nil]
    rfl
  · simp

/-- A run of line comments takes at least its first line. -/
theorem firstLine_prefix_lineComments
    (merge : Bool)
    (lines : Nat)
    (text : List Char) :
    Text.firstLine text <+: lineComments merge lines text := by
  cases lines with
  | zero => exact List.prefix_refl _
  | succ lines =>
      rw [lineComments_succ]
      exact List.prefix_append _ _

theorem firstLine_append_newline
    {line : List Char}
    (oneLine : '\n' ∉ line)
    (rest : List Char) :
    Text.firstLine (line ++ '\n' :: rest) = line := by
  unfold Text.firstLine
  rw [List.takeWhile_append_of_pos]
  · simp
  · intro c member
    simpa using ne_of_mem_of_not_mem member oneLine

/-- A line comment on the next line is an indent and what starts with two slashes. -/
theorem commentGoesOn_iff
    (after : List Char) :
    commentGoesOn after = true ↔
      ∃ indent body, (∀ c ∈ indent, c = ' ' ∨ c = '\t') ∧
        after = '\n' :: (indent ++ '/' :: '/' :: body) := by
  constructor
  · intro goesOn
    unfold commentGoesOn at goesOn
    split at goesOn
    · rename_i next
      obtain ⟨body, starts⟩ := List.isPrefixOf_iff_prefix.1 goesOn
      refine ⟨next.takeWhile fun c => c == ' ' || c == '\t', body, ?_, ?_⟩
      · intro c member
        simpa using List.mem_takeWhile_imp member
      · rw [show '/' :: '/' :: body = ['/', '/'] ++ body from rfl, starts,
          List.takeWhile_append_dropWhile]
    · cases goesOn
  · rintro ⟨indent, body, indented, rfl⟩
    have dropped : (indent ++ '/' :: '/' :: body).dropWhile (fun c => c == ' ' || c == '\t') =
        '/' :: '/' :: body := by
      rw [List.dropWhile_append_of_pos]
      · rfl
      · intro c member
        simpa using indented c member
    simp [commentGoesOn, dropped]

/-- A run of line comments depends on what comes after it only in whether that goes on. -/
theorem lineComments_local
    {merge : Bool}
    {lines others : Nat}
    {text after other : List Char}
    (nonempty : text ≠ [])
    (taken : lineComments merge lines (text ++ after) = text)
    (few : text.length ≤ lines)
    (enough : text.length ≤ others)
    (head : after.head? = other.head?)
    (goesOn : commentGoesOn after = commentGoesOn other) :
    lineComments merge others (text ++ other) = text := by
  induction lines generalizing text others with
  | zero => exact absurd (List.length_eq_zero_iff.1 (Nat.le_zero.1 few)) nonempty
  | succ lines hypothesis =>
      cases others with
      | zero => exact absurd (List.length_eq_zero_iff.1 (Nat.le_zero.1 enough)) nonempty
      | succ others =>
          obtain ⟨rest, whole, ends, oneLine⟩ := firstLine_split (text ++ after)
          rw [lineComments_succ] at taken ⊢
          generalize isFirst : Text.firstLine (text ++ after) = first at taken whole oneLine
          have dropped : (text ++ after).drop first.length = rest := by rw [whole, List.drop_left]
          rw [dropped] at taken
          split at taken
          · rename_i merged
            rw [Bool.and_eq_true] at merged
            obtain ⟨indent, body, indented, rfl⟩ := (commentGoesOn_iff rest).1 merged.2
            rw [List.drop_one, List.tail_cons] at taken
            -- the rest of the run is a run of its own, and holds its first line
            have ⟨more, isMore⟩ : Text.firstLine (indent ++ '/' :: '/' :: body) <+:
                lineComments merge lines (indent ++ '/' :: '/' :: body) :=
              firstLine_prefix_lineComments _ _ _
            rw [firstLine_lineComment indented] at isMore
            generalize isRun : lineComments merge lines (indent ++ '/' :: '/' :: body) = run
              at taken isMore
            subst taken
            have isNext : indent ++ '/' :: '/' :: body = run ++ after := by
              simpa using whole.symm
            have still : lineComments merge others (run ++ other) = run := by
              simp only [List.length_append, List.length_cons] at few enough
              refine hypothesis ?_ (by rw [← isNext, isRun]) (by omega) (by omega)
              rw [← isMore]
              simp
            have next : commentGoesOn ('\n' :: (run ++ other)) = true := by
              refine (commentGoesOn_iff _).2 ⟨indent, Text.firstLine body ++ more ++ other,
                indented, ?_⟩
              rw [← isMore]
              simp
            rw [List.append_assoc, List.cons_append, firstLine_append_newline oneLine,
              List.drop_left, if_pos (by rw [merged.1, next]; rfl), List.drop_one, List.tail_cons,
              still]
          · rename_i stops
            rw [List.append_nil] at taken
            subst taken
            rw [List.append_cancel_left_eq] at whole
            rw [← whole, goesOn] at stops
            have stillFirst : Text.firstLine (first ++ other) = first :=
              takeWhile_local isFirst head
            rw [stillFirst, List.drop_left, if_neg stops, List.append_nil]

/-! ## Directives -/

/-- What may come after an open comment in a directive: whether it is closed depends on
the first character after a stretch of text, and on what comes later. -/
theorem closes_append
    {after other : List Char}
    (slash : after.head? = some '/' ↔ other.head? = some '/')
    (closes : ['*', '/'] <:+: after ↔ ['*', '/'] <:+: other)
    (text : List Char) :
    ['*', '/'] <:+: text ++ after ↔ ['*', '/'] <:+: text ++ other := by
  induction text with
  | nil => exact closes
  | cons c text hypothesis =>
      have second : ['/'] <+: text ++ after ↔ ['/'] <+: text ++ other := by
        cases text with
        | nil => simpa [List.singleton_prefix_iff_head?_eq_some] using slash
        | cons d text => simp
      rw [List.cons_append, List.cons_append, List.infix_cons_iff, List.infix_cons_iff, hypothesis,
        List.cons_prefix_cons, List.cons_prefix_cons, second]

theorem EndsLine.of_head?
    {after other : List Char}
    (ends : EndsLine after)
    (head : after.head? = other.head?) :
    EndsLine other := by
  rcases ends with rfl | ⟨more, rfl⟩
  · exact .inl (List.head?_eq_none_iff.1 head.symm)
  · exact .inr (List.head?_eq_some_iff.1 head.symm)

/-- A character of a directive stands for itself whatever comes after the directive. -/
theorem Plain.local
    {c : Char}
    {text after other : List Char}
    (plain : Plain c (text ++ after))
    (ends : text = [] -> EndsLine after)
    (head : after.head? = other.head?)
    (closes : ['*', '/'] <:+: after ↔ ['*', '/'] <:+: other) :
    Plain c (text ++ other) := by
  have sameHead : (text ++ other).head? = (text ++ after).head? := by
    rw [List.head?_append, List.head?_append, head]
  refine ⟨plain.notNewline, ?_, ?_⟩
  · rw [sameHead]
    exact plain.notContinued
  · rw [sameHead]
    intro isSlash isStar
    have leftOpen := plain.notComment isSlash isStar
    cases text with
    | nil =>
        rcases ends rfl with rfl | ⟨more, rfl⟩
        · cases isStar
        · cases isStar
    | cons d text =>
        have slash : after.head? = some '/' ↔ other.head? = some '/' := by rw [head]
        rw [List.cons_append, List.drop_one, List.tail_cons] at leftOpen ⊢
        rwa [← closes_append slash closes text]

/-- Text that stands for nothing stands at the end of its line. -/
theorem Joins.endsLine
    {body after : List Char}
    (joins : Joins [] body after) :
    EndsLine after := by
  generalize isEmpty : [] = text at joins
  cases joins with
  | stop ends => exact ends
  | character _ _ => cases isEmpty
  | continuation _ => cases isEmpty
  | comment closed _ =>
      obtain ⟨inside, -, rfl⟩ := closed
      cases isEmpty

/-- A directive depends on the character after it, and on whether an open comment is
closed later. -/
theorem Joins.local
    {text body after other : List Char}
    (joins : Joins text body after)
    (head : after.head? = other.head?)
    (closes : ['*', '/'] <:+: after ↔ ['*', '/'] <:+: other) :
    Joins text body other := by
  induction joins with
  | stop ends => exact .stop (ends.of_head? head)
  | character plain further hypothesis =>
      refine .character (plain.local ?_ head closes) (hypothesis head closes)
      rintro rfl
      exact further.endsLine
  | continuation _ hypothesis => exact .continuation (hypothesis head closes)
  | comment closed _ hypothesis => exact .comment closed (hypothesis head closes)

/-! ## Lexemes -/

/-- Two texts that may come after the same lexeme, by whether the line is blank so far. -/
structure Alike (blankLine : Bool) (after other : List Char) : Prop where
  head : after.head? = other.head?
  pair : blankLine = false -> after.take 2 = other.take 2
  goesOn : commentGoesOn after = commentGoesOn other
  closes : ['*', '/'] <:+: after ↔ ['*', '/'] <:+: other

/-- A line on which something stands is not blank as long as it goes on. -/
theorem blankAfter_of_not_mem
    {text : List Char}
    (oneLine : '\n' ∉ text) :
    blankAfter false text = false := by
  induction text with
  | nil => rfl
  | cons c text hypothesis =>
      rw [List.mem_cons, not_or] at oneLine
      have same : (c == '\n') = false := by simpa using Ne.symm oneLine.1
      rw [blankAfter, same]
      exact hypothesis oneLine.2

theorem take_append_congr
    {after other : List Char}
    {count : Nat}
    (text : List Char)
    (same : after.take count = other.take count) :
    (text ++ after).take count = (text ++ other).take count := by
  have fewer : after.take (count - text.length) = other.take (count - text.length) := by
    have taken := congrArg (List.take (count - text.length)) same
    rwa [List.take_take, List.take_take, Nat.min_eq_left (Nat.sub_le _ _)] at taken
  rw [List.take_append, List.take_append, fewer]

/-- The punctuator at the start of a text depends on three characters. -/
theorem punctuatorAt_congr
    {c : Char}
    {rest other : List Char}
    (same : (c :: rest).take 3 = (c :: other).take 3) :
    punctuatorAt c rest = punctuatorAt c other := by
  have short : ∀ word ∈ longPunctuators, word.toList.length ≤ 3 := by decide
  have starts {word : String} (listed : word ∈ longPunctuators) (text : List Char) :
      word.toList <+: text ↔ word.toList <+: text.take 3 := by
    rw [List.prefix_take_iff, and_iff_left (short word listed)]
  unfold punctuatorAt
  congr 2
  refine List.find?_congr fun word listed => ?_
  rw [Bool.eq_iff_iff, List.isPrefixOf_iff_prefix, List.isPrefixOf_iff_prefix, starts listed,
    starts listed (c :: other), same]

/-- A punctuator stands on one line. -/
theorem not_mem_of_punctuatorAt
    {c : Char}
    {rest text : List Char}
    (taken : punctuatorAt c rest = c :: text) :
    '\n' ∉ text := by
  have oneLine : ∀ word ∈ longPunctuators, '\n' ∉ word.toList := by decide
  intro newline
  rcases punctuatorAt_cases c rest with single | ⟨word, listed, -, isWord⟩
  · rw [single] at taken
    rw [← (List.cons.inj taken).2] at newline
    exact List.not_mem_nil newline
  · refine oneLine word listed ?_
    rw [← isWord, taken]
    exact List.mem_cons_of_mem c newline

theorem StartsToken.blankAfter_of_not_mem
    {blankLine : Bool}
    {c : Char}
    {rest text : List Char}
    (start : StartsToken blankLine c rest)
    (oneLine : '\n' ∉ text) :
    blankAfter blankLine (c :: text) = false := by
  have notNewline : c ≠ '\n' := by
    rintro rfl
    exact absurd start.notBlank (by decide)
  rw [blankAfter, start.notBlank, Bool.and_false, Bool.or_false, beq_eq_false_iff_ne.2 notNewline]
  exact Source.blankAfter_of_not_mem oneLine

/-- The rule for a text stays the same if what comes after the lexeme is replaced by what is
alike. -/
theorem LexesAs.local
    {blankLine : Bool}
    {c : Char}
    {rest text after other : List Char}
    {lexeme : Lexeme}
    (lexes : LexesAs blankLine c rest lexeme)
    (whole : rest = text ++ after)
    (taken : lexeme.text = c :: text)
    (alike : Alike (blankAfter blankLine (c :: text)) after other) :
    LexesAs blankLine c (text ++ other) lexeme := by
  have head : rest.head? = (text ++ other).head? := by
    rw [whole, List.head?_append, List.head?_append, alike.head]
  have ended (all : rest = text) : text ++ other = rest := by
    have none : after = [] := by simpa [all] using whole
    rw [none] at alike
    rw [List.head?_eq_none_iff.1 alike.head.symm, List.append_nil, all]
  cases lexes with
  | blanks blank all =>
      obtain ⟨-, rfl⟩ := List.cons.inj taken
      exact .blanks blank (takeWhile_local (whole ▸ all) alike.head)
  | blockComment closed =>
      obtain ⟨-, rfl⟩ := List.cons.inj taken
      exact .blockComment (Text.splitAtWord?_append (by decide) closed other)
  | openComment leftOpen =>
      rw [ended (List.cons.inj taken).2]
      exact .openComment leftOpen
  | @lineComments _ all run =>
      obtain rfl : all = '/' :: text := taken
      obtain ⟨more, isMore⟩ := List.head?_eq_some_iff.1 head.symm
      rw [whole, ← List.cons_append] at run
      have still : Source.lineComments blankLine ('/' :: (text ++ other)).length
          ('/' :: text ++ other) = '/' :: text :=
        lineComments_local (List.cons_ne_nil '/' text) run (by simp) (by simp) alike.head
          alike.goesOn
      rw [List.cons_append, isMore] at still
      rw [isMore]
      exact .lineComments still
  | @directive _ all body blankBefore read =>
      obtain rfl : all = '#' :: text := taken
      rw [whole, ← List.cons_append] at read
      have still := (joins_of_directive read le_rfl).local alike.head alike.closes
      exact .directive blankBefore (still.directive_eq le_rfl)
  | word start starts all =>
      obtain ⟨-, rfl⟩ := List.cons.inj taken
      exact .word (start.of_head? head) starts (takeWhile_local (whole ▸ all) alike.head)
  | number start notWord starts all =>
      have sameBase : ['0', 'x'].isPrefixOf (c :: rest) =
          ['0', 'x'].isPrefixOf (c :: (text ++ other)) := by
        rw [Bool.eq_iff_iff, List.isPrefixOf_iff_prefix, List.isPrefixOf_iff_prefix,
          List.cons_prefix_cons, List.cons_prefix_cons, List.singleton_prefix_iff_head?_eq_some,
          List.singleton_prefix_iff_head?_eq_some, head]
      obtain ⟨-, rfl⟩ := List.cons.inj taken
      rw [sameBase, whole] at all
      exact .number (start.of_head? head) notWord (head ▸ starts) (numberTail_local all alike.head)
  | literal start quote closed =>
      obtain ⟨-, rfl⟩ := List.cons.inj taken
      have notBackslash : c ≠ '\\' := by rcases quote with rfl | rfl <;> decide
      exact .literal (start.of_head? head) quote (literalTail?_append notBackslash closed other)
  | openLiteral start quote leftOpen =>
      rw [ended (List.cons.inj taken).2]
      exact .openLiteral start quote leftOpen
  | punctuator start notWord notNumber notQuote =>
      have pair := alike.pair (start.blankAfter_of_not_mem (not_mem_of_punctuatorAt taken))
      have same : (c :: rest).take 3 = (c :: (text ++ other)).take 3 := by
        rw [whole, List.take_succ_cons, List.take_succ_cons, take_append_congr text pair]
      rw [punctuatorAt_congr same]
      exact .punctuator (start.of_head? head) notWord (head ▸ notNumber) notQuote

/-- The lexeme at the start of a text stays the same if what comes after it is replaced
by what is alike. -/
theorem lexemeAt_local
    {blankLine : Bool}
    {c : Char}
    {text after other : List Char}
    (taken : (lexemeAt blankLine c (text ++ after)).text = c :: text)
    (alike : Alike (blankAfter blankLine (c :: text)) after other) :
    lexemeAt blankLine c (text ++ other) = lexemeAt blankLine c (text ++ after) :=
  ((lexesAs_lexemeAt blankLine c (text ++ after)).local rfl taken alike).lexemeAt_eq

end Source
end DeclManual
