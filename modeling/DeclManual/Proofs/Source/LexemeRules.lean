import DeclManual.Source.Lexer
import Mathlib.Data.List.Basic

/-!
# The rules for a lexeme

The lexeme at the start of a text is found by a chain of tests.  Here each way through the
chain is a rule, with all that is known of the text where the rule applies.  One rule applies
to every text, and what it says is the lexeme.  What holds of all lexemes is then proved by
cases on the rule, and the chain is not opened again.
-/

namespace DeclManual
namespace Source

variable {blankLine : Bool} {c : Char} {rest other : List Char} {lexeme : Lexeme}

/-! ## Punctuators -/

/-- The punctuator at the start of a text that starts with nothing else. -/
def punctuatorAt (c : Char) (rest : List Char) : List Char :=
  ((longPunctuators.find? fun word => word.toList.isPrefixOf (c :: rest)).map String.toList).getD
    [c]

theorem punctuatorAt_cases (c : Char) (rest : List Char) :
    punctuatorAt c rest = [c] ∨
      ∃ word ∈ longPunctuators, word.toList <+: c :: rest ∧ punctuatorAt c rest = word.toList := by
  unfold punctuatorAt
  cases found : longPunctuators.find? fun word => word.toList.isPrefixOf (c :: rest) with
  | none => exact .inl rfl
  | some word =>
      have starts := List.find?_some found
      exact .inr ⟨word, List.mem_of_find?_eq_some found,
        List.isPrefixOf_iff_prefix.1 starts, rfl⟩

theorem punctuatorAt_prefix (c : Char) (rest : List Char) :
    punctuatorAt c rest <+: c :: rest := by
  rcases punctuatorAt_cases c rest with single | ⟨word, -, starts, isWord⟩
  · rw [single]
    exact ⟨rest, rfl⟩
  · rwa [isWord]

theorem punctuatorAt_ne_nil (c : Char) (rest : List Char) :
    punctuatorAt c rest ≠ [] := by
  rcases punctuatorAt_cases c rest with single | ⟨word, listed, -, isWord⟩
  · rw [single]
    exact List.cons_ne_nil c []
  · rw [isWord]
    exact (by decide : ∀ word ∈ longPunctuators, word.toList ≠ []) word listed

/-! ## Texts that start with a token -/

/-- The lexeme at the start of a text that starts with no blank, comment or directive. -/
def tokenAt (c : Char) (rest : List Char) : Lexeme :=
  if startsWord c then ⟨.token .identifier, c :: rest.takeWhile isWordChar⟩
  else if c.isDigit || (c == '.' && (rest.head?.map Char.isDigit).getD false) then
    ⟨.token .number, c :: numberTail (['0', 'x'].isPrefixOf (c :: rest)) c rest⟩
  else if c = '"' || c = '\'' then
    match literalTail? c rest with
    | some tail =>
      ⟨.token (if c = '"' then .stringLiteral else .charLiteral), c :: tail⟩
    | none => ⟨.unterminatedLiteral, c :: rest⟩
  else
    match longPunctuators.find? fun word => word.toList.isPrefixOf (c :: rest) with
    | some word => ⟨.token .punctuator, word.toList⟩
    | none => ⟨.token .punctuator, [c]⟩

/-- A text starts with no blank, comment or directive. -/
structure StartsToken (blankLine : Bool) (c : Char) (rest : List Char) : Prop where
  notBlank : Text.isBlank c = false
  notBlock : ¬(c = '/' ∧ rest.head? = some '*')
  notLine : ¬(c = '/' ∧ rest.head? = some '/')
  notDirective : ¬(c = '#' ∧ blankLine = true)

namespace StartsToken

theorem lexemeAt_eq (start : StartsToken blankLine c rest) :
    lexemeAt blankLine c rest = tokenAt c rest := by
  rw [lexemeAt, if_neg (by simp [start.notBlank]), if_neg (by simpa using start.notBlock),
    if_neg (by simpa using start.notLine), if_neg (by simpa using start.notDirective)]
  rfl

theorem of_head?
    (start : StartsToken blankLine c rest)
    (head : rest.head? = other.head?) :
    StartsToken blankLine c other where
  notBlank := start.notBlank
  notBlock := head ▸ start.notBlock
  notLine := head ▸ start.notLine
  notDirective := start.notDirective

end StartsToken

/-! ## The rules -/

/-- The lexeme at the start of a text that starts with `c`, by the rule that applies. -/
inductive LexesAs (blankLine : Bool) : (c : Char) → (rest : List Char) → Lexeme → Prop
  | blanks {c : Char} {rest tail : List Char}
      (blank : Text.isBlank c = true)
      (taken : rest.takeWhile Text.isBlank = tail) :
      LexesAs blankLine c rest ⟨.blanks, c :: tail⟩
  | blockComment {rest inside after : List Char}
      (closed : Text.splitAtWord? ['*', '/'] rest = some (inside, after)) :
      LexesAs blankLine '/' ('*' :: rest) ⟨.blockComment, ['/', '*'] ++ inside ++ ['*', '/']⟩
  | openComment {rest : List Char}
      (leftOpen : Text.splitAtWord? ['*', '/'] rest = none) :
      LexesAs blankLine '/' ('*' :: rest) ⟨.unterminatedComment, '/' :: '*' :: rest⟩
  | lineComments {rest text : List Char}
      (taken : lineComments blankLine ('/' :: '/' :: rest).length ('/' :: '/' :: rest) = text) :
      LexesAs blankLine '/' ('/' :: rest) ⟨.lineComments, text⟩
  | directive {rest text body : List Char}
      (blankBefore : blankLine = true)
      (read : directive ('#' :: rest).length ('#' :: rest) = (text, body)) :
      LexesAs blankLine '#' rest ⟨.directive body, text⟩
  | word {c : Char} {rest tail : List Char}
      (start : StartsToken blankLine c rest)
      (starts : startsWord c = true)
      (taken : rest.takeWhile isWordChar = tail) :
      LexesAs blankLine c rest ⟨.token .identifier, c :: tail⟩
  | number {c : Char} {rest tail : List Char}
      (start : StartsToken blankLine c rest)
      (notWord : startsWord c = false)
      (starts : (c.isDigit || (c == '.' && (rest.head?.map Char.isDigit).getD false)) = true)
      (taken : numberTail (['0', 'x'].isPrefixOf (c :: rest)) c rest = tail) :
      LexesAs blankLine c rest ⟨.token .number, c :: tail⟩
  | literal {c : Char} {rest tail : List Char}
      (start : StartsToken blankLine c rest)
      (quote : c = '"' ∨ c = '\'')
      (closed : literalTail? c rest = some tail) :
      LexesAs blankLine c rest
        ⟨.token (if c = '"' then .stringLiteral else .charLiteral), c :: tail⟩
  | openLiteral {c : Char} {rest : List Char}
      (start : StartsToken blankLine c rest)
      (quote : c = '"' ∨ c = '\'')
      (leftOpen : literalTail? c rest = none) :
      LexesAs blankLine c rest ⟨.unterminatedLiteral, c :: rest⟩
  | punctuator {c : Char} {rest : List Char}
      (start : StartsToken blankLine c rest)
      (notWord : startsWord c = false)
      (notNumber :
        (c.isDigit || (c == '.' && (rest.head?.map Char.isDigit).getD false)) = false)
      (notQuote : ¬(c = '"' ∨ c = '\'')) :
      LexesAs blankLine c rest ⟨.token .punctuator, punctuatorAt c rest⟩

theorem lexemeAt_comment (blankLine : Bool) (rest : List Char) :
    lexemeAt blankLine '/' ('*' :: rest) =
      match Text.splitAtWord? ['*', '/'] rest with
      | some (inside, _) => ⟨.blockComment, ['/', '*'] ++ inside ++ ['*', '/']⟩
      | none => ⟨.unterminatedComment, '/' :: '*' :: rest⟩ := by
  rw [lexemeAt, if_neg (by decide), if_pos (by simp)]
  rfl

theorem lexemeAt_slashes (blankLine : Bool) (rest : List Char) :
    lexemeAt blankLine '/' ('/' :: rest) =
      ⟨.lineComments, lineComments blankLine ('/' :: '/' :: rest).length ('/' :: '/' :: rest)⟩ := by
  rw [lexemeAt, if_neg (by decide), if_neg (by simp), if_pos (by simp)]

theorem lexemeAt_mark (rest : List Char) :
    lexemeAt true '#' rest =
      ⟨.directive (directive ('#' :: rest).length ('#' :: rest)).2,
        (directive ('#' :: rest).length ('#' :: rest)).1⟩ := by
  rw [lexemeAt, if_neg (by decide), if_neg (by simp), if_neg (by simp), if_pos (by simp)]

theorem tokenAt_quote (quote : c = '"' ∨ c = '\'') :
    tokenAt c rest =
      match literalTail? c rest with
      | some tail => ⟨.token (if c = '"' then .stringLiteral else .charLiteral), c :: tail⟩
      | none => ⟨.unterminatedLiteral, c :: rest⟩ := by
  have notWord : startsWord c = false := by rcases quote with rfl | rfl <;> decide
  have notDigit : c.isDigit = false := by rcases quote with rfl | rfl <;> decide
  have notPoint : (c == '.') = false := by rcases quote with rfl | rfl <;> decide
  rw [tokenAt, if_neg (by simp [notWord]), if_neg (by simp [notDigit, notPoint]),
    if_pos (by simpa using quote)]

theorem tokenAt_punctuator
    (notWord : startsWord c = false)
    (notNumber : (c.isDigit || (c == '.' && (rest.head?.map Char.isDigit).getD false)) = false)
    (notQuote : ¬(c = '"' ∨ c = '\'')) :
    tokenAt c rest = ⟨.token .punctuator, punctuatorAt c rest⟩ := by
  rw [tokenAt, if_neg (by simp [notWord]), if_neg (by simp [notNumber]),
    if_neg (by simpa using notQuote), punctuatorAt]
  cases longPunctuators.find? fun word => word.toList.isPrefixOf (c :: rest) <;> rfl

/-- A rule applies to every text. -/
theorem lexesAs_lexemeAt (blankLine : Bool) (c : Char) (rest : List Char) :
    LexesAs blankLine c rest (lexemeAt blankLine c rest) := by
  by_cases blank : Text.isBlank c = true
  · rw [lexemeAt, if_pos blank]
    exact .blanks blank rfl
  by_cases opens : c = '/' ∧ rest.head? = some '*'
  · obtain ⟨rfl, next⟩ := opens
    obtain ⟨rest, rfl⟩ := List.head?_eq_some_iff.1 next
    rw [lexemeAt_comment]
    cases found : Text.splitAtWord? ['*', '/'] rest with
    | some parts => exact .blockComment found
    | none => exact .openComment found
  by_cases slashes : c = '/' ∧ rest.head? = some '/'
  · obtain ⟨rfl, next⟩ := slashes
    obtain ⟨rest, rfl⟩ := List.head?_eq_some_iff.1 next
    rw [lexemeAt_slashes]
    exact .lineComments rfl
  by_cases marked : c = '#' ∧ blankLine = true
  · obtain ⟨rfl, rfl⟩ := marked
    rw [lexemeAt_mark]
    exact .directive rfl rfl
  have start : StartsToken blankLine c rest :=
    ⟨Bool.eq_false_iff.2 blank, opens, slashes, marked⟩
  rw [start.lexemeAt_eq]
  by_cases quote : c = '"' ∨ c = '\''
  · rw [tokenAt_quote quote]
    cases found : literalTail? c rest with
    | some tail => exact .literal start quote found
    | none => exact .openLiteral start quote found
  by_cases starts : startsWord c = true
  · rw [tokenAt, if_pos starts]
    exact .word start starts rfl
  rw [Bool.not_eq_true] at starts
  by_cases numeral : (c.isDigit || (c == '.' && (rest.head?.map Char.isDigit).getD false)) = true
  · rw [tokenAt, if_neg (by simp [starts]), if_pos numeral]
    exact .number start starts numeral rfl
  rw [Bool.not_eq_true] at numeral
  rw [tokenAt_punctuator starts numeral quote]
  exact .punctuator start starts numeral quote

/-- What the rule says is the lexeme. -/
theorem LexesAs.lexemeAt_eq (lexes : LexesAs blankLine c rest lexeme) :
    lexemeAt blankLine c rest = lexeme := by
  cases lexes with
  | blanks blank taken => rw [lexemeAt, if_pos blank, taken]
  | blockComment closed => rw [lexemeAt_comment, closed]
  | openComment leftOpen => rw [lexemeAt_comment, leftOpen]
  | lineComments taken => rw [lexemeAt_slashes, taken]
  | directive blankBefore read => rw [blankBefore, lexemeAt_mark, read]
  | word start starts taken => rw [start.lexemeAt_eq, tokenAt, if_pos starts, taken]
  | number start notWord starts taken =>
      rw [start.lexemeAt_eq, tokenAt, if_neg (by simp [notWord]), if_pos starts, taken]
  | literal start quote closed => rw [start.lexemeAt_eq, tokenAt_quote quote, closed]
  | openLiteral start quote leftOpen => rw [start.lexemeAt_eq, tokenAt_quote quote, leftOpen]
  | punctuator start notWord notNumber notQuote =>
      rw [start.lexemeAt_eq, tokenAt_punctuator notWord notNumber notQuote]

end Source
end DeclManual
