import DeclManual.Proofs.Source.MixedLineEnds
import DeclManual.Proofs.Source.Positions
import DeclManual.Proofs.Text.Lines

/-!
# Line ends do not matter

A source in which carriage returns stand before some newlines is read as the source
without them, or fails with the same error, as long as no literal spans lines and no
directive is continued on the next line.  There it is not: a literal or a directive whose
line ends with a backslash and a carriage return ends with that line.
-/

namespace DeclManual
namespace Source

/-! ## Comments -/

/-- A line with a carriage return at its end is cleaned as without it. -/
theorem cleanLine_return (line : List Char) :
    cleanLine (line ++ ['\r']) = cleanLine line := by
  have dropped : Text.dropEndWhile (· == '\r') (line ++ ['\r']) =
      Text.dropEndWhile (· == '\r') line := by
    simp [Text.dropEndWhile]
  rw [cleanLine, cleanLine, dropped]

/-- A line to which a carriage return may be added. -/
def MayReturn (line other : List Char) : Prop :=
  other = line ∨ other = line ++ ['\r']

theorem splitOn_newline (rest : List Char) :
    Text.splitOn '\n' ('\n' :: rest) = [] :: Text.splitOn '\n' rest := by
  rw [Text.splitOn, if_pos rfl]

theorem splitOn_cons_mayReturn
    {c : Char}
    {text other : List Char}
    (notNewline : c ≠ '\n')
    (pieces : List.Forall₂ MayReturn (Text.splitOn '\n' text) (Text.splitOn '\n' other)) :
    List.Forall₂ MayReturn (Text.splitOn '\n' (c :: text)) (Text.splitOn '\n' (c :: other)) := by
  obtain ⟨piece, rest, isSplit, isNext⟩ := Text.splitOn_cons_of_ne notNewline text
  obtain ⟨otherPiece, others, otherSplit, otherNext⟩ := Text.splitOn_cons_of_ne notNewline other
  rw [isSplit, otherSplit] at pieces
  rw [isNext, otherNext]
  cases pieces with
  | cons first following =>
      refine .cons ?_ following
      rcases first with rfl | rfl
      · exact .inl rfl
      · exact .inr rfl

/-- The lines of a text with carriage returns. -/
theorem Returned.splitOn
    {text other : List Char}
    (returned : Returned text other) :
    List.Forall₂ MayReturn (Text.splitOn '\n' text) (Text.splitOn '\n' other) := by
  induction returned with
  | nil => exact .cons (.inl rfl) .nil
  | newline _ hypothesis =>
      rw [splitOn_newline, splitOn_newline]
      exact .cons (.inl rfl) hypothesis
  | carried _ hypothesis =>
      rw [splitOn_newline, Text.splitOn, if_neg (by decide), splitOn_newline]
      exact .cons (.inr rfl) hypothesis
  | character notNewline _ _ hypothesis => exact splitOn_cons_mayReturn notNewline hypothesis

theorem splitOn_return (text : List Char) :
    List.Forall₂ MayReturn (Text.splitOn '\n' text) (Text.splitOn '\n' (text ++ ['\r'])) := by
  induction text with
  | nil => exact .cons (.inr rfl) .nil
  | cons c text hypothesis =>
      by_cases isNewline : c = '\n'
      · subst isNewline
        rw [List.cons_append, splitOn_newline, splitOn_newline]
        exact .cons (.inl rfl) hypothesis
      · exact splitOn_cons_mayReturn isNewline hypothesis

/-- Carriage returns at the ends of lines are cleaned away. -/
theorem cleanLines_mayReturn
    {lines others : List (List Char)}
    (mayReturn : List.Forall₂ MayReturn lines others) :
    cleanLines others = cleanLines lines := by
  have cleaned : others.map cleanLine = lines.map cleanLine := by
    induction mayReturn with
    | nil => rfl
    | cons first _ hypothesis =>
        rw [List.map_cons, List.map_cons, hypothesis]
        rcases first with rfl | rfl
        · rfl
        · rw [cleanLine_return]
  rw [cleanLines, cleanLines, cleaned]

theorem ReturnedThrough.cleanLines
    {text other : List Char}
    (returned : ReturnedThrough text other) :
    cleanLines (Text.splitOn '\n' other) = cleanLines (Text.splitOn '\n' text) := by
  obtain ⟨same, isSame, rfl | rfl⟩ := returned
  · exact cleanLines_mayReturn isSame.splitOn
  · exact (cleanLines_mayReturn (splitOn_return same)).trans (cleanLines_mayReturn isSame.splitOn)

/-- The inside of a block comment is what is cleaned. -/
theorem cleanBlock_inside (inside : List Char) :
    cleanBlock (['/', '*'] ++ inside ++ ['*', '/']) = cleanLines (Text.splitOn '\n' inside) := by
  have front : dropLead ['/', '*'] (['/', '*'] ++ inside ++ ['*', '/']) = inside ++ ['*', '/'] := by
    rw [List.append_assoc, dropLead, List.isPrefixOf?_eq_some_iff_append_eq.2 rfl, Option.getD_some]
  have back : dropTrail ['*', '/'] (inside ++ ['*', '/']) = inside := by
    rw [dropTrail, List.reverse_append, dropLead, List.isPrefixOf?_eq_some_iff_append_eq.2 rfl,
      Option.getD_some, List.reverse_reverse]
  rw [cleanBlock, front, back]

theorem Returned.count_newline
    {text other : List Char}
    (returned : Returned text other) :
    other.count '\n' = text.count '\n' := by
  induction returned with
  | nil => rfl
  | newline _ hypothesis => simp [hypothesis]
  | carried _ hypothesis => simp [hypothesis]
  | character _ _ _ hypothesis => rw [List.count_cons, List.count_cons, hypothesis]

theorem Lexeme.Returned.count_newline
    {lexeme other : Lexeme}
    (returned : lexeme.Returned other) :
    other.text.count '\n' = lexeme.text.count '\n' := by
  have through {text other : List Char} (returned : ReturnedThrough text other) :
      other.count '\n' = text.count '\n' := by
    obtain ⟨same, isSame, rfl | rfl⟩ := returned
    · exact isSame.count_newline
    · rw [List.count_append, isSame.count_newline]
      rfl
  cases returned with
  | token _ _ => rfl
  | blanks same => exact same.count_newline
  | blockComment same => simp [same.count_newline]
  | lineComments same => exact through same
  | directive same _ => exact through same
  | unterminatedComment same => exact same.count_newline
  | unterminatedLiteral same => exact same.count_newline

/-! ## Line markers -/

theorem MayReturn.dropWhile
    {text other : List Char}
    (mayReturn : MayReturn text other)
    (p : Char → Bool) :
    MayReturn (text.dropWhile p) (other.dropWhile p) := by
  rcases mayReturn with rfl | rfl
  · exact .inl rfl
  · rw [List.dropWhile_append]
    split
    · rename_i empty
      rw [List.isEmpty_iff.1 empty]
      cases holds : p '\r' with
      | true => exact .inl (by simp [holds])
      | false => exact .inr (by simp [holds])
    · exact .inr rfl

theorem MayReturn.dropLead
    {text other word : List Char}
    (mayReturn : MayReturn text other)
    (noReturn : '\r' ∉ word) :
    MayReturn (dropLead word text) (dropLead word other) := by
  rcases mayReturn with rfl | rfl
  · exact .inl rfl
  · unfold Source.dropLead
    cases isPrefix : word.isPrefixOf? text with
    | some rest =>
        have whole := List.isPrefixOf?_eq_some_iff_append_eq.1 isPrefix
        have still : word.isPrefixOf? (text ++ ['\r']) = some (rest ++ ['\r']) := by
          rw [List.isPrefixOf?_eq_some_iff_append_eq, ← List.append_assoc, whole]
        rw [still]
        exact .inr rfl
    | none =>
        have still : word.isPrefixOf? (text ++ ['\r']) = none := by
          rw [Option.eq_none_iff_forall_ne_some]
          intro rest isSome
          have starts : word <+: text ++ ['\r'] :=
            ⟨rest, List.isPrefixOf?_eq_some_iff_append_eq.1 isSome⟩
          rcases List.prefix_concat_iff.1 starts with rfl | ⟨more, isText⟩
          · exact noReturn (by simp)
          · rw [List.isPrefixOf?_eq_some_iff_append_eq.2 isText] at isPrefix
            cases isPrefix
        rw [still]
        exact .inr rfl

theorem MayReturn.takeWhile
    {text other : List Char}
    (mayReturn : MayReturn text other)
    {p : Char → Bool}
    (stops : p '\r' = false) :
    other.takeWhile p = text.takeWhile p := by
  rcases mayReturn with rfl | rfl
  · rfl
  · rw [List.takeWhile_append]
    split
    · rename_i whole
      rw [List.takeWhile_cons, stops, if_neg Bool.false_ne_true, List.append_nil]
      exact (List.takeWhile_prefix p).eq_of_length whole |>.symm
    · rfl

theorem MayReturn.quotes_iff
    {text other : List Char}
    (mayReturn : MayReturn text other)
    (name : String) :
    Quotes other name ↔ Quotes text name := by
  rcases mayReturn with rfl | rfl
  · exact Iff.rfl
  constructor
  · rintro ⟨gap, rest, whole, blank, absent⟩
    rcases List.eq_nil_or_concat' rest with rfl | ⟨front, last, rfl⟩
    · have cut : text ++ ['\r'] = gap ++ '"' :: name.toList ++ ['"'] := by
        rw [whole]
        simp
      cases (List.append_inj' cut rfl).2
    · refine ⟨gap, front, ?_, blank, absent⟩
      have cut : text ++ ['\r'] = gap ++ '"' :: (name.toList ++ '"' :: front) ++ [last] := by
        rw [whole]
        simp
      exact (List.append_inj' cut rfl).1
  · rintro ⟨gap, rest, rfl, blank, absent⟩
    exact ⟨gap, rest ++ ['\r'], by simp, blank, absent⟩

/-- A line marker says the same with a carriage return at its end. -/
theorem MayReturn.markerParts?
    {body other : List Char}
    (mayReturn : MayReturn body other) :
    (markerParts? other).map (fun parts => (parts.1, LexState.markerFile? parts.2)) =
      (markerParts? body).map fun parts => (parts.1, LexState.markerFile? parts.2) := by
  have words : MayReturn (markerWords body) (markerWords other) :=
    ((mayReturn.dropWhile _).dropWhile _).dropLead (by decide) |>.dropWhile _
  have sameFile : LexState.markerFile? ((markerWords other).dropWhile Char.isDigit) =
      LexState.markerFile? ((markerWords body).dropWhile Char.isDigit) := by
    apply Option.ext
    intro name
    rw [markerFile?_eq_some_iff, markerFile?_eq_some_iff, (words.dropWhile _).quotes_iff]
  unfold Source.markerParts?
  rw [markerNumber?_eq, markerNumber?_eq, words.takeWhile (by decide), Option.map_map,
    Option.map_map]
  refine congrArg (Option.map · _) ?_
  funext number
  exact congrArg (Prod.mk number) sameFile

theorem MayReturn.applyMarker
    {body other : List Char}
    (mayReturn : MayReturn body other)
    (state : LexState) :
    state.applyMarker other = state.applyMarker body := by
  have parts := mayReturn.markerParts?
  rw [LexState.applyMarker_parts, LexState.applyMarker_parts]
  cases isParts : Source.markerParts? body with
  | none =>
      rw [isParts, Option.map_none, Option.map_eq_none_iff] at parts
      rw [parts]
  | some first =>
      rw [isParts, Option.map_some, Option.map_eq_some_iff] at parts
      obtain ⟨second, isOther, same⟩ := parts
      obtain ⟨sameNumber, sameFile⟩ := Prod.mk.inj same
      rw [isOther, Option.elim_some, Option.elim_some, sameNumber, sameFile]

/-! ## Sources -/

/-- The lexer steps over lexemes that are the same apart from carriage returns in the same
way. -/
theorem Lexeme.Returned.step
    {lexeme other : Lexeme}
    (returned : lexeme.Returned other)
    (state : LexState) :
    state.step other = state.step lexeme := by
  have moved : state.advance other.text = state.advance lexeme.text := by
    rw [LexState.advance, LexState.advance, returned.count_newline]
  cases returned with
  | token _ _ => rfl
  | blanks _ => exact congrArg Except.ok moved
  | blockComment same =>
      unfold LexState.step
      dsimp only at moved ⊢
      rw [moved, cleanBlock_inside, cleanBlock_inside, cleanLines_mayReturn same.splitOn]
  | lineComments same =>
      unfold LexState.step
      dsimp only at moved ⊢
      rw [moved, same.cleanLines]
  | directive _ isBody =>
      unfold LexState.step
      dsimp only at moved ⊢
      rw [moved, MayReturn.applyMarker isBody]
  | unterminatedComment _ => rfl
  | unterminatedLiteral _ => rfl

theorem foldlM_returned
    {lexemes others : List Lexeme}
    (returned : List.Forall₂ Lexeme.Returned lexemes others)
    (state : LexState) :
    others.foldlM LexState.step state = lexemes.foldlM LexState.step state := by
  induction returned generalizing state with
  | nil => rfl
  | cons first _ hypothesis =>
      rw [List.foldlM_cons, List.foldlM_cons, first.step]
      exact congrArg _ (funext hypothesis)

/-- Carriage returns before newlines do not matter: a source in which some are written is
read as the source without them, or fails with the same error, if no literal of the source
spans lines and none of its directives is continued. -/
theorem tokenize_returned
    {source other : String}
    (returned : Returned source.toList other.toList)
    (keep : KeepLines (lexemes source.toList))
    (baseFile : Option String) :
    tokenize other baseFile = tokenize source baseFile := by
  have same := lexemesFrom_returned returned le_rfl le_rfl keep
  unfold tokenize
  rw [show lexemes other.toList = lexemesFrom true other.toList.length other.toList from rfl,
    foldlM_returned same]
  rfl

/-- A text with a carriage return before every newline. -/
def withReturns (text : String) : String :=
  String.ofList (text.toList.flatMap fun c => if c = '\n' then ['\r', '\n'] else [c])

theorem returned_withReturns
    {text : List Char}
    (noReturn : '\r' ∉ text) :
    Returned text (text.flatMap fun c => if c = '\n' then ['\r', '\n'] else [c]) := by
  induction text with
  | nil => exact .nil
  | cons c text hypothesis =>
      rw [List.mem_cons, not_or] at noReturn
      rw [List.flatMap_cons]
      split
      · rename_i isNewline
        subst isNewline
        exact .carried (hypothesis noReturn.2)
      · rename_i notNewline
        exact .character notNewline (Ne.symm noReturn.1) (hypothesis noReturn.2)

/-- Line ends do not matter: with a carriage return before every newline, a source is read
as without them, or fails with the same error, if no literal of it spans lines and none of
its directives is continued. -/
theorem tokenize_withReturns
    {source : String}
    (noReturn : '\r' ∉ source.toList)
    (keep : KeepLines (lexemes source.toList))
    (baseFile : Option String) :
    tokenize (withReturns source) baseFile = tokenize source baseFile := by
  refine tokenize_returned ?_ keep baseFile
  rw [withReturns, String.toList_ofList]
  exact returned_withReturns noReturn

theorem Uncontinued.prepend
    {front rest after : List Char}
    (plain : ∀ c ∈ front, c ∉ ['\n', '\\', '/'])
    (uncontinued : Uncontinued rest after) :
    Uncontinued (front ++ rest) after := by
  induction front with
  | nil => exact uncontinued
  | cons c front hypothesis =>
      obtain ⟨isPlain, others⟩ := List.forall_mem_cons.1 plain
      simp only [List.mem_cons, List.not_mem_nil, or_false, not_or] at isPlain
      exact .character ⟨isPlain.1, fun same => absurd same isPlain.2.1,
        fun same => absurd same isPlain.2.2⟩ (hypothesis others)

/-- A source with a directive that holds a comment, a line marker, and comments that span
lines. -/
def directedSource : String :=
  "#d/*\n*/\n# 5 \"h\"\n// a\n // b\nint /*c\n * d*/ f;"

theorem tokenize_withReturns_directedSource :
    '\r' ∉ directedSource.toList ∧ KeepLines (lexemes directedSource.toList) ∧
      (tokenize directedSource (some "h")).map (·.tokens.map fun token =>
          (token.text, token.line, token.commentBefore, token.commentAfter)) =
        .ok [("int", 7, some "a\nb", some "c\nd"), ("f", 8, none, none), (";", 8, none, none),
          ("", 8, none, none)] ∧
      tokenize (withReturns directedSource) (some "h") = tokenize directedSource (some "h") := by
  have noReturn : '\r' ∉ directedSource.toList := by decide
  have isLexemes : lexemes directedSource.toList =
      [⟨.directive ['#', 'd', ' '], ['#', 'd', '/', '*', '\n', '*', '/']⟩, ⟨.blanks, ['\n']⟩,
        ⟨.directive "# 5 \"h\"".toList, "# 5 \"h\"".toList⟩, ⟨.blanks, ['\n']⟩,
        ⟨.lineComments, "// a\n // b".toList⟩, ⟨.blanks, ['\n']⟩,
        ⟨.token .identifier, "int".toList⟩, ⟨.blanks, [' ']⟩,
        ⟨.blockComment, "/*c\n * d*/".toList⟩, ⟨.blanks, [' ']⟩,
        ⟨.token .identifier, ['f']⟩, ⟨.token .punctuator, [';']⟩] := by
    decide +kernel
  have keep : KeepLines (lexemes directedSource.toList) := by
    rw [isLexemes]
    have isWord : '\n' ∉ "int".toList := by decide
    have isName : '\n' ∉ ['f'] := by decide
    have isEnd : '\n' ∉ [';'] := by decide
    refine ⟨?_, trivial, ?_, trivial, trivial, trivial, isWord, trivial, trivial, trivial, isName,
      isEnd, trivial⟩
    · exact @Uncontinued.prepend ['#', 'd'] _ _ (by simp)
        (.comment ⟨['\n'], by decide, rfl⟩ (.stop (.inr ⟨_, rfl⟩)))
    · exact @Uncontinued.prepend "# 5 \"h\"".toList [] _ (by simp) (.stop (.inr ⟨_, rfl⟩))
  exact ⟨noReturn, keep, by decide +kernel, tokenize_withReturns noReturn keep (some "h")⟩

/-- Line ends do matter after a backslash: a literal that spans lines has no end with a
carriage return there, and a directive is not continued. -/
theorem tokenize_withReturns_differs :
    '\r' ∉ "\"a\\\nb\"".toList ∧ '\r' ∉ "#define A \\\n 1\nint x;".toList ∧
      (tokenize "\"a\\\nb\"" none).isOk = true ∧
      (tokenize (withReturns "\"a\\\nb\"") none).isOk = false ∧
      (tokenize "#define A \\\n 1\nint x;" none).map (·.tokens.map (·.text)) =
        .ok ["int", "x", ";", ""] ∧
      (tokenize (withReturns "#define A \\\n 1\nint x;") none).map (·.tokens.map (·.text)) =
        .ok ["1", "int", "x", ";", ""] := by
  refine ⟨by decide, by decide, ?_, ?_, ?_, ?_⟩ <;> decide +kernel

end Source
end DeclManual
