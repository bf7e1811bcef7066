import DeclManual.Proofs.Source.Renumbering

/-!
# Lexemes of a source with carriage returns

Some newlines of a source may be written with a carriage return before them.  Its lexemes
stay the same apart from the carriage returns, as long as no literal spans lines and no
directive is continued on the next line.
-/

namespace DeclManual
namespace Source

/-! ## Texts with carriage returns -/

/-- A text in which carriage returns are written before some newlines. -/
inductive Returned : (text other : List Char) → Prop
  | nil : Returned [] []
  | newline {text other : List Char} :
      Returned text other → Returned ('\n' :: text) ('\n' :: other)
  | carried {text other : List Char} :
      Returned text other → Returned ('\n' :: text) ('\r' :: '\n' :: other)
  | character {c : Char} {text other : List Char} :
      c ≠ '\n' → c ≠ '\r' → Returned text other → Returned (c :: text) (c :: other)

/-- A text with carriage returns, one of which may stand at its end. -/
def ReturnedThrough (text other : List Char) : Prop :=
  ∃ same, Returned text same ∧ (other = same ∨ other = same ++ ['\r'])

/-- Neither a newline nor a carriage return is part of a text. -/
def OneLine (text : List Char) : Prop :=
  '\n' ∉ text ∧ '\r' ∉ text

namespace Returned

variable {text other after : List Char}

theorem append
    {following : List Char}
    (first : Returned text other)
    (second : Returned after following) :
    Returned (text ++ after) (other ++ following) := by
  induction first with
  | nil => exact second
  | newline _ hypothesis => exact .newline hypothesis
  | carried _ hypothesis => exact .carried hypothesis
  | character notNewline notReturn _ hypothesis => exact .character notNewline notReturn hypothesis

/-- A text without line ends is the same with carriage returns. -/
theorem of_oneLine (oneLine : OneLine text) : Returned text text := by
  induction text with
  | nil => exact .nil
  | cons c text hypothesis =>
      obtain ⟨noNewline, noReturn⟩ := oneLine
      rw [List.mem_cons, not_or] at noNewline noReturn
      exact .character (Ne.symm noNewline.1) (Ne.symm noReturn.1)
        (hypothesis ⟨noNewline.2, noReturn.2⟩)

theorem noReturn (returned : Returned text other) : '\r' ∉ text := by
  induction returned with
  | nil => exact List.not_mem_nil
  | newline _ hypothesis => simpa using hypothesis
  | carried _ hypothesis => simpa using hypothesis
  | character _ notReturn _ hypothesis => simp [Ne.symm notReturn, hypothesis]

theorem split
    (returned : Returned (text ++ after) other) :
    ∃ first second, other = first ++ second ∧ Returned text first ∧ Returned after second := by
  induction text generalizing other with
  | nil => exact ⟨[], other, rfl, .nil, returned⟩
  | cons c text hypothesis =>
      cases returned with
      | newline rest =>
          obtain ⟨first, second, rfl, isFirst, isSecond⟩ := hypothesis rest
          exact ⟨'\n' :: first, second, rfl, .newline isFirst, isSecond⟩
      | carried rest =>
          obtain ⟨first, second, rfl, isFirst, isSecond⟩ := hypothesis rest
          exact ⟨'\r' :: '\n' :: first, second, rfl, .carried isFirst, isSecond⟩
      | character notNewline notReturn rest =>
          obtain ⟨first, second, rfl, isFirst, isSecond⟩ := hypothesis rest
          exact ⟨c :: first, second, rfl, .character notNewline notReturn isFirst, isSecond⟩

/-- A text without newlines has no other form. -/
theorem eq_of_noNewline
    (returned : Returned text other)
    (noNewline : '\n' ∉ text) :
    other = text := by
  induction returned with
  | nil => rfl
  | newline _ _ => exact absurd List.mem_cons_self noNewline
  | carried _ _ => exact absurd List.mem_cons_self noNewline
  | character _ _ _ hypothesis =>
      rw [hypothesis fun member => noNewline (List.mem_cons_of_mem _ member)]

/-- A word without line ends stands in front of both texts. -/
theorem split_noNewline
    (returned : Returned (text ++ after) other)
    (noNewline : '\n' ∉ text) :
    ∃ second, other = text ++ second ∧ Returned after second := by
  obtain ⟨first, second, rfl, isFirst, isSecond⟩ := returned.split
  exact ⟨second, by rw [isFirst.eq_of_noNewline noNewline], isSecond⟩

/-- A word without line ends is a prefix of both texts or of neither. -/
theorem prefix_iff
    (returned : Returned text other)
    {word : List Char}
    (oneLine : OneLine word) :
    word <+: text ↔ word <+: other := by
  induction returned generalizing word with
  | nil => exact Iff.rfl
  | newline _ _ =>
      cases word with
      | nil => simp
      | cons c word =>
          have notNewline : c ≠ '\n' := fun isNewline => oneLine.1 (by simp [isNewline])
          simp [List.cons_prefix_cons, notNewline]
  | carried _ _ =>
      cases word with
      | nil => simp
      | cons c word =>
          have notNewline : c ≠ '\n' := fun isNewline => oneLine.1 (by simp [isNewline])
          have notReturn : c ≠ '\r' := fun isReturn => oneLine.2 (by simp [isReturn])
          simp [List.cons_prefix_cons, notNewline, notReturn]
  | character _ _ _ hypothesis =>
      cases word with
      | nil => simp
      | cons c word =>
          have inner : OneLine word :=
            ⟨fun member => oneLine.1 (List.mem_cons_of_mem c member),
              fun member => oneLine.2 (List.mem_cons_of_mem c member)⟩
          rw [List.cons_prefix_cons, List.cons_prefix_cons, hypothesis inner]

/-- A character that is no line end starts both texts or neither. -/
theorem head?_iff
    (returned : Returned text other)
    {c : Char}
    (notNewline : c ≠ '\n')
    (notReturn : c ≠ '\r') :
    text.head? = some c ↔ other.head? = some c := by
  rw [← List.singleton_prefix_iff_head?_eq_some, ← List.singleton_prefix_iff_head?_eq_some]
  exact returned.prefix_iff ⟨by simp [Ne.symm notNewline], by simp [Ne.symm notReturn]⟩

/-- A scan that stops at the end of a line takes the same. -/
theorem takeWhile
    (returned : Returned text other)
    {p : Char → Bool}
    (newline : p '\n' = false)
    (carriageReturn : p '\r' = false) :
    other.takeWhile p = text.takeWhile p := by
  induction returned with
  | nil => rfl
  | newline _ _ => simp [newline]
  | carried _ _ => simp [newline, carriageReturn]
  | character _ _ _ hypothesis => rw [List.takeWhile_cons, List.takeWhile_cons, hypothesis]

theorem dropWhile
    (returned : Returned text other)
    {p : Char → Bool}
    (newline : p '\n' = false)
    (carriageReturn : p '\r' = false) :
    Returned (text.dropWhile p) (other.dropWhile p) := by
  induction returned with
  | nil => exact .nil
  | newline inner _ => simpa [newline] using inner.newline
  | carried inner _ => simpa [newline, carriageReturn] using inner.carried
  | @character c text other notNewline notReturn inner hypothesis =>
      cases holds : p c with
      | true => simpa [holds] using hypothesis
      | false => simpa [holds] using inner.character notNewline notReturn

/-- A scan over blanks goes on at carriage returns. -/
theorem blanks
    (returned : Returned text other) :
    Returned (text.takeWhile Text.isBlank) (other.takeWhile Text.isBlank) ∧
      Returned (text.dropWhile Text.isBlank) (other.dropWhile Text.isBlank) := by
  have newline : Text.isBlank '\n' = true := by decide
  have carriageReturn : Text.isBlank '\r' = true := by decide
  induction returned with
  | nil => exact ⟨.nil, .nil⟩
  | newline _ hypothesis => simpa [newline] using ⟨.newline hypothesis.1, hypothesis.2⟩
  | carried _ hypothesis =>
      simpa [newline, carriageReturn] using ⟨.carried hypothesis.1, hypothesis.2⟩
  | @character c text other notNewline notReturn rest hypothesis =>
      cases blank : Text.isBlank c with
      | true => simpa [blank] using ⟨.character notNewline notReturn hypothesis.1, hypothesis.2⟩
      | false => simpa [blank] using ⟨.nil, .character notNewline notReturn rest⟩

/-- A number goes on as far in both texts. -/
theorem numberTail
    (returned : Returned text other)
    (hexadecimal : Bool)
    (last : Char) :
    numberTail hexadecimal last other = numberTail hexadecimal last text := by
  induction returned generalizing last with
  | nil => rfl
  | newline _ _ => rfl
  | carried _ _ => rfl
  | character _ _ _ hypothesis => rw [Source.numberTail, Source.numberTail, hypothesis]

/-- A literal that ends on its line is the same. -/
theorem literalTail?_some
    (returned : Returned text other)
    {quote : Char}
    (notBackslash : quote ≠ '\\')
    {tail : List Char}
    (closed : literalTail? quote text = some tail)
    (noNewline : '\n' ∉ tail) :
    literalTail? quote other = some tail := by
  obtain ⟨after, rfl⟩ := literalTail?_prefix closed
  obtain ⟨second, rfl, -⟩ := returned.split_noNewline noNewline
  exact literalTail?_append notBackslash closed second

/-- A literal that has no end does not get one. -/
theorem literalTail?_none
    (returned : Returned text other)
    {quote : Char}
    (notNewline : quote ≠ '\n')
    (notReturn : quote ≠ '\r')
    (unclosed : literalTail? quote text = none) :
    literalTail? quote other = none := by
  have atNewline (rest : List Char) : literalTail? quote ('\n' :: rest) = none := by
    rw [literalTail?_cons (by decide), if_neg (Ne.symm notNewline), if_pos rfl]
  fun_induction literalTail? quote text generalizing other with
  | case1 =>
      cases returned
      rfl
  | case2 =>
      rw [returned.eq_of_noNewline (by decide)]
      rfl
  | case3 c rest hypothesis =>
      rw [Option.map_eq_none_iff] at unclosed
      rw [← List.singleton_append] at returned
      obtain ⟨other, rfl, inner⟩ := returned.split_noNewline (by decide)
      rw [List.singleton_append]
      cases inner with
      | newline inner => rw [literalTail?, hypothesis inner unclosed, Option.map_none]
      | carried inner => rw [literalTail?, atNewline, Option.map_none]
      | character _ _ inner => rw [literalTail?, hypothesis inner unclosed, Option.map_none]
  | case4 => cases unclosed
  | case5 =>
      cases returned with
      | newline _ => exact atNewline _
      | carried _ =>
          rw [literalTail?_cons (by decide), if_neg (Ne.symm notReturn), if_neg (by decide),
            atNewline, Option.map_none]
      | character isNewline _ _ => exact absurd rfl isNewline
  | case6 c rest single pair notQuote isNotNewline hypothesis =>
      rw [Option.map_eq_none_iff] at unclosed
      have notBackslash : c ≠ '\\' := by
        rintro rfl
        cases rest with
        | nil => exact single rfl rfl
        | cons d rest => exact pair d rest rfl rfl
      cases returned with
      | newline _ => exact absurd rfl isNotNewline
      | carried _ => exact absurd rfl isNotNewline
      | character _ _ inner =>
          rw [literalTail?_cons notBackslash, if_neg notQuote, if_neg isNotNewline,
            hypothesis inner unclosed, Option.map_none]

/-- What is closed stays closed, and what is open stays open. -/
theorem closes_iff (returned : Returned text other) :
    ['*', '/'] <:+: text ↔ ['*', '/'] <:+: other := by
  induction returned with
  | nil => exact Iff.rfl
  | newline _ hypothesis => simp [List.infix_cons_iff, List.cons_prefix_cons, hypothesis]
  | carried _ hypothesis => simp [List.infix_cons_iff, List.cons_prefix_cons, hypothesis]
  | @character c text other notNewline notReturn inner hypothesis =>
      have whole : Returned (c :: text) (c :: other) := .character notNewline notReturn inner
      rw [List.infix_cons_iff, List.infix_cons_iff, hypothesis,
        whole.prefix_iff ⟨by decide, by decide⟩]

/-- A comment ends where it did. -/
theorem splitAtWord?_some
    (returned : Returned text other)
    {inside after : List Char}
    (found : Text.splitAtWord? ['*', '/'] text = some (inside, after)) :
    ∃ otherInside otherAfter,
      Text.splitAtWord? ['*', '/'] other = some (otherInside, otherAfter) ∧
        Returned inside otherInside ∧ Returned after otherAfter := by
  obtain ⟨rfl, unclosed⟩ := (Text.splitAtWord?_pair_eq_some_iff (by decide)).1 found
  rw [List.append_assoc] at returned
  obtain ⟨otherInside, _, rfl, sameInside, closing⟩ := returned.split
  obtain ⟨otherAfter, rfl, sameAfter⟩ := closing.split_noNewline (by decide)
  refine ⟨otherInside, otherAfter, ?_, sameInside, sameAfter⟩
  rw [Text.splitAtWord?_pair_eq_some_iff (by decide), ← sameInside.closes_iff, List.append_assoc]
  exact ⟨rfl, unclosed⟩

/-- A line ends where it did, maybe with a carriage return. -/
theorem at_lineEnd
    (returned : Returned text other)
    (ends : EndsLine text) :
    (text = [] ∧ other = []) ∨
      ∃ carriage more next, text = '\n' :: more ∧ other = carriage ++ '\n' :: next ∧
        (carriage = [] ∨ carriage = ['\r']) ∧ Returned more next := by
  cases returned with
  | nil => exact .inl ⟨rfl, rfl⟩
  | newline inner => exact .inr ⟨[], _, _, rfl, rfl, .inl rfl, inner⟩
  | carried inner => exact .inr ⟨['\r'], _, _, rfl, rfl, .inr rfl, inner⟩
  | character notNewline _ _ =>
      rcases ends with isNil | ⟨more, isMore⟩
      · cases isNil
      · exact absurd (List.cons.inj isMore).1 notNewline

end Returned

theorem ReturnedThrough.prepend
    {text other after following : List Char}
    (first : Returned text other)
    (second : ReturnedThrough after following) :
    ReturnedThrough (text ++ after) (other ++ following) := by
  obtain ⟨same, returned, isFollowing⟩ := second
  refine ⟨other ++ same, first.append returned, ?_⟩
  rcases isFollowing with rfl | rfl
  · exact .inl rfl
  · exact .inr (List.append_assoc _ _ _).symm

/-! ## Line comments -/

/-- Without a further line the comment is its own line. -/
theorem lineComments_last
    {line : List Char}
    (noNewline : '\n' ∉ line)
    (merge : Bool)
    (lines : Nat) :
    lineComments merge lines line = line := by
  have isFirst : Text.firstLine line = line := by
    refine List.takeWhile_eq_self_iff.2 fun c member => ?_
    simpa using ne_of_mem_of_not_mem member noNewline
  cases lines with
  | zero => exact isFirst
  | succ lines => rw [lineComments_succ, isFirst, List.drop_length]; simp [commentGoesOn]

/-- A comment goes on with the next line if that is a comment and lines are merged. -/
theorem lineComments_newline
    {line : List Char}
    (noNewline : '\n' ∉ line)
    (merge : Bool)
    (lines : Nat)
    (rest : List Char) :
    lineComments merge (lines + 1) (line ++ '\n' :: rest) =
      line ++ if merge && commentGoesOn ('\n' :: rest) then
        '\n' :: lineComments merge lines rest else [] := by
  rw [lineComments_succ, firstLine_append_newline noNewline, List.drop_left]
  rfl

/-- A comment goes on in both texts or in neither. -/
theorem Returned.commentGoesOn
    {text other : List Char}
    (returned : Returned text other) :
    commentGoesOn ('\n' :: text) = commentGoesOn ('\n' :: other) := by
  have dropped := returned.dropWhile (p := fun c => c == ' ' || c == '\t') (by decide)
    (by decide)
  rw [Source.commentGoesOn, Source.commentGoesOn, Bool.eq_iff_iff, List.isPrefixOf_iff_prefix,
    List.isPrefixOf_iff_prefix]
  exact dropped.prefix_iff ⟨by decide, by decide⟩

/-- A run of line comments may take a carriage return with it. -/
theorem Returned.lineComments
    {text other : List Char}
    (returned : Returned text other)
    {merge : Bool}
    {lines others : Nat}
    (few : text.length ≤ lines)
    (enough : other.length ≤ others) :
    ∃ after following, text = lineComments merge lines text ++ after ∧
      other = lineComments merge others other ++ following ∧ Returned after following ∧
      ReturnedThrough (lineComments merge lines text) (lineComments merge others other) := by
  induction lines generalizing text other others with
  | zero =>
      obtain rfl := List.length_eq_zero_iff.1 (Nat.le_zero.1 few)
      cases returned
      rw [lineComments_last List.not_mem_nil, lineComments_last List.not_mem_nil]
      exact ⟨[], [], rfl, rfl, .nil, [], .nil, .inl rfl⟩
  | succ lines hypothesis =>
      obtain ⟨line, after, rfl, ends, noNewline⟩ :
          ∃ line after, text = line ++ after ∧ EndsLine after ∧ '\n' ∉ line :=
        ⟨_, firstLine_split text⟩
      have isLine : Returned line line :=
        .of_oneLine ⟨noNewline, fun member => returned.noReturn (List.mem_append_left _ member)⟩
      obtain ⟨second, rfl, rest⟩ := returned.split_noNewline noNewline
      rcases rest.at_lineEnd ends with
        ⟨rfl, rfl⟩ | ⟨carriage, more, next, rfl, rfl, isCarriage, isNext⟩
      · rw [List.append_nil, lineComments_last noNewline, lineComments_last noNewline]
        exact ⟨[], [], by simp, by simp, .nil, line, isLine, .inl rfl⟩
      · have stillLine : '\n' ∉ line ++ carriage := by
          rcases isCarriage with rfl | rfl <;> simpa using noNewline
        simp only [List.length_append, List.length_cons] at few enough
        obtain ⟨others, rfl⟩ : ∃ more, others = more + 1 :=
          Nat.exists_eq_succ_of_ne_zero (by omega)
        obtain ⟨after, following, whole, otherWhole, isAfter, isRun⟩ :=
          @hypothesis _ _ isNext others (by omega) (by omega)
        rw [← List.append_assoc, lineComments_newline noNewline, lineComments_newline stillLine,
          ← isNext.commentGoesOn]
        split
        · generalize Source.lineComments merge lines more = run at *
          generalize Source.lineComments merge others next = otherRun at *
          refine ⟨after, following, by rw [whole]; simp, by rw [otherWhole]; simp, isAfter, ?_⟩
          have start : Returned (line ++ ['\n']) (line ++ carriage ++ ['\n']) := by
            rw [List.append_assoc]
            refine isLine.append ?_
            rcases isCarriage with rfl | rfl
            · exact .newline .nil
            · exact .carried .nil
          simpa using ReturnedThrough.prepend start isRun
        · rw [List.append_nil, List.append_nil]
          refine ⟨'\n' :: more, '\n' :: next, rfl, rfl, .newline isNext, line, isLine, ?_⟩
          rcases isCarriage with rfl | rfl
          · exact .inl (List.append_nil _)
          · exact .inr rfl

/-! ## Directives -/

/-- A directive that is not continued on the next line. -/
inductive Uncontinued : (text after : List Char) → Prop
  | stop {after : List Char} :
      EndsLine after → Uncontinued [] after
  | character {c : Char} {rest after : List Char} :
      Plain c (rest ++ after) →
      Uncontinued rest after → Uncontinued (c :: rest) after
  | comment {text rest after : List Char} :
      BlockComment text →
      Uncontinued rest after → Uncontinued (text ++ rest) after

/-- A character that is plain before one text is plain before the other. -/
theorem Plain.returned
    {c : Char}
    {text other : List Char}
    (plain : Plain c text)
    (returned : Returned text other) :
    Plain c other where
  notNewline := plain.notNewline
  notContinued isBackslash starts := by
    refine plain.notContinued isBackslash ?_
    cases returned with
    | newline _ => rfl
    | nil => cases starts
    | carried _ => cases starts
    | character notNewline _ _ =>
        cases starts
        exact absurd rfl notNewline
  notComment isSlash starts := by
    have isStar := (returned.head?_iff (by decide) (by decide)).2 starts
    have unclosed := plain.notComment isSlash isStar
    obtain ⟨text, rfl⟩ := List.head?_eq_some_iff.1 isStar
    obtain ⟨other, rfl⟩ := List.head?_eq_some_iff.1 starts
    cases returned with
    | character _ _ inner => rwa [List.drop_one, List.tail_cons, ← inner.closes_iff]

/-- The same directive is read with more carriage returns in the source; it may take one with
it that stands at its end. -/
def DirectiveReturned (text after other : List Char) (steps others : Nat) : Prop :=
  (directive steps (text ++ after)).1 = text ∧
    ∃ following, other = (directive others other).1 ++ following ∧ Returned after following ∧
      ReturnedThrough text (directive others other).1 ∧
      ((directive others other).2 = (directive steps (text ++ after)).2 ∨
        (directive others other).2 = (directive steps (text ++ after)).2 ++ ['\r'])

/-- With more carriage returns, a directive is joined to the same text and maybe a carriage
return that stands at its end. -/
def JoinsReturned (text after other : List Char) : Prop :=
  ∃ body taken otherBody following, Joins text body after ∧ Joins taken otherBody following ∧
    other = taken ++ following ∧ Returned after following ∧ ReturnedThrough text taken ∧
    (otherBody = body ∨ otherBody = body ++ ['\r'])

/-- A text with carriage returns is a block comment if it is one without. -/
theorem Returned.blockComment
    {text other : List Char}
    (returned : Returned text other)
    (closed : BlockComment text) :
    BlockComment other := by
  obtain ⟨inside, unclosed, rfl⟩ := closed
  rw [List.append_assoc] at returned
  obtain ⟨_, rfl, inner⟩ := returned.split_noNewline (by decide)
  obtain ⟨otherInside, closing, rfl, sameInside, isClosing⟩ := inner.split
  obtain rfl := isClosing.eq_of_noNewline (by decide)
  exact ⟨otherInside, by rwa [← sameInside.closes_iff], (List.append_assoc _ _ _).symm⟩

/-- An uncontinued directive ends where the text with carriage returns does. -/
theorem Uncontinued.joins
    {text after other : List Char}
    (uncontinued : Uncontinued text after)
    (returned : Returned (text ++ after) other) :
    JoinsReturned text after other := by
  induction uncontinued generalizing other with
  | @stop after ends =>
      have stop (otherEnds : EndsLine other) : JoinsReturned [] after other :=
        ⟨[], [], [], other, .stop ends, .stop otherEnds, rfl, returned, ⟨[], .nil, .inl rfl⟩,
          .inl rfl⟩
      rcases returned.at_lineEnd ends with
        ⟨isNil, rfl⟩ | ⟨carriage, more, next, isMore, rfl, rfl | rfl, isNext⟩
      · exact stop (.inl rfl)
      · exact stop (.inr ⟨next, rfl⟩)
      · -- the carriage return is taken for the last character of the directive
        have plain : Plain '\r' ('\n' :: next) := ⟨by decide, nofun, nofun⟩
        refine ⟨[], ['\r'], ['\r'], '\n' :: next, .stop ends,
          .character plain (.stop (.inr ⟨next, rfl⟩)), rfl, ?_, ⟨[], .nil, .inr rfl⟩, .inr rfl⟩
        rw [show after = '\n' :: more from isMore]
        exact .newline isNext
  | @character c rest after plain _ hypothesis =>
      cases returned with
      | newline _ => exact absurd rfl plain.notNewline
      | carried _ => exact absurd rfl plain.notNewline
      | character _ notReturn inner =>
          obtain ⟨body, taken, otherBody, following, joins, otherJoins, rfl, isAfter, isText,
            isBody⟩ :=
            hypothesis inner
          have single : Returned [c] [c] := .character plain.notNewline notReturn .nil
          exact ⟨c :: body, c :: taken, c :: otherBody, following, .character plain joins,
            .character (plain.returned inner) otherJoins, rfl, isAfter,
            ReturnedThrough.prepend single isText,
            isBody.imp (congrArg (c :: ·)) (congrArg (c :: ·))⟩
  | @comment text rest after closed _ hypothesis =>
      rw [List.append_assoc] at returned
      obtain ⟨first, second, rfl, isFirst, isSecond⟩ := returned.split
      obtain ⟨body, taken, otherBody, following, joins, otherJoins, rfl, isAfter, isText, isBody⟩ :=
        hypothesis isSecond
      exact ⟨' ' :: body, first ++ taken, ' ' :: otherBody, following, .comment closed joins,
        .comment (isFirst.blockComment closed) otherJoins, (List.append_assoc _ _ _).symm, isAfter,
        ReturnedThrough.prepend isFirst isText,
        isBody.imp (congrArg (' ' :: ·)) (congrArg (' ' :: ·))⟩

/-- A directive may take a carriage return with it. -/
theorem Uncontinued.returned
    {text after other : List Char}
    (uncontinued : Uncontinued text after)
    (returned : Returned (text ++ after) other)
    {steps others : Nat}
    (few : (text ++ after).length ≤ steps)
    (enough : other.length ≤ others) :
    DirectiveReturned text after other steps others := by
  obtain ⟨body, taken, otherBody, following, joins, otherJoins, rfl, isAfter, isText, isBody⟩ :=
    uncontinued.joins returned
  unfold DirectiveReturned
  rw [joins.directive_eq few, otherJoins.directive_eq enough]
  exact ⟨rfl, following, rfl, isAfter, isText, isBody⟩

/-! ## Lexemes -/

/-- A lexeme keeps its line: it is no literal that spans lines and no directive that is
continued. -/
def Lexeme.KeepsLine (lexeme : Lexeme) (after : List Char) : Prop :=
  match lexeme.kind with
  | .token _ => '\n' ∉ lexeme.text
  | .directive _ => Uncontinued lexeme.text after
  | _ => True

/-- Two lexemes that are the same apart from carriage returns. -/
inductive Lexeme.Returned : Lexeme → Lexeme → Prop
  | token (kind : Token.Kind) (text : List Char) :
      Lexeme.Returned ⟨.token kind, text⟩ ⟨.token kind, text⟩
  | blanks {text other : List Char} :
      Source.Returned text other → Lexeme.Returned ⟨.blanks, text⟩ ⟨.blanks, other⟩
  | blockComment {inside other : List Char} :
      Source.Returned inside other →
      Lexeme.Returned ⟨.blockComment, ['/', '*'] ++ inside ++ ['*', '/']⟩
        ⟨.blockComment, ['/', '*'] ++ other ++ ['*', '/']⟩
  | lineComments {text other : List Char} :
      ReturnedThrough text other → Lexeme.Returned ⟨.lineComments, text⟩ ⟨.lineComments, other⟩
  | directive {body text otherBody other : List Char} :
      ReturnedThrough text other →
      (otherBody = body ∨ otherBody = body ++ ['\r']) →
      Lexeme.Returned ⟨.directive body, text⟩ ⟨.directive otherBody, other⟩
  | unterminatedComment {text other : List Char} :
      Source.Returned text other →
      Lexeme.Returned ⟨.unterminatedComment, text⟩ ⟨.unterminatedComment, other⟩
  | unterminatedLiteral {text other : List Char} :
      Source.Returned text other →
      Lexeme.Returned ⟨.unterminatedLiteral, text⟩ ⟨.unterminatedLiteral, other⟩

/-- A text starts with a lexeme that is the same as another apart from carriage returns, and
so is what comes after it. -/
def Relexes (blankLine : Bool) (lexeme : Lexeme) (after : List Char) (c : Char)
    (rest : List Char) : Prop :=
  ∃ following other, LexesAs blankLine c rest other ∧ c :: rest = other.text ++ following ∧
    Returned after following ∧ lexeme.Returned other

namespace Returned

variable
  {blankLine : Bool}
  {c d : Char}
  {rest others after : List Char}

/-- A text that starts with a token does so with the same character. -/
theorem startsToken
    (returned : Returned (c :: rest) (d :: others))
    (start : StartsToken blankLine c rest) :
    d = c ∧ Returned rest others ∧ StartsToken blankLine c others := by
  cases returned with
  | newline _ => exact absurd start.notBlank (by decide)
  | carried _ => exact absurd start.notBlank (by decide)
  | character _ _ inner =>
      have isStar := @inner.head?_iff _ _ '*' (by decide) (by decide)
      have isSlash := @inner.head?_iff _ _ '/' (by decide) (by decide)
      refine ⟨rfl, inner, start.notBlank, ?_, ?_, start.notDirective⟩
      · rw [← isStar]
        exact start.notBlock
      · rw [← isSlash]
        exact start.notLine

theorem startsDigit (inner : Returned rest others) :
    (others.head?.map Char.isDigit).getD false = (rest.head?.map Char.isDigit).getD false := by
  cases inner <;> rfl

theorem isPrefixOf_eq
    (returned : Returned rest others)
    {word : List Char}
    (oneLine : OneLine word) :
    word.isPrefixOf others = word.isPrefixOf rest := by
  rw [Bool.eq_iff_iff, List.isPrefixOf_iff_prefix, List.isPrefixOf_iff_prefix,
    returned.prefix_iff oneLine]

theorem punctuatorAt_eq (returned : Returned (c :: rest) (c :: others)) :
    punctuatorAt c others = punctuatorAt c rest := by
  have oneLine : ∀ word ∈ longPunctuators, OneLine word.toList := by
    unfold OneLine
    decide
  unfold punctuatorAt
  rw [List.find?_congr fun word listed => returned.isPrefixOf_eq (oneLine word listed)]

/-- A token on one line that is found again is the same. -/
theorem relexes_token
    (returned : Returned (c :: rest) (c :: others))
    {kind : Token.Kind}
    {text : List Char}
    (whole : c :: rest = text ++ after)
    (oneLine : '\n' ∉ text)
    (again : LexesAs blankLine c others ⟨.token kind, text⟩) :
    Relexes blankLine ⟨.token kind, text⟩ after c others := by
  rw [whole] at returned
  obtain ⟨following, otherWhole, isAfter⟩ := returned.split_noNewline oneLine
  exact ⟨following, _, again, otherWhole, isAfter, .token kind text⟩

/-- Blanks are read again as blanks. -/
theorem relexes_blanks
    (returned : Returned (c :: rest) (d :: others))
    (blank : Text.isBlank c = true)
    (whole : c :: rest = c :: rest.takeWhile Text.isBlank ++ after) :
    Relexes blankLine ⟨.blanks, c :: rest.takeWhile Text.isBlank⟩ after d others := by
  obtain ⟨taken, dropped⟩ := returned.blanks
  have otherBlank : Text.isBlank d = true := by
    cases returned with
    | newline _ => decide
    | carried _ => decide
    | character _ _ _ => exact blank
  obtain rfl : after = rest.dropWhile Text.isBlank := by
    have cut := @List.takeWhile_append_dropWhile _ Text.isBlank rest
    exact List.append_cancel_left ((List.cons.inj whole).2.symm.trans cut.symm)
  rw [List.takeWhile_cons, List.takeWhile_cons, if_pos blank, if_pos otherBlank] at taken
  rw [List.dropWhile_cons, List.dropWhile_cons, if_pos blank, if_pos otherBlank] at dropped
  refine ⟨_, _, .blanks otherBlank rfl, ?_, dropped, .blanks taken⟩
  rw [List.cons_append, List.takeWhile_append_dropWhile]

/-- A slash and what follows it on the line stand in both texts. -/
theorem exists_of_slash
    {e : Char}
    (returned : Returned ('/' :: e :: rest) (d :: others))
    (notNewline : e ≠ '\n') :
    ∃ more, d = '/' ∧ others = e :: more ∧ Returned rest more := by
  cases returned with
  | character _ _ inner =>
      cases inner with
      | newline _ => exact absurd rfl notNewline
      | carried _ => exact absurd rfl notNewline
      | character _ _ inner => exact ⟨_, rfl, rfl, inner⟩

/-- A block comment is read again as one, with its carriage returns. -/
theorem relexes_blockComment
    (inner : Returned rest others)
    {inside last : List Char}
    (closed : Text.splitAtWord? ['*', '/'] rest = some (inside, last))
    (whole : '/' :: '*' :: rest = ['/', '*'] ++ inside ++ ['*', '/'] ++ after) :
    Relexes blankLine ⟨.blockComment, ['/', '*'] ++ inside ++ ['*', '/']⟩ after '/'
      ('*' :: others) := by
  obtain ⟨otherInside, otherLast, otherClosed, sameInside, sameLast⟩ :=
    inner.splitAtWord?_some closed
  obtain rfl : last = after := by
    rw [Text.eq_append_of_splitAtWord? closed] at whole
    simpa using whole
  refine ⟨otherLast, _, .blockComment otherClosed, ?_, sameLast, .blockComment sameInside⟩
  rw [Text.eq_append_of_splitAtWord? otherClosed]
  simp

/-- A comment without an end is read again as one. -/
theorem relexes_openComment
    (inner : Returned rest others)
    (leftOpen : Text.splitAtWord? ['*', '/'] rest = none) :
    Relexes blankLine ⟨.unterminatedComment, '/' :: '*' :: rest⟩ [] '/' ('*' :: others) := by
  rw [Text.splitAtWord?_eq_none_iff, inner.closes_iff, ← Text.splitAtWord?_eq_none_iff] at leftOpen
  have starts : Returned ['/', '*'] ['/', '*'] := .of_oneLine ⟨by decide, by decide⟩
  exact ⟨[], _, .openComment leftOpen, (List.append_nil _).symm, .nil,
    .unterminatedComment (starts.append inner)⟩

/-- Line comments are read again as such. -/
theorem relexes_lineComments
    (returned : Returned ('/' :: '/' :: rest) ('/' :: '/' :: others))
    {text : List Char}
    (taken : Source.lineComments blankLine ('/' :: '/' :: rest).length ('/' :: '/' :: rest) = text)
    (whole : '/' :: '/' :: rest = text ++ after) :
    Relexes blankLine ⟨.lineComments, text⟩ after '/' ('/' :: others) := by
  obtain ⟨last, following, cut, otherWhole, isAfter, run⟩ :=
    @returned.lineComments _ _ blankLine _ _ le_rfl le_rfl
  rw [taken] at cut run
  obtain rfl := List.append_cancel_left (whole.symm.trans cut)
  exact ⟨following, _, .lineComments rfl, otherWhole, isAfter, .lineComments run⟩

/-- An uncontinued directive is read again as one. -/
theorem relexes_directive
    (returned : Returned ('#' :: rest) ('#' :: others))
    {text body : List Char}
    (read : directive ('#' :: rest).length ('#' :: rest) = (text, body))
    (whole : '#' :: rest = text ++ after)
    (keeps : Uncontinued text after) :
    Relexes true ⟨.directive body, text⟩ after '#' others := by
  rw [whole] at returned
  obtain ⟨-, following, otherWhole, isAfter, isText, isBody⟩ :=
    keeps.returned returned (le_of_eq (congrArg List.length whole.symm)) le_rfl
  rw [← whole, read] at isBody
  exact ⟨following, _, .directive rfl rfl, otherWhole, isAfter, .directive isText isBody⟩

end Returned

/-- The rule for a text with carriage returns is that for the text without them. -/
theorem LexesAs.returned
    {blankLine : Bool}
    {c d : Char}
    {rest others after : List Char}
    {lexeme : Lexeme}
    (lexes : LexesAs blankLine c rest lexeme)
    (returned : Returned (c :: rest) (d :: others))
    (whole : c :: rest = lexeme.text ++ after)
    (keeps : lexeme.KeepsLine after) :
    Relexes blankLine lexeme after d others := by
  cases lexes with
  | blanks blank taken =>
      obtain rfl := taken
      exact returned.relexes_blanks blank whole
  | blockComment closed =>
      obtain ⟨others, rfl, rfl, inner⟩ := returned.exists_of_slash (by decide)
      exact inner.relexes_blockComment closed whole
  | openComment leftOpen =>
      obtain ⟨others, rfl, rfl, inner⟩ := returned.exists_of_slash (by decide)
      obtain rfl : after = [] := by simpa using whole
      exact inner.relexes_openComment leftOpen
  | lineComments taken =>
      obtain ⟨others, rfl, rfl, inner⟩ := returned.exists_of_slash (by decide)
      exact returned.relexes_lineComments taken whole
  | directive blankBefore read =>
      obtain rfl := blankBefore
      cases returned with
      | character notNewline notReturn inner =>
          exact (inner.character notNewline notReturn).relexes_directive read whole keeps
  | word start starts taken =>
      obtain ⟨rfl, inner, again⟩ := returned.startsToken start
      have same := (inner.takeWhile (by decide) (by decide)).trans taken
      exact returned.relexes_token whole keeps (.word again starts same)
  | number start notWord starts taken =>
      obtain ⟨rfl, inner, again⟩ := returned.startsToken start
      rw [← inner.startsDigit] at starts
      rw [← inner.numberTail, ← returned.isPrefixOf_eq ⟨by decide, by decide⟩] at taken
      exact returned.relexes_token whole keeps (.number again notWord starts taken)
  | literal start quote closed =>
      obtain ⟨rfl, inner, again⟩ := returned.startsToken start
      have notBackslash : d ≠ '\\' := by rcases quote with rfl | rfl <;> decide
      have noNewline : '\n' ∉ _ := fun member => keeps (List.mem_cons_of_mem d member)
      have same := inner.literalTail?_some notBackslash closed noNewline
      exact returned.relexes_token whole keeps (.literal again quote same)
  | openLiteral start quote leftOpen =>
      obtain ⟨rfl, inner, again⟩ := returned.startsToken start
      have notNewline : d ≠ '\n' := by rcases quote with rfl | rfl <;> decide
      have notReturn : d ≠ '\r' := by rcases quote with rfl | rfl <;> decide
      obtain rfl : after = [] := by simpa using whole
      have stillOpen := inner.literalTail?_none notNewline notReturn leftOpen
      exact ⟨[], _, .openLiteral again quote stillOpen, (List.append_nil _).symm, .nil,
        .unterminatedLiteral returned⟩
  | punctuator start notWord notNumber notQuote =>
      obtain ⟨rfl, inner, again⟩ := returned.startsToken start
      rw [← inner.startsDigit] at notNumber
      rw [← returned.punctuatorAt_eq] at whole keeps ⊢
      exact returned.relexes_token whole keeps (.punctuator again notWord notNumber notQuote)

/-- The lexeme at the start of a text stays the same apart from carriage returns. -/
theorem lexemeAt_returned
    {blankLine : Bool}
    {c d : Char}
    {rest others after : List Char}
    (returned : Returned (c :: rest) (d :: others))
    (whole : c :: rest = (lexemeAt blankLine c rest).text ++ after)
    (keeps : (lexemeAt blankLine c rest).KeepsLine after) :
    ∃ following, d :: others = (lexemeAt blankLine d others).text ++ following ∧
      Returned after following ∧
      (lexemeAt blankLine c rest).Returned (lexemeAt blankLine d others) := by
  obtain ⟨following, other, lexes, otherWhole, isAfter, same⟩ :=
    (lexesAs_lexemeAt blankLine c rest).returned returned whole keeps
  rw [lexes.lexemeAt_eq]
  exact ⟨following, otherWhole, isAfter, same⟩

/-- A line is blank after the same texts. -/
theorem Returned.blankAfter
    {text other : List Char}
    (returned : Returned text other)
    (blankLine : Bool) :
    blankAfter blankLine other = blankAfter blankLine text := by
  induction returned generalizing blankLine with
  | nil => rfl
  | newline _ hypothesis => exact hypothesis _
  | carried _ hypothesis =>
      rw [Source.blankAfter, Source.blankAfter, Source.blankAfter, hypothesis]
      simp
  | character _ _ _ hypothesis => exact hypothesis _

/-- The line is blank after both texts or after neither. -/
theorem ReturnedThrough.blankAfter
    {text other : List Char}
    (returned : ReturnedThrough text other)
    (blankLine : Bool) :
    blankAfter blankLine other = blankAfter blankLine text := by
  obtain ⟨same, isSame, rfl | rfl⟩ := returned
  · exact isSame.blankAfter blankLine
  · have atReturn (blankLine : Bool) : Source.blankAfter blankLine ['\r'] = blankLine := by
      cases blankLine <;> decide
    rw [blankAfter_append, atReturn, isSame.blankAfter]

/-- The line is blank after both lexemes or after neither. -/
theorem Lexeme.Returned.blankAfter
    {lexeme other : Lexeme}
    (returned : lexeme.Returned other)
    (blankLine : Bool) :
    blankAfter blankLine other.text = blankAfter blankLine lexeme.text := by
  cases returned with
  | token _ _ => rfl
  | blanks same => exact same.blankAfter blankLine
  | blockComment same =>
      rw [blankAfter_append, blankAfter_append, same.blankAfter, ← blankAfter_append,
        ← blankAfter_append, List.append_assoc]
  | lineComments same => exact same.blankAfter blankLine
  | directive same _ => exact same.blankAfter blankLine
  | unterminatedComment same => exact same.blankAfter blankLine
  | unterminatedLiteral same => exact same.blankAfter blankLine

/-- Some lexemes keep their lines, before what comes after them. -/
def KeepLines : List Lexeme → Prop
  | [] => True
  | lexeme :: later => lexeme.KeepsLine (later.flatMap (·.text)) ∧ KeepLines later

/-- A source with carriage returns has the same lexemes apart from them. -/
theorem lexemesFrom_returned
    {blankLine : Bool}
    {length others : Nat}
    {source other : List Char}
    (returned : Returned source other)
    (few : source.length ≤ length)
    (enough : other.length ≤ others)
    (keep : KeepLines (lexemesFrom blankLine length source)) :
    List.Forall₂ Lexeme.Returned (lexemesFrom blankLine length source)
      (lexemesFrom blankLine others other) := by
  induction length generalizing blankLine others source other with
  | zero =>
      obtain rfl := List.length_eq_zero_iff.1 (Nat.le_zero.1 few)
      cases returned
      cases others <;> exact .nil
  | succ length hypothesis =>
      cases source with
      | nil =>
          cases returned
          cases others <;> exact .nil
      | cons c rest =>
          cases other with
          | nil => cases returned
          | cons d rests =>
              cases others with
              | zero => simp at enough
              | succ others =>
                  obtain ⟨after, whole, -, less, isLexemes⟩ := lexemesFrom_cons blankLine few
                  rw [isLexemes] at keep ⊢
                  obtain ⟨keeps, keep⟩ := keep
                  rw [lexemesFrom_texts less] at keeps
                  obtain ⟨following, otherWhole, isAfter, same⟩ :=
                    lexemeAt_returned returned whole keeps
                  obtain ⟨_, cut, -, fewer, otherLexemes⟩ := lexemesFrom_cons blankLine enough
                  rw [← List.append_cancel_left (otherWhole.symm.trans cut)] at fewer otherLexemes
                  rw [otherLexemes, same.blankAfter]
                  exact .cons same (hypothesis isAfter less fewer keep)

end Source
end DeclManual
