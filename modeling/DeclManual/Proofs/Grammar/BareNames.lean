import DeclManual.Proofs.Grammar.Takes

/-!
# Lists of bare names

A list of bare names in parentheses may be the parameter list of a prototype, where the
names are those of types, or the identifier list of an old-style definition; the token
after the list decides.  Either way the same tokens are taken, and where there are no
comments the session learns nothing.
-/

namespace DeclManual

/-- Tokens without comments. -/
def Source.CommentFree (tokens : List Source.Token) : Prop :=
  ∀ token ∈ tokens, token.commentBefore = none ∧ token.commentAfter = none

instance (tokens : List Source.Token) : Decidable (Source.CommentFree tokens) :=
  inferInstanceAs (Decidable (∀ token ∈ tokens, _))

namespace Grammar

open Decl
open Source (CommentFree Token)

/-! ## Tokens without comments -/

/-- A cursor before tokens without comments.  Where nothing of them has been taken yet, a
comment may stand before them. -/
structure Cursor.Plain (cursor : Cursor) (fresh : Bool := false) : Prop where
  tidy : Tidy cursor.rest
  further : CommentFree cursor.rest.tail
  following : cursor.peek.commentAfter = none
  silent : fresh = false → cursor.peek.commentBefore = none ∧ cursor.trailingComment = none

namespace Cursor.Plain

variable {fresh : Bool} {cursor : Cursor}

theorem of_uncommented
    (tidy : Tidy cursor.rest)
    (uncommented : CommentFree cursor.rest)
    (trailing : cursor.trailingComment = none) :
    cursor.Plain where
  tidy := tidy
  further token member := uncommented token (List.mem_of_mem_tail member)
  following := (uncommented _ tidy.peek_mem).2
  silent _ := ⟨(uncommented _ tidy.peek_mem).1, trailing⟩

/-- Where no comment stands before the next token, none may stand there. -/
theorem weaken (plain : cursor.Plain) : cursor.Plain fresh :=
  ⟨plain.tidy, plain.further, plain.following, fun _ => plain.silent rfl⟩

theorem advance
    (plain : cursor.Plain fresh)
    (notEnd : cursor.peek.isEnd = false) :
    cursor.advance.Plain := by
  have passes := Cursor.Passes.advance notEnd
  refine .of_uncommented (plain.tidy.of_passes passes) ?_ ?_
  · rw [Cursor.rest_advance notEnd]
    exact plain.further
  · rw [Cursor.trailingComment, Cursor.previous_advance notEnd]
    exact plain.following

/-- After some tokens. -/
theorem of_passes
    {after : Cursor}
    {taken : List Token}
    (plain : cursor.Plain fresh)
    (passes : cursor.Passes taken after) :
    after.Plain fresh := by
  have tidy := plain.tidy.of_passes passes
  have isRest := passes.rest
  have isPrevious := passes.previous
  cases taken with
  | nil =>
      have samePeek : after.peek = cursor.peek := by
        unfold Cursor.peek
        rw [isRest, List.nil_append]
      refine ⟨tidy, ?_, samePeek ▸ plain.following, fun isFresh => ?_⟩
      · rw [show after.rest = cursor.rest from isRest.symm]
        exact plain.further
      · rw [samePeek, Cursor.trailingComment, show after.previous = cursor.previous from isPrevious]
        exact plain.silent isFresh
  | cons token taken =>
      have isToken : cursor.peek = token := Cursor.peek_eq_head isRest
      have further : CommentFree (taken ++ after.rest) := by
        have further := plain.further
        rwa [isRest] at further
      refine weaken (.of_uncommented tidy ?_ ?_)
      · exact fun other member => further other (List.mem_append_right taken member)
      · rw [Cursor.trailingComment, isPrevious]
        cases isLast : taken.getLast? with
        | none =>
            simp only [List.getLast?_cons, isLast, Option.getD_none, Option.some_or]
            exact isToken ▸ plain.following
        | some last =>
            simp only [List.getLast?_cons, isLast, Option.getD_some, Option.some_or]
            exact (further last
              (List.mem_append_left _ (List.mem_of_getLast? isLast))).2

theorem act
    (plain : cursor.Plain fresh)
    (session : Session) :
    Plain { cursor with session } fresh :=
  ⟨plain.tidy, plain.further, plain.following, plain.silent⟩

/-- A word is not also a mark. -/
theorem hasText_word
    (plain : cursor.Plain fresh)
    {text : String}
    (isMark : isMark text = true)
    (isWord : cursor.peek.isWord = true) :
    cursor.peek.hasText text = false := by
  by_contra isText
  have isText : cursor.peek.hasText text = true := by simpa using isText
  rw [Token.isWord, plain.tidy.mark_of_hasText isText isMark] at isWord
  contradiction

/-- A comma or a closing parenthesis is no word. -/
theorem noWord
    (plain : cursor.Plain fresh)
    (ends : cursor.peek.hasText ")" = true ∨ cursor.peek.hasText "," = true) :
    cursor.peek.isWord = false := by
  by_contra isWord
  have isWord : cursor.peek.isWord = true := by simpa using isWord
  rcases ends with closes | isComma
  · rw [plain.hasText_word (by decide) isWord] at closes
    contradiction
  · rw [plain.hasText_word (by decide) isWord] at isComma
    contradiction

/-- What is read at the end of an item. -/
theorem trailingComments
    (plain : cursor.Plain)
    (separator : String) :
    trailingComments separator cursor =
      .ok [] (if cursor.peek.hasText separator then cursor.advance else cursor) := by
  rw [trailingComments_run, (plain.silent rfl).1, (plain.silent rfl).2, plain.following]
  split <;> rfl

end Cursor.Plain

/-- A parameter around which there are no comments. -/
def uncommentedParameter (spec : Option Spec) (shape : Option Declarator) : Parameter :=
  .ofParts (spec.getD (.untexted .junk)) (shape.getD .abstract)

/-- The end of a parameter without comments. -/
theorem Cursor.Plain.parameterEnd
    {cursor : Cursor}
    (plain : cursor.Plain)
    (more : List Parameter → Parse (List Parameter))
    (read : List Parameter)
    (spec : Option Spec)
    (shape : Option Declarator) :
    Grammar.parameterEnd more read spec shape none cursor =
      (get >>= fun ended : Cursor =>
        if ended.justTook "," then more (read ++ [uncommentedParameter spec shape])
        else discard (expect ")") >>= fun _ => pure (read ++ [uncommentedParameter spec shape]))
        (if cursor.peek.hasText "," then cursor.advance else cursor) := by
  unfold Grammar.parameterEnd
  rw [bind_run_ok (plain.trailingComments ","), List.head?_nil, List.tail_nil, act_bind_run,
    newParameter_uncommented]
  rfl

theorem Cursor.Plain.parameterEnd_comma
    {cursor : Cursor}
    (plain : cursor.Plain)
    (isComma : cursor.peek.hasText "," = true)
    (more : List Parameter → Parse (List Parameter))
    (read : List Parameter)
    (spec : Option Spec)
    (shape : Option Declarator) :
    Grammar.parameterEnd more read spec shape none cursor =
      more (read ++ [uncommentedParameter spec shape]) cursor.advance := by
  have justTook : cursor.advance.justTook "," = true := by
    rw [Cursor.justTook_of_previous
      (Cursor.previous_advance (Token.not_isEnd_of_hasText isComma)), isComma]
  rw [plain.parameterEnd, if_pos isComma, get_bind_run, if_pos justTook]

theorem Cursor.Plain.parameterEnd_closer
    {cursor : Cursor}
    (plain : cursor.Plain)
    (noComma : cursor.justTook "," = false)
    (closes : cursor.peek.hasText ")" = true)
    (more : List Parameter → Parse (List Parameter))
    (read : List Parameter)
    (spec : Option Spec)
    (shape : Option Declarator) :
    Grammar.parameterEnd more read spec shape none cursor =
      .ok (read ++ [uncommentedParameter spec shape]) cursor.advance := by
  have notComma : cursor.peek.hasText "," = false :=
    Token.hasText_of_text_ne (by rw [Token.text_of_hasText closes]; decide)
  rw [plain.parameterEnd, if_neg (by simp [notComma]), get_bind_run,
    if_neg (by simp [noComma]), discard_bind_run, bind_run, expect_run, if_pos closes]
  rfl

/-! ## Bare names -/

/-- A word that may be named in an identifier list. -/
def IsBareName (session : Session) (token : Token) : Prop :=
  token.isWord = true ∧ isKeyword token.text = false ∧ session.isTypedefName token.text = false

instance (session : Session) (token : Token) : Decidable (IsBareName session token) :=
  inferInstanceAs (Decidable (_ ∧ _))

/-- Bare names, divided by commas. -/
def BareNames (session : Session) : List Token → Prop
  | [] => False
  | [name] => IsBareName session name
  | name :: separator :: rest =>
    IsBareName session name ∧ separator.hasText "," = true ∧ BareNames session rest

/-- Which names are bare depends on no more of a session than its typedef names. -/
theorem BareNames.congr
    {session other : Session}
    (same : other.typedefs = session.typedefs)
    {names : List Token} :
    BareNames other names ↔ BareNames session names := by
  have sameName (token : Token) : IsBareName other token ↔ IsBareName session token := by
    unfold IsBareName Session.isTypedefName
    rw [same]
  induction names using List.twoStepInduction with
  | nil => exact .rfl
  | singleton name => exact sameName name
  | cons_cons name separator names hypothesis _ =>
      exact and_congr (sameName name) (and_congr .rfl hypothesis)

theorem typedefs_advance (cursor : Cursor) :
    cursor.advance.session.typedefs = cursor.session.typedefs :=
  congrArg (·.typedefs) cursor.session_advance

/-- What stands behind an identifier list: a body, or the declaration of a parameter. -/
def Announces (after : List Token) : Bool :=
  (after.head?.map fun next => next.hasText "\x7b" || next.isWord).getD false

section

variable {session : Session} {names rest : List Token} {closer : Token}

/-- Whether a list of bare names is an identifier list is seen from what stands behind it. -/
theorem identifierListRun_bareNames
    (bare : BareNames session names)
    (closes : closer.hasText ")" = true) :
    identifierListRun session (names ++ closer :: rest) = Announces rest := by
  have noComma : closer.hasText "," = false :=
    Token.hasText_of_text_ne (by rw [Token.text_of_hasText closes]; decide)
  induction names using List.twoStepInduction with
  | nil => exact bare.elim
  | singleton name =>
      obtain ⟨isWord, noKeyword, noTypedef⟩ := bare
      rw [List.singleton_append, identifierListRun_cons, isWord, noKeyword, noTypedef, noComma,
        closes]
      rfl
  | cons_cons name separator names hypothesis _ =>
      obtain ⟨⟨isWord, noKeyword, noTypedef⟩, isComma, bare⟩ := bare
      rw [List.cons_append, List.cons_append, identifierListRun_cons, isWord, noKeyword, noTypedef,
        isComma, hypothesis bare]
      simp

/-- Otherwise it is seen without looking past the closing parenthesis. -/
theorem identifierListRun_otherwise
    (noNames : ¬ BareNames session names)
    (noWord : closer.isWord = false)
    (other : List Token) :
    identifierListRun session (names ++ closer :: other) =
      identifierListRun session (names ++ closer :: rest) := by
  have atCloser (rest : List Token) : identifierListRun session (closer :: rest) = false := by
    cases rest with
    | nil => rfl
    | cons next rest => rw [identifierListRun_cons, noWord]; rfl
  induction names using List.twoStepInduction with
  | nil => rw [List.nil_append, List.nil_append, atCloser, atCloser]
  | singleton name =>
      have noName : (name.isWord && !isKeyword name.text && !session.isTypedefName name.text) =
          false := by
        by_contra isName
        refine noNames ?_
        simpa [BareNames, IsBareName, and_assoc] using isName
      rw [List.singleton_append, List.singleton_append, identifierListRun_cons,
        identifierListRun_cons, noName]
      rfl
  | cons_cons name separator names hypothesis _ =>
      have sameHead : (names ++ closer :: other).head? = (names ++ closer :: rest).head? := by
        cases names <;> rfl
      simp only [List.cons_append, identifierListRun_cons, sameHead]
      by_cases isName :
          (name.isWord && !isKeyword name.text && !session.isTypedefName name.text) = true
      · cases isComma : separator.hasText "," with
        | true =>
            have noNames : ¬ BareNames session names := by
              intro bare
              refine noNames ⟨?_, isComma, bare⟩
              simpa [IsBareName, and_assoc] using isName
            rw [hypothesis noNames]
        | false => simp
      · simp only [Bool.not_eq_true] at isName
        rw [isName]
        rfl

/-- No parenthesis stands among bare names. -/
theorem BareNames.noMark
    (bare : BareNames session names)
    (marked : ∀ token ∈ names, token.Marked)
    (text : String)
    (isMark : isMark text = true)
    (noComma : text ≠ ",")
    {token : Token}
    (member : token ∈ names) :
    token.hasText text = false := by
  have word {name : Token} (isMember : name ∈ names) (isWord : name.isWord = true) :
      name.hasText text = false := by
    apply Token.hasText_of_text_ne
    rintro isText
    have kind := marked name isMember (by rwa [isText])
    rw [Token.isWord, kind] at isWord
    contradiction
  induction names using List.twoStepInduction with
  | nil => exact bare.elim
  | singleton name =>
      rw [List.mem_singleton] at member
      subst member
      exact word List.mem_cons_self bare.1
  | cons_cons name separator names hypothesis _ =>
      obtain ⟨isName, isComma, bare⟩ := bare
      rcases List.mem_cons.1 member with rfl | member
      · exact word List.mem_cons_self isName.1
      rcases List.mem_cons.1 member with rfl | member
      · exact Token.hasText_of_text_ne (by rw [Token.text_of_hasText isComma]; exact noComma.symm)
      · refine hypothesis bare (fun other isMember => ?_) member fun isMember => ?_
        · exact marked other (List.mem_cons_of_mem _ (List.mem_cons_of_mem _ isMember))
        · exact word (List.mem_cons_of_mem _ (List.mem_cons_of_mem _ isMember))

/-- Tokens that are taken for an identifier list start with bare names. -/
theorem bareNames_of_identifierListRun
    {tokens : List Token}
    (run : identifierListRun session tokens = true) :
    ∃ names closer rest, tokens = names ++ closer :: rest ∧ BareNames session names ∧
      closer.hasText ")" = true := by
  induction tokens using List.twoStepInduction with
  | nil => cases run
  | singleton token => cases run
  | cons_cons name separator rest hypothesis _ =>
      rw [identifierListRun_cons] at run
      simp only [Bool.and_eq_true, Bool.or_eq_true, Bool.not_eq_true'] at run
      obtain ⟨⟨⟨isWord, noKeyword⟩, noTypedef⟩, ⟨isComma, further⟩ | ⟨⟨-, closes⟩, -⟩⟩ := run
      · obtain ⟨names, closer, after, rfl, bare, closes⟩ := hypothesis further
        exact ⟨name :: separator :: names, closer, after, rfl,
          ⟨⟨isWord, noKeyword, noTypedef⟩, isComma, bare⟩, closes⟩
      · exact ⟨[name], separator, rest, rfl, ⟨isWord, noKeyword, noTypedef⟩, closes⟩

/-! ## Reading bare names -/

/-- The parameters of an identifier list. -/
def listedNames : List Token → List Parameter
  | [] => []
  | [name] => [uncommentedParameter none (some (.identifier name.text))]
  | name :: _ :: rest =>
    uncommentedParameter none (some (.identifier name.text)) :: listedNames rest

variable {cursor : Cursor}

/-- Behind the last name of a list stands the parenthesis. -/
theorem Cursor.Plain.at_last
    (plain : cursor.Plain)
    {name : Token}
    (isRest : cursor.rest = name :: closer :: rest)
    (isWord : name.isWord = true)
    (closes : closer.hasText ")" = true) :
    cursor.peek = name ∧ cursor.advance.Plain ∧ cursor.advance.justTook "," = false ∧
      cursor.advance.peek.hasText ")" = true := by
  have isName : cursor.peek = name := Cursor.peek_eq_head isRest
  have isWord : cursor.peek.isWord = true := isName ▸ isWord
  have notEnd := Token.not_isEnd_of_isWord isWord
  have taken : cursor.advance.rest = closer :: rest := by
    rw [Cursor.rest_advance notEnd, isRest]
    rfl
  refine ⟨isName, plain.advance notEnd, ?_, ?_⟩
  · rw [Cursor.justTook_of_previous (Cursor.previous_advance notEnd)]
    exact plain.hasText_word (by decide) isWord
  · rw [Cursor.peek_eq_head taken, closes]

/-- Behind another name stands a comma, and the list goes on. -/
theorem Cursor.Plain.at_name
    (plain : cursor.Plain)
    {name separator : Token}
    (isRest : cursor.rest = name :: separator :: rest)
    (isWord : name.isWord = true)
    (isComma : separator.hasText "," = true) :
    cursor.peek = name ∧ cursor.advance.Plain ∧ cursor.advance.peek.hasText "," = true ∧
      cursor.advance.advance.Plain ∧ cursor.advance.advance.rest = rest := by
  have isName : cursor.peek = name := Cursor.peek_eq_head isRest
  have notEnd : cursor.peek.isEnd = false := Token.not_isEnd_of_isWord (isName ▸ isWord)
  have taken : cursor.advance.rest = separator :: rest := by
    rw [Cursor.rest_advance notEnd, isRest]
    rfl
  have isComma : cursor.advance.peek.hasText "," = true := by
    rw [Cursor.peek_eq_head taken, isComma]
  have separatorNotEnd := Token.not_isEnd_of_hasText isComma
  refine ⟨isName, plain.advance notEnd, isComma, (plain.advance notEnd).advance separatorNotEnd, ?_⟩
  rw [Cursor.rest_advance separatorNotEnd, taken]
  rfl

theorem identifierList_bareNames
    (plain : cursor.Plain)
    (isRest : cursor.rest = names ++ closer :: rest)
    (bare : BareNames session names)
    (closes : closer.hasText ")" = true)
    {steps : Nat}
    (enough : names.length ≤ steps)
    (read : List Parameter) :
    identifierList steps none read cursor =
      .ok (read ++ listedNames names) (cursor.advanceBy (names.length + 1)) := by
  induction names using List.twoStepInduction generalizing cursor steps read with
  | nil => exact bare.elim
  | singleton name =>
      obtain ⟨steps, rfl⟩ := Nat.exists_eq_add_of_le' enough
      obtain ⟨isName, taken, noComma, closing⟩ := plain.at_last isRest bare.1 closes
      rw [List.length_singleton, identifierList_eq, take_bind_run, (plain.silent rfl).1, isName]
      exact taken.parameterEnd_closer noComma closing _ read _ _
  | cons_cons name separator names hypothesis _ =>
      obtain ⟨steps, rfl⟩ := Nat.exists_eq_add_of_le' enough
      obtain ⟨isBare, isComma, bare⟩ := bare
      obtain ⟨isName, taken, isComma, takenBoth, isFurther⟩ := plain.at_name isRest isBare.1 isComma
      rw [List.length_cons, ← Nat.add_assoc, identifierList_eq, take_bind_run, (plain.silent rfl).1,
        isName]
      dsimp only [itemComment]
      rw [taken.parameterEnd_comma isComma,
        hypothesis takenBoth isFurther bare (by simp only [List.length_cons]; omega),
        List.append_assoc]
      rfl

/-- A comma or a closing parenthesis ends a parameter. -/
def EndsParameter (token : Token) : Prop :=
  token.hasText ")" = true ∨ token.hasText "," = true

/-- Where a parameter ends there is no declarator. -/
theorem declarator_ends
    (plain : cursor.Plain)
    (ends : EndsParameter cursor.peek)
    (fuel : Nat) :
    declarator (fuel + 3) true cursor = .ok none cursor := by
  have isText : cursor.peek.text = ")" ∨ cursor.peek.text = "," :=
    ends.imp Token.text_of_hasText Token.text_of_hasText
  have noText (text : String) (other : text ≠ ")" ∧ text ≠ ",") :
      cursor.peek.hasText text = false := by
    apply Token.hasText_of_text_ne
    rcases isText with isText | isText
    · rw [isText]
      exact other.1.symm
    · rw [isText]
      exact other.2.symm
  have noAttribute : attributes.contains cursor.peek.text = false := by
    rcases isText with isText | isText <;>
    · rw [isText]
      decide
  have suffixes : suffixes (fuel + 1) none cursor = .ok none cursor := by
    unfold Grammar.suffixes
    rw [sees_bind_run, noText "[" (by decide), if_neg (by simp), sees_bind_run,
      noText "(" (by decide), if_neg (by simp), peek_bind_run, noAttribute, if_neg (by simp)]
    rfl
  have direct : directDeclarator (fuel + 2) true cursor = .ok none cursor := by
    unfold directDeclarator
    rw [get_bind_run, plain.noWord ends, noText "(" (by decide), if_neg (by simp), if_neg (by simp),
      if_pos rfl, suffixes]
  unfold declarator pointer
  rw [bind_assoc, accept_bind_run, noText "*" (by decide), if_neg (by simp)]
  simp only [Option.isSome_none, Bool.false_eq_true, if_false, pure_bind]
  rw [bind_run_ok direct]
  rfl

/-- A bare name is the specifier of a parameter without a declarator. -/
theorem parameterParts_bareName
    (plain : cursor.Plain)
    (bare : IsBareName cursor.session cursor.peek)
    (ends : EndsParameter cursor.advance.peek) :
    ∃ parts, ∀ fuel, parameterParts (fuel + 4) cursor = .ok parts cursor.advance := by
  obtain ⟨isWord, noKeyword, noTypedef⟩ := bare
  have taken := plain.advance (Token.not_isEnd_of_isWord isWord)
  by_cases ellipsis : cursor.peek.hasText "..." = true
  · refine ⟨(some (.untexted .junk), some .ellipsis), fun fuel => ?_⟩
    unfold parameterParts
    rw [accept_bind_run, if_pos ellipsis]
    rfl
  have isType : meaningAt .parameter false cursor = .typeWord {} := by
    simp [meaningAt, keywordMeaning?_eq_none noKeyword, noTypedef, namesType]
  have specifies : declarationSpecifiers .parameter cursor =
      .ok (some { spec := .ofText cursor.peek.text {}, isTypedef := false }) cursor.advance := by
    obtain ⟨count, isCount⟩ := Nat.exists_eq_add_one.2
      (List.length_pos_iff.2 plain.tidy.input.ne_nil)
    unfold declarationSpecifiers
    rw [get_bind_run, isCount, specifiersUpTo, get_bind_run, isWord, if_neg (by simp), isType]
    dsimp only
    unfold takeSpecifier
    rw [bind_assoc, take_bind_run, pure_bind, specifiersUpTo, get_bind_run, taken.noWord ends]
    rfl
  refine ⟨(some (.ofText cursor.peek.text {}), none), fun fuel => ?_⟩
  unfold parameterParts
  rw [accept_bind_run, if_neg ellipsis, Option.isSome_none, if_neg (by simp),
    bind_run_ok specifies, bind_run_ok (declarator_ends taken ends fuel)]
  rfl

/-- Bare names are read as parameters too. -/
theorem parameters_bareNames
    (plain : cursor.Plain)
    (isRest : cursor.rest = names ++ closer :: rest)
    (bare : BareNames cursor.session names)
    (closes : closer.hasText ")" = true)
    (read : List Parameter) :
    ∃ listed least, ∀ fuel, least ≤ fuel →
      parameters fuel none read cursor = .ok listed (cursor.advanceBy (names.length + 1)) := by
  induction names using List.twoStepInduction generalizing cursor read with
  | nil => exact bare.elim
  | singleton name =>
      obtain ⟨isName, taken, noComma, closing⟩ := plain.at_last isRest bare.1 closes
      have isBare : IsBareName cursor.session cursor.peek := isName ▸ bare
      obtain ⟨parts, isParts⟩ := parameterParts_bareName plain isBare (.inl closing)
      refine ⟨read ++ [uncommentedParameter parts.1 parts.2], 5, fun fuel enough => ?_⟩
      obtain ⟨fuel, rfl⟩ := Nat.exists_eq_add_of_le' enough
      rw [parameters_eq, peek_bind_run, (plain.silent rfl).1]
      dsimp only [itemComment]
      rw [bind_run_ok (isParts fuel), taken.parameterEnd_closer noComma closing]
      rfl
  | cons_cons name separator names hypothesis _ =>
      obtain ⟨isBare, isComma, bare⟩ := bare
      obtain ⟨isName, taken, isComma, takenBoth, isFurther⟩ := plain.at_name isRest isBare.1 isComma
      rw [← isName] at isBare
      have sameTypedefs : cursor.advance.advance.session.typedefs = cursor.session.typedefs := by
        rw [typedefs_advance, typedefs_advance]
      obtain ⟨parts, isParts⟩ := parameterParts_bareName plain isBare (.inr isComma)
      obtain ⟨listed, least, isListed⟩ := hypothesis takenBoth isFurther
        ((BareNames.congr sameTypedefs).2 bare) (read ++ [uncommentedParameter parts.1 parts.2])
      refine ⟨listed, least + 5, fun fuel enough => ?_⟩
      obtain ⟨fuel, rfl⟩ := Nat.exists_eq_add_of_le' enough
      rw [← Nat.add_assoc, parameters_eq, peek_bind_run, (plain.silent rfl).1]
      dsimp only [itemComment]
      rw [bind_run_ok (isParts (fuel + least)), taken.parameterEnd_comma isComma]
      exact isListed _ (by omega)

end
end Grammar
end DeclManual
