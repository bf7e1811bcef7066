import DeclManual.Proofs.Decl.Derivations
import DeclManual.Proofs.Grammar.Gap

/-!
# Declarators over attributes

Specifiers and declarators are read in step with and without the attributes.  The
specifiers are the same.  So are the declarators of a declaration that may get a page; of
any other they have at least the same name and are of the same kind.  Their parameters may
differ then, since attributes after a list of bare names are taken for the start of an
old-style definition.
-/

namespace DeclManual
namespace Grammar
namespace Gap

open Decl
open Source (CommentFree Token)

variable {α β : Type} {gap : Gap} {within fresh : Bool} {first second : Cursor}

/-! ## Steps -/

/-- What follows a word that is taken. -/
theorem Follows.word_bind
    {middle : Bool}
    {related : α → β → Prop}
    {next : Token → Parse α}
    {otherNext : Nat → Token → Parse β}
    (beside : gap.Beside false first second middle)
    (isWord : first.peek.isWord = true)
    (continues : gap.Beside false first.advance second.advance →
      gap.Follows within related (next first.peek first.advance)
        (fun fuel => otherNext fuel first.peek second.advance) fresh) :
    gap.Follows within related ((take >>= next) first)
      (fun fuel => (take >>= otherNext fuel) second) fresh := by
  simp only [take_bind_run, beside.peek]
  exact continues (beside.advance_word isWord)

/-- What follows a parenthesis that has to be closed. -/
theorem Follows.close_bind
    {related : α → β → Prop}
    {next : Token → Parse α}
    {otherNext : Nat → Token → Parse β}
    (beside : gap.Beside false first second)
    (continues : gap.Beside true first.advance second.advance →
      gap.Follows within related (next first.peek first.advance)
        fun fuel => otherNext fuel first.peek second.advance) :
    gap.Follows within related ((expect ")" >>= next) first)
      fun fuel => (expect ")" >>= otherNext fuel) second := by
  simp only [bind_run, expect_run, beside.peek]
  by_cases closes : first.peek.hasText ")" = true
  · simp only [if_pos closes]
    exact continues (beside.advance (Token.not_isEnd_of_hasText closes))
  · simp only [if_neg closes]
    exact .error

/-- What depends on whether a separator was taken last. -/
theorem Follows.justTook_bind
    {related : α → β → Prop}
    {text : String}
    {again otherwise : Parse α}
    {otherAgain otherOtherwise : Nat → Parse β}
    (beside : gap.Beside false first second)
    (noCloser : text ≠ ")")
    (took : gap.Follows within related (again first) fun fuel => otherAgain fuel second)
    (tookNot : gap.Follows within related (otherwise first)
      fun fuel => otherOtherwise fuel second) :
    gap.Follows within related
      ((get >>= fun cursor : Cursor => if cursor.justTook text then again else otherwise) first)
      fun fuel => (get >>= fun cursor : Cursor =>
        if cursor.justTook text then otherAgain fuel else otherOtherwise fuel) second := by
  simp only [get_bind_run, beside.justTook noCloser]
  split
  · exact took
  · exact tookNot

/-- An action that depends on everything but the current position, and leaves that and the
typedef names. -/
structure Steady (action : Session → Session × α) : Prop where
  position : ∀ session source, action { session with source } =
    ({ (action session).1 with source }, (action session).2)
  typedefs : ∀ session, (action session).1.typedefs = session.typedefs

theorem Beside.act
    {action : Session → Session × α}
    (steady : Steady action)
    (beside : gap.Beside within first second fresh) :
    (action second.session).2 = (action first.session).2 ∧
      gap.Beside within { first with session := (action first.session).1 }
        { second with session := (action second.session).1 } fresh := by
  have parts : (action second.session).2 = (action first.session).2 ∧
      gap.Apart within { first with session := (action first.session).1 }
        { second with session := (action second.session).1 } := by
    cases beside.apart with
    | ahead front isRest clear =>
        exact ⟨rfl, .ahead front isRest fun documented =>
          (clear documented).congr (steady.typedefs first.session)⟩
    | here isRest taken => exact ⟨rfl, .here isRest taken⟩
    | past => exact ⟨rfl, .past⟩
    | behind last taken closes =>
        have position : (action first.session).1.source = first.session.source :=
          congrArg (·.1.source) (steady.position first.session first.session.source)
        have moved : action (first.sync last).session =
            ({ (action first.session).1 with source := (first.sync last).session.source },
              (action first.session).2) :=
          steady.position first.session (first.sync last).session.source
        have value := congrArg Prod.snd moved
        refine ⟨value, ?_⟩
        have apart := @Apart.behind gap within { first with session := (action first.session).1 }
          last taken closes
        simp only [Cursor.sync, position] at apart
        have same := congrArg Prod.fst moved
        simp only [Cursor.sync] at same ⊢
        rw [same]
        exact apart
  exact ⟨parts.1, parts.2, beside.plain.act _, beside.otherPlain.act _⟩

/-! ## Specifiers -/

theorem optionalTag_follows (beside : gap.Beside false first second) :
    gap.Follows false Eq (optionalTag first) fun _ => optionalTag second := by
  unfold optionalTag
  simp only [peek_bind_run, beside.peek]
  split
  · rename_i isWord
    exact .word_bind beside isWord fun taken => .done taken rfl
  · exact .done beside rfl

/-- The specifier of a structure is read with the attributes as without them. -/
theorem recordSpecifier_follows
    (beside : gap.Beside false first second fresh)
    (isWord : first.peek.isWord = true) :
    gap.Follows false Eq (recordSpecifier first) fun _ => recordSpecifier second := by
  unfold recordSpecifier
  refine .word_bind beside isWord fun taken => ?_
  refine .bind (skipAttributes_follows taken) fun _ _ _ _ _ beside => ?_
  refine .bind (optionalTag_follows beside) ?_
  rintro tag _ _ _ rfl beside
  have members := @skipGroup_follows gap false _ _ "\x7b" "\x7d" (by decide) (by decide) beside
  refine .bind members fun _ _ _ _ _ beside => ?_
  exact .bind (skipAttributes_follows beside) fun _ _ _ _ _ beside => .done beside rfl

/-- Without comments, no more is read at the end of an item than its separator. -/
theorem trailingComments_follows (beside : gap.Beside false first second) :
    gap.Follows false (fun comments others => comments = [] ∧ others = [])
      (trailingComments "," first) fun _ => trailingComments "," second := by
  rw [beside.plain.trailingComments]
  simp only [beside.otherPlain.trailingComments, beside.peek]
  split
  · rename_i isComma
    exact .done (beside.advance_text isComma (by decide)) ⟨rfl, rfl⟩
  · exact .done beside ⟨rfl, rfl⟩

/-- Adding an enumerator does the same in both sessions. -/
theorem steady_withEnumerator
    (tag : Option String)
    (list : Option ListId)
    (enumerator : Enumerator) :
    Steady (withEnumerator tag list enumerator) := by
  constructor
  · intro session source
    cases list <;> cases tag <;> rfl
  · intro session
    cases list <;> cases tag <;> rfl

/-- The name of an enumerator is the same with the attributes, and has no comment before it.
-/
theorem enumeratorName_follows (beside : gap.Beside false first second) :
    gap.Follows false (fun name other => name = other ∧ name.commentBefore = none)
      (enumeratorName first) fun _ => enumeratorName second := by
  have uncommented := (beside.plain.silent rfl).1
  unfold enumeratorName
  simp only [peek_bind_run, beside.peek]
  split
  · rename_i isWord
    simp only [take_run, beside.peek]
    exact .done (beside.advance_word isWord) ⟨rfl, uncommented⟩
  · exact .fail

/-- Enumerators are read with the attributes as without them. -/
theorem enumerators_follows
    (tag : Option String)
    (count : Nat)
    (list : Option ListId)
    (beside : gap.Beside false first second) :
    gap.Follows false Eq (enumerators tag count none list first)
      fun fuel => enumerators tag fuel none list second := by
  induction count generalizing list first second with
  | zero => exact .error
  | succ count hypothesis =>
      apply Follows.more 1
      simp only [enumerators_succ, sees_bind_run, beside.peek]
      split
      · rename_i closes
        simp only [discard_bind_run, take_bind_run]
        exact .done (beside.advance_text closes (by decide)) rfl
      refine .bind (enumeratorName_follows beside) ?_
      rintro name _ _ _ ⟨rfl, noComment⟩ beside
      simp only [noComment, Option.isSome_none, Bool.false_eq_true, if_false, Option.none_or]
      refine .bind (skipValue_follows (by decide) (by decide) (by decide) beside) ?_
      rintro _ _ _ _ _ beside
      refine .bind (trailingComments_follows beside) ?_
      rintro _ _ after otherAfter ⟨rfl, rfl⟩ beside
      obtain ⟨sameList, beside⟩ := beside.act
        (steady_withEnumerator tag list (.ofComments name.text none none))
      simp only [addEnumerator_bind_run, commentEnumerator_nil, pure_bind, List.head?_nil,
        List.tail_nil, sameList]
      refine .justTook_bind beside (by decide) (hypothesis _ beside) ?_
      simp only [sees_bind_run, beside.peek]
      split
      · exact hypothesis _ beside
      · exact .fail

/-- An enumerator list is read with the attributes as without them. -/
theorem enumeratorList_follows
    (tag : Option String)
    (beside : gap.Beside false first second) :
    gap.Follows false Eq (enumeratorList tag first) fun _ => enumeratorList tag second := by
  have noComment := beside.plain.following
  rw [enumeratorList_eq]
  refine .expect_bind beside (by decide) fun _ taken => ?_
  simp only [get_bind_run, noComment]
  exact .fuelled (enumerators_follows tag _ none taken) (enumerators_refines tag none none)
    (enumerators_lands tag none none taken.otherPlain.tidy.input (Nat.le_succ _)).finishes

/-- The specifier of an enumeration is read with the attributes as without them. -/
theorem enumSpecifier_follows
    (beside : gap.Beside false first second fresh)
    (isWord : first.peek.isWord = true) :
    gap.Follows false Eq (enumSpecifier first) fun _ => enumSpecifier second := by
  unfold enumSpecifier
  refine .word_bind beside isWord fun taken => ?_
  refine .bind (skipAttributes_follows taken) fun _ _ _ _ _ beside => ?_
  refine .bind (optionalTag_follows beside) ?_
  rintro tag _ after otherAfter rfl beside
  have list : gap.Follows false Eq (enumerationList tag after)
      fun _ => enumerationList tag otherAfter := by
    unfold enumerationList
    simp only [sees_bind_run, beside.peek]
    split
    · exact enumeratorList_follows tag beside
    · have sameTags : otherAfter.session.tagEnumList = after.session.tagEnumList := by
        funext tag
        rw [Session.tagEnumList, beside.enumTags, Session.tagEnumList]
      simp only [get_bind_run, sameTags]
      exact .done beside rfl
  refine .bind list ?_
  rintro list _ _ _ rfl beside
  exact .done beside rfl

theorem typedefSpecifier_follows
    (beside : gap.Beside false first second fresh)
    (isWord : first.peek.isWord = true) :
    gap.Follows false Eq (typedefSpecifier first) fun _ => typedefSpecifier second := by
  unfold typedefSpecifier
  refine .word_bind beside isWord fun taken => ?_
  simp only [get_bind_run, Session.typedefEnumList, taken.typedefs]
  exact .done taken rfl

/-- Specifiers are read with the attributes as without them. -/
theorem specifiersUpTo_follows
    (context : Context)
    (count : Nat)
    (seenType : Bool)
    (read : Option Specifiers)
    (beside : gap.Beside false first second fresh) :
    gap.Follows false Eq (specifiersUpTo context count seenType read first)
      (fun fuel => specifiersUpTo context fuel seenType read second) fresh := by
  induction count generalizing seenType read fresh first second with
  | zero => exact .error
  | succ count hypothesis =>
      apply Follows.more 1
      simp only [specifiersUpTo, get_bind_run, beside.peek]
      split
      · exact .done beside rfl
      rename_i word
      have isWord : first.peek.isWord = true := by simpa using word
      have further {reading : Parse Spec} (seenType isTypedef : Bool)
          (follows : gap.Follows false Eq (reading first) fun _ => reading second) :
          gap.Follows false Eq
            ((reading >>= fun part =>
              specifiersUpTo context count seenType (Specifiers.add read isTypedef part)) first)
            (fun fuel => (reading >>= fun part =>
              specifiersUpTo context fuel seenType (Specifiers.add read isTypedef part)) second)
            fresh := by
        refine .bind follows ?_
        rintro part _ after otherAfter rfl beside
        exact (hypothesis _ _ beside).refresh
      have word (flags : Flags) : gap.Follows false Eq (takeSpecifier flags first)
          fun _ => takeSpecifier flags second :=
        .word_bind beside isWord fun taken => .done taken rfl
      simp only [beside.meaningAt context seenType isWord]
      cases meaning : Grammar.meaningAt context seenType first with
      | typedefWord => exact further _ _ (word _)
      | modifier flags => exact further _ _ (word _)
      | typeWord flags => exact further _ _ (word _)
      | extensionWord =>
          simp only [discard_bind_run]
          exact .word_bind beside isWord fun taken => (hypothesis _ _ taken).refresh
      | «attribute» =>
          exact .bind (skipAttributes_follows beside) fun _ _ _ _ _ beside => hypothesis _ _ beside
      | record => exact further _ _ (recordSpecifier_follows beside isWord)
      | enumeration => exact further _ _ (enumSpecifier_follows beside isWord)
      | typedefName => exact further _ _ (typedefSpecifier_follows beside isWord)
      | stop => exact .done beside rfl

/-- The specifiers of a declaration are read with the attributes as without them. -/
theorem declarationSpecifiers_follows
    (context : Context)
    (beside : gap.Beside false first second fresh) :
    gap.Follows false Eq (declarationSpecifiers context first)
      (fun _ => declarationSpecifiers context second) fresh := by
  unfold declarationSpecifiers
  simp only [get_bind_run]
  exact .fuelled (specifiersUpTo_follows context _ false none beside)
    (specifiersUpTo_refines context false none)
    ((specifiersUpTo_takesOr context false none beside.otherPlain.tidy.input (Nat.le_succ _)).lands
      beside.otherPlain.tidy.input).finishes

/-! ## Declarators -/

/-- Two declarators with the same name, of the same kind and without comments, of which the
texts start alike.  Those of a documented declaration are the same. -/
structure Alike (documented : Prop) (first second : Declarator) : Prop where
  name : second.name = first.name
  kind : second.kind = first.kind
  head : second.text.map (·.toList.head?) = first.text.map (·.toList.head?)
  comments : first.comment = none ∧ second.comment = none
  same : documented → second = first

namespace Alike

variable {documented : Prop} {direct other : Declarator} {base otherBase : Option Declarator}

theorem refl (noComment : direct.comment = none) : Alike documented direct direct :=
  ⟨rfl, rfl, rfl, ⟨noComment, noComment⟩, fun _ => rfl⟩

theorem same_of_rel
    (alike : Option.Rel (Alike documented) base otherBase)
    (isDocumented : documented) :
    otherBase = base := by
  cases alike with
  | some alike => rw [alike.same isDocumented]
  | none => rfl

theorem isFunction (alike : Alike documented direct other) :
    other.isFunction = direct.isFunction := by
  rw [Declarator.isFunction, alike.kind, Declarator.isFunction]

/-- What a suffix is applied to is alike. -/
theorem suffixBase (alike : Option.Rel (Alike documented) base otherBase) :
    Alike documented (suffixBase base) (suffixBase otherBase) := by
  cases alike with
  | some alike => exact alike
  | none => exact .refl rfl

/-- Around the texts of both, what starts alike is written. -/
theorem head_append
    (alike : Alike documented direct other)
    (before : String)
    {after otherAfter : String}
    (sameHead : otherAfter.toList.head? = after.toList.head?) :
    (before ++ other.text.getD "" ++ otherAfter).toList.head? =
      (before ++ direct.text.getD "" ++ after).toList.head? := by
  have head := alike.head
  cases isText : direct.text <;> cases isOther : other.text <;>
    simp_all [List.head?_append]

/-- Pointers to declarators that are alike are alike. -/
theorem pointerTo
    (alike : Alike documented direct other)
    (pointer : String) :
    Alike documented (direct.pointerTo pointer) (other.pointerTo pointer) where
  name := alike.name
  kind := alike.kind
  head := by
    have head := @head_append documented _ _ alike pointer "" "" rfl
    rw [String.append_empty, String.append_empty] at head
    exact congrArg some head
  comments := alike.comments
  same isDocumented := by rw [alike.same isDocumented]

/-- Declarators that are alike are so in parentheses. -/
theorem parenthesized (alike : Alike documented direct other) :
    Alike documented direct.parenthesized other.parenthesized where
  name := alike.name
  kind := alike.kind
  head := congrArg some (alike.head_append "(" rfl)
  comments := alike.comments
  same isDocumented := by rw [alike.same isDocumented]

/-- Arrays of declarators that are alike are alike if their extents start alike. -/
theorem arrayOf
    {suffix otherSuffix : String}
    (alike : Alike documented direct other)
    (sameHead : otherSuffix.toList.head? = suffix.toList.head?)
    (sameSuffix : documented → otherSuffix = suffix) :
    Alike documented (direct.arrayOf suffix) (other.arrayOf otherSuffix) where
  name := alike.name
  kind := alike.kind
  head := by
    have head := alike.head_append "" sameHead
    rw [String.empty_append, String.empty_append] at head
    exact congrArg some head
  comments := alike.comments
  same isDocumented := by rw [alike.same isDocumented, sameSuffix isDocumented]

/-- Declarators that are alike become the same kind when a suffix is applied. -/
theorem appliedKind (alike : Alike documented direct other) :
    other.appliedKind = direct.appliedKind := by
  rw [Declarator.appliedKind_eq, Declarator.appliedKind_eq, alike.kind, alike.head]

theorem function
    {parameters others : List Parameter}
    (alike : Alike documented direct other)
    (sameParameters : documented → others = parameters) :
    Alike documented (direct.function parameters) (other.function others) where
  name := alike.name
  kind := alike.appliedKind
  head := rfl
  comments := ⟨rfl, rfl⟩
  same isDocumented := by rw [alike.same isDocumented, sameParameters isDocumented]

/-- A pointer operator keeps declarators alike. -/
theorem withPointer
    (alike : Option.Rel (Alike documented) base otherBase)
    (pointer : Option String) :
    Option.Rel (Alike documented) (withPointer pointer base) (withPointer pointer otherBase) := by
  cases pointer with
  | none => exact alike
  | some pointer =>
      cases alike with
      | some alike => exact .some (alike.pointerTo pointer)
      | none => exact .some (.refl rfl)

end Alike

/-- The rest of a pointer operator is read with the attributes as without them. -/
theorem pointerTail_follows
    (count : Nat)
    (text : String)
    (beside : gap.Beside false first second) :
    gap.Follows false Eq (pointerTail count text first)
      fun fuel => pointerTail fuel text second := by
  induction count generalizing text first second with
  | zero => exact .error
  | succ count hypothesis =>
      apply Follows.more 1
      simp only [pointerTail, peek_bind_run, sees_bind_run, beside.peek]
      split
      · rename_i isStar
        simp only [discard_bind_run, take_bind_run]
        exact hypothesis _ (beside.advance_text isStar (by decide))
      split
      · rename_i isQualifier
        simp only [discard_bind_run, take_bind_run]
        exact hypothesis _ (beside.advance_noMark
          (peek_not_end_of_qualifier beside.plain.tidy.input isQualifier)
          (qualifier_noMark isQualifier))
      split
      · exact .bind (skipAttributes_follows beside) fun _ _ _ _ _ beside => hypothesis _ beside
      · exact .done beside rfl

/-- A pointer operator is read with the attributes as without them. -/
theorem pointer_follows (beside : gap.Beside false first second fresh) :
    gap.Follows false Eq (pointer first) (fun _ => pointer second) fresh := by
  unfold pointer
  refine .accept_bind beside (by decide) (fun isStar taken => ?_) (.done beside rfl)
  simp only [Option.isSome_some, if_true, get_bind_run]
  refine .bind (.fuelled (pointerTail_follows _ "*" taken) (pointerTail_refines "*")
    (pointerTail_lands "*" taken.otherPlain.tidy.input (Nat.le_refl _)).finishes) ?_
  rintro text _ _ _ rfl beside
  exact .done beside.refresh rfl

/-! ## Brackets of arrays -/

/-- The text in brackets is that of the tokens from a bracket through its match. -/
theorem bracketText_run
    {cursor : Cursor}
    {bracket last : Token}
    {inside rest : List Token}
    (isRest : cursor.rest = bracket :: (inside ++ last :: rest))
    (opens : bracket.hasText "[" = true)
    (closed : openAfter 0 inside = some 0)
    (noEnd : ∀ token ∈ inside, token.isEnd = false)
    (closes : last.kind = .punctuator ∧ last.text = "]") :
    bracketText cursor =
      .ok (runText false (bracket :: (inside ++ [last])))
        (cursor.advance.advanceBy (inside.length + 1)) := by
  have isBracket : cursor.peek = bracket := Cursor.peek_eq_head isRest
  have opensHere : cursor.peek.hasText "[" = true := by rw [isBracket, opens]
  have taken : cursor.advance.rest = inside ++ last :: rest := by
    rw [Cursor.rest_advance (Token.not_isEnd_of_hasText opensHere), isRest]
    rfl
  have skipped : skipUntilClose "]" cursor.advance =
      .ok () (cursor.advance.advanceBy (inside.length + 1)) := by
    rw [← closes.2]
    exact skipUntilClose_run taken closed noEnd ⟨closes.1, by rw [closes.2]; rfl⟩
  have balanced : skipBalanced "[" "]" cursor =
      .ok () (cursor.advance.advanceBy (inside.length + 1)) := by
    unfold skipBalanced
    rw [discard_bind_run, bind_run, expect_run, if_pos opensHere]
    exact skipped
  have lastNotEnd : last.isEnd = false := Token.not_isEnd_of_punctuator closes.1
  have left : (cursor.advance.advanceBy (inside.length + 1)).rest = rest := by
    rw [Cursor.advanceBy_eq_past taken noEnd lastNotEnd]
    rfl
  have split : bracket :: (inside ++ last :: rest) = (bracket :: (inside ++ [last])) ++ rest := by
    simp
  unfold bracketText
  rw [get_bind_run, bind_run_ok balanced, get_bind_run, left, isRest, split, List.length_append,
    Nat.add_sub_cancel_right, List.take_left]
  rfl

/-- A text of brackets that is read holds matching brackets only. -/
theorem of_bracketText
    {cursor after : Cursor}
    {text : String}
    (read : bracketText cursor = .ok text after) :
    ∃ bracket inside last rest, cursor.rest = bracket :: (inside ++ last :: rest) ∧
      bracket.hasText "[" = true ∧ openAfter 0 inside = some 0 ∧
      (∀ token ∈ inside, token.isEnd = false) ∧
      (last.kind = .punctuator ∧ last.text = "]") ∧
      text = runText false (bracket :: (inside ++ [last])) := by
  have whole := read
  unfold bracketText skipBalanced at read
  rw [get_bind_run] at read
  obtain ⟨_, middle, skips, read⟩ := of_bind_run read
  rw [discard_bind_run] at skips
  obtain ⟨opens, skips⟩ := of_expect_bind_run skips
  obtain ⟨inside, last, rest, isRest, closed, noEnd, isMark, -, isClose, rfl⟩ :=
    skipUntilClose_ok skips
  have notEnd := Token.not_isEnd_of_hasText opens
  have tokens : cursor.rest = cursor.peek :: (inside ++ last :: rest) := by
    rw [Cursor.rest_of_not_isEnd notEnd, ← Cursor.rest_advance notEnd, isRest]
  rw [bracketText_run tokens opens closed noEnd ⟨isMark, isClose⟩] at whole
  cases whole
  exact ⟨cursor.peek, inside, last, rest, tokens, opens, closed, noEnd, ⟨isMark, isClose⟩, rfl⟩

/-- In a documented declaration the same tokens stand in brackets with and without the
attributes. -/
theorem Beside.bracketText_same
    {text other : String}
    {after otherAfter : Cursor}
    (beside : gap.Beside false first second)
    (documented : gap.documented)
    (read : bracketText first = .ok text after)
    (otherRead : bracketText second = .ok other otherAfter) :
    other = text := by
  obtain ⟨bracket, inside, last, rest, isRest, opens, closed, noEnd, closes, rfl⟩ :=
    of_bracketText read
  have sameTokens : ∃ otherRest, second.rest = bracket :: (inside ++ last :: otherRest) := by
    rcases beside.apart.ahead_or_passed with ⟨front, isFront, clear, rfl⟩ | ⟨sameRest, -⟩
    · cases front with
      | nil =>
          have isBracket := (List.cons.inj (isRest.symm.trans isFront)).1
          rw [isBracket, hasText_closer] at opens
          contradiction
      | cons token front =>
          obtain ⟨rfl, same⟩ := List.cons.inj (isRest.symm.trans isFront)
          have unclosed := (clear documented).arrays (@rfl _ ([] ++ bracket :: front)) opens
          rcases append_cons_cases same with ⟨more, rfl, -⟩ | ⟨rfl, -⟩ | ⟨more, rfl, -⟩
          · exact ⟨more ++ gap.closer :: (gap.tokens ++ gap.after), by simp⟩
          · rw [unclosed] at closed
            cases closed
          · rw [openAfter_append, unclosed] at closed
            cases closed
    · exact ⟨rest, sameRest.trans isRest⟩
  obtain ⟨otherRest, isOther⟩ := sameTokens
  rw [bracketText_run isOther opens closed noEnd closes] at otherRead
  cases otherRead
  rfl

/-- The text of a suffix starts with its bracket. -/
theorem bracketText_head
    {cursor after : Cursor}
    {text : String}
    (read : bracketText cursor = .ok text after) :
    text.toList.head? = some '[' := by
  obtain ⟨bracket, inside, last, rest, -, opens, -, -, -, rfl⟩ := of_bracketText read
  simp [runText, Token.text_of_hasText opens]

/-- The text of brackets with the attributes starts as it does without them. -/
theorem bracketText_follows (beside : gap.Beside false first second) :
    gap.Follows false
      (fun text other => other.toList.head? = text.toList.head? ∧ (gap.documented → other = text))
      (bracketText first) fun _ => bracketText second := by
  have follows : gap.Follows false (fun _ _ => True) (bracketText first)
      fun _ => bracketText second := by
    unfold bracketText
    simp only [get_bind_run]
    have skipped := @skipBalanced_follows gap false _ _ "[" "]" (by decide) (by decide) beside
    refine .bind skipped fun _ _ _ _ _ beside => ?_
    exact .done beside trivial
  intro text after read
  obtain ⟨other, otherAfter, ⟨least, enough⟩, -, further⟩ := follows text after read
  have otherRead := enough least (Nat.le_refl _)
  refine ⟨other, otherAfter, ⟨least, enough⟩, ⟨?_, fun documented => ?_⟩, further⟩
  · rw [bracketText_head read, bracketText_head otherRead]
  · exact beside.bracketText_same documented read otherRead

/-! ## Lists of bare names -/

/-- Bare names up to a parenthesis do not go on past another one. -/
theorem bareNames_front
    {session : Session}
    {names front rest back : List Token}
    {ending closer : Token}
    (same : names ++ ending :: rest = front ++ closer :: back)
    (bare : BareNames session names)
    (marked : ∀ token ∈ names, token.Marked)
    (closes : closer.hasText ")" = true) :
    (∃ more, front = names ++ ending :: more) ∨ (names = front ∧ ending = closer) := by
  rcases append_cons_cases same with ⟨more, isFront, -⟩ | ⟨isFront, isEnding, -⟩ |
    ⟨more, isNames, -⟩
  · exact .inl ⟨more, isFront⟩
  · exact .inr ⟨isFront, isEnding⟩
  · have noMark := bare.noMark marked ")" (by decide) (by decide)
      (show closer ∈ names by rw [isNames]; simp)
    rw [closes] at noMark
    contradiction

/-- A cursor stands before a list of bare names. -/
def AtBareNames (names : List Token) (ending : Token) (cursor : Cursor) : Prop :=
  BareNames cursor.session names ∧ ending.hasText ")" = true ∧
    ∃ rest, cursor.rest = names ++ ending :: rest

theorem hasText_closer_self : gap.closer.hasText ")" = true := by
  rw [hasText_closer]
  decide

/-- Bare names stand in both files or in neither. -/
theorem Beside.atBareNames
    {names : List Token}
    {ending : Token}
    (beside : gap.Beside false first second) :
    AtBareNames names ending second ↔ AtBareNames names ending first := by
  have sameBare : BareNames second.session names ↔ BareNames first.session names :=
    BareNames.congr beside.typedefs
  rcases beside.apart.ahead_or_passed with ⟨front, isFront, -, isSecond⟩ | ⟨sameRest, -⟩
  · have otherRest : second.rest = front ++ gap.closer :: (gap.tokens ++ gap.after) := by
      rw [isSecond]
    constructor
    · rintro ⟨bare, closes, rest, isRest⟩
      have marked : ∀ token ∈ names, token.Marked := fun token member =>
        beside.otherPlain.tidy.marked token (by rw [isRest]; exact List.mem_append_left _ member)
      refine ⟨sameBare.1 bare, closes, ?_⟩
      rcases bareNames_front (isRest.symm.trans otherRest) bare marked hasText_closer_self with
        ⟨more, rfl⟩ | ⟨rfl, rfl⟩
      · exact ⟨more ++ gap.closer :: gap.after, by rw [isFront]; simp⟩
      · exact ⟨gap.after, isFront⟩
    · rintro ⟨bare, closes, rest, isRest⟩
      have marked : ∀ token ∈ names, token.Marked := fun token member =>
        beside.plain.tidy.marked token (by rw [isRest]; exact List.mem_append_left _ member)
      refine ⟨sameBare.2 bare, closes, ?_⟩
      rcases bareNames_front (isRest.symm.trans isFront) bare marked hasText_closer_self with
        ⟨more, rfl⟩ | ⟨rfl, rfl⟩
      · exact ⟨more ++ gap.closer :: (gap.tokens ++ gap.after), by rw [otherRest]; simp⟩
      · exact ⟨gap.tokens ++ gap.after, otherRest⟩
  · unfold AtBareNames
    rw [sameRest, sameBare]

/-- Attributes may stand after a list of bare names. -/
theorem Beside.advanceBy_names
    {names : List Token}
    {ending : Token}
    (beside : gap.Beside false first second)
    (here : AtBareNames names ending first) :
    gap.Beside true (first.advanceBy (names.length + 1))
      (second.advanceBy (names.length + 1)) := by
  obtain ⟨-, -, otherRest, isOther⟩ := beside.atBareNames.2 here
  obtain ⟨bare, closes, rest, isRest⟩ := here
  have endingNotEnd := Token.not_isEnd_of_hasText closes
  have noEnd : ∀ token ∈ names, token.isEnd = false := fun token =>
    not_isEnd_of_append (isRest ▸ beside.plain.tidy.input) (by simp)
  have passes := Cursor.Passes.advanceBy (names ++ [ending]) (by simpa using isRest)
    (by simpa [or_imp, forall_and] using ⟨noEnd, endingNotEnd⟩)
  have otherPasses := Cursor.Passes.advanceBy (names ++ [ending]) (by simpa using isOther)
    (by simpa [or_imp, forall_and] using ⟨noEnd, endingNotEnd⟩)
  rw [List.length_append, List.length_singleton] at passes otherPasses
  refine beside.passing passes otherPasses ?_
  rcases beside.apart.ahead_or_passed with ⟨front, isFront, clear, rfl⟩ | ⟨sameRest, samePast⟩
  · have frontNoEnd : ∀ token ∈ front, token.isEnd = false := fun token =>
      not_isEnd_of_append (isFront ▸ beside.plain.tidy.input) (by simp)
    have marked : ∀ token ∈ names, token.Marked := fun token member =>
      beside.plain.tidy.marked token (by rw [isRest]; exact List.mem_append_left _ member)
    rcases bareNames_front (isRest.symm.trans isFront) bare marked hasText_closer_self with
      ⟨more, isMore⟩ | ⟨rfl, -⟩
    · exact (Apart.advanceBy_front isFront clear frontNoEnd (by simp [isMore])).weaken
    · exact .advanceBy_closer isFront frontNoEnd
  · rw [Cursor.advanceBy_eq_past isRest noEnd endingNotEnd,
      Cursor.advanceBy_eq_past (sameRest.trans isRest) noEnd endingNotEnd, samePast]
    exact .past

/-- Attributes announce an identifier list. -/
theorem announces_inserted (announced : Announces gap.after = true) :
    Announces (gap.tokens ++ gap.after) = true := by
  unfold tokens
  cases gap.run with
  | nil => exact announced
  | cons attr run => simp [Announces, Attribute.runTokens_cons, Attribute.tokens, attr.isWord]

/-- In a documented declaration the same lists are identifier lists. -/
theorem Beside.identifierListRun_same
    (beside : gap.Beside false first second fresh)
    (opens : first.peek.hasText "(" = true)
    (documented : gap.documented) :
    identifierListRun second.advance.session second.advance.rest =
      identifierListRun first.advance.session first.advance.rest := by
  have notEnd := Token.not_isEnd_of_hasText opens
  have otherNotEnd : second.peek.isEnd = false := by rw [beside.peek, notEnd]
  have sameTypedefs : second.advance.session.typedefs = first.advance.session.typedefs := by
    rw [typedefs_advance, typedefs_advance, beside.typedefs]
  rw [identifierListRun_congr sameTypedefs, Cursor.rest_advance notEnd,
    Cursor.rest_advance otherNotEnd]
  rcases beside.apart.ahead_or_passed with ⟨front, isFront, clear, rfl⟩ | ⟨sameRest, -⟩
  · rw [isFront]
    cases front with
    | nil =>
        rw [Cursor.peek_eq_head isFront, hasText_closer] at opens
        contradiction
    | cons opener inside =>
        have isOpener : first.peek = opener := Cursor.peek_eq_head isFront
        have noWord : gap.closer.isWord = false := by
          rw [Token.isWord, gap.closes.1]
          rfl
        simp only [List.cons_append, List.tail_cons]
        by_cases bare : BareNames first.advance.session inside
        · have announced := (clear documented).names (@rfl _ ([] ++ opener :: inside))
            (by rwa [← isOpener]) ((BareNames.congr (typedefs_advance first)).1 bare)
          rw [identifierListRun_bareNames bare hasText_closer_self,
            identifierListRun_bareNames bare hasText_closer_self, announced,
            announces_inserted announced]
        · exact identifierListRun_otherwise bare noWord _
  · rw [sameRest]

/-! ## Parameter lists -/

/-- Lists of parameters, which are the same if the declaration is documented. -/
def SameIf (documented : Prop) (value other : α) : Prop :=
  documented → other = value

/-- The end of a parameter is read with the attributes as without them. -/
theorem parameterEnd_follows
    {more : List Parameter → Parse (List Parameter)}
    {otherMore : Nat → List Parameter → Parse (List Parameter)}
    {read others : List Parameter}
    {spec otherSpec : Option Spec}
    {shape otherShape : Option Declarator}
    (sameRead : SameIf gap.documented read others)
    (sameParts : SameIf gap.documented (spec, shape) (otherSpec, otherShape))
    (beside : gap.Beside false first second)
    (again : ∀ read others {first second : Cursor}, SameIf gap.documented read others →
      gap.Beside false first second →
      gap.Follows true (SameIf gap.documented) (more read first)
        fun fuel => otherMore fuel others second) :
    gap.Follows true (SameIf gap.documented) (parameterEnd more read spec shape none first)
      fun fuel => parameterEnd (otherMore fuel) others otherSpec otherShape none second := by
  have sameAll : SameIf gap.documented (read ++ [uncommentedParameter spec shape])
      (others ++ [uncommentedParameter otherSpec otherShape]) := by
    intro documented
    cases sameParts documented
    rw [sameRead documented]
  have ended {first second : Cursor} (beside : gap.Beside false first second) :
      gap.Follows true (SameIf gap.documented)
        ((get >>= fun ended : Cursor =>
          if ended.justTook "," then more (read ++ [uncommentedParameter spec shape])
          else discard (expect ")") >>= fun _ =>
            pure (read ++ [uncommentedParameter spec shape])) first)
        fun fuel => (get >>= fun ended : Cursor =>
          if ended.justTook "," then
            otherMore fuel (others ++ [uncommentedParameter otherSpec otherShape])
          else discard (expect ")") >>= fun _ =>
            pure (others ++ [uncommentedParameter otherSpec otherShape])) second := by
    refine .justTook_bind beside (by decide) (again _ _ sameAll beside) ?_
    simp only [discard_bind_run]
    exact .close_bind beside fun closed => .done closed sameAll
  rw [beside.plain.parameterEnd]
  simp only [beside.otherPlain.parameterEnd, beside.peek]
  split
  · rename_i isComma
    exact ended (beside.advance_text isComma (by decide))
  · exact ended beside

/-- The parameters of a list, of either kind. -/
def listed (fuel : Nat) : Parse (List Parameter) := do
  let cursor ← get
  if identifierListRun cursor.session cursor.rest then identifierList cursor.rest.length none []
  else parameters fuel none []

/-- A list of bare names is passed whichever way it is read. -/
theorem listed_bareNames
    {cursor : Cursor}
    {names : List Token}
    {ending : Token}
    (plain : cursor.Plain)
    (here : AtBareNames names ending cursor) :
    ∃ parameters least, (∀ fuel, least ≤ fuel →
      listed fuel cursor = .ok parameters (cursor.advanceBy (names.length + 1))) ∧
      (identifierListRun cursor.session cursor.rest = true → parameters = listedNames names) := by
  obtain ⟨bare, closes, rest, isRest⟩ := here
  unfold listed
  simp only [get_bind_run]
  by_cases run : identifierListRun cursor.session cursor.rest = true
  · simp only [if_pos run]
    have enough : names.length ≤ cursor.rest.length := by
      rw [isRest, List.length_append]
      exact Nat.le_add_right _ _
    exact ⟨listedNames names, 0,
      fun _ _ => identifierList_bareNames plain isRest bare closes enough [], fun _ => rfl⟩
  · simp only [if_neg run]
    obtain ⟨parameters, least, read⟩ := parameters_bareNames plain isRest bare closes []
    exact ⟨parameters, least, read, fun isRun => absurd isRun run⟩

/-- A list of parameters with more fuel comes to the same. -/
theorem listed_refines
    {fewer more : Nat}
    (less : fewer ≤ more) :
    Refines (listed fewer) (listed more) := by
  unfold listed
  exact .bind .rfl fun cursor => .ite .rfl ((DeclaratorsRefine.of_le less).parameters _ _)

/-- Where an identifier list is seen, bare names stand. -/
theorem atBareNames_of_identifierListRun
    {cursor : Cursor}
    (run : identifierListRun cursor.session cursor.rest = true) :
    ∃ names ending, AtBareNames names ending cursor := by
  obtain ⟨names, ending, rest, isRest, bare, closes⟩ := bareNames_of_identifierListRun run
  exact ⟨names, ending, bare, closes, rest, isRest⟩

/-- A list of parameters is read with the attributes as without them. -/
theorem listed_follows
    {fuel : Nat}
    (beside : gap.Beside false first second)
    (sameRun : gap.documented → identifierListRun second.session second.rest =
      identifierListRun first.session first.rest)
    (follows : gap.Follows true (SameIf gap.documented) (parameters fuel none [] first)
      fun fuel => parameters fuel none [] second) :
    gap.Follows true (SameIf gap.documented) (listed fuel first)
      fun fuel => listed fuel second := by
  by_cases either : identifierListRun first.session first.rest = true ∨
      identifierListRun second.session second.rest = true
  · -- however a list of bare names is read, the same tokens are taken
    have bare : ∃ names ending, AtBareNames names ending first := by
      rcases either with run | run
      · exact atBareNames_of_identifierListRun run
      · obtain ⟨names, ending, here⟩ := atBareNames_of_identifierListRun run
        exact ⟨names, ending, beside.atBareNames.1 here⟩
    obtain ⟨names, ending, here⟩ := bare
    obtain ⟨values, least, enough, isValues⟩ := listed_bareNames beside.plain here
    obtain ⟨others, otherLeast, otherEnough, isOthers⟩ :=
      listed_bareNames beside.otherPlain (beside.atBareNames.2 here)
    intro value after read
    have further := listed_refines (Nat.le_max_left fuel least) first (by rw [read]; trivial)
    rw [enough _ (Nat.le_max_right fuel least), read] at further
    cases further
    refine ⟨others, _, ⟨otherLeast, otherEnough⟩, fun documented => ?_,
      beside.advanceBy_names here⟩
    rw [sameRun documented, or_self] at either
    rw [isValues either, isOthers ((sameRun documented).trans either)]
  · rw [not_or] at either
    unfold listed
    simp only [get_bind_run, if_neg either.1, if_neg either.2]
    exact follows

/-! ## Declarators and their parameters -/

/-- Where the next token is an attribute, attributes are skipped before further suffixes. -/
theorem suffixes_attribute
    {cursor : Cursor}
    (isAttribute : attributes.contains cursor.peek.text = true)
    (fuel : Nat)
    (base : Option Declarator) :
    suffixes (fuel + 1) base cursor =
      (skipAttributes >>= fun _ => suffixes fuel base) cursor := by
  have noText (text : String) (isMark : isMark text = true) : cursor.peek.hasText text = false := by
    apply Token.hasText_of_text_ne
    intro isText
    have noMark := attribute_noMark isAttribute
    rw [isText, isMark] at noMark
    contradiction
  conv_lhs => unfold suffixes
  rw [sees_bind_run, noText "[" (by decide), if_neg (by simp), sees_bind_run,
    noText "(" (by decide), if_neg (by simp), peek_bind_run, if_pos isAttribute]

theorem skipAttributes_none
    {cursor : Cursor}
    (input : EndsOnce cursor.rest)
    (noAttribute : attributes.contains cursor.peek.text = false) :
    skipAttributes cursor = .ok () cursor := by
  obtain ⟨count, isCount⟩ := Nat.exists_eq_add_one.2 (List.length_pos_iff.2 input.ne_nil)
  unfold skipAttributes
  rw [get_bind_run, isCount, skipAttributesUpTo, peek_bind_run, noAttribute, if_neg (by simp)]
  rfl

/-- Where the next token is no attribute, none are put in before it. -/
theorem Beside.settle
    (beside : gap.Beside within first second fresh)
    (noAttribute : attributes.contains second.peek.text = false) :
    gap.Beside false first second fresh := by
  rcases beside.pass with settled | ⟨isRest, passed⟩
  · exact settled
  · unfold tokens at isRest passed
    cases isRun : gap.run with
    | nil =>
        rw [isRun] at passed
        exact passed
    | cons attr run =>
        rw [isRun, Attribute.runTokens_cons] at isRest
        have isWord : second.peek = attr.word := Cursor.peek_eq_head isRest
        rw [isWord, attr.isAttribute] at noAttribute
        contradiction

/-- The functions that read declarators are in step. -/
structure DeclaratorsFollow (gap : Gap) (fuel : Nat) : Prop where
  declarator {abstractAllowed fresh : Bool} {first second : Cursor} :
    (fresh = true → abstractAllowed = false) → gap.Beside false first second fresh →
    gap.Follows false (Option.Rel (Alike gap.documented)) (declarator fuel abstractAllowed first)
      fun fuel => declarator fuel abstractAllowed second
  directDeclarator {abstractAllowed fresh : Bool} {first second : Cursor} :
    (fresh = true → abstractAllowed = false) → gap.Beside false first second fresh →
    gap.Follows false (Option.Rel (Alike gap.documented))
      (directDeclarator fuel abstractAllowed first)
      fun fuel => directDeclarator fuel abstractAllowed second
  suffixes {base otherBase : Option Declarator} {within : Bool} {first second : Cursor} :
    Option.Rel (Alike gap.documented) base otherBase → gap.Beside within first second →
    gap.Follows false (Option.Rel (Alike gap.documented)) (suffixes fuel base first)
      fun fuel => suffixes fuel otherBase second
  parameterList {first second : Cursor} :
    gap.Beside false first second →
    gap.Follows true (SameIf gap.documented) (parameterList fuel first)
      fun fuel => parameterList fuel second
  parameters {read others : List Parameter} {first second : Cursor} :
    SameIf gap.documented read others → gap.Beside false first second →
    gap.Follows true (SameIf gap.documented) (parameters fuel none read first)
      fun fuel => parameters fuel none others second
  parameterParts {first second : Cursor} :
    gap.Beside false first second →
    gap.Follows false (SameIf gap.documented) (parameterParts fuel first)
      fun fuel => parameterParts fuel second

namespace DeclaratorsFollow

variable {fuel : Nat}

/-- One more step of fuel lets a declarator be read with the attributes. -/
theorem declarator_succ
    (follow : gap.DeclaratorsFollow fuel)
    {abstractAllowed : Bool}
    (named : fresh = true → abstractAllowed = false)
    (beside : gap.Beside false first second fresh) :
    gap.Follows false (Option.Rel (Alike gap.documented))
      (Grammar.declarator (fuel + 1) abstractAllowed first)
      fun fuel => Grammar.declarator fuel abstractAllowed second := by
  apply Follows.more 1
  simp only [Grammar.declarator]
  refine .bind (pointer_follows beside) ?_
  rintro operator _ _ _ rfl beside
  refine .bind (follow.directDeclarator named beside) ?_
  intro direct other _ _ alike beside
  exact .done beside (Alike.withPointer alike operator)

/-- One more step of fuel lets a direct declarator be read with the attributes. -/
theorem directDeclarator_succ
    (follow : gap.DeclaratorsFollow fuel)
    {abstractAllowed : Bool}
    (named : fresh = true → abstractAllowed = false)
    (beside : gap.Beside false first second fresh) :
    gap.Follows false (Option.Rel (Alike gap.documented))
      (Grammar.directDeclarator (fuel + 1) abstractAllowed first)
      fun fuel => Grammar.directDeclarator fuel abstractAllowed second := by
  have sameOpens : (first.peek.hasText "(" && (!abstractAllowed || opensNested second)) =
      (first.peek.hasText "(" && (!abstractAllowed || opensNested first)) := by
    by_cases opens : first.peek.hasText "(" = true
    · rw [beside.opensNested opens]
    · simp [opens]
  apply Follows.more 1
  simp only [Grammar.directDeclarator, get_bind_run, beside.peek, sameOpens]
  split
  · rename_i isName
    simp only [Bool.and_eq_true] at isName
    refine .word_bind beside isName.1 fun taken => ?_
    exact follow.suffixes (.some (.refl rfl)) taken
  split
  · rename_i opens
    simp only [Bool.and_eq_true] at opens
    have taken := beside.advance_text opens.1 (by decide)
    simp only [discard_bind_run, take_bind_run]
    refine .bind (follow.declarator (fun isFresh => by cases isFresh) taken) ?_
    intro inner other _ _ alike beside
    simp only [discard_bind_run]
    exact .close_bind beside fun closed =>
      follow.suffixes (.some (Alike.suffixBase alike).parenthesized) closed
  split
  · rename_i isAbstract
    have notFresh : fresh = false := by
      by_contra isFresh
      rw [named (by simpa using isFresh)] at isAbstract
      contradiction
    subst notFresh
    exact follow.suffixes .none beside
  · exact .fail

/-- One more step of fuel lets suffixes be read with the attributes. -/
theorem suffixes_succ
    (follow : gap.DeclaratorsFollow fuel)
    {base otherBase : Option Declarator}
    (alike : Option.Rel (Alike gap.documented) base otherBase)
    (beside : gap.Beside within first second) :
    gap.Follows false (Option.Rel (Alike gap.documented)) (Grammar.suffixes (fuel + 1) base first)
      fun fuel => Grammar.suffixes fuel otherBase second := by
  have settled {second : Cursor} (beside : gap.Beside false first second) :
      gap.Follows false (Option.Rel (Alike gap.documented))
        (Grammar.suffixes (fuel + 1) base first)
        fun fuel => Grammar.suffixes fuel otherBase second := by
    apply Follows.more 1
    simp only [Grammar.suffixes, sees_bind_run, beside.peek]
    split
    · refine .bind (bracketText_follows beside) ?_
      rintro suffix other _ _ ⟨sameHead, sameText⟩ beside
      exact follow.suffixes (.some ((Alike.suffixBase alike).arrayOf sameHead sameText)) beside
    simp only [sees_bind_run, beside.peek]
    split
    · refine .bind (follow.parameterList beside) ?_
      intro parameters others _ _ sameParameters beside
      exact follow.suffixes (.some ((Alike.suffixBase alike).function sameParameters)) beside
    simp only [peek_bind_run, beside.peek]
    split
    · exact .bind (skipAttributes_follows beside) fun _ _ _ _ _ beside =>
        follow.suffixes alike beside
    · exact .done beside alike
  -- right after a parenthesis the attributes may be next in one file alone
  by_cases otherAttribute : attributes.contains second.peek.text = true
  · apply Follows.more 1
    simp only [suffixes_attribute otherAttribute]
    by_cases isAttribute : attributes.contains first.peek.text = true
    · rw [suffixes_attribute isAttribute]
      exact .bind (skipAttributes_follows beside) fun _ _ _ _ _ beside =>
        follow.suffixes alike beside
    · obtain ⟨_, otherAfter, ⟨least, enough⟩, -, passed⟩ :=
        skipAttributes_follows beside () first
          (skipAttributes_none beside.plain.tidy.input (by simpa using isAttribute))
      simp only [bind_run_ok (enough least (Nat.le_refl _))]
      exact settled passed
  · exact settled (beside.settle (by simpa using otherAttribute))

/-- One more step of fuel lets a parameter list be read with the attributes. -/
theorem parameterList_succ
    (follow : gap.DeclaratorsFollow fuel)
    (beside : gap.Beside false first second) :
    gap.Follows true (SameIf gap.documented) (Grammar.parameterList (fuel + 1) first)
      fun fuel => Grammar.parameterList fuel second := by
  apply Follows.more 1
  simp only [Grammar.parameterList]
  refine .expect_bind beside (by decide) fun opens taken => ?_
  simp only [accept_bind_run, taken.peek]
  split
  · rename_i closes
    exact .done (taken.advance (Token.not_isEnd_of_hasText closes)) fun _ => rfl
  · rw [beside.plain.following]
    exact listed_follows taken (fun documented => beside.identifierListRun_same opens documented)
      (follow.parameters (fun _ => rfl) taken)

/-- One more step of fuel lets parameters be read with the attributes. -/
theorem parameters_succ
    (follow : gap.DeclaratorsFollow fuel)
    {read others : List Parameter}
    (sameRead : SameIf gap.documented read others)
    (beside : gap.Beside false first second) :
    gap.Follows true (SameIf gap.documented) (Grammar.parameters (fuel + 1) none read first)
      fun fuel => Grammar.parameters fuel none others second := by
  apply Follows.more 1
  simp only [parameters_eq, peek_bind_run, beside.peek, (beside.plain.silent rfl).1, itemComment]
  refine .bind (follow.parameterParts beside) ?_
  intro parts otherParts _ _ sameParts beside
  exact parameterEnd_follows sameRead sameParts beside fun read others => follow.parameters

/-- One more step of fuel lets the parts of a parameter be read with the attributes. -/
theorem parameterParts_succ
    (follow : gap.DeclaratorsFollow fuel)
    (beside : gap.Beside false first second) :
    gap.Follows false (SameIf gap.documented) (Grammar.parameterParts (fuel + 1) first)
      fun fuel => Grammar.parameterParts fuel second := by
  apply Follows.more 1
  simp only [Grammar.parameterParts]
  refine .accept_bind beside (by decide) (fun _ taken => .done taken fun _ => rfl) ?_
  simp only [Option.isSome_none, Bool.false_eq_true, if_false]
  refine .bind (declarationSpecifiers_follows .parameter beside) ?_
  rintro specifiers _ _ _ rfl beside
  refine .bind (follow.declarator (fun isFresh => by cases isFresh) beside) ?_
  intro shape other _ _ alike beside
  have sameNone : other.isNone = shape.isNone := by cases alike <;> rfl
  simp only [sameNone]
  split
  · exact .fail
  · exact .done beside fun documented => by rw [Alike.same_of_rel alike documented]

/-- Declarators are read with the attributes as without them, by induction on the fuel. -/
theorem all (fuel : Nat) : gap.DeclaratorsFollow fuel := by
  induction fuel with
  | zero => constructor <;> intros <;> exact .error
  | succ fuel hypothesis =>
      exact {
        declarator := hypothesis.declarator_succ
        directDeclarator := hypothesis.directDeclarator_succ
        suffixes := hypothesis.suffixes_succ
        parameterList := hypothesis.parameterList_succ
        parameters := hypothesis.parameters_succ
        parameterParts := hypothesis.parameterParts_succ }

end DeclaratorsFollow

end Gap
end Grammar
end DeclManual
