import DeclManual.Proofs.Grammar.FollowingDeclarators
import DeclManual.Proofs.Session.DeclarationPages
import Mathlib.Data.List.Forall2

/-!
# Prototypes with attributes

Attributes may stand between the parameter list of a prototype and its semicolon.  In a
file without comments they change nothing at all.  Where the prototype is documented, they
change nothing as long as it is clear without them whether its parameter list is the
identifier list of a definition; behind a list of bare names, an attribute is taken for the
first declaration of a parameter.
-/

namespace DeclManual
namespace Grammar

open Decl
open Source (CommentFree Token)

namespace Gap

variable {α β : Type} {gap : Gap} {fresh : Bool} {first second : Cursor}

/-! ## Declarations -/

/-- What a reading without fuel comes to in the file with the attributes. -/
theorem Follows.reads
    {related : α → β → Prop}
    {result : EStateM.Result SyntaxError Cursor α}
    {other : EStateM.Result SyntaxError Cursor β}
    {value : α}
    {after : Cursor}
    (follows : gap.Follows false related result (fun _ => other) fresh)
    (read : result = .ok value after) :
    ∃ otherValue otherAfter, other = .ok otherValue otherAfter ∧ related value otherValue ∧
      gap.Beside false after otherAfter fresh := by
  obtain ⟨otherValue, otherAfter, ⟨least, enough⟩, values, beside⟩ := follows value after read
  exact ⟨otherValue, otherAfter, enough least (Nat.le_refl _), values, beside⟩

/-- A declarator that must be there, read with some fuel. -/
def requiredWithin (fuel : Nat) : Parse Declarator := do
  match ← declarator fuel false with
  | some declarator => return declarator
  | none => fail "expected declarator"

theorem requiredDeclarator_run (cursor : Cursor) :
    requiredDeclarator cursor = requiredWithin cursor.fuel cursor := rfl

theorem requiredDeclarator_follows (beside : gap.Beside false first second fresh) :
    gap.Follows false (Alike gap.documented) (requiredDeclarator first)
      fun _ => requiredDeclarator second := by
  rw [requiredDeclarator_run, requiredDeclarator_run]
  refine .fuelled ?_ ?_ ?_
  · refine .bind ((DeclaratorsFollow.all _).declarator (fun _ => rfl) beside) ?_
    intro shape other _ _ alike beside
    cases alike with
    | some alike => exact .done beside alike
    | none => exact .fail
  · intro fewer more less
    exact .bind ((DeclaratorsRefine.of_le less).declarator false) fun _ => .rfl
  · exact (requiredDeclarator_lands beside.otherPlain.tidy.input).finishes

/-- The end of a declarator yields the declarators unchanged, and no comment. -/
theorem declaratorEnd_follows
    {declarators others : List Declarator}
    (beside : gap.Beside false first second) :
    gap.Follows false
      (fun parts otherParts => parts.1 = declarators ∧ otherParts = (others, parts.2) ∧
        parts.2.join = none)
      (declaratorEnd declarators first) fun _ => declaratorEnd others second := by
  unfold declaratorEnd
  simp only [get_bind_run, (beside.plain.silent rfl).2, (beside.otherPlain.silent rfl).2]
  refine .accept_bind beside (by decide) (fun isComma taken => ?_) ?_
  · simp only [beside.plain.following, Option.toList_none, List.append_nil]
    exact .done taken ⟨rfl, rfl, rfl⟩
  · refine .expect_bind beside (by decide) fun isSemicolon taken => ?_
    simp only [beside.plain.following]
    exact .done taken ⟨rfl, rfl, rfl⟩

/-- Past the attributes, right after a semicolon, nothing is left of them. -/
theorem Beside.eq_of_semicolon
    (beside : gap.Beside false first second)
    (ends : first.justTook ";" = true)
    (behind : first.rest.length < gap.after.length) :
    second = first := by
  cases beside.apart with
  | ahead front isRest clear =>
      rw [isRest, List.length_append, List.length_cons] at behind
      omega
  | behind last taken closes =>
      rw [Cursor.justTook_of_previous taken, hasText_closer] at ends
      contradiction
  | past => rfl

/-- Declarators that are alike are in order the same if they are documented. -/
theorem same_of_forall
    {documented : Prop}
    {read others : List Declarator}
    (alike : List.Forall₂ (Alike documented) read others)
    (isDocumented : documented) :
    others = read := by
  induction alike with
  | nil => rfl
  | cons alike _ hypothesis => rw [alike.same isDocumented, hypothesis]

/-- A definition ends with a brace. -/
theorem functionDefinition_ends
    {comment : Option String}
    {spec : Spec}
    {function : Declarator}
    {cursor ended : Cursor}
    (read : functionDefinition comment spec function cursor = .ok () ended) :
    ended.justTook ";" = false := by
  unfold functionDefinition at read
  rw [get_bind_run] at read
  obtain ⟨_, body, -, read⟩ := of_bind_run read
  rw [take_bind_run, peek_bind_run] at read
  obtain ⟨_, closed, skips, read⟩ := of_bind_run read
  obtain ⟨inside, last, rest, isRest, -, noEnd, isMark, -, isClose, rfl⟩ := skipUntilClose_ok skips
  have notEnd : last.isEnd = false := Token.not_isEnd_of_punctuator isMark
  cases read
  rw [Cursor.advanceBy_eq_past isRest noEnd notEnd]
  exact Token.hasText_of_text_ne (by rw [isClose]; decide)

end Gap
end Grammar

/-! ## Declarations without comments -/

namespace Session

open Decl

variable {session : Session} {spec : Spec} {declarators : List Declarator}

/-- A declaration without comments gets no page. -/
theorem rememberDeclarations_uncommented
    (session : Session)
    (spec : Spec)
    (uncommented : ∀ declarator ∈ declarators, declarator.comment = none) :
    session.rememberDeclarations none spec declarators none = (session, true) := by
  have settles : session.commentEndOfLine declarators none = (session, declarators, true) := rfl
  have noPages : session.pagesOf none spec declarators = [] := by
    refine List.filterMap_eq_nil_iff.2 fun declarator member => ?_
    simp [uncommented declarator member, pageOf, deservesPage]
  rw [rememberDeclarations_of_settled settles, noPages, List.append_nil]

end Session
namespace Grammar

open Decl
open Source (CommentFree Token)

namespace Gap

variable {gap : Gap} {fresh : Bool} {first second ended : Cursor} {start : DeclarationStart}

/-- A declaration without comments makes no more known than its typedef names. -/
theorem finishDeclaration_uncommented
    {read : List Declarator}
    (noComment : start.comment = none)
    (uncommented : ∀ declarator ∈ read, declarator.comment = none)
    (cursor : Cursor) :
    finishDeclaration start read none cursor =
      .ok () { cursor with
        session :=
          if start.isTypedef then cursor.session.declareTypedefs start.spec read
          else cursor.session } := by
  unfold finishDeclaration
  rw [act_run, noComment]
  simp only [Session.rememberDeclarations_uncommented _ start.spec uncommented]

/-- A declaration comes to the same end in both files. -/
theorem finishDeclaration_meets
    {read others : List Declarator}
    (alike : List.Forall₂ (Alike gap.documented) read others)
    (told : start.comment = none ∨ gap.documented)
    (beside : gap.Beside false first second)
    (finish : finishDeclaration start read none first = .ok () ended)
    (ends : ended.justTook ";" = true)
    (behind : ended.rest.length < gap.after.length) :
    finishDeclaration start others none second = .ok () ended := by
  have isEnded : ended.justTook ";" = first.justTook ";" ∧ ended.rest = first.rest := by
    cases finish
    exact ⟨rfl, rfl⟩
  rw [isEnded.1] at ends
  rw [isEnded.2] at behind
  rw [beside.eq_of_semicolon ends behind, ← finish]
  rcases told with noComment | documented
  · have uncommented : (∀ declarator ∈ read, declarator.comment = none) ∧
        (∀ declarator ∈ others, declarator.comment = none) ∧
        others.map (·.name) = read.map (·.name) := by
      clear finish
      induction alike with
      | nil => simp
      | cons alike _ hypothesis =>
          obtain ⟨readNone, othersNone, names⟩ := hypothesis
          exact ⟨List.forall_mem_cons.2 ⟨alike.comments.1, readNone⟩,
            List.forall_mem_cons.2 ⟨alike.comments.2, othersNone⟩, by
              rw [List.map_cons, List.map_cons, alike.name, names]⟩
    obtain ⟨readNone, othersNone, names⟩ := uncommented
    have sameTypedefs (session : Session) : session.declareTypedefs start.spec others =
        session.declareTypedefs start.spec read := by
      have sameNames : others.filterMap (·.name) = read.filterMap (·.name) := by
        simpa [List.filterMap_map] using congrArg (List.filterMap id) names
      unfold Session.declareTypedefs
      rw [sameNames]
    rw [finishDeclaration_uncommented noComment othersNone,
      finishDeclaration_uncommented noComment readNone, sameTypedefs]
  · rw [same_of_forall alike documented]

/-- A declarator among those of its declaration, with the comments around it. -/
def placed
    (start : DeclarationStart)
    (comment : Option String)
    (read : List Declarator)
    (declarator : Declarator) : Declarator :=
  if read.isEmpty then { declarator with returnComment := start.returnComment }
  else { declarator with comment := comment.or declarator.comment }

theorem Alike.placed
    {documented : Prop}
    {read others : List Declarator}
    {direct other : Declarator}
    {comment : Option String}
    (alike : Alike documented direct other)
    (alikeRead : List.Forall₂ (Alike documented) read others)
    (noComment : read ≠ [] → comment = none) :
    Alike documented (placed start comment read direct) (placed start comment others other) := by
  cases alikeRead with
  | nil => exact ⟨alike.name, alike.kind, alike.head, alike.comments, fun isDocumented => by
      rw [alike.same isDocumented]⟩
  | cons _ _ =>
      cases noComment (by simp)
      exact ⟨alike.name, alike.kind, alike.head, alike.comments, fun isDocumented => by
        rw [alike.same isDocumented]
        rfl⟩

/-- After a declarator that starts no definition, the declaration goes on or is finished. -/
theorem declarators_run
    (count : Nat)
    {read all : List Declarator}
    {declarator : Declarator}
    {ending : Option (Option String)}
    {cursor declared attributed valued last : Cursor}
    (declares : requiredDeclarator cursor = .ok declarator declared)
    (skips : skipAttributes declared = .ok () attributed)
    (noDefinition : ¬ (read.isEmpty && !start.isTypedef && declarator.isFunction &&
      (attributed.peek.hasText "\x7b" || attributed.peek.isWord)) = true)
    (values : skipValue [",", ";"] attributed = .ok () valued)
    (isEnd : declaratorEnd (read ++ [placed start cursor.peek.commentBefore read declarator])
      valued = .ok (all, ending) last) :
    declarators start (count + 1) read cursor =
      (match ending with
      | none => declarators start count all
      | some endOfLine => finishDeclaration start all endOfLine) last := by
  conv_lhs => unfold declarators
  rw [peek_bind_run, bind_run_ok declares, bind_run_ok skips, peek_bind_run, if_neg noDefinition,
    bind_run_ok values]
  exact (bind_run_ok isEnd _).trans (by cases ending <;> rfl)

/-- A declaration that ends with its semicolon behind the attributes comes to the same end
in both files. -/
theorem declarators_meets
    {count : Nat}
    {read others : List Declarator}
    (alike : List.Forall₂ (Alike gap.documented) read others)
    (told : start.comment = none ∨ gap.documented)
    (blank : fresh = true → read = [])
    (beside : gap.Beside false first second fresh)
    (reads : declarators start count read first = .ok () ended)
    (ends : ended.justTook ";" = true)
    (behind : ended.rest.length < gap.after.length) :
    ∃ least, ∀ fuel, least ≤ fuel → declarators start fuel others second = .ok () ended := by
  induction count generalizing read others fresh first second with
  | zero => cases reads
  | succ count hypothesis =>
      have noComment : read ≠ [] → first.peek.commentBefore = none := by
        intro filled
        cases fresh with
        | true => exact absurd (blank rfl) filled
        | false => exact (beside.plain.silent rfl).1
      have sameEmpty : others.isEmpty = read.isEmpty := by cases alike <;> rfl
      unfold declarators at reads
      rw [peek_bind_run] at reads
      obtain ⟨declarator, declared, declares, reads⟩ := of_bind_run reads
      obtain ⟨other, _, otherDeclares, alikeLast, declaredBeside⟩ :=
        (requiredDeclarator_follows beside).reads declares
      obtain ⟨_, attributed, skips, reads⟩ := of_bind_run reads
      obtain ⟨_, otherAttributed, otherSkips, -, attributedBeside⟩ :=
        (skipAttributes_follows declaredBeside).reads skips
      rw [peek_bind_run] at reads
      split at reads
      · rw [functionDefinition_ends reads] at ends
        contradiction
      rename_i noDefinition
      obtain ⟨_, valued, values, reads⟩ := of_bind_run reads
      obtain ⟨_, otherValued, otherValues, -, valuedBeside⟩ :=
        (skipValue_follows (by decide) (by decide) (by decide) attributedBeside).reads values
      obtain ⟨⟨all, ending⟩, last, isEnd, reads⟩ := of_bind_run reads
      obtain ⟨_, otherLast, otherEnd, ⟨isAll, rfl, noEnding⟩, lastBeside⟩ :=
        (@declaratorEnd_follows gap _ _ _
          (others ++ [placed start first.peek.commentBefore others other])
          valuedBeside).reads isEnd
      have alikeAll : List.Forall₂ (Alike gap.documented) all
          (others ++ [placed start first.peek.commentBefore others other]) := by
        rw [show all = _ from isAll]
        exact List.rel_append alike (.cons (alikeLast.placed alike noComment) .nil)
      have otherNoDefinition : ¬ (others.isEmpty && !start.isTypedef && other.isFunction &&
          (otherAttributed.peek.hasText "\x7b" || otherAttributed.peek.isWord)) = true := by
        rwa [sameEmpty, alikeLast.isFunction, attributedBeside.peek]
      have otherReads (fuel : Nat) := declarators_run fuel otherDeclares otherSkips
        otherNoDefinition otherValues (beside.peek ▸ otherEnd)
      simp only [beside.peek] at otherReads
      cases ending with
      | none =>
          obtain ⟨least, enough⟩ := hypothesis alikeAll (fun isFresh => by cases isFresh)
            lastBeside reads
          refine ⟨least + 1, fun fuel more => ?_⟩
          obtain ⟨fuel, rfl⟩ := Nat.exists_eq_add_of_le' more
          rw [← Nat.add_assoc, otherReads]
          exact enough _ (Nat.le_add_left _ _)
      | some endOfLine =>
          cases noEnding
          refine ⟨1, fun fuel more => ?_⟩
          obtain ⟨fuel, rfl⟩ := Nat.exists_eq_add_of_le' more
          rw [otherReads]
          exact finishDeclaration_meets alikeAll told lastBeside reads ends behind

/-- As many steps as there are tokens are enough. -/
theorem declarators_meets_all
    (told : start.comment = none ∨ gap.documented)
    (beside : gap.Beside false first second fresh)
    (reads : declarators start first.rest.length [] first = .ok () ended)
    (ends : ended.justTook ";" = true)
    (behind : ended.rest.length < gap.after.length) :
    declarators start second.rest.length [] second = .ok () ended := by
  obtain ⟨least, enough⟩ :=
    declarators_meets .nil told (fun _ => rfl) beside reads ends behind
  have finishes : Finishes (declarators start second.rest.length [] second) :=
    (declarators_lands start [] beside.otherPlain.tidy.input (Nat.le_refl _)).finishes
  rw [← declarators_refines start [] (Nat.le_max_right least _) second finishes]
  exact enough _ (Nat.le_max_left _ _)

/-- A declaration is read to the same end, whether attributes stand behind one of its
closing parentheses or not. -/
theorem externalDeclaration_meets
    {front : List Token}
    (isRest : first.rest = front ++ gap.closer :: gap.after)
    (isOther : second = { first with rest := front ++ gap.closer :: (gap.tokens ++ gap.after) })
    (plain : first.Plain true)
    (otherPlain : second.Plain true)
    (clear : gap.documented → gap.Clear first.session front)
    (told : first.peek.commentBefore.or first.carried = none ∨ gap.documented)
    (reads : externalDeclaration first = .ok () ended)
    (ends : ended.justTook ";" = true)
    (behind : ended.rest.length < gap.after.length) :
    externalDeclaration second = .ok () ended := by
  have samePeek : second.peek = first.peek := by
    rw [isOther]
    unfold Cursor.peek
    rw [isRest]
    cases front <;> rfl
  have beside : gap.Beside false { first with carried := none } { second with carried := none }
      true := by
    refine ⟨?_, ⟨plain.tidy, plain.further, plain.following, nofun⟩,
      ⟨otherPlain.tidy, otherPlain.further, otherPlain.following, nofun⟩⟩
    rw [isOther]
    exact .ahead front isRest clear
  have sameCarried : second.carried = first.carried := by rw [isOther]
  unfold externalDeclaration at reads ⊢
  rw [takeCarried_bind_run, peek_bind_run] at reads ⊢
  obtain ⟨specifiers, specified, specifies, reads⟩ := of_bind_run reads
  obtain ⟨_, otherSpecified, otherSpecifies, rfl, specifiedBeside⟩ :=
    (declarationSpecifiers_follows .declaration beside).reads specifies
  rw [bind_run_ok otherSpecifies, sameCarried]
  change (Cursor.peek { second with carried := none }) = _ at samePeek
  rw [samePeek]
  cases specifiers with
  | none => exact declarators_meets_all told specifiedBeside reads ends behind
  | some specifiers =>
      dsimp only at reads ⊢
      rw [accept_bind_run] at reads ⊢
      rw [specifiedBeside.peek]
      split at reads
      · rename_i isSemicolon
        cases reads
        rw [if_pos isSemicolon]
        have closed := specifiedBeside.advance_text isSemicolon (by decide)
        rw [closed.eq_of_semicolon ends behind]
        rfl
      · rename_i noSemicolon
        rw [if_neg noSemicolon]
        simp only [Option.isSome_none, Bool.false_eq_true, if_false] at reads ⊢
        rw [peek_bind_run] at reads ⊢
        rw [specifiedBeside.peek]
        exact declarators_meets_all told specifiedBeside reads ends behind

end Gap

/-! ## Prototypes -/

/-- A parameter list in a file, with the tokens around it: those of the items in front of its
declaration, and those of the declaration in front of the list. -/
structure Prototype where
  before : List Token
  head : List Token
  opener : Token
  inside : List Token
  closer : Token
  after : List Token
  opens : opener.kind = .punctuator ∧ opener.text = "("
  closes : closer.kind = .punctuator ∧ closer.text = ")"
  closed : BracketsClosed inside

namespace Prototype

variable {prototype : Prototype} {session : Session} {start ended : Cursor}

/-- What follows the opening parenthesis, with some attributes after the list. -/
def list (prototype : Prototype) (run : List Attribute) : List Token :=
  prototype.inside ++ prototype.closer :: (Attribute.runTokens run ++ prototype.after)

/-- The file from the declaration on, with some attributes after the list. -/
def declaration (prototype : Prototype) (run : List Attribute) : List Token :=
  prototype.head ++ prototype.opener :: prototype.list run

/-- The tokens of the file with some attributes after the list. -/
def file (prototype : Prototype) (run : List Attribute) : List Token :=
  prototype.before ++ prototype.declaration run

/-- The declaration is reached after some items of the file, and ends with a semicolon behind
the list. -/
structure Read (prototype : Prototype) (session : Session) (start ended : Cursor) : Prop where
  reached : Reached { session, rest := prototype.file [] } start
  here : start.rest = prototype.declaration []
  starts : start.StartsDeclaration
  declared : externalDeclaration start = .ok () ended
  ends : ended.justTook ";" = true
  behind : ended.rest.length < prototype.after.length

/-- What the list is can be told without attributes after it: it stands in no brackets of an
array, and if it is a list of bare names, the body or a parameter declaration of a definition
comes right after it. -/
structure Plain (prototype : Prototype) (session : Session) : Prop where
  arrays : ∀ {earlier later : List Token} {bracket : Token},
    prototype.head = earlier ++ bracket :: later → bracket.hasText "[" = true →
      openAfter 0 later = none
  names : BareNames session prototype.inside → Announces prototype.after = true

/-- No comment stands behind the start of some tokens. -/
def SilentBehind (tokens : List Token) : Prop :=
  (∀ first ∈ tokens.head?, first.commentAfter = none) ∧ CommentFree tokens.tail

/-- A bracket among tokens of which the brackets are closed is closed behind it. -/
theorem closed_behind
    {front back : List Token}
    {bracket : Token}
    (closed : BracketsClosed (front ++ bracket :: back))
    (opens : bracket.kind = .punctuator ∧ isOpener bracket.text = true) :
    openAfter 0 back = none := by
  unfold BracketsClosed at closed
  rw [openAfter_append] at closed
  cases isDepth : openAfter 0 front with
  | none =>
      rw [isDepth] at closed
      cases closed
  | some depth =>
      rw [isDepth] at closed
      have closed : openAfter (depth + 1) back = some 0 := by
        simpa [openAfter, opens] using closed
      by_contra open'
      obtain ⟨left, isLeft⟩ := Option.ne_none_iff_exists'.1 open'
      have further := openAfter_add isLeft (depth + 1)
      rw [Nat.zero_add, closed] at further
      cases further

end Prototype

/-- There are no brackets among bare names. -/
theorem BareNames.bracketsClosed
    {session : Session}
    {names : List Token}
    (bare : BareNames session names) :
    BracketsClosed names := by
  unfold BracketsClosed
  induction names using List.twoStepInduction with
  | nil => rfl
  | singleton name =>
      have isWord : name.kind = .identifier := by simpa [Token.isWord] using bare.1
      simp [openAfter, isWord]
  | cons_cons name separator names hypothesis _ =>
      obtain ⟨isBare, isComma, bare⟩ := bare
      have isWord : name.kind = .identifier := by simpa [Token.isWord] using isBare.1
      have isText := Token.text_of_hasText isComma
      simpa [openAfter, isWord, isText, isOpener, isCloser] using hypothesis bare

namespace Prototype

variable {prototype : Prototype} {session : Session} {start ended : Cursor}

/-- The place after the list. -/
def gap
    (prototype : Prototype)
    (run : List Attribute)
    (documented : Prop) : Gap where
  closer := prototype.closer
  run := run
  after := prototype.after
  closes := prototype.closes
  documented := documented

theorem Plain.clear
    (plain : prototype.Plain session)
    (marked : ∀ token ∈ prototype.declaration [], token.Marked)
    (run : List Attribute)
    (documented : Prop) :
    (prototype.gap run documented).Clear session
      (prototype.head ++ prototype.opener :: prototype.inside) where
  arrays := by
    intro earlier later bracket isFront opens
    rcases Gap.append_cons_cases isFront.symm with
      ⟨more, isHead, rfl⟩ | ⟨-, rfl, -⟩ | ⟨more, -, isInside⟩
    · rw [openAfter_append, plain.arrays isHead opens]
      rfl
    · have isText := Token.text_of_hasText opens
      rw [prototype.opens.2] at isText
      exact absurd isText (by decide)
    · have isText := Token.text_of_hasText opens
      have kind := marked bracket (by simp [declaration, list, isInside]) (by rw [isText]; decide)
      exact closed_behind (isInside ▸ prototype.closed) ⟨kind, by rw [isText]; decide⟩
  names := by
    intro earlier inside opener isFront opens bare
    rcases Gap.append_cons_cases isFront.symm with
      ⟨more, isHead, rfl⟩ | ⟨-, rfl, rfl⟩ | ⟨more, -, isInside⟩
    · have noMark := bare.noMark
        (fun token member => marked token (by
          simp only [declaration, list, isHead, List.mem_append, List.mem_cons] at member ⊢
          tauto))
        "(" (by decide) (by decide)
        (show prototype.opener ∈ more ++ prototype.opener :: prototype.inside by simp)
      simp [Token.hasText, prototype.opens] at noMark
    · exact plain.names bare
    · have isText := Token.text_of_hasText opens
      have kind := marked opener (by simp [declaration, list, isInside]) (by rw [isText]; decide)
      have unclosed := closed_behind (isInside ▸ prototype.closed)
        ⟨kind, by rw [isText]; decide⟩
      rw [bare.bracketsClosed] at unclosed
      cases unclosed

end Prototype

/-- The tokens of attributes are marked as those of a source are. -/
theorem Attribute.marked_run
    {run : List Attribute}
    {token : Token}
    (member : token ∈ Attribute.runTokens run) :
    token.Marked := by
  obtain ⟨attr, -, member⟩ := List.mem_flatMap.1 member
  simp only [Attribute.tokens, List.mem_cons, List.mem_append, List.not_mem_nil, or_false] at member
  rcases member with rfl | rfl | inside | rfl
  · intro isMark
    rw [attribute_noMark attr.isAttribute] at isMark
    contradiction
  · exact fun _ => attr.opens.1
  · exact (attr.proper token inside).2
  · exact fun _ => attr.closes.1

/-- Attributes may be put in anywhere before the end. -/
theorem Tidy.insert
    {front back : List Token}
    (tidy : Tidy (front ++ back))
    (filled : back ≠ [])
    (run : List Attribute) :
    Tidy (front ++ (Attribute.runTokens run ++ back)) := by
  obtain ⟨body, last, isBack⟩ := List.eq_nil_or_concat back |>.resolve_left filled
  rw [List.concat_eq_append] at isBack
  have insertedMarked {token : Token} := @Attribute.marked_run run token
  refine ⟨?_, fun token member => ?_⟩
  · obtain ⟨others, ending, whole, isEnd, empty, proper⟩ := tidy.input
    rw [isBack, ← List.append_assoc] at whole
    obtain ⟨rfl, isLast⟩ := List.append_inj' whole rfl
    obtain rfl := (List.cons.inj isLast).1
    refine ⟨front ++ (Attribute.runTokens run ++ body), last, by simp [isBack], isEnd, empty, ?_⟩
    intro token member
    simp only [List.mem_append] at member proper
    rcases member with early | inserted | late
    · exact proper token (.inl early)
    · refine ⟨Attribute.noEnd_run inserted, fun isWord isComma => ?_⟩
      have kind := insertedMarked inserted (by rw [isComma]; decide)
      rw [Token.isWord, kind] at isWord
      contradiction
    · exact proper token (.inr late)
  · simp only [List.mem_append] at member
    rcases member with early | inserted | late
    · exact tidy.marked token (List.mem_append_left _ early)
    · exact insertedMarked inserted
    · exact tidy.marked token (List.mem_append_right _ late)

/-- What is left after some items stood in the file. -/
theorem Reached.leadsTo
    (fork : Fork)
    {first cursor : Cursor}
    (reached : Reached first cursor) :
    first.LeadsTo cursor := by
  induction reached with
  | start => exact .refl first
  | item _ _ read hypothesis => exact hypothesis.trans ((@Fork.Blind.item fork).leadsTo read)

namespace Prototype

variable {prototype : Prototype} {session : Session} {start ended : Cursor}
  {run : List Attribute}

theorem tidy_file
    (tidy : Tidy (prototype.file []))
    (filled : prototype.after ≠ [])
    (run : List Attribute) :
    Tidy (prototype.file run) := by
  have split (run : List Attribute) : prototype.file run =
      (prototype.before ++ prototype.head ++ prototype.opener ::
        (prototype.inside ++ [prototype.closer])) ++
          (Attribute.runTokens run ++ prototype.after) := by
    simp [file, declaration, list]
  rw [split] at tidy ⊢
  exact tidy.insert filled run

theorem tidy_declaration (tidy : Tidy (prototype.file run)) : Tidy (prototype.declaration run) where
  input := tidy.input.of_append (by simp [declaration])
  marked token member := tidy.marked token (List.mem_append_right _ member)

/-- Before the declaration of a prototype, a comment stands before its first token at most. -/
theorem plain_of_silentBehind
    {cursor : Cursor}
    (isRest : cursor.rest = prototype.declaration run)
    (tidy : Tidy (prototype.file run))
    (silent : SilentBehind (prototype.declaration run)) :
    cursor.Plain true where
  tidy := isRest ▸ tidy_declaration tidy
  further := isRest ▸ silent.2
  following := by
    refine silent.1 _ ?_
    rw [← isRest, Cursor.rest_eq_peek_cons (isRest ▸ (tidy_declaration tidy).input)]
    rfl
  silent := nofun

theorem SilentBehind.without
    (silent : SilentBehind (prototype.declaration run)) :
    SilentBehind (prototype.declaration []) := by
  have member {token : Token} (isTail : token ∈ (prototype.declaration []).tail) :
      token ∈ (prototype.declaration run).tail := by
    cases isHead : prototype.head <;>
    · simp only [declaration, list, isHead, List.nil_append, List.cons_append, List.tail_cons,
        List.mem_append, List.mem_cons, Attribute.runTokens, List.flatMap_nil] at isTail ⊢
      tauto
  refine ⟨fun first isFirst => silent.1 first ?_, fun token isTail => silent.2 token
    (member isTail)⟩
  revert isFirst
  unfold declaration
  cases prototype.head <;> exact id

/-- The two ways in which the file goes on after the opening parenthesis. -/
def fork (prototype : Prototype) (run : List Attribute) : Fork where
  opener := prototype.opener
  here := prototype.list []
  there := prototype.list run
  bracket := "("
  isMark := prototype.opens.1
  isBrace := prototype.opens.2
  isBracket := .inr ⟨rfl, by unfold list; cases prototype.inside <;> rfl⟩

/-- In a file without comments none belongs to the declaration. -/
theorem Read.uncommented
    (reads : prototype.Read session start ended)
    (tidy : Tidy (prototype.file []))
    (uncommented : CommentFree (prototype.file [])) :
    start.peek.commentBefore.or start.carried = none := by
  have isPeek : start.peek ∈ prototype.file [] := by
    apply List.mem_append_right
    rw [← reads.here]
    exact Tidy.peek_mem (reads.here ▸ tidy_declaration tidy)
  rw [(uncommented _ isPeek).1, Option.none_or]
  cases isCarried : start.carried with
  | none => rfl
  | some comment =>
      have leads := reads.reached.leadsTo (prototype.fork [])
      rcases leads.carried comment isCarried with initial | ⟨token, member, isComment⟩
      · cases initial
      · rw [(uncommented token member).1] at isComment
        cases isComment

/-- Attributes change nothing where it can be told without them what the list is, or where
the declaration has no comment. -/
theorem readTokens_run
    (reads : prototype.Read session start ended)
    (tidy : Tidy (prototype.file []))
    (silent : SilentBehind (prototype.declaration run))
    (told : start.peek.commentBefore.or start.carried = none ∨ prototype.Plain start.session) :
    session.readTokens (prototype.file run) = session.readTokens (prototype.file []) := by
  have filled : prototype.after ≠ [] :=
    List.length_pos_iff.1 (Nat.zero_lt_of_lt reads.behind)
  have otherTidy := tidy_file tidy filled run
  have silentWithout := silent.without
  have twins : (prototype.fork run).Twins { session, rest := prototype.file [] }
      { session, rest := prototype.file run } := by
    refine ⟨⟨prototype.before ++ prototype.head, ?_, ?_⟩, tidy.input, otherTidy.input⟩
    · simp [fork, file, declaration]
    · simp [fork, file, declaration]
  have ahead : (prototype.fork run).Ahead start := by
    rw [Fork.Ahead, reads.here]
    simp only [fork, declaration, List.length_append, List.length_cons]
    omega
  obtain ⟨other, otherReached, startTwins⟩ := twins.reached reads.reached ahead
  have otherStarts := startTwins.startsDeclaration reads.starts
  -- both cursors stand before the declaration
  obtain ⟨front, isFront, isOther⟩ := startTwins.apart
  have isHead : front = prototype.head := List.append_cancel_right (isFront.symm.trans reads.here)
  subst isHead
  let documented : Prop := start.peek.commentBefore.or start.carried ≠ none
  have declared : externalDeclaration other = .ok () ended := by
    refine @Gap.externalDeclaration_meets (prototype.gap run documented) start other ended
      (prototype.head ++ prototype.opener :: prototype.inside) ?_ ?_ ?_ ?_ ?_ ?_ reads.declared
      reads.ends reads.behind
    · simp [reads.here, declaration, list, gap, Attribute.runTokens]
    · rw [isOther]
      simp [fork, list, gap, Gap.tokens]
    · exact plain_of_silentBehind reads.here tidy silentWithout
    · exact plain_of_silentBehind (by rw [isOther]; rfl) otherTidy silent
    · intro isDocumented
      exact (told.resolve_left isDocumented).clear
        (fun token member => tidy.marked token (List.mem_append_right _ member)) run _
    · exact Classical.or_iff_not_imp_left.2 id
  have isItem := reads.starts.item.trans (orElseRecorded_run_ok recover reads.declared)
  have otherItem := otherStarts.item.trans (orElseRecorded_run_ok recover declared)
  obtain ⟨startInput, whole⟩ := reads.reached.wholeFile tidy.input
  obtain ⟨otherInput, otherWhole⟩ := otherReached.wholeFile otherTidy.input
  unfold Session.readTokens
  rw [whole, otherWhole, (wholeFile_readOn startInput reads.starts.notEnd isItem).2,
    (wholeFile_readOn otherInput otherStarts.notEnd otherItem).2]

end Prototype

/-- Attributes after the parameter list of a prototype are transparent.  Where no token of the
file has a comment, they leave the session as it is without them.  Where comments stand
before the declaration alone, so that it may get a page, they do so too, unless its list is
one of bare names that no body and no parameter declaration follows. -/
theorem readTokens_attributes
    {session : Session}
    {prototype : Prototype}
    {start ended : Cursor}
    (reads : prototype.Read session start ended)
    (tidy : Tidy (prototype.file []))
    (run : List Attribute) :
    (CommentFree (prototype.file run) →
      session.readTokens (prototype.file run) = session.readTokens (prototype.file [])) ∧
    (Prototype.SilentBehind (prototype.declaration run) → prototype.Plain start.session →
      session.readTokens (prototype.file run) = session.readTokens (prototype.file [])) := by
  refine ⟨fun uncommented => ?_, fun silent plain => ?_⟩
  · have silent : Prototype.SilentBehind (prototype.declaration run) := by
      refine ⟨fun first isFirst => ?_, fun token isTail => ?_⟩
      · exact (uncommented first (List.mem_append_right _ (List.mem_of_mem_head? isFirst))).2
      · exact uncommented token (List.mem_append_right _ (List.mem_of_mem_tail isTail))
    have without : CommentFree (prototype.file []) := by
      intro token member
      apply uncommented token
      simp only [Prototype.file, Prototype.declaration, Prototype.list, Attribute.runTokens,
        List.flatMap_nil, List.nil_append, List.mem_append, List.mem_cons] at member ⊢
      tauto
    exact Prototype.readTokens_run reads tidy silent (.inl (reads.uncommented tidy without))
  · exact Prototype.readTokens_run reads tidy silent (.inr plain)

/-- The file of `int a;` and of a prototype of `f` with a comment before it. -/
def declaring
    (comment : Option String)
    (inside : List Token)
    (closed : BracketsClosed inside) : Prototype where
  before := [tokenAt 1 .identifier "int", tokenAt 1 .identifier "a", tokenAt 1 .punctuator ";"]
  head := [{ tokenAt 2 .identifier "int" with commentBefore := comment },
    tokenAt 2 .identifier "f"]
  opener := tokenAt 2 .punctuator "("
  inside := inside
  closer := tokenAt 2 .punctuator ")"
  after := [tokenAt 3 .punctuator ";", Cursor.endToken]
  opens := ⟨rfl, rfl⟩
  closes := ⟨rfl, rfl⟩
  closed := closed

/-- The attribute `__attribute__((pure))`. -/
def pureAttribute : Attribute where
  word := tokenAt 3 .identifier "__attribute__"
  opener := tokenAt 3 .punctuator "("
  arguments := [tokenAt 3 .punctuator "(", tokenAt 3 .identifier "pure",
    tokenAt 3 .punctuator ")"]
  closer := tokenAt 3 .punctuator ")"
  isWord := rfl
  isAttribute := by decide
  opens := ⟨rfl, rfl⟩
  closes := ⟨rfl, rfl⟩
  closed := by decide
  proper := by decide

/-- The prototype `int f(size);`, without comments. -/
def sized : Prototype :=
  declaring none [tokenAt 2 .identifier "size"] (by decide)

/-- The prototype `int f(size, int n);`, with a comment. -/
def counted : Prototype :=
  declaring (some "Counts.")
    [tokenAt 2 .identifier "size", tokenAt 2 .punctuator ",", tokenAt 2 .identifier "int",
      tokenAt 2 .identifier "n"]
    (by decide)

def declaringSession : Session :=
  (Session.start {}).beginFile (some "a.c") none

/-- Where the second item of the file is a declaration that is read through a semicolon. -/
theorem Prototype.read_second
    {prototype : Prototype}
    {session : Session}
    {first : Cursor}
    (isFirst : { session, rest := prototype.file [] } = first)
    (input : EndsOnce first.rest)
    (notEnd : first.peek.isEnd = false)
    (starts : (landing (item first)).StartsDeclaration)
    (here : (landing (item first)).rest = prototype.declaration [])
    (succeeds : (match externalDeclaration (landing (item first)) with
      | .ok _ ended => ended.justTook ";" && decide (ended.rest.length < prototype.after.length)
      | .error _ _ => false) = true) :
    ∃ ended, prototype.Read session (landing (item first)) ended := by
  obtain ⟨start, isStart, -⟩ := item_onward input notEnd
  have isLanding : landing (item first) = start := by rw [isStart]; rfl
  rw [isLanding] at starts here succeeds ⊢
  cases declared : externalDeclaration start with
  | ok _ ended =>
      rw [declared] at succeeds
      simp only [Bool.and_eq_true, decide_eq_true_eq] at succeeds
      exact ⟨ended, isFirst ▸ .item .start notEnd isStart, here, starts, declared, succeeds.1,
        succeeds.2⟩
  | error error ended =>
      rw [declared] at succeeds
      cases succeeds

theorem tidy_sized : Tidy (sized.file []) where
  input := ⟨(sized.file []).dropLast, Cursor.endToken, rfl, rfl, rfl, by decide⟩
  marked := by decide

theorem tidy_counted : Tidy (counted.file []) where
  input := ⟨(counted.file []).dropLast, Cursor.endToken, rfl, rfl, rfl, by decide⟩
  marked := by decide

theorem read_sized : ∃ start ended, sized.Read declaringSession start ended := by
  obtain ⟨ended, reads⟩ := @Prototype.read_second sized declaringSession _ rfl tidy_sized.input
    (by decide) (by constructor <;> decide +kernel) (by decide +kernel) (by decide +kernel)
  exact ⟨_, ended, reads⟩

theorem read_counted : ∃ start ended, counted.Read declaringSession start ended ∧
    counted.Plain start.session := by
  obtain ⟨ended, reads⟩ := @Prototype.read_second counted declaringSession _ rfl
    tidy_counted.input (by decide) (by constructor <;> decide +kernel) (by decide +kernel)
    (by decide +kernel)
  refine ⟨_, ended, reads, ?_, ?_⟩
  · intro earlier later bracket isHead opens
    have member : bracket ∈ counted.head := by rw [isHead]; simp
    have noBracket : ∀ token ∈ counted.head, token.hasText "[" = false := by decide
    rw [noBracket bracket member] at opens
    contradiction
  · rintro ⟨-, -, keyword, -⟩
    exact absurd keyword.2.1 (by decide)

/-- The attribute changes nothing after the list of `int f(size);`, nor after that of the
documented `int f(size, int n);`, which gets its page with both parameters. -/
theorem readTokens_attributes_pure :
    (∃ start ended, sized.Read declaringSession start ended) ∧
      Tidy (sized.file []) ∧ CommentFree (sized.file [pureAttribute]) ∧
      declaringSession.readTokens (sized.file [pureAttribute]) =
        declaringSession.readTokens (sized.file []) ∧
      (∃ start ended, counted.Read declaringSession start ended ∧
        counted.Plain start.session) ∧
      Tidy (counted.file []) ∧
      Prototype.SilentBehind (counted.declaration [pureAttribute]) ∧
      declaringSession.readTokens (counted.file [pureAttribute]) =
        declaringSession.readTokens (counted.file []) ∧
      (declaringSession.readTokens (counted.file [pureAttribute])).pages.map (fun page =>
          (page.name, page.declarator.headParameters.map fun parameter =>
            (parameter.spec.text, parameter.declarator.name))) =
        [("f", [(some "size", none), (some "int", some "n")])] := by
  have uncommented : CommentFree (sized.file [pureAttribute]) := by decide
  have silent : Prototype.SilentBehind (counted.declaration [pureAttribute]) :=
    ⟨by decide, by decide⟩
  obtain ⟨start, ended, reads⟩ := read_sized
  obtain ⟨countedStart, countedEnded, countedReads, plain⟩ := read_counted
  exact ⟨⟨start, ended, reads⟩, tidy_sized, uncommented,
    (readTokens_attributes reads tidy_sized [pureAttribute]).1 uncommented,
    ⟨countedStart, countedEnded, countedReads, plain⟩, tidy_counted, silent,
    (readTokens_attributes countedReads tidy_counted [pureAttribute]).2 silent plain,
    by decide +kernel⟩

/-- Behind a documented list of bare names the attribute is taken for the declaration of a
parameter: without it, `size` is a type, and with it, the name of a parameter. -/
example :
    let documented := declaring (some "Counts.") [tokenAt 2 .identifier "size"] (by decide)
    let names (run : List Attribute) : List (List (Option String)) :=
      (declaringSession.readTokens (documented.file run)).pages.map fun page =>
        page.declarator.headParameters.map (·.declarator.name)
    names [] = [[none]] ∧ names [pureAttribute] = [[some "size"]] := by
  decide +kernel

end Grammar
end DeclManual
