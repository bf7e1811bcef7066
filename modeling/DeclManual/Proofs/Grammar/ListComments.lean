import DeclManual.Proofs.Grammar.Takes
import DeclManual.Proofs.Session.Reachable

/-!
# Comments of list items

The items of a parameter list, an identifier list or an enumerator list are divided by
the commas outside all brackets.  The comments of an item are carried by its own tokens
or stand around its separator.  One more goes to a single item: the comment after the
opening bracket is given to the first item that has no comment in front of it.  Since
that need not be the first item of the list, such a comment can be given to an item that
it does not stand before.
-/

namespace DeclManual

/-- The comments that a token carries. -/
def Source.Token.comments (token : Token) : List String :=
  token.commentBefore.toList ++ token.commentAfter.toList

namespace Grammar

open Decl
open Source (Token)

variable {cursor after : Cursor}

/-! ## Pieces of a list -/

/-- The tokens of one item of a list, and the token after them: its separator, or the
bracket that closes the list. -/
structure Piece where
  item : List Token
  ending : Token

namespace Piece

def tokens (piece : Piece) : List Token :=
  piece.item ++ [piece.ending]

/-- The comments that belong to an item: those of its tokens, the one before its
separator, and the one after it. -/
def comments (piece : Piece) : List String :=
  piece.item.flatMap Token.comments ++ piece.ending.commentBefore.toList ++
    if piece.ending.hasText "," then piece.ending.commentAfter.toList else []

/-- Whether there is a comment in front of the item. -/
def opensCommented (piece : Piece) : Bool :=
  (piece.item.head?.bind (·.commentBefore)).isSome

end Piece

/-- Tokens start with the pieces of a list: each item is whole and has a token, and all
but the last are followed by a comma. -/
structure Divides (pieces : List Piece) (tokens : List Token) : Prop where
  front : pieces.flatMap Piece.tokens <+: tokens
  items : ∀ piece ∈ pieces, Whole piece.item ∧ piece.item ≠ []
  commas : ∀ piece ∈ pieces.dropLast, piece.ending.hasText "," = true

namespace Divides

variable {item : List Token} {ending : Token}

theorem nil (tokens : List Token) : Divides [] tokens :=
  ⟨List.nil_prefix, List.forall_mem_nil _, List.forall_mem_nil _⟩

theorem single
    (whole : Whole item)
    (filled : item ≠ []) :
    Divides [⟨item, ending⟩] (item ++ [ending]) where
  front := ⟨[], by simp [Piece.tokens]⟩
  items := by simp [whole, filled]
  commas := by simp

theorem append
    {pieces : List Piece}
    {tokens : List Token}
    (divides : Divides pieces tokens)
    (rest : List Token) :
    Divides pieces (tokens ++ rest) :=
  ⟨divides.front.trans (List.prefix_append tokens rest), divides.items, divides.commas⟩

/-- One more piece in front, which ends with a comma. -/
theorem cons
    {pieces : List Piece}
    {tokens : List Token}
    (divides : Divides pieces tokens)
    (whole : Whole item)
    (filled : item ≠ [])
    (isComma : ending.hasText "," = true) :
    Divides (⟨item, ending⟩ :: pieces) (item ++ ([ending] ++ tokens)) where
  front := by
    obtain ⟨rest, rfl⟩ := divides.front
    exact ⟨rest, by simp [Piece.tokens]⟩
  items := List.forall_mem_cons.2 ⟨⟨whole, filled⟩, divides.items⟩
  commas piece member := by
    cases pieces with
    | nil => simp at member
    | cons next pieces =>
        rw [List.dropLast_cons_cons] at member
        rcases List.mem_cons.1 member with rfl | later
        · exact isComma
        · exact divides.commas piece later

end Divides

/-- The comments of every item belong to it, except that the first item without a comment
in front of it may have the one after the opening bracket. -/
structure CommentsKept
    (leading : Option String)
    (given : List (List String))
    (pieces : List Piece) : Prop where
  length : given.length = pieces.length
  kept : ∀ {index : Nat} {comments : List String} {piece : Piece},
    given[index]? = some comments → pieces[index]? = some piece →
    ∀ comment ∈ comments, comment ∈ piece.comments ∨
      leading = some comment ∧ piece.opensCommented = false ∧
        ∀ earlier ∈ pieces.take index, earlier.opensCommented = true

namespace CommentsKept

theorem nil (leading : Option String) : CommentsKept leading [] [] :=
  ⟨rfl, by simp⟩

/-- One more item in front, which leaves the leading comment if it has one of its own. -/
theorem cons
    {leading : Option String}
    {comments : List String}
    {piece : Piece}
    {given : List (List String)}
    {pieces : List Piece}
    (own : ∀ comment ∈ comments, comment ∈ piece.comments ∨
      leading = some comment ∧ piece.opensCommented = false)
    (others : CommentsKept (if piece.opensCommented then leading else none) given pieces) :
    CommentsKept leading (comments :: given) (piece :: pieces) where
  length := by simp [others.length]
  kept {index _ _} inGiven inPieces comment member := by
    cases index with
    | zero =>
        obtain rfl := Option.some.inj inGiven
        obtain rfl := Option.some.inj inPieces
        exact (own comment member).imp_right fun ⟨isLeading, bare⟩ =>
          ⟨isLeading, bare, List.forall_mem_nil _⟩
    | succ index =>
        rw [List.getElem?_cons_succ] at inGiven inPieces
        refine (others.kept inGiven inPieces comment member).imp_right ?_
        intro ⟨isLeading, bare, earlier⟩
        by_cases commented : piece.opensCommented = true
        · rw [if_pos commented] at isLeading
          refine ⟨isLeading, bare, ?_⟩
          intro other isEarlier
          rw [List.take_succ_cons] at isEarlier
          rcases List.mem_cons.1 isEarlier with rfl | isEarlier
          · exact commented
          · exact earlier other isEarlier
        · rw [if_neg commented] at isLeading
          cases isLeading

end CommentsKept

/-- The comment in front goes to the item unless it has one of its own. -/
theorem itemComment_eq (own leading : Option String) :
    itemComment own leading = (own.or leading, if own.isSome then leading else none) := by
  cases own <;> rfl

/-! ## The end of an item -/

/-- The comments around the end of an item that is followed by the next token. -/
def Cursor.endComments (cursor : Cursor) : List String :=
  cursor.trailingComment.toList ++ cursor.peek.commentBefore.toList ++
    if cursor.peek.hasText "," then cursor.peek.commentAfter.toList else []

/-- The cursor after the separator of an item, if there is one. -/
def Cursor.pastComma (cursor : Cursor) : Cursor :=
  if cursor.peek.hasText "," then cursor.advance else cursor

/-- The comments around a comma are those at the end of the item. -/
theorem trailingComments_eq (cursor : Cursor) :
    trailingComments "," cursor = .ok cursor.endComments cursor.pastComma := by
  rw [trailingComments_run]
  unfold Cursor.endComments Cursor.pastComma
  split <;> simp

/-- The separator has been taken exactly if it was there. -/
theorem Cursor.justTook_pastComma
    (noComma : cursor.justTook "," = false) :
    cursor.pastComma.justTook "," = cursor.peek.hasText "," := by
  unfold Cursor.pastComma
  split
  · rename_i isComma
    rw [Cursor.justTook_of_previous (Cursor.previous_advance (Token.not_isEnd_of_hasText isComma))]
  · rename_i isOther
    rw [noComma]
    simpa using isOther

section

variable {front : List Token} {start : Cursor}

/-- After the tokens of an item the last of them has been taken. -/
theorem Cursor.Passes.previous_of_ne_nil
    (passes : start.Passes front cursor)
    (filled : front ≠ []) :
    cursor.previous = front.getLast? := by
  rw [passes.previous, List.getLast?_eq_some_getLast filled]
  rfl

/-- The token that an item ends with is no comma. -/
theorem Cursor.Passes.justTook_comma
    (passes : start.Passes front cursor)
    (whole : Whole front)
    (filled : front ≠ []) :
    cursor.justTook "," = false := by
  have isLast := List.getLast?_eq_some_getLast filled
  rw [Cursor.justTook_of_previous (by rw [passes.previous_of_ne_nil filled, isLast])]
  exact Token.hasText_of_text_ne (whole.getLast_ne_comma isLast)

/-- The comments around the end of an item belong to it. -/
theorem Cursor.Passes.endComments_mem
    (passes : start.Passes front cursor)
    (filled : front ≠ [])
    {comment : String}
    (member : comment ∈ cursor.endComments) :
    comment ∈ Piece.comments ⟨front, cursor.peek⟩ := by
  unfold Cursor.endComments Cursor.trailingComment at member
  rw [passes.previous_of_ne_nil filled, List.getLast?_eq_some_getLast filled,
    Option.bind_some] at member
  unfold Piece.comments
  simp only [List.mem_append, List.mem_flatMap] at member ⊢
  refine member.imp_left (Or.imp_left fun isLast => ?_)
  exact ⟨_, List.getLast_mem filled, List.mem_append_right _ isLast⟩

/-- The comment in front of an item, or else the leading one. -/
theorem Cursor.Passes.opening
    (passes : start.Passes front cursor)
    (filled : front ≠ []) :
    Piece.opensCommented ⟨front, cursor.peek⟩ = start.peek.commentBefore.isSome ∧
      ∀ comment ∈ start.peek.commentBefore, comment ∈ Piece.comments ⟨front, cursor.peek⟩ := by
  obtain ⟨head, tail, rfl⟩ := List.exists_cons_of_ne_nil filled
  have isPeek : start.peek = head := Cursor.peek_eq_head passes.rest
  rw [isPeek]
  refine ⟨rfl, ?_⟩
  intro comment isComment
  simp [Piece.comments, Token.comments, Option.mem_def.1 isComment]

/-- What an item gets from before it and from around its end belongs to it, the leading
comment apart. -/
theorem Cursor.Passes.item_comments
    {leading : Option String}
    (comments : List String)
    (passes : start.Passes front cursor)
    (filled : front ≠ [])
    (origin : ∀ comment ∈ comments,
      start.peek.commentBefore.or leading = some comment ∨ comment ∈ cursor.endComments) :
    ∀ comment ∈ comments,
      comment ∈ Piece.comments ⟨front, cursor.peek⟩ ∨
        leading = some comment ∧ Piece.opensCommented ⟨front, cursor.peek⟩ = false := by
  intro comment member
  obtain ⟨opening, before⟩ := passes.opening filled
  rcases origin comment member with isBefore | atEnd
  · rcases Option.or_eq_some_iff.1 isBefore with isOwn | ⟨absent, isLeading⟩
    · exact .inl (before comment isOwn)
    · exact .inr ⟨isLeading, by rw [opening, absent]; rfl⟩
  · exact .inl (passes.endComments_mem filled atEnd)

end

/-! ## Parameters -/

/-- Comments for the last of some parameters change no more than its comment. -/
theorem commentLastParameterAll_concat
    (session : Session)
    (read : List Parameter)
    (parameter : Parameter)
    (comments : List String) :
    ∃ commented : Parameter,
      (session.commentLastParameterAll (read ++ [parameter]) comments).2 = read ++ [commented] ∧
        ∀ comment ∈ commented.comment, parameter.comment = some comment ∨ comment ∈ comments := by
  induction comments generalizing session parameter with
  | nil => exact ⟨parameter, rfl, fun _ isComment => .inl isComment⟩
  | cons comment comments hypothesis =>
      unfold Session.commentLastParameterAll Session.commentLastParameter
      rw [List.getLast?_concat, List.dropLast_concat]
      dsimp only
      split
      · obtain ⟨commented, isRead, origin⟩ :=
          hypothesis (session.report (.parameterComments parameter.nameText)) parameter
        exact ⟨commented, isRead, fun other isComment =>
          (origin other isComment).imp_right (List.mem_cons_of_mem comment)⟩
      · obtain ⟨commented, isRead, origin⟩ := hypothesis session
          { parameter with declarator := { parameter.declarator with comment := some comment } }
        refine ⟨commented, isRead, fun other isComment => .inr ?_⟩
        rcases origin other isComment with isFirst | later
        · obtain rfl := Option.some.inj isFirst
          exact List.mem_cons_self
        · exact List.mem_cons_of_mem comment later

/-- What happens at the end of a parameter: it is added with a comment from before it or
from around its end, and further parameters follow a comma or the list is closed. -/
theorem of_parameterEnd
    {more : List Parameter → Parse (List Parameter)}
    {read result : List Parameter}
    {spec : Option Spec}
    {shape : Option Declarator}
    {before : Option String}
    (ended : parameterEnd more read spec shape before cursor = .ok result after)
    (uncommented : Uncommented shape)
    (noComma : cursor.justTook "," = false) :
    ∃ (parameter : Parameter) (session : Session),
      session.typedefs = cursor.session.typedefs ∧
      (∀ comment ∈ parameter.comment, before = some comment ∨ comment ∈ cursor.endComments) ∧
      (cursor.peek.hasText "," = true ∧
          more (read ++ [parameter]) { cursor.advance with session } = .ok result after ∨
        cursor.peek.hasText ")" = true ∧ result = read ++ [parameter] ∧
          after = Cursor.advance { cursor with session }) := by
  unfold parameterEnd commentParameters at ended
  rw [bind_run, trailingComments_eq] at ended
  simp only [act_bind_run, get_bind_run] at ended
  generalize isNew : cursor.pastComma.session.newParameter spec shape before
    cursor.endComments.head? = new at ended
  obtain ⟨commented, isRead, origin⟩ :=
    commentLastParameterAll_concat new.1 read new.2 cursor.endComments.tail
  generalize isSession : (new.1.commentLastParameterAll (read ++ [new.2])
    cursor.endComments.tail).1 = session at ended
  have typedefs : session.typedefs = cursor.session.typedefs := by
    rw [← isSession, typedefs_commentLastParameterAll, ← isNew, typedefs_newParameter]
    unfold Cursor.pastComma
    split
    · rw [Cursor.session_advance]
      rfl
    · rfl
  refine ⟨commented, session, typedefs, ?_, ?_⟩
  · intro comment isComment
    rcases origin comment isComment with isNewComment | later
    · have base : (shape.getD .abstract).comment = none := by
        cases shape with
        | none => rfl
        | some declarator => exact uncommented declarator rfl
      have parts : (before.or cursor.endComments.head?).or (shape.getD .abstract).comment =
          some comment := by
        rw [← isNewComment, ← isNew]
        rfl
      rw [base, Option.or_none] at parts
      rcases Option.or_eq_some_iff.1 parts with isBefore | ⟨-, isHead⟩
      · exact .inl isBefore
      · exact .inr (List.mem_of_mem_head? isHead)
    · exact .inr (List.mem_of_mem_tail later)
  · rw [isRead] at ended
    have justTook := Cursor.justTook_pastComma noComma
    unfold Cursor.pastComma at ended justTook
    by_cases isComma : cursor.peek.hasText "," = true
    · rw [if_pos isComma] at justTook
      rw [if_pos isComma, if_pos (by exact justTook.trans isComma)] at ended
      exact .inl ⟨isComma, ended⟩
    · rw [if_neg isComma] at justTook
      rw [if_neg isComma, if_neg (by exact fun took => isComma (justTook.symm.trans took)),
        discard_bind_run] at ended
      obtain ⟨closes, isDone⟩ := of_expect_bind_run ended
      cases isDone
      exact .inr ⟨closes, rfl, rfl⟩

/-- Tokens through the end of a parameter list from which further parameters have been
read. -/
def ParametersTaken
    (leading : Option String)
    (read : List Parameter)
    (taken : List Token)
    (result : List Parameter) : Prop :=
  Closing taken ∧ ∃ pieces new, result = read ++ new ∧ Divides pieces taken ∧
    CommentsKept leading (new.map (·.comment.toList)) pieces

/-- The parameters of a list from the end of one of them on. -/
theorem parameterEnd_takes
    {start : Cursor}
    {front : List Token}
    {more : List Parameter → Parse (List Parameter)}
    {leading : Option String}
    (read : List Parameter)
    (spec : Option Spec)
    {shape : Option Declarator}
    (uncommented : Uncommented shape)
    (passes : start.Passes front cursor)
    (whole : Whole front)
    (filled : front ≠ [])
    (tidy : Tidy cursor.rest)
    (again : ∀ read session, session.typedefs = cursor.session.typedefs →
      cursor.peek.hasText "," = true →
      Takes { cursor.advance with session }
        (ParametersTaken (if start.peek.commentBefore.isSome then leading else none) read)
        (more read { cursor.advance with session })) :
    Takes cursor (fun taken => ParametersTaken leading read (front ++ taken))
      (parameterEnd more read spec shape (start.peek.commentBefore.or leading) cursor) := by
  intro result after ended
  obtain ⟨parameter, session, typedefs, origin, next⟩ :=
    of_parameterEnd ended uncommented (passes.justTook_comma whole filled)
  have opening := (passes.opening filled).1
  have own := passes.item_comments parameter.comment.toList filled
    fun comment member => origin comment (Option.mem_toList.1 member)
  rcases next with ⟨isComma, further⟩ | ⟨closes, rfl, rfl⟩
  · obtain ⟨taken, advances, closing, pieces, new, rfl, divides, kept⟩ :=
      again _ session typedefs isComma _ _ further
    have comma := (Cursor.Passes.advance (Token.not_isEnd_of_hasText isComma)).act session
    have isClosed : BracketsClosed [cursor.peek] := by
      simp [BracketsClosed, openAfter, Token.text_of_hasText isComma, isOpener, isCloser]
    refine ⟨[cursor.peek] ++ taken, comma.trans advances, ?_, ?_⟩
    · exact (closing.prepend isClosed).prepend whole.closed
    refine ⟨⟨front, cursor.peek⟩ :: pieces, parameter :: new, by simp, ?_, ?_⟩
    · exact divides.cons whole filled isComma
    · exact .cons own (by rwa [opening])
  · have isMark := tidy.mark_of_hasText closes (by decide)
    have bracket : Cursor.Passes { cursor with session } [cursor.peek]
        (Cursor.advance { cursor with session }) :=
      .advance (Token.not_isEnd_of_hasText closes)
    refine ⟨[cursor.peek], ((Cursor.Passes.refl cursor).act session).trans bracket, ?_, ?_⟩
    · refine Closing.prepend ?_ whole.closed
      exact ⟨[], _, rfl, rfl, isMark, by rw [Token.text_of_hasText closes]; decide⟩
    refine ⟨[⟨front, cursor.peek⟩], [parameter], rfl, ?_, ?_⟩
    · exact .single whole filled
    · exact .cons own (.nil _)

/-- An identifier list takes its names, and its comments go to them. -/
theorem identifierList_takes
    (count : Nat)
    (leading : Option String)
    (read : List Parameter)
    (tidy : Tidy cursor.rest)
    (isList : identifierListRun cursor.session cursor.rest = true) :
    Takes cursor (ParametersTaken leading read) (identifierList count leading read cursor) := by
  induction count generalizing leading read cursor with
  | zero => exact .error
  | succ count hypothesis =>
      obtain ⟨name, separator, rest, tokens, isWord, next⟩ := identifierListRun_cases isList
      have isName : cursor.peek = name := Cursor.peek_eq_head tokens
      rw [← isName] at isWord
      have passes := Cursor.Passes.advance (Token.not_isEnd_of_isWord isWord)
      rw [identifierList_eq, take_bind_run, itemComment_eq]
      refine .after_passing passes ?_
      refine parameterEnd_takes read none (uncommented_some rfl) passes
        (.of_isWord tidy.marked_peek isWord) (by simp) (tidy.of_passes passes) ?_
      intro read session typedefs isComma
      -- a comma after a name of the list is followed by a list
      have tidy := tidy.of_passes passes
      have left : cursor.advance.rest = separator :: rest := by
        rw [Cursor.rest_advance (Token.not_isEnd_of_isWord isWord), tokens]
        rfl
      have comma := Cursor.Passes.advance (Token.not_isEnd_of_hasText isComma)
      have isRest : cursor.advance.advance.rest = rest := by
        rw [Cursor.rest_advance (Token.not_isEnd_of_hasText isComma), left]
        rfl
      rw [Cursor.peek_eq_head left] at isComma
      have further : identifierListRun cursor.session rest = true := by
        rcases next with ⟨-, further⟩ | ⟨noComma, -⟩
        · exact further
        · rw [isComma] at noComma
          cases noComma
      refine hypothesis _ read (tidy.of_passes (comma.act session)) ?_
      rw [← further]
      refine (identifierListRun_congr ?_ _).trans (congrArg _ isRest)
      rw [typedefs, Cursor.session_advance]
      rfl

/-- What is taken for a parameter list, and the comments of its parameters. -/
def ListTaken (taken : List Token) (parameters : List Parameter) : Prop :=
  ∃ opener rest pieces, taken = opener :: rest ∧ Divides pieces rest ∧
    CommentsKept opener.commentAfter (parameters.map (·.comment.toList)) pieces

/-- What the functions that read declarators take.  A declarator that is read has no
comment, and unless there is none a token has been taken for it. -/
structure DeclaratorsTake (fuel : Nat) : Prop where
  declarator : ∀ {cursor : Cursor} (abstractAllowed : Bool), Tidy cursor.rest →
    Takes cursor (fun taken shape => Whole taken ∧ (shape = none ∨ taken ≠ []) ∧
      Uncommented shape) (declarator fuel abstractAllowed cursor)
  directDeclarator : ∀ {cursor : Cursor} (abstractAllowed : Bool), Tidy cursor.rest →
    Takes cursor (fun taken shape => Whole taken ∧ (shape = none ∨ taken ≠ []) ∧
      Uncommented shape) (directDeclarator fuel abstractAllowed cursor)
  suffixes : ∀ {cursor : Cursor} {base : Option Declarator}, Uncommented base →
    Tidy cursor.rest →
    Takes cursor (fun taken shape => Whole taken ∧ (shape = base ∨ taken ≠ []) ∧
      Uncommented shape) (suffixes fuel base cursor)
  parameterList : ∀ {cursor : Cursor}, Tidy cursor.rest →
    Takes cursor (fun taken result => Whole taken ∧ ListTaken taken result)
      (parameterList fuel cursor)
  parameters : ∀ {cursor : Cursor} (leading : Option String) (read : List Parameter),
    Tidy cursor.rest →
    Takes cursor (ParametersTaken leading read) (parameters fuel leading read cursor)
  parameterParts : ∀ {cursor : Cursor}, Tidy cursor.rest →
    Takes cursor (fun taken parts => Whole taken ∧ taken ≠ [] ∧ Uncommented parts.2)
      (parameterParts fuel cursor)

namespace DeclaratorsTake

variable {fuel : Nat}

/-- One more step of fuel takes a whole declarator, without comments. -/
theorem declarator_succ
    (take : DeclaratorsTake fuel)
    (abstractAllowed : Bool)
    (tidy : Tidy cursor.rest) :
    Takes cursor (fun taken shape => Whole taken ∧ (shape = none ∨ taken ≠ []) ∧
      Uncommented shape) (Grammar.declarator (fuel + 1) abstractAllowed cursor) := by
  unfold Grammar.declarator
  refine .bind (pointer_takes tidy) ?_
  rintro front operator _ passes ⟨isFront, absent⟩
  refine .bind (take.directDeclarator abstractAllowed (tidy.of_passes passes)) ?_
  rintro further direct _ _ ⟨isFurther, nothing, uncommented⟩
  refine .done (.refl _) ⟨isFront.append (isFurther.append .nil), ?_, uncommented.withPointer _⟩
  rcases absent with rfl | filled
  · exact nothing.imp id fun filled => by simp [filled]
  · exact .inr (by simp [filled])

/-- The suffixes of a declarator for which tokens have been taken. -/
theorem suffixes_after
    (take : DeclaratorsTake fuel)
    (base : Option Declarator)
    {front : List Token}
    {shape : Option Declarator}
    (uncommented : Uncommented shape)
    (isFront : Whole front)
    (filled : front ≠ [])
    (tidy : Tidy cursor.rest) :
    Takes cursor (fun taken shape => Whole (front ++ taken) ∧
      (shape = base ∨ front ++ taken ≠ []) ∧ Uncommented shape)
      (Grammar.suffixes fuel shape cursor) := by
  refine (take.suffixes uncommented tidy).mono ?_
  rintro taken _ ⟨isTaken, _, uncommented⟩
  exact ⟨isFront.append isTaken, .inr (by simp [filled]), uncommented⟩

/-- One more step of fuel takes a whole direct declarator, without comments. -/
theorem directDeclarator_succ
    (take : DeclaratorsTake fuel)
    (abstractAllowed : Bool)
    (tidy : Tidy cursor.rest) :
    Takes cursor (fun taken shape => Whole taken ∧ (shape = none ∨ taken ≠ []) ∧
      Uncommented shape) (Grammar.directDeclarator (fuel + 1) abstractAllowed cursor) := by
  unfold Grammar.directDeclarator
  rw [get_bind_run]
  split
  · rename_i isName
    simp only [Bool.and_eq_true] at isName
    refine .word_bind tidy isName.1 ?_
    intro tidy isName
    exact take.suffixes_after none (uncommented_some rfl) isName (by simp) tidy
  split
  · rename_i opens
    simp only [Bool.and_eq_true] at opens
    have isMark := tidy.mark_of_hasText opens.1 (by decide)
    have passes := Cursor.Passes.advance (Token.not_isEnd_of_hasText opens.1)
    rw [discard_bind_run, take_bind_run]
    refine .after_passing passes ?_
    have tidy := tidy.of_passes passes
    refine .bind (take.declarator abstractAllowed tidy) ?_
    rintro inside inner _ passes ⟨isInside, _, uncommented⟩
    have tidy := tidy.of_passes passes
    rw [discard_bind_run]
    refine .expect_bind ?_
    intro closes passes
    have closing : Closing (inside ++ [_]) :=
      ⟨inside, _, rfl, isInside.closed, tidy.mark_of_hasText closes (by decide),
        by rw [Token.text_of_hasText closes]; decide⟩
    have whole := Whole.bracketed ⟨isMark, by rw [Token.text_of_hasText opens.1]; decide⟩ closing
    have parenthesized : Uncommented (some (suffixBase inner).parenthesized) :=
      uncommented_some uncommented.suffixBase
    refine (take.suffixes_after none parenthesized whole (by simp)
      (tidy.of_passes passes)).mono ?_
    intro taken _ isTaken
    simpa using isTaken
  split
  · exact take.suffixes uncommented_none tidy
  · exact .error

/-- One more step of fuel takes whole suffixes, without comments. -/
theorem suffixes_succ
    (take : DeclaratorsTake fuel)
    {base : Option Declarator}
    (uncommented : Uncommented base)
    (tidy : Tidy cursor.rest) :
    Takes cursor (fun taken shape => Whole taken ∧ (shape = base ∨ taken ≠ []) ∧
      Uncommented shape) (Grammar.suffixes (fuel + 1) base cursor) := by
  unfold Grammar.suffixes
  rw [sees_bind_run]
  split
  · refine .bind (bracketText_takes tidy) ?_
    rintro front _ _ passes ⟨isFront, filled⟩
    exact take.suffixes_after base (uncommented_some uncommented.suffixBase) isFront filled
      (tidy.of_passes passes)
  rw [sees_bind_run]
  split
  · refine .bind (take.parameterList tidy) ?_
    rintro front _ _ passes ⟨isFront, opener, rest, _, isTaken, _⟩
    exact take.suffixes_after base (uncommented_some rfl) isFront (by simp [isTaken])
      (tidy.of_passes passes)
  rw [peek_bind_run]
  split
  · refine .bind (skipAttributes_takes tidy) ?_
    intro front _ _ passes isFront
    refine (take.suffixes uncommented (tidy.of_passes passes)).mono ?_
    rintro taken _ ⟨isTaken, same, uncommented⟩
    exact ⟨isFront.append isTaken, same.imp_right fun filled => by simp [filled], uncommented⟩
  · exact .done (.refl cursor) ⟨.nil, .inl rfl, uncommented⟩

/-- One more step of fuel takes a whole list, whose comments go to its parameters. -/
theorem parameterList_succ
    (take : DeclaratorsTake fuel)
    (tidy : Tidy cursor.rest) :
    Takes cursor (fun taken result => Whole taken ∧ ListTaken taken result)
      (Grammar.parameterList (fuel + 1) cursor) := by
  unfold Grammar.parameterList
  refine .expect_bind ?_
  intro opens passes
  have isMark := tidy.mark_of_hasText opens (by decide)
  have isOpener : cursor.peek.kind = .punctuator ∧ isOpener cursor.peek.text = true :=
    ⟨isMark, by rw [Token.text_of_hasText opens]; decide⟩
  have tidy := tidy.of_passes passes
  -- a list with parameters is what is taken through its closing parenthesis
  have listed (taken : List Token) (result : List Parameter)
      (isRead : ParametersTaken cursor.peek.commentAfter [] taken result) :
      Whole (cursor.peek :: taken) ∧ ListTaken (cursor.peek :: taken) result := by
    obtain ⟨closing, pieces, new, rfl, divides, kept⟩ := isRead
    exact ⟨.bracketed isOpener closing, cursor.peek, taken, pieces, rfl, divides, kept⟩
  refine .accept_bind ?_ ?_
  · intro closes passes
    have isMark := tidy.mark_of_hasText closes (by decide)
    refine .done (.refl _) ⟨?_, cursor.peek, _, [], rfl, .nil _, .nil _⟩
    exact .bracketed isOpener ⟨[], _, rfl, rfl, isMark,
      by rw [Token.text_of_hasText closes]; decide⟩
  · rw [Option.isSome_none, if_neg (by simp), get_bind_run]
    split
    · rename_i isList
      exact (identifierList_takes _ _ _ tidy isList).mono listed
    · exact (take.parameters _ _ tidy).mono listed

/-- One more step of fuel takes further parameters with their comments. -/
theorem parameters_succ
    (take : DeclaratorsTake fuel)
    (leading : Option String)
    (read : List Parameter)
    (tidy : Tidy cursor.rest) :
    Takes cursor (ParametersTaken leading read)
      (Grammar.parameters (fuel + 1) leading read cursor) := by
  rw [parameters_eq, peek_bind_run, itemComment_eq]
  refine .bind (take.parameterParts tidy) ?_
  intro front parts _ passes ⟨isFront, filled, uncommented⟩
  have tidy := tidy.of_passes passes
  refine parameterEnd_takes read parts.1 uncommented passes isFront filled tidy ?_
  intro read session _ isComma
  have comma := Cursor.Passes.advance (Token.not_isEnd_of_hasText isComma)
  exact take.parameters _ read (tidy.of_passes (comma.act session))

/-- One more step of fuel takes the parts of a parameter, without comments. -/
theorem parameterParts_succ
    (take : DeclaratorsTake fuel)
    (tidy : Tidy cursor.rest) :
    Takes cursor (fun taken parts => Whole taken ∧ taken ≠ [] ∧ Uncommented parts.2)
      (Grammar.parameterParts (fuel + 1) cursor) := by
  unfold Grammar.parameterParts
  refine .accept_bind ?_ ?_
  · intro isEllipsis _
    exact .done (.refl _) ⟨.of_text (Token.text_of_hasText isEllipsis) (by decide), by simp,
      uncommented_some rfl⟩
  rw [Option.isSome_none, if_neg (by simp)]
  refine .bind (declarationSpecifiers_takes .parameter tidy) ?_
  rintro front specifiers _ passes ⟨isFront, absent⟩
  refine .bind (take.declarator true (tidy.of_passes passes)) ?_
  rintro further shape _ _ ⟨isFurther, nothing, uncommented⟩
  split
  · exact .error
  rename_i some
  refine .done (.refl _) ⟨isFront.append (isFurther.append .nil), ?_, uncommented⟩
  rcases absent with rfl | filled
  · rcases nothing with rfl | filled
    · exact absurd rfl some
    · simp [filled]
  · simp [filled]

/-- The functions that read declarators take whole runs of tokens with every fuel. -/
theorem all (fuel : Nat) : DeclaratorsTake fuel := by
  induction fuel with
  | zero => constructor <;> intros <;> exact .error
  | succ fuel hypothesis =>
      exact {
        declarator := hypothesis.declarator_succ
        directDeclarator := hypothesis.directDeclarator_succ
        suffixes := hypothesis.suffixes_succ
        parameterList := hypothesis.parameterList_succ
        parameters := hypothesis.parameters_succ
        parameterParts := hypothesis.parameterParts_succ
      }

end DeclaratorsTake

/-! ## Enumerators -/

/-- The comments of an enumerator. -/
def enumeratorComments (enumerator : Enumerator) : List String :=
  enumerator.comment.toList ++ enumerator.groupComment.toList

/-- A comment of a new enumerator stood before it or after it. -/
theorem mem_enumeratorComments_ofComments
    {name comment : String}
    {before after : Option String}
    (member : comment ∈ enumeratorComments (.ofComments name before after)) :
    before = some comment ∨ after = some comment := by
  cases before <;> cases after <;>
    simp_all [enumeratorComments, Enumerator.ofComments, eq_comm, or_comm]

/-- A comment of an enumerator is one that it had or the one it is given. -/
theorem mem_enumeratorComments_attach?
    {enumerator changed : Enumerator}
    {comment other : String}
    (attached : enumerator.attach? comment = some changed)
    (member : other ∈ enumeratorComments changed) :
    other ∈ enumeratorComments enumerator ∨ other = comment := by
  obtain ⟨name, first, group⟩ := enumerator
  cases first <;> cases group <;>
    simp_all [enumeratorComments, Enumerator.attach?, eq_comm] <;>
    (subst attached; simp_all [or_comm])

/-- Lists of enumerators with one more that has been read, unless nothing has. -/
def listsWith
    (lists : List (List Enumerator))
    (entries : List Enumerator) : List (List Enumerator) :=
  if entries.isEmpty then lists else lists ++ [entries]

theorem listsWith_concat
    (lists : List (List Enumerator))
    (entries : List Enumerator)
    (enumerator : Enumerator) :
    listsWith lists (entries ++ [enumerator]) = lists ++ [entries ++ [enumerator]] := by
  simp [listsWith]

/-- The list that enumerators are added to: none before the first. -/
def listFor (lists : List (List Enumerator)) (entries : List Enumerator) : Option ListId :=
  if entries.isEmpty then none else some lists.length

section

variable {lists : List (List Enumerator)} {entries : List Enumerator} {session : Session}

/-- An enumerator is added to the end of the last list. -/
theorem lists_withEnumerator
    (tag : Option String)
    (enumerator : Enumerator)
    (stored : session.enums.lists = listsWith lists entries) :
    (withEnumerator tag (listFor lists entries) enumerator session).2 = lists.length ∧
      (withEnumerator tag (listFor lists entries) enumerator session).1.enums.lists =
        lists ++ [entries ++ [enumerator]] := by
  cases entries with
  | nil =>
      have isLists : session.enums.lists = lists := stored
      cases tag <;> simp [withEnumerator, listFor, Session.newEnumList, EnumStore.start,
        Session.registerEnumTag, isLists]
  | cons first entries =>
      have isLists : session.enums.lists = lists ++ [first :: entries] := stored
      refine ⟨rfl, ?_⟩
      simp [withEnumerator, listFor, Session.appendEnumerator, EnumStore.append, isLists,
        modify_concat]

/-- Comments for the last enumerator of a list change no more than its comments. -/
theorem lists_commentedLast
    {enumerator : Enumerator}
    (comments : List String)
    (stored : session.enums.lists = lists ++ [entries ++ [enumerator]]) :
    ∃ commented : Enumerator,
      (commentedLast lists.length comments session).enums.lists =
        lists ++ [entries ++ [commented]] ∧
      ∀ comment ∈ enumeratorComments commented,
        comment ∈ enumeratorComments enumerator ∨ comment ∈ comments := by
  induction comments generalizing session enumerator with
  | nil => exact ⟨enumerator, stored, fun _ member => .inl member⟩
  | cons comment comments hypothesis =>
      have isList : session.enums.get lists.length = entries ++ [enumerator] := by
        simp [EnumStore.get, stored]
      have step : ∃ changed : Enumerator,
          (session.commentLastEnumerator lists.length comment).1.enums.lists =
            lists ++ [entries ++ [changed]] ∧
          ∀ other ∈ enumeratorComments changed,
            other ∈ enumeratorComments enumerator ∨ other = comment := by
        unfold Session.commentLastEnumerator EnumStore.attachComment
        rw [isList, List.getLast?_concat]
        dsimp only
        cases attached : enumerator.attach? comment with
        | none => exact ⟨enumerator, stored, fun _ member => .inl member⟩
        | some changed =>
            refine ⟨changed, ?_, fun _ => mem_enumeratorComments_attach? attached⟩
            simp [stored, modify_concat]
      obtain ⟨changed, stored, origin⟩ := step
      obtain ⟨commented, isLists, further⟩ := hypothesis stored
      refine ⟨commented, isLists, fun other member => ?_⟩
      rcases further other member with earlier | later
      · rcases origin other earlier with own | rfl
        · exact .inl own
        · exact .inr List.mem_cons_self
      · exact .inr (List.mem_cons_of_mem comment later)

/-- An enumerator is added with comments from before it and from around its end. -/
theorem lists_addedEnumerator
    (tag : Option String)
    (name : String)
    (before : Option String)
    (comments : List String)
    (stored : session.enums.lists = listsWith lists entries) :
    ∃ commented : Enumerator,
      (withEnumerator tag (listFor lists entries) (.ofComments name before comments.head?)
        session).2 = lists.length ∧
      (commentedLast lists.length comments.tail
        (withEnumerator tag (listFor lists entries) (.ofComments name before comments.head?)
          session).1).enums.lists = lists ++ [entries ++ [commented]] ∧
      ∀ comment ∈ enumeratorComments commented, before = some comment ∨ comment ∈ comments := by
  obtain ⟨isList, isLists⟩ :=
    lists_withEnumerator tag (.ofComments name before comments.head?) stored
  obtain ⟨commented, isCommented, origin⟩ := lists_commentedLast comments.tail isLists
  refine ⟨commented, isList, isCommented, fun comment member => ?_⟩
  rcases origin comment member with first | later
  · exact (mem_enumeratorComments_ofComments first).imp_right List.mem_of_mem_head?
  · exact .inr (List.mem_of_mem_tail later)

end

/-! Skipping a separator or a value adds no enumerators. -/

/-- Passing a comma leaves the enumerator lists. -/
theorem enums_pastComma : cursor.pastComma.session.enums = cursor.session.enums := by
  unfold Cursor.pastComma
  split
  · exact enums_advance cursor
  · rfl

/-- A syntax error leaves the enumerator lists. -/
theorem enums_fail {α : Type} (expected : String) :
    (landing (@fail α expected cursor)).session.enums = cursor.session.enums := rfl

/-- Skipping a value leaves the enumerator lists. -/
theorem enums_skipValue (stops : List String) :
    (landing (skipValue stops cursor)).session.enums = cursor.session.enums := by
  unfold skipValue skipExpression
  rw [accept_bind_run]
  split
  · rw [Option.isSome_some, if_pos rfl, get_bind_run]
    dsimp only
    rw [skip_bind_run]
    have skipped := enums_advanceBy (expressionRun stops 0 cursor.advance.rest).1
      cursor.advance
    have passed := skipped.trans (enums_advance cursor)
    cases (expressionRun stops 0 cursor.advance.rest).2 with
    | stop => exact passed
    | unbalanced => exact (enums_fail _).trans passed
    | endOfFile => exact (enums_fail _).trans passed
  · rfl

/-- A list that is closed at once is left as it is. -/
theorem enums_enumerators_of_closed
    (tag : Option String)
    (count : Nat)
    (leading : Option String)
    (list : Option ListId)
    (closes : cursor.peek.hasText "\x7d" = true) :
    (landing (enumerators tag count leading list cursor)).session.enums =
      cursor.session.enums := by
  cases count with
  | zero => rfl
  | succ count =>
      rw [enumerators_succ]
      rw [sees_bind_run, if_pos closes, discard_bind_run, take_bind_run]
      exact enums_advance cursor

/-- From the start of some tokens further enumerators have been added to a list, which is
the last of a session. -/
def EnumeratorsRead
    (leading : Option String)
    (lists : List (List Enumerator))
    (entries : List Enumerator)
    (tokens : List Token)
    (session : Session) : Prop :=
  ∃ pieces new, Divides pieces tokens ∧
    CommentsKept leading (new.map enumeratorComments) pieces ∧
    session.enums.lists = listsWith lists (entries ++ new)

namespace EnumeratorsRead

variable
  {leading : Option String}
  {lists : List (List Enumerator)}
  {entries : List Enumerator}
  {session : Session}

theorem refl
    (tokens : List Token)
    (stored : session.enums.lists = listsWith lists entries) :
    EnumeratorsRead leading lists entries tokens session :=
  ⟨[], [], .nil _, .nil _, by rw [stored, List.append_nil]⟩

section

variable {start : Cursor} {item : List Token} {enumerator : Enumerator}

/-- An enumerator after which no other is read, whatever stands there. -/
theorem last
    (passes : start.Passes item cursor)
    (whole : Whole item)
    (filled : item ≠ [])
    (tidy : Tidy cursor.rest)
    (own : ∀ comment ∈ enumeratorComments enumerator,
      comment ∈ Piece.comments ⟨item, cursor.peek⟩ ∨
        leading = some comment ∧ Piece.opensCommented ⟨item, cursor.peek⟩ = false)
    (stored : session.enums.lists = listsWith lists (entries ++ [enumerator])) :
    EnumeratorsRead leading lists entries start.rest session := by
  refine ⟨[⟨item, cursor.peek⟩], [enumerator], ?_, .cons own (.nil _), stored⟩
  rw [passes.rest, Cursor.rest_eq_peek_cons tidy.input]
  simpa using (Divides.single whole filled).append cursor.rest.tail

/-- An enumerator and a comma in front of further enumerators. -/
theorem cons
    (passes : start.Passes item cursor)
    (whole : Whole item)
    (filled : item ≠ [])
    (isComma : cursor.peek.hasText "," = true)
    (own : ∀ comment ∈ enumeratorComments enumerator,
      comment ∈ Piece.comments ⟨item, cursor.peek⟩ ∨
        leading = some comment ∧ Piece.opensCommented ⟨item, cursor.peek⟩ = false)
    (others : EnumeratorsRead (if start.peek.commentBefore.isSome then leading else none) lists
      (entries ++ [enumerator]) cursor.advance.rest session) :
    EnumeratorsRead leading lists entries start.rest session := by
  obtain ⟨pieces, new, divides, kept, stored⟩ := others
  rw [← (passes.opening filled).1] at kept
  have comma := Cursor.Passes.advance (Token.not_isEnd_of_hasText isComma)
  rw [passes.rest, comma.rest]
  refine ⟨_, enumerator :: new, divides.cons whole filled isComma, .cons own kept, ?_⟩
  rw [stored, List.append_assoc]
  rfl

end

end EnumeratorsRead

/-- The enumerators that a reading adds to its list, also if it fails after some of them. -/
theorem enumerators_comments
    (tag : Option String)
    (count : Nat)
    (leading : Option String)
    {lists : List (List Enumerator)}
    {entries : List Enumerator}
    (tidy : Tidy cursor.rest)
    (stored : cursor.session.enums.lists = listsWith lists entries) :
    EnumeratorsRead leading lists entries cursor.rest
      (landing (enumerators tag count leading (listFor lists entries) cursor)).session := by
  induction count generalizing leading entries cursor with
  | zero => exact .refl _ stored
  | succ count hypothesis =>
      by_cases closes : cursor.peek.hasText "\x7d" = true
      · exact .refl _ (by rw [enums_enumerators_of_closed _ _ _ _ closes, stored])
      rw [enumerators_succ]
      unfold enumeratorName
      rw [sees_bind_run, if_neg closes, bind_assoc, peek_bind_run]
      by_cases isWord : cursor.peek.isWord = true
      swap
      · rw [if_neg isWord]
        exact .refl _ stored
      rw [if_pos isWord, take_bind_run, bind_run]
      have named := Cursor.Passes.advance (Token.not_isEnd_of_isWord isWord)
      have skipped := @enums_skipValue cursor.advance [",", "\x7d"]
      rw [show cursor.advance.session.enums = cursor.session.enums from
        enums_advance cursor] at skipped
      have takes := skipValue_takes (by decide : [",", "\x7d"].contains "," = true)
        (tidy.of_passes named)
      cases result : skipValue [",", "\x7d"] cursor.advance with
      | error error middle =>
          rw [result] at skipped
          exact .refl _ (by rw [← stored]; exact congrArg _ skipped)
      | ok _ middle =>
          rw [result] at skipped
          obtain ⟨value, valued, isValue⟩ := takes _ _ result
          have passes := named.trans valued
          have whole := (Whole.of_isWord tidy.marked_peek isWord).append isValue
          have filled : [cursor.peek] ++ value ≠ [] := by simp
          replace tidy := tidy.of_passes passes
          dsimp only
          rw [bind_run, trailingComments_eq]
          dsimp only
          rw [addEnumerator_bind_run, commentEnumerator_bind_run, get_bind_run]
          have stored : middle.pastComma.session.enums.lists = listsWith lists entries := by
            rw [enums_pastComma, ← stored]
            exact congrArg _ skipped
          obtain ⟨commented, isList, isLists, origin⟩ := lists_addedEnumerator tag
            cursor.peek.text (cursor.peek.commentBefore.or leading) middle.endComments stored
          rw [isList]
          generalize commentedLast lists.length middle.endComments.tail _ = session at isLists
          have own := passes.item_comments (enumeratorComments commented) filled origin
          have justTook := Cursor.justTook_pastComma (passes.justTook_comma whole filled)
          rw [← listsWith_concat] at isLists
          by_cases isComma : middle.peek.hasText "," = true
          · have comma := (Cursor.Passes.advance (Token.not_isEnd_of_hasText isComma)).act session
            have isFor : some lists.length = listFor lists (entries ++ [commented]) := by
              simp [listFor]
            rw [if_pos (by exact justTook.trans isComma), isFor, Cursor.pastComma, if_pos isComma]
            exact .cons passes whole filled isComma own
              (hypothesis _ (tidy.of_passes comma) isLists)
          · -- the list ends here, or its reading fails; either way the enumerator is in it
            rw [if_neg (by exact fun took => isComma (justTook.symm.trans took)),
              Cursor.pastComma, if_neg isComma, sees_bind_run]
            refine .last passes whole filled tidy own ?_
            rw [← isLists]
            by_cases isCloser : middle.peek.hasText "\x7d" = true
            · rw [if_pos (by exact isCloser)]
              exact congrArg _ (enums_enumerators_of_closed _ _ _ _ (by exact isCloser))
            · rw [if_neg (by exact isCloser)]
              rfl

/-- The comments of a list stay with its items.  In every parameter or identifier list
that is read, and in every enumerator list, also one that breaks off, the comments of an
item belong to it; but the first item without a comment in front of it may have the one
after the opening bracket. -/
theorem list_comments_kept
    (tidy : Tidy cursor.rest) :
    (∀ fuel parameters after, parameterList fuel cursor = .ok parameters after →
      ∃ opener rest pieces, cursor.rest = opener :: rest ∧ Divides pieces rest ∧
        CommentsKept opener.commentAfter (parameters.map (·.comment.toList)) pieces) ∧
    ∀ tag, ∃ opener rest pieces entries, cursor.rest = opener :: rest ∧ Divides pieces rest ∧
      CommentsKept opener.commentAfter (entries.map enumeratorComments) pieces ∧
      (landing (enumeratorList tag cursor)).session.enums.lists =
        listsWith cursor.session.enums.lists entries := by
  have isRest := Cursor.rest_eq_peek_cons tidy.input
  constructor
  · intro fuel parameters after read
    obtain ⟨taken, passes, -, opener, rest, pieces, rfl, divides, kept⟩ :=
      (DeclaratorsTake.all fuel).parameterList tidy parameters after read
    exact ⟨opener, rest ++ after.rest, pieces, passes.rest, divides.append after.rest, kept⟩
  · intro tag
    rw [enumeratorList_eq]
    rw [bind_run, expect_run]
    by_cases opens : cursor.peek.hasText "\x7b" = true
    · rw [if_pos opens]
      dsimp only
      rw [get_bind_run]
      have passes := Cursor.Passes.advance (Token.not_isEnd_of_hasText opens)
      have stored : cursor.advance.session.enums.lists =
          listsWith cursor.session.enums.lists [] :=
        congrArg _ (enums_advance cursor)
      obtain ⟨pieces, entries, divides, kept, isStored⟩ :=
        enumerators_comments tag (cursor.advance.rest.length + 1) cursor.peek.commentAfter
          (tidy.of_passes passes) stored
      exact ⟨cursor.peek, cursor.advance.rest, pieces, entries, passes.rest, divides, kept,
        isStored⟩
    · rw [if_neg opens]
      exact ⟨cursor.peek, cursor.rest.tail, [], [], isRest, .nil _, .nil _, rfl⟩

/-! A list with comments in all places. -/

/-- The list of `(int a, char (*g)(int, int), long n);`, with a comment after its
parenthesis, after `a`, before the second comma and in front of `long`. -/
def commentedList : List Token :=
  [{ tokenAt 1 .punctuator "(" with commentAfter := some "first" },
    tokenAt 2 .identifier "int",
    { tokenAt 2 .identifier "a" with commentAfter := some "more of it" },
    tokenAt 2 .punctuator ",", tokenAt 3 .identifier "char", tokenAt 3 .punctuator "(",
    tokenAt 3 .punctuator "*", tokenAt 3 .identifier "g", tokenAt 3 .punctuator ")",
    tokenAt 3 .punctuator "(", tokenAt 3 .identifier "int", tokenAt 3 .punctuator ",",
    tokenAt 3 .identifier "int", tokenAt 3 .punctuator ")",
    { tokenAt 4 .punctuator "," with commentBefore := some "second" },
    { tokenAt 5 .identifier "long" with commentBefore := some "third" },
    tokenAt 5 .identifier "n", tokenAt 5 .punctuator ")", tokenAt 5 .punctuator ";",
    Cursor.endToken]

/-- The tokens of a commented list are tidy. -/
theorem tidy_commentedList : Tidy commentedList where
  input := ⟨commentedList.dropLast, Cursor.endToken, rfl, rfl, rfl, by decide⟩
  marked := by decide

/-- The comments of the parameters that a reading yields. -/
def parameterComments
    (result : EStateM.Result SyntaxError Cursor (List Parameter)) : List (Option String) :=
  match result with
  | .ok parameters _ => parameters.map (·.comment)
  | .error _ _ => []

/-- Each of the three parameters has a comment of its own, though a comma stands inside the
second. -/
theorem list_comments_kept_nested :
    Tidy commentedList ∧
      parameterComments (parameterList 90 { session := {}, rest := commentedList }) =
        [some "first", some "second", some "third"] ∧
      (∀ parameters after,
        parameterList 90 { session := {}, rest := commentedList } = .ok parameters after →
        ∃ opener rest pieces, commentedList = opener :: rest ∧ Divides pieces rest ∧
          CommentsKept opener.commentAfter (parameters.map (·.comment.toList)) pieces) :=
  ⟨tidy_commentedList, by decide +kernel,
    (@list_comments_kept { session := {}, rest := commentedList } tidy_commentedList).1 90⟩

/-- A source whose tokens have a property that can be decided. -/
theorem exists_tokens
    {source : String}
    {holds : List Token → Bool}
    (decided : (match Source.tokenize source none with
      | .ok lexed => holds lexed.tokens
      | .error _ => false) = true) :
    ∃ lexed, Source.tokenize source none = .ok lexed ∧ holds lexed.tokens = true := by
  split at decided
  · rename_i lexed read
    exact ⟨lexed, read, decided⟩
  · cases decided

/-- The comment after an opening bracket can stray: the first item has a comment in front
of it, and the second is given the one after the bracket, although no token from its
separator on carries a comment. -/
theorem leading_comment_strays :
    (∃ lexed, Source.tokenize "( /* one */\n\t/* two */ int a, int b);" none = .ok lexed ∧
      Tidy lexed.tokens ∧ (lexed.tokens.drop 3).flatMap Token.comments = [] ∧
      parameterComments (parameterList 60 { session := {}, rest := lexed.tokens }) =
        [some "two", some "one"]) ∧
    ∃ lexed, Source.tokenize "\x7b /* one */\n\t/* two */ A, B \x7d;" none = .ok lexed ∧
      Tidy lexed.tokens ∧ (lexed.tokens.drop 2).flatMap Token.comments = [] ∧
      (landing (enumeratorList none { session := {}, rest := lexed.tokens })
        ).session.enums.lists =
          [[{ name := "A", comment := some "two" }, { name := "B", comment := some "one" }]] := by
  constructor
  · obtain ⟨lexed, read, holds⟩ := @exists_tokens "( /* one */\n\t/* two */ int a, int b);"
      (fun tokens => (tokens.drop 3).flatMap Token.comments == [] &&
        parameterComments (parameterList 60 { session := {}, rest := tokens }) ==
          [some "two", some "one"]) (by decide +kernel)
    simp only [Bool.and_eq_true, beq_iff_eq] at holds
    exact ⟨lexed, read, tidy_of_tokenize read, holds⟩
  · obtain ⟨lexed, read, holds⟩ := @exists_tokens "\x7b /* one */\n\t/* two */ A, B \x7d;"
      (fun tokens => (tokens.drop 2).flatMap Token.comments == [] &&
        (landing (enumeratorList none { session := {}, rest := tokens })
          ).session.enums.lists == [[{ name := "A", comment := some "two" },
            { name := "B", comment := some "one" }]]) (by decide +kernel)
    simp only [Bool.and_eq_true, beq_iff_eq] at holds
    exact ⟨lexed, read, tidy_of_tokenize read, holds⟩

end Grammar
end DeclManual
