import DeclManual.Proofs.Grammar.BlindDeclarations
import DeclManual.Proofs.Grammar.Pages

/-!
# Function bodies

The body of a function definition is skipped.  No more is kept of it than the comment
before its first token, and where its last brace stands.  So a file says the same about
its declarations if the body of a definition is replaced by any other tokens in which
the brackets are closed.  Up to the brace the two files are read alike; past the body
the two cursors are the same.
-/

namespace DeclManual
namespace Grammar

open Decl
open Source (Token)

/-! ## Brackets -/

/-- The number of brackets that are open after some tokens; none where one is closed that
had not been opened. -/
def openAfter : (depth : Nat) -> List Token -> Option Nat
  | depth, [] => some depth
  | depth, token :: rest =>
    if token.kind == .punctuator && isOpener token.text then openAfter (depth + 1) rest
    else if token.kind == .punctuator && isCloser token.text then
      match depth with
      | 0 => none
      | depth + 1 => openAfter depth rest
    else openAfter depth rest

/-- Every bracket that is opened is closed, and no other. -/
def BracketsClosed (tokens : List Token) : Prop :=
  openAfter 0 tokens = some 0

instance (tokens : List Token) : Decidable (BracketsClosed tokens) :=
  inferInstanceAs (Decidable (openAfter 0 tokens = some 0))

/-- The run through a closing bracket passes over tokens that open no more than they
close. -/
theorem closingRun_append
    (close : String)
    {depth left : Nat}
    {tokens : List Token}
    (opened : openAfter depth tokens = some left)
    (noEnd : ∀ token ∈ tokens, token.isEnd = false)
    (rest : List Token) :
    closingRun close depth (tokens ++ rest) =
      ((closingRun close left rest).1 + tokens.length, (closingRun close left rest).2) := by
  induction tokens generalizing depth with
  | nil =>
      cases opened
      rfl
  | cons token tokens hypothesis =>
      have notEnd := noEnd token List.mem_cons_self
      have noEnd := fun other member => noEnd other (List.mem_cons_of_mem token member)
      simp only [openAfter] at opened
      simp only [List.cons_append, closingRun, notEnd, Bool.false_eq_true, if_false,
        List.length_cons, ← Nat.add_assoc]
      split_ifs at opened ⊢ with opens closes
      · rw [hypothesis opened noEnd]
      · cases depth with
        | zero => cases opened
        | succ depth =>
            dsimp only at opened ⊢
            rw [hypothesis opened noEnd]
      · rw [hypothesis opened noEnd]

/-! ## Past a body -/

/-- The cursor after some tokens of which the last is given. -/
def Cursor.past (cursor : Cursor) (last : Token) (rest : List Token) : Cursor :=
  { cursor.sync last with rest, previous := some last }

theorem Cursor.advance_eq_past
    {cursor : Cursor}
    {token : Token}
    {rest : List Token}
    (isRest : cursor.rest = token :: rest)
    (notEnd : token.isEnd = false) :
    cursor.advance = cursor.past token rest := by
  unfold advance
  rw [peek_eq_head isRest]
  simp [notEnd, isRest, past]

/-- Of the tokens that are skipped the cursor keeps the last alone. -/
theorem Cursor.advanceBy_eq_past
    {cursor : Cursor}
    {tokens rest : List Token}
    {last : Token}
    (isRest : cursor.rest = tokens ++ last :: rest)
    (noEnd : ∀ token ∈ tokens, token.isEnd = false)
    (notEnd : last.isEnd = false) :
    cursor.advanceBy (tokens.length + 1) = cursor.past last rest := by
  induction tokens generalizing cursor with
  | nil => exact advance_eq_past isRest notEnd
  | cons token tokens hypothesis =>
      have first := advance_eq_past isRest (noEnd token List.mem_cons_self)
      rw [List.length_cons, advanceBy, first, hypothesis rfl fun other member =>
        noEnd other (List.mem_cons_of_mem token member)]
      rfl

/-! ## Definitions -/

/-- What stands at a cursor is read as a declaration. -/
structure Cursor.StartsDeclaration (cursor : Cursor) : Prop where
  notEnd : cursor.peek.isEnd = false
  noSemicolon : cursor.peek.hasText ";" = false
  noCloser : cursor.peek.hasText "\x7d" = false
  noLinkage : cursor.peek.hasText "extern" = true -> (cursor.peekNth 1).kind ≠ .stringLiteral
  noStatement : statementWords.contains cursor.peek.text = false

theorem Cursor.StartsDeclaration.item
    {cursor : Cursor}
    (starts : cursor.StartsDeclaration) :
    item cursor = orElseRecorded externalDeclaration recover cursor := by
  have noLinkage : ¬ (cursor.peek.hasText "extern" &&
      (cursor.peekNth 1).kind == .stringLiteral) = true := by
    simpa using starts.noLinkage
  unfold Grammar.item
  rw [get_bind_run, if_neg (by simp [starts.noSemicolon]), if_neg (by simp [starts.noCloser]),
    if_neg noLinkage, if_neg (by simp only [starts.noStatement, Bool.false_eq_true,
      not_false_eq_true])]

/-- What is known of a function definition when its body is reached. -/
structure Definition where
  comment : Option String
  spec : Spec
  function : Declarator

/-- Reads a function definition up to its body: its specifiers, its declarator and the
declarations of its parameters.  Any other declaration fails. -/
def definitionHead : Parse Definition := do
  let carried ← takeCarried
  let comment := (← peek).commentBefore.or carried
  let specifiers ← declarationSpecifiers .declaration
  let first ← peek
  if specifiers.isSome && first.hasText ";" then fail "expected declarator"
  else
    let declarator ← requiredDeclarator
    skipAttributes
    let next ← peek
    if !(specifiers.map (·.isTypedef)).getD false && declarator.isFunction &&
        (next.hasText "\x7b" || next.isWord) then
      let function ← parameterDeclarations ((← get).rest.length + 1)
        { declarator with returnComment := specifiers.bind fun _ => first.commentBefore }
      return { comment, spec := (specifiers.map (·.spec)).getD (.ofText "int" {}), function }
    else fail "expected function"

namespace Definition

/-- Tells a session a definition, given the comment at the start of its body. -/
def register
    (definition : Definition)
    (bodyComment : Option String)
    (session : Session) : Session :=
  (session.rememberDeclarations
    (definitionComment session.options definition.comment bodyComment) definition.spec
    [{ definition.function with kind := .functionDef }] none).1

/-- Reads the body of a definition. -/
def readBody (definition : Definition) : Parse Unit := do
  let opener ← take
  let bodyComment := opener.commentAfter.or (← peek).commentBefore
  skipUntilClose "\x7d"
  act fun session => (definition.register bodyComment session, ())

theorem functionDefinition_readBody
    {declarator function : Declarator}
    {declared body : Cursor}
    (comment : Option String)
    (spec : Spec)
    (types : parameterDeclarations (declared.rest.length + 1) declarator declared =
      .ok function body) :
    functionDefinition comment spec declarator declared =
      readBody { comment, spec, function } body := by
  unfold functionDefinition
  rw [get_bind_run, bind_run_ok types]
  rfl

end Definition

/-- A declaration whose first declarator is that of a function, before a body or a word,
becomes a definition. -/
theorem declarators_definition
    {start : DeclarationStart}
    {specified declared attributed : Cursor}
    {declarator : Declarator}
    (count : Nat)
    (declares : requiredDeclarator specified = .ok declarator declared)
    (skips : skipAttributes declared = .ok () attributed)
    (notTypedef : start.isTypedef = false)
    (isFunction : declarator.isFunction = true)
    (follows : (attributed.peek.hasText "\x7b" || attributed.peek.isWord) = true) :
    declarators start (count + 1) [] specified =
      functionDefinition start.comment start.spec
        { declarator with returnComment := start.returnComment } attributed := by
  unfold declarators
  rw [peek_bind_run, bind_run_ok declares, bind_run_ok skips, peek_bind_run,
    if_pos (by simp [notTypedef, isFunction, follows])]

/-- A declaration that is read up to the body of a definition goes on with the body. -/
theorem externalDeclaration_readBody
    {definition : Definition}
    {start body : Cursor}
    (input : EndsOnce start.rest)
    (read : definitionHead start = .ok definition body) :
    externalDeclaration start = definition.readBody body := by
  unfold definitionHead at read
  rw [takeCarried_bind_run, peek_bind_run] at read
  obtain ⟨specifiers, specified, specifies, read⟩ := of_bind_run read
  have lands := @declarationSpecifiers_lands .declaration { start with carried := none } input
  rw [specifies] at lands
  obtain ⟨count, isCount⟩ := Nat.exists_eq_add_one.2 (List.length_pos_iff.2 lands.input.ne_nil)
  rw [peek_bind_run] at read
  split at read
  · cases read
  rename_i goesOn
  obtain ⟨declarator, declared, declares, read⟩ := of_bind_run read
  obtain ⟨_, attributed, skips, read⟩ := of_bind_run read
  rw [peek_bind_run] at read
  split at read
  case isFalse => cases read
  rename_i isDefinition
  simp only [Bool.and_eq_true, Bool.not_eq_true'] at isDefinition
  obtain ⟨⟨notTypedef, isFunction⟩, follows⟩ := isDefinition
  rw [get_bind_run] at read
  obtain ⟨function, typed, types, read⟩ := of_bind_run read
  cases read
  unfold externalDeclaration
  rw [takeCarried_bind_run, peek_bind_run, bind_run_ok specifies]
  cases specifiers with
  | none =>
      dsimp only
      rw [get_bind_run, isCount, declarators_definition _ declares skips rfl isFunction follows]
      exact Definition.functionDefinition_readBody _ _ types
  | some specifiers =>
      have noSemicolon : ¬ specified.peek.hasText ";" = true := by simpa using goesOn
      dsimp only
      rw [accept_bind_run, if_neg noSemicolon, Option.isSome_none, if_neg (by simp),
        peek_bind_run, get_bind_run, isCount,
        declarators_definition _ declares skips notTypedef isFunction follows]
      exact Definition.functionDefinition_readBody _ _ types

/-! ## Files that differ in a body -/

/-- The tokens of a file around the body of a function. -/
structure Enclosure where
  before : List Token
  opener : Token
  closer : Token
  after : List Token
  opensMark : opener.kind = .punctuator
  opensBrace : opener.text = "\x7b"
  closesMark : closer.kind = .punctuator
  closesBrace : closer.text = "\x7d"

namespace Enclosure

variable {enclosure : Enclosure} {tokens : List Token}

/-- What follows the opening brace of a given body. -/
def inside (enclosure : Enclosure) (tokens : List Token) : List Token :=
  tokens ++ enclosure.closer :: enclosure.after

/-- The tokens of the file with a given body. -/
def file (enclosure : Enclosure) (tokens : List Token) : List Token :=
  enclosure.before ++ enclosure.opener :: enclosure.inside tokens

/-- The comment before what follows the opening brace: the first token of the body, or the
closing brace where the body is empty. -/
def leadingComment (enclosure : Enclosure) (tokens : List Token) : Option String :=
  (tokens.headD enclosure.closer).commentBefore

/-- No token of a body ends the input. -/
theorem noEnd
    (input : EndsOnce (enclosure.file tokens))
    {token : Token}
    (member : token ∈ tokens) :
    token.isEnd = false := by
  obtain ⟨front, back, rfl⟩ := List.append_of_mem member
  have input : EndsOnce (token :: (back ++ enclosure.closer :: enclosure.after)) := by
    refine @EndsOnce.of_append (enclosure.before ++ enclosure.opener :: front) _ ?_ (by simp)
    simpa [file, inside] using input
  by_contra isEnd
  have nothing := (input.of_isEnd (by simpa using isEnd)).1
  simp at nothing

/-- Past a body in which the brackets are closed, no more is left of it than the comment
at its start. -/
theorem readBody_run
    (definition : Definition)
    {body : Cursor}
    (isBody : body.rest = enclosure.opener :: enclosure.inside tokens)
    (noEnd : ∀ token ∈ tokens, token.isEnd = false)
    (closed : BracketsClosed tokens) :
    definition.readBody body =
      act (fun session =>
          (definition.register
            (enclosure.opener.commentAfter.or (enclosure.leadingComment tokens)) session, ()))
        (body.past enclosure.closer enclosure.after) := by
  have opened : body.advance = body.past enclosure.opener (enclosure.inside tokens) :=
    Cursor.advance_eq_past isBody (Token.not_isEnd_of_punctuator enclosure.opensMark)
  have closerNotEnd : enclosure.closer.isEnd = false :=
    Token.not_isEnd_of_punctuator enclosure.closesMark
  have run : closingRun "\x7d" 0 (enclosure.inside tokens) = (tokens.length + 1, true) := by
    have closes : closingRun "\x7d" 0 (enclosure.closer :: enclosure.after) = (1, true) := by
      simp [closingRun, closerNotEnd, enclosure.closesMark, enclosure.closesBrace, isOpener,
        isCloser]
    rw [inside, closingRun_append "\x7d" closed noEnd, closes, Nat.add_comm]
  have skipped : skipUntilClose "\x7d" body.advance =
      .ok () (body.past enclosure.closer enclosure.after) := by
    have passed := @Cursor.advanceBy_eq_past body.advance tokens enclosure.after enclosure.closer
      (by rw [opened]; rfl) noEnd closerNotEnd
    unfold skipUntilClose
    rw [get_bind_run, show body.advance.rest = enclosure.inside tokens by rw [opened]; rfl, run]
    dsimp only
    rw [skip_bind_run, passed, opened]
    rfl
  have leading : body.advance.peek.commentBefore = enclosure.leadingComment tokens := by
    rw [opened]
    cases tokens <;> rfl
  unfold Definition.readBody
  rw [take_bind_run, peek_bind_run, bind_run_ok skipped, leading, Cursor.peek_eq_head isBody]

end Enclosure

/-! ## Reading up to the brace -/

namespace Fork

variable {fork : Fork} {first second cursor : Cursor}

theorem Twins.startsDeclaration
    (twins : fork.Twins first second)
    (starts : first.StartsDeclaration) :
    second.StartsDeclaration where
  notEnd := by rw [twins.peek, starts.notEnd]
  noSemicolon := by rw [twins.peek, starts.noSemicolon]
  noCloser := by rw [twins.peek, starts.noCloser]
  noLinkage := by
    rw [twins.peek]
    intro isExtern
    rw [twins.peekNth_one (.inl (ne_opener_of_hasText isExtern (by decide)))]
    exact starts.noLinkage isExtern
  noStatement := by rw [twins.peek, starts.noStatement]

/-- The head of a definition is read however the file goes on after the brace. -/
theorem Blind.definitionHead : fork.Blind definitionHead := by
  refine .bind takeCarried fun carried => .bind .peek fun start => ?_
  refine .bind (declarationSpecifiers _) fun specifiers => .bind .peek fun first => ?_
  refine .ite (.fail _) (.bind requiredDeclarator fun declarator => ?_)
  refine .bind skipAttributes fun _ => .bind .peek fun next => .ite ?_ (.fail _)
  rw [← bind_assoc]
  exact .bind (allParameterDeclarations _) fun function => .pure _

/-- The same items are read however the file goes on after the brace. -/
theorem Twins.reached
    (twins : fork.Twins first second)
    (reached : Reached first cursor)
    (ahead : fork.Ahead cursor) :
    ∃ other, Reached second other ∧ fork.Twins cursor other := by
  induction reached with
  | start => exact ⟨second, .start, twins⟩
  | item earlier notEnd read hypothesis =>
      obtain ⟨before, reachedBefore, beforeTwins⟩ := hypothesis (Blind.item.ahead read ahead)
      obtain ⟨after, otherRead, together⟩ := Blind.item.succeeds beforeTwins read ahead
      exact ⟨after, .item reachedBefore (by rw [beforeTwins.peek, notEnd]) otherRead, together⟩

end Fork

/-! ## Reading on -/

/-- A file is read on after an item as it is from its start. -/
theorem wholeFile_readOn
    {cursor after : Cursor}
    (input : EndsOnce cursor.rest)
    (notEnd : cursor.peek.isEnd = false)
    (read : item cursor = .ok () after) :
    EndsOnce after.rest ∧ wholeFile cursor = wholeFile after := by
  obtain ⟨next, isNext, onward⟩ := item_onward input notEnd
  cases read.symm.trans isNext
  refine ⟨onward.input, ?_⟩
  obtain ⟨count, isCount⟩ := Nat.exists_eq_add_one.2 (List.length_pos_iff.2 input.ne_nil)
  have shorter := onward.length
  have finishes {steps : Nat} (enough : after.rest.length ≤ steps) :
      Finishes (items steps after) := by
    obtain ⟨last, complete, -⟩ := items_complete onward.input enough
    rw [complete]
    trivial
  calc
    wholeFile cursor = items (count + 1) cursor := by rw [← isCount]; rfl
    _ = items count after := by
      conv_lhs => unfold items
      rw [peek_bind_run, if_neg (by simp [notEnd]), bind_run_ok read]
    _ = items after.rest.length after :=
      Refines.agree items_refines (finishes (by omega)) (finishes (Nat.le_refl _))

theorem Reached.wholeFile
    {start cursor : Cursor}
    (reached : Reached start cursor)
    (input : EndsOnce start.rest) :
    EndsOnce cursor.rest ∧ wholeFile start = wholeFile cursor := by
  induction reached with
  | start => exact ⟨input, rfl⟩
  | item earlier notEnd read hypothesis =>
      obtain ⟨input, same⟩ := hypothesis
      obtain ⟨inputAfter, sameAfter⟩ := wholeFile_readOn input notEnd read
      exact ⟨inputAfter, same.trans sameAfter⟩

/-- What is left of some tokens starts with the brace that opens the body of a function
definition, which stands between the declarations of the file. -/
def OpensBody (session : Session) (tokens left : List Token) : Prop :=
  ∃ start definition body, Reached { session, rest := tokens } start ∧
    start.StartsDeclaration ∧ definitionHead start = .ok definition body ∧ body.rest = left

namespace Enclosure

variable {enclosure : Enclosure} {tokens : List Token}

/-- Past the body of a definition, a file is read on from a cursor that knows of the body no
more than the comment at its start. -/
theorem wholeFile_definition
    {definition : Definition}
    {first start body : Cursor}
    (reached : Reached first start)
    (starts : start.StartsDeclaration)
    (read : definitionHead start = .ok definition body)
    (isFirst : first.rest = enclosure.file tokens)
    (isBody : body.rest = enclosure.opener :: enclosure.inside tokens)
    (input : EndsOnce (enclosure.file tokens))
    (closed : BracketsClosed tokens) :
    wholeFile first =
      wholeFile { body.past enclosure.closer enclosure.after with
        session := definition.register
          (enclosure.opener.commentAfter.or (enclosure.leadingComment tokens))
          (body.past enclosure.closer enclosure.after).session } := by
  obtain ⟨startInput, same⟩ := reached.wholeFile (by rwa [isFirst])
  have declared := externalDeclaration_readBody startInput read
  rw [readBody_run definition isBody (fun _ => noEnd input) closed] at declared
  have isItem := starts.item.trans (orElseRecorded_run_ok recover declared)
  exact same.trans (wholeFile_readOn startInput starts.notEnd isItem).2

end Enclosure

/-- The body of a function definition does not matter: of two files that differ in the
body of one definition alone, both with their brackets closed in it and the same comment
before its first token, every session comes to the same. -/
theorem readTokens_body
    (session : Session)
    {enclosure : Enclosure}
    {body other : List Token}
    (opens : OpensBody session (enclosure.file body) (enclosure.opener :: enclosure.inside body))
    (input : EndsOnce (enclosure.file body))
    (otherInput : EndsOnce (enclosure.file other))
    (closed : BracketsClosed body)
    (otherClosed : BracketsClosed other)
    (sameComment : enclosure.leadingComment other = enclosure.leadingComment body) :
    session.readTokens (enclosure.file other) = session.readTokens (enclosure.file body) := by
  obtain ⟨start, definition, atBody, reached, starts, read, isBody⟩ := opens
  let fork : Fork :=
    { opener := enclosure.opener, here := enclosure.inside body, there := enclosure.inside other
      isMark := enclosure.opensMark, isBrace := enclosure.opensBrace }
  have twins : fork.Twins { session, rest := enclosure.file body }
      { session, rest := enclosure.file other } :=
    ⟨⟨enclosure.before, rfl, rfl⟩, input, otherInput⟩
  have ahead : fork.Ahead atBody := by
    rw [Fork.Ahead, isBody]
    exact Nat.lt_succ_self _
  have blind := @Fork.Blind.definitionHead fork
  obtain ⟨otherStart, otherReached, startTwins⟩ :=
    twins.reached reached (blind.ahead read ahead)
  obtain ⟨otherAtBody, otherRead, bodyTwins⟩ := blind.succeeds startTwins read ahead
  -- both cursors stand before the brace itself
  obtain ⟨front, isFront, isOther⟩ := bodyTwins.apart
  have nothing : front = [] := List.append_left_eq_self.1 (isFront.symm.trans isBody)
  rw [nothing, List.nil_append] at isOther
  have whole := Enclosure.wholeFile_definition reached starts read rfl isBody input closed
  have otherWhole := Enclosure.wholeFile_definition otherReached
    (startTwins.startsDeclaration starts) otherRead rfl (by rw [isOther]) otherInput otherClosed
  rw [sameComment, isOther] at otherWhole
  unfold Session.readTokens
  rw [whole, otherWhole]
  rfl

/-- A token of the base file `a.c`. -/
def tokenAt (line : Nat) (kind : Token.Kind) (text : String) : Token :=
  { kind, text, line, file := some "a.c", inBaseFile := true }

/-- The file of `int a;`, `f(n) char n;` with a body, and `int b;`. -/
def halving : Enclosure where
  before := [tokenAt 1 .identifier "int", tokenAt 1 .identifier "a", tokenAt 1 .punctuator ";",
    tokenAt 2 .identifier "f", tokenAt 2 .punctuator "(", tokenAt 2 .identifier "n",
    tokenAt 2 .punctuator ")", tokenAt 2 .identifier "char", tokenAt 2 .identifier "n",
    tokenAt 2 .punctuator ";"]
  opener := tokenAt 3 .punctuator "\x7b"
  closer := { tokenAt 9 .punctuator "\x7d" with commentBefore := some "Halves." }
  after := [tokenAt 10 .identifier "int", tokenAt 10 .identifier "b", tokenAt 10 .punctuator ";",
    Cursor.endToken]
  opensMark := rfl
  opensBrace := rfl
  closesMark := rfl
  closesBrace := rfl

/-- The body `return (n[2]);` after a comment. -/
def halvingBody : List Token :=
  [{ tokenAt 4 .identifier "return" with commentBefore := some "Halves." },
    tokenAt 4 .punctuator "(", tokenAt 4 .identifier "n", tokenAt 4 .punctuator "[",
    tokenAt 5 .number "2", tokenAt 5 .punctuator "]", tokenAt 5 .punctuator ")",
    tokenAt 5 .punctuator ";"]

/-- A session that takes comments from the start of bodies. -/
def halvingSession : Session :=
  (Session.start { lookAtBodyStart := true }).beginFile (some "a.c") none

theorem endsOnce_halving
    {body : List Token}
    (proper : ∀ token ∈ body, token.isEnd = false ∧ (token.isWord = true -> token.text ≠ ",")) :
    EndsOnce (halving.file body) := by
  refine ⟨halving.before ++ halving.opener :: body ++ halving.closer :: halving.after.dropLast,
    Cursor.endToken, ?_, rfl, rfl, ?_⟩
  · simp [Enclosure.file, Enclosure.inside, halving]
  · intro token member
    simp only [List.mem_append, List.mem_cons] at member
    rcases member with (member | rfl | member) | rfl | member
    · revert token
      decide
    · decide
    · exact proper token member
    · decide
    · revert token
      decide

/-- The body is reached after the first declaration and the declaration of the parameter. -/
theorem halving_opens : OpensBody halvingSession (halving.file halvingBody)
    (halving.opener :: halving.inside halvingBody) := by
  let first : Cursor := { session := halvingSession, rest := halving.file halvingBody }
  obtain ⟨start, isStart, -⟩ :=
    @item_onward first (endsOnce_halving (by decide)) (by decide)
  have isLanding : start = landing (item first) := by rw [isStart]; rfl
  have starts : start.StartsDeclaration := by
    rw [isLanding]
    constructor <;> decide +kernel
  have head : (match definitionHead start with
      | .ok _ body => body.rest
      | .error _ _ => []) = halving.opener :: halving.inside halvingBody := by
    rw [isLanding]
    decide +kernel
  cases result : definitionHead start with
  | ok definition body =>
      rw [result] at head
      exact ⟨start, definition, body, .item .start (by decide) isStart, starts, result, head⟩
  | error error body =>
      rw [result] at head
      cases head

/-- The definition is documented by the comment in its body, with the statement of its body
and without it. -/
theorem readTokens_body_halving :
    OpensBody halvingSession (halving.file halvingBody)
        (halving.opener :: halving.inside halvingBody) ∧
      halving.leadingComment [] = halving.leadingComment halvingBody ∧
      halvingSession.readTokens (halving.file []) =
        halvingSession.readTokens (halving.file halvingBody) ∧
      (halvingSession.readTokens (halving.file [])).pages.map
        (fun page => (page.name, page.comment)) = [("f", some "Halves.")] :=
  ⟨halving_opens, rfl,
    readTokens_body halvingSession halving_opens (endsOnce_halving (by decide))
      (endsOnce_halving (by decide)) (by decide) (by decide) rfl,
    by decide +kernel⟩

end Grammar
end DeclManual
