import DeclManual.Proofs.Grammar.Pages
import DeclManual.Proofs.Session.Templates

/-!
# Formed declarators

Every declarator that is read is formed: however it is nested, parenthesised and suffixed,
and wherever it stands in a declaration, its text is a template exactly if a parameter list
has been applied to it.  So all pages that are registered hold such parameters only.
-/

namespace DeclManual
namespace Grammar

open Decl
open Source (Token)

variable {α β : Type} {tokens : List Token} {cursor : Cursor}

/-! ## Readings -/

/-- A cursor among fit tokens, in a session whose pages hold what has been read. -/
structure Cursor.Orderly (tokens : List Token) (cursor : Cursor) : Prop where
  sound : cursor.Sound (fun _ => True) tokens
  fresh : cursor.session.PagesFresh

/-- A reading that succeeds yields something with a property and leaves the cursor
orderly. -/
def Yields (tokens : List Token) (holds : α -> Prop) :
    EStateM.Result SyntaxError Cursor α -> Prop
  | .ok value after => after.Orderly tokens ∧ holds value
  | .error _ _ => True

/-- Every list is known where nothing is asked of lists. -/
theorem linked_everything (session : Session) : session.Linked fun _ => True :=
  ⟨fun _ _ _ _ => .inl trivial, fun _ _ _ _ => .inl trivial⟩

namespace Cursor.Orderly

/-- A cursor stays orderly where the session is kept. -/
theorem of_kept
    {after : Cursor}
    (orderly : cursor.Orderly tokens)
    (kept : Kept (fun _ => True) tokens cursor.session after) :
    after.Orderly tokens :=
  ⟨kept.sound, fun page member => orderly.fresh page (kept.upkeep.pages ▸ member)⟩

theorem advance (orderly : cursor.Orderly tokens) : cursor.advance.Orderly tokens :=
  orderly.of_kept (Kept.refl orderly.sound).advance

/-- The session may do anything that leaves its pages as they were read. -/
theorem act
    {session : Session}
    (orderly : cursor.Orderly tokens)
    (fresh : session.PagesFresh) :
    Orderly tokens { cursor with session } :=
  ⟨⟨orderly.sound.fit, orderly.sound.place, orderly.sound.carried, linked_everything session⟩,
    fresh⟩

/-- A session with the same pages holds what has been read as well. -/
theorem fresh_of_pages
    {session : Session}
    (orderly : cursor.Orderly tokens)
    (pages : session.pages = cursor.session.pages) :
    session.PagesFresh :=
  fun page member => orderly.fresh page (pages ▸ member)

end Cursor.Orderly

namespace Yields

variable {holds : α -> Prop}

/-- A reading that keeps a session up leaves its pages as they are. -/
theorem of_keeps
    {result : EStateM.Result SyntaxError Cursor α}
    {kept : Cursor -> α -> Prop}
    (orderly : cursor.Orderly tokens)
    (keeps : Keeps (fun _ => True) tokens cursor.session kept result) :
    Yields tokens (fun _ => True) result := by
  cases result with
  | ok value after => exact ⟨orderly.of_kept keeps.1, trivial⟩
  | error error after => trivial

/-- One reading after another. -/
theorem bind
    {first : Parse α}
    {next : α -> Parse β}
    {holds : β -> Prop}
    {middle : α -> Prop}
    (yields : Yields tokens middle (first cursor))
    (continues : ∀ value after, middle value -> after.Orderly tokens ->
      Yields tokens holds (next value after)) :
    Yields tokens holds ((first >>= next) cursor) := by
  rw [bind_run]
  cases result : first cursor with
  | ok value after =>
      rw [result] at yields
      exact continues value after yields.2 yields.1
  | error error after => trivial

/-- What follows a token that may be there. -/
theorem accept_bind
    {text : String}
    {next : Option Token -> Parse α}
    (orderly : cursor.Orderly tokens)
    (present : cursor.advance.Orderly tokens ->
      Yields tokens holds (next (some cursor.peek) cursor.advance))
    (absent : Yields tokens holds (next none cursor)) :
    Yields tokens holds ((accept text >>= next) cursor) := by
  rw [accept_bind_run]
  split
  · exact present orderly.advance
  · exact absent

/-- What follows a token that has to be there. -/
theorem expect_bind
    {text : String}
    {next : Token -> Parse α}
    (orderly : cursor.Orderly tokens)
    (present : ∀ token, cursor.advance.Orderly tokens ->
      Yields tokens holds (next token cursor.advance)) :
    Yields tokens holds ((expect text >>= next) cursor) := by
  rw [bind_run, expect_run]
  by_cases matching : cursor.peek.hasText text = true
  · rw [if_pos matching]
    exact present _ orderly.advance
  · rw [if_neg matching]
    trivial

end Yields

/-! ## Operators and suffixes -/

/-- A qualifier is a plain word. -/
theorem isPlain_of_qualifier {word : String} (qualifier : qualifiers.contains word = true) :
    IsPlain word := by
  have plain : ∀ word ∈ qualifiers, '%' ∉ word.toList ∧ '[' ∉ word.toList := by decide
  obtain ⟨noPercent, noBracket⟩ := plain word (List.contains_iff_mem.1 qualifier)
  exact ⟨noPercent, noBracket⟩

/-- The tail of a pointer operator adds plain words to its text. -/
theorem pointerTail_yields
    (count : Nat)
    {text : String}
    (orderly : cursor.Orderly tokens)
    (plain : IsPlain text) :
    Yields tokens IsPlain (pointerTail count text cursor) := by
  induction count generalizing text cursor with
  | zero => trivial
  | succ count hypothesis =>
      unfold pointerTail
      simp only [peek_bind_run, sees_bind_run]
      split
      · rw [discard_bind_run, take_bind_run]
        exact hypothesis orderly.advance (plain.append ⟨by decide, by decide⟩)
      split
      · rename_i qualifier
        rw [discard_bind_run, take_bind_run]
        exact hypothesis orderly.advance
          ((plain.append (isPlain_of_qualifier qualifier)).append ⟨by decide, by decide⟩)
      split
      · refine .bind (.of_keeps orderly (skipAttributes_keeps orderly.sound)) ?_
        intro _ after _ orderly
        exact hypothesis orderly plain
      · exact ⟨orderly, plain⟩

/-- The text of a pointer operator is plain. -/
theorem pointer_yields (orderly : cursor.Orderly tokens) :
    Yields tokens (fun operator => ∀ text ∈ operator, IsPlain text) (pointer cursor) := by
  refine .accept_bind orderly ?_ ⟨orderly, fun _ => nofun⟩
  intro orderly
  rw [Option.isSome_some, if_pos rfl, get_bind_run]
  refine .bind (pointerTail_yields _ orderly ⟨by decide, by decide⟩) ?_
  intro text after plain orderly
  refine ⟨orderly, ?_⟩
  rintro _ ⟨⟩
  exact plain

/-- What starts with a bracket is no template. -/
theorem not_isTemplate_runText
    {token : Token}
    (opens : token.hasText "[" = true)
    (count : Nat)
    (rest : List Token) :
    isTemplate (runText false ((token :: rest).take count)) = false := by
  cases count with
  | zero => rfl
  | succ count =>
      have text : token.text = "[" := by
        unfold Token.hasText at opens
        simp only [Bool.and_eq_true, beq_iff_eq] at opens
        exact opens.2
      rw [List.take_succ_cons, runText, Bool.and_false, if_neg (by simp), String.empty_append,
        text, isTemplate_append]
      simp [isTemplate]

/-- The text of brackets is no template. -/
theorem bracketText_yields
    (orderly : cursor.Orderly tokens)
    (opens : cursor.peek.hasText "[" = true) :
    Yields tokens (fun suffix => isTemplate suffix = false) (bracketText cursor) := by
  unfold bracketText
  rw [get_bind_run]
  refine .bind (.of_keeps orderly (skipBalanced_keeps "[" "]" orderly.sound)) ?_
  intro _ after _ orderly
  rw [get_bind_run]
  refine ⟨orderly, ?_⟩
  rw [Cursor.rest_of_not_isEnd (Token.not_isEnd_of_hasText opens)]
  exact not_isTemplate_runText opens _ _

/-- A declarator that is absent is formed. -/
theorem formed_none : ∀ shape ∈ (none : Option Declarator), shape.Formed :=
  fun _ isSome => absurd isSome (Option.not_mem_none _)

/-- A declarator that is there is formed if it is one. -/
theorem formed_some
    {declarator : Declarator}
    (formed : declarator.Formed) :
    ∀ shape ∈ some declarator, shape.Formed := by
  rintro _ ⟨⟩
  exact formed

/-- What suffixes are added to is formed. -/
theorem formed_suffixBase
    {shape : Option Declarator}
    (formed : ∀ declarator ∈ shape, declarator.Formed) :
    (suffixBase shape).Formed := by
  cases shape with
  | none => exact Declarator.formed_ofText rfl none
  | some declarator => exact formed declarator rfl

/-- A pointer to a formed declarator is formed. -/
theorem formed_withPointer
    {operator : Option String}
    {shape : Option Declarator}
    (plain : ∀ text ∈ operator, IsPlain text)
    (formed : ∀ declarator ∈ shape, declarator.Formed) :
    ∀ declarator ∈ withPointer operator shape, declarator.Formed := by
  cases operator with
  | none => exact formed
  | some text =>
      cases shape with
      | some declarator =>
          rintro _ ⟨⟩
          exact (formed declarator rfl).pointerTo (plain text rfl)
      | none =>
          rintro _ ⟨⟩
          refine Declarator.formed_ofText (isTemplate_of_not_mem fun percent => ?_) none
          rw [Option.getD_some, String.toList_ofList, Text.trimEnd, Text.dropEndWhile,
            List.mem_reverse] at percent
          exact (plain text rfl).noPercent
            (List.mem_reverse.1 (List.dropWhile_subset _ percent))

/-! ## Parameter lists -/

/-- The end of a parameter: it joins those before it, and either a further one follows
or the list is closed. -/
theorem parameterEnd_yields
    {read : List Parameter}
    (spec : Option Spec)
    {shape : Option Declarator}
    (before after : Option String)
    (comments : List String)
    {next : List Parameter -> Parse (List Parameter)}
    (orderly : cursor.Orderly tokens)
    (fresh : HeldAll ParameterOf.Fresh read)
    (formed : ∀ declarator ∈ shape, declarator.Formed)
    (further : cursor.justTook "," = true -> ∀ {session : Session} {read : List Parameter},
      Cursor.Orderly tokens { cursor with session } -> HeldAll ParameterOf.Fresh read ->
      Yields tokens (HeldAll ParameterOf.Fresh) (next read { cursor with session })) :
    Yields tokens (HeldAll ParameterOf.Fresh)
      ((do
        let parameter ← act fun session => session.newParameter spec shape before after
        let read ← commentParameters (read ++ [parameter]) comments
        if (← get).justTook "," then next read
        else
          discard (expect ")")
          return read : Parse (List Parameter)) cursor) := by
  obtain ⟨upkeep, -⟩ : cursor.session.Upkeep (fun _ => True) _ ∧ _ :=
    @Session.addParameter_upkeep _ (fun _ => True) cursor.session read
      (fun _ _ => ⟨fun _ _ => trivial, fun _ _ _ _ => trivial⟩) spec shape
      (fun _ _ _ _ => trivial) (fun _ _ _ _ _ _ => trivial) before after comments
  have added := Session.heldAll_addParameter cursor.session fresh spec formed before after comments
  have orderly := orderly.act (orderly.fresh_of_pages upkeep.pages)
  unfold commentParameters
  simp only [act_bind_run, get_bind_run]
  split
  · rename_i took
    exact further took orderly added
  · rw [discard_bind_run]
    refine .expect_bind orderly ?_
    intro _ orderly
    exact ⟨orderly, added⟩

/-- The names of an identifier list are words, as the run of tokens has shown that was looked
at before the list is read. -/
theorem identifierList_yields
    (count : Nat)
    (leading : Option String)
    {session : Session}
    {read : List Parameter}
    (run : identifierListRun session cursor.rest = true)
    (orderly : cursor.Orderly tokens)
    (fresh : HeldAll ParameterOf.Fresh read) :
    Yields tokens (HeldAll ParameterOf.Fresh) (identifierList count leading read cursor) := by
  induction count generalizing leading read cursor with
  | zero => trivial
  | succ count hypothesis =>
      obtain ⟨name, separator, rest, isRest, word, next⟩ := identifierListRun_cases run
      have isName := Cursor.peek_eq_head isRest
      have wordText := (isName ▸ orderly.sound.fit_peek).word word
      have notEnd : cursor.peek.isEnd = false := by
        rw [isName]
        exact Token.not_isEnd_of_isWord word
      have left : cursor.advance.rest = separator :: rest := by
        rw [Cursor.rest_advance notEnd, isRest]
        rfl
      have isSeparator := Cursor.peek_eq_head left
      have named := formed_some (Declarator.formed_identifier wordText)
      unfold identifierList
      rw [take_bind_run, isName]
      cases itemComment name.commentBefore leading with
      | mk before leading =>
        dsimp only
        rw [bind_run, trailingComments_run, isSeparator]
        rcases next with ⟨comma, further⟩ | ⟨noComma, -⟩
        · rw [if_pos comma]
          refine parameterEnd_yields none before _ _ orderly.advance.advance fresh named ?_
          intro _ session read orderly fresh
          refine hypothesis leading ?_ orderly fresh
          have separatorNotEnd : cursor.advance.peek.isEnd = false := by
            rw [isSeparator]
            exact Token.not_isEnd_of_hasText comma
          have onward : cursor.advance.advance.rest = rest := by
            rw [Cursor.rest_advance separatorNotEnd, left]
            rfl
          exact onward ▸ further
        · rw [if_neg (by simp [noComma])]
          refine parameterEnd_yields none before _ _ orderly.advance fresh named ?_
          -- the token taken last is the name, which is no comma
          intro took
          rw [Cursor.justTook_of_previous (Cursor.previous_advance notEnd), isName] at took
          have isComma : name.text = "," := by
            simp only [Token.hasText, Bool.and_eq_true, beq_iff_eq] at took
            exact took.2
          have notWord : Source.isWordChar ',' = true := wordText.2 ',' (by simp [isComma])
          cases notWord

/-- What the functions that read declarators yield, whatever their fuel is. -/
structure DeclaratorsYield (tokens : List Token) (fuel : Nat) : Prop where
  declarator :
    ∀ {cursor : Cursor} (abstractAllowed : Bool), cursor.Orderly tokens ->
      Yields tokens (fun shape => ∀ declarator ∈ shape, declarator.Formed)
        (declarator fuel abstractAllowed cursor)
  directDeclarator :
    ∀ {cursor : Cursor} (abstractAllowed : Bool), cursor.Orderly tokens ->
      Yields tokens (fun shape => ∀ declarator ∈ shape, declarator.Formed)
        (directDeclarator fuel abstractAllowed cursor)
  suffixes :
    ∀ {cursor : Cursor} {shape : Option Declarator},
      cursor.Orderly tokens -> (∀ declarator ∈ shape, declarator.Formed) ->
      Yields tokens (fun shape => ∀ declarator ∈ shape, declarator.Formed)
        (suffixes fuel shape cursor)
  parameterList :
    ∀ {cursor : Cursor}, cursor.Orderly tokens ->
      Yields tokens (HeldAll ParameterOf.Fresh) (parameterList fuel cursor)
  parameters :
    ∀ {cursor : Cursor} (leading : Option String) {read : List Parameter},
      cursor.Orderly tokens -> HeldAll ParameterOf.Fresh read ->
      Yields tokens (HeldAll ParameterOf.Fresh) (parameters fuel leading read cursor)
  parameterParts :
    ∀ {cursor : Cursor}, cursor.Orderly tokens ->
      Yields tokens (fun parts => ∀ declarator ∈ parts.2, declarator.Formed)
        (parameterParts fuel cursor)

namespace DeclaratorsYield

variable {fuel : Nat}

/-- One more step of fuel yields a formed declarator. -/
theorem declarator_succ
    (yield : DeclaratorsYield tokens fuel)
    (abstractAllowed : Bool)
    (orderly : cursor.Orderly tokens) :
    Yields tokens (fun shape => ∀ declarator ∈ shape, declarator.Formed)
      (Grammar.declarator (fuel + 1) abstractAllowed cursor) := by
  unfold Grammar.declarator
  refine .bind (pointer_yields orderly) ?_
  intro operator pointed plain orderly
  refine .bind (yield.directDeclarator abstractAllowed orderly) ?_
  intro shape after formed orderly
  exact ⟨orderly, formed_withPointer plain formed⟩

/-- One more step of fuel yields a formed direct declarator. -/
theorem directDeclarator_succ
    (yield : DeclaratorsYield tokens fuel)
    (abstractAllowed : Bool)
    (orderly : cursor.Orderly tokens) :
    Yields tokens (fun shape => ∀ declarator ∈ shape, declarator.Formed)
      (Grammar.directDeclarator (fuel + 1) abstractAllowed cursor) := by
  unfold Grammar.directDeclarator
  rw [get_bind_run]
  split
  · rename_i name
    simp only [Bool.and_eq_true, Bool.not_eq_true'] at name
    have wordText := orderly.sound.fit_peek.word name.1
    rw [take_bind_run]
    exact yield.suffixes orderly.advance
      (formed_some (Declarator.formed_identifier wordText))
  split
  · rw [discard_bind_run, take_bind_run]
    refine .bind (yield.declarator abstractAllowed orderly.advance) ?_
    intro inner nested formed orderly
    rw [discard_bind_run]
    refine .expect_bind orderly ?_
    intro _ orderly
    exact yield.suffixes orderly (formed_some (formed_suffixBase formed).parenthesized)
  split
  · exact yield.suffixes orderly formed_none
  · trivial

/-- One more step of fuel yields a formed declarator with its suffixes. -/
theorem suffixes_succ
    {shape : Option Declarator}
    (yield : DeclaratorsYield tokens fuel)
    (orderly : cursor.Orderly tokens)
    (formed : ∀ declarator ∈ shape, declarator.Formed) :
    Yields tokens (fun shape => ∀ declarator ∈ shape, declarator.Formed)
      (Grammar.suffixes (fuel + 1) shape cursor) := by
  unfold Grammar.suffixes
  rw [sees_bind_run]
  split
  · rename_i opens
    refine .bind (bracketText_yields orderly opens) ?_
    intro suffix after notTemplate orderly
    exact yield.suffixes orderly (formed_some ((formed_suffixBase formed).arrayOf notTemplate))
  rw [sees_bind_run]
  split
  · refine .bind (yield.parameterList orderly) ?_
    intro parameters after fresh orderly
    exact yield.suffixes orderly (formed_some ((formed_suffixBase formed).function fresh))
  rw [peek_bind_run]
  split
  · refine .bind (.of_keeps orderly (skipAttributes_keeps orderly.sound)) ?_
    intro _ after _ orderly
    exact yield.suffixes orderly formed
  · exact ⟨orderly, formed⟩

/-- One more step of fuel yields fresh parameters in parentheses. -/
theorem parameterList_succ
    (yield : DeclaratorsYield tokens fuel)
    (orderly : cursor.Orderly tokens) :
    Yields tokens (HeldAll ParameterOf.Fresh) (Grammar.parameterList (fuel + 1) cursor) := by
  unfold Grammar.parameterList
  refine .expect_bind orderly ?_
  intro opener orderly
  refine .accept_bind orderly ?_ ?_
  · intro orderly
    exact ⟨orderly, .nil⟩
  · rw [Option.isSome_none, if_neg (by simp), get_bind_run]
    split
    · rename_i run
      exact identifierList_yields _ _ run orderly .nil
    · exact yield.parameters _ orderly .nil

/-- One more step of fuel yields fresh parameters. -/
theorem parameters_succ
    (yield : DeclaratorsYield tokens fuel)
    (leading : Option String)
    {read : List Parameter}
    (orderly : cursor.Orderly tokens)
    (fresh : HeldAll ParameterOf.Fresh read) :
    Yields tokens (HeldAll ParameterOf.Fresh)
      (Grammar.parameters (fuel + 1) leading read cursor) := by
  unfold Grammar.parameters
  rw [peek_bind_run]
  cases itemComment cursor.peek.commentBefore leading with
  | mk before leading =>
    refine .bind (yield.parameterParts orderly) ?_
    rintro ⟨spec, shape⟩ shaped formed orderly
    refine .bind (.of_keeps orderly (trailingComments_keeps _ orderly.sound)) ?_
    intro comments commented _ orderly
    exact parameterEnd_yields spec before comments.head? comments.tail orderly fresh formed
      fun _ => yield.parameters leading

/-- One more step of fuel yields the formed parts of a parameter. -/
theorem parameterParts_succ
    (yield : DeclaratorsYield tokens fuel)
    (orderly : cursor.Orderly tokens) :
    Yields tokens (fun parts => ∀ declarator ∈ parts.2, declarator.Formed)
      (Grammar.parameterParts (fuel + 1) cursor) := by
  unfold Grammar.parameterParts
  refine .accept_bind orderly ?_ ?_
  · intro orderly
    exact ⟨orderly, formed_some (Declarator.formed_ofText rfl none)⟩
  · rw [Option.isSome_none, if_neg (by simp)]
    refine .bind (.of_keeps orderly (declarationSpecifiers_keeps .parameter orderly.sound)) ?_
    intro specifiers specified _ orderly
    refine .bind (yield.declarator true orderly) ?_
    intro shape after formed orderly
    split
    · trivial
    · exact ⟨orderly, formed⟩

/-- The functions that read declarators yield formed ones with every fuel. -/
theorem all (tokens : List Token) (fuel : Nat) : DeclaratorsYield tokens fuel := by
  induction fuel with
  | zero =>
      exact {
        declarator := fun _ _ => trivial
        directDeclarator := fun _ _ => trivial
        suffixes := fun _ _ => trivial
        parameterList := fun _ => trivial
        parameters := fun _ _ _ _ => trivial
        parameterParts := fun _ => trivial
      }
  | succ fuel hypothesis =>
      exact {
        declarator := hypothesis.declarator_succ
        directDeclarator := hypothesis.directDeclarator_succ
        suffixes := hypothesis.suffixes_succ
        parameterList := hypothesis.parameterList_succ
        parameters := hypothesis.parameters_succ
        parameterParts := hypothesis.parameterParts_succ
      }

end DeclaratorsYield

/-- A declarator that has to be there is formed. -/
theorem requiredDeclarator_yields (orderly : cursor.Orderly tokens) :
    Yields tokens Declarator.Formed (requiredDeclarator cursor) := by
  unfold requiredDeclarator
  rw [get_bind_run]
  refine .bind ((DeclaratorsYield.all tokens cursor.fuel).declarator false orderly) ?_
  intro shape after formed orderly
  cases shape with
  | none => trivial
  | some declarator => exact ⟨orderly, formed declarator rfl⟩

/-! ## Declarations -/

/-- A comment at the end of a line keeps the declarators formed. -/
theorem endOfLineComment_yields
    (trailing after : Option String)
    {declarators : List Declarator}
    (orderly : cursor.Orderly tokens)
    (formed : FormedAll declarators) :
    Yields tokens (fun parts => FormedAll parts.2)
      (endOfLineComment trailing after declarators cursor) := by
  unfold endOfLineComment
  split
  · rename_i trailing after
    have pages := cursor.session.pages_commentLastDeclaratorAll declarators [trailing]
    exact ⟨orderly.act (orderly.fresh_of_pages pages),
      cursor.session.formedAll_commentLastDeclaratorAll formed [trailing]⟩
  · exact ⟨orderly, formed⟩

/-- The end of a declarator keeps those before it formed. -/
theorem declaratorEnd_yields
    {declarators : List Declarator}
    (orderly : cursor.Orderly tokens)
    (formed : FormedAll declarators) :
    Yields tokens (fun parts => FormedAll parts.1) (declaratorEnd declarators cursor) := by
  unfold declaratorEnd
  rw [get_bind_run]
  refine .accept_bind orderly ?_ ?_
  · intro orderly
    have pages := cursor.advance.session.pages_commentLastDeclaratorAll declarators
      (cursor.trailingComment.toList ++ cursor.peek.commentAfter.toList)
    exact ⟨orderly.act (orderly.fresh_of_pages pages),
      cursor.advance.session.formedAll_commentLastDeclaratorAll formed _⟩
  · refine .expect_bind orderly ?_
    intro semicolon orderly
    refine .bind (endOfLineComment_yields _ _ orderly formed) ?_
    rintro ⟨comment, declarators⟩ after formed orderly
    exact ⟨orderly, formed⟩

/-- The declarators of an old-style declaration are formed. -/
theorem parameterDeclarators_yields
    (count : Nat)
    {declarators : List Declarator}
    (orderly : cursor.Orderly tokens)
    (formed : FormedAll declarators) :
    Yields tokens (fun parts => FormedAll parts.1)
      (parameterDeclarators count declarators cursor) := by
  induction count generalizing declarators cursor with
  | zero => trivial
  | succ count hypothesis =>
      unfold parameterDeclarators
      refine .bind (requiredDeclarator_yields orderly) ?_
      intro declarator declared last orderly
      refine .bind (declaratorEnd_yields orderly (formed.concat last)) ?_
      rintro ⟨declarators, ending⟩ after formed orderly
      cases ending with
      | none => exact hypothesis orderly formed
      | some comment => exact ⟨orderly, formed⟩

/-- An old-style declaration keeps its function formed. -/
theorem parameterDeclaration_yields
    {function : Declarator}
    (orderly : cursor.Orderly tokens)
    (formed : function.Formed) :
    Yields tokens Declarator.Formed (parameterDeclaration function cursor) := by
  unfold parameterDeclaration
  rw [peek_bind_run]
  refine .bind (.of_keeps orderly (declarationSpecifiers_keeps .declaration orderly.sound)) ?_
  intro specifiers specified _ orderly
  cases specifiers with
  | none => trivial
  | some specifiers =>
      dsimp only
      rw [get_bind_run]
      refine .bind (parameterDeclarators_yields _ orderly .nil) ?_
      rintro ⟨declarators, endOfLine⟩ after declared orderly
      obtain ⟨upkeep, -⟩ : after.session.Upkeep (fun _ => True) _ ∧ _ :=
        @Session.applyParameterTypes_upkeep _ (fun _ => True) after.session
          function.headParameters (fun _ _ => ⟨fun _ _ => trivial, fun _ _ _ _ => trivial⟩)
          specifiers.spec (fun _ _ => trivial) declarators (fun _ _ _ _ _ _ => trivial)
          cursor.peek.commentBefore endOfLine
      have typed := after.session.heldAll_applyParameterTypes formed.fresh.headParameters
        specifiers.spec declared cursor.peek.commentBefore endOfLine
      simp only [act_bind_run]
      exact ⟨orderly.act (orderly.fresh_of_pages upkeep.pages), formed.updateHead typed⟩

/-- Old-style declarations keep their function formed. -/
theorem parameterDeclarations_yields
    (count : Nat)
    {function : Declarator}
    (orderly : cursor.Orderly tokens)
    (formed : function.Formed) :
    Yields tokens Declarator.Formed (parameterDeclarations count function cursor) := by
  induction count generalizing function cursor with
  | zero => trivial
  | succ count hypothesis =>
      unfold parameterDeclarations
      rw [sees_bind_run]
      split
      · exact ⟨orderly, formed⟩
      rw [peek_bind_run]
      split
      · trivial
      refine .bind (parameterDeclaration_yields orderly formed) ?_
      intro function after formed orderly
      exact hypothesis orderly formed

/-- A function definition leaves pages that hold what has been read. -/
theorem functionDefinition_yields
    (comment : Option String)
    (spec : Spec)
    {function : Declarator}
    (orderly : cursor.Orderly tokens)
    (formed : function.Formed) :
    Yields tokens (fun _ => True) (functionDefinition comment spec function cursor) := by
  unfold functionDefinition
  rw [get_bind_run]
  refine .bind (parameterDeclarations_yields _ orderly formed) ?_
  intro function typed formed orderly
  have orderly := orderly.advance
  rw [take_bind_run, peek_bind_run]
  refine .bind (.of_keeps orderly (skipUntilClose_keeps _ orderly.sound)) ?_
  intro _ after _ orderly
  have defined : FormedAll [{ function with kind := .functionDef }] :=
    FormedAll.nil.concat (formed.congr rfl rfl rfl)
  exact ⟨orderly.act (orderly.fresh.rememberDeclarations _ spec defined none), trivial⟩

/-- A declaration that ends leaves pages that hold what has been read. -/
theorem finishDeclaration_yields
    (start : DeclarationStart)
    {declarators : List Declarator}
    (endOfLine : Option String)
    (orderly : cursor.Orderly tokens)
    (formed : FormedAll declarators) :
    Yields tokens (fun _ => True) (finishDeclaration start declarators endOfLine cursor) := by
  unfold finishDeclaration
  rw [act_run]
  dsimp only
  split
  · have upkeep : cursor.session.Upkeep (fun _ => True) _ :=
      @Session.upkeep_declareTypedefs _ cursor.session start.spec (fun _ _ => .inl trivial)
        declarators
    have fresh := orderly.fresh_of_pages upkeep.pages
    exact ⟨orderly.act (fresh.rememberDeclarations _ _ formed endOfLine), trivial⟩
  · exact ⟨orderly.act (orderly.fresh.rememberDeclarations _ _ formed endOfLine), trivial⟩

/-- The declarators of a declaration leave such pages, by induction on their number. -/
theorem declarators_yields
    (start : DeclarationStart)
    (count : Nat)
    {read : List Declarator}
    (orderly : cursor.Orderly tokens)
    (readFormed : FormedAll read) :
    Yields tokens (fun _ => True) (declarators start count read cursor) := by
  induction count generalizing read cursor with
  | zero => trivial
  | succ count hypothesis =>
      unfold declarators
      rw [peek_bind_run]
      refine .bind (requiredDeclarator_yields orderly) ?_
      intro declarator declared formed orderly
      refine .bind (.of_keeps orderly (skipAttributes_keeps orderly.sound)) ?_
      intro _ attributed _ orderly
      rw [peek_bind_run]
      split
      · exact functionDefinition_yields _ _ orderly (formed.congr rfl rfl rfl)
      have commented (returnComment comment : Option String) :
          (if read.isEmpty then { declarator with returnComment }
            else { declarator with comment }).Formed := by
        split <;> exact formed.congr rfl rfl rfl
      refine .bind (.of_keeps orderly (skipValue_keeps _ orderly.sound)) ?_
      intro _ valued _ orderly
      refine .bind (declaratorEnd_yields orderly (readFormed.concat (commented _ _))) ?_
      rintro ⟨read, ending⟩ after formed orderly
      cases ending with
      | none => exact hypothesis orderly formed
      | some comment => exact finishDeclaration_yields start comment orderly formed

/-- An external declaration leaves pages that hold what has been read. -/
theorem externalDeclaration_yields (orderly : cursor.Orderly tokens) :
    Yields tokens (fun _ => True) (externalDeclaration cursor) := by
  have taken : Cursor.Orderly tokens { cursor with carried := none } :=
    ⟨⟨orderly.sound.fit, orderly.sound.place, .none, orderly.sound.linked⟩, orderly.fresh⟩
  unfold externalDeclaration
  rw [takeCarried_bind_run, peek_bind_run]
  refine .bind (.of_keeps taken (declarationSpecifiers_keeps .declaration taken.sound)) ?_
  intro specifiers specified _ orderly
  cases specifiers with
  | none =>
      dsimp only
      rw [get_bind_run]
      exact declarators_yields _ _ orderly .nil
  | some specifiers =>
      dsimp only
      rw [accept_bind_run]
      split
      · exact ⟨orderly.advance, trivial⟩
      · rw [Option.isSome_none, if_neg (by simp), peek_bind_run, get_bind_run]
        exact declarators_yields _ _ orderly .nil

/-! ## Files -/

/-- However many items are read, the pages hold what has been read. -/
theorem Reached.orderly
    {start : Cursor}
    (reached : Reached start cursor)
    (orderly : start.Orderly tokens) :
    cursor.Orderly tokens := by
  induction reached with
  | start => exact orderly
  | item _ _ read hypothesis =>
      rcases item_cases hypothesis.sound read with kept | external
      · exact hypothesis.of_kept kept
      · have yields := externalDeclaration_yields hypothesis
        rw [external] at yields
        exact yields.1

end Grammar

/-- A source text adds pages of which the parameters, at any depth, are as they were read. -/
theorem Session.PagesFresh.afterSource
    {session : Session}
    (pages : session.PagesFresh)
    (source : String) :
    (session.afterSource source).PagesFresh := by
  unfold Session.afterSource
  cases read : Source.tokenize source session.source.baseFile with
  | error error =>
      have failed : session.readSource source = .error error := by
        unfold readSource
        rw [read]
      rw [failed]
      exact pages
  | ok lexed =>
      have starting : Upkeep (fun _ => True) session _ := session.upkeep_cursorAt lexed
      have orderly : (session.cursorAt lexed).Orderly lexed.tokens :=
        ⟨⟨Source.fit_of_tokenize read, ⟨[], rfl⟩, .none, Grammar.linked_everything _⟩,
          fun page member => pages page (starting.pages ▸ member)⟩
      obtain ⟨after, reached, isAfter⟩ := readSource_reached read
      rw [isAfter]
      exact (reached.orderly orderly).fresh

end DeclManual
