import DeclManual.Proofs.Grammar.Completion
import DeclManual.Proofs.Grammar.SoundDeclarators
import DeclManual.Proofs.Session.Documented

/-!
# Registering declarations

A declaration that cannot be read adds no page.  One that is read adds its pages when its
last token has been taken, a semicolon or a closing brace, so that the choice of pages is
made at the position of that token.
-/

namespace DeclManual
namespace Grammar

open Decl
open Source (Filled Token)

variable {α : Type} {old : ListId -> Prop} {tokens : List Token} {base : Session}
  {cursor : Cursor}

/-! ## The token taken last -/

/-- The current position is that of the token taken last, which has a given text. -/
def Cursor.EndedOn (text : String) (cursor : Cursor) : Prop :=
  ∃ last, cursor.previous = some last ∧ last.hasText text = true ∧
    cursor.session.source.inBaseFile = last.inBaseFile

namespace Cursor

/-- A cursor has ended on the token that it took. -/
theorem endedOn_advance
    {text : String}
    (matching : cursor.peek.hasText text = true) :
    cursor.advance.EndedOn text := by
  refine ⟨cursor.peek, previous_advance (Token.not_isEnd_of_hasText matching), matching, ?_⟩
  rw [session_advance]
  rfl

theorem EndedOn.act
    {text : String}
    {session : Session}
    (ended : cursor.EndedOn text)
    (position : session.source = cursor.session.source) :
    EndedOn text { cursor with session } := by
  obtain ⟨last, taken, matching, inPlace⟩ := ended
  exact ⟨last, taken, matching, position ▸ inPlace⟩

/-- A cursor has ended on the last of the tokens that it passed. -/
theorem endedOn_advanceBy
    {text : String}
    {front rest : List Token}
    {last : Token}
    (here : cursor.rest = front ++ last :: rest)
    (notEnds : ∀ token ∈ front, token.isEnd = false)
    (matching : last.hasText text = true) :
    (cursor.advanceBy (front.length + 1)).EndedOn text := by
  induction front generalizing cursor with
  | nil =>
      apply endedOn_advance
      rwa [peek_eq_head here]
  | cons token front hypothesis =>
      have notEnd : cursor.peek.isEnd = false := by
        rw [peek_eq_head here]
        exact notEnds token List.mem_cons_self
      apply hypothesis
      · rw [rest_advance notEnd, here]
        rfl
      · exact fun other member => notEnds other (List.mem_cons_of_mem token member)

end Cursor

/-- A run that is closed ends with the bracket that closes it. -/
theorem exists_of_closingRun
    {close : String}
    {depth : Nat}
    {rest : List Token}
    (closed : (closingRun close depth rest).2 = true) :
    ∃ front last left, rest = front ++ last :: left ∧
      (closingRun close depth rest).1 = front.length + 1 ∧
      (∀ token ∈ front, token.isEnd = false) ∧ last.hasText close = true := by
  induction rest generalizing depth with
  | nil => cases closed
  | cons token rest hypothesis =>
      unfold closingRun at closed ⊢
      by_cases isEnd : token.isEnd = true
      · rw [if_pos isEnd] at closed
        cases closed
      have notEnd : token.isEnd = false := by simpa using isEnd
      rw [if_neg isEnd] at closed ⊢
      have further {depth : Nat} (closed : (closingRun close depth rest).2 = true) :
          ∃ front last left, token :: rest = front ++ last :: left ∧
            (closingRun close depth rest).1 + 1 = front.length + 1 ∧
            (∀ token ∈ front, token.isEnd = false) ∧ last.hasText close = true := by
        obtain ⟨front, last, left, rfl, length, notEnds, matching⟩ := hypothesis closed
        refine ⟨token :: front, last, left, rfl, by rw [length]; rfl, ?_, matching⟩
        intro other member
        rcases List.mem_cons.1 member with rfl | later
        · exact notEnd
        · exact notEnds other later
      split at closed
      · rename_i opens
        rw [if_pos opens]
        exact further closed
      rename_i opens
      rw [if_neg opens]
      split at closed
      · rename_i closes
        rw [if_pos closes]
        cases depth with
        | zero =>
            refine ⟨[], token, rest, rfl, rfl, fun _ => nofun, ?_⟩
            exact Token.hasText_of_text notEnd (by simpa using closed)
        | succ depth => exact further closed
      · rename_i closes
        rw [if_neg closes]
        exact further closed

/-- What is skipped up to a closing bracket ends on it. -/
theorem skipUntilClose_ends
    (close : String)
    (sound : cursor.Sound old tokens) :
    Keeps old tokens cursor.session (fun after _ => after.EndedOn close)
      (skipUntilClose close cursor) := by
  have here := (Kept.refl sound).advanceBy (closingRun close 0 cursor.rest).1
  unfold skipUntilClose
  simp only [get_bind_run, skip_bind_run]
  split
  · rename_i closed
    obtain ⟨front, last, left, whole, length, notEnds, matching⟩ := exists_of_closingRun closed
    refine ⟨here, ?_⟩
    rw [length]
    exact Cursor.endedOn_advanceBy whole notEnds matching
  · exact .fail here _

/-! ## The end of a declarator -/

/-- Declarators that are sound, each with a name. -/
def DeclaratorsSound
    (old : ListId -> Prop)
    (after : Cursor)
    (declarators : List Declarator) : Prop :=
  SoundAll (after.session.enums.Known old) declarators

theorem DeclaratorsSound.mono
    {after : Cursor}
    {declarators : List Declarator}
    (sound : DeclaratorsSound old cursor declarators)
    (upkeep : cursor.session.Upkeep old after.session) :
    DeclaratorsSound old after declarators :=
  SoundAll.mono sound upkeep.known

theorem DeclaratorsSound.concat
    {declarators : List Declarator}
    {declarator : Declarator}
    (sound : DeclaratorsSound old cursor declarators)
    (last : Shaped old false cursor declarator) :
    DeclaratorsSound old cursor (declarators ++ [declarator]) :=
  SoundAll.concat sound last.sound (last.named rfl)

/-- A list of declarators goes on after a comma, or it ends on a semicolon with a comment
that is not empty. -/
structure DeclaratorEnded
    (old : ListId -> Prop)
    (after : Cursor)
    (parts : List Declarator × Option (Option String)) : Prop where
  sound : DeclaratorsSound old after parts.1
  filled : ∀ comment ∈ parts.2, Filled comment
  ended : parts.2.isSome = true -> after.EndedOn ";"

/-- A comment at the end of a line keeps the declarators sound, after a semicolon. -/
theorem endOfLineComment_keeps
    {trailing after : Option String}
    {declarators : List Declarator}
    (sound : cursor.Sound old tokens)
    (ended : cursor.EndedOn ";")
    (declaratorsSound : DeclaratorsSound old cursor declarators)
    (trailingFilled : Filled trailing)
    (afterFilled : Filled after) :
    Keeps old tokens cursor.session
      (fun after parts => Filled parts.1 ∧ DeclaratorsSound old after parts.2 ∧ after.EndedOn ";")
      (endOfLineComment trailing after declarators cursor) := by
  unfold endOfLineComment
  split
  · rename_i trailing after
    have comments : ∀ comment ∈ [trailing], comment ≠ "" := by
      intro comment member
      rw [List.mem_singleton.1 member]
      exact trailingFilled trailing rfl
    obtain ⟨upkeep, commented⟩ : cursor.session.Upkeep old _ ∧ _ :=
      Session.commentLastDeclaratorAll_upkeep cursor.session declaratorsSound comments
    rw [act_bind_run]
    exact ⟨(Kept.refl sound).act upkeep, afterFilled, commented.mono upkeep.known,
      ended.act (Session.source_commentLastDeclaratorAll _ _ _)⟩
  · exact ⟨.refl sound, afterFilled.or trailingFilled, declaratorsSound, ended⟩

/-- The end of a declarator keeps the session and says how it ended. -/
theorem declaratorEnd_keeps
    {declarators : List Declarator}
    (sound : cursor.Sound old tokens)
    (declaratorsSound : DeclaratorsSound old cursor declarators) :
    Keeps old tokens cursor.session (DeclaratorEnded old) (declaratorEnd declarators cursor) := by
  have trailingFilled := sound.filled_trailingComment
  unfold declaratorEnd
  rw [get_bind_run]
  refine .accept_bind (.refl sound) ?_ ?_
  · intro taken
    have comments : ∀ comment ∈
        cursor.trailingComment.toList ++ cursor.peek.commentAfter.toList, comment ≠ "" := by
      intro comment member
      rcases List.mem_append.1 member with trailing | after
      · exact trailingFilled comment (Option.mem_toList.1 trailing)
      · exact sound.fit_peek.after comment (Option.mem_toList.1 after)
    obtain ⟨upkeep, commented⟩ : cursor.advance.session.Upkeep old _ ∧ _ :=
      Session.commentLastDeclaratorAll_upkeep cursor.advance.session
        (declaratorsSound.mono taken.upkeep) comments
    simp only [act_bind_run]
    exact ⟨taken.act upkeep, commented.mono upkeep.known, fun _ => nofun, nofun⟩
  · dsimp only
    rw [bind_run, expect_run]
    by_cases matching : cursor.peek.hasText ";" = true
    · have taken := (Kept.refl sound).advance
      rw [if_pos matching]
      refine .bind taken (endOfLineComment_keeps taken.sound (Cursor.endedOn_advance matching)
        (declaratorsSound.mono taken.upkeep) trailingFilled sound.fit_peek.after) ?_
      rintro ⟨comment, declarators⟩ after _ ⟨filled, declaratorsSound, ended⟩ here
      refine ⟨here, declaratorsSound, ?_, fun _ => ended⟩
      rintro _ ⟨⟩
      exact filled
    · rw [if_neg matching]
      exact (Kept.refl sound).recordError _

/-! ## Old-style definitions -/

/-- The declarators of an old-style declaration are sound. -/
theorem parameterDeclarators_keeps
    (count : Nat)
    {declarators : List Declarator}
    (sound : cursor.Sound old tokens)
    (declaratorsSound : DeclaratorsSound old cursor declarators) :
    Keeps old tokens cursor.session (fun after parts => DeclaratorsSound old after parts.1)
      (parameterDeclarators count declarators cursor) := by
  induction count generalizing declarators cursor with
  | zero => exact Kept.refl sound
  | succ count hypothesis =>
      unfold parameterDeclarators
      refine .bind (.refl sound) (requiredDeclarator_keeps sound) ?_
      intro declarator declared upkeep shaped here
      refine .bind here (declaratorEnd_keeps here.sound
        ((declaratorsSound.mono upkeep).concat shaped)) ?_
      rintro ⟨declarators, ending⟩ after _ ended here
      cases ending with
      | none => exact .from_here here (hypothesis here.sound ended.sound)
      | some comment => exact ⟨here, ended.sound⟩

/-- An old-style declaration keeps the shape of its function. -/
theorem parameterDeclaration_keeps
    {function : Declarator}
    (sound : cursor.Sound old tokens)
    (shaped : Shaped old false cursor function) :
    Keeps old tokens cursor.session (Shaped old false) (parameterDeclaration function cursor) := by
  unfold parameterDeclaration
  rw [peek_bind_run]
  refine .bind (.refl sound) (declarationSpecifiers_keeps .declaration sound) ?_
  intro specifiers specified upkeep specLinked here
  cases specifiers with
  | none => exact .fail here _
  | some specifiers =>
      dsimp only
      rw [get_bind_run]
      refine .bind here (parameterDeclarators_keeps _ here.sound .nil) ?_
      rintro ⟨declarators, endOfLine⟩ after later declaratorsSound here
      have shaped := shaped.mono (upkeep.trans later)
      have specLinked := (specLinked specifiers rfl).mono later.known
      obtain ⟨typing, typed⟩ : after.session.Upkeep old _ ∧ _ :=
        Session.applyParameterTypes_upkeep after.session shaped.sound.linked.headParameters
          specLinked (fun declarator member => (declaratorsSound declarator member).1.linked)
          cursor.peek.commentBefore endOfLine
      simp only [act_bind_run]
      refine ⟨here.act typing, ⟨?_, ?_, ?_⟩, ?_⟩
      · exact (shaped.sound.linked.mono typing.known).updateHead (typed.mono typing.known)
      · rw [Declarator.name_updateHead]
        exact shaped.sound.name
      · rw [Declarator.comment_updateHead]
        exact shaped.sound.comment
      · rw [Declarator.name_updateHead]
        exact shaped.named

/-- Old-style declarations keep the shape of their function. -/
theorem parameterDeclarations_keeps
    (count : Nat)
    {function : Declarator}
    (sound : cursor.Sound old tokens)
    (shaped : Shaped old false cursor function) :
    Keeps old tokens cursor.session (Shaped old false)
      (parameterDeclarations count function cursor) := by
  induction count generalizing function cursor with
  | zero => exact Kept.refl sound
  | succ count hypothesis =>
      unfold parameterDeclarations
      rw [sees_bind_run]
      split
      · exact ⟨.refl sound, shaped⟩
      rw [peek_bind_run]
      split
      · exact .fail (.refl sound) _
      refine .bind (.refl sound) (parameterDeclaration_keeps sound shaped) ?_
      intro function after _ shaped here
      exact .from_here here (hypothesis here.sound shaped)

/-! ## Registering -/

/-- A declaration ends on a semicolon or a closing brace that comes from the base file. -/
def Cursor.EndedInBase (cursor : Cursor) : Prop :=
  ∃ last, cursor.previous = some last ∧
    (last.hasText ";" = true ∨ last.hasText "\x7d" = true) ∧ last.inBaseFile = true

/-- Pages that a reading has added after those of a session. -/
structure Added
    (old : ListId -> Prop)
    (base : Session)
    (after : Cursor)
    (new : List ManualPage) : Prop where
  growth : base.Growth old after.session new
  documented : ∀ page ∈ new, page.Documented base.options base.source
  linked : ∀ page ∈ new, page.Linked (after.session.enums.Known old)
  ended : ∀ page ∈ new, after.EndedInBase

/-- A reading that succeeds may add pages; one that fails keeps the session up. -/
def Registers
    (old : ListId -> Prop)
    (tokens : List Token)
    (base : Session) :
    EStateM.Result SyntaxError Cursor α -> Prop
  | .ok _ after => after.Sound old tokens ∧ ∃ new, Added old base after new
  | .error _ after => Kept old tokens base after

namespace Registers

/-- What keeps the session registers no page. -/
theorem of_kept
    {value : α}
    (here : Kept old tokens base cursor) :
    Registers old tokens base (.ok value cursor) :=
  ⟨here.sound, [], .of_upkeep here.upkeep, fun _ => nofun, fun _ => nofun, fun _ => nofun⟩

/-- What is registered after the session was kept is registered since before. -/
theorem from_here
    {result : EStateM.Result SyntaxError Cursor α}
    (here : Kept old tokens base cursor)
    (registers : Registers old tokens cursor.session result) :
    Registers old tokens base result := by
  cases result with
  | ok value after =>
      obtain ⟨sound, new, growth, documented, linked, ended⟩ := registers
      exact ⟨sound, new, (Session.Growth.of_upkeep here.upkeep).trans growth,
        fun page member => here.upkeep.documented (documented page member), linked, ended⟩
  | error error after => exact here.trans registers

/-- Nothing is registered before the last of some readings. -/
theorem bind
    {β : Type}
    {first : Parse α}
    {next : α -> Parse β}
    {middle : Cursor -> α -> Prop}
    (here : Kept old tokens base cursor)
    (keeps : Keeps old tokens cursor.session middle (first cursor))
    (continues : ∀ value after, cursor.session.Upkeep old after.session -> middle after value ->
      Kept old tokens base after -> Registers old tokens base (next value after)) :
    Registers old tokens base ((first >>= next) cursor) := by
  rw [bind_run]
  cases result : first cursor with
  | ok value after =>
      rw [result] at keeps
      exact continues value after keeps.1.upkeep keeps.2 (here.trans keeps.1)
  | error error after =>
      rw [result] at keeps
      exact here.trans keeps

/-- The session is told of a declaration when its last token has been taken. -/
theorem remember
    {comment endOfLine : Option String}
    {spec : Spec}
    {declarators : List Declarator}
    (here : Kept old tokens base cursor)
    (ended : cursor.EndedOn ";" ∨ cursor.EndedOn "\x7d")
    (filled : Filled comment)
    (specLinked : SpecLinked old cursor spec)
    (declaratorsSound : DeclaratorsSound old cursor declarators)
    (endFilled : Filled endOfLine) :
    Registers old tokens base
      (.ok () { cursor with
        session :=
          (cursor.session.rememberDeclarations comment spec declarators endOfLine).1 }) := by
  obtain ⟨new, growth, added⟩ := cursor.session.rememberDeclarations_adds filled specLinked
    declaratorsSound endFilled
  apply Registers.from_here here
  have linked := growth.upkeep.linked here.sound.linked
  refine ⟨⟨here.sound.fit, here.sound.place, here.sound.carried, linked.typedefs,
    linked.enumTags⟩, new, growth, fun page member => (added page member).documented,
    fun page member => (added page member).linked, fun page member => ?_⟩
  have inBaseFile := (added page member).inBaseFile
  rcases ended with ⟨last, taken, matching, inPlace⟩ | ⟨last, taken, matching, inPlace⟩
  · exact ⟨last, taken, .inl matching, inPlace ▸ inBaseFile⟩
  · exact ⟨last, taken, .inr matching, inPlace ▸ inBaseFile⟩

end Registers

/-- The comment of a definition has text. -/
theorem filled_definitionComment
    (options : Options)
    {comment body : Option String}
    (commentFilled : Filled comment)
    (bodyFilled : Filled body) :
    Filled (definitionComment options comment body) := by
  unfold definitionComment
  split
  · exact bodyFilled
  · split
    · exact bodyFilled
    · exact commentFilled

/-- A function definition registers sound pages alone. -/
theorem functionDefinition_registers
    {comment : Option String}
    {spec : Spec}
    {function : Declarator}
    (sound : cursor.Sound old tokens)
    (filled : Filled comment)
    (specLinked : SpecLinked old cursor spec)
    (shaped : Shaped old false cursor function) :
    Registers old tokens cursor.session
      (functionDefinition comment spec function cursor) := by
  unfold functionDefinition
  rw [get_bind_run]
  refine .bind (.refl sound) (parameterDeclarations_keeps _ sound shaped) ?_
  intro function typed typing shaped here
  have opening := (Kept.refl here.sound).advance
  have opened := here.trans opening
  have bodyFilled : Filled (typed.peek.commentAfter.or typed.advance.peek.commentBefore) :=
    here.sound.fit_peek.after.or opened.sound.fit_peek.before
  rw [take_bind_run, peek_bind_run]
  refine .bind opened (skipUntilClose_ends _ opened.sound) ?_
  intro _ after skipping ended here
  have passing := opening.upkeep.trans skipping
  have defined : DeclaratorsSound old after [{ function with kind := .functionDef }] :=
    DeclaratorsSound.concat .nil ((shaped.mono passing).congr rfl rfl rfl rfl)
  rw [act_run]
  exact .remember here (.inr ended) (filled_definitionComment _ filled bodyFilled)
    (specLinked.mono (typing.trans passing).known) defined .none

/-- The parts of a declaration that its specifiers give. -/
structure StartSound
    (old : ListId -> Prop)
    (after : Cursor)
    (start : DeclarationStart) : Prop where
  comment : Filled start.comment
  spec : SpecLinked old after start.spec

theorem StartSound.mono
    {after : Cursor}
    {start : DeclarationStart}
    (sound : StartSound old cursor start)
    (upkeep : cursor.session.Upkeep old after.session) :
    StartSound old after start :=
  ⟨sound.comment, sound.spec.mono upkeep.known⟩

/-- A declaration that ends registers its declarators. -/
theorem finishDeclaration_registers
    {start : DeclarationStart}
    {declarators : List Declarator}
    {endOfLine : Option String}
    (here : Kept old tokens base cursor)
    (ended : cursor.EndedOn ";")
    (startSound : StartSound old cursor start)
    (declaratorsSound : DeclaratorsSound old cursor declarators)
    (endFilled : Filled endOfLine) :
    Registers old tokens base (finishDeclaration start declarators endOfLine cursor) := by
  unfold finishDeclaration
  rw [act_run]
  dsimp only
  split
  · have upkeep := cursor.session.upkeep_declareTypedefs startSound.spec declarators
    have ended := ended.act (cursor.session.source_declareTypedefs start.spec declarators)
    exact .remember (here.act upkeep) (.inl ended) startSound.comment
      (startSound.spec.mono upkeep.known) (declaratorsSound.mono upkeep) endFilled
  · exact .remember here (.inl ended) startSound.comment startSound.spec declaratorsSound endFilled

/-- The declarators of a declaration are registered, by induction on their number. -/
theorem declarators_registers
    {start : DeclarationStart}
    (count : Nat)
    {read : List Declarator}
    (sound : cursor.Sound old tokens)
    (startSound : StartSound old cursor start)
    (readSound : DeclaratorsSound old cursor read) :
    Registers old tokens cursor.session (declarators start count read cursor) := by
  induction count generalizing read cursor with
  | zero => exact Kept.refl sound
  | succ count hypothesis =>
      unfold declarators
      rw [peek_bind_run]
      refine .bind (.refl sound) (requiredDeclarator_keeps sound) ?_
      intro declarator declared declaring shaped here
      refine .bind here (skipAttributes_keeps here.sound) ?_
      intro _ attributed skipping _ here
      have shaped := shaped.mono skipping
      have startSound := startSound.mono here.upkeep
      rw [peek_bind_run]
      split
      · exact .from_here here (functionDefinition_registers here.sound startSound.comment
          startSound.spec (shaped.congr rfl rfl rfl rfl))
      -- the first declarator gets the comment before it, the others their own
      have commented (returnComment : Option String) :
          Shaped old false attributed
            (if read.isEmpty then { declarator with returnComment }
              else { declarator with
                comment := cursor.peek.commentBefore.or declarator.comment }) := by
        split
        · exact shaped.congr rfl rfl rfl rfl
        · exact ⟨shaped.sound.withComment (sound.fit_peek.before.or shaped.sound.comment),
            shaped.named⟩
      refine .bind here (skipValue_keeps _ here.sound) ?_
      intro _ valued valuing _ here
      refine .bind here (declaratorEnd_keeps here.sound
        ((readSound.mono here.upkeep).concat ((commented _).mono valuing))) ?_
      rintro ⟨read, ending⟩ after closing ended here
      have startSound := startSound.mono (valuing.trans closing)
      cases ending with
      | none => exact .from_here here (hypothesis here.sound startSound ended.sound)
      | some comment =>
          exact finishDeclaration_registers here (ended.ended rfl) startSound ended.sound
            (ended.filled comment rfl)

/-- A declaration registers its pages where it ends, or else it adds none. -/
theorem externalDeclaration_registers (sound : cursor.Sound old tokens) :
    Registers old tokens cursor.session (externalDeclaration cursor) := by
  have filled : Filled (cursor.peek.commentBefore.or cursor.carried) :=
    sound.fit_peek.before.or sound.carried
  have taken : Kept old tokens cursor.session { cursor with carried := none } :=
    ⟨⟨sound.fit, sound.place, .none, sound.linked⟩, .refl _⟩
  unfold externalDeclaration
  rw [takeCarried_bind_run, peek_bind_run]
  refine .bind taken (declarationSpecifiers_keeps .declaration taken.sound) ?_
  intro specifiers specified _ specLinked here
  cases specifiers with
  | none =>
      dsimp only
      rw [get_bind_run]
      exact .from_here here
        (declarators_registers _ here.sound ⟨filled, Spec.linked_ofText _ _⟩ .nil)
  | some specifiers =>
      dsimp only
      rw [accept_bind_run]
      split
      · exact .of_kept here.advance
      · rw [Option.isSome_none, if_neg (by simp), peek_bind_run, get_bind_run]
        exact .from_here here
          (declarators_registers _ here.sound ⟨filled, specLinked specifiers rfl⟩ .nil)

end Grammar
end DeclManual
