import DeclManual.Proofs.Grammar.Registration

/-!
# What gets a page

The items of a file are read one after another, and only those that are declarations add
pages.  So the pages that a source text adds come after those that were there, and each of
them belongs to one declaration of the text, which ends on a token of the base file.
-/

namespace DeclManual
namespace Grammar

open Decl
open Source (Token)

variable {old : ListId -> Prop} {tokens : List Token} {cursor after : Cursor}

/-! ## Items -/

theorem closeLinkageBlock_keeps (sound : cursor.Sound old tokens) :
    Keeps old tokens cursor.session Anything (closeLinkageBlock cursor) := by
  have closed : Kept old tokens cursor.session
      (if 0 < cursor.linkageBlocks then
        { cursor with linkageBlocks := cursor.linkageBlocks - 1 }
        else cursor.recordError "unbalanced '\x7d'") := by
    split
    · exact ⟨⟨sound.fit, sound.place, sound.carried, sound.linked⟩, .refl _⟩
    · exact (Kept.refl sound).recordError _
  unfold closeLinkageBlock
  rw [modify_bind_run]
  exact .done closed.advance

theorem linkage_keeps (sound : cursor.Sound old tokens) :
    Keeps old tokens cursor.session Anything (linkage cursor) := by
  have taken := (Kept.refl sound).advance.advance
  unfold linkage
  rw [take_bind_run, discard_bind_run, take_bind_run, accept_bind_run]
  split
  · have opened := taken.advance
    exact .done ⟨⟨opened.sound.fit, opened.sound.place, opened.sound.carried,
      opened.sound.linked⟩, opened.upkeep⟩
  · exact .done ⟨⟨taken.sound.fit, taken.sound.place, sound.fit_peek.before, taken.sound.linked⟩,
      taken.upkeep⟩

/-- Reading on in another way succeeds where the first attempt does, or after it has
failed. -/
theorem of_orElseRecorded
    {attempt instead : Parse Unit}
    (read : orElseRecorded attempt instead cursor = .ok () after) :
    attempt cursor = .ok () after ∨
      ∃ failed, attempt cursor = .error .recorded failed ∧ instead failed = .ok () after := by
  cases result : attempt cursor with
  | ok value between =>
      rw [orElseRecorded_run_ok instead result] at read
      exact .inl read
  | error error between =>
      cases error with
      | recorded =>
          rw [orElseRecorded_run_error instead result] at read
          exact .inr ⟨between, rfl, read⟩
      | exhausted =>
          simp only [orElseRecorded, tryCatch, tryCatchThe, MonadExceptOf.tryCatch,
            EStateM.tryCatch, result] at read
          cases read

/-- An item is a declaration that is read, or else it adds no page. -/
theorem item_cases
    (sound : cursor.Sound old tokens)
    (read : item cursor = .ok () after) :
    Kept old tokens cursor.session after ∨ externalDeclaration cursor = .ok () after := by
  have kept {reading : Parse Unit} (keeps : Keeps old tokens cursor.session Anything
      (reading cursor)) (read : reading cursor = .ok () after) :
      Kept old tokens cursor.session after := by
    rw [read] at keeps
    exact keeps.1
  unfold item at read
  rw [get_bind_run] at read
  split at read
  · rw [discard_run, take_run] at read
    cases read
    exact .inl (Kept.refl sound).advance
  split at read
  · exact .inl (kept (closeLinkageBlock_keeps sound) read)
  split at read
  · exact .inl (kept (linkage_keeps sound) read)
  split at read
  · have keeps := skipStatementUpTo_keeps cursor.rest.length sound
    rcases of_orElseRecorded read with skipped | ⟨failed, result, stays⟩
    · exact .inl (kept keeps skipped)
    · cases stays
      rw [show skipStatementUpTo cursor.rest.length cursor = _ from result] at keeps
      exact .inl keeps
  · rcases of_orElseRecorded read with declared | ⟨failed, result, recovered⟩
    · exact .inr declared
    · have registers := externalDeclaration_registers sound
      rw [result] at registers
      cases recovered
      exact .inl (Kept.advanceBy registers _)

/-! ## Files -/

/-- A cursor that is reached by reading one item after another. -/
inductive Reached (start : Cursor) : Cursor -> Prop where
  | start : Reached start start
  | item {before after : Cursor} :
      Reached start before -> before.peek.isEnd = false -> item before = .ok () after ->
      Reached start after

theorem Reached.items
    {start : Cursor}
    {count : Nat}
    (reached : Reached start cursor)
    (read : items count cursor = .ok () after) :
    Reached start after := by
  induction count generalizing cursor with
  | zero => cases read
  | succ count hypothesis =>
      unfold Grammar.items at read
      rw [peek_bind_run] at read
      split at read
      · cases read
        exact reached
      · rename_i notEnd
        obtain ⟨_, between, first, further⟩ := of_bind_run read
        exact hypothesis (reached.item (by simpa using notEnd) first) further

/-- A page is added by one of the items from a cursor on: by a declaration that is read and
whose last token, a semicolon or a closing brace, comes from the base file. -/
def Declares (start : Cursor) (page : ManualPage) : Prop :=
  ∃ (before after : Cursor) (new : List ManualPage) (declaration : List Token) (last : Token),
    Reached start before ∧
    item before = .ok () after ∧
    externalDeclaration before = .ok () after ∧
    after.session.pages = before.session.pages ++ new ∧
    page ∈ new ∧
    before.rest = declaration ++ last :: after.rest ∧
    (last.hasText ";" = true ∨ last.hasText "\x7d" = true) ∧
    last.inBaseFile = true

/-- Pages that have been added since a cursor, each by a declaration. -/
structure Declared
    (old : ListId -> Prop)
    (start cursor : Cursor)
    (new : List ManualPage) : Prop where
  growth : start.session.Growth old cursor.session new
  documented : ∀ page ∈ new, page.Documented start.session.options start.session.source
  linked : ∀ page ∈ new, page.Linked (cursor.session.enums.Known old)
  declares : ∀ page ∈ new, Declares start page

/-- The tokens from the one taken last on are enough for a cursor to be sound. -/
theorem Cursor.Sound.narrow (sound : cursor.Sound old tokens) :
    cursor.Sound old (cursor.previous.toList ++ cursor.rest) := by
  obtain ⟨front, whole⟩ := sound.place
  refine ⟨fun token member => sound.fit token ?_, ⟨[], rfl⟩, sound.carried, sound.linked⟩
  rw [whole, List.append_assoc]
  exact List.mem_append_right front member

/-- The tokens of a declaration that is read end with the token taken last. -/
theorem externalDeclaration_tokens
    {last : Token}
    (sound : cursor.Sound old tokens)
    (input : EndsOnce cursor.rest)
    (read : externalDeclaration cursor = .ok () after)
    (taken : after.previous = some last) :
    ∃ declaration, cursor.rest = declaration ++ last :: after.rest := by
  have lands := externalDeclaration_lands input
  have registers := externalDeclaration_registers sound.narrow
  rw [read] at lands registers
  obtain ⟨passed, whole⟩ := lands.suffix
  obtain ⟨front, placed⟩ := registers.1.place
  have filled : passed ≠ [] := by
    rintro rfl
    have length := lands.length
    rw [← whole, List.nil_append] at length
    omega
  rw [← whole, taken, ← List.append_assoc] at placed
  have split : cursor.previous.toList ++ passed = front ++ [last] :=
    List.append_cancel_right placed
  have isLast : passed.getLast filled = last := by
    have ends := congrArg List.getLast? split
    rw [List.getLast?_append_of_ne_nil _ filled, List.getLast?_concat,
      List.getLast?_eq_some_getLast filled] at ends
    exact Option.some_inj.1 ends
  refine ⟨passed.dropLast, ?_⟩
  rw [← whole, ← isLast, ← List.singleton_append, ← List.append_assoc,
    List.dropLast_append_getLast]

/-- Every item adds pages of declarations only. -/
theorem Declared.item
    {start : Cursor}
    {new : List ManualPage}
    (declared : Declared old start cursor new)
    (reached : Reached start cursor)
    (sound : cursor.Sound old tokens)
    (input : EndsOnce cursor.rest)
    (read : item cursor = .ok () after) :
    after.Sound old tokens ∧ ∃ more, Declared old start after (new ++ more) := by
  rcases item_cases sound read with kept | external
  · have growth := declared.growth.trans (.of_upkeep kept.upkeep)
    refine ⟨kept.sound, [], ?_⟩
    rw [List.append_nil] at growth ⊢
    exact ⟨growth, declared.documented,
      fun page member => (declared.linked page member).mono kept.upkeep.known, declared.declares⟩
  · have registers := externalDeclaration_registers sound
    rw [external] at registers
    obtain ⟨afterSound, more, added⟩ := registers
    refine ⟨afterSound, more, declared.growth.trans added.growth, ?_, ?_, ?_⟩
    · intro page member
      rcases List.mem_append.1 member with early | late
      · exact declared.documented page early
      · exact declared.growth.upkeep.documented (added.documented page late)
    · intro page member
      rcases List.mem_append.1 member with early | late
      · exact (declared.linked page early).mono added.growth.upkeep.known
      · exact added.linked page late
    · intro page member
      rcases List.mem_append.1 member with early | late
      · exact declared.declares page early
      · obtain ⟨last, taken, matching, inBaseFile⟩ := added.ended page late
        obtain ⟨declaration, whole⟩ := externalDeclaration_tokens sound input external taken
        exact ⟨cursor, after, more, declaration, last, reached, read, external,
          added.growth.pages, late, whole, matching, inBaseFile⟩

/-- However many items are read, they add pages of declarations only. -/
theorem Reached.declared
    {start : Cursor}
    (reached : Reached start cursor)
    (sound : start.Sound old tokens)
    (input : EndsOnce start.rest) :
    cursor.Sound old tokens ∧ EndsOnce cursor.rest ∧ ∃ new, Declared old start cursor new := by
  induction reached with
  | start =>
      exact ⟨sound, input, [], .of_upkeep (.refl _), fun _ => nofun, fun _ => nofun, fun _ => nofun⟩
  | item earlier notEnd read hypothesis =>
      obtain ⟨sound, input, new, declared⟩ := hypothesis
      obtain ⟨next, isNext, onward⟩ := item_onward input notEnd
      rw [read] at isNext
      cases isNext
      obtain ⟨afterSound, more, all⟩ := declared.item earlier sound input read
      exact ⟨afterSound, onward.input, new ++ more, all⟩

end Grammar

namespace Session

open Decl
open Grammar (Cursor Declared Declares EndsOnce Reached)

variable {old : ListId -> Prop}

/-! ## Source texts -/

/-- The cursor at the start of a text. -/
def cursorAt (session : Session) (lexed : Source.Lexed) : Cursor where
  session :=
    match session.options.groupTogether, lexed.firstComment with
    | true, some comment => session.rememberTerse comment
    | _, _ => session
  rest := lexed.tokens

/-- The session after a text.  A lexical error leaves it as it is. -/
def afterSource (session : Session) (source : String) : Session :=
  match session.readSource source with
  | .ok after => after
  | .error _ => session

theorem upkeep_cursorAt (session : Session) (lexed : Source.Lexed) :
    Upkeep old session (session.cursorAt lexed).session := by
  unfold cursorAt
  dsimp only
  split
  · exact ⟨rfl, rfl, rfl, rfl, Nat.le_refl _, id, fun linked => ⟨linked.typedefs, linked.enumTags⟩⟩
  · exact .refl session

theorem readSource_eq_readTokens
    {session : Session}
    {source : String}
    {lexed : Source.Lexed}
    (read : Source.tokenize source session.source.baseFile = .ok lexed) :
    session.readSource source =
      .ok ((session.cursorAt lexed).session.readTokens lexed.tokens) := by
  unfold readSource
  rw [read]
  rfl

/-- A text without lexical errors is read from its start, item after item. -/
theorem readSource_reached
    {session : Session}
    {source : String}
    {lexed : Source.Lexed}
    (read : Source.tokenize source session.source.baseFile = .ok lexed) :
    ∃ after, Reached (session.cursorAt lexed) after ∧
      session.readSource source = .ok after.session := by
  have input := Grammar.endsOnce_of_tokenize read
  obtain ⟨after, complete, -, -⟩ :=
    @Grammar.items_complete _ (session.cursorAt lexed) input (Nat.le_refl _)
  have whole : Grammar.wholeFile
      { session := (session.cursorAt lexed).session, rest := lexed.tokens } = .ok () after :=
    complete
  refine ⟨after, Reached.items .start complete, ?_⟩
  rw [readSource_eq_readTokens read, readTokens, whole]

/-- The pages that a text adds. -/
theorem afterSource_adds
    (session : Session)
    (linked : session.Linked old)
    (source : String) :
    ∃ new, session.Growth old (session.afterSource source) new ∧
      ∀ page ∈ new,
        page.Documented session.options session.source ∧
        page.Linked ((session.afterSource source).enums.Known old) ∧
        ∃ lexed, Source.tokenize source session.source.baseFile = .ok lexed ∧
          Declares (session.cursorAt lexed) page := by
  unfold afterSource
  cases read : Source.tokenize source session.source.baseFile with
  | error error =>
      have failed : session.readSource source = .error error := by
        unfold readSource
        rw [read]
      rw [failed]
      exact ⟨[], .of_upkeep (.refl session), fun _ => nofun⟩
  | ok lexed =>
      have starting : Upkeep old session _ := session.upkeep_cursorAt lexed
      have sound : (session.cursorAt lexed).Sound old lexed.tokens :=
        ⟨Source.fit_of_tokenize read, ⟨[], rfl⟩, .none, starting.linked linked⟩
      obtain ⟨after, reached, isAfter⟩ := readSource_reached read
      obtain ⟨-, -, new, declared⟩ :=
        reached.declared sound (Grammar.endsOnce_of_tokenize read)
      rw [isAfter]
      refine ⟨new, (Growth.of_upkeep starting).trans declared.growth, fun page member => ?_⟩
      exact ⟨starting.documented (declared.documented page member), declared.linked page member,
        lexed, rfl, declared.declares page member⟩

/-- A source text only adds pages, after those that are there.  Each page that it adds has a
comment that is not empty, a name made of the characters of words that is no keyword, and
the base file as its source; its specifier is worth documenting; it is a function, unless
variables are wanted; it is not static, unless those are wanted or the base file is a
header; it is not extern outside a header, unless it is a function definition; and the last
token of its declaration comes from the base file. -/
theorem afterSource_documents (session : Session) (source : String) :
    ∃ new, (session.afterSource source).pages = session.pages ++ new ∧
      ∀ page ∈ new,
        page.Documented session.options session.source ∧
        ∃ lexed, Source.tokenize source session.source.baseFile = .ok lexed ∧
          Declares (session.cursorAt lexed) page := by
  -- nothing is asked of the lists that the session refers to at the start
  have linked : session.Linked fun _ => True :=
    ⟨fun _ _ _ _ => .inl trivial, fun _ _ _ _ => .inl trivial⟩
  obtain ⟨new, growth, added⟩ := session.afterSource_adds linked source
  refine ⟨new, growth.pages, fun page member => ?_⟩
  obtain ⟨documented, -, declares⟩ := added page member
  exact ⟨documented, declares⟩

-- of three commented declarations one is static and one comes from another file
example :
    (((start {}).beginFile (some "a.c") none).afterSource
        ("/* Doubles. */ int twice(int n);\n/* Halves. */ static int half(int n);\n" ++
          "# 1 \"b.h\"\n/* Squares. */ int square(int n);")).pages.map
      (fun page => (page.name, page.comment)) = [("twice", some "Doubles.")] := by
  decide +kernel

end Session
end DeclManual
