import DeclManual.Proofs.Grammar.Quiet

/-!
# Named declarators

A declarator that has to be named is read by the rules for one that may be abstract in
the same way, if the name is that of no type: wherever a parenthesis opens, what follows
cannot be a parameter list.  And the specifiers before a named declarator end where it
starts.
-/

namespace DeclManual
namespace Grammar

open Decl
open Source (Token)

section

variable {fuel : Nat} {cursor after : Cursor} {shape : Declarator} {name : String}

/-- Suffixes keep the name of what they are applied to. -/
theorem suffixes_name
    {base : Declarator}
    {result : Option Declarator}
    (read : suffixes fuel (some base) cursor = .ok result after) :
    ∃ shape, result = some shape ∧ shape.name = base.name := by
  induction fuel generalizing base cursor with
  | zero => cases read
  | succ fuel hypothesis =>
      unfold suffixes at read
      rw [sees_bind_run] at read
      split at read
      · obtain ⟨suffix, between, -, read⟩ := of_bind_run read
        obtain ⟨shape, isShape, named⟩ := hypothesis read
        exact ⟨shape, isShape, named⟩
      rw [sees_bind_run] at read
      split at read
      · obtain ⟨parameters, between, -, read⟩ := of_bind_run read
        obtain ⟨shape, isShape, named⟩ := hypothesis read
        exact ⟨shape, isShape, named⟩
      rw [peek_bind_run] at read
      split at read
      · obtain ⟨_, between, -, read⟩ := of_bind_run read
        exact hypothesis read
      · cases read
        exact ⟨base, rfl, rfl⟩

/-- How a direct declarator that has to be named is read: from its name, or from
parentheses. -/
theorem directDeclarator_cases
    {result : Option Declarator}
    (read : directDeclarator (fuel + 1) false cursor = .ok result after) :
    (cursor.peek.isWord = true ∧ isKeyword cursor.peek.text = false ∧
        suffixes fuel (some (.identifier cursor.peek.text)) cursor.advance = .ok result after) ∨
      (cursor.peek.isWord && !isKeyword cursor.peek.text) = false ∧
        cursor.peek.hasText "(" = true ∧
        ∃ inner between, declarator fuel false cursor.advance = .ok inner between ∧
          between.peek.hasText ")" = true ∧
          suffixes fuel (some (suffixBase inner).parenthesized) between.advance =
            .ok result after := by
  unfold directDeclarator at read
  rw [get_bind_run] at read
  split at read
  · rename_i isName
    simp only [Bool.and_eq_true, Bool.not_eq_true'] at isName
    rw [take_bind_run] at read
    exact .inl ⟨isName.1, isName.2, read⟩
  rename_i noName
  split at read
  · rename_i opens
    simp only [Bool.not_false, Bool.true_or, Bool.and_true] at opens
    rw [discard_bind_run, take_bind_run] at read
    obtain ⟨inner, between, inside, read⟩ := of_bind_run read
    rw [discard_bind_run] at read
    obtain ⟨closes, read⟩ := of_expect_bind_run read
    exact .inr ⟨by simpa using noName, opens, inner, between, inside, closes, read⟩
  · cases read

/-- What a declarator that has to be named starts with: a star, a parenthesis or the
name. -/
theorem declarator_start
    (read : declarator fuel false cursor = .ok (some shape) after)
    (named : shape.name = some name) :
    cursor.peek.hasText "*" = true ∨ cursor.peek.hasText "(" = true ∨
      cursor.peek.isWord = true ∧ isKeyword cursor.peek.text = false ∧
        cursor.peek.text = name := by
  cases fuel with
  | zero => cases read
  | succ fuel =>
      by_cases star : cursor.peek.hasText "*" = true
      · exact .inl star
      unfold declarator at read
      rw [bind_run_ok (pointer_absent (by simpa using star))] at read
      obtain ⟨direct, between, directly, read⟩ := of_bind_run read
      cases read
      cases fuel with
      | zero => cases directly
      | succ fuel =>
          rcases directDeclarator_cases directly with
            ⟨isWord, notKeyword, suffixed⟩ | ⟨-, opens, -⟩
          · obtain ⟨shape, isShape, sameName⟩ := suffixes_name suffixed
            obtain rfl := Option.some.inj isShape
            rw [named] at sameName
            exact .inr (.inr ⟨isWord, notKeyword, (Option.some.inj sameName).symm⟩)
          · exact .inr (.inl opens)

/-- A parenthesis before a named declarator opens no parameter list. -/
theorem opensNested_of_named
    (notEnd : cursor.peek.isEnd = false)
    (read : declarator fuel false cursor.advance = .ok (some shape) after)
    (named : shape.name = some name)
    (notTypedef : cursor.session.isTypedefName name = false) :
    opensNested cursor = true := by
  have start := declarator_start read named
  have filled : cursor.advance.rest ≠ [] := by
    intro empty
    simp [Cursor.peek, empty, Cursor.endToken, Token.hasText, Token.isWord] at start
  unfold opensNested
  rw [Cursor.peekNth_one notEnd filled]
  rcases start with star | opens | ⟨isWord, notKeyword, isName⟩
  · simp [star]
  · simp [opens]
  · rw [isName] at notKeyword
    simp [isWord, isName, notKeyword, notTypedef]

theorem Quiet.isTypedefName_eq
    {base : Session}
    {comma : Bool}
    (quiet : Quiet base comma cursor) :
    cursor.session.isTypedefName = base.isTypedefName := by
  obtain ⟨source, enums, enumTags, isSession, -⟩ := quiet.session
  rw [isSession]
  rfl

/-- A direct declarator that has to be named is read in the same way where it may be
abstract, if what it is made of is. -/
theorem directDeclarator_abstractAllowed
    {base : Session}
    (quiet : Quiet base true cursor)
    (notTypedef : base.isTypedefName name = false)
    (inside : ∀ {nested between : Cursor} {inner : Declarator}, Quiet base true nested →
      declarator fuel false nested = .ok (some inner) between → inner.name = some name →
      declarator fuel true nested = .ok (some inner) between)
    (read : directDeclarator (fuel + 1) false cursor = .ok (some shape) after)
    (named : shape.name = some name) :
    directDeclarator (fuel + 1) true cursor = .ok (some shape) after := by
  unfold directDeclarator
  rw [get_bind_run]
  rcases directDeclarator_cases read with
    ⟨isWord, notKeyword, suffixed⟩ | ⟨noName, opens, inner, between, nested, closes, suffixed⟩
  · rw [if_pos (by simp [isWord, notKeyword]), take_bind_run, suffixed]
  · obtain ⟨outer, isOuter, sameName⟩ := suffixes_name suffixed
    obtain rfl := Option.some.inj isOuter
    cases inner with
    | none =>
        rw [named] at sameName
        cases sameName
    | some inner =>
        have innerNamed : inner.name = some name := by
          rw [← named, sameName]
          rfl
        have notEnd := Token.not_isEnd_of_hasText opens
        have opensList : opensNested cursor = true :=
          opensNested_of_named notEnd nested innerNamed
            (by rw [quiet.isTypedefName_eq, notTypedef])
        rw [if_neg (by simp [noName]), if_pos (by simp [opens, opensList]), discard_bind_run,
          take_bind_run, bind_run_ok (inside quiet.advance nested innerNamed), discard_bind_run,
          bind_run, expect_run, if_pos closes]
        exact suffixed

/-- What a pointer is applied to has the name. -/
theorem direct_of_withPointer
    {operator : Option String}
    {direct : Option Declarator}
    (isShape : withPointer operator direct = some shape)
    (named : shape.name = some name) :
    ∃ target, direct = some target ∧ target.name = some name := by
  rcases operator with _ | operator <;> rcases direct with _ | target
  · cases isShape
  · obtain rfl := Option.some.inj isShape
    exact ⟨target, rfl, named⟩
  · obtain rfl := Option.some.inj isShape
    cases named
  · obtain rfl := Option.some.inj isShape
    exact ⟨target, rfl, named⟩

/-- A declarator that has to be named is read in the same way where it may be abstract. -/
theorem declarator_abstractAllowed
    {base : Session}
    (quiet : Quiet base true cursor)
    (notTypedef : base.isTypedefName name = false)
    (read : declarator fuel false cursor = .ok (some shape) after)
    (named : shape.name = some name) :
    declarator fuel true cursor = .ok (some shape) after := by
  induction fuel using Nat.strongRecOn generalizing cursor after shape with
  | ind fuel hypothesis =>
      match fuel with
      | 0 => cases read
      | 1 =>
          unfold declarator at read
          obtain ⟨operator, between, -, read⟩ := of_bind_run read
          obtain ⟨direct, final, directly, -⟩ := of_bind_run read
          cases directly
      | fuel + 2 =>
          unfold declarator at read ⊢
          obtain ⟨operator, between, pointed, read⟩ := of_bind_run read
          obtain ⟨direct, final, directly, read⟩ := of_bind_run read
          obtain ⟨isShape, -⟩ := EStateM.Result.ok.inj read
          obtain ⟨direct, rfl, directNamed⟩ := direct_of_withPointer isShape named
          have inside : ∀ {nested between : Cursor} {inner : Declarator}, Quiet base true nested →
              declarator fuel false nested = .ok (some inner) between → inner.name = some name →
              declarator fuel true nested = .ok (some inner) between := by
            intro nested between inner quiet
            exact hypothesis fuel (by omega) quiet
          rw [bind_run_ok pointed, bind_run_ok (directDeclarator_abstractAllowed
            (pointer_quiet quiet _ _ pointed) notTypedef inside directly directNamed)]
          exact read

end

/-! ## Declarators that stand for themselves -/

/-- Tokens without comments and attributes that are read on their own as the declarator of
a name, and start no enumerator list. -/
structure NamedDeclarator (session : Session) where
  name : Name session
  tokens : List Token
  shape : Declarator
  bare : Bare tokens
  spelled : WordsSpelled tokens
  noAttribute : ∀ token ∈ tokens, attributes.contains token.text = false
  read : ∃ after,
    requiredDeclarator { session, rest := tokens ++ [Cursor.endToken] } = .ok shape after ∧
      after.rest = [Cursor.endToken] ∧ after.session.enums = session.enums ∧
      after.session.enumTags = session.enumTags
  named : shape.name = some name.text

/-- What may stand after a tag that has no body. -/
structure PastTag (cursor : Cursor) : Prop where
  filled : cursor.rest ≠ []
  noBrace : cursor.peek.hasText "\x7b" = false
  noAttribute : attributes.contains cursor.peek.text = false

/-- A session is another one at a different position. -/
def Elsewhere (base session : Session) : Prop :=
  ∃ source, session = { base with source } ∧ source.unplaced = base.source.unplaced

namespace Elsewhere

variable {base session : Session}

theorem advance
    {cursor : Cursor}
    (elsewhere : Elsewhere base cursor.session) :
    Elsewhere base cursor.advance.session := by
  obtain ⟨source, isSession, isSource⟩ := elsewhere
  refine ⟨cursor.advance.session.source, ?_, ?_⟩
  · rw [Cursor.session_advance]
    simp only [Cursor.sync, isSession]
  · rw [Cursor.session_advance, ← isSource]
    simp only [Cursor.sync, isSession, SourceState.unplaced]

theorem advanceBy
    {cursor : Cursor}
    (elsewhere : Elsewhere base cursor.session)
    (count : Nat) :
    Elsewhere base (cursor.advanceBy count).session := by
  induction count generalizing cursor with
  | zero => exact elsewhere
  | succ count hypothesis => exact hypothesis elsewhere.advance

/-- Sessions at two positions, before which the same diagnostics were recorded. -/
theorem sameSession
    {place : Place}
    (elsewhere : Elsewhere base session)
    (isAlone : place.alone = base.diagnostics)
    (isInPlace : place.inPlace = base.diagnostics) :
    place.SameSession base session := by
  obtain ⟨source, rfl, isSource⟩ := elsewhere
  refine ⟨source, [], [], ?_, ?_, rfl, isSource⟩
  · rw [isInPlace, List.append_nil]
  · rw [isAlone, List.append_nil]

/-- Where nothing was recorded on its own, nothing was recorded in place. -/
theorem of_sameSession
    {place : Place}
    {alone : Session}
    (elsewhere : Elsewhere base alone)
    (isAlone : place.alone = base.diagnostics)
    (isInPlace : place.inPlace = base.diagnostics)
    (same : place.SameSession alone session) :
    Elsewhere base session := by
  obtain ⟨source, rfl, isSource⟩ := elsewhere
  obtain ⟨placed, recorded, others, rfl, isRecorded, length, isPlaced⟩ := same
  have nothing : recorded = [] := by
    rw [isAlone] at isRecorded
    exact List.self_eq_append_right.1 isRecorded
  rw [nothing, List.length_nil, List.length_eq_zero_iff] at length
  refine ⟨placed, ?_, isPlaced.trans isSource⟩
  rw [length, isInPlace, List.append_nil]

end Elsewhere

/-- A comparison of tokens that stand alone with the same tokens in place. -/
theorem beside_of_placed
    {place : Place}
    {cursor placed : Cursor}
    {tokens : List Token}
    (isRest : cursor.rest = tokens ++ [Cursor.endToken])
    (inPlace : ∃ others, others.map Token.unplaced = tokens ∧ placed.rest = others ++ place.tail)
    (size : tokens.length = place.size)
    (input : EndsOnce cursor.rest)
    (spelled : WordsSpelled cursor.rest)
    (noAttribute : ∀ token ∈ tokens.getLast?, attributes.contains token.text = false)
    (session : place.SameSession cursor.session placed.session) :
    Beside place tokens.length cursor placed := by
  refine ⟨?_, Nat.le_of_eq size, input, spelled, ?_, session⟩
  · obtain ⟨others, isTokens, isPlaced⟩ := inPlace
    refine ⟨tokens, others, Cursor.endToken, isRest, isPlaced, ?_, rfl, noAttribute⟩
    rw [← isTokens, List.map_map]
    rfl
  · intro within
    rw [size] at within
    exact absurd within (Nat.lt_irrefl _)

namespace NamedDeclarator

variable {session : Session} (declared : NamedDeclarator session)

/-- The cursor before the tokens alone. -/
def start : Cursor :=
  { session, rest := declared.tokens ++ [Cursor.endToken] }

theorem spelled_start : WordsSpelled declared.start.rest := by
  intro token member isWord
  rcases List.mem_append.1 member with member | member
  · exact declared.spelled token member isWord
  · rw [List.mem_singleton.1 member] at isWord
    contradiction

theorem endsOnce_start : EndsOnce declared.start.rest := by
  refine ⟨declared.tokens, Cursor.endToken, rfl, rfl, rfl, ?_⟩
  intro token member
  refine ⟨(declared.bare token member).1, ?_⟩
  rintro isWord isComma
  obtain ⟨c, rest, text, starts⟩ := declared.spelled token member isWord
  rw [isComma] at text
  obtain ⟨rfl, -⟩ := List.cons.inj text
  contradiction

theorem quiet_start : Quiet session false declared.start where
  session := ⟨session.source, session.enums, session.enumTags, rfl, rfl⟩
  uncommented := by
    intro token member
    rcases List.mem_append.1 member with member | member
    · exact (declared.bare token member).2
    · rw [List.mem_singleton.1 member]
      exact ⟨rfl, rfl⟩
  spelled := declared.spelled_start
  previous := by
    intro token isPrevious
    contradiction
  noComma := by
    intro justTook
    contradiction

/-- The fuel with which the tokens are read alone. -/
def fuel : Nat :=
  6 * (declared.tokens.length + 3)

/-- The reading of the tokens alone tells the session nothing. -/
theorem reads :
    ∃ after, declarator declared.fuel false declared.start = .ok (some declared.shape) after ∧
      after.rest = [Cursor.endToken] ∧ Quiet session false after ∧
      Elsewhere session after.session := by
  obtain ⟨after, read, isRest, sameEnums, sameTags⟩ := declared.read
  have isFuel : declared.start.fuel = declared.fuel := by
    simp [start, Cursor.fuel, fuel]
  unfold requiredDeclarator at read
  rw [get_bind_run] at read
  obtain ⟨shape, between, reads, read⟩ := of_bind_run read
  change declarator declared.start.fuel false declared.start = _ at reads
  rw [isFuel] at reads
  cases shape with
  | none => cases read
  | some shape =>
      cases read
      have quiet := (DeclaratorsStayQuiet.all session declared.fuel).declarator false
        declared.quiet_start _ _ reads
      refine ⟨after, reads, isRest, quiet, ?_⟩
      obtain ⟨source, enums, enumTags, isSession, isSource⟩ := quiet.session
      refine ⟨source, ?_, isSource⟩
      rw [isSession] at sameEnums sameTags ⊢
      rw [show enums = session.enums from sameEnums, show enumTags = session.enumTags from sameTags]

theorem tokens_ne_nil : declared.tokens ≠ [] := by
  intro empty
  obtain ⟨after, reads, -⟩ := declared.reads
  have starts := declarator_start reads declared.named
  simp [start, empty, Cursor.peek, Cursor.endToken, Token.hasText, Token.isWord] at starts

/-- The tokens are read in the same way wherever they stand before a semicolon, a comma or a
closing parenthesis. -/
theorem reads_inPlace
    (abstractAllowed : Bool)
    {fuel : Nat}
    {cursor : Cursor}
    {stop : String}
    {tokens after : List Token}
    (faces : Faces cursor (declared.tokens ++ .mark stop :: tokens) after)
    (isStop : stop = ";" ∨ stop = "," ∨ stop = ")")
    (elsewhere : Elsewhere session cursor.session)
    (enough : declared.fuel ≤ fuel) :
    ∃ final, declarator fuel abstractAllowed cursor = .ok (some declared.shape) final ∧
      Faces final (.mark stop :: tokens) after ∧ Elsewhere session final.session ∧
      final.trailingComment = none ∧ final.justTook "," = false := by
  obtain ⟨alone, reads, isEnd, quiet, aloneElsewhere⟩ := declared.reads
  have readsAs : declarator declared.fuel abstractAllowed declared.start =
      .ok (some declared.shape) alone := by
    cases abstractAllowed with
    | false => exact reads
    | true =>
        exact declarator_abstractAllowed declared.quiet_start.weaken declared.name.notTypedef reads
          declared.named
  have stands := faces.advanceBy
  let place : Place :=
    { size := declared.tokens.length, tail := (cursor.advanceBy declared.tokens.length).rest
      alone := session.diagnostics, inPlace := session.diagnostics }
  have delimited : place.Delimited := by
    obtain ⟨placed, isPlaced, isRest⟩ := stands.placed
    obtain ⟨token, others, rfl, isToken, -⟩ := List.map_eq_cons_iff.1 isPlaced
    refine ⟨token, others ++ after, isRest, ?_, ?_, ?_⟩
    · rw [← Token.isEnd_unplaced, isToken]
      rfl
    · rw [← Token.isWord_unplaced, isToken]
      rfl
    · rw [← Token.text_unplaced, isToken]
      exact isStop
  have beside : Beside place declared.tokens.length declared.start cursor := by
    refine beside_of_placed rfl faces.left.placed rfl declared.endsOnce_start
      declared.spelled_start ?_ ?_
    · intro token isLast
      exact declared.noAttribute token (List.mem_of_getLast? isLast)
    · exact elsewhere.sameSession rfl rfl
  have positive := List.length_pos_iff.2 declared.tokens_ne_nil
  have tracks := (DeclaratorsTrack.all delimited enough).declarator abstractAllowed beside
    (by unfold NamedDeclarator.fuel; omega)
  obtain ⟨fewer, final, inPlace, -, besideFinal⟩ := tracks _ _ readsAs
  obtain rfl : fewer = 0 := by
    have length := besideFinal.length.1
    rw [isEnd, List.length_singleton] at length
    omega
  refine ⟨final, inPlace, ⟨stands.bare, ?_⟩, ?_, ?_, ?_⟩
  · rw [besideFinal.rest_end]
    exact stands.placed
  · exact aloneElsewhere.of_sameSession rfl rfl besideFinal.session
  · rw [← besideFinal.trailingComment_eq positive]
    exact quiet.trailingComment
  · rw [← besideFinal.justTook_eq positive]
    by_contra justTook
    exact Bool.false_ne_true (quiet.noComma (by simpa using justTook))

/-- A name that stands first is followed by no other word. -/
theorem after_name (isWord : declared.start.peek.isWord = true) :
    isKeyword declared.start.peek.text = false ∧
      declared.start.advance.peek.isWord = false := by
  obtain ⟨after, reads, isEnd, -⟩ := declared.reads
  have spelled := declared.spelled_start
  have noStar : declared.start.peek.hasText "*" = false :=
    spelled.hasText_peek isWord (by decide)
  have noOpener : declared.start.peek.hasText "(" = false :=
    spelled.hasText_peek isWord (by decide)
  obtain ⟨fuel, isFuel⟩ : ∃ fuel, declared.fuel = fuel + 3 :=
    ⟨declared.fuel - 3, by unfold NamedDeclarator.fuel; omega⟩
  rw [isFuel] at reads
  unfold declarator at reads
  rw [bind_run_ok (pointer_absent noStar)] at reads
  obtain ⟨direct, between, directly, reads⟩ := of_bind_run reads
  cases reads
  rcases directDeclarator_cases directly with ⟨-, notKeyword, suffixed⟩ | ⟨-, opens, -⟩
  · refine ⟨notKeyword, ?_⟩
    by_contra further
    rw [Bool.not_eq_false] at further
    have input := endsOnce_advance declared.endsOnce_start
    have spelledAfter : WordsSpelled declared.start.advance.rest := by
      intro token member
      exact spelled token (declared.start.rest_advance_suffix.subset member)
    have member : declared.start.advance.peek ∈ declared.tokens := by
      have inRest : declared.start.advance.peek ∈ declared.start.rest := by
        apply declared.start.rest_advance_suffix.subset
        rw [Cursor.rest_eq_peek_cons input]
        exact List.mem_cons_self
      rcases List.mem_append.1 inRest with inTokens | isEnd
      · exact inTokens
      · rw [List.mem_singleton.1 isEnd] at further
        contradiction
    rw [suffixes_absent (spelledAfter.hasText_peek further (by decide))
      (spelledAfter.hasText_peek further (by decide)) (declared.noAttribute _ member)] at suffixed
    obtain ⟨-, rfl⟩ := EStateM.Result.ok.inj suffixed
    rw [Cursor.peek_eq_head isEnd] at further
    contradiction
  · rw [noOpener] at opens
    contradiction

/-- The specifiers before a named declarator end where it starts. -/
theorem endsSpecifiers
    {cursor : Cursor}
    {stop : String}
    {tokens after : List Token}
    (faces : Faces cursor (declared.tokens ++ .mark stop :: tokens) after) :
    EndsSpecifiers cursor := by
  rcases isTokens : declared.tokens with _ | ⟨first, others⟩
  · exact absurd isTokens declared.tokens_ne_nil
  rw [isTokens, List.cons_append] at faces
  have isRest : declared.start.rest = first :: (others ++ [Cursor.endToken]) := by
    simp [start, isTokens]
  have isFirst := Cursor.peek_eq_head isRest
  by_cases isWord : first.isWord = true
  · right
    rw [← isFirst] at isWord
    obtain ⟨notKeyword, noWord⟩ := declared.after_name isWord
    have filled : cursor.advance.rest ≠ [] := by
      rw [← List.length_pos_iff, faces.advance.length, List.length_append, List.length_cons]
      omega
    have noWordInPlace : cursor.advance.peek.isWord = false := by
      rcases others with _ | ⟨second, others⟩
      · exact faces.advance.isWord
      · rw [faces.advance.isWord, ← noWord]
        have remains : declared.start.advance.rest = second :: (others ++ [Cursor.endToken]) := by
          rw [Cursor.rest_advance (Token.not_isEnd_of_isWord isWord), isRest]
          rfl
        rw [Cursor.peek_eq_head remains]
    have noKeyword := keywordMeaning?_eq_none notKeyword
    rw [isFirst] at noKeyword
    simp [meaningAt, faces.text, noKeyword, Cursor.peekNth_one faces.notEnd filled, noWordInPlace]
  · left
    rw [faces.isWord]
    simpa using isWord

/-- A named declarator may follow a tag. -/
theorem pastTag
    {cursor : Cursor}
    {stop : String}
    {tokens after : List Token}
    (faces : Faces cursor (declared.tokens ++ .mark stop :: tokens) after) :
    PastTag cursor := by
  obtain ⟨final, reads, -⟩ := declared.reads
  rcases isTokens : declared.tokens with _ | ⟨first, others⟩
  · exact absurd isTokens declared.tokens_ne_nil
  rw [isTokens, List.cons_append] at faces
  have isRest : declared.start.rest = first :: (others ++ [Cursor.endToken]) := by
    simp [start, isTokens]
  have isFirst := Cursor.peek_eq_head isRest
  refine ⟨?_, ?_, ?_⟩
  · rw [← List.length_pos_iff, faces.length, List.length_cons]
    omega
  · rw [faces.hasText, ← isFirst]
    rcases declarator_start reads declared.named with star | opens | ⟨isWord, -⟩
    · exact Token.hasText_of_text_ne (by simp [Token.text_of_hasText star])
    · exact Token.hasText_of_text_ne (by simp [Token.text_of_hasText opens])
    · exact declared.spelled_start.hasText_peek isWord (by decide)
  · rw [faces.text]
    exact declared.noAttribute first (by simp [isTokens])

end NamedDeclarator

end Grammar
end DeclManual
