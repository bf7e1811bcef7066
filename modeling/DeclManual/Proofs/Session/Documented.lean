import DeclManual.Proofs.Session.DeclarationPages
import DeclManual.Proofs.Session.Upkeep

/-!
# What is documented

A complete declaration adds pages after those that are there, and changes nothing else
beside what reading changes.  Every page that it adds has a comment that is not empty, a
proper name and the base file as its source, and has passed the choice of pages at the
current position.
-/

namespace DeclManual

open Decl
open Source (Filled)

/-- What a page has and what it is not, given the options and the base file. -/
structure ManualPage.Documented
    (options : Options)
    (source : SourceState)
    (page : ManualPage) : Prop where
  comment : ∃ text, page.comment = some text ∧ text ≠ ""
  name : IsName page.name
  sourceFile : page.sourceFile = source.baseFile
  notJunk : page.spec.flags.isJunk = false
  isFunction : page.isFunction = true ∨ options.variablesOut = true
  notStatic :
    page.spec.flags.isStatic = false ∨ options.staticOut = true ∨ source.isHeader = true
  notExtern :
    page.spec.flags.isExtern = false ∨ source.isHeader = true ∨
      page.declarator.kind = .functionDef

/-- The enumerator lists of a page and of its parameters are known. -/
structure ManualPage.Linked (known : ListId -> Prop) (page : ManualPage) : Prop where
  spec : page.spec.Linked known
  declarator : page.declarator.Linked known

/-- A page that is added at a position in the base file. -/
structure ManualPage.Added
    (known : ListId -> Prop)
    (options : Options)
    (source : SourceState)
    (page : ManualPage) : Prop where
  documented : page.Documented options source
  linked : page.Linked known
  inBaseFile : source.inBaseFile = true

theorem ManualPage.Linked.mono
    {page : ManualPage}
    {known wider : ListId -> Prop}
    (linked : page.Linked known)
    (more : ∀ list, known list -> wider list) :
    page.Linked wider :=
  ⟨linked.spec.mono more, linked.declarator.mono more⟩

namespace Session

variable {old known : ListId -> Prop}

/-- Reading changes nothing that a page depends on. -/
theorem Upkeep.documented
    {before after : Session}
    {page : ManualPage}
    (upkeep : Upkeep old before after)
    (documented : page.Documented after.options after.source) :
    page.Documented before.options before.source := by
  obtain ⟨comment, name, sourceFile, notJunk, isFunction, notStatic, notExtern⟩ := documented
  rw [upkeep.baseFile] at sourceFile
  rw [upkeep.options] at isFunction notStatic
  rw [upkeep.isHeader] at notStatic notExtern
  exact ⟨comment, name, sourceFile, notJunk, isFunction, notStatic, notExtern⟩

/-! ## Positions -/

theorem source_commentLastDeclaratorAll
    (session : Session)
    (declarators : List Declarator)
    (comments : List String) :
    (session.commentLastDeclaratorAll declarators comments).1.source = session.source := by
  induction comments generalizing session declarators with
  | nil => rfl
  | cons comment rest hypothesis =>
      unfold commentLastDeclaratorAll
      rw [hypothesis]
      unfold commentLastDeclarator
      split
      · rfl
      · split <;> rfl

theorem source_commentEndOfLine
    (session : Session)
    (declarators : List Declarator)
    (comment : Option String) :
    (session.commentEndOfLine declarators comment).1.source = session.source := by
  unfold commentEndOfLine
  split
  · split <;> rfl
  · rfl

theorem source_declareTypedefs
    (session : Session)
    (spec : Spec)
    (declarators : List Declarator) :
    (session.declareTypedefs spec declarators).source = session.source := by
  unfold declareTypedefs
  induction declarators.filterMap (·.name) generalizing session with
  | nil => rfl
  | cons name rest hypothesis =>
      rw [List.foldl_cons, hypothesis]
      unfold declareTypedef
      split <;> rfl

/-! ## Pages -/

/-- A page of a sound declarator is documented at the current position. -/
theorem added_of_pageOf
    {session : Session}
    {comment : Option String}
    (filled : Filled comment)
    {spec : Spec}
    (specLinked : spec.Linked known)
    {declarator : Declarator}
    (sound : declarator.Sound known)
    (named : declarator.name.isSome = true)
    {page : ManualPage}
    (isPage : session.pageOf spec comment declarator = some page) :
    page.Added known session.options session.source := by
  obtain ⟨deserved, rfl⟩ := pageOf_eq_some_iff.1 isPage
  unfold deservesPage at deserved
  simp only [Bool.and_eq_true, Bool.or_eq_true, Bool.not_eq_true', beq_iff_eq] at deserved
  obtain ⟨⟨⟨⟨⟨commented, inBaseFile⟩, isFunction⟩, notJunk⟩, notStatic⟩, notExtern⟩ := deserved
  obtain ⟨text, rfl⟩ := Option.isSome_iff_exists.1 commented
  obtain ⟨name, isName⟩ := Option.isSome_iff_exists.1 named
  refine ⟨⟨⟨text, rfl, filled text rfl⟩, ?_, rfl, notJunk, isFunction.symm, ?_, ?_⟩,
    ⟨specLinked, sound.linked.congr rfl rfl⟩, inBaseFile⟩
  · simpa [ManualPage.name, isName] using sound.name name isName
  · rcases notStatic with (wanted | notStatic) | isHeader
    · exact .inr (.inl wanted)
    · exact .inl notStatic
    · exact .inr (.inr isHeader)
  · rcases notExtern with (notExtern | isHeader) | isDefinition
    · exact .inl notExtern
    · exact .inr (.inl isHeader)
    · exact .inr (.inr isDefinition)

/-- A session with pages after those that were there, kept up otherwise. -/
structure Growth
    (old : ListId -> Prop)
    (before after : Session)
    (new : List ManualPage) : Prop where
  upkeep : Upkeep old before { after with pages := before.pages }
  pages : after.pages = before.pages ++ new

theorem Growth.of_upkeep
    {before after : Session}
    (upkeep : Upkeep old before after) :
    Growth old before after [] where
  upkeep := ⟨rfl, upkeep.options, upkeep.baseFile, upkeep.isHeader, upkeep.size, upkeep.filled,
    fun linked => ⟨(upkeep.linked linked).typedefs, (upkeep.linked linked).enumTags⟩⟩
  pages := by rw [upkeep.pages, List.append_nil]

theorem Growth.trans
    {first second third : Session}
    {early late : List ManualPage}
    (left : Growth old first second early)
    (right : Growth old second third late) :
    Growth old first third (early ++ late) where
  upkeep :=
    { pages := rfl
      options := right.upkeep.options.trans left.upkeep.options
      baseFile := right.upkeep.baseFile.trans left.upkeep.baseFile
      isHeader := right.upkeep.isHeader.trans left.upkeep.isHeader
      size := Nat.le_trans left.upkeep.size right.upkeep.size
      filled := right.upkeep.filled ∘ left.upkeep.filled
      linked := fun linked =>
        have middle := left.upkeep.linked linked
        have last := right.upkeep.linked ⟨middle.typedefs, middle.enumTags⟩
        ⟨last.typedefs, last.enumTags⟩ }
  pages := by rw [right.pages, left.pages, List.append_assoc]

/-- A complete declaration adds pages at the current position. -/
theorem rememberDeclarations_adds
    (session : Session)
    {comment : Option String}
    (filled : Filled comment)
    {spec : Spec}
    (specLinked : spec.Linked (session.enums.Known old))
    {declarators : List Declarator}
    (sound : SoundAll (session.enums.Known old) declarators)
    {endOfLine : Option String}
    (endFilled : Filled endOfLine) :
    ∃ new, Growth old session
        (session.rememberDeclarations comment spec declarators endOfLine).1 new ∧
      ∀ page ∈ new, page.Added
        ((session.rememberDeclarations comment spec declarators endOfLine).1.enums.Known old)
        session.options session.source := by
  have position := source_commentEndOfLine session declarators endOfLine
  obtain ⟨upkeep, commented⟩ : Upkeep old session _ ∧ _ :=
    commentEndOfLine_upkeep session sound endFilled
  cases settles : session.commentEndOfLine declarators endOfLine with
  | mk checked rest =>
    obtain ⟨settled, ok⟩ := rest
    rw [settles] at position upkeep commented
    rw [rememberDeclarations_of_settled settles]
    have growth := Growth.of_upkeep upkeep
    refine ⟨checked.pagesOf comment spec settled, ⟨growth.upkeep, by rw [upkeep.pages]⟩,
      fun page member => ?_⟩
    obtain ⟨declarator, isSettled, chosen, isChosen, isPage⟩ := exists_of_mem_pagesOf member
    obtain ⟨declaratorSound, named⟩ := commented.mono upkeep.known declarator isSettled
    have chosenFilled : Filled chosen := by
      rcases isChosen with rfl | rfl
      · exact filled.or declaratorSound.comment
      · exact declaratorSound.comment.or filled
    obtain ⟨documented, linked, inBaseFile⟩ :=
      added_of_pageOf chosenFilled (specLinked.mono upkeep.known) declaratorSound named isPage
    exact ⟨upkeep.documented documented, linked, position ▸ inBaseFile⟩

end Session
end DeclManual
