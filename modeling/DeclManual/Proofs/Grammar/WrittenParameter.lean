import DeclManual.Proofs.Grammar.NamedDeclarator

/-!
# Parameters as they are written

The specifier of a parameter is a run of storage classes and qualifiers with at least
one type: a type word, a tag without a body, or the name of a typedef, which comes
before every other type.  It is read in the same way in a parameter list and in a
declaration of its own.
-/

namespace DeclManual
namespace Grammar

open Decl
open Source (Token)

/-! ## Specifiers -/

/-- A part of the specifier of a parameter. -/
inductive SpecifierPart (session : Session) where
  /-- A storage class, a qualifier or a function specifier. -/
  | modifier (word : String) (flags : Flags) (means : keywordMeaning? word = some (.modifier flags))
  | typedefWord
  | typeWord (word : String) (flags : Flags) (means : keywordMeaning? word = some (.typeWord flags))
  /-- A structure or union without its members. -/
  | record
      (keyword tag : String)
      (means : keywordMeaning? keyword = some .record)
      (notAttribute : attributes.contains tag = false)
  /-- An enumeration without its enumerators. -/
  | enumeration (tag : String) (notAttribute : attributes.contains tag = false)
  | typedefName
      (name : String)
      (isSpelled : ∃ c rest, name.toList = c :: rest ∧ Source.startsWord c = true)
      (notKeyword : isKeyword name = false)
      (isTypedef : session.isTypedefName name = true)

namespace SpecifierPart

variable {session : Session}

/-- The tokens of a part. -/
def tokens : SpecifierPart session → List Token
  | .modifier word _ _ => [.word word]
  | .typedefWord => [.word "typedef"]
  | .typeWord word _ _ => [.word word]
  | .record keyword tag _ _ => [.word keyword, .word tag]
  | .enumeration tag _ => [.word "enum", .word tag]
  | .typedefName declared _ _ _ => [.word declared]

/-- The fragment that a part contributes to the specifier. -/
def spec : SpecifierPart session → Spec
  | .modifier word flags _ => .ofText word flags
  | .typedefWord => .ofText "typedef" .junk
  | .typeWord word flags _ => .ofText word flags
  | .record keyword tag _ _ => .ofText (taggedText keyword (some tag)) {}
  | .enumeration tag _ =>
    (Spec.ofText (taggedText "enum" (some tag)) {}).withEnumList (session.tagEnumList tag)
  | .typedefName declared _ _ _ =>
    (Spec.ofText declared {}).withEnumList (session.typedefEnumList declared)

/-- Whether a part is a type. -/
def isType : SpecifierPart session → Bool
  | .modifier _ _ _ | .typedefWord => false
  | .typeWord _ _ _ | .record _ _ _ _ | .enumeration _ _ | .typedefName _ _ _ _ => true

/-- Whether a part is a type by the name of a typedef. -/
def isTypedefName : SpecifierPart session → Bool
  | .typedefName _ _ _ _ => true
  | _ => false

/-- Whether a part is the word `typedef`. -/
def isTypedefWord : SpecifierPart session → Bool
  | .typedefWord => true
  | _ => false

/-- The specifiers read so far, with a part. -/
def add (read : Option Specifiers) (part : SpecifierPart session) : Option Specifiers :=
  Specifiers.add read part.isTypedefWord part.spec

/-- The first word of a part. -/
def head : SpecifierPart session → String
  | .modifier word _ _ => word
  | .typedefWord => "typedef"
  | .typeWord word _ _ => word
  | .record keyword _ _ _ => keyword
  | .enumeration _ _ => "enum"
  | .typedefName declared _ _ _ => declared

theorem tokens_eq_head (part : SpecifierPart session) :
    ∃ others, part.tokens = .word part.head :: others := by
  cases part <;> exact ⟨_, rfl⟩

theorem bare (part : SpecifierPart session) : Bare part.tokens := by
  cases part with
  | record keyword tag => exact .cons (by decide) keyword (.cons (by decide) tag bare_nil)
  | enumeration tag => exact .cons (by decide) "enum" (.cons (by decide) tag bare_nil)
  | _ => exact .cons (by decide) _ bare_nil

end SpecifierPart

theorem keywordMeaning?_of_attribute
    {word : String}
    (isAttribute : attributes.contains word = true) :
    keywordMeaning? word = some .attribute := by
  simp only [attributes, List.contains_eq_mem, List.mem_cons, List.not_mem_nil, or_false,
    decide_eq_true_eq] at isAttribute
  rcases isAttribute with rfl | rfl | rfl | rfl | rfl | rfl <;> decide

theorem skipAttributes_absent
    {cursor : Cursor}
    (filled : cursor.rest ≠ [])
    (noAttribute : attributes.contains cursor.peek.text = false) :
    skipAttributes cursor = .ok () cursor := by
  unfold skipAttributes
  rw [get_bind_run]
  cases length : cursor.rest.length with
  | zero => exact absurd (List.length_eq_zero_iff.1 length) filled
  | succ count =>
      unfold skipAttributesUpTo
      rw [peek_bind_run, noAttribute, if_neg (by simp)]
      rfl

/-- The head of a part is a keyword of no attribute, or a typedef name. -/
theorem SpecifierPart.head_cases {session : Session} (part : SpecifierPart session) :
    (∃ meaning, keywordMeaning? part.head = some meaning ∧ meaning ≠ .attribute) ∨
      isKeyword part.head = false ∧ session.isTypedefName part.head = true ∧
        ∃ c rest, part.head.toList = c :: rest ∧ Source.startsWord c = true := by
  have typedefMeans : keywordMeaning? "typedef" = some .typedefWord := by decide
  have enumMeans : keywordMeaning? "enum" = some .enumeration := by decide
  cases part with
  | modifier word flags means => exact .inl ⟨_, means, by simp⟩
  | typedefWord => exact .inl ⟨_, typedefMeans, by simp⟩
  | typeWord word flags means => exact .inl ⟨_, means, by simp⟩
  | record keyword tag means notAttribute => exact .inl ⟨_, means, by simp⟩
  | enumeration tag notAttribute => exact .inl ⟨_, enumMeans, by simp⟩
  | typedefName declared isSpelled notKeyword isTypedef =>
      exact .inr ⟨notKeyword, isTypedef, isSpelled⟩

/-- The head of a part is no mark. -/
theorem SpecifierPart.head_ne
    {session : Session}
    (part : SpecifierPart session)
    {text : String}
    (noKeyword : keywordMeaning? text = none)
    (isMark : text.toList.head?.map Source.startsWord = some false) :
    part.head ≠ text := by
  rintro rfl
  rcases part.head_cases with ⟨meaning, means, -⟩ | ⟨-, -, c, rest, isText, starts⟩
  · rw [noKeyword] at means
    contradiction
  · rw [isText, List.head?_cons, Option.map_some, starts] at isMark
    contradiction

theorem SpecifierPart.head_not_attribute
    {session : Session}
    (part : SpecifierPart session) :
    attributes.contains part.head = false := by
  by_contra isAttribute
  have means := keywordMeaning?_of_attribute (by simpa using isAttribute)
  rcases part.head_cases with ⟨meaning, isMeaning, notAttribute⟩ | ⟨notKeyword, -⟩
  · rw [means] at isMeaning
    exact notAttribute (Option.some.inj isMeaning).symm
  · rw [keywordMeaning?_eq_none notKeyword] at means
    contradiction

section

variable
  {session : Session}
  {cursor : Cursor}
  {tokens after : List Token}

/-- A part may follow a tag. -/
theorem SpecifierPart.pastTag
    (part : SpecifierPart session)
    (faces : Faces cursor (part.tokens ++ tokens) after) :
    PastTag cursor := by
  obtain ⟨others, isHead⟩ := part.tokens_eq_head
  rw [isHead, List.cons_append] at faces
  refine ⟨?_, ?_, ?_⟩
  · rw [← List.length_pos_iff, faces.length, List.length_cons]
    omega
  · rw [faces.hasText, hasText_word, beq_eq_false_iff_ne]
    exact part.head_ne (by decide) (by decide)
  · rw [faces.text]
    exact part.head_not_attribute

theorem optionalTag_word
    {tag : String}
    (faces : Faces cursor (.word tag :: tokens) after) :
    optionalTag cursor = .ok (some tag) cursor.advance := by
  unfold optionalTag
  rw [peek_bind_run, faces.isWord, isWord_word, if_pos rfl, take_bind_run, faces.text]
  rfl

theorem recordSpecifier_tag
    {keyword tag : String}
    (faces : Faces cursor (.word keyword :: .word tag :: tokens) after)
    (notAttribute : attributes.contains tag = false)
    (past : PastTag cursor.advance.advance) :
    recordSpecifier cursor =
      .ok (.ofText (taggedText keyword (some tag)) {}) cursor.advance.advance := by
  have tagged := faces.advance
  have filled : cursor.advance.rest ≠ [] := by
    rw [← List.length_pos_iff, tagged.length, List.length_cons]
    omega
  have noAttribute : attributes.contains cursor.advance.peek.text = false := by
    rw [tagged.text]
    exact notAttribute
  have noBody : skipGroup "\x7b" "\x7d" cursor.advance.advance = .ok () cursor.advance.advance := by
    unfold skipGroup
    rw [sees_bind_run, past.noBrace, if_neg (by simp)]
    rfl
  unfold recordSpecifier
  rw [take_bind_run, bind_run_ok (skipAttributes_absent filled noAttribute),
    bind_run_ok (optionalTag_word tagged), bind_run_ok noBody,
    bind_run_ok (skipAttributes_absent past.filled past.noAttribute), faces.text]
  rfl

theorem enumSpecifier_tag
    {tag : String}
    (faces : Faces cursor (.word "enum" :: .word tag :: tokens) after)
    (elsewhere : Elsewhere session cursor.session)
    (notAttribute : attributes.contains tag = false)
    (past : PastTag cursor.advance.advance) :
    enumSpecifier cursor =
      .ok ((Spec.ofText (taggedText "enum" (some tag)) {}).withEnumList (session.tagEnumList tag))
        cursor.advance.advance := by
  have tagged := faces.advance
  have filled : cursor.advance.rest ≠ [] := by
    rw [← List.length_pos_iff, tagged.length, List.length_cons]
    omega
  have noAttribute : attributes.contains cursor.advance.peek.text = false := by
    rw [tagged.text]
    exact notAttribute
  have known : enumerationList (some tag) cursor.advance.advance =
      .ok (session.tagEnumList tag) cursor.advance.advance := by
    obtain ⟨source, isSession, -⟩ := elsewhere.advance.advance
    unfold enumerationList
    rw [sees_bind_run, past.noBrace, if_neg (by simp), get_bind_run, isSession]
    rfl
  unfold enumSpecifier
  rw [take_bind_run, bind_run_ok (skipAttributes_absent filled noAttribute),
    bind_run_ok (optionalTag_word tagged), bind_run_ok known, faces.text]
  rfl

/-- A part is read in every context; a typedef name before any other type. -/
theorem specifiersUpTo_written
    (part : SpecifierPart session)
    (faces : Faces cursor (part.tokens ++ tokens) after)
    (elsewhere : Elsewhere session cursor.session)
    (past : PastTag (cursor.advanceBy part.tokens.length))
    (context : Context)
    {seenType : Bool}
    (first : part.isTypedefName = true → seenType = false)
    (count : Nat)
    (read : Option Specifiers) :
    specifiersUpTo context (count + 1) seenType read cursor =
      specifiersUpTo context count (seenType || part.isType) (part.add read)
        (cursor.advanceBy part.tokens.length) := by
  obtain ⟨others, isHead⟩ := part.tokens_eq_head
  have starts : Faces cursor (.word part.head :: (others ++ tokens)) after := by
    rw [← List.cons_append, ← isHead]
    exact faces
  have isText : cursor.peek.text = part.head := starts.text
  have isWord : cursor.peek.isWord = true := starts.isWord
  have meaning {means : SpecifierWord} (isMeaning : keywordMeaning? part.head = some means) :
      meaningAt context seenType cursor = means := by
    rw [← isText] at isMeaning
    exact meaningAt_keyword isMeaning context seenType
  cases part with
  | modifier word flags means =>
      rw [specifiersUpTo_modifier isWord (meaning means), isText]
      simp only [SpecifierPart.isType, Bool.or_false]
      rfl
  | typeWord word flags means =>
      rw [specifiersUpTo_typeWord isWord (meaning means), isText]
      simp only [SpecifierPart.isType, Bool.or_true]
      rfl
  | typedefWord =>
      have means : keywordMeaning? "typedef" = some .typedefWord := by decide
      conv_lhs => unfold specifiersUpTo takeSpecifier
      rw [get_bind_run, if_neg (by simp [isWord]), meaning means]
      simp only [SpecifierPart.isType, Bool.or_false]
      rw [bind_assoc, take_bind_run, pure_bind, isText]
      rfl
  | record keyword tag means notAttribute =>
      conv_lhs => unfold specifiersUpTo
      rw [get_bind_run, if_neg (by simp [isWord]), meaning means]
      simp only [SpecifierPart.isType, Bool.or_true]
      rw [bind_run_ok (recordSpecifier_tag faces notAttribute past)]
      rfl
  | enumeration tag notAttribute =>
      have means : keywordMeaning? "enum" = some .enumeration := by decide
      conv_lhs => unfold specifiersUpTo
      rw [get_bind_run, if_neg (by simp [isWord]), meaning means]
      simp only [SpecifierPart.isType, Bool.or_true]
      rw [bind_run_ok (enumSpecifier_tag faces elsewhere notAttribute past)]
      rfl
  | typedefName declared isSpelled notKeyword isTypedef =>
      obtain rfl := first rfl
      have means : meaningAt context false cursor = .typedefName := by
        obtain ⟨source, isSession, -⟩ := elsewhere
        have known : cursor.session.isTypedefName declared = true := by
          rw [isSession]
          exact isTypedef
        have noKeyword := keywordMeaning?_eq_none notKeyword
        unfold meaningAt
        rw [isText]
        simp [SpecifierPart.head, noKeyword, known]
      have sameLists : cursor.advance.session.typedefEnumList = session.typedefEnumList := by
        obtain ⟨source, isSession, -⟩ := elsewhere.advance
        rw [isSession]
        rfl
      conv_lhs => unfold specifiersUpTo typedefSpecifier
      rw [get_bind_run, if_neg (by simp [isWord]), means]
      simp only [SpecifierPart.isType, Bool.or_true]
      rw [bind_assoc, take_bind_run, bind_assoc, get_bind_run, pure_bind, isText, sameLists]
      rfl

/-- Parts none of which is a typedef name are read in every context. -/
theorem specifiersUpTo_writtenParts
    (parts : List (SpecifierPart session))
    (faces : Faces cursor (parts.flatMap SpecifierPart.tokens ++ tokens) after)
    (elsewhere : Elsewhere session cursor.session)
    (past : PastTag (cursor.advanceBy (parts.flatMap SpecifierPart.tokens).length))
    (noTypedefName : ∀ part ∈ parts, part.isTypedefName = false)
    (context : Context)
    (seenType : Bool)
    (count : Nat)
    (read : Option Specifiers) :
    specifiersUpTo context (parts.length + count) seenType read cursor =
      specifiersUpTo context count (seenType || parts.any SpecifierPart.isType)
        (parts.foldl SpecifierPart.add read)
        (cursor.advanceBy (parts.flatMap SpecifierPart.tokens).length) := by
  induction parts generalizing cursor seenType read with
  | nil => simp [Cursor.advanceBy]
  | cons part parts hypothesis =>
      rw [List.flatMap_cons, List.append_assoc] at faces
      rw [List.flatMap_cons, List.length_append, Cursor.advanceBy_add] at past
      have behind := faces.advanceBy
      have pastPart : PastTag (cursor.advanceBy part.tokens.length) := by
        cases parts with
        | nil => exact past
        | cons next parts =>
            rw [List.flatMap_cons, List.append_assoc] at behind
            exact next.pastTag behind
      have noName := noTypedefName part List.mem_cons_self
      rw [List.length_cons, Nat.add_right_comm, specifiersUpTo_written part faces elsewhere pastPart
        context (by simp [noName]), hypothesis behind (elsewhere.advanceBy _) past
        (fun other member => noTypedefName other (List.mem_cons_of_mem part member)),
        List.flatMap_cons, List.length_append, Cursor.advanceBy_add, List.any_cons, List.foldl_cons,
        Bool.or_assoc]

end

/-- The specifier of a parameter: storage classes and qualifiers with at least one type.
The name of a typedef is the first type. -/
structure ParameterSpecifier (session : Session) where
  leading : List (SpecifierPart session)
  type : SpecifierPart session
  further : List (SpecifierPart session)
  leading_not_type : ∀ part ∈ leading, part.isType = false
  isType : type.isType = true
  further_not_typedefName : ∀ part ∈ further, part.isTypedefName = false

namespace ParameterSpecifier

variable {session : Session} (specifier : ParameterSpecifier session)

/-- The parts of a specifier in order. -/
def parts : List (SpecifierPart session) :=
  specifier.leading ++ specifier.type :: specifier.further

/-- The tokens of a specifier. -/
def tokens : List Token :=
  specifier.parts.flatMap SpecifierPart.tokens

/-- The specifier that the parts compose. -/
def spec : Spec :=
  ((specifier.parts.foldl SpecifierPart.add none).map (·.spec)).getD {}

/-- The first word of a specifier. -/
theorem tokens_start :
    ∃ (part : SpecifierPart session) (others : List Token),
      specifier.tokens = .word part.head :: others := by
  unfold tokens parts
  cases specifier.leading with
  | nil =>
      obtain ⟨others, isHead⟩ := specifier.type.tokens_eq_head
      exact ⟨specifier.type, _, by rw [List.nil_append, List.flatMap_cons, isHead]; rfl⟩
  | cons part leading =>
      obtain ⟨others, isHead⟩ := part.tokens_eq_head
      exact ⟨part, _, by rw [List.cons_append, List.flatMap_cons, isHead]; rfl⟩

/-- The parts of a specifier compose one. -/
theorem foldl_add :
    ∃ isTypedef, specifier.parts.foldl SpecifierPart.add none =
      some { spec := specifier.spec, isTypedef } := by
  have further (parts : List (SpecifierPart session)) (read : Specifiers) :
      ∃ specifiers, parts.foldl SpecifierPart.add (some read) = some specifiers := by
    induction parts generalizing read with
    | nil => exact ⟨read, rfl⟩
    | cons part parts hypothesis => exact hypothesis _
  have composed : ∃ specifiers, specifier.parts.foldl SpecifierPart.add none = some specifiers := by
    unfold parts
    cases specifier.leading with
    | nil => exact further _ _
    | cons part leading => exact further _ _
  obtain ⟨specifiers, isSome⟩ := composed
  refine ⟨specifiers.isTypedef, ?_⟩
  unfold spec
  rw [isSome]
  rfl

theorem length_le_tokens (parts : List (SpecifierPart session)) :
    parts.length ≤ (parts.flatMap SpecifierPart.tokens).length := by
  induction parts with
  | nil => exact Nat.le_refl 0
  | cons part parts hypothesis =>
      obtain ⟨others, isHead⟩ := part.tokens_eq_head
      rw [List.flatMap_cons, List.length_append, List.length_cons, isHead, List.length_cons]
      omega

/-- A specifier is read in the same way in a parameter list and in a declaration. -/
theorem declarationSpecifiers_written
    {cursor : Cursor}
    {tokens after : List Token}
    (faces : Faces cursor (specifier.tokens ++ tokens) after)
    (elsewhere : Elsewhere session cursor.session)
    (ends : EndsSpecifiers (cursor.advanceBy specifier.tokens.length))
    (past : PastTag (cursor.advanceBy specifier.tokens.length))
    (context : Context) :
    ∃ isTypedef, declarationSpecifiers context cursor =
      .ok (some { spec := specifier.spec, isTypedef })
        (cursor.advanceBy specifier.tokens.length) := by
  obtain ⟨isTypedef, composed⟩ := specifier.foldl_add
  refine ⟨isTypedef, ?_⟩
  have enough := length_le_tokens specifier.parts
  have isTokens : specifier.tokens = specifier.leading.flatMap SpecifierPart.tokens ++
      (specifier.type.tokens ++ specifier.further.flatMap SpecifierPart.tokens) := by
    simp [ParameterSpecifier.tokens, parts]
  have length := faces.length
  have steps : ∃ fewer, cursor.rest.length + 1 =
      specifier.leading.length + (specifier.further.length + (fewer + 1) + 1) := by
    simp only [parts, List.length_append, List.length_cons] at enough
    refine ⟨cursor.rest.length - (specifier.leading.length + specifier.further.length + 1), ?_⟩
    rw [length, List.length_append]
    simp only [ParameterSpecifier.tokens, parts]
    omega
  obtain ⟨fewer, steps⟩ := steps
  have leadingFaces := faces
  rw [isTokens, List.append_assoc, List.append_assoc] at leadingFaces
  have typeFaces := leadingFaces.advanceBy
  have furtherFaces := typeFaces.advanceBy
  rw [isTokens, List.length_append, List.length_append, Cursor.advanceBy_add,
    Cursor.advanceBy_add] at past ends ⊢
  have pastType : PastTag ((cursor.advanceBy
      (specifier.leading.flatMap SpecifierPart.tokens).length).advanceBy
        specifier.type.tokens.length) := by
    cases isFurther : specifier.further with
    | nil =>
        rw [isFurther] at past
        exact past
    | cons next further =>
        rw [isFurther, List.flatMap_cons, List.append_assoc] at furtherFaces
        exact next.pastTag furtherFaces
  have noLeadingName : ∀ part ∈ specifier.leading, part.isTypedefName = false := by
    intro part member
    have noType := specifier.leading_not_type part member
    cases part <;> first | rfl | contradiction
  have noLeadingType : specifier.leading.any SpecifierPart.isType = false := by
    rw [List.any_eq_false]
    intro part member
    simp [specifier.leading_not_type part member]
  unfold declarationSpecifiers
  rw [get_bind_run, steps,
    specifiersUpTo_writtenParts specifier.leading leadingFaces elsewhere
      (specifier.type.pastTag typeFaces) noLeadingName context false,
    noLeadingType, Bool.or_false,
    specifiersUpTo_written specifier.type typeFaces (elsewhere.advanceBy _) pastType context
      (fun _ => rfl),
    specifiersUpTo_writtenParts specifier.further furtherFaces
      ((elsewhere.advanceBy _).advanceBy _) past specifier.further_not_typedefName context,
    specifier.isType, Bool.or_true, Bool.true_or, specifiersUpTo_stop ends, ← composed]
  simp [parts]

end ParameterSpecifier

/-! ## Parameters -/

/-- A parameter with a specifier and a named declarator. -/
structure WrittenParameter (session : Session) where
  specifier : ParameterSpecifier session
  declared : NamedDeclarator session

namespace WrittenParameter

variable {session : Session} (written : WrittenParameter session)

/-- The tokens of a parameter. -/
def tokens : List Token :=
  written.specifier.tokens ++ written.declared.tokens

/-- The declared name. -/
def name : String :=
  written.declared.name.text

/-- The parameter that is written. -/
def parameter : Parameter :=
  .ofParts written.specifier.spec written.declared.shape

/-- The parameter that its name stands for in an identifier list. -/
def placeholder : Parameter :=
  .ofParts (.untexted .junk) (.identifier written.name)

theorem bare : Bare written.tokens := by
  refine .append ?_ written.declared.bare
  intro token member
  obtain ⟨part, -, inPart⟩ := List.mem_flatMap.1 member
  exact part.bare token inPart

/-- The specifier of a parameter is read up to its declarator. -/
theorem reads_specifier
    {cursor : Cursor}
    {stop : String}
    {tokens after : List Token}
    (faces : Faces cursor (written.tokens ++ .mark stop :: tokens) after)
    (elsewhere : Elsewhere session cursor.session)
    (context : Context) :
    ∃ isTypedef final, declarationSpecifiers context cursor =
        .ok (some { spec := written.specifier.spec, isTypedef }) final ∧
      Faces final (written.declared.tokens ++ .mark stop :: tokens) after ∧
      Elsewhere session final.session := by
  rw [WrittenParameter.tokens, List.append_assoc] at faces
  have behind := faces.advanceBy
  obtain ⟨isTypedef, read⟩ := written.specifier.declarationSpecifiers_written faces elsewhere
    (written.declared.endsSpecifiers behind) (written.declared.pastTag behind) context
  exact ⟨isTypedef, _, read, behind, elsewhere.advanceBy _⟩

/-- A parameter starts with a word that is no identifier of a list. -/
theorem tokens_start :
    ∃ (part : SpecifierPart session) (others : List Token),
      written.tokens = .word part.head :: others := by
  obtain ⟨part, others, isTokens⟩ := written.specifier.tokens_start
  exact ⟨part, others ++ written.declared.tokens, by rw [tokens, isTokens]; rfl⟩

/-- The parts of a parameter in a list. -/
theorem reads_parts
    {fuel : Nat}
    {cursor : Cursor}
    {stop : String}
    {tokens after : List Token}
    (faces : Faces cursor (written.tokens ++ .mark stop :: tokens) after)
    (isStop : stop = "," ∨ stop = ")")
    (elsewhere : Elsewhere session cursor.session)
    (enough : written.declared.fuel ≤ fuel) :
    ∃ final, parameterParts (fuel + 1) cursor =
        .ok (some written.specifier.spec, some written.declared.shape) final ∧
      Faces final (.mark stop :: tokens) after ∧ Elsewhere session final.session ∧
      final.trailingComment = none ∧ final.justTook "," = false := by
  obtain ⟨part, others, isTokens⟩ := written.tokens_start
  have starts := faces
  rw [isTokens, List.cons_append] at starts
  have noEllipsis : cursor.peek.hasText "..." = false := by
    rw [starts.hasText, hasText_word, beq_eq_false_iff_ne]
    exact part.head_ne (by decide) (by decide)
  obtain ⟨isTypedef, specified, readSpecifier, facesDeclared, elsewhereDeclared⟩ :=
    written.reads_specifier faces elsewhere .parameter
  obtain ⟨final, readDeclared, facesStop, elsewhereFinal, noComment, noComma⟩ :=
    written.declared.reads_inPlace true facesDeclared (.inr isStop) elsewhereDeclared enough
  refine ⟨final, ?_, facesStop, elsewhereFinal, noComment, noComma⟩
  unfold parameterParts
  rw [accept_bind_run, noEllipsis, if_neg (by simp), Option.isSome_none, if_neg (by simp),
    bind_run_ok readSpecifier, bind_run_ok readDeclared]
  rfl

end WrittenParameter

/-! ## Lists -/

/-- Lists of tokens with commas between them. -/
def divided (items : List (List Token)) : List Token :=
  [Token.mark ","].intercalate items

theorem divided_singleton (item : List Token) : divided [item] = item := by
  simp [divided]

theorem divided_cons (item : List Token) (items : List (List Token)) :
    ∃ rest, divided (item :: items) = item ++ rest := by
  cases items with
  | nil => exact ⟨[], by simp [divided]⟩
  | cons next items =>
      exact ⟨.mark "," :: divided (next :: items), by simp [divided, List.intercalate]⟩

theorem divided_cons_cons (first second : List Token) (items : List (List Token)) :
    divided (first :: second :: items) = first ++ .mark "," :: divided (second :: items) := by
  simp [divided, List.intercalate]

theorem bare_divided
    {items : List (List Token)}
    (bare : ∀ item ∈ items, Bare item) :
    Bare (divided items) := by
  induction items with
  | nil => exact bare_nil
  | cons item items hypothesis =>
      have bareItem := bare item List.mem_cons_self
      cases items with
      | nil =>
          rw [divided_singleton]
          exact bareItem
      | cons next items =>
          rw [divided_cons_cons]
          refine bareItem.append (.cons (by decide) "," (hypothesis ?_))
          intro other member
          exact bare other (List.mem_cons_of_mem item member)

section

variable
  {more : List Parameter → Parse (List Parameter)}
  {text : String}
  {cursor : Cursor}
  {tokens after : List Token}

theorem Faces.comments (faces : Faces cursor (.mark text :: tokens) after) :
    cursor.peek.commentBefore = none ∧ cursor.peek.commentAfter = none := by
  rw [← Token.commentBefore_unplaced, ← Token.commentAfter_unplaced, faces.peek]
  exact ⟨rfl, rfl⟩

/-- After a parameter without comments, a comma leads to the next one. -/
theorem parameterEnd_comma
    (faces : Faces cursor (.mark "," :: tokens) after)
    (noComment : cursor.trailingComment = none)
    (read : List Parameter)
    (spec : Option Spec)
    (shape : Declarator) :
    parameterEnd more read spec (some shape) none cursor =
      more (read ++ [ParameterOf.ofParts (spec.getD (.untexted .junk)) shape]) cursor.advance := by
  have isComma : cursor.peek.hasText "," = true := faces.hasText ","
  have uncommented : trailingComments "," cursor = .ok [] cursor.advance := by
    rw [trailingComments_run, if_pos isComma, noComment, faces.comments.1, faces.comments.2]
    rfl
  have justTook : cursor.advance.justTook "," = true := by
    rw [Cursor.justTook_of_previous (Cursor.previous_advance faces.notEnd), isComma]
  unfold parameterEnd commentParameters
  rw [bind_run_ok uncommented]
  simp only [List.head?_nil, List.tail_nil, act_bind_run, get_bind_run, newParameter_uncommented,
    Option.getD_some, Session.commentLastParameterAll]
  rw [if_pos justTook]

/-- After a parameter without comments, a parenthesis closes the list. -/
theorem parameterEnd_close
    (faces : Faces cursor (.mark ")" :: tokens) after)
    (noComment : cursor.trailingComment = none)
    (noComma : cursor.justTook "," = false)
    (read : List Parameter)
    (spec : Option Spec)
    (shape : Declarator) :
    parameterEnd more read spec (some shape) none cursor =
      .ok (read ++ [ParameterOf.ofParts (spec.getD (.untexted .junk)) shape]) cursor.advance := by
  have notComma : cursor.peek.hasText "," = false := faces.hasText ","
  have uncommented : trailingComments "," cursor = .ok [] cursor := by
    rw [trailingComments_run, if_neg (by simp [notComma]), noComment, faces.comments.1]
    rfl
  unfold parameterEnd commentParameters
  rw [bind_run_ok uncommented]
  simp only [List.head?_nil, List.tail_nil, act_bind_run, get_bind_run, newParameter_uncommented,
    Option.getD_some, Session.commentLastParameterAll]
  rw [if_neg (by simp [noComma]), discard_bind_run, bind_run_ok faces.expect]
  rfl

end

section

variable {session : Session} {cursor : Cursor} {tokens after : List Token}

/-- The next parameter of a list is read up to what divides or closes the list. -/
theorem WrittenParameter.reads_first
    (written : WrittenParameter session)
    {fuel : Nat}
    {stop : String}
    (faces : Faces cursor (written.tokens ++ .mark stop :: tokens) after)
    (isStop : stop = "," ∨ stop = ")")
    (elsewhere : Elsewhere session cursor.session)
    (enough : 6 * cursor.rest.length + 8 ≤ fuel)
    (read : List Parameter) :
    ∃ shaped, parameters fuel none read cursor =
        parameterEnd (parameters (fuel - 1) none) read (some written.specifier.spec)
          (some written.declared.shape) none shaped ∧
      Faces shaped (.mark stop :: tokens) after ∧ Elsewhere session shaped.session ∧
      shaped.trailingComment = none ∧ shaped.justTook "," = false := by
  obtain ⟨part, others, isTokens⟩ := written.tokens_start
  have starts := faces
  rw [isTokens, List.cons_append] at starts
  have noComment : cursor.peek.commentBefore = none := by
    rw [← Token.commentBefore_unplaced, starts.peek]
    rfl
  have length := faces.length
  rw [List.length_append, List.length_cons, WrittenParameter.tokens, List.length_append] at length
  have positive := ParameterSpecifier.length_le_tokens written.specifier.parts
  change _ ≤ written.specifier.tokens.length at positive
  rw [ParameterSpecifier.parts, List.length_append, List.length_cons] at positive
  obtain ⟨fewer, rfl⟩ : ∃ fewer, fuel = fewer + 2 := ⟨fuel - 2, by omega⟩
  have enoughDeclared : written.declared.fuel ≤ fewer := by
    unfold NamedDeclarator.fuel
    omega
  obtain ⟨shaped, reads, facesStop, elsewhereShaped, noTrailing, noComma⟩ :=
    written.reads_parts faces isStop elsewhere enoughDeclared
  refine ⟨shaped, ?_, facesStop, elsewhereShaped, noTrailing, noComma⟩
  rw [parameters_eq, peek_bind_run, noComment, bind_run_ok reads]
  rfl

/-- The parameters of a list are read one after another. -/
theorem parameters_written
    (written : WrittenParameter session)
    (others : List (WrittenParameter session))
    {fuel : Nat}
    (read : List Parameter)
    (faces : Faces cursor
      (divided ((written :: others).map (·.tokens)) ++ .mark ")" :: tokens) after)
    (elsewhere : Elsewhere session cursor.session)
    (enough : 6 * cursor.rest.length + 8 ≤ fuel) :
    ∃ final, parameters fuel none read cursor =
        .ok (read ++ (written :: others).map (·.parameter)) final ∧
      Faces final tokens after ∧ Elsewhere session final.session := by
  induction others generalizing written fuel cursor read with
  | nil =>
      rw [List.map_singleton, divided_singleton] at faces
      obtain ⟨shaped, reads, facesCloser, elsewhereShaped, noComment, noComma⟩ :=
        written.reads_first faces (.inr rfl) elsewhere enough read
      rw [parameterEnd_close facesCloser noComment noComma] at reads
      exact ⟨shaped.advance, reads, facesCloser.advance, elsewhereShaped.advance⟩
  | cons next others hypothesis =>
      rw [List.map_cons, List.map_cons, divided_cons_cons, List.append_assoc,
        List.cons_append] at faces
      obtain ⟨shaped, reads, facesComma, elsewhereShaped, noComment, -⟩ :=
        written.reads_first faces (.inl rfl) elsewhere enough read
      rw [parameterEnd_comma facesComma noComment] at reads
      have shorter := facesComma.advance.length
      have length := faces.length
      rw [List.length_append, List.length_cons] at length
      obtain ⟨final, readOthers, facesFinal, elsewhereFinal⟩ :
          ∃ final, parameters (fuel - 1) none (read ++ [written.parameter]) shaped.advance =
              .ok (read ++ [written.parameter] ++ (next :: others).map (·.parameter)) final ∧
            Faces final tokens after ∧ Elsewhere session final.session :=
        hypothesis next _ facesComma.advance elsewhereShaped.advance (by omega)
      refine ⟨final, ?_, facesFinal, elsewhereFinal⟩
      rw [List.append_assoc] at readOthers
      exact reads.trans readOthers

/-- The next name of an identifier list. -/
theorem WrittenParameter.reads_name
    (written : WrittenParameter session)
    {count : Nat}
    (faces : Faces cursor (.word written.name :: tokens) after)
    (enough : cursor.rest.length ≤ count)
    (read : List Parameter) :
    identifierList count none read cursor =
        parameterEnd (identifierList (count - 1) none) read none (some (.identifier written.name))
          none cursor.advance ∧
      cursor.advance.trailingComment = none ∧ cursor.advance.justTook "," = false := by
  have previous := Cursor.previous_advance faces.notEnd
  have noBefore : cursor.peek.commentBefore = none := by
    rw [← Token.commentBefore_unplaced, faces.peek]
    rfl
  have noAfter : cursor.peek.commentAfter = none := by
    rw [← Token.commentAfter_unplaced, faces.peek]
    rfl
  have length := faces.length
  rw [List.length_cons] at length
  obtain ⟨fewer, rfl⟩ : ∃ fewer, count = fewer + 1 := ⟨count - 1, by omega⟩
  refine ⟨?_, ?_, ?_⟩
  · rw [identifierList_eq, take_bind_run, noBefore, faces.text]
    rfl
  · rw [Cursor.trailingComment, previous]
    exact noAfter
  · rw [Cursor.justTook_of_previous previous, faces.hasText, hasText_word, beq_eq_false_iff_ne]
    exact written.declared.name.text_ne (by decide)

/-- An identifier list stands for parameters without types. -/
theorem identifierList_names
    (written : WrittenParameter session)
    (others : List (WrittenParameter session))
    {count : Nat}
    (read : List Parameter)
    (faces : Faces cursor
      (divided ((written :: others).map fun parameter => [.word parameter.name]) ++
        .mark ")" :: tokens) after)
    (elsewhere : Elsewhere session cursor.session)
    (enough : cursor.rest.length ≤ count) :
    ∃ final, identifierList count none read cursor =
        .ok (read ++ (written :: others).map (·.placeholder)) final ∧
      Faces final tokens after ∧ Elsewhere session final.session := by
  induction others generalizing written count cursor read with
  | nil =>
      rw [List.map_singleton, divided_singleton, List.singleton_append] at faces
      obtain ⟨reads, noComment, noComma⟩ := written.reads_name faces enough read
      rw [parameterEnd_close faces.advance noComment noComma] at reads
      exact ⟨cursor.advance.advance, reads, faces.advance.advance, elsewhere.advance.advance⟩
  | cons next others hypothesis =>
      rw [List.map_cons, List.map_cons, divided_cons_cons, List.append_assoc,
        List.singleton_append, List.cons_append] at faces
      obtain ⟨reads, noComment, -⟩ := written.reads_name faces enough read
      rw [parameterEnd_comma faces.advance noComment] at reads
      have shorter := faces.advance.advance.length
      have length := faces.length
      rw [List.length_cons, List.length_cons] at length
      obtain ⟨final, readOthers, facesFinal, elsewhereFinal⟩ :
          ∃ final, identifierList (count - 1) none (read ++ [written.placeholder])
                cursor.advance.advance =
              .ok (read ++ [written.placeholder] ++ (next :: others).map (·.placeholder)) final ∧
            Faces final tokens after ∧ Elsewhere session final.session :=
        hypothesis next _ faces.advance.advance elsewhere.advance.advance (by omega)
      refine ⟨final, ?_, facesFinal, elsewhereFinal⟩
      rw [List.append_assoc] at readOthers
      exact reads.trans readOthers

/-! ## Lists in parentheses -/

/-- What a lookahead sees does not depend on where the tokens are placed. -/
theorem identifierListRun_unplaced (session : Session) :
    (tokens : List Token) →
      identifierListRun session (tokens.map Token.unplaced) = identifierListRun session tokens
  | [] => rfl
  | [_] => rfl
  | name :: separator :: rest => by
      rw [List.map_cons, List.map_cons, identifierListRun_cons, identifierListRun_cons,
        identifierListRun_unplaced session rest, List.head?_map, Option.map_map]
      rfl

/-- A parameter list that starts with a specifier is no identifier list. -/
theorem parameterList_written
    (written : WrittenParameter session)
    (others : List (WrittenParameter session))
    {fuel : Nat}
    (faces : Faces cursor
      (.mark "(" :: divided ((written :: others).map (·.tokens)) ++ .mark ")" :: tokens) after)
    (elsewhere : Elsewhere session cursor.session)
    (enough : 6 * cursor.rest.length + 3 ≤ fuel) :
    ∃ final, parameterList fuel cursor = .ok ((written :: others).map (·.parameter)) final ∧
      Faces final tokens after ∧ Elsewhere session final.session := by
  have opened : Faces cursor.advance
      (divided ((written :: others).map (·.tokens)) ++ .mark ")" :: tokens) after := faces.advance
  have length := faces.length
  have openedLength := opened.length
  rw [List.cons_append, List.length_cons] at length
  obtain ⟨fewer, rfl⟩ : ∃ fewer, fuel = fewer + 1 := ⟨fuel - 1, by omega⟩
  obtain ⟨part, tail, starts⟩ : ∃ (part : SpecifierPart session) (tail : List Token),
      divided ((written :: others).map (·.tokens)) = .word part.head :: tail := by
    obtain ⟨part, tail, isTokens⟩ := written.tokens_start
    obtain ⟨rest, isDivided⟩ := divided_cons written.tokens (others.map (·.tokens))
    exact ⟨part, tail ++ rest, by rw [List.map_cons, isDivided, isTokens]; rfl⟩
  have headed := opened
  rw [starts, List.cons_append] at headed
  have noCloser : cursor.advance.peek.hasText ")" = false := by
    rw [headed.hasText, hasText_word, beq_eq_false_iff_ne]
    exact part.head_ne (by decide) (by decide)
  have noList : identifierListRun cursor.advance.session cursor.advance.rest = false := by
    obtain ⟨source, isSession, -⟩ := elsewhere.advance
    obtain ⟨placed, isPlaced, here⟩ := headed.placed
    obtain ⟨token, rest, rfl, isToken, -⟩ := List.map_eq_cons_iff.1 isPlaced
    rw [here, List.cons_append, isSession]
    apply identifierListRun_of_head
    rw [← Token.text_unplaced, isToken, text_word]
    rcases part.head_cases with ⟨meaning, means, -⟩ | ⟨-, isTypedef, -⟩
    · right
      left
      by_contra notKeyword
      rw [keywordMeaning?_eq_none (by simpa using notKeyword)] at means
      contradiction
    · exact .inr (.inr isTypedef)
  obtain ⟨final, reads, facesFinal, elsewhereFinal⟩ :
      ∃ final, parameters fewer none [] cursor.advance =
          .ok ((written :: others).map (·.parameter)) final ∧
        Faces final tokens after ∧ Elsewhere session final.session :=
    parameters_written written others [] opened elsewhere.advance (by omega)
  refine ⟨final, ?_, facesFinal, elsewhereFinal⟩
  unfold parameterList
  rw [bind_run_ok faces.expect, accept_bind_run, noCloser, if_neg (by simp), Option.isSome_none,
    if_neg (by simp), get_bind_run, noList, if_neg (by simp), faces.comments.2]
  exact reads

theorem identifierListRun_names
    (written : WrittenParameter session)
    (others : List (WrittenParameter session))
    (next : String)
    (further : List Token) :
    identifierListRun session
      (divided ((written :: others).map fun parameter => [.word parameter.name]) ++
        .mark ")" :: .word next :: further) = true := by
  have isName (parameter : WrittenParameter session) :
      isKeyword parameter.name = false ∧ session.isTypedefName parameter.name = false :=
    ⟨parameter.declared.name.notKeyword, parameter.declared.name.notTypedef⟩
  induction others generalizing written with
  | nil =>
      rw [List.map_singleton, divided_singleton, List.singleton_append, identifierListRun_cons]
      simp [isName]
  | cons following others hypothesis =>
      rw [List.map_cons, List.map_cons, divided_cons_cons, List.append_assoc,
        List.singleton_append, List.cons_append, identifierListRun_cons]
      have rest := hypothesis following
      rw [List.map_cons] at rest
      simp [isName, rest]

/-- Names in parentheses before a word are an identifier list. -/
theorem parameterList_names
    (written : WrittenParameter session)
    (others : List (WrittenParameter session))
    {fuel : Nat}
    {next : String}
    (faces : Faces cursor
      (.mark "(" :: divided ((written :: others).map fun parameter => [.word parameter.name]) ++
        .mark ")" :: .word next :: tokens) after)
    (elsewhere : Elsewhere session cursor.session) :
    ∃ final, parameterList (fuel + 1) cursor =
        .ok ((written :: others).map (·.placeholder)) final ∧
      Faces final (.word next :: tokens) after ∧ Elsewhere session final.session := by
  have opened : Faces cursor.advance
      (divided ((written :: others).map fun parameter => [.word parameter.name]) ++
        .mark ")" :: .word next :: tokens) after := faces.advance
  obtain ⟨rest, starts⟩ := divided_cons [.word written.name]
    (others.map fun parameter => [.word parameter.name])
  have headed := opened
  rw [List.map_cons, starts, List.singleton_append, List.cons_append] at headed
  have noCloser : cursor.advance.peek.hasText ")" = false := by
    rw [headed.hasText, hasText_word, beq_eq_false_iff_ne]
    exact written.declared.name.text_ne (by decide)
  have isList : identifierListRun cursor.advance.session cursor.advance.rest = true := by
    obtain ⟨source, isSession, -⟩ := elsewhere.advance
    have sameTypedefs : cursor.advance.session.typedefs = session.typedefs := by rw [isSession]
    obtain ⟨placed, isPlaced, here⟩ := opened.placed
    rw [identifierListRun_congr sameTypedefs, ← identifierListRun_unplaced, here,
      List.map_append, isPlaced, List.append_assoc]
    exact identifierListRun_names written others next (tokens ++ after.map Token.unplaced)
  obtain ⟨final, reads, facesFinal, elsewhereFinal⟩ :=
    identifierList_names written others [] opened elsewhere.advance (Nat.le_refl _)
  refine ⟨final, ?_, facesFinal, elsewhereFinal⟩
  unfold parameterList
  rw [bind_run_ok faces.expect, accept_bind_run, noCloser, if_neg (by simp), Option.isSome_none,
    if_neg (by simp), get_bind_run, isList, if_pos rfl, faces.comments.2]
  exact reads

end

end Grammar
end DeclManual
