import DeclManual.Proofs.Grammar.Run

/-!
# Declarators as they are written

A declarator tree is built by the rules

* `D ::= '*' qualifier* D | DD`
* `DD ::= name | '(' D ')' | DD '[' balanced tokens ']' | DD '(' P ')'`

where `P` is empty or a list of parameters, divided by commas, which may end in
`...`.  A parameter is a specifier of type words and qualifiers that starts with a
type word, alone or with a named declarator or with pointer operators.  The words of
a tree carry the proofs of what they are, so that every tree can be written.
Beside its tokens stands what it means: the declarator that its rules compose.
-/

namespace DeclManual

/-! ## Tokens without their place -/

namespace Source.Token

/-- A token as it is, wherever it stands. -/
def unplaced (token : Token) : Token :=
  { token with line := 0, file := none, inBaseFile := false }

/-- A token without a comment. -/
def plain (kind : Kind) (text : String) : Token :=
  { kind, text, line := 0, file := none, inBaseFile := false }

/-- A punctuator without a comment. -/
def mark (text : String) : Token :=
  plain .punctuator text

/-- A word without a comment. -/
def word (text : String) : Token :=
  plain .identifier text

@[simp] theorem kind_unplaced (token : Token) : token.unplaced.kind = token.kind := rfl

@[simp] theorem text_unplaced (token : Token) : token.unplaced.text = token.text := rfl

@[simp] theorem commentBefore_unplaced (token : Token) :
    token.unplaced.commentBefore = token.commentBefore := rfl

@[simp] theorem commentAfter_unplaced (token : Token) :
    token.unplaced.commentAfter = token.commentAfter := rfl

@[simp] theorem hasText_unplaced (token : Token) (text : String) :
    token.unplaced.hasText text = token.hasText text := rfl

@[simp] theorem isWord_unplaced (token : Token) : token.unplaced.isWord = token.isWord := rfl

@[simp] theorem isEnd_unplaced (token : Token) : token.unplaced.isEnd = token.isEnd := rfl

end Source.Token

namespace Grammar

open Decl
open Source (Token)

/-! ## Words -/

/-- The words of types, those with a marker of their own included. -/
def isTypeWord (word : String) : Bool :=
  word == "char" || word == "short" || word == "float" || typeKeywords.contains word

/-- A word that can be declared. -/
structure Name (session : Session) where
  text : String
  isSpelled : ∃ c rest, text.toList = c :: rest ∧ Source.startsWord c = true
  notKeyword : isKeyword text = false
  notTypedef : session.isTypedefName text = false

/-- A type qualifier. -/
structure Qualifier where
  text : String
  isQualifier : qualifiers.contains text = true

/-- A word of a type. -/
structure TypeWord where
  text : String
  isTypeWord : isTypeWord text = true

/-- A word of a type, or a qualifier among such words. -/
inductive TypePart where
  | typeWord (word : TypeWord)
  | qualifier (word : Qualifier)

/-- The text of a part of a type. -/
def TypePart.text : TypePart → String
  | .typeWord word => word.text
  | .qualifier word => word.text

/-- The fragment that a word of a type contributes to a specifier. -/
def wordSpec (word : String) : Spec :=
  .ofText word { isChar := word == "char", isShort := word == "short", isFloat := word == "float" }

/-- The specifier of a type word and what follows it. -/
def typeSpec (first : TypeWord) (parts : List TypePart) : Spec :=
  parts.foldl (fun spec part => spec.join (wordSpec part.text)) (wordSpec first.text)

/-- The text of a star with its qualifiers. -/
def operatorText (operator : List Qualifier) : String :=
  operator.foldl (fun text word => text ++ word.text ++ " ") "*"

/-- The tokens of a star with its qualifiers. -/
def operatorTokens (operator : List Qualifier) : List Token :=
  .mark "*" :: operator.map fun word => .word word.text

/-- Whether two texts are an opening bracket and its closing one. -/
def arePaired (opener close : String) : Bool :=
  (opener, close) == ("(", ")") || (opener, close) == ("[", "]") ||
    (opener, close) == ("\x7b", "\x7d")

/-- Tokens without comments in which every bracket has its match. -/
inductive Balanced : List Token → Prop where
  | nil : Balanced []
  | plain
      {kind : Token.Kind}
      {text : String}
      {rest : List Token}
      (notEnd : kind ≠ .endOfFile)
      (notBracket : kind = .punctuator → isOpener text = false ∧ isCloser text = false)
      (balanced : Balanced rest) :
      Balanced (.plain kind text :: rest)
  | group
      {opener close : String}
      {inside rest : List Token}
      (paired : arePaired opener close = true)
      (within : Balanced inside)
      (balanced : Balanced rest) :
      Balanced (.mark opener :: inside ++ .mark close :: rest)

/-- What stands between the brackets of an array. -/
structure Extent where
  tokens : List Token
  balanced : Balanced tokens

/-- The tokens of an extent in its brackets. -/
def Extent.bracketed (extent : Extent) : List Token :=
  .mark "[" :: extent.tokens ++ [Token.mark "]"]

/-! ## Trees -/

mutual

/-- A declarator: stars with their qualifiers before a direct declarator. -/
inductive DeclaratorTree (session : Session) where
  | pointer (operator : List Qualifier) (target : DeclaratorTree session)
  | direct (declarator : DirectTree session)

/-- A declarator without a star in front. -/
inductive DirectTree (session : Session) where
  | name (name : Name session)
  | nested (inner : DeclaratorTree session)
  | array (element : DirectTree session) (extent : Extent)
  | function (result : DirectTree session)
  | functionOf (result : DirectTree session) (parameters : ParameterTrees session)

/-- The parameters of a list that is not empty. -/
inductive ParameterTrees (session : Session) where
  | ellipsis
  | last (parameter : ParameterTree session)
  | more (parameter : ParameterTree session) (rest : ParameterTrees session)

/-- A parameter: a specifier, alone or with a declarator. -/
inductive ParameterTree (session : Session) where
  | unnamed (first : TypeWord) (parts : List TypePart)
  | named (first : TypeWord) (parts : List TypePart) (declarator : DeclaratorTree session)
  | pointers
      (first : TypeWord)
      (parts : List TypePart)
      (operator : List Qualifier)
      (others : List (List Qualifier))

end

/-- The tokens of a specifier. -/
def typeTokens (first : TypeWord) (parts : List TypePart) : List Token :=
  .word first.text :: parts.map fun part => .word part.text

/-- The tokens of pointer operators. -/
def operatorsTokens (operators : List (List Qualifier)) : List Token :=
  (operators.map operatorTokens).flatten

/-- The text of pointer operators. -/
def operatorsText (operators : List (List Qualifier)) : String :=
  operators.foldl (fun text operator => text ++ operatorText operator) ""

mutual

/-- The tokens of a declarator. -/
def DeclaratorTree.tokens {session : Session} : DeclaratorTree session → List Token
  | .pointer operator target => operatorTokens operator ++ target.tokens
  | .direct declarator => declarator.tokens

/-- The tokens of a direct declarator. -/
def DirectTree.tokens {session : Session} : DirectTree session → List Token
  | .name name => [.word name.text]
  | .nested inner => .mark "(" :: inner.tokens ++ [Token.mark ")"]
  | .array element extent => element.tokens ++ extent.bracketed
  | .function result => result.tokens ++ [Token.mark "(", .mark ")"]
  | .functionOf result parameters =>
    result.tokens ++ .mark "(" :: parameters.tokens ++ [Token.mark ")"]

/-- The tokens of parameters. -/
def ParameterTrees.tokens {session : Session} : ParameterTrees session → List Token
  | .ellipsis => [.mark "..."]
  | .last parameter => parameter.tokens
  | .more parameter rest => parameter.tokens ++ .mark "," :: rest.tokens

/-- The tokens of a parameter. -/
def ParameterTree.tokens {session : Session} : ParameterTree session → List Token
  | .unnamed first parts => typeTokens first parts
  | .named first parts declarator => typeTokens first parts ++ declarator.tokens
  | .pointers first parts operator others =>
    typeTokens first parts ++ operatorsTokens (operator :: others)

end

/-- The parameter that an ellipsis stands for. -/
def ellipsisParameter : Parameter :=
  .ofParts (.untexted .junk) .ellipsis

/-- The abstract declarator of pointer operators alone. -/
def pointersOnly (operators : List (List Qualifier)) : Declarator :=
  .ofText (some (String.ofList (Text.trimEnd (operatorsText operators).toList))) none

mutual

/-- The declarator that a tree prescribes. -/
def DeclaratorTree.meaning {session : Session} : DeclaratorTree session → Declarator
  | .pointer operator target => target.meaning.pointerTo (operatorText operator)
  | .direct declarator => declarator.meaning

/-- The declarator that a tree without a star in front prescribes. -/
def DirectTree.meaning {session : Session} : DirectTree session → Declarator
  | .name name => .identifier name.text
  | .nested inner => inner.meaning.parenthesized
  | .array element extent => element.meaning.arrayOf (runText false extent.bracketed)
  | .function result => .function result.meaning []
  | .functionOf result parameters => .function result.meaning parameters.meaning

/-- The parameters that trees prescribe. -/
def ParameterTrees.meaning {session : Session} : ParameterTrees session → List Parameter
  | .ellipsis => [ellipsisParameter]
  | .last parameter => [parameter.meaning]
  | .more parameter rest => parameter.meaning :: rest.meaning

/-- The parameter that a tree prescribes. -/
def ParameterTree.meaning {session : Session} : ParameterTree session → Parameter
  | .unnamed first parts => .ofParts (typeSpec first parts) .abstract
  | .named first parts declarator => .ofParts (typeSpec first parts) declarator.meaning
  | .pointers first parts operator others =>
    .ofParts (typeSpec first parts) (pointersOnly (operator :: others))

end

/-! ## Trees are written without comments -/

/-- Tokens without comments, none of which ends the input. -/
def Bare (tokens : List Token) : Prop :=
  ∀ token ∈ tokens, token.isEnd = false ∧ token.commentBefore = none ∧ token.commentAfter = none

theorem Bare.append
    {first second : List Token}
    (left : Bare first)
    (right : Bare second) :
    Bare (first ++ second) := by
  intro token member
  rcases List.mem_append.1 member with inFirst | inSecond
  · exact left token inFirst
  · exact right token inSecond

theorem Bare.cons
    {kind : Token.Kind}
    {tokens : List Token}
    (notEnd : kind ≠ .endOfFile)
    (text : String)
    (bare : Bare tokens) :
    Bare (.plain kind text :: tokens) := by
  intro token member
  rcases List.mem_cons.1 member with rfl | inTokens
  · exact ⟨beq_eq_false_iff_ne.2 notEnd, rfl, rfl⟩
  · exact bare token inTokens

theorem bare_nil : Bare [] := by
  intro token member
  contradiction

theorem bare_mark (text : String) : Bare [.mark text] :=
  .cons (by decide) text bare_nil

theorem bare_words {α : Type} (text : α → String) (words : List α) :
    Bare (words.map fun word => .word (text word)) := by
  induction words with
  | nil => exact bare_nil
  | cons word words hypothesis => exact .cons (by decide) (text word) hypothesis

/-- A balanced run carries no comment. -/
theorem Balanced.bare {tokens : List Token} (balanced : Balanced tokens) : Bare tokens := by
  induction balanced with
  | nil => exact bare_nil
  | plain notEnd notBracket balanced hypothesis => exact .cons notEnd _ hypothesis
  | group paired within balanced hypothesis afterHypothesis =>
      exact .append (.cons (by decide) _ hypothesis) (.cons (by decide) _ afterHypothesis)

/-- The extent of an array carries no comment. -/
theorem Extent.bare (extent : Extent) : Bare extent.bracketed :=
  .append (.cons (by decide) "[" extent.balanced.bare) (bare_mark "]")

/-- The tokens of a pointer operator carry no comment. -/
theorem bare_operatorTokens (operator : List Qualifier) : Bare (operatorTokens operator) :=
  .cons (by decide) "*" (bare_words Qualifier.text operator)

/-- The tokens of pointer operators carry no comment. -/
theorem bare_operatorsTokens (operators : List (List Qualifier)) :
    Bare (operatorsTokens operators) := by
  induction operators with
  | nil => exact bare_nil
  | cons operator operators hypothesis =>
      exact (bare_operatorTokens operator).append hypothesis

/-- The tokens of a type carry no comment. -/
theorem bare_typeTokens (first : TypeWord) (parts : List TypePart) :
    Bare (typeTokens first parts) :=
  .cons (by decide) first.text (bare_words TypePart.text parts)

mutual

/-- The tokens of a declarator carry no comment, by induction on its tree. -/
theorem DeclaratorTree.bare {session : Session} :
    (tree : DeclaratorTree session) → Bare tree.tokens
  | .pointer operator target => by
      rw [DeclaratorTree.tokens]
      exact (bare_operatorTokens operator).append target.bare
  | .direct declarator => by
      rw [DeclaratorTree.tokens]
      exact declarator.bare

/-- The tokens of a direct declarator carry no comment. -/
theorem DirectTree.bare {session : Session} :
    (tree : DirectTree session) → Bare tree.tokens
  | .name declared => by
      rw [DirectTree.tokens]
      exact .cons (by decide) declared.text bare_nil
  | .nested inner => by
      rw [DirectTree.tokens]
      exact .append (.cons (by decide) "(" inner.bare) (bare_mark ")")
  | .array element extent => by
      rw [DirectTree.tokens]
      exact element.bare.append extent.bare
  | .function result => by
      rw [DirectTree.tokens]
      exact result.bare.append (.cons (by decide) "(" (bare_mark ")"))
  | .functionOf result parameters => by
      rw [DirectTree.tokens]
      exact .append (result.bare.append (.cons (by decide) "(" parameters.bare)) (bare_mark ")")

/-- The tokens of parameters carry no comment. -/
theorem ParameterTrees.bare {session : Session} :
    (trees : ParameterTrees session) → Bare trees.tokens
  | .ellipsis => by
      rw [ParameterTrees.tokens]
      exact bare_mark "..."
  | .last parameter => by
      rw [ParameterTrees.tokens]
      exact parameter.bare
  | .more parameter rest => by
      rw [ParameterTrees.tokens]
      exact parameter.bare.append (.cons (by decide) "," rest.bare)

/-- The tokens of a parameter carry no comment. -/
theorem ParameterTree.bare {session : Session} :
    (tree : ParameterTree session) → Bare tree.tokens
  | .unnamed first parts => by
      rw [ParameterTree.tokens]
      exact bare_typeTokens first parts
  | .named first parts declarator => by
      rw [ParameterTree.tokens]
      exact (bare_typeTokens first parts).append declarator.bare
  | .pointers first parts operator others => by
      rw [ParameterTree.tokens]
      exact (bare_typeTokens first parts).append (bare_operatorsTokens (operator :: others))

end

/-! ## How trees begin and end -/

/-- A name is spelled like no text that cannot start a word. -/
theorem Name.text_ne
    {session : Session}
    (name : Name session)
    {other : String}
    (unspelled : (other.toList.head?.map Source.startsWord).getD false = false) :
    name.text ≠ other := by
  intro same
  obtain ⟨c, rest, spelled, starts⟩ := name.isSpelled
  rw [← same, spelled, List.head?_cons, Option.map_some, Option.getD_some, starts] at unspelled
  contradiction

/-- Whether tokens start with a name that no further word follows. -/
def StartsWithName (session : Session) (tokens : List Token) : Prop :=
  ∃ (name : Name session) (tail : List Token), tokens = .word name.text :: tail ∧
    ∀ next ∈ tail.head?, next.isWord = false

theorem StartsWithName.append
    {session : Session}
    {tokens rest : List Token}
    (starts : StartsWithName session tokens)
    (noWord : ∀ next ∈ rest.head?, next.isWord = false) :
    StartsWithName session (tokens ++ rest) := by
  obtain ⟨name, tail, rfl, second⟩ := starts
  refine ⟨name, tail ++ rest, rfl, ?_⟩
  cases tail with
  | nil => exact noWord
  | cons next tail => exact second

/-- Whether tokens start with a given mark. -/
def StartsWithMark (text : String) (tokens : List Token) : Prop :=
  ∃ tail, tokens = .mark text :: tail

/-- A direct declarator starts with its name or with a parenthesis. -/
theorem DirectTree.tokens_start {session : Session} :
    (tree : DirectTree session) →
      StartsWithName session tree.tokens ∨ StartsWithMark "(" tree.tokens
  | .name declared => by
      rw [DirectTree.tokens]
      exact .inl ⟨declared, [], rfl, by simp⟩
  | .nested inner => by
      rw [DirectTree.tokens]
      exact .inr ⟨_, rfl⟩
  | .array element extent => by
      rw [DirectTree.tokens]
      rcases element.tokens_start with starts | ⟨tail, opens⟩
      · exact .inl (starts.append (by simp [Extent.bracketed]; rfl))
      · exact .inr ⟨_, by rw [opens]; rfl⟩
  | .function result => by
      rw [DirectTree.tokens]
      rcases result.tokens_start with starts | ⟨tail, opens⟩
      · exact .inl (starts.append (by simp; rfl))
      · exact .inr ⟨_, by rw [opens]; rfl⟩
  | .functionOf result parameters => by
      rw [DirectTree.tokens, List.append_assoc]
      rcases result.tokens_start with starts | ⟨tail, opens⟩
      · exact .inl (starts.append (by simp; rfl))
      · exact .inr ⟨_, by rw [opens]; rfl⟩

/-- A declarator starts with its name, a parenthesis or a star. -/
theorem DeclaratorTree.tokens_start {session : Session} (tree : DeclaratorTree session) :
    StartsWithName session tree.tokens ∨ StartsWithMark "(" tree.tokens ∨
      StartsWithMark "*" tree.tokens := by
  cases tree with
  | pointer operator target =>
      rw [DeclaratorTree.tokens]
      exact .inr (.inr ⟨_, rfl⟩)
  | direct declarator =>
      rw [DeclaratorTree.tokens]
      rcases declarator.tokens_start with starts | opens
      · exact .inl starts
      · exact .inr (.inl opens)

/-- Whether tokens end in another token than a comma. -/
def EndsInNoComma (tokens : List Token) : Prop :=
  ∃ front last, tokens = front ++ [last] ∧ last.hasText "," = false

theorem EndsInNoComma.prepend
    {tokens : List Token}
    (ends : EndsInNoComma tokens)
    (before : List Token) :
    EndsInNoComma (before ++ tokens) := by
  obtain ⟨front, last, rfl, noComma⟩ := ends
  exact ⟨before ++ front, last, (List.append_assoc ..).symm, noComma⟩

/-- A direct declarator does not end in a comma. -/
theorem DirectTree.tokens_end {session : Session} (tree : DirectTree session) :
    EndsInNoComma tree.tokens := by
  cases tree with
  | name declared =>
      rw [DirectTree.tokens]
      refine ⟨[], _, rfl, ?_⟩
      exact beq_eq_false_iff_ne.2 (declared.text_ne (by decide))
  | nested inner =>
      rw [DirectTree.tokens]
      exact ⟨.mark "(" :: inner.tokens, _, rfl, by decide⟩
  | array element extent =>
      rw [DirectTree.tokens]
      exact EndsInNoComma.prepend ⟨.mark "[" :: extent.tokens, _, rfl, by decide⟩ _
  | function result =>
      rw [DirectTree.tokens]
      exact EndsInNoComma.prepend ⟨[.mark "("], _, rfl, by decide⟩ _
  | functionOf result parameters =>
      rw [DirectTree.tokens]
      exact ⟨_, _, rfl, by decide⟩

/-- A declarator does not end in a comma. -/
theorem DeclaratorTree.tokens_end {session : Session} :
    (tree : DeclaratorTree session) → EndsInNoComma tree.tokens
  | .pointer operator target => by
      rw [DeclaratorTree.tokens]
      exact target.tokens_end.prepend _
  | .direct declarator => by
      rw [DeclaratorTree.tokens]
      exact declarator.tokens_end

/-- Tokens none of which is a comma. -/
theorem endsInNoComma_of_forall
    {tokens : List Token}
    (filled : tokens ≠ [])
    (noComma : ∀ token ∈ tokens, token.hasText "," = false) :
    EndsInNoComma tokens := by
  refine ⟨tokens.dropLast, tokens.getLast filled, (List.dropLast_append_getLast filled).symm, ?_⟩
  exact noComma _ (List.getLast_mem filled)

/-- A qualifier is no comma. -/
theorem Qualifier.text_ne_comma (word : Qualifier) : word.text ≠ "," := by
  intro comma
  have isQualifier := word.isQualifier
  rw [comma] at isQualifier
  contradiction

/-- A word of a type is no comma. -/
theorem TypeWord.text_ne_comma (word : TypeWord) : word.text ≠ "," := by
  intro comma
  have isType := word.isTypeWord
  rw [comma] at isType
  contradiction

/-- No part of a type is a comma. -/
theorem TypePart.text_ne_comma (part : TypePart) : part.text ≠ "," := by
  cases part with
  | typeWord word => exact word.text_ne_comma
  | qualifier word => exact word.text_ne_comma

/-- The tokens of a type hold no comma. -/
theorem typeTokens_noComma
    (first : TypeWord)
    (parts : List TypePart) :
    ∀ token ∈ typeTokens first parts, token.hasText "," = false := by
  intro token member
  rcases List.mem_cons.1 member with rfl | isPart
  · exact beq_eq_false_iff_ne.2 first.text_ne_comma
  · obtain ⟨part, -, rfl⟩ := List.mem_map.1 isPart
    exact beq_eq_false_iff_ne.2 part.text_ne_comma

/-- The tokens of pointer operators hold no comma. -/
theorem operatorsTokens_noComma (operators : List (List Qualifier)) :
    ∀ token ∈ operatorsTokens operators, token.hasText "," = false := by
  intro token member
  simp only [operatorsTokens, List.mem_flatten, List.mem_map] at member
  obtain ⟨_, ⟨operator, -, rfl⟩, inOperator⟩ := member
  rcases List.mem_cons.1 inOperator with rfl | isWord
  · rfl
  · obtain ⟨word, -, rfl⟩ := List.mem_map.1 isWord
    exact beq_eq_false_iff_ne.2 word.text_ne_comma

/-- A parameter does not end in a comma. -/
theorem ParameterTree.tokens_end {session : Session} (tree : ParameterTree session) :
    EndsInNoComma tree.tokens := by
  cases tree with
  | unnamed first parts =>
      rw [ParameterTree.tokens]
      exact endsInNoComma_of_forall (by simp [typeTokens]) (typeTokens_noComma first parts)
  | named first parts declarator =>
      rw [ParameterTree.tokens]
      exact declarator.tokens_end.prepend _
  | pointers first parts operator others =>
      rw [ParameterTree.tokens]
      refine EndsInNoComma.prepend (endsInNoComma_of_forall ?_ ?_) _
      · simp [operatorsTokens, operatorTokens]
      · exact operatorsTokens_noComma _

end Grammar
end DeclManual
