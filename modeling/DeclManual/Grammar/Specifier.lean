import DeclManual.Grammar.Skip

/-!
# Declaration specifiers

No preprocessor is run, so an identifier that is neither a keyword nor a known
typedef name is taken as the name of a type where nothing else makes sense, as in
`size_t n` or `FILE *fp`.
-/

namespace DeclManual
namespace Grammar

open Decl
open Source (Token)

/-- Where specifiers stand. -/
inductive Context where
  | declaration
  | parameter
deriving DecidableEq, Repr

/-- The specifiers of a declaration. -/
structure Specifiers where
  spec : Spec
  isTypedef : Bool
deriving DecidableEq, Repr, Inhabited

/-- What a word means among specifiers. -/
inductive SpecifierWord where
  | typedefWord
  /-- A storage class, qualifier or function specifier. -/
  | modifier (flags : Flags)
  | typeWord (flags : Flags)
  | extensionWord
  | attribute
  | record
  | enumeration
  | typedefName
  | stop
deriving DecidableEq, Repr

/-- What a keyword means among specifiers; none for any other word. -/
def keywordMeaning? (word : String) : Option SpecifierWord :=
  if word == "typedef" then some .typedefWord
  else if word == "auto" || word == "register" then some (.modifier .junk)
  else if word == "extern" then some (.modifier { isExtern := true })
  else if word == "static" then some (.modifier { isStatic := true })
  else if inlineWords.contains word then some (.modifier { isInline := true })
  else if qualifiers.contains word then some (.modifier {})
  else if word == "char" then some (.typeWord { isChar := true })
  else if word == "short" then some (.typeWord { isShort := true })
  else if word == "float" then some (.typeWord { isFloat := true })
  else if typeKeywords.contains word then some (.typeWord {})
  else if word == "__extension__" then some .extensionWord
  else if attributes.contains word then some .attribute
  else if word == "struct" || word == "union" then some .record
  else if word == "enum" then some .enumeration
  else none

/-- Whether the unknown identifier at the cursor has to be the name of a type. -/
def namesType (context : Context) (cursor : Cursor) : Bool :=
  match context with
  | .parameter => true
  | .declaration =>
    let next := cursor.peekNth 1
    next.isWord || next.hasText "*" || (next.hasText "(" && (cursor.peekNth 2).hasText "*")

/-- What the word at the cursor means.  A type may be followed by a macro before
the declarator, as in `int EXPORT f(void)`. -/
def meaningAt (context : Context) (seenType : Bool) (cursor : Cursor) : SpecifierWord :=
  let word := cursor.peek.text
  match keywordMeaning? word with
  | some meaning => meaning
  | none =>
    if seenType then
      if (cursor.peekNth 1).isWord then .modifier {} else .stop
    else if cursor.session.isTypedefName word then .typedefName
    else if namesType context cursor then .typeWord {}
    else .stop

/-- Takes the next word as a specifier. -/
def takeSpecifier (flags : Flags) : Parse Spec :=
  return .ofText (← take).text flags

/-- The tag of a structure, union or enumeration, if it has one. -/
def optionalTag : Parse (Option String) := do
  if (← peek).isWord then return some (← take).text else return none

/-- The text of a keyword with its tag. -/
def taggedText (keyword : String) : Option String -> String
  | some tag => keyword ++ " " ++ tag
  | none => keyword

/-- The specifier of a structure or union, of which the members are skipped. -/
def recordSpecifier : Parse Spec := do
  let keyword := (← take).text
  skipAttributes
  let tag ← optionalTag
  skipGroup "\x7b" "\x7d"
  skipAttributes
  return .ofText (taggedText keyword tag) {}

/-- The comments around the end of a list item: after its last token, before the
separator, and after the separator, which is taken if it is there. -/
def trailingComments (separator : String) : Parse (List String) := do
  let last := (← get).trailingComment
  let before := (← peek).commentBefore
  let after := (← accept separator).bind (·.commentAfter)
  return last.toList ++ before.toList ++ after.toList

/-- Does something else first if a list is not in the store. -/
def ensureList (missing : Parse Unit) (list : ListId) : Parse Unit := do
  if list < (← get).session.enums.size then return () else missing

/-- Gives trailing comments to the last enumerator of a list, after something else if the
list is not in the store. -/
def commentEnumeratorIn (missing : Parse Unit) (list : ListId) : List String -> Parse Unit
  | [] => return ()
  | comment :: rest => do
    ensureList missing list
    discard (act fun session => session.commentLastEnumerator list comment)
    commentEnumeratorIn missing list rest

/-- Adds an enumerator to its list, which is started if it is the first.  Something else is
done first if the list is not in the store. -/
def addEnumeratorIn
    (missing : Parse Unit)
    (tag : Option String)
    (list : Option ListId)
    (enumerator : Enumerator) : Parse ListId :=
  match list with
  | some list => do
    ensureList missing list
    act fun session => (session.appendEnumerator list enumerator, list)
  | none => act fun session => session.newEnumList tag enumerator

/-- The name of an enumerator. -/
def enumeratorName : Parse Token := do
  if (← peek).isWord then take else fail "expected enumerator"

/-- The enumerators up to the closing brace, at most `count` of them.  `leading` is
the comment after the opening brace, for the first enumerator without a comment
before it; `missing` is done before a list is written to that is not in the store. -/
def enumeratorsIn (missing : Parse Unit) (tag : Option String) :
    (count : Nat) -> (leading : Option String) -> Option ListId -> Parse (Option ListId)
  | 0, _, _ => throw .exhausted
  | count + 1, leading, list => do
    if ← sees "\x7d" then
      discard take
      return list
    else
      let name ← enumeratorName
      let before := name.commentBefore.or leading
      let leading := if name.commentBefore.isSome then leading else none
      skipValue [",", "\x7d"]
      let after ← trailingComments ","
      let id ← addEnumeratorIn missing tag list (.ofComments name.text before after.head?)
      commentEnumeratorIn missing id after.tail
      if (← get).justTook "," then enumeratorsIn missing tag count leading (some id)
      else if ← sees "\x7d" then enumeratorsIn missing tag count leading (some id)
      else fail "expected ',' or '\x7d'"

/-- An enumerator list in braces; none if it is empty. -/
def enumeratorListIn (missing : Parse Unit) (tag : Option String) : Parse (Option ListId) := do
  let opener ← expect "\x7b"
  enumeratorsIn missing tag ((← get).rest.length + 1) opener.commentAfter none

/-! Nothing else is done for a list that is not in the store. -/

/-- Gives trailing comments to the last enumerator of a list. -/
def commentEnumerator : ListId -> List String -> Parse Unit :=
  commentEnumeratorIn (return ())

/-- Adds an enumerator to its list, which is started if it is the first. -/
def addEnumerator : Option String -> Option ListId -> Enumerator -> Parse ListId :=
  addEnumeratorIn (return ())

/-- The enumerators up to the closing brace. -/
def enumerators :
    Option String -> (count : Nat) -> (leading : Option String) -> Option ListId ->
      Parse (Option ListId) :=
  enumeratorsIn (return ())

/-- An enumerator list in braces; none if it is empty. -/
def enumeratorList : Option String -> Parse (Option ListId) :=
  enumeratorListIn (return ())

theorem ensureList_nothing (list : ListId) : ensureList (return ()) list = return () := by
  unfold ensureList
  simp only [ite_self]
  rfl

theorem commentEnumerator_nil (list : ListId) : commentEnumerator list [] = return () := rfl

theorem commentEnumerator_cons (list : ListId) (comment : String) (rest : List String) :
    commentEnumerator list (comment :: rest) = (do
      discard (act fun session => session.commentLastEnumerator list comment)
      commentEnumerator list rest) := by
  rw [commentEnumerator, commentEnumeratorIn, ensureList_nothing]
  rfl

theorem addEnumerator_eq
    (tag : Option String)
    (list : Option ListId)
    (enumerator : Enumerator) :
    addEnumerator tag list enumerator =
      match list with
      | some list => act fun session => (session.appendEnumerator list enumerator, list)
      | none => act fun session => session.newEnumList tag enumerator := by
  cases list with
  | some list =>
      rw [addEnumerator, addEnumeratorIn, ensureList_nothing]
      rfl
  | none => rfl

theorem enumerators_succ
    (tag : Option String)
    (count : Nat)
    (leading : Option String)
    (list : Option ListId) :
    enumerators tag (count + 1) leading list = (do
      if ← sees "\x7d" then
        discard take
        return list
      else
        let name ← enumeratorName
        let before := name.commentBefore.or leading
        let leading := if name.commentBefore.isSome then leading else none
        skipValue [",", "\x7d"]
        let after ← trailingComments ","
        let id ← addEnumerator tag list (.ofComments name.text before after.head?)
        commentEnumerator id after.tail
        if (← get).justTook "," then enumerators tag count leading (some id)
        else if ← sees "\x7d" then enumerators tag count leading (some id)
        else fail "expected ',' or '\x7d'") := rfl

theorem enumeratorList_eq (tag : Option String) :
    enumeratorList tag = (do
      let opener ← expect "\x7b"
      enumerators tag ((← get).rest.length + 1) opener.commentAfter none) := rfl

/-- The enumerator list of an enumeration: the one in braces, or else the one known
under its tag. -/
def enumerationList (tag : Option String) : Parse (Option ListId) := do
  if ← sees "\x7b" then enumeratorList tag
  else return tag.bind (← get).session.tagEnumList

/-- The specifier of an enumeration. -/
def enumSpecifier : Parse Spec := do
  let keyword := (← take).text
  skipAttributes
  let tag ← optionalTag
  let list ← enumerationList tag
  return (Spec.ofText (taggedText keyword tag) {}).withEnumList list

/-- The specifier of a typedef name. -/
def typedefSpecifier : Parse Spec := do
  let name := (← take).text
  let session := (← get).session
  return (Spec.ofText name {}).withEnumList (session.typedefEnumList name)

/-- The specifiers read so far, with a further fragment. -/
def Specifiers.add (specifiers : Option Specifiers) (isTypedef : Bool) (part : Spec) :
    Option Specifiers :=
  match specifiers with
  | some specifiers =>
    some { spec := specifiers.spec.join part, isTypedef := specifiers.isTypedef || isTypedef }
  | none => some { spec := part, isTypedef }

/-- Declaration specifiers of at most `count` words. -/
def specifiersUpTo (context : Context) :
    (count : Nat) -> (seenType : Bool) -> Option Specifiers -> Parse (Option Specifiers)
  | 0, _, _ => throw .exhausted
  | count + 1, seenType, read => do
    let cursor ← get
    if !cursor.peek.isWord then return read
    match meaningAt context seenType cursor with
    | .typedefWord =>
      let part ← takeSpecifier .junk
      specifiersUpTo context count seenType (Specifiers.add read true part)
    | .modifier flags =>
      let part ← takeSpecifier flags
      specifiersUpTo context count seenType (Specifiers.add read false part)
    | .typeWord flags =>
      let part ← takeSpecifier flags
      specifiersUpTo context count true (Specifiers.add read false part)
    | .extensionWord =>
      discard take
      specifiersUpTo context count seenType read
    | .attribute =>
      skipAttributes
      specifiersUpTo context count seenType read
    | .record =>
      let part ← recordSpecifier
      specifiersUpTo context count true (Specifiers.add read false part)
    | .enumeration =>
      let part ← enumSpecifier
      specifiersUpTo context count true (Specifiers.add read false part)
    | .typedefName =>
      let part ← typedefSpecifier
      specifiersUpTo context count true (Specifiers.add read false part)
    | .stop => return read

/-- Declaration specifiers; none when the declaration starts with its declarator. -/
def declarationSpecifiers (context : Context) : Parse (Option Specifiers) := do
  specifiersUpTo context ((← get).rest.length + 1) false none

end Grammar
end DeclManual
