import DeclManual.Yaml.Token.Lexer

/-!
# Nodes of YAML

A document is a tree of scalars, sequences and mappings.  A node can be named by an
anchor, and an alias stands for the node that was named last.
-/

namespace DeclManual
namespace Yaml

/-- A node of a document. -/
inductive Node where
  | scalar (tag : Option String) (style : Style) (text : String)
  | sequence (tag : Option String) (entries : List Node)
  | mapping (tag : Option String) (entries : List (Node × Node))
  /-- An alias inside of the node that it names. -/
  | cycle
deriving Repr, Inhabited

namespace Node

/-- What stands where a node is left out. -/
def empty : Node := .scalar none .plain ""

end Node

/-- The state between two nodes. -/
structure Reader where
  rest : List Token
  /-- The tag handles with what they stand for. -/
  handles : List (String × String) := []
  /-- The named nodes, the newest first. -/
  anchors : List (String × Node) := []
deriving Inhabited

/-- A step of reading, which may fail. -/
abbrev Read := StateT Reader (Except Fault)

/-- The next token. -/
def peekToken : Read (Option Token) :=
  return (← get).rest.head?

/-- Whether the next token is one of some tokens. -/
def seesAny (tokens : List Token) : Read Bool :=
  return ((← get).rest.head?.map tokens.contains).getD false

/-- Goes past a token. -/
def skipToken : Read Unit :=
  modify fun reader => { reader with rest := reader.rest.tail }

/-- Goes past a token if it comes next. -/
def acceptToken (token : Token) : Read Bool := do
  if ← seesAny [token] then
    skipToken
    return true
  else return false

/-! ## Properties of nodes -/

/-- The tag and anchor of a node. -/
structure Properties where
  anchor : Option String := none
  tag : Option String := none
deriving DecidableEq, Repr, Inhabited

/-- The tag that a handle and a suffix stand for. -/
def resolveTag (handle suffix : String) : Read String := do
  if handle.isEmpty then return suffix
  match (← get).handles.lookup handle with
  | some lead => return lead ++ suffix
  | none => throw (.unknownTagHandle handle)

/-- Takes an anchor if it comes next. -/
def takeAnchor : Read (Option String) := do
  match ← peekToken with
  | some (.anchor name) =>
    skipToken
    return some name
  | _ => return none

/-- Takes a tag if it comes next. -/
def takeTag : Read (Option String) := do
  match ← peekToken with
  | some (.tag handle suffix) =>
    skipToken
    return some (← resolveTag handle suffix)
  | _ => return none

/-- Takes the properties of a node, in either order. -/
def properties : Read Properties := do
  match ← takeAnchor with
  | some name => return { anchor := some name, tag := ← takeTag }
  | none =>
    let tag ← takeTag
    return { anchor := ← takeAnchor, tag }

/-- The node that an alias stands for. -/
def resolveAlias (name : String) : Read Node := do
  match (← get).anchors.lookup name with
  | some node => return node
  | none => throw (.unknownAnchor name)

/-- Names a node. -/
def name (anchor : Option String) (node : Node) : Read Unit :=
  modify fun reader =>
    match anchor with
    | some name => { reader with anchors := (name, node) :: reader.anchors }
    | none => reader

/-- Reads a collection, which is named from its start. -/
def named (anchor : Option String) (read : Read Node) : Read Node := do
  name anchor .cycle
  let depth := (← get).anchors.length
  let node ← read
  match anchor with
  | some name =>
    modify fun reader =>
      { reader with anchors := reader.anchors.set (reader.anchors.length - depth) (name, node) }
  | none => pure ()
  return node

/-! ## Nodes -/

mutual

/-- Reads a node.  Blocks may start where `block` is set, and entries of a sequence
at the column of the surrounding mapping where `indentless` is set. -/
def node (block indentless : Bool) : (fuel : Nat) -> Read Node
  | 0 => throw .expectedNode
  | fuel + 1 => do
    if let some (.alias name) ← peekToken then
      skipToken
      return ← resolveAlias name
    let { anchor, tag } ← properties
    let collection (read : Read Node) : Read Node := named anchor (do skipToken; read)
    match ← peekToken with
    | some (.scalar style text) =>
      skipToken
      let node := Node.scalar tag style text
      name anchor node
      return node
    | some .flowSequenceStart =>
      collection (return .sequence tag (← flowEntries true fuel))
    | some .flowMappingStart =>
      collection (return .mapping tag (← flowFields true fuel))
    | token =>
      if indentless && token == some .blockEntry then
        named anchor (return .sequence tag (← indentlessEntries fuel))
      else if block && token == some .blockSequenceStart then
        collection (return .sequence tag (← blockEntries fuel))
      else if block && token == some .blockMappingStart then
        collection (return .mapping tag (← blockFields fuel))
      else if anchor.isSome || tag.isSome then
        let node := Node.scalar tag .plain ""
        name anchor node
        return node
      else throw .expectedNode

/-- Reads a node unless one of some tokens comes next, where it is left out. -/
def nodeUnless (stops : List Token) (block indentless : Bool) : (fuel : Nat) -> Read Node
  | 0 => throw .expectedNode
  | fuel + 1 => do
    let missing := (← peekToken).isNone || (← seesAny stops)
    if missing then return .empty else node block indentless fuel

/-- Reads the value after a key, which may be left out with its colon. -/
def valueUnless (stops : List Token) (block : Bool) : (fuel : Nat) -> Read Node
  | 0 => throw .expectedNode
  | fuel + 1 => do
    if ← acceptToken .value then nodeUnless stops block block fuel else return .empty

/-- Reads the entries of a block sequence. -/
def blockEntries : (fuel : Nat) -> Read (List Node)
  | 0 => throw .expectedEntry
  | fuel + 1 => do
    if ← acceptToken .blockEntry then
      let entry ← nodeUnless [.blockEntry, .blockEnd] true false fuel
      return entry :: (← blockEntries fuel)
    else if ← acceptToken .blockEnd then return []
    else throw .expectedEntry

/-- Reads the entries of a sequence that stands at the column of its mapping. -/
def indentlessEntries : (fuel : Nat) -> Read (List Node)
  | 0 => throw .expectedEntry
  | fuel + 1 => do
    if ← acceptToken .blockEntry then
      let entry ← nodeUnless [.blockEntry, .key, .value, .blockEnd] true false fuel
      return entry :: (← indentlessEntries fuel)
    else return []

/-- Reads the entries of a block mapping. -/
def blockFields : (fuel : Nat) -> Read (List (Node × Node))
  | 0 => throw .expectedKey
  | fuel + 1 => do
    if ← acceptToken .key then
      let key ← nodeUnless [.key, .value, .blockEnd] true true fuel
      let value ← valueUnless [.key, .value, .blockEnd] true fuel
      return (key, value) :: (← blockFields fuel)
    else if ← acceptToken .blockEnd then return []
    else throw .expectedKey

/-- Reads the entries of a sequence in brackets. -/
def flowEntries (first : Bool) : (fuel : Nat) -> Read (List Node)
  | 0 => throw .expectedSeparator
  | fuel + 1 => do
    if ← acceptToken .flowSequenceEnd then return []
    if !first then
      if !(← acceptToken .flowEntry) then throw .expectedSeparator
    if ← acceptToken .flowSequenceEnd then return []
    let entry ←
      if ← acceptToken .key then
        let key ← nodeUnless [.value, .flowEntry, .flowSequenceEnd] false false fuel
        let value ← valueUnless [.flowEntry, .flowSequenceEnd] false fuel
        pure (Node.mapping none [(key, value)])
      else node false false fuel
    return entry :: (← flowEntries false fuel)

/-- Reads the entries of a mapping in brackets. -/
def flowFields (first : Bool) : (fuel : Nat) -> Read (List (Node × Node))
  | 0 => throw .expectedSeparator
  | fuel + 1 => do
    if ← acceptToken .flowMappingEnd then return []
    if !first then
      if !(← acceptToken .flowEntry) then throw .expectedSeparator
    if ← acceptToken .flowMappingEnd then return []
    let entry ←
      if ← acceptToken .key then
        let key ← nodeUnless [.value, .flowEntry, .flowMappingEnd] false false fuel
        let value ← valueUnless [.flowEntry, .flowMappingEnd] false fuel
        pure (key, value)
      else
        let key ← node false false fuel
        pure (key, Node.empty)
    return entry :: (← flowFields false fuel)

end

/-! ## Documents -/

/-- The tag handles that every document knows. -/
def defaultHandles : List (String × String) :=
  [("!", "!"), ("!!", "tag:yaml.org,2002:")]

/-- Takes the directives before a document, at most `fuel` of them, and tells
whether there were any. -/
def directives (versioned any : Bool) : (fuel : Nat) -> Read Bool
  | 0 => return any
  | fuel + 1 => do
    match ← peekToken with
    | some (.versionDirective major minor) =>
      if versioned then throw .repeatedDirective
      if major != 1 || (minor != 1 && minor != 2) then throw .incompatibleVersion
      skipToken
      directives true true fuel
    | some (.tagDirective handle lead) =>
      if ((← get).handles.lookup handle).isSome then throw .repeatedDirective
      modify fun reader => { reader with handles := reader.handles ++ [(handle, lead)] }
      skipToken
      directives versioned true fuel
    | _ => return any

/-- Reads a document with its start. -/
def document (fuel : Nat) : Read Node := do
  let directed ← directives false false fuel
  modify fun reader => { reader with handles := reader.handles ++ defaultHandles }
  let marked ← acceptToken .documentStart
  if directed && !marked then throw .expectedDocumentStart
  if marked then
    match ← peekToken with
    | none | some .documentStart | some .documentEnd => return .empty
    | some (.versionDirective _ _) | some (.tagDirective _ _) => return .empty
    | _ => node true false fuel
  else node true false fuel

/-- Goes past the ends of a document, at most `fuel` of them. -/
def skipDocumentEnds : (fuel : Nat) -> Read Unit
  | 0 => return ()
  | fuel + 1 => do
    if ← acceptToken .documentEnd then skipDocumentEnds fuel

/-- Reads the only document; there is none if there are no tokens. -/
def onlyDocument (fuel : Nat) : Read (Option Node) := do
  if (← peekToken).isNone then return none
  let root ← document fuel
  skipDocumentEnds fuel
  match ← peekToken with
  | none => return some root
  | some _ => throw .severalDocuments

/-- The root of the only document of a text, if it has one. -/
def Node.ofText? (text : List Char) : Except Fault (Option Node) := do
  let all ← tokens text
  let (root, _) ← (onlyDocument (3 * all.length + 8)).run { rest := all }
  return root

end Yaml
end DeclManual
