import DeclManual.Yaml.Node.Shape
import DeclManual.Yaml.Writer

/-!
# Records in YAML

A record is written as a mapping with its fields in their order, and read from one:
unknown fields are passed over, missing ones keep their default, and a field must not
be given twice.
-/

namespace DeclManual
namespace Yaml

/-- A field of a record: its name, and how it is written and read. -/
structure RecordField (α : Type) where
  name : String
  write : α -> Block
  read : Node -> α -> Except Fault α

namespace RecordField

variable {α : Type}

/-- A field with a way to write and to read its values. -/
def ofShape {β : Type}
    (write : β -> Block)
    (read : Node -> Except Fault β)
    (name : String)
    (get : α -> β)
    (set : α -> β -> α) : RecordField α where
  name := name
  write record := write (get record)
  read node record := (read node).map (set record)

/-- A switch. -/
def switch : String -> (α -> Bool) -> (α -> Bool -> α) -> RecordField α :=
  ofShape .ofBool Node.asBool

/-- A text. -/
def text : String -> (α -> String) -> (α -> String -> α) -> RecordField α :=
  ofShape .ofText Node.asText

/-- A text that may be missing. -/
def optionalText : String -> (α -> Option String) -> (α -> Option String -> α) -> RecordField α :=
  ofShape .ofOptionalText Node.asOptionalText

/-- A sequence of texts. -/
def texts : String -> (α -> List String) -> (α -> List String -> α) -> RecordField α :=
  ofShape .sequence Node.asTexts

/-- One of some names. -/
def choice {β : Type} (name : β -> String) (ofName? : String -> Option β) :
    String -> (α -> β) -> (α -> β -> α) -> RecordField α :=
  ofShape (fun value => .ofText (name value)) (Node.asChoice ofName?)

end RecordField

/-- The value of a record. -/
def writeRecord {α : Type} (fields : List (RecordField α)) (record : α) : Block :=
  .mapping (fields.map fun field => (field.name, field.write record))

/-- Reads one entry of a mapping into a record, noting the fields that were given. -/
def readEntry {α : Type}
    (fields : List (RecordField α))
    (state : α × List String)
    (entry : String × Node) : Except Fault (α × List String) := do
  match fields.find? (·.name == entry.1) with
  | none => return state
  | some field =>
    if state.2.contains field.name then throw (.repeatedField field.name)
    return (← field.read entry.2 state.1, field.name :: state.2)

/-- Reads a record, starting with its defaults. -/
def readRecord {α : Type} (fields : List (RecordField α)) (defaults : α) (node : Node) :
    Except Fault α := do
  let (record, _) ← (← node.asFields).foldlM (readEntry fields) (defaults, [])
  return record

/-- A field that is a record itself. -/
def RecordField.record {α β : Type} (fields : List (RecordField β)) (defaults : β) :
    String -> (α -> β) -> (α -> β -> α) -> RecordField α :=
  ofShape (writeRecord fields) (readRecord fields defaults)

/-- Reads a record from the text of a file; an empty file gives the defaults. -/
def recordOfText {α : Type} (fields : List (RecordField α)) (defaults : α) (text : List Char) :
    Except Fault α := do
  match ← Node.ofText? text with
  | some node => readRecord fields defaults node
  | none => return defaults

/-- The text of a file that holds a record. -/
def textOfRecord {α : Type} (fields : List (RecordField α)) (record : α) : List Char :=
  fieldLines 0 (fields.map fun field => (field.name, field.write record))

end Yaml
end DeclManual
