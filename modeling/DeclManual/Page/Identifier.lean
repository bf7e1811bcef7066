import DeclManual.Decl.Enumerator
import DeclManual.Page.Prototype
import DeclManual.Prose.Fixup

/-!
# Descriptions of identifiers

An identifier is described by its comment.  One of an enumeration type also lists
its possible values, as a table if any of them has a comment and as a list
otherwise.
-/

namespace DeclManual
namespace Page

open Decl
open Markup
open Prose (Voice)

/-- How the comment of an identifier is written. -/
inductive Manner where
  | paragraph
  | returns
deriving DecidableEq, Repr

/-- Writes the comment of an identifier. -/
def proseCalls (voice : Voice) (manner : Manner) (text : Option String) : List Call :=
  match manner with
  | .paragraph => Prose.paragraph voice text
  | .returns => Prose.returns voice (text.getD "")

/-- Enumerations with more values than this are summarised. -/
def maxListedEnumerators : Nat := 20

/-- Writes the name of a type after its indefinite article. -/
def articleCalls (typeText : String) : List Call :=
  let vowel := (typeText.toList.head?.map "aAeEiIoOuU".toList.contains).getD false
  [.character 'a'] ++ (if vowel then [.character 'n'] else []) ++
    [.character ' ', .code typeText]

/-- The name that takes the most bytes, the first of several. -/
def longestName (enumerators : List Enumerator) : String :=
  enumerators.foldl
    (fun longest enumerator =>
      if longest.utf8ByteSize < enumerator.name.utf8ByteSize then enumerator.name else longest)
    ""

/-- How possible values are listed. -/
inductive Listing where
  | table (longestTag : String)
  | list
deriving DecidableEq, Repr

/-- Opens a listing. -/
def Listing.start : Listing -> Call
  | .table longestTag => .tableStart longestTag
  | .list => .listStart

/-- Closes a listing. -/
def Listing.stop : Listing -> Call
  | .table _ => .tableEnd
  | .list => .listEnd

/-- Writes one value; in a list, after a separator unless it is the first. -/
def Listing.entry (listing : Listing) (isFirst : Bool) (enumerator : Enumerator) : List Call :=
  match listing with
  | .table _ => [.tableEntry enumerator.name enumerator.comment]
  | .list =>
    (if isFirst then [] else [.listSeparator]) ++ [.listEntry enumerator.name]

/-- Writes values; `isOpen` tells whether the listing is open.  The comment of a
group closes it and stands before the values it introduces. -/
def enumeratorCalls (voice : Voice) (listing : Listing) : (isOpen : Bool) -> List Enumerator ->
    List Call
  | isOpen, [] => if isOpen then [listing.stop] else []
  | isOpen, enumerator :: rest =>
    let group :=
      match enumerator.groupComment with
      | some comment =>
        (if isOpen then [listing.stop] else []) ++
          .indent :: Prose.paragraph voice (some comment)
      | none => []
    let continued := isOpen && enumerator.groupComment.isNone
    group ++ (if continued then [] else [listing.start]) ++
      listing.entry (!continued) enumerator ++ enumeratorCalls voice listing true rest

/-- Writes the possible values of a type. -/
def valuesCalls (voice : Voice) (typeText : String) (enumerators : List Enumerator) : List Call :=
  let visible := enumerators.filter fun enumerator => enumerator.name.toList.head? != some '_'
  if maxListedEnumerators < visible.length then
    [.text "Since there are ", .text (toString visible.length),
      .text " possible values for "] ++
      articleCalls typeText ++ [.text ", they are not all listed here.\n"]
  else if visible.isEmpty then []
  else
    let listing :=
      if visible.any (·.comment.isSome) then .table (longestName visible) else Listing.list
    [.text "Possible values for "] ++ articleCalls typeText ++ [.text " are as follows:\n"] ++
      enumeratorCalls voice listing false visible

/-- Describes an identifier. -/
def identifierCalls
    (voice : Voice)
    (enums : EnumStore)
    (comment : Option String)
    (manner : Manner)
    (spec : Spec) : List Call :=
  match spec.enumList with
  | none => proseCalls voice manner comment
  | some list =>
    (if comment.isSome then proseCalls voice manner comment ++ [.blankLine] else []) ++
      valuesCalls voice (spec.text.getD "") (enums.get list)

/-- Whether a parameter is listed. -/
def isListed (always : Bool) (parameter : Parameter) : Bool :=
  !parameter.suppress && (always || parameter.comment.isSome)

/-- Describes one parameter of a function. -/
def parameterEntry
    (voice : Voice)
    (enums : EnumStore)
    (layout : Layout)
    (function : String)
    (parameter : Parameter) : List Call :=
  [if parameter.duplicate then .tagEntryStartExtra else .tagEntryStart] ++
    parameterCalls layout parameter ++
    [if parameter.duplicate then .tagEntryEndExtra function else .tagEntryEnd] ++
    identifierCalls voice enums parameter.comment .paragraph parameter.spec

/-- Describes the parameters of a function that are listed. -/
def parameterDescriptions
    (voice : Voice)
    (enums : EnumStore)
    (options : Options)
    (function : String)
    (parameters : List Parameter) : List Call :=
  match parameters.filter (isListed options.alwaysDocumentParameters) with
  | [] => []
  | listed =>
    [.tagListStart] ++
      listed.flatMap (parameterEntry voice enums options.prototype function) ++ [.tagListEnd]

end Page
end DeclManual
