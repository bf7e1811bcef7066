import DeclManual.Page.Duplicates
import DeclManual.Page.Identifier
import DeclManual.Prose.Returns
import DeclManual.Prose.Split

/-!
# Composing a page

A manual page is composed for one declaration, or for several when they are
grouped: NAME, SYNOPSIS, PARAMETERS, DESCRIPTION, RETURNS, the named sections of
the comments and SEE ALSO.  The result is a list of markup calls.
-/

namespace DeclManual
namespace Page

open Decl
open Markup
open Prose (Voice)

/-- What all pages of a run share. -/
structure Context where
  options : Options
  enums : EnumStore
  /-- The number of input files. -/
  inputFiles : Nat := 1
  /-- The terse description of grouped pages. -/
  groupTerse : Option String := none

/-- The voice in which the comments of a run are written. -/
def Context.voice (context : Context) : Voice :=
  .ofFormat context.options.format context.options.fixupComments

/-- One declaration of a page with the parts of its comment. -/
structure Member where
  page : ManualPage
  terse : Option String := none
  description : Option String := none
  returns : Option String := none
  sections : List (String × Option String) := []

namespace Member

/-- The declaration with its comment split.  Without a returns section, a comment
on the returned value stands in for one, or else a returns paragraph of a
description without a heading of its own. -/
def ofPage (wantTerse : Bool) (page : ManualPage) : Member :=
  let parts := Prose.splitComment (page.comment.getD "") page.name wantTerse
  let member : Member :=
    { page, terse := parts.terse, description := parts.description, returns := parts.returns,
      sections := parts.sections }
  match parts.returns, page.declarator.returnComment with
  | some _, _ => member
  | none, some comment => { member with returns := some comment }
  | none, none =>
    if parts.explicitDescription then member
    else
      match parts.description.bind Prose.splitReturns? with
      | some (description, returns) => { member with description, returns }
      | none => member

/-- Whether a declaration has something to say on what it returns. -/
def needsReturns (member : Member) : Bool :=
  (match member.returns with
    | some text => !text.isEmpty
    | none => false) ||
    (member.page.isAutoDocumented && member.page.isFunction)

/-- Whether a declaration is a variable whose values are listed. -/
def listsValues (member : Member) : Bool :=
  member.page.isAutoDocumented && !member.page.isFunction

end Member

/-- Calls for each of some things with other calls between them. -/
def separated {α : Type} (separator : List Call) (calls : α -> List Call) : List α -> List Call
  | [] => []
  | [last] => calls last
  | first :: rest => calls first ++ separator ++ separated separator calls rest

/-- The NAME section. -/
def nameCalls (names : List String) (terse : String) : List Call :=
  [.nameHeading] ++ separated [.text ",\n"] (fun name => [Call.name name]) names ++
    [.terseSeparator, .text terse, .character '\n']

/-- Writes an `#include` line that the options ask for. -/
def includeCalls (name : String) : List Call :=
  let surrounded := name.toList.head? == some '"' || name.toList.head? == some '<'
  [.text "#include "] ++ (if surrounded then [] else [.character '<']) ++ [.text name] ++
    (if surrounded then [] else [.character '>']) ++ [.text "\n", .breakLine]

/-- Writes the `#include` line of a header file. -/
def headerIncludeCalls (headerPrefix : Option String) (file : String) : List Call :=
  [.text "#include <"] ++
    (match headerPrefix with
      | some directory => [.text directory, .character '/']
      | none => []) ++
    [.text (String.ofList (Text.afterLast '/' file.toList)), .text ">\n"]

/-- Writes the declaration of a page. -/
def synopsisCalls (options : Options) (page : ManualPage) : List Call :=
  let spec := page.spec.text.getD ""
  let isExtern := (Text.splitAtWord? "extern".toList spec.toList).isSome
  layoutCalls options.prototype.specPrefix ++
    (if !page.spec.flags.isStatic && !page.isFunction && !isExtern then [.text "extern "]
      else []) ++
    [.text spec] ++ layoutCalls options.prototype.declaratorPrefix ++
    declaratorCalls options.prototype (1 < page.declarator.headParameters.length)
      page.declarator ++
    [.text ";\n"]

/-- The SYNOPSIS section. -/
def synopsisSection (options : Options) (first : ManualPage) (pages : List ManualPage) :
    List Call :=
  let header := first.sourceFile.filter isHeaderName
  [.heading "SYNOPSIS", .codeStart] ++ options.includes.flatMap includeCalls ++
    (match header with
      | some file => headerIncludeCalls options.headerPrefix file
      | none => []) ++
    (if !options.includes.isEmpty || header.isSome then [.blankLine] else []) ++
    separated [.blankLine] (synopsisCalls options) pages ++ [.codeEnd]

/-- The PARAMETERS section. -/
def parametersSection (context : Context) (pages : List ManualPage) : List Call :=
  [.heading "PARAMETERS"] ++
    pages.flatMap fun page =>
      if page.declarator.hasParameters then
        parameterDescriptions context.voice context.enums context.options page.name
          page.declarator.headParameters
      else []

/-- The description of the only declaration of a page. -/
def singleDescription (context : Context) (terse : String) (member : Member) : List Call :=
  let description := some (member.description.getD terse)
  if member.listsValues then
    identifierCalls context.voice context.enums description .paragraph member.page.spec
  else Prose.paragraph context.voice description

/-- The description of one of several declarations. -/
def groupedDescription (context : Context) (member : Member) : List Call :=
  if member.listsValues then
    .subheading member.page.name ::
      identifierCalls context.voice context.enums member.description .paragraph member.page.spec
  else
    match member.description with
    | some description =>
      .subheading member.page.name :: Prose.paragraph context.voice (some description)
    | none => []

/-- The RETURNS section. -/
def returnsSection (context : Context) (grouped : Bool) (members : List Member) : List Call :=
  [.heading "RETURNS"] ++
    members.flatMap fun member =>
      if member.needsReturns then
        (if grouped then [.subheading member.page.name] else []) ++
          identifierCalls context.voice context.enums member.returns .returns member.page.spec
      else []

/-! ## Named sections -/

/-- Whether a text says "none", in any case, at its start. -/
def saysNone (text : String) : Bool :=
  Text.startsIgnoringCase "none".toList text.toList

/-- The sections of later declarations under the same heading. -/
def laterSections (voice : Voice) (heading : String) (later : List Member) : List Call :=
  later.flatMap fun member =>
    (member.sections.filter (·.1 == heading)).flatMap fun (_, text) =>
      .subheading member.page.name :: Prose.paragraph voice text

/-- Writes the sections of one declaration.  `done` are the headings under which
earlier declarations have written, and `here` those of this one so far; the
headings written come with the calls.  A heading first written here brings the
sections of later declarations with it. -/
def memberSections
    (options : Options)
    (voice : Voice)
    (grouped : Bool)
    (member : Member)
    (later : List Member)
    (done : List String) :
    (here : List String) -> List (String × Option String) -> List Call × List String
  | here, [] => ([], here)
  | here, (heading, text) :: rest =>
    match text with
    | none => memberSections options voice grouped member later done here rest
    | some body =>
      if done.contains heading || saysNone body || options.isExcluded heading then
        memberSections options voice grouped member later done here rest
      else
        let own :=
          [.heading heading] ++ (if grouped then [.subheading member.page.name] else []) ++
            Prose.paragraph voice (some body)
        let others :=
          if grouped && !here.contains heading then laterSections voice heading later else []
        let (calls, written) :=
          memberSections options voice grouped member later done (here ++ [heading]) rest
        (own ++ others ++ calls, written)

/-- Writes the named sections of declarations; `done` are the headings already
written. -/
def namedSections (options : Options) (voice : Voice) (grouped : Bool) :
    (done : List String) -> List Member -> List Call
  | _, [] => []
  | done, member :: later =>
    let (calls, written) :=
      memberSections options voice grouped member later done [] member.sections
    calls ++ namedSections options voice grouped (done ++ written) later

/-- The SEE ALSO section. -/
def seeAlsoSection (names : List String) : List Call :=
  if names.isEmpty then []
  else
    [.heading "SEE ALSO"] ++ separated [.text ",\n"] (fun name => [Call.reference name]) names ++
      [.character '\n']

/-- A section, unless it is excluded. -/
def unlessExcluded (options : Options) (name : String) (calls : List Call) : List Call :=
  if options.isExcluded name then [] else calls

/-- Whether the PARAMETERS section is written. -/
def showsParameters (options : Options) (grouped : Bool) (members : List ManualPage)
    (first : ManualPage) : Bool :=
  !options.isExcluded "PARAMETERS" &&
    if grouped then anyDocumented members options.alwaysDocumentParameters
    else first.declarator.hasDocumentedParameters options.alwaysDocumentParameters

/-- The terse description of a page that has none. -/
def notDescribed : String := "Not Described"

/-- Composes the page of `pages[base]`, or of all pages from there on when they
are grouped.  `title` names the page and `manualSection` stands in its header.
The pages come back with their identical parameters marked. -/
def compose
    (context : Context)
    (pages : List ManualPage)
    (base : Nat)
    (title : Option String)
    (manualSection : String) : List ManualPage × List Call :=
  let options := context.options
  let group := options.groupTogether
  let grouped := group && 1 < pages.length
  let first := pages.getD base default
  let memberPages := if group then pages.drop base else [first]
  let members := memberPages.map (Member.ofPage !group)
  let ownTerse := if group then none else (members.head?.bind (·.terse))
  let terse := (context.groupTerse.or ownTerse).getD notDescribed
  let marked :=
    if grouped && !options.isExcluded "PARAMETERS" then markDuplicates memberPages
    else memberPages
  let shown := if grouped then marked else marked.take 1
  let shownMembers := if grouped then members else members.take 1
  let header : Header :=
    { sourceFile := first.sourceFile
      modified := first.sourceTime
      inputFiles := context.inputFiles
      grouped
      name := title.getD first.name
      terse
      manualSection }
  let others := ((pages.take base) ++ (pages.drop (base + 1))).map ManualPage.name
  let calls :=
    [.header header] ++
    nameCalls (memberPages.map ManualPage.name) terse ++
    unlessExcluded options "SYNOPSIS"
      (synopsisSection options first (if grouped then memberPages else [first])) ++
    (if showsParameters options grouped memberPages first then parametersSection context shown
      else []) ++
    unlessExcluded options "DESCRIPTION"
      ([.heading "DESCRIPTION"] ++
        if grouped then members.flatMap (groupedDescription context)
        else shownMembers.flatMap (singleDescription context terse)) ++
    (if shownMembers.any Member.needsReturns then
      unlessExcluded options "RETURNS" (returnsSection context grouped shownMembers)
      else []) ++
    namedSections options context.voice grouped [] shownMembers ++
    (if group then [] else unlessExcluded options "SEE ALSO" (seeAlsoSection others)) ++
    if options.embeddable then [] else [.fileEnd]
  (if group then pages.take base ++ marked else pages, calls)

end Page
end DeclManual
