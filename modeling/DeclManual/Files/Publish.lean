import DeclManual.Files.Tree
import DeclManual.Markup.Writer
import DeclManual.Page.Compose
import DeclManual.Session.Basic

/-!
# Publishing pages

Rendered pages go to a file each, or to standard output with a form feed between
them.  Grouped pages go to one file, and their further names are linked to it as
the link policy says.
-/

namespace DeclManual
namespace Files

open Markup
open Page (Context compose)

/-- Why pages could not be written. -/
inductive PublishError where
  | io (path : Path) (cause : OsError)
  | link (name target : Path) (cause : OsError)
  | formatOption (cause : FormatOptionError)
deriving DecidableEq, Repr, Inhabited

/-- The wording of an error. -/
def PublishError.message : PublishError -> String
  | .io path cause => "cannot write " ++ path.text ++ ": " ++ cause.message
  | .link name target cause =>
    "cannot link " ++ name.text ++ " to " ++ target.text ++ ": " ++ cause.message
  | .formatOption cause => cause.message

/-- The files that a run has touched. -/
structure Summary where
  generated : List Path := []
  /-- Links or stubs for the further names of a grouped page. -/
  linked : List Path := []
  /-- Stale files that were removed. -/
  removed : List Path := []
deriving DecidableEq, Repr, Inhabited

/-- The state of publishing. -/
structure Publication where
  tree : Tree := {}
  /-- The pages, of which identical parameters get marked. -/
  pages : List ManualPage := []
  writer : Writer := default
  /-- What has been written to standard output. -/
  stdout : List Char := []
  /-- What has been reported about the progress. -/
  progress : List String := []
  summary : Summary := {}
deriving Inhabited

/-- A step of publishing, which may fail. -/
abbrev Publish := EStateM PublishError Publication

/-- The file extension, and manual section, of pages of a kind. -/
def pageSection (options : Options) (kind : ObjectKind) : String :=
  (options.objects.get kind).extension.getD options.manualSectionText

/-- The path of a page: its base name and extension in the output directory and
the subdirectory of its kind. -/
def pagePath (options : Options) (baseName : String) (kind : ObjectKind) (extension : String) :
    Path :=
  let directory : Path := ⟨options.outputDir.getD ""⟩
  let directory :=
    match (options.objects.get kind).subdir with
    | some subdir => directory.join ⟨subdir⟩
    | none => directory
  directory.join ⟨baseName ++ "." ++ extension⟩

/-- Reports progress. -/
def report (line : String) : Publish Unit :=
  modify fun state => { state with progress := state.progress ++ [line] }

/-- Changes the tree, failing with a given error if the change fails. -/
def changeTree
    (wrap : OsError -> PublishError)
    (change : Tree -> Except OsError Tree) : Publish Unit := do
  match change (← get).tree with
  | .ok tree => modify fun state => { state with tree }
  | .error cause => throw (wrap cause)

/-- Removes what stands at a path, if anything does. -/
def removeIfPresent (tree : Tree) (path : Path) : Except OsError Tree :=
  match tree.remove path with
  | .error .notFound => .ok tree
  | result => result

/-- Makes the directories above a path. -/
def makeDirectoriesAbove (path : Path) : Publish Unit := do
  let (tree, error?) := (← get).tree.ensureDirectories path.isAbsolute (path.parentParts?.getD [])
  modify fun state => { state with tree }
  match error? with
  | some cause => throw (.io path cause)
  | none => return ()

/-- Writes calls; their text comes back. -/
def render (calls : List Call) : Publish (List Char) :=
  modifyGet fun state =>
    let (writer, text) := state.writer.writeAll calls
    (text, { state with writer := writer.taken })

/-- Composes a page; its calls come back. -/
def composePage (context : Context) (index : Nat) (title manualSection : String) :
    Publish (List Call) :=
  modifyGet fun state =>
    let (pages, calls) := compose context state.pages index (some title) manualSection
    (calls, { state with pages })

/-- Writes the page at an index; its path comes back if it has one. -/
def publishPage (context : Context) (index : Nat) : Publish (Option Path) := do
  let options := context.options
  let group := options.groupTogether
  let pages := (← get).pages
  let page := pages.getD index default
  let kind := page.objectKind
  let extension := pageSection options kind
  let title := if group then page.sourceBase.getD page.name else page.name
  let manualSection := if group then options.manualSectionText else extension
  if options.toStdout then
    let calls ← composePage context index title manualSection
    let divided := !group && decide (index + 1 < pages.length)
    let text ← render (calls ++ if divided then [.character '\x0c'] else [])
    modify fun state => { state with stdout := state.stdout ++ text }
    return none
  else
    let baseName := if options.useInputName then page.sourceBase.getD page.name else page.name
    let path := pagePath options baseName kind extension
    report ("generating: " ++ path.text)
    changeTree (.io path) fun tree => removeIfPresent tree path
    let calls ← composePage context index title manualSection
    let text ← render calls
    makeDirectoriesAbove path
    changeTree (.io path) fun tree => tree.write path (String.ofList text).toUTF8
    modify fun state =>
      { state with
        summary := { state.summary with generated := state.summary.generated ++ [path] } }
    return some path

/-- Writes the pages from an index on, `count` of them. -/
def publishFrom (context : Context) : (count : Nat) -> (index : Nat) -> Publish Unit
  | 0, _ => return ()
  | count + 1, index => do
    discard (publishPage context index)
    publishFrom context count (index + 1)

/-! ## Links -/

/-- The target of a symbolic link: the bare file name if both stand in the same
directory, so that the link survives when the directory moves. -/
def symlinkTarget (target link : Path) : String :=
  match target.parentParts?, link.parentParts?, target.fileName? with
  | some first, some second, some name =>
    if target.isAbsolute == link.isAbsolute && first == second then name else target.text
  | _, _, _ => target.text

/-- Makes a link to the page of a group. -/
def makeLink (options : Options) (target link : Path) : Publish Unit := do
  let failed := PublishError.link link target
  match options.linkPolicy with
  | .hard => changeTree failed fun tree => tree.hardLink target link
  | .soft => changeTree failed fun tree => tree.symbolicLink (symlinkTarget target link) link
  | .file =>
    let text ← render [.warning, .includeFile target.text]
    changeTree failed fun tree => tree.write link (String.ofList text).toUTF8
  | .none | .remove => return ()

/-- Links one further name of a group, or removes its stale file. -/
def linkPage (options : Options) (target : Path) (page : ManualPage) : Publish Unit := do
  let kind := page.objectKind
  let link := pagePath options page.name kind (pageSection options kind)
  if link.same target then return ()
  let removing := options.linkPolicy == .remove
  report ((if removing then "removing: " else "linking: ") ++ link.text)
  changeTree (.io link) fun tree => removeIfPresent tree link
  makeLink options target link
  modify fun state =>
    { state with
      summary :=
        if removing then { state.summary with removed := state.summary.removed ++ [link] }
        else { state.summary with linked := state.summary.linked ++ [link] } }

/-- Links the further names of a group.  The first page needs none if the file is
named after it. -/
def linkPages (options : Options) (target : Path) (pages : List ManualPage) : Publish Unit := do
  let named := (pages.head?.map (·.sourceFile.isSome)).getD false
  let further := if options.useInputName && named then pages else pages.drop 1
  further.forM (linkPage options target)

/-- Writes all pages. -/
def publishAll (context : Context) : Publish Unit := do
  let options := context.options
  let pages := (← get).pages
  if options.groupTogether then
    if pages.isEmpty then return ()
    match ← publishPage context 0 with
    | some target =>
      if options.linkPolicy != .none then linkPages options target (← get).pages
    | none => return ()
  else publishFrom context pages.length 0

/-- Selects the writer and writes all pages. -/
def publishPages (context : Context) (today : String) : Publish Unit := do
  match Writer.ofOptions context.options today with
  | .error cause => throw (.formatOption cause)
  | .ok writer =>
    modify fun state => { state with writer }
    publishAll context

/-- Publishes the pages of a session into a tree.  The state reached comes with
the error, if there is one. -/
def publish (session : Session) (tree : Tree) (today : String) :
    Publication × Option PublishError :=
  let context : Context :=
    { options := session.options, enums := session.enums, inputFiles := session.inputFiles,
      groupTerse := session.groupTerse }
  match publishPages context today { tree, pages := session.pages } with
  | .ok _ state => (state, none)
  | .error error state => (state, some error)

end Files
end DeclManual
