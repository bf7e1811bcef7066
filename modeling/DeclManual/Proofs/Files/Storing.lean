import DeclManual.Proofs.Files.PagePaths

/-!
# Every page keeps its file

Pages that are not grouped are stored one after another.  Each page removes the old file
at its path, makes the directories above it and writes a new file.  What was stored
before stays, since the files of different pages have different names: so in the end
every page has the file that was generated for it, with its own text.
-/

namespace DeclManual
namespace Files

open Markup
open Page (Context compose)

variable
  {context : Context}
  {today : String}
  {writer : Writer}
  {tree : Tree}
  {pages : List ManualPage}
  {index : Nat}
  {state after : Publication}

/-! ## Texts of pages -/

/-- The writer of a run after it has written the first pages. -/
def writerAfter (context : Context) (writer : Writer) (pages : List ManualPage) : Nat -> Writer
  | 0 => writer
  | index + 1 =>
    ((writerAfter context writer pages index).writeAll (pageCalls context pages index)).1.taken

/-- The text that a run renders for the page at an index. -/
def renderedText
    (context : Context)
    (writer : Writer)
    (pages : List ManualPage)
    (index : Nat) : List Char :=
  ((writerAfter context writer pages index).writeAll (pageCalls context pages index)).2

/-- What the file of the page at an index holds. -/
def renderedData
    (context : Context)
    (writer : Writer)
    (pages : List ManualPage)
    (index : Nat) : FileData where
  bytes := (String.ofList (renderedText context writer pages index)).toUTF8

/-! ## One page -/

/-- What publishing a page into a file does. -/
theorem publishPage_stored
    {found : Option Path}
    {path : Path}
    (ungrouped : context.options.groupTogether = false)
    (toFile : context.options.toStdout = false)
    (path_eq : pageFile context.options (state.pages.getD index default) = path)
    (ran : publishPage context index state = .ok found after) :
    after.pages = state.pages ∧
      after.writer = (state.writer.writeAll (pageCalls context state.pages index)).1.taken ∧
      after.summary.generated = state.summary.generated ++ [path] ∧
      ∃ cleared grown, removeIfPresent state.tree path = .ok cleared ∧
        cleared.ensureDirectories path.isAbsolute (path.parentParts?.getD []) = (grown, none) ∧
        grown.write path (String.ofList
            (state.writer.writeAll (pageCalls context state.pages index)).2).toUTF8 =
          .ok after.tree := by
  have calls : (compose context state.pages index (some (state.pages.getD index default).name)
      (pageSection context.options (state.pages.getD index default).objectKind)).2 =
    pageCalls context state.pages index := rfl
  rw [publishPage_run_file ungrouped toFile] at ran
  dsimp only at ran
  rw [path_eq, bind_run, clearFile_run] at ran
  cases removed : removeIfPresent state.tree path with
  | error cause =>
      rw [removed] at ran
      cases ran
  | ok cleared =>
      rw [removed] at ran
      dsimp only at ran
      rw [composePage_bind_run ungrouped] at ran
      dsimp only at ran
      rw [calls, render_bind_run, bind_run] at ran
      generalize state.writer.writeAll (pageCalls context state.pages index) = written at ran ⊢
      split at ran
      · rename_i stored
        obtain ⟨grown, tree, made, ok, rfl⟩ := createFile_ok stored
        obtain ⟨rfl, rfl⟩ := EStateM.Result.ok.inj ran
        exact ⟨rfl, rfl, rfl, cleared, grown, rfl, made, ok⟩
      · cases ran

/-! ## Runs -/

/-- No way to the file of a page leads through a symbolic link with the name of such a file,
or climbs after a directory that is not there. -/
def Straight (options : Options) (pages : List ManualPage) (tree : Tree) : Prop :=
  ∀ page ∈ pages, ¬ tree.Strays (pages.map (fileName options))
    (tree.start (pageFile options page)) (pageFile options page).way

/-- The state of a run that has stored the first pages. -/
structure StoredUpTo
    (context : Context)
    (writer : Writer)
    (pages : List ManualPage)
    (index : Nat)
    (state : Publication) : Prop where
  pages_eq : state.pages = pages
  writer_eq : state.writer = writerAfter context writer pages index
  generated : state.summary.generated = (pages.take index).map (pageFile context.options)
  formed : state.tree.Formed
  straight : Straight context.options pages state.tree
  holds : ∀ earlier < index, ∀ page ∈ pages[earlier]?,
    state.tree.Holds (pages.map (fileName context.options)) (pageFile context.options page)
      (fileName context.options page) (renderedData context writer pages earlier)

theorem storedUpTo_zero
    (formed : tree.Formed)
    (straight : Straight context.options pages tree) :
    StoredUpTo context writer pages 0 { tree, pages, writer } :=
  ⟨rfl, rfl, rfl, formed, straight, fun _ before => absurd before (Nat.not_lt_zero _)⟩

theorem fileName_mem {options : Options} {page : ManualPage} (member : page ∈ pages) :
    fileName options page ∈ pages.map (fileName options) :=
  List.mem_map_of_mem member

section

variable
  {found : Option Path}
  (ungrouped : context.options.groupTogether = false)
  (toFile : context.options.toStdout = false)
  (distinguished : Distinguished context.options pages)
  (bound : index < pages.length)
  (stored : StoredUpTo context writer pages index state)
  (ran : publishPage context index state = .ok found after)
include ungrouped toFile distinguished bound stored ran

/-- Publishing the next page stores its text. -/
theorem StoredUpTo.exists_stores :
    ∃ directory, Tree.Stores (pages.map (fileName context.options))
      (pageFile context.options pages[index]) directory (fileName context.options pages[index])
      (renderedData context writer pages index) state.tree after.tree := by
  have page_eq : state.pages.getD index default = pages[index] := by
    rw [stored.pages_eq, List.getD_eq_getElem _ _ bound]
  have member : pages[index] ∈ pages := List.getElem_mem bound
  obtain ⟨-, -, -, cleared, grown, removed, made, ok⟩ :=
    publishPage_stored ungrouped toFile (by rw [page_eq]) ran
  rw [stored.pages_eq, stored.writer_eq] at ok
  have component := distinguished.isComponent member
  exact Tree.stores_of_write stored.formed (fileName_mem member) component.notHere
    component.notAbove (distinguished.names_pageFile member) (stored.straight _ member) removed
    made ok

/-- What was stored before the next page stays. -/
theorem StoredUpTo.publishPage : StoredUpTo context writer pages (index + 1) after := by
  have page_eq : state.pages.getD index default = pages[index] := by
    rw [stored.pages_eq, List.getD_eq_getElem _ _ bound]
  obtain ⟨pages_eq, writer_eq, generated, -⟩ :=
    publishPage_stored ungrouped toFile (by rw [page_eq]) ran
  obtain ⟨directory, stores⟩ :=
    stored.exists_stores ungrouped toFile distinguished bound ran
  rw [stored.pages_eq, stored.writer_eq] at writer_eq
  have isShunned := @fileName_mem pages context.options _ (List.getElem_mem bound)
  constructor
  case pages_eq => rw [pages_eq, stored.pages_eq]
  case writer_eq => exact writer_eq
  case generated =>
    rw [generated, stored.generated, List.take_succ_eq_append_getElem bound, List.map_append]
    rfl
  case formed => exact stores.formed
  case straight =>
    intro page isPage strays
    rw [stores.start_eq] at strays
    exact stored.straight page isPage (stores.strays stored.formed strays)
  case holds =>
    intro earlier before page isPage
    rcases Nat.lt_succ_iff_lt_or_eq.1 before with already | rfl
    · refine (stored.holds earlier already page isPage).of_stores stores isShunned ?_
      obtain ⟨earlierBound, rfl⟩ := List.getElem?_eq_some_iff.1 isPage
      exact List.pairwise_iff_getElem.1 distinguished.pairwise earlier index _ _ already
    · obtain rfl : pages[earlier] = page := by
        rw [List.getElem?_eq_getElem bound] at isPage
        exact Option.some.inj isPage
      exact stores.holds

end

/-- Publishing pages stores them all. -/
theorem StoredUpTo.publishFrom
    {count : Nat}
    (ungrouped : context.options.groupTogether = false)
    (toFile : context.options.toStdout = false)
    (distinguished : Distinguished context.options pages)
    (covered : index + count = pages.length)
    (stored : StoredUpTo context writer pages index state)
    (ran : publishFrom context count index state = .ok () after) :
    StoredUpTo context writer pages pages.length after := by
  induction count generalizing index state with
  | zero =>
      obtain rfl := (EStateM.Result.ok.inj ran).2
      exact covered ▸ stored
  | succ count hypothesis =>
      rw [Files.publishFrom, bind_run, discard_run] at ran
      cases first : Files.publishPage context index state with
      | error error middle =>
          rw [first] at ran
          cases ran
      | ok found middle =>
          rw [first] at ran
          have next := stored.publishPage ungrouped toFile distinguished (by omega) first
          exact hypothesis (by omega : index + 1 + count = pages.length) next ran

/-- Pages that are not grouped keep their files.  If the files are named after different
words and no way to them strays, a run that succeeds has generated one file for each page,
in the order of the pages, and in the end each holds the text that was rendered for its
page. -/
theorem publishPages_stored
    (ungrouped : context.options.groupTogether = false)
    (toFile : context.options.toStdout = false)
    (distinguished : Distinguished context.options pages)
    (formed : tree.Formed)
    (straight : Straight context.options pages tree)
    (ran : publishPages context today { tree, pages } = .ok () after) :
    ∃ writer, Writer.ofOptions context.options today = .ok writer ∧
      after.summary.generated = pages.map (pageFile context.options) ∧
      (after.summary.generated.Pairwise fun first second => first.same second = false) ∧
      ∀ index (bound : index < pages.length),
        after.tree.read (pageFile context.options pages[index]) =
          .ok (renderedData context writer pages index) := by
  cases chosen : Writer.ofOptions context.options today with
  | error cause =>
      rw [publishPages, chosen] at ran
      cases ran
  | ok writer =>
      rw [publishPages_run ungrouped chosen] at ran
      have stored := (storedUpTo_zero formed straight).publishFrom ungrouped toFile distinguished
        (Nat.zero_add pages.length) ran
      have generated := stored.generated
      rw [List.take_length] at generated
      refine ⟨writer, rfl, generated, generated ▸ distinguished.pairwise_same, ?_⟩
      intro index bound
      have holds := stored.holds index bound pages[index] (List.getElem?_eq_getElem bound)
      exact holds.read_eq (distinguished.names_pageFile (List.getElem_mem bound))

/-! ## Old links, and one name for two pages -/

/-- A documented function of a source file. -/
def sourced (name : String) : ManualPage :=
  { documented name .function with sourceFile := some "count.c" }

/-- A session that writes two functions of one source file under a directory. -/
def twoFunctions (useInputName : Bool) : Session where
  options := { outputDir := some "man", format := .html, useInputName }
  pages := [sourced "next", sourced "reset"]

/-- A tree in which the page of one function is a symbolic link to that of another, which is
a file with a second path. -/
def staleTree : Tree where
  entries :=
    [(["man"], .directory), (["man", "next.html"], .symlink "reset.html"),
      (["man", "reset.html"], .file 0), (["copy.html"], .file 0)]
  files := [{ bytes := "old".toUTF8 }]

theorem distinguished_twoFunctions :
    Distinguished (twoFunctions false).options (twoFunctions false).pages where
  isWord := by decide
  distinct := by decide
  noSlash := by decide

theorem straight_staleTree :
    Straight (twoFunctions false).options (twoFunctions false).pages staleTree := by
  have way (page : ManualPage) (member : page ∈ (twoFunctions false).pages) :
      staleTree.start (pageFile (twoFunctions false).options page) = [] ∧
        (pageFile (twoFunctions false).options page).way = ["man"] := by
    revert page
    decide
  intro page member strays
  rw [(way page member).1, (way page member).2] at strays
  cases strays.after_directory ⟨by decide, by decide, by decide⟩ (by decide)

/-- The pages of two functions, where one was a symbolic link to the other. -/
theorem publishPages_stored_stale :
    ∃ after writer,
      publishPages (contextOf (twoFunctions false)) ""
          { tree := staleTree, pages := (twoFunctions false).pages } = .ok () after ∧
        ∀ index (bound : index < (twoFunctions false).pages.length),
          after.tree.read
              (pageFile (twoFunctions false).options (twoFunctions false).pages[index]) =
            .ok (renderedData (contextOf (twoFunctions false)) writer (twoFunctions false).pages
              index) := by
  have ran := @publishPages_of_publish (twoFunctions false) staleTree "" (by decide +kernel)
  have toFile : (contextOf (twoFunctions false)).options.toStdout = false := by decide
  have formed : staleTree.Formed := Tree.formed_of_entries (by decide) (by decide)
  obtain ⟨writer, -, -, -, held⟩ :=
    publishPages_stored rfl toFile distinguished_twoFunctions formed straight_staleTree ran
  exact ⟨_, writer, ran, held⟩

/-- A way that climbs: the old symbolic link is not found before the directory `new` is made,
and the page is written through it. -/
example :
    let session : Session :=
      { twoFunctions false with
        options := { (twoFunctions false).options with outputDir := some "new/../man" } }
    (publish session staleTree "").2 = none ∧
      (publish session staleTree "").1.tree.entryAt? ["man", "next.html"] =
        some (.symlink "reset.html") := by
  decide +kernel

/-- The name of the source file takes the place of the names of its functions, and the file of
one page replaces that of the other. -/
theorem publishPages_overwritten :
    let session := twoFunctions true
    session.options.groupTogether = false ∧
      session.options.toStdout = false ∧
      (∀ page ∈ session.pages, Source.IsWordText page.name ∧
        '/' ∉ (pageSection session.options page.objectKind).toList) ∧
      (session.pages.map ManualPage.name).Nodup ∧
      ∃ after,
        publishPages (contextOf session) "" { pages := session.pages } = .ok () after ∧
        after.summary.generated = [⟨"man/count.html"⟩, ⟨"man/count.html"⟩] := by
  intro session
  refine ⟨rfl, by decide, by decide, by decide, _, publishPages_of_publish (by decide +kernel), ?_⟩
  decide +kernel

end Files
end DeclManual
