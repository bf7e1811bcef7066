import DeclManual.Files.Publish
import DeclManual.Proofs.Lists
import DeclManual.Proofs.Markup.Rest
import Mathlib.Data.List.GetD

/-!
# Pages do not leak into each other

One writer writes all pages of a run, and each page still comes out as if a fresh
writer had written it alone.  On standard output the pages stand one after the other
with a form feed between them, and otherwise each stands in a file of its own.
-/

namespace DeclManual

namespace Text

/-- What follows the last of some character is part of the text. -/
theorem mem_of_mem_afterLast
    {mark c : Char}
    {text : List Char}
    (member : c ∈ afterLast mark text) :
    c ∈ text := by
  unfold afterLast at member
  split at member
  · rename_i before after cut
    obtain ⟨⟨first, second⟩, found, equal⟩ := Option.map_eq_some_iff.1 cut
    obtain ⟨-, rfl⟩ := Prod.mk.inj equal
    rw [← List.mem_reverse, eq_append_of_splitFirst? found]
    exact List.mem_append_left _ (List.mem_reverse.1 member)
  · exact member

end Text

namespace Markup.Writer

/-! ## Fresh writers -/

/-- What the writer that options select has in common with the format's initial one. -/
structure Selected (options : Options) (today : String) (writer : Writer) : Prop where
  settings : writer.settings = Settings.ofOptions options today
  isFresh : writer.memory.IsFresh
  format : writer.memory.format = options.format

/-- A selected writer has the setting that the options give. -/
theorem Selected.embeddable
    {options : Options}
    {today : String}
    {writer : Writer}
    (selected : Selected options today writer) :
    writer.settings.embeddable = options.embeddable := by
  rw [selected.settings]
  rfl

/-- A selected writer writes comments in the voice in which pages are composed. -/
theorem Selected.voice_eq
    {context : Page.Context}
    {today : String}
    {writer : Writer}
    (selected : Selected context.options today writer) :
    writer.voice = context.voice := by
  unfold Writer.voice
  rw [selected.settings, selected.format]
  rfl

/-- A writer stays selected by one more option of its format. -/
theorem Selected.applyOption
    {options : Options}
    {today option : String}
    {writer changed : Writer}
    (selected : Selected options today writer)
    (applied : writer.applyOption option = .ok changed) :
    Selected options today changed := by
  have texinfo (state : Texinfo.State) (before : Texinfo.State)
      (memory : writer.memory = .texinfo before) :
      Selected options today { writer with memory := .texinfo state } := by
    refine ⟨selected.settings, trivial, ?_⟩
    rw [← selected.format, memory]
    rfl
  unfold Writer.applyOption at applied
  split at applied
  · rename_i state memory
    dsimp only at applied
    split at applied
    · exact Except.ok.inj applied ▸ texinfo _ state memory
    · exact Except.ok.inj applied ▸ texinfo _ state memory
    · exact Except.ok.inj applied ▸ texinfo _ state memory
    · split at applied
      · exact Except.ok.inj applied ▸ texinfo _ state memory
      · cases applied
    · cases applied
  · cases applied

/-- A writer stays selected by all options of its format. -/
theorem Selected.applyOptions
    {options : Options}
    {today : String}
    {writer changed : Writer}
    {list : List String}
    (selected : Selected options today writer)
    (applied : writer.applyOptions list = .ok changed) :
    Selected options today changed := by
  unfold Writer.applyOptions at applied
  induction list generalizing writer with
  | nil => exact Except.ok.inj applied ▸ selected
  | cons option rest hypothesis =>
      rw [List.foldlM_cons] at applied
      cases result : writer.applyOption option with
      | error cause =>
          rw [result] at applied
          cases applied
      | ok middle =>
          rw [result] at applied
          exact hypothesis (selected.applyOption result) applied

/-- A writer made from options is selected by them. -/
theorem selected_of_ofOptions
    {options : Options}
    {today : String}
    {writer : Writer}
    (chosen : Writer.ofOptions options today = .ok writer) :
    Selected options today writer := by
  refine Selected.applyOptions ⟨rfl, ?_, ?_⟩ chosen
  · unfold start
    cases options.format <;> trivial
  · unfold start
    cases options.format <;> rfl

end Markup.Writer

namespace Page

open Markup

/-- A composed page starts with its header, which holds the only title. -/
theorem isPage_compose
    (context : Context)
    (pages : List ManualPage)
    (base : Nat)
    (title : Option String)
    (manualSection : String) :
    ∃ header body,
      IsPage context.options.embeddable header body
        (compose context pages base title manualSection).2 ∧
      header.name = title.getD (pages.getD base default).name ∧
      header.sourceFile = (pages.getD base default).sourceFile := by
  obtain ⟨header, names, terse, sections, calls, name, sourceFile, isSections⟩ :=
    compose_eq_sections context pages base title manualSection
  obtain ⟨named, named_eq⟩ : ∃ named, nameCalls names terse = .nameHeading :: named := ⟨_, rfl⟩
  have neutral : Neutral (.nameHeading :: named ++ sections) :=
    named_eq ▸ (neutral_nameCalls names terse).append isSections.neutral
  have ends : EndsLines (.nameHeading :: named ++ sections) :=
    named_eq ▸ (endsLines_nameCalls names terse).append isSections.endsLines
  refine ⟨header, named ++ sections, ⟨?_, neutral, ends⟩, name, sourceFile⟩
  rw [calls, named_eq]
  rfl

end Page

namespace Files

open Markup
open Page (Context compose)

variable {α β : Type} {context : Context} {today : String} {fresh : Writer}

/-! ## Pages on their own -/

/-- The calls of the page at an index of a run that does not group. -/
def pageCalls (context : Context) (pages : List ManualPage) (index : Nat) : List Call :=
  let page := pages.getD index default
  (compose context pages index (some page.name) (pageSection context.options page.objectKind)).2

/-- The text of a page that a writer writes first of all. -/
def pageText (context : Context) (fresh : Writer) (pages : List ManualPage) (index : Nat) :
    List Char :=
  (fresh.writeAll (pageCalls context pages index)).2

/-- The texts of all pages, each from a writer that has written no other. -/
def pageTexts (context : Context) (fresh : Writer) (pages : List ManualPage) :
    List (List Char) :=
  (List.range pages.length).map (pageText context fresh pages)

/-- The file of a page. -/
def pageFile (options : Options) (page : ManualPage) : Path :=
  let baseName := if options.useInputName then page.sourceBase.getD page.name else page.name
  pagePath options baseName page.objectKind (pageSection options page.objectKind)

/-- Writes a new file and the directories above it. -/
def createFile (path : Path) (text : List Char) : Publish Unit := do
  makeDirectoriesAbove path
  changeTree (.io path) fun tree => tree.write path (String.ofList text).toUTF8
  modify fun state =>
    { state with
      summary := { state.summary with generated := state.summary.generated ++ [path] } }

/-- Announces a file and removes an old one. -/
def clearFile (path : Path) : Publish Unit := do
  report ("generating: " ++ path.text)
  changeTree (.io path) fun tree => removeIfPresent tree path

/-- Puts the text of a page into its file. -/
def storePage (options : Options) (page : ManualPage) (text : List Char) : Publish Unit := do
  clearFile (pageFile options page)
  createFile (pageFile options page) text

/-- Puts texts into the files of their pages, until one fails. -/
def storePages (options : Options) : List (ManualPage × List Char) -> Publish Unit
  | [] => return ()
  | (page, text) :: rest => do
    storePage options page text
    storePages options rest

/-- A result of publishing with another writer. -/
def withWriter (writer : Writer) :
    EStateM.Result PublishError Publication α -> EStateM.Result PublishError Publication α
  | .ok value state => .ok value { state with writer }
  | .error error state => .error error { state with writer }

/-- No page and no source file has a name of several lines. -/
def OneLineNames (pages : List ManualPage) : Prop :=
  ∀ page ∈ pages, '\n' ∉ page.name.toList ∧ ∀ file ∈ page.sourceFile, '\n' ∉ file.toList

/-! ## One page -/

/-- The label of a page is one line. -/
theorem newline_not_mem_label
    {pages : List ManualPage}
    (oneLine : OneLineNames pages)
    {index : Nat}
    (bound : index < pages.length)
    {header : Header}
    (name : header.name = (pages.getD index default).name)
    (sourceFile : header.sourceFile = (pages.getD index default).sourceFile) :
    '\n' ∉ (Autodoc.label header).toList := by
  have member : pages.getD index default ∈ pages := by
    rw [List.getD_eq_getElem _ _ bound]
    exact List.getElem_mem bound
  obtain ⟨noNewline, noFileNewline⟩ := oneLine _ member
  rw [← name] at noNewline
  rw [← sourceFile] at noFileNewline
  unfold Autodoc.label
  split
  · rename_i file present
    have base : '\n' ∉ (baseName file).toList := by
      unfold baseName
      rw [String.toList_ofList]
      exact fun member => noFileNewline file present (Text.mem_of_mem_afterLast member)
    simp [base, noNewline]
  · exact noNewline

/-- The page at an index, as a resting writer writes it. -/
theorem writeAll_pageCalls
    {writer : Writer}
    {pages : List ManualPage}
    (selected : Writer.Selected context.options today fresh)
    (oneLine : OneLineNames pages)
    (rests : writer.RestsLike fresh)
    {index : Nat}
    (bound : index < pages.length) :
    writer.writeAll (pageCalls context pages index) =
        fresh.writeAll (pageCalls context pages index) ∧
      (fresh.writeAll (pageCalls context pages index)).1.taken.RestsLike fresh := by
  obtain ⟨header, body, isPage, name, sourceFile⟩ :=
    Page.isPage_compose context pages index (some (pages.getD index default).name)
      (pageSection context.options (pages.getD index default).objectKind)
  rw [← selected.embeddable] at isPage
  have label := newline_not_mem_label oneLine bound name sourceFile
  refine ⟨?_, Writer.restsLike_writeAll selected.isFresh isPage⟩
  unfold pageCalls
  dsimp only
  rw [isPage.calls_eq]
  exact rests.writeAll_eq label _

/-! ## Steps of publishing -/

theorem bind_run (step : Publish α) (next : α -> Publish β) (state : Publication) :
    (step >>= next) state =
      match step state with
      | .ok value after => next value after
      | .error error after => .error error after := by
  simp only [bind, EStateM.bind]
  cases step state <;> rfl

theorem discard_run (step : Publish α) (state : Publication) :
    discard step state =
      match step state with
      | .ok _ after => .ok () after
      | .error error after => .error error after := by
  simp only [discard, Functor.mapConst, EStateM.map, Function.comp, Function.const]
  cases step state <;> rfl

theorem get_bind_run (next : Publication -> Publish β) (state : Publication) :
    ((get : Publish Publication) >>= next) state = next state state := rfl

theorem modify_bind_run
    (change : Publication -> Publication)
    (next : Unit -> Publish β)
    (state : Publication) :
    ((modify change : Publish Unit) >>= next) state = next () (change state) := rfl

/-- Rendered calls are written by the writer, which goes on from there. -/
theorem render_bind_run
    (calls : List Call)
    (next : List Char -> Publish β)
    (state : Publication) :
    (render calls >>= next) state =
      next (state.writer.writeAll calls).2
        { state with writer := (state.writer.writeAll calls).1.taken } := rfl

/-- Pages that are not grouped stay as they are when they are composed. -/
theorem composePage_bind_run
    (ungrouped : context.options.groupTogether = false)
    (index : Nat)
    (title manualSection : String)
    (next : List Call -> Publish β)
    (state : Publication) :
    (composePage context index title manualSection >>= next) state =
      next (compose context state.pages index (some title) manualSection).2 state := by
  have kept : (compose context state.pages index (some title) manualSection).1 = state.pages :=
    if_neg (Bool.eq_false_iff.1 ungrouped)
  change next (compose context state.pages index (some title) manualSection).2
    { state with pages := (compose context state.pages index (some title) manualSection).1 } = _
  rw [kept]

/-! ## Standard output -/

/-- What one page adds to standard output: its text from a fresh writer, and a form feed
if another page follows. -/
theorem writeAll_divided
    {writer : Writer}
    {pages : List ManualPage}
    (selected : Writer.Selected context.options today fresh)
    (oneLine : OneLineNames pages)
    (rests : writer.RestsLike fresh)
    {index : Nat}
    (bound : index < pages.length)
    (divided : Prop)
    [Decidable divided] :
    let written := writer.writeAll
      (pageCalls context pages index ++ if divided then [Call.character '\x0c'] else [])
    written.1.taken.RestsLike fresh ∧
      written.2 = pageText context fresh pages index ++
        if divided then pageSeparator fresh.memory.format else [] := by
  obtain ⟨same, again⟩ := writeAll_pageCalls selected oneLine rests bound
  dsimp only
  split
  · obtain ⟨after, separator⟩ := Writer.write_formFeed selected.isFresh again
    rw [Writer.writeAll_concat, same, separator]
    exact ⟨after, rfl⟩
  · rw [List.append_nil, List.append_nil, same]
    exact ⟨again, rfl⟩

/-- A page that goes to standard output: its text from a fresh writer, and a form feed if
another page follows. -/
theorem publishPage_stdout
    (ungrouped : context.options.groupTogether = false)
    (toStdout : context.options.toStdout = true)
    (selected : Writer.Selected context.options today fresh)
    {index : Nat}
    (state : Publication)
    (oneLine : OneLineNames state.pages)
    (bound : index < state.pages.length)
    (rests : state.writer.RestsLike fresh) :
    ∃ writer, writer.RestsLike fresh ∧
      publishPage context index state =
        .ok none { state with
          writer
          stdout := state.stdout ++ (pageText context fresh state.pages index ++
            if index + 1 < state.pages.length then pageSeparator fresh.memory.format
            else []) } := by
  obtain ⟨again, text⟩ :=
    writeAll_divided selected oneLine rests bound (index + 1 < state.pages.length)
  refine ⟨_, again, ?_⟩
  unfold publishPage
  simp only [toStdout, if_true, get_bind_run]
  rw [composePage_bind_run ungrouped, render_bind_run, modify_bind_run, ← text]
  simp only [ungrouped, Bool.not_false, Bool.true_and, decide_eq_true_eq]
  rfl

/-- The pages from an index on, on standard output. -/
theorem publishFrom_stdout
    (ungrouped : context.options.groupTogether = false)
    (toStdout : context.options.toStdout = true)
    (selected : Writer.Selected context.options today fresh)
    (count index : Nat)
    (state : Publication)
    (oneLine : OneLineNames state.pages)
    (covered : index + count = state.pages.length)
    (rests : state.writer.RestsLike fresh) :
    ∃ writer, publishFrom context count index state =
      .ok () { state with
        writer
        stdout := state.stdout ++ (pageSeparator fresh.memory.format).intercalate
          ((List.range' index count).map (pageText context fresh state.pages)) } := by
  induction count generalizing index state with
  | zero => exact ⟨state.writer, by simp [publishFrom, pure, EStateM.pure, List.intercalate]⟩
  | succ count hypothesis =>
      obtain ⟨between, again, first⟩ :=
        publishPage_stdout ungrouped toStdout selected state oneLine
          (by omega : index < state.pages.length) rests
      have further : index + 1 < state.pages.length ↔ 0 < count := by omega
      obtain ⟨writer, others⟩ := hypothesis (index + 1)
        { state with
          writer := between
          stdout := state.stdout ++ (pageText context fresh state.pages index ++
            if index + 1 < state.pages.length then pageSeparator fresh.memory.format else []) }
        oneLine (by omega : index + 1 + count = state.pages.length) again
      refine ⟨writer, ?_⟩
      rw [publishFrom, bind_run, discard_run, first]
      refine others.trans ?_
      rw [List.range'_succ, List.map_cons, intercalate_cons_ite, List.length_map,
        List.length_range']
      simp only [further, List.append_assoc]

/-! ## Files -/

/-- A result of publishing with other pages. -/
def withPages (pages : List ManualPage) :
    EStateM.Result PublishError Publication α -> EStateM.Result PublishError Publication α
  | .ok value state => .ok value { state with pages }
  | .error error state => .error error { state with pages }

/-- A step that neither looks at the writer and the pages nor changes them. -/
def Blind (step : Publish α) : Prop :=
  ∀ writer pages state,
    step { state with writer, pages } = withWriter writer (withPages pages (step state))

namespace Blind

theorem bind
    {step : Publish α}
    {next : α -> Publish β}
    (first : Blind step)
    (second : ∀ value, Blind (next value)) :
    Blind (step >>= next) := by
  intro writer pages state
  rw [bind_run, bind_run, first]
  cases step state with
  | ok value after => exact second value writer pages after
  | error error after => rfl

/-- What a blind step reaches has the pages that were there before. -/
theorem withPages_run {step : Publish α} (blind : Blind step) (state : Publication) :
    withPages state.pages (step state) = step state := by
  have kept := blind state.writer state.pages state
  change step state = _ at kept
  rw [kept]
  cases step state <;> rfl

/-- A blind step leaves the pages as they are. -/
theorem pages_eq
    {step : Publish α}
    (blind : Blind step)
    {state after : Publication}
    {value : α}
    (ran : step state = .ok value after) :
    after.pages = state.pages := by
  have kept := blind.withPages_run state
  rw [ran] at kept
  rw [← (EStateM.Result.ok.inj kept).2]

/-- A blind step runs alike with any writer. -/
theorem withWriter_run
    {step : Publish α}
    (blind : Blind step)
    (writer : Writer)
    (state : Publication) :
    step { state with writer } = withWriter writer (step state) := by
  have changed := blind writer state.pages state
  rw [blind.withPages_run] at changed
  exact changed

theorem changeTree (wrap : OsError -> PublishError) (change : Tree -> Except OsError Tree) :
    Blind (changeTree wrap change) := by
  intro writer pages state
  unfold Files.changeTree
  rw [get_bind_run, get_bind_run]
  cases change state.tree <;> rfl

theorem report (line : String) : Blind (report line) := fun _ _ _ => rfl

theorem makeDirectoriesAbove (path : Path) : Blind (makeDirectoriesAbove path) := by
  intro writer pages state
  unfold Files.makeDirectoriesAbove
  rw [get_bind_run, get_bind_run]
  dsimp only
  rw [modify_bind_run, modify_bind_run]
  cases (state.tree.ensureDirectories path.isAbsolute (path.parentParts?.getD [])).2 <;> rfl

theorem createFile (path : Path) (text : List Char) : Blind (createFile path text) :=
  .bind (.makeDirectoriesAbove path) fun _ => .bind (.changeTree _ _) fun _ _ _ _ => rfl

theorem clearFile (path : Path) : Blind (clearFile path) :=
  .bind (.report _) fun _ => .changeTree _ _

theorem storePage (options : Options) (page : ManualPage) (text : List Char) :
    Blind (storePage options page text) :=
  .bind (.clearFile _) fun _ => .createFile _ _

theorem storePages (options : Options) (items : List (ManualPage × List Char)) :
    Blind (storePages options items) := by
  induction items with
  | nil => exact fun _ _ _ => rfl
  | cons item rest hypothesis => exact .bind (.storePage options item.1 item.2) fun _ => hypothesis

end Blind

/-- Clearing a file reports that it is generated and removes what stands at its path. -/
theorem clearFile_run (path : Path) (state : Publication) :
    clearFile path state =
      let reported := { state with progress := state.progress ++ ["generating: " ++ path.text] }
      match removeIfPresent state.tree path with
      | .ok tree => .ok () { reported with tree }
      | .error cause => .error (.io path cause) reported := by
  unfold clearFile changeTree report
  rw [modify_bind_run, get_bind_run]
  dsimp only
  cases removeIfPresent state.tree path <;> rfl

/-- A file is created after the directories above it, or the error is given back. -/
theorem createFile_run (path : Path) (text : List Char) (state : Publication) :
    createFile path text state =
      match state.tree.ensureDirectories path.isAbsolute (path.parentParts?.getD []) with
      | (grown, some cause) => .error (.io path cause) { state with tree := grown }
      | (grown, none) =>
        match grown.write path (String.ofList text).toUTF8 with
        | .ok tree =>
          .ok () { state with
            tree
            summary := { state.summary with generated := state.summary.generated ++ [path] } }
        | .error cause => .error (.io path cause) { state with tree := grown } := by
  unfold createFile makeDirectoriesAbove changeTree
  rw [bind_run, get_bind_run]
  dsimp only
  rw [modify_bind_run]
  obtain ⟨grown, error?⟩ :=
    state.tree.ensureDirectories path.isAbsolute (path.parentParts?.getD [])
  cases error? with
  | some cause => rfl
  | none =>
      dsimp only [pure, EStateM.pure]
      rw [bind_run, get_bind_run]
      dsimp only
      cases grown.write path (String.ofList text).toUTF8 <;> rfl

/-- A page that goes into a file is composed once its file is cleared, and stored then. -/
theorem publishPage_run_file
    (ungrouped : context.options.groupTogether = false)
    (toFile : context.options.toStdout = false)
    (index : Nat)
    (state : Publication) :
    publishPage context index state =
      let page := state.pages.getD index default
      let path := pageFile context.options page
      (do
        clearFile path
        let calls ← composePage context index page.name
          (pageSection context.options page.objectKind)
        let text ← render calls
        createFile path text
        return some path : Publish (Option Path)) state := by
  unfold publishPage clearFile createFile
  simp only [toFile, ungrouped, Bool.false_eq_true, if_false, get_bind_run, bind_assoc]
  rfl

/-- A page that goes to a file is stored with its text from a fresh writer. -/
theorem publishPage_file
    (ungrouped : context.options.groupTogether = false)
    (toFile : context.options.toStdout = false)
    (selected : Writer.Selected context.options today fresh)
    {index : Nat}
    (state : Publication)
    (oneLine : OneLineNames state.pages)
    (bound : index < state.pages.length)
    (rests : state.writer.RestsLike fresh) :
    ∃ writer, writer.RestsLike fresh ∧
      discard (publishPage context index) state =
        withWriter writer (storePage context.options (state.pages.getD index default)
          (pageText context fresh state.pages index) state) := by
  obtain ⟨same, again⟩ := writeAll_pageCalls selected oneLine rests bound
  rw [discard_run, publishPage_run_file ungrouped toFile, storePage, bind_run, bind_run,
    clearFile_run]
  cases removeIfPresent state.tree (pageFile context.options (state.pages.getD index default)) with
  | error cause => exact ⟨state.writer, rests, rfl⟩
  | ok tree =>
      refine ⟨_, again, ?_⟩
      dsimp only
      rw [composePage_bind_run ungrouped, render_bind_run, bind_run,
        ← (Blind.createFile _ _).withWriter_run, pageText, ← same]
      simp only [pageCalls]
      cases createFile _ _ _ <;> rfl

/-- The pages from an index on, each in its file. -/
theorem publishFrom_file
    (ungrouped : context.options.groupTogether = false)
    (toFile : context.options.toStdout = false)
    (selected : Writer.Selected context.options today fresh)
    (count index : Nat)
    (state : Publication)
    (oneLine : OneLineNames state.pages)
    (covered : index + count = state.pages.length)
    (rests : state.writer.RestsLike fresh) :
    ∃ writer, publishFrom context count index state =
      withWriter writer (storePages context.options
        ((List.range' index count).map fun each =>
          (state.pages.getD each default, pageText context fresh state.pages each)) state) := by
  induction count generalizing index state with
  | zero => exact ⟨state.writer, rfl⟩
  | succ count hypothesis =>
      obtain ⟨between, again, first⟩ :=
        publishPage_file ungrouped toFile selected state oneLine
          (by omega : index < state.pages.length) rests
      rw [publishFrom, bind_run, first, List.range'_succ, List.map_cons, storePages, bind_run]
      cases stored : storePage context.options (state.pages.getD index default)
          (pageText context fresh state.pages index) state with
      | error error after => exact ⟨between, rfl⟩
      | ok _ after =>
          have pages_eq := (Blind.storePage _ _ _).pages_eq stored
          obtain ⟨writer, others⟩ := hypothesis (index + 1) { after with writer := between }
            (pages_eq ▸ oneLine) (by rw [pages_eq]; omega) again
          refine ⟨writer, others.trans ?_⟩
          dsimp only
          rw [(Blind.storePages _ _).withWriter_run, pages_eq]
          cases storePages _ _ after <;> rfl

/-! ## Whole runs -/

/-- Pages are published one after another from the first. -/
theorem publishPages_run
    (ungrouped : context.options.groupTogether = false)
    (chosen : Writer.ofOptions context.options today = .ok fresh)
    (state : Publication) :
    publishPages context today state =
      publishFrom context state.pages.length 0 { state with writer := fresh } := by
  unfold publishPages publishAll
  rw [chosen]
  dsimp only
  rw [modify_bind_run, get_bind_run, ungrouped]
  rfl

/-- In autodoc no page has a form feed but the one that ends its file. -/
theorem pageText_autodoc
    (selected : Writer.Selected context.options today fresh)
    (autodoc : fresh.memory.format = .autodoc)
    (pages : List ManualPage)
    (index : Nat) :
    ∃ body, '\x0c' ∉ body ∧
      pageText context fresh pages index =
        body ++ if context.options.embeddable then [] else ['\x0c'] := by
  obtain ⟨header, body, isPage, -, -⟩ :=
    Page.isPage_compose context pages index (some (pages.getD index default).name)
      (pageSection context.options (pages.getD index default).objectKind)
  obtain ⟨settings, memory⟩ := fresh
  cases memory with
  | autodoc state =>
      obtain ⟨-, notEnded, noFeed⟩ := Autodoc.writeCalls_opening_rests settings header
        isPage.neutral.inside isPage.endsLines state
      refine ⟨_, noFeed, ?_⟩
      unfold pageText pageCalls
      rw [Autodoc.writeAll_eq, isPage.calls_eq, Autodoc.writeCalls_append]
      cases context.options.embeddable with
      | true => rfl
      | false =>
          simp only [Bool.false_eq_true, if_false]
          rw [Autodoc.writeCalls_fileEnd, notEnded]
          rfl
  | _ => cases autodoc

/-- The pages with their texts are the pages in order, each with its own text. -/
theorem zip_pageTexts
    (context : Context)
    (fresh : Writer)
    (pages : List ManualPage) :
    (List.range' 0 pages.length).map
        (fun index => (pages.getD index default, pageText context fresh pages index)) =
      pages.zip (pageTexts context fresh pages) := by
  apply List.ext_getElem
  · simp [pageTexts]
  · intro index first second
    have bound : index < pages.length := by simpa using first
    simp [pageTexts, bound]

/-- Pages do not leak into each other.  Where pages are not grouped, every page comes out
as a fresh writer would write it.  Standard output holds these texts with a form feed
between them, or in autodoc without one; otherwise the run does to the tree, to the
report and to the summary what storing these texts one after another does, and it fails
where that fails.  In autodoc a page has no form feed but the one at its end, which an
embedded page does not have. -/
theorem publishPages_isolated
    {tree : Tree}
    {pages : List ManualPage}
    (ungrouped : context.options.groupTogether = false)
    (chosen : Writer.ofOptions context.options today = .ok fresh)
    (oneLine : OneLineNames pages) :
    (context.options.toStdout = true ->
      ∃ writer, publishPages context today { tree, pages } =
        .ok () { tree, pages, writer, stdout :=
          (pageSeparator context.options.format).intercalate (pageTexts context fresh pages) }) ∧
    (context.options.toStdout = false ->
      ∃ writer, publishPages context today { tree, pages } =
        withWriter writer (storePages context.options
          (pages.zip (pageTexts context fresh pages)) { tree, pages })) ∧
    (context.options.format = .autodoc ->
      ∀ text ∈ pageTexts context fresh pages, ∃ body, '\x0c' ∉ body ∧
        text = body ++ if context.options.embeddable then [] else ['\x0c']) := by
  have selected := Writer.selected_of_ofOptions chosen
  have rests : fresh.RestsLike fresh := ⟨rfl, .same _⟩
  rw [publishPages_run ungrouped chosen]
  refine ⟨fun toStdout => ?_, fun toFile => ?_, fun autodoc => ?_⟩
  · obtain ⟨writer, published⟩ := publishFrom_stdout ungrouped toStdout selected
      pages.length 0 { tree, pages, writer := fresh } oneLine (Nat.zero_add _) rests
    refine ⟨writer, published.trans ?_⟩
    rw [selected.format, ← List.range_eq_range']
    rfl
  · obtain ⟨writer, published⟩ := publishFrom_file ungrouped toFile selected
      pages.length 0 { tree, pages, writer := fresh } oneLine (Nat.zero_add _) rests
    refine ⟨writer, published.trans ?_⟩
    have stored := (Blind.storePages context.options
      (pages.zip (pageTexts context fresh pages))).withWriter_run fresh { tree, pages }
    rw [zip_pageTexts, stored]
    cases storePages context.options (pages.zip (pageTexts context fresh pages))
      { tree, pages } <;> rfl
  · intro text member
    obtain ⟨index, -, rfl⟩ := List.mem_map.1 member
    exact pageText_autodoc selected (selected.format.trans autodoc) pages index

/-- Two functions of one file, of which the second page starts where the first has left
the writer in the middle of its cross-references. -/
theorem publishPages_isolated_two :
    let page (name : String) : ManualPage :=
      { spec := { text := some "int" }
        declarator :=
          { Decl.Declarator.identifier name with comment := some "Counts.", kind := .function }
        sourceFile := some "src/count.c" }
    let pages := [page "next", page "reset"]
    let context : Context :=
      { options := { format := .autodoc, outputDir := some "-" }, enums := {} }
    let fresh := Writer.start .autodoc (Settings.ofOptions context.options "Jan 1 2000")
    context.options.groupTogether = false ∧
      Writer.ofOptions context.options "Jan 1 2000" = .ok fresh ∧
      OneLineNames pages ∧
      context.options.toStdout = true ∧
      ∃ writer, publishPages context "Jan 1 2000" { pages } =
        .ok () { pages, writer, stdout := [].intercalate (pageTexts context fresh pages) } := by
  intro page pages context fresh
  have oneLine : OneLineNames pages := by
    have file : ∀ file ∈ some "src/count.c", '\n' ∉ file.toList := by
      rintro _ ⟨⟩
      decide
    intro each member
    simp only [pages, List.mem_cons, List.not_mem_nil, or_false] at member
    rcases member with rfl | rfl
    · exact ⟨by decide, file⟩
    · exact ⟨by decide, file⟩
  exact ⟨rfl, rfl, oneLine, by decide, (publishPages_isolated rfl rfl oneLine).1 (by decide)⟩

end Files
end DeclManual
