import DeclManual.Proofs.Files.Storing

/-!
# Grouping pages where they can be stored one by one

A run that groups its pages is compared with one that stores them one by one.  Step by
step its tree has no more than the other one, so that a path can be cleared in it
wherever the other run could store a file.  Links and stubs take the directory that
they stand in: storing a file makes it, and linking does not.
-/

namespace DeclManual

namespace Markup.Writer

/-! ## Options of a format

Which options a format takes does not depend on the settings of the run. -/

theorem applyOption_withSettings (writer : Writer) (settings : Settings) (option : String) :
    ({ writer with settings } : Writer).applyOption option =
      (writer.applyOption option).map fun changed => { changed with settings } := by
  unfold applyOption
  cases writer.memory with
  | texinfo state =>
      dsimp only
      split
      · rfl
      · rfl
      · rfl
      · split <;> rfl
      · rfl
  | _ => rfl

theorem applyOptions_withSettings
    (writer : Writer)
    (settings : Settings)
    (list : List String) :
    ({ writer with settings } : Writer).applyOptions list =
      (writer.applyOptions list).map fun changed => { changed with settings } := by
  unfold applyOptions
  induction list generalizing writer with
  | nil => rfl
  | cons option rest hypothesis =>
      rw [List.foldlM_cons, List.foldlM_cons, applyOption_withSettings]
      cases writer.applyOption option with
      | error cause => rfl
      | ok changed => exact hypothesis changed

end Markup.Writer

namespace Files
namespace Tree

variable
  {tree other before after cleared : Tree}
  {shunned : List String}
  {links : Nat}
  {here directory location : Location}
  {path target : Path}
  {name : String}
  {names : List String}
  {data : FileData}

/-! ## Trees that have less -/

/-- A tree that has no more than another: nothing stands where the other has nothing, its
directories and those symbolic links that are not shunned are the other's, and a directory
of the other can be missing. -/
structure Under (shunned : List String) (tree other : Tree) : Prop where
  directory : ∀ location, tree.entryAt? location = some .directory ->
    other.entryAt? location = some .directory
  made : ∀ location, other.entryAt? location = some .directory ->
    tree.entryAt? location = some .directory ∨ tree.entryAt? location = none
  absent : ∀ location, other.entryAt? location = none -> tree.entryAt? location = none
  symlink : ∀ here name target, name ∉ shunned ->
    other.entryAt? (here ++ [name]) = some (.symlink target) ->
    tree.entryAt? (here ++ [name]) = some (.symlink target)
  workingDirectory : tree.workingDirectory = other.workingDirectory

/-- Two trees with the same entries are under each other. -/
theorem under_of_entries
    (entries : ∀ location, tree.entryAt? location = other.entryAt? location)
    (workingDirectory : tree.workingDirectory = other.workingDirectory) :
    Under shunned tree other where
  directory location stands := by rwa [← entries]
  made location stands := .inl (by rwa [entries])
  absent location stands := by rwa [entries]
  symlink here name target _ stands := by rwa [entries]
  workingDirectory := workingDirectory

/-- A tree stays under another in which a file is stored. -/
theorem Under.of_stores
    (under : Under shunned tree before)
    (stores : Stores shunned path directory name data before after) :
    Under shunned tree after where
  directory location stands := stores.keepsDirectories _ (under.directory location stands)
  made location stands := by
    have elsewhere : location ≠ directory ++ [name] := by
      rintro rfl
      cases stores.isFile.symm.trans stands
    rcases stores.others location elsewhere with kept | ⟨absent, -⟩
    · exact under.made location (kept ▸ stands)
    · exact .inr (under.absent location absent)
  absent location absent := by
    have elsewhere : location ≠ directory ++ [name] := by
      rintro rfl
      cases stores.isFile.symm.trans absent
    rcases stores.others location elsewhere with kept | ⟨-, made⟩
    · exact under.absent location (kept ▸ absent)
    · cases made.symm.trans absent
  symlink here name target unshunned stands :=
    under.symlink here name target unshunned (stores.symlinks _ target stands)
  workingDirectory := under.workingDirectory.trans stores.workingDirectory.symm

/-- A way of the other tree is one of the tree under it, or it ends where a directory is
missing. -/
theorem Under.passes_or_absent
    (under : Under shunned tree other)
    (passes : Passes other shunned links here names directory)
    (name : String) :
    Passes tree shunned links here names directory ∨
      tree.resolveFrom false links here (names ++ [name]) = .error .notFound := by
  induction passes with
  | done => exact .inl .done
  | stay _ hypothesis =>
      rw [List.cons_append, resolveFrom_here]
      exact hypothesis.imp_left .stay
  | up _ hypothesis =>
      rw [List.cons_append, resolveFrom_above]
      exact hypothesis.imp_left .up
  | @down _ here _ first rest isName isDirectory _ hypothesis =>
      rw [List.cons_append, resolveFrom_name isName]
      rcases under.made _ isDirectory with stands | absent
      · rw [stands]
        exact hypothesis.imp_left (.down isName stands)
      · rw [absent]
        exact .inr (if_neg (by simp))
  | @follow _ here _ first target rest isName unshunned isLink _ hypothesis =>
      have stands := under.symlink here first target unshunned isLink
      have notLast : (rest ++ [name]).isEmpty = false := by simp
      rw [List.cons_append, resolveFrom_name isName, stands]
      simp only [notLast, Bool.false_and, Bool.false_eq_true, if_false]
      rw [← List.append_assoc]
      exact hypothesis.imp_left (.follow isName unshunned stands)

/-! ## Replacing one entry -/

/-- A tree that differs from another at one location, where neither has a directory, and may
have more files. -/
structure Replaces (before : Tree) (location : Location) (after : Tree) : Prop where
  wasNoDirectory : before.entryAt? location ≠ some .directory
  isNoDirectory : after.entryAt? location ≠ some .directory
  others : ∀ other, other ≠ location -> after.entryAt? other = before.entryAt? other
  files : before.files <+: after.files
  workingDirectory : after.workingDirectory = before.workingDirectory

namespace Replaces

theorem refl (noDirectory : tree.entryAt? location ≠ some .directory) :
    Replaces tree location tree :=
  ⟨noDirectory, noDirectory, fun _ _ => rfl, List.prefix_rfl, rfl⟩

theorem of_clears (clears : Clears before location after) : Replaces before location after where
  wasNoDirectory := clears.noDirectory
  isNoDirectory := by simp [clears.absent]
  others := clears.others
  files := by rw [clears.files]
  workingDirectory := clears.workingDirectory

theorem put
    {entry : Entry}
    (absent : tree.entryAt? (directory ++ [name]) = none)
    (noDirectory : entry ≠ .directory) :
    Replaces tree (directory ++ [name]) (tree.put (directory ++ [name]) entry) where
  wasNoDirectory := by simp [absent]
  isNoDirectory := by simpa [entryAt?_put_self tree] using noDirectory
  others _ elsewhere := entryAt?_put_of_ne tree entry elsewhere
  files := List.prefix_rfl
  workingDirectory := rfl

theorem create
    (absent : tree.entryAt? (directory ++ [name]) = none)
    (data : FileData) :
    Replaces tree (directory ++ [name]) (tree.create (directory ++ [name]) data) where
  wasNoDirectory := by simp [absent]
  isNoDirectory := (put absent Entry.noConfusion).isNoDirectory
  others := (put absent Entry.noConfusion).others
  files := List.prefix_append _ _
  workingDirectory := rfl

section

variable
  (replaces : Replaces before (directory ++ [name]) after)
  (isShunned : name ∈ shunned)
include replaces

theorem start_eq (path : Path) : after.start path = before.start path := by
  rw [start, start, replaces.workingDirectory]

include isShunned

/-- A way leads where it did when the entry at a shunned name is replaced. -/
theorem passes
    {end_ : Location}
    (passes : Passes before shunned links here names end_) :
    Passes after shunned links here names end_ := by
  refine passes.mono (fun location isDirectory => ?_) fun there last target unshunned isLink => ?_
  · rw [replaces.others location, isDirectory]
    rintro rfl
    exact replaces.wasNoDirectory isDirectory
  · rw [replaces.others, isLink]
    intro same
    obtain ⟨-, rfl⟩ : there = directory ∧ last = name := by simpa using same
    exact unshunned isShunned

theorem holds
    {otherName : String}
    (distinct : otherName ≠ name)
    (holds : Holds shunned path otherName data before) :
    Holds shunned path otherName data after := by
  refine holds.mono (fun passes => ?_) (fun there number isFile => ?_) replaces.files
  · rw [replaces.start_eq]
    exact replaces.passes isShunned passes
  · rw [replaces.others _ (by simp [distinct]), isFile]

/-- A tree stays under another that has a file at the location. -/
theorem under
    {number : Nat}
    (isFile : other.entryAt? (directory ++ [name]) = some (.file number))
    (under : Under shunned before other) :
    Under shunned after other where
  directory location stands := by
    by_cases same : location = directory ++ [name]
    · exact absurd (same ▸ stands) replaces.isNoDirectory
    · exact under.directory location (replaces.others location same ▸ stands)
  made location stands := by
    rw [replaces.others]
    · exact under.made location stands
    · rintro rfl
      cases isFile.symm.trans stands
  absent location absent := by
    rw [replaces.others]
    · exact under.absent location absent
    · rintro rfl
      cases isFile.symm.trans absent
  symlink there last target unshunned stands := by
    rw [replaces.others]
    · exact under.symlink there last target unshunned stands
    · intro same
      obtain ⟨-, rfl⟩ : there = directory ∧ last = name := by simpa using same
      exact unshunned isShunned
  workingDirectory := replaces.workingDirectory.trans under.workingDirectory

end

end Replaces

/-- What stands at a path can be removed where a tree with more has a file there.  The path
is vacant after that if it has a way. -/
theorem Under.exists_removed
    {number : Nat}
    (under : Under shunned tree other)
    (path_eq : path.names = path.way ++ [name])
    (isName : IsName name)
    (passes : Passes other shunned linkLimit (other.start path) path.way directory)
    (isFile : other.entryAt? (directory ++ [name]) = some (.file number)) :
    ∃ cleared, removeIfPresent tree path = .ok cleared ∧
      Replaces tree (directory ++ [name]) cleared ∧
      ∀ {end_}, Passes tree shunned linkLimit (tree.start path) path.way end_ ->
        Passes tree shunned linkLimit (tree.start path) path.way directory ∧
          cleared.entryAt? (directory ++ [name]) = none := by
  have sameStart : other.start path = tree.start path := by
    rw [start, start, under.workingDirectory]
  have noDirectory : tree.entryAt? (directory ++ [name]) ≠ some .directory := by
    intro isDirectory
    cases isFile.symm.trans (under.directory _ isDirectory)
  rw [sameStart] at passes
  rcases under.passes_or_absent passes name with found | absent
  · obtain ⟨cleared, removed, clears⟩ := found.exists_clears path_eq isName noDirectory
    exact ⟨cleared, removed, .of_clears clears, fun _ => ⟨found, clears.absent⟩⟩
  · refine ⟨tree, ?_, .refl noDirectory, fun way => ?_⟩
    · rw [removeIfPresent, remove, resolve_eq_way path_eq, absent]
    · cases absent.symm.trans (way.resolveFrom_false isName)

/-- A way starts with ways. -/
theorem Passes.exists_append
    {rest : List String}
    (passes : Passes tree shunned links here (names ++ rest) directory) :
    ∃ middle, Passes tree shunned links here names middle := by
  generalize whole : names ++ rest = all at passes
  induction passes generalizing names with
  | @done _ here =>
      obtain ⟨rfl, -⟩ := List.append_eq_nil_iff.1 whole
      exact ⟨here, .done⟩
  | @stay _ here _ _ _ hypothesis =>
      cases names with
      | nil => exact ⟨here, .done⟩
      | cons first others =>
          obtain ⟨rfl, rest_eq⟩ := List.cons.inj whole
          obtain ⟨middle, passes⟩ := hypothesis rest_eq
          exact ⟨middle, .stay passes⟩
  | @up _ here _ _ _ hypothesis =>
      cases names with
      | nil => exact ⟨here, .done⟩
      | cons first others =>
          obtain ⟨rfl, rest_eq⟩ := List.cons.inj whole
          obtain ⟨middle, passes⟩ := hypothesis rest_eq
          exact ⟨middle, .up passes⟩
  | @down _ here _ _ _ isName isDirectory _ hypothesis =>
      cases names with
      | nil => exact ⟨here, .done⟩
      | cons first others =>
          obtain ⟨rfl, rest_eq⟩ := List.cons.inj whole
          obtain ⟨middle, passes⟩ := hypothesis rest_eq
          exact ⟨middle, .down isName isDirectory passes⟩
  | @follow _ here _ _ _ _ isName unshunned isLink _ hypothesis =>
      cases names with
      | nil => exact ⟨here, .done⟩
      | cons first others =>
          obtain ⟨rfl, rfl⟩ := List.cons.inj whole
          obtain ⟨middle, passes⟩ := hypothesis (List.append_assoc _ _ _)
          exact ⟨middle, .follow isName unshunned isLink passes⟩

/-- Whether a file can be written does not depend on what it is to hold, nor does where it
stands. -/
theorem exists_write
    {bytes : ByteArray}
    (ok : tree.write path bytes = .ok after)
    (others : ByteArray) :
    ∃ written, tree.write path others = .ok written ∧
      (∀ location, written.entryAt? location = after.entryAt? location) ∧
      written.workingDirectory = after.workingDirectory := by
  unfold write at ok ⊢
  split at ok
  · cases ok
  · rename_i noSlash
    rw [if_neg noSlash]
    split at ok
    · cases ok
    · obtain rfl := Except.ok.inj ok
      exact ⟨_, rfl, fun _ => rfl, rfl⟩
    · obtain rfl := Except.ok.inj ok
      exact ⟨_, rfl, fun _ => rfl, rfl⟩
    · cases ok

end Tree

open Markup
open Page (Context compose)

variable
  {context : Context}
  {options : Options}
  {today : String}
  {writer : Writer}
  {tree : Tree}
  {pages : List ManualPage}
  {first page : ManualPage}
  {data : FileData}
  {index : Nat}
  {state after : Publication}

/-! ## Steps that succeed -/

theorem changeTree_run
    {wrap : OsError -> PublishError}
    {change : Tree -> Except OsError Tree}
    (changed : change state.tree = .ok tree) :
    changeTree wrap change state = .ok () { state with tree } := by
  unfold changeTree
  rw [get_bind_run, changed]
  rfl

section

variable
  {shunned : List String}
  {target link : Path}
  {targetName name : String}
  {directory : Location}

/-- A link or a stub can be made at a vacant path, if the target is a file. -/
theorem makeLink_succeeds
    (holds : state.tree.Holds shunned target targetName data)
    (target_eq : target.names = target.way ++ [targetName])
    (link_eq : link.names = link.way ++ [name])
    (noSlash : link.endsWithSlash = false)
    (isName : Tree.IsName name)
    (passes : state.tree.Passes shunned linkLimit (state.tree.start link) link.way directory)
    (absent : state.tree.entryAt? (directory ++ [name]) = none) :
    ∃ after, makeLink options target link state = .ok () after ∧
      state.tree.Replaces (directory ++ [name]) after.tree := by
  have vacant : state.tree.resolve false link = .ok (.vacant directory name) := by
    rw [Tree.resolve_eq_way link_eq, passes.resolveFrom_false isName, Tree.spot, absent]
  unfold makeLink
  cases options.linkPolicy with
  | hard =>
      obtain ⟨there, number, way, isFile, -⟩ := holds.found
      have existing : state.tree.resolve false target =
          .ok (.taken (there ++ [targetName]) (.file number)) := by
        rw [Tree.resolve_eq_way target_eq, way.resolveFrom_false holds.isName, Tree.spot, isFile]
      have linked : state.tree.hardLink target link =
          .ok (state.tree.put (directory ++ [name]) (.file number)) := by
        rw [Tree.hardLink, existing, vacant]
        rfl
      exact ⟨_, changeTree_run linked, .put absent Entry.noConfusion⟩
  | soft =>
      have linked : state.tree.symbolicLink (symlinkTarget target link) link =
          .ok (state.tree.put (directory ++ [name]) (.symlink (symlinkTarget target link))) := by
        rw [Tree.symbolicLink, vacant]
      exact ⟨_, changeTree_run linked, .put absent Entry.noConfusion⟩
  | file =>
      have opened := passes.resolveFrom_true isName (by simp [absent])
      rw [← Tree.resolve_eq_way link_eq, Tree.spot, absent] at opened
      dsimp only
      rw [render_bind_run]
      have written (bytes : ByteArray) : state.tree.write link bytes =
          .ok (state.tree.create (directory ++ [name]) { bytes }) := by
        rw [Tree.write, noSlash, opened]
        rfl
      exact ⟨_, changeTree_run (written _), .create absent _⟩
  | none => exact ⟨state, rfl, .refl (by simp [absent])⟩
  | remove => exact ⟨state, rfl, .refl (by simp [absent])⟩

/-- A page that has the path of the target needs no link. -/
theorem linkPage_same (same : (namePath options page).same target = true) :
    linkPage options target page state = .ok () state := by
  unfold linkPage
  dsimp only
  rw [if_pos]
  · rfl
  · exact same

/-- Linking a page succeeds if its old file can be removed and a link be made. -/
theorem linkPage_succeeds
    {cleared : Tree}
    (apart : (namePath options page).same target = false)
    (removed : removeIfPresent state.tree (namePath options page) = .ok cleared)
    (links : ∀ state : Publication, state.tree = cleared ->
      ∃ after, makeLink options target (namePath options page) state = .ok () after ∧
        cleared.Replaces (directory ++ [name]) after.tree) :
    ∃ after, linkPage options target page state = .ok () after ∧
      cleared.Replaces (directory ++ [name]) after.tree := by
  let line := (if options.linkPolicy == .remove then "removing: " else "linking: ") ++
    (namePath options page).text
  have steps : linkPage options target page state =
      (do
        report line
        changeTree (.io (namePath options page)) fun tree =>
          removeIfPresent tree (namePath options page)
        makeLink options target (namePath options page)
        modify fun state =>
          { state with
            summary :=
              if options.linkPolicy == .remove then
                { state.summary with
                  removed := state.summary.removed ++ [namePath options page] }
              else
                { state.summary with
                  linked := state.summary.linked ++ [namePath options page] } } :
        Publish Unit) state := by
    unfold linkPage
    dsimp only
    rw [if_neg]
    · rfl
    · exact Bool.eq_false_iff.1 apart
  obtain ⟨after, linked, replaces⟩ :=
    links { state with progress := state.progress ++ [line], tree := cleared } rfl
  rw [steps, report, modify_bind_run, bind_run, changeTree_run removed]
  dsimp only
  rw [bind_run, linked]
  exact ⟨_, rfl, replaces⟩

end

/-! ## A run of linking beside a run of storing -/

/-- The trees of the two runs after the same pages: the tree with links is under the one with
files, the target of the links is a file, and the ways to the pages are there if links are to
be made. -/
structure Trails
    (options : Options)
    (pages : List ManualPage)
    (first : ManualPage)
    (data : FileData)
    (tree other : Tree) : Prop where
  under : tree.Under (pages.map (fileName options)) other
  holds : tree.Holds (pages.map (fileName options)) (pageFile options first)
    (fileName options first) data
  reached : options.linkPolicy ≠ .remove -> ∀ page ∈ pages, ∃ directory,
    tree.Passes (pages.map (fileName options)) linkLimit (tree.start (pageFile options page))
      (pageFile options page).way directory

theorem Trails.of_replaces
    {other replaced : Tree}
    {directory : Location}
    {number : Nat}
    (trails : Trails options pages first data tree other)
    (member : page ∈ pages)
    (apart : fileName options first ≠ fileName options page)
    (isFile : other.entryAt? (directory ++ [fileName options page]) = some (.file number))
    (replaces : tree.Replaces (directory ++ [fileName options page]) replaced) :
    Trails options pages first data replaced other where
  under := replaces.under (fileName_mem member) isFile trails.under
  holds := replaces.holds (fileName_mem member) apart trails.holds
  reached linking each isPage := by
    obtain ⟨there, passes⟩ := trails.reached linking each isPage
    rw [replaces.start_eq]
    exact ⟨there, replaces.passes (fileName_mem member) passes⟩

/-- A page can be linked where it was stored. -/
theorem Trails.linkPage
    {before stored : Tree}
    {twin : ManualPage}
    {storedData : FileData}
    {directory : Location}
    (distinguished : Distinguished options pages)
    (firstMember : first ∈ pages)
    (member : page ∈ pages)
    (apart : fileName options first ≠ fileName options page)
    (named : namePath options twin = pageFile options page)
    (trails : Trails options pages first data state.tree before)
    (stores : Tree.Stores (pages.map (fileName options)) (pageFile options page) directory
      (fileName options page) storedData before stored) :
    ∃ after, linkPage options (pageFile options first) twin state = .ok () after ∧
      Trails options pages first data after.tree stored := by
  have isShunned := @fileName_mem pages options _ member
  have component := distinguished.isComponent member
  have page_eq := distinguished.names_pageFile member
  have beside : Trails options pages first data state.tree stored :=
    ⟨trails.under.of_stores stores, trails.holds, trails.reached⟩
  obtain ⟨cleared, removed, replaces, vacant⟩ :=
    beside.under.exists_removed page_eq stores.isName stores.passes stores.isFile
  have without := beside.of_replaces member apart stores.isFile replaces
  have notTarget : (namePath options twin).same (pageFile options first) = false := by
    rw [named, Bool.eq_false_iff, pageFile_eq_join, pageFile_eq_join, Ne,
      Path.same_join component (distinguished.isComponent firstMember)]
    exact fun same => apart same.2.symm
  have links (reported : Publication) (reported_eq : reported.tree = cleared) :
      ∃ after, makeLink options (pageFile options first) (namePath options twin) reported =
          .ok () after ∧
        cleared.Replaces (directory ++ [fileName options page]) after.tree := by
    subst reported_eq
    by_cases removing : options.linkPolicy = .remove
    · refine ⟨reported, ?_, .refl replaces.isNoDirectory⟩
      rw [makeLink, removing]
      rfl
    · obtain ⟨there, passes⟩ := beside.reached removing page member
      obtain ⟨way, absent⟩ := vacant passes
      rw [named]
      refine makeLink_succeeds without.holds (distinguished.names_pageFile firstMember) page_eq ?_
        stores.isName ?_ absent
      · rw [pageFile_eq_join, Path.endsWithSlash_join component]
      · rw [replaces.start_eq]
        exact replaces.passes isShunned way
  obtain ⟨after, linked, again⟩ := linkPage_succeeds notTarget (named ▸ removed) links
  exact ⟨after, linked, without.of_replaces member apart stores.isFile again⟩

/-- Options that group pages and treat their further names as a policy says. -/
def groupedWith (options : Options) (policy : LinkPolicy) : Options :=
  { options with groupTogether := true, linkPolicy := policy }

theorem ofOptions_groupedWith (options : Options) (policy : LinkPolicy) (today : String) :
    Writer.ofOptions (groupedWith options policy) today =
      (Writer.ofOptions options today).map fun writer =>
        { writer with settings := Settings.ofOptions (groupedWith options policy) today } := by
  have started : Writer.start options.format
      (Settings.ofOptions (groupedWith options policy) today) =
      { Writer.start options.format (Settings.ofOptions options today) with
        settings := Settings.ofOptions (groupedWith options policy) today } := by
    cases options.format <;> rfl
  change (Writer.start options.format _).applyOptions options.formatOptions = _
  rw [started, Writer.applyOptions_withSettings]
  rfl

theorem Distinguished.groupedWith
    (distinguished : Distinguished options pages)
    (policy : LinkPolicy) :
    Distinguished (groupedWith options policy) pages :=
  ⟨distinguished.isWord, distinguished.distinct, distinguished.noSlash⟩

/-- Every page is named after itself. -/
def NamedAfterPages (options : Options) (pages : List ManualPage) : Prop :=
  ∀ page ∈ pages, namePath options page = pageFile options page

/-- The further names of a group can be linked where the pages can be stored. -/
theorem Trails.forM_linkPage
    {policy : LinkPolicy}
    {count : Nat}
    {marked : List ManualPage}
    {linking : Publication}
    (ungrouped : context.options.groupTogether = false)
    (toFile : context.options.toStdout = false)
    (distinguished : Distinguished context.options pages)
    (named : NamedAfterPages context.options pages)
    (nonempty : 0 < pages.length)
    (positive : 0 < index)
    (covered : index + count = pages.length)
    (stored : StoredUpTo context writer pages index state)
    (ran : publishFrom context count index state = .ok () after)
    (faces : marked.map face = (pages.drop index).map face)
    (trails : Trails (groupedWith context.options policy) pages pages[0] data linking.tree
      state.tree) :
    ∃ last, marked.forM (Files.linkPage (groupedWith context.options policy)
      (pageFile (groupedWith context.options policy) pages[0])) linking = .ok () last := by
  induction count generalizing index state marked linking with
  | zero =>
      have drained : pages.drop index = [] := List.drop_eq_nil_of_le (by omega)
      rw [drained] at faces
      obtain rfl := List.map_eq_nil_iff.1 faces
      exact ⟨linking, rfl⟩
  | succ count hypothesis =>
      have bound : index < pages.length := by omega
      have member : pages[index] ∈ pages := List.getElem_mem bound
      rw [publishFrom, bind_run, discard_run] at ran
      cases next : Files.publishPage context index state with
      | error error middle =>
          rw [next] at ran
          cases ran
      | ok found middle =>
          rw [next] at ran
          rw [List.drop_eq_getElem_cons bound] at faces
          cases marked with
          | nil => cases faces
          | cons twin others =>
              obtain ⟨sameFace, faces⟩ := List.cons.inj faces
              obtain ⟨directory, stores⟩ :=
                stored.exists_stores ungrouped toFile distinguished bound next
              have apart : fileName context.options pages[0] ≠
                  fileName context.options pages[index] :=
                List.pairwise_iff_getElem.1 distinguished.pairwise 0 index nonempty bound positive
              have twinNamed : namePath (groupedWith context.options policy) twin =
                  pageFile (groupedWith context.options policy) pages[index] :=
                (namePath_of_face sameFace).trans (named _ member)
              obtain ⟨linked, ok, again⟩ := trails.linkPage (distinguished.groupedWith policy)
                (List.getElem_mem nonempty) member apart twinNamed stores
              have further := stored.publishPage ungrouped toFile distinguished bound next
              obtain ⟨last, rest⟩ := hypothesis (by omega : 0 < index + 1) (by omega) further ran
                faces again
              refine ⟨last, ?_⟩
              change (Files.linkPage _ _ twin >>= fun _ => others.forM _) linking = _
              rw [bind_run, ok]
              exact rest

/-! ## Whole runs -/

/-- The page of a group can be written where its first page can be stored. -/
theorem publishPage_group_succeeds
    {path : Path}
    {cleared grown written : Tree}
    {bytes : ByteArray}
    (grouped : context.options.groupTogether = true)
    (toFile : context.options.toStdout = false)
    (path_eq : pageFile context.options (state.pages.getD 0 default) = path)
    (removed : removeIfPresent state.tree path = .ok cleared)
    (made : cleared.ensureDirectories path.isAbsolute (path.parentParts?.getD []) = (grown, none))
    (ok : grown.write path bytes = .ok written) :
    ∃ after others, publishPage context 0 state = .ok (some path) after ∧
      after.pages.map face = state.pages.map face ∧
      grown.write path others = .ok after.tree := by
  have faces := face_compose state.pages
    (some ((state.pages.getD 0 default).sourceBase.getD (state.pages.getD 0 default).name))
    context.options.manualSectionText grouped
  rw [publishPage_run_group grouped toFile, path_eq, bind_run, clearFile_run, removed]
  dsimp only
  rw [compose_bind_run, render_bind_run, bind_run, createFile_run]
  dsimp only
  rw [made]
  dsimp only
  obtain ⟨stored, again, -, -⟩ := Tree.exists_write ok
    (String.ofList (state.writer.writeAll (compose context state.pages 0
      (some ((state.pages.getD 0 default).sourceBase.getD (state.pages.getD 0 default).name))
      context.options.manualSectionText).2).2).toUTF8
  rw [again]
  exact ⟨_, _, rfl, faces, again⟩

/-- A page whose directory is there when the page of its group has been written: the path of
the page leads into a directory, or its directory is that of the first page or one above. -/
def HasPlace
    (options : Options)
    (first : ManualPage)
    (tree : Tree)
    (page : ManualPage) : Prop :=
  (∃ spot, tree.resolve false (pageFile options page) = .ok spot) ∨
    (pageFile options page).isAbsolute = (pageFile options first).isAbsolute ∧
      (pageFile options page).way <+: (pageFile options first).way

/-- The trees of the two runs after the first page. -/
theorem trails_of_write
    {cleared grown stored linking : Tree}
    {absolute : Bool}
    {above : List String}
    {bytes others : ByteArray}
    (distinguished : Distinguished options pages)
    (formed : tree.Formed)
    (straight : Straight options pages tree)
    (member : first ∈ pages)
    (places : options.linkPolicy ≠ .remove -> ∀ page ∈ pages, HasPlace options first tree page)
    (removed : removeIfPresent tree (pageFile options first) = .ok cleared)
    (made : cleared.ensureDirectories absolute above = (grown, none))
    (ok : grown.write (pageFile options first) bytes = .ok stored)
    (linkingOk : grown.write (pageFile options first) others = .ok linking) :
    Trails options pages first { bytes := others } linking stored := by
  have component := distinguished.isComponent member
  obtain ⟨directory, stores⟩ := Tree.stores_of_write formed (fileName_mem member)
    component.notHere component.notAbove (distinguished.names_pageFile member)
    (straight _ member) removed made linkingOk
  constructor
  case under =>
    obtain ⟨again, againOk, entries, workingDirectory⟩ := Tree.exists_write ok others
    obtain rfl := Except.ok.inj (againOk.symm.trans linkingOk)
    exact Tree.under_of_entries entries workingDirectory
  case holds => exact stores.holds
  case reached =>
    intro linkingPages page isPage
    rcases places linkingPages page isPage with ⟨spot, resolved⟩ | ⟨absolute, above⟩
    · rw [Tree.resolve_eq_way (distinguished.names_pageFile isPage)] at resolved
      obtain ⟨there, passes⟩ :=
        Tree.exists_passes (List.cons_ne_nil _ _) (straight page isPage) resolved
      rw [stores.start_eq]
      exact ⟨there, stores.keepsPasses (fileName_mem member) passes⟩
    · obtain ⟨rest, way_eq⟩ := above
      have sameStart : linking.start (pageFile options page) =
          linking.start (pageFile options first) := by
        rw [Tree.start, Tree.start, absolute]
      have passes := stores.passes
      rw [← way_eq] at passes
      rw [sameStart]
      exact passes.exists_append

/-- Further names of a group are linked after the first one, which needs no link. -/
theorem linkPages_succeeds
    {marked : List ManualPage}
    {linking last : Publication}
    (headNamed : ∀ twin ∈ marked.head?, namePath options twin = pageFile options first)
    (ok : (marked.drop 1).forM (linkPage options (pageFile options first)) linking = .ok () last) :
    linkPages options (pageFile options first) marked linking = .ok () last := by
  unfold linkPages
  split
  · cases marked with
    | nil => exact ok
    | cons twin others =>
        have same : (namePath options twin).same (pageFile options first) = true := by
          simp [headNamed twin rfl, Path.same]
        change (linkPage options (pageFile options first) twin >>= fun _ => others.forM _) _ = _
        rw [bind_run, linkPage_same same]
        exact ok
  · exact ok

/-- A run that groups its pages succeeds if the page of the group can be written and its
further names be linked. -/
theorem publishPages_group_succeeds
    {target : Path}
    {middle : Publication}
    (grouped : context.options.groupTogether = true)
    (chosen : Writer.ofOptions context.options today = .ok writer)
    (nonempty : pages ≠ [])
    (written : publishPage context 0 { tree, pages, writer } = .ok (some target) middle)
    (linked : context.options.linkPolicy ≠ .none ->
      ∃ last, linkPages context.options target middle.pages middle = .ok () last) :
    ∃ after, publishPages context today { tree, pages } = .ok () after := by
  have isEmpty : pages.isEmpty = false := by simpa using nonempty
  unfold publishPages
  rw [chosen]
  dsimp only
  rw [modify_bind_run, publishAll, get_bind_run]
  simp only [grouped, isEmpty, Bool.false_eq_true, if_true, if_false]
  rw [bind_run, written]
  dsimp only
  by_cases isNone : context.options.linkPolicy = .none
  · simp only [isNone, bne_self_eq_false, Bool.false_eq_true, if_false]
    exact ⟨middle, rfl⟩
  · have links : (context.options.linkPolicy != .none) = true := by simpa using isNone
    simp only [links, if_true]
    exact linked isNone

/-- The page of a group is written where the first page is stored, and its further names can
then be linked. -/
theorem exists_linking
    {policy : LinkPolicy}
    {rest : List ManualPage}
    {found : Option Path}
    {middle : Publication}
    (ungrouped : context.options.groupTogether = false)
    (toFile : context.options.toStdout = false)
    (named : NamedAfterPages context.options (first :: rest))
    (distinguished : Distinguished context.options (first :: rest))
    (formed : tree.Formed)
    (straight : Straight context.options (first :: rest) tree)
    (places : policy ≠ .none -> policy ≠ .remove ->
      ∀ page ∈ first :: rest, HasPlace context.options first tree page)
    (stored : publishPage context 0 { tree, pages := first :: rest, writer } = .ok found middle)
    (ran : publishFrom context rest.length 1 middle = .ok () after)
    (groupWriter : Writer) :
    ∃ linking,
      publishPage { context with options := groupedWith context.options policy } 0
          { tree, pages := first :: rest, writer := groupWriter } =
        .ok (some (pageFile (groupedWith context.options policy) first)) linking ∧
      (policy ≠ .none ->
        ∃ last, linkPages (groupedWith context.options policy)
            (pageFile (groupedWith context.options policy) first) linking.pages linking =
          .ok () last) := by
  obtain ⟨-, -, -, cleared, grown, removed, made, ok⟩ :=
    publishPage_stored ungrouped toFile rfl stored
  obtain ⟨linking, others, written, faces, linkingOk⟩ :=
    @publishPage_group_succeeds { context with options := groupedWith context.options policy }
      { tree, pages := first :: rest, writer := groupWriter }
      (pageFile (groupedWith context.options policy) first) _ _ _ _ rfl toFile rfl removed made ok
  refine ⟨linking, written, fun linksPages => ?_⟩
  have trails := trails_of_write (distinguished.groupedWith policy) formed straight
    List.mem_cons_self (places linksPages) removed made ok linkingOk
  have storedFirst := (storedUpTo_zero formed straight).publishPage ungrouped toFile distinguished
    (Nat.succ_pos rest.length) stored
  have furtherFaces : (linking.pages.drop 1).map face = ((first :: rest).drop 1).map face := by
    rw [List.map_drop, faces, List.map_drop]
  obtain ⟨last, linked⟩ := trails.forM_linkPage ungrouped toFile distinguished named
    (Nat.succ_pos rest.length) Nat.one_pos (Nat.add_comm 1 rest.length) storedFirst ran furtherFaces
  refine ⟨last, linkPages_succeeds ?_ linked⟩
  intro twin isHead
  have sameFace : face twin = face first := by
    have heads := congrArg List.head? faces
    rw [List.head?_map, isHead] at heads
    exact Option.some.inj heads
  exact (namePath_of_face sameFace).trans (named first List.mem_cons_self)

/-- Grouping introduces no error.  If storing pages one by one succeeds, so does grouping them
from the same tree, whatever happens to their further names.  Links and stubs take the
directories that they are to stand in. -/
theorem publishPages_grouped
    (ungrouped : context.options.groupTogether = false)
    (toFile : context.options.toStdout = false)
    (named : NamedAfterPages context.options pages)
    (distinguished : Distinguished context.options pages)
    (formed : tree.Formed)
    (straight : Straight context.options pages tree)
    (policy : LinkPolicy)
    (places : policy ≠ .none -> policy ≠ .remove -> ∀ first ∈ pages.head?, ∀ page ∈ pages,
      HasPlace context.options first tree page)
    (ran : publishPages context today { tree, pages } = .ok () after) :
    ∃ grouped, publishPages { context with options := groupedWith context.options policy } today
      { tree, pages } = .ok () grouped := by
  cases chosen : Writer.ofOptions context.options today with
  | error cause =>
      rw [publishPages, chosen] at ran
      cases ran
  | ok writer =>
      obtain ⟨groupWriter, groupChosen⟩ :
          ∃ groupWriter, Writer.ofOptions (groupedWith context.options policy) today =
            .ok groupWriter := ⟨_, by rw [ofOptions_groupedWith, chosen, Except.map]⟩
      cases pages with
      | nil =>
          rw [publishPages, groupChosen]
          exact ⟨_, rfl⟩
      | cons first rest =>
          rw [publishPages_run ungrouped chosen] at ran
          change publishFrom context (rest.length + 1) 0 _ = _ at ran
          rw [publishFrom, bind_run, discard_run] at ran
          cases stored : publishPage context 0 { tree, pages := first :: rest, writer } with
          | error error middle =>
              rw [stored] at ran
              cases ran
          | ok found middle =>
              rw [stored] at ran
              obtain ⟨linking, written, linked⟩ := exists_linking ungrouped toFile named
                distinguished formed straight
                (fun linksPages keeps => places linksPages keeps first rfl) stored ran groupWriter
              exact publishPages_group_succeeds rfl groupChosen (List.cons_ne_nil _ _) written
                linked

/-! ## Groups in one directory and in two -/

/-- Hard links in the place of an old symbolic link and an old file. -/
theorem publishPages_grouped_stale :
    ∃ grouped, publishPages
        { contextOf (twoFunctions false) with
          options := groupedWith (twoFunctions false).options .hard } ""
        { tree := staleTree, pages := (twoFunctions false).pages } = .ok () grouped := by
  have ran := @publishPages_of_publish (twoFunctions false) staleTree "" (by decide +kernel)
  have toFile : (contextOf (twoFunctions false)).options.toStdout = false := by decide
  have formed : staleTree.Formed := Tree.formed_of_entries (by decide) (by decide)
  have named : NamedAfterPages (twoFunctions false).options (twoFunctions false).pages :=
    fun _ _ => rfl
  have ways : ∀ first ∈ (twoFunctions false).pages, ∀ page ∈ (twoFunctions false).pages,
      (pageFile (twoFunctions false).options page).isAbsolute =
          (pageFile (twoFunctions false).options first).isAbsolute ∧
        (pageFile (twoFunctions false).options page).way <+:
          (pageFile (twoFunctions false).options first).way := by
    decide
  exact publishPages_grouped rfl toFile named distinguished_twoFunctions formed straight_staleTree
    .hard (fun _ _ first isHead page member =>
      .inr (ways first (List.mem_of_head? isHead) page member)) ran

/-- A function and a variable whose kind has a directory of its own. -/
def functionAndVariable : Session where
  options :=
    { outputDir := some "man", format := .html, objects := { dataObject := { subdir := "data" } } }
  pages := [documented "next" .function, documented "limit" .simple]

theorem publish_of_publishPages
    {session : Session}
    (ran : publishPages (contextOf session) today { tree, pages := session.pages } = .ok () after) :
    (publish session tree today).2 = none := by
  unfold publish
  dsimp only
  split
  · rfl
  · rename_i error state failed
    cases failed.symm.trans ran

/-- Nothing makes the directory of the variable when its name is to be linked to the page of
the function. -/
theorem publishPages_grouped_apart :
    (∃ after, publishPages (contextOf functionAndVariable) ""
        { pages := functionAndVariable.pages } = .ok () after) ∧
      ¬ ∃ grouped, publishPages
        { contextOf functionAndVariable with
          options := groupedWith functionAndVariable.options .hard } ""
        { pages := functionAndVariable.pages } = .ok () grouped := by
  constructor
  · exact ⟨_, publishPages_of_publish (by decide +kernel)⟩
  · rintro ⟨grouped, ran⟩
    have succeeded := @publish_of_publishPages "" {} grouped
      { functionAndVariable with options := groupedWith functionAndVariable.options .hard } ran
    revert succeeded
    decide +kernel

end Files
end DeclManual
