import DeclManual.Proofs.Files.Isolation
import DeclManual.Proofs.Files.Walks
import DeclManual.Proofs.Page.Marks
import DeclManual.Proofs.Text.Lines

/-!
# Every name of a group opens its page

A group of pages is written to one file, and the further names of the group become links
to it.  After every step of linking, each name that has been linked leads to the file
itself or to a symbolic link whose text leads to the file.  So the file of every name
holds the page of the group, as long as a symbolic link is read where its text was
composed.
-/

namespace DeclManual

namespace Files

/-! ## Names with and without dots -/

namespace Path

theorem dropDots_append (first second : List String) :
    dropDots (first ++ second) = dropDots first ++ dropDots second :=
  List.filter_append _ _

/-- After dots are dropped there are none. -/
theorem dropDots_dropDots (names : List String) : dropDots (dropDots names) = dropDots names :=
  List.filter_filter.trans (by simp [dropDots])

theorem dropDots_cons {name : String} (other : name ≠ ".") (rest : List String) :
    dropDots (name :: rest) = name :: dropDots rest :=
  List.filter_cons_of_pos (by simpa using other)

/-- A dot is dropped. -/
theorem dropDots_here (rest : List String) : dropDots ("." :: rest) = dropDots rest := rfl

/-- Without dots a path has the names that are its parts. -/
theorem dropDots_names (path : Path) : dropDots path.names = dropDots path.parts := by
  have dots : dropDots (if path.endsWithSlash then ["."] else []) = [] := by
    split <;> rfl
  rw [names, dropDots_append, dots, List.append_nil, parts]
  split
  · rename_i noPieces
    rw [noPieces]
  · rename_i first rest pieces
    rw [pieces]
    split
    · exact (dropDots_dropDots _).symm
    · rename_i isHere
      have first_eq : first = "." := by simp_all
      rw [first_eq, dropDots_here, dropDots_here, dropDots_dropDots]

/-- Only the first component of a path can be a dot. -/
theorem parts_eq (path : Path) :
    path.parts = dropDots path.parts ∨ path.parts = "." :: dropDots path.parts := by
  unfold parts
  split
  · exact .inl rfl
  · split
    · exact .inl (dropDots_dropDots _).symm
    · rename_i isHere
      refine .inr ?_
      simp_all [dropDots_here, dropDots_dropDots]

/-- Above the last of its parts a path has the other names. -/
theorem parentParts?_eq
    {path : Path}
    {front : List String}
    {last : String}
    (parts_eq : dropDots path.parts = front ++ [last]) :
    ∃ parent, path.parentParts? = some parent ∧ dropDots parent = front ∧
      path.parts.getLast? = some last := by
  have inParts : last ∈ dropDots path.parts := by
    rw [parts_eq]
    exact List.mem_append_right _ List.mem_cons_self
  have lastName : last ≠ "." := by simpa using (List.mem_filter.1 inParts).2
  have frontDots : dropDots front = front := by
    have noDots := dropDots_dropDots path.parts
    rw [parts_eq, dropDots_append, dropDots_cons lastName] at noDots
    exact List.append_cancel_right noDots
  have found {parent : List String} (whole : path.parts = parent ++ [last])
      (dots : dropDots parent = front) :
      ∃ parent, path.parentParts? = some parent ∧ dropDots parent = front ∧
        path.parts.getLast? = some last := by
    refine ⟨parent, ?_, dots, by simp [whole]⟩
    rw [parentParts?, whole]
    cases parent with
    | nil => rfl
    | cons _ _ => exact congrArg some List.dropLast_concat
  rcases path.parts_eq with plain | dotted
  · exact found (plain.trans parts_eq) frontDots
  · exact @found ("." :: front) (by rw [dotted, parts_eq]; rfl) frontDots

/-- A component of a path is a path of one name. -/
theorem names_component
    {path : Path}
    {name : String}
    (member : name ∈ path.names)
    (other : name ≠ ".") :
    (⟨name⟩ : Path).names = [name] ∧ (⟨name⟩ : Path).isAbsolute = false := by
  have inPieces :
      name ∈ ((Text.splitOn '/' path.text.toList).filter (!·.isEmpty)).map String.ofList := by
    rcases List.mem_append.1 member with inPieces | dot
    · exact inPieces
    · split at dot
      · exact absurd (List.mem_singleton.1 dot) other
      · cases dot
  obtain ⟨piece, kept, rfl⟩ := List.mem_map.1 inPieces
  obtain ⟨isPiece, nonempty⟩ := List.mem_filter.1 kept
  have noSlash := Text.not_mem_of_mem_splitOn isPiece
  have noLead : piece.head? ≠ some '/' := fun same => noSlash (List.mem_of_head? same)
  have noTrail : piece.getLast? ≠ some '/' := fun same => noSlash (List.mem_of_getLast? same)
  constructor
  · simp [names, endsWithSlash, Text.splitOn_of_not_mem noSlash, nonempty, noTrail]
  · simpa [isAbsolute] using noLead

end Path

namespace Tree

variable {tree : Tree} {here directory : Location} {name : String} {names : List String}

namespace Leads

/-- Names lead to the same place without their dots. -/
theorem dropDots (leads : Leads tree here names directory name) :
    Leads tree here (Path.dropDots names) directory name := by
  induction leads with
  | last isName =>
      rw [Path.dropDots_cons isName.notHere]
      exact .last isName
  | stay _ hypothesis => exact hypothesis
  | up _ hypothesis =>
      rw [Path.dropDots_cons (by decide)]
      exact .up hypothesis
  | down isName isDirectory _ hypothesis =>
      rw [Path.dropDots_cons isName.notHere]
      exact .down isName isDirectory hypothesis

/-- Dots do not change where names lead, unless one at the end asks for a directory. -/
theorem of_dropDots
    (leads : Leads tree here (Path.dropDots names) directory name)
    (lastName : names.getLast? ≠ some ".") :
    Leads tree here names directory name := by
  induction names generalizing here with
  | nil => exact leads
  | cons first rest hypothesis =>
      have later (further : rest ≠ []) : rest.getLast? ≠ some "." := by
        rwa [List.getLast?_cons_of_ne_nil further] at lastName
      by_cases isHere : first = "."
      · subst isHere
        cases rest with
        | nil => exact absurd rfl lastName
        | cons _ _ => exact .stay (hypothesis leads (later (List.cons_ne_nil _ _)))
      · rw [Path.dropDots_cons isHere] at leads
        generalize dots : Path.dropDots rest = others at leads hypothesis
        cases leads with
        | last isName =>
            cases rest with
            | nil => exact .last isName
            | cons second rest =>
                have final := List.getLast?_eq_some_getLast (List.cons_ne_nil second rest)
                refine absurd ?_ (later (List.cons_ne_nil _ _))
                rw [final]
                by_contra other
                have kept : (second :: rest).getLast (List.cons_ne_nil second rest) ∈
                    Path.dropDots (second :: rest) :=
                  List.mem_filter.2 ⟨List.getLast_mem _, by simpa using other⟩
                rw [dots] at kept
                cases kept
        | stay _ => exact absurd rfl isHere
        | up found =>
            exact .up (hypothesis found (later (by rintro rfl; cases dots; cases found)))
        | down isName isDirectory found =>
            exact .down isName isDirectory
              (hypothesis found (later (by rintro rfl; cases dots; cases found)))

/-- The directory that names lead to is that of the names before the last. -/
theorem exists_front (leads : Leads tree here names directory name) :
    ∃ front, Path.dropDots names = front ++ [name] ∧ place here front = directory := by
  induction leads with
  | last isName => exact ⟨[], Path.dropDots_cons isName.notHere [], rfl⟩
  | stay _ hypothesis => exact hypothesis
  | up _ hypothesis =>
      obtain ⟨front, names_eq, place_eq⟩ := hypothesis
      refine ⟨".." :: front, ?_, place_eq⟩
      rw [Path.dropDots_cons (by decide), names_eq, List.cons_append]
  | @down here _ _ other _ isName _ _ hypothesis =>
      obtain ⟨front, names_eq, place_eq⟩ := hypothesis
      refine ⟨other :: front, ?_, ?_⟩
      · rw [Path.dropDots_cons isName.notHere, names_eq, List.cons_append]
      · rw [place, if_neg isName.notHere, if_neg isName.notAbove, place_eq]

/-- Two paths with the same components lead to the same place. -/
theorem of_same
    {path other : Path}
    (leads : Leads tree (tree.start path) path.names directory name)
    (same : other.same path = true)
    (lastName : other.names.getLast? ≠ some ".") :
    Leads tree (tree.start other) other.names directory name := by
  obtain ⟨absolute, parts_eq⟩ : other.isAbsolute = path.isAbsolute ∧ other.parts = path.parts := by
    simpa [Path.same] using same
  refine of_dropDots ?_ lastName
  rw [start, absolute, other.dropDots_names, parts_eq, ← path.dropDots_names]
  exact leads.dropDots

end Leads

/-- The text of a symbolic link in a directory leads to a name in another. -/
def Opens (tree : Tree) (here : Location) (text : String) (directory : Location) (name : String) :
    Prop :=
  Leads tree (if (⟨text⟩ : Path).isAbsolute then [] else here) (⟨text⟩ : Path).names directory name

/-- A symbolic link to one path can be read at another: both have the same directory on
their face, or the text of the path leads to the same place from there. -/
def IsNear (tree : Tree) (target link : Path) : Prop :=
  (target.isAbsolute = link.isAbsolute ∧ target.parentParts? = link.parentParts?) ∨
    target.isAbsolute = true ∨ (tree.placeOf link).dropLast = tree.workingDirectory

instance (tree : Tree) (target link : Path) : Decidable (tree.IsNear target link) :=
  inferInstanceAs (Decidable (_ ∨ _ ∨ _))

/-- The text of a symbolic link leads to its target if the two are near. -/
theorem opens_symlinkTarget
    {target link : Path}
    {linkDirectory : Location}
    {linkName : String}
    (leads : Leads tree (tree.start target) target.names directory name)
    (linkLeads : Leads tree (tree.start link) link.names linkDirectory linkName)
    (near : tree.IsNear target link) :
    tree.Opens linkDirectory (symlinkTarget target link) directory name := by
  obtain ⟨front, names_eq, place_eq⟩ := leads.exists_front
  obtain ⟨linkFront, linkNames_eq, linkPlace_eq⟩ := linkLeads.exists_front
  obtain ⟨parent, parent_eq, parentFront, last_eq⟩ :=
    Path.parentParts?_eq (target.dropDots_names ▸ names_eq)
  obtain ⟨linkParent, linkParent_eq, linkParentFront, -⟩ :=
    Path.parentParts?_eq (link.dropDots_names ▸ linkNames_eq)
  have fileName : target.fileName? = some name := by
    simp [Path.fileName?, last_eq, leads.isName.notHere, leads.isName.notAbove]
  rw [symlinkTarget, parent_eq, linkParent_eq, fileName]
  dsimp only
  split
  · rename_i sameDirectory
    obtain ⟨absolute, parents⟩ : target.isAbsolute = link.isAbsolute ∧ parent = linkParent := by
      simpa using sameDirectory
    have member : name ∈ target.names := by
      have inNames : name ∈ Path.dropDots target.names := names_eq ▸ by simp
      exact (List.mem_filter.1 inNames).1
    obtain ⟨names_eq, notAbsolute⟩ := Path.names_component member leads.isName.notHere
    have directories : linkDirectory = directory := by
      rw [← place_eq, ← linkPlace_eq, ← parentFront, ← linkParentFront, start, start, absolute,
        parents]
    rw [Opens, names_eq, notAbsolute, directories]
    exact .last leads.isName
  · rename_i apart
    have text_eq : (⟨target.text⟩ : Path) = target := rfl
    rw [Opens, text_eq]
    cases absolute : target.isAbsolute with
    | true =>
        rw [start, absolute] at leads
        exact leads
    | false =>
        rw [start, absolute] at leads
        rcases near with ⟨sameRoot, parents⟩ | isAbsolute | inPlace
        · rw [parent_eq, linkParent_eq] at parents
          exact absurd (by simp [sameRoot, Option.some.inj parents]) apart
        · exact absurd (absolute.symm.trans isAbsolute) Bool.false_ne_true
        · rw [placeOf, linkLeads.place_eq, List.dropLast_concat] at inPlace
          rw [inPlace]
          exact leads

/-! ## Files and links that hold a page -/

/-- An entry in a directory through which a file is opened. -/
def Shows (tree : Tree) (here : Location) (entry : Entry) (directory : Location) (name : String)
    (number : Nat) : Prop :=
  entry = .file number ∨ ∃ text, entry = .symlink text ∧ tree.Opens here text directory name

/-- The state of linking: a target leads to a file, and so does every path that has been
linked, at one remove.  The symbolic links of the tree are old ones or lead to the file. -/
structure Linked
    (initial : Tree)
    (target : Path)
    (directory : Location)
    (name : String)
    (number : Nat)
    (data : FileData)
    (done : List Path)
    (tree : Tree) : Prop where
  workingDirectory : tree.workingDirectory = initial.workingDirectory
  leads : Leads tree (tree.start target) target.names directory name
  isFile : tree.entryAt? (directory ++ [name]) = some (.file number)
  data_eq : tree.files.getD number default = data
  symlink : ∀ here last text, tree.entryAt? (here ++ [last]) = some (.symlink text) ->
    initial.entryAt? (here ++ [last]) = some (.symlink text) ∨ tree.Opens here text directory name
  shown : ∀ path ∈ done, ∃ here last entry,
    Leads tree (tree.start path) path.names here last ∧
      tree.entryAt? (here ++ [last]) = some entry ∧ tree.Shows here entry directory name number

theorem Opens.mono
    {after : Tree}
    {text : String}
    (kept : KeepsDirectories tree after)
    (opens : tree.Opens here text directory name) :
    after.Opens here text directory name :=
  Leads.mono kept opens

theorem Shows.mono
    {after : Tree}
    {entry : Entry}
    {number : Nat}
    (kept : KeepsDirectories tree after)
    (shows_ : tree.Shows here entry directory name number) :
    after.Shows here entry directory name number :=
  shows_.imp_right fun ⟨text, isLink, opens⟩ => ⟨text, isLink, opens.mono kept⟩

namespace Linked

variable {initial : Tree} {target path : Path} {number : Nat} {data : FileData} {done : List Path}

/-- Linking does not change where paths start. -/
theorem start_eq
    (linked : Linked initial target directory name number data done tree)
    (path : Path) :
    tree.start path = initial.start path := by
  rw [start, start, linked.workingDirectory]

/-- A path that leads through a symbolic link of an earlier page ends at a file on its way. -/
theorem blocks
    (linked : Linked initial target directory name number data done tree)
    (direct : initial.IsDirect path) :
    tree.Blocks path := by
  intro front last rest here text names_eq further leads isLink walk_eq
  rcases linked.symlink here last text isLink with old | opens
  · rw [← leads.place_eq, linked.start_eq] at old
    exact absurd old (direct (front ++ [last]) rest (by simpa using names_eq) further text)
  · have isText := isText_of_names (names_eq ▸ List.append_ne_nil_of_right_ne_nil _ (by simp))
    rw [resolve_of_follow isText walk_eq]
    exact resolveFrom_of_error _ (opens.walk_append linked.isFile false further)

/-- A linked path holds the page. -/
theorem read_eq
    (linked : Linked initial target directory name number data done tree)
    (member : path ∈ done) :
    tree.read path = .ok data := by
  obtain ⟨here, last, entry, leads, stands, isShown⟩ := linked.shown path member
  have opened : ∃ location, tree.resolve true path = .ok (.taken location (.file number)) := by
    rcases isShown with rfl | ⟨text, rfl, opens⟩
    · exact ⟨_, by rw [leads.resolve_true (by simp [stands]), spot, stands]⟩
    · have walk_eq : tree.walk true (tree.start path) path.names = .ok (.follow here text []) := by
        rw [leads.walk_eq, arrive, stands]
        rfl
      have arrived := (opens.walk_eq true).trans
        (congrArg Except.ok (arrive_true (by simp [linked.isFile])))
      rw [resolve_of_follow leads.isText walk_eq, List.append_nil,
        resolveFrom_of_arrived _ arrived, spot, linked.isFile]
      exact ⟨_, rfl⟩
  obtain ⟨location, resolved⟩ := opened
  rw [read, resolved]
  exact congrArg Except.ok linked.data_eq

/-- A new entry through which the file is opened. -/
theorem put
    {cleared : Tree}
    {here : Location}
    {last : String}
    {entry : Entry}
    (linked : Linked initial target directory name number data done tree)
    (clears : Clears tree (here ++ [last]) cleared)
    (elsewhere : here ++ [last] ≠ directory ++ [name])
    (leads : Leads cleared (cleared.start path) path.names here last)
    (shows_ : cleared.Shows here entry directory name number) :
    Linked initial target directory name number data (path :: done)
      (cleared.put (here ++ [last]) entry) := by
  have keptByEntry := keepsDirectories_put clears.absent entry
  have kept : KeepsDirectories tree (cleared.put (here ++ [last]) entry) :=
    fun location isDirectory =>
      keptByEntry location (clears.keepsDirectories location isDirectory)
  have sameStart (path : Path) :
      (cleared.put (here ++ [last]) entry).start path = tree.start path := by
    rw [start, start, ← clears.workingDirectory]
    rfl
  have new := entryAt?_put_self cleared (by simp : here ++ [last] ≠ []) entry
  have others {location : Location} (apart : location ≠ here ++ [last]) :
      (cleared.put (here ++ [last]) entry).entryAt? location = tree.entryAt? location := by
    rw [entryAt?_put_of_ne cleared entry apart, clears.others location apart]
  constructor
  case workingDirectory => exact clears.workingDirectory.trans linked.workingDirectory
  case leads => exact sameStart target ▸ linked.leads.mono kept
  case isFile => rw [others elsewhere.symm, linked.isFile]
  case data_eq => exact clears.files ▸ linked.data_eq
  case symlink =>
    intro there final text isLink
    by_cases same : there ++ [final] = here ++ [last]
    · obtain ⟨rfl, rfl⟩ : there = here ∧ final = last := by simpa using same
      obtain rfl := Option.some.inj (new.symm.trans isLink)
      rcases shows_ with isFile | ⟨shown, isLink, opens⟩
      · cases isFile
      · obtain rfl := Entry.symlink.inj isLink
        exact .inr (opens.mono keptByEntry)
    · rw [others same] at isLink
      exact (linked.symlink there final text isLink).imp_right (Opens.mono kept)
  case shown =>
    intro other member
    rcases List.mem_cons.1 member with rfl | earlier
    · exact ⟨here, last, entry, leads.mono keptByEntry, new, shows_.mono keptByEntry⟩
    · obtain ⟨there, final, shown, otherLeads, stands, shownThere⟩ := linked.shown other earlier
      have leadsThere := sameStart other ▸ otherLeads.mono kept
      by_cases same : there ++ [final] = here ++ [last]
      · obtain ⟨rfl, rfl⟩ : there = here ∧ final = last := by simpa using same
        exact ⟨there, final, entry, leadsThere, new, shows_.mono keptByEntry⟩
      · exact ⟨there, final, shown, leadsThere, (others same).trans stands, shownThere.mono kept⟩

/-- A path that leads to the file needs no link. -/
theorem skip
    (linked : Linked initial target directory name number data done tree)
    (leads : Leads tree (tree.start path) path.names directory name) :
    Linked initial target directory name number data (path :: done) tree where
  __ := linked
  shown other member := by
    rcases List.mem_cons.1 member with rfl | earlier
    · exact ⟨directory, name, .file number, leads, linked.isFile, .inl rfl⟩
    · exact linked.shown other earlier

/-- What a new link meets: the path of the link leads to a vacant name, and the path of the
target leads where it did. -/
theorem removeIfPresent
    {cleared : Tree}
    {spot : Spot}
    (linked : Linked initial target directory name number data done tree)
    (direct : initial.IsDirect path)
    (removed : removeIfPresent tree path = .ok cleared)
    (resolved : cleared.resolve false path = .ok spot) :
    ∃ here last, Clears tree (here ++ [last]) cleared ∧
      Leads cleared (cleared.start path) path.names here last ∧
      Leads cleared (cleared.start target) target.names directory name ∧
      cleared.resolve false path = .ok (.vacant here last) := by
  rcases removeIfPresent_cases (linked.blocks direct) removed with ⟨fails, rfl⟩ | found
  · cases fails.symm.trans resolved
  · obtain ⟨here, last, clears, leads⟩ := found
    have sameStart : cleared.start target = tree.start target := by
      rw [start, start, clears.workingDirectory]
    refine ⟨here, last, clears, leads, ?_, ?_⟩
    · exact sameStart ▸ linked.leads.mono clears.keepsDirectories
    · rw [leads.resolve_false, Tree.spot, clears.absent]

/-- A hard link adds a path to those that lead to the file. -/
theorem hardLink
    {cleared after : Tree}
    (linked : Linked initial target directory name number data done tree)
    (direct : initial.IsDirect path)
    (removed : Files.removeIfPresent tree path = .ok cleared)
    (made : cleared.hardLink target path = .ok after) :
    Linked initial target directory name number data (path :: done) after := by
  unfold Tree.hardLink at made
  split at made
  · cases made
  · cases made
  rename_i location entry existing
  split at made
  · cases made
  · cases made
  rename_i linkDirectory linkName vacant
  obtain ⟨here, last, clears, leads, targetLeads, resolved⟩ :=
    linked.removeIfPresent direct removed vacant
  obtain ⟨rfl, rfl⟩ := Spot.vacant.inj (Except.ok.inj (vacant.symm.trans resolved))
  split at made
  · cases made
  obtain rfl := Except.ok.inj made
  rw [targetLeads.resolve_false, Tree.spot] at existing
  by_cases same : directory ++ [name] = linkDirectory ++ [linkName]
  · rw [same, clears.absent] at existing
    cases existing
  · rw [clears.others _ same, linked.isFile] at existing
    obtain ⟨-, rfl⟩ := Spot.taken.inj (Except.ok.inj existing)
    exact linked.put clears (Ne.symm same) leads (.inl rfl)

/-- A symbolic link adds a path to those that lead to the file. -/
theorem symbolicLink
    {cleared after : Tree}
    (linked : Linked initial target directory name number data done tree)
    (direct : initial.IsDirect path)
    (elsewhere : initial.placeOf path ≠ initial.placeOf target)
    (near : initial.IsNear target path)
    (removed : Files.removeIfPresent tree path = .ok cleared)
    (made : cleared.symbolicLink (symlinkTarget target path) path = .ok after) :
    Linked initial target directory name number data (path :: done) after := by
  unfold Tree.symbolicLink at made
  split at made
  · cases made
  · cases made
  rename_i linkDirectory linkName vacant
  obtain ⟨here, last, clears, leads, targetLeads, resolved⟩ :=
    linked.removeIfPresent direct removed vacant
  obtain ⟨rfl, rfl⟩ := Spot.vacant.inj (Except.ok.inj (vacant.symm.trans resolved))
  obtain rfl := Except.ok.inj made
  have sameDirectory : cleared.workingDirectory = initial.workingDirectory :=
    clears.workingDirectory.trans linked.workingDirectory
  have apart : linkDirectory ++ [linkName] ≠ directory ++ [name] := by
    rwa [placeOf, placeOf, start, start, ← sameDirectory, ← start, ← start, leads.place_eq,
      targetLeads.place_eq] at elsewhere
  have nearby : cleared.IsNear target path := by
    rwa [IsNear, placeOf, start, ← sameDirectory] at near
  exact linked.put clears apart leads
    (.inr ⟨_, rfl, opens_symlinkTarget targetLeads leads nearby⟩)

end Linked

/-- Removing what stands at a path empties its place and adds nothing. -/
theorem removeIfPresent_vacates
    {initial cleared : Tree}
    {target : Path}
    (direct : initial.IsDirect target)
    (absent : initial.resolve false target = .error .notFound ->
      initial.entryAt? (initial.placeOf target) = none)
    (removed : removeIfPresent initial target = .ok cleared) :
    cleared.workingDirectory = initial.workingDirectory ∧
      cleared.entryAt? (initial.placeOf target) = none ∧
      ∀ location entry, cleared.entryAt? location = some entry ->
        initial.entryAt? location = some entry := by
  rcases removeIfPresent_cases direct.blocks removed with ⟨fails, rfl⟩ | found
  · exact ⟨rfl, absent fails, fun _ _ stands => stands⟩
  · obtain ⟨directory, name, clears, leads⟩ := found
    refine ⟨clears.workingDirectory, ?_, fun _ _ => clears.entryAt?_eq⟩
    rw [placeOf, start, ← clears.workingDirectory, ← start, leads.place_eq, clears.absent]

/-- A file that is stored where the path leads, and the links that are made to it later. -/
theorem linked_of_write
    {initial cleared grown written : Tree}
    {target : Path}
    {bytes : ByteArray}
    (direct : initial.IsDirect target)
    (absent : initial.resolve false target = .error .notFound ->
      initial.entryAt? (initial.placeOf target) = none)
    (removed : removeIfPresent initial target = .ok cleared)
    (grows : Grows cleared grown)
    (ok : grown.write target bytes = .ok written) :
    ∃ directory name number,
      Linked initial target directory name number { bytes } [target] written := by
  obtain ⟨sameDirectory, vacant, old⟩ := removeIfPresent_vacates direct absent removed
  have sameStart : grown.workingDirectory = initial.workingDirectory :=
    grows.workingDirectory.trans sameDirectory
  have symlinks (location : Location) (text : String)
      (isLink : grown.entryAt? location = some (.symlink text)) :
      initial.entryAt? location = some (.symlink text) := by
    rcases grows.entry location with same | ⟨-, made⟩
    · exact old location _ (same ▸ isLink)
    · cases made.symm.trans isLink
  have onlyDirectory (entry : Entry) (stands : grown.entryAt? (grown.placeOf target) = some entry) :
      entry = .directory := by
    rw [placeOf, start, sameStart, ← start, ← placeOf] at stands
    rcases grows.entry (initial.placeOf target) with same | ⟨-, made⟩
    · rw [same, vacant] at stands
      cases stands
    · exact (Option.some.inj (made.symm.trans stands)).symm
  obtain ⟨directory, name, leads, free, rfl⟩ :=
    write_eq_create (isDirect_of_symlinks direct sameStart symlinks) onlyDirectory ok
  have kept : KeepsDirectories grown (grown.create (directory ++ [name]) { bytes }) :=
    keepsDirectories_put free _
  have isFile : (grown.create (directory ++ [name]) { bytes }).entryAt? (directory ++ [name]) =
      some (.file grown.files.length) :=
    entryAt?_put_self grown (by simp) _
  have leadsThere := leads.mono kept
  refine ⟨directory, name, grown.files.length, sameStart, leadsThere, isFile, ?_, ?_, ?_⟩
  · simp [create]
  · intro here last text isLink
    by_cases same : here ++ [last] = directory ++ [name]
    · rw [same, isFile] at isLink
      cases isLink
    · exact .inl (symlinks _ text ((entryAt?_put_of_ne grown _ same).symm.trans isLink))
  · intro path member
    rw [List.mem_singleton.1 member]
    exact ⟨directory, name, _, leadsThere, isFile, .inl rfl⟩

end Tree

open Markup
open Page (Context compose)

variable {context : Context} {options : Options} {target : Path}

/-! ## Runs of linking -/

/-- The path that a page is opened at. -/
def namePath (options : Options) (page : ManualPage) : Path :=
  pagePath options page.name page.objectKind (pageSection options page.objectKind)

/-- Whether further names of a group become links. -/
def makesLinks (options : Options) : Prop :=
  options.linkPolicy = .hard ∨ options.linkPolicy = .soft

/-- The change of a tree that makes a link. -/
def linkTree (options : Options) (target link : Path) (tree : Tree) : Except OsError Tree :=
  if options.linkPolicy = .hard then tree.hardLink target link
  else tree.symbolicLink (symlinkTarget target link) link

/-- Making a link is one change of the tree. -/
theorem makeLink_eq (policy : makesLinks options) (link : Path) :
    makeLink options target link =
      changeTree (.link link target) (linkTree options target link) := by
  unfold makeLink linkTree
  rcases policy with hard | soft
  · rw [hard]
    rfl
  · rw [soft]
    rfl

/-- A step that goes on after a change of the tree has changed it. -/
theorem changeTree_bind_ok
    {α : Type}
    {wrap : OsError -> PublishError}
    {change : Tree -> Except OsError Tree}
    {next : Unit -> Publish α}
    {state after : Publication}
    {value : α}
    (ran : (changeTree wrap change >>= next) state = .ok value after) :
    ∃ tree, change state.tree = .ok tree ∧ next () { state with tree } = .ok value after := by
  rw [bind_run, changeTree, get_bind_run] at ran
  cases changed : change state.tree with
  | ok tree =>
      rw [changed] at ran
      exact ⟨tree, rfl, ran⟩
  | error cause =>
      rw [changed] at ran
      cases ran

/-- What linking a page does to the tree. -/
theorem linkPage_run
    {page : ManualPage}
    {state after : Publication}
    (policy : makesLinks options)
    (ran : linkPage options target page state = .ok () after) :
    (namePath options page).same target = true ∧ after = state ∨
      (namePath options page).same target = false ∧
      after.summary.generated = state.summary.generated ∧ ∃ cleared,
        removeIfPresent state.tree (namePath options page) = .ok cleared ∧
        linkTree options target (namePath options page) cleared = .ok after.tree := by
  unfold linkPage at ran
  dsimp only at ran
  split at ran
  · rename_i same
    exact .inl ⟨same, (EStateM.Result.ok.inj ran).2.symm⟩
  · rename_i apart
    refine .inr ⟨Bool.eq_false_iff.2 apart, ?_⟩
    rw [report, modify_bind_run] at ran
    obtain ⟨cleared, removed, ran⟩ := changeTree_bind_ok ran
    rw [makeLink_eq policy] at ran
    obtain ⟨linked, made, ran⟩ := changeTree_bind_ok ran
    obtain rfl := (EStateM.Result.ok.inj ran).2
    refine ⟨?_, cleared, removed, made⟩
    dsimp only
    split <;> rfl

/-- What a group's paths have to be like for every name to open the page.  The directories
on their way are no symbolic links, and nothing stands at the place of the file to which
its path does not lead.  A path that is the same as the file's does not ask for a
directory.  A symbolic link has a place of its own and is near the file. -/
structure Linkable
    (options : Options)
    (tree : Tree)
    (target : Path)
    (links : List Path) : Prop where
  direct : ∀ path ∈ target :: links, tree.IsDirect path
  absent : tree.resolve false target = .error .notFound ->
    tree.entryAt? (tree.placeOf target) = none
  lastName : ∀ link ∈ links, link.same target = true -> link.names.getLast? ≠ some "."
  elsewhere : options.linkPolicy = .soft -> ∀ link ∈ links, link.same target = false ->
    tree.placeOf link ≠ tree.placeOf target
  near : options.linkPolicy = .soft -> ∀ link ∈ links, link.same target = false ->
    tree.IsNear target link

section

variable
  {initial : Tree}
  {directory : Location}
  {name : String}
  {number : Nat}
  {data : FileData}
  {done links : List Path}
  {state after : Publication}

/-- Linking a page adds its name to those that have been linked. -/
theorem linked_linkPage
    {page : ManualPage}
    (policy : makesLinks options)
    (linkable : Linkable options initial target links)
    (member : namePath options page ∈ links)
    (linked : Tree.Linked initial target directory name number data done state.tree)
    (ran : linkPage options target page state = .ok () after) :
    after.summary.generated = state.summary.generated ∧
      Tree.Linked initial target directory name number data (namePath options page :: done)
        after.tree := by
  have direct := linkable.direct _ (List.mem_cons_of_mem target member)
  rcases linkPage_run policy ran with ⟨same, rfl⟩ | ⟨apart, generated, cleared, removed, made⟩
  · exact ⟨rfl, linked.skip (linked.leads.of_same same (linkable.lastName _ member same))⟩
  · refine ⟨generated, ?_⟩
    rw [linkTree] at made
    split at made
    · exact linked.hardLink direct removed made
    · rename_i notHard
      have soft : options.linkPolicy = .soft := policy.resolve_left notHard
      exact linked.symbolicLink direct (linkable.elsewhere soft _ member apart)
        (linkable.near soft _ member apart) removed made

/-- Linking pages keeps every name that has been linked, and adds those of the pages. -/
theorem linked_forM
    {pages : List ManualPage}
    (policy : makesLinks options)
    (linkable : Linkable options initial target links)
    (members : ∀ page ∈ pages, namePath options page ∈ links)
    (linked : Tree.Linked initial target directory name number data done state.tree)
    (ran : pages.forM (linkPage options target) state = .ok () after) :
    after.summary.generated = state.summary.generated ∧
      ∃ all, Tree.Linked initial target directory name number data all after.tree ∧
        (∀ path ∈ done, path ∈ all) ∧ ∀ page ∈ pages, namePath options page ∈ all := by
  induction pages generalizing done state with
  | nil =>
      obtain rfl := (EStateM.Result.ok.inj ran).2
      exact ⟨rfl, done, linked, fun _ member => member, by simp⟩
  | cons page rest hypothesis =>
      change (linkPage options target page >>= fun _ => rest.forM (linkPage options target)) state =
        _ at ran
      rw [bind_run] at ran
      cases first : linkPage options target page state with
      | error cause middle =>
          rw [first] at ran
          cases ran
      | ok value middle =>
          rw [first] at ran
          obtain ⟨generated, linkedFirst⟩ :=
            linked_linkPage policy linkable (members page List.mem_cons_self) linked first
          obtain ⟨generatedLater, all, linkedAll, kept, added⟩ := hypothesis
            (fun other member => members other (List.mem_cons_of_mem page member)) linkedFirst ran
          refine ⟨generatedLater.trans generated, all, linkedAll,
            fun path member => kept path (List.mem_cons_of_mem _ member), ?_⟩
          intro other member
          rcases List.mem_cons.1 member with rfl | later
          · exact kept _ List.mem_cons_self
          · exact added other later

end

/-! ## Marks leave names alone -/

/-- What of a page decides where it is opened. -/
def face (page : ManualPage) : String × ObjectKind × Option String :=
  (page.name, page.objectKind, page.sourceFile)

/-- The face of a page does not depend on its parameters. -/
theorem face_withParameters (page : ManualPage) (parameters : List Decl.Parameter) :
    face (Page.withParameters page parameters) = face page := by
  unfold Page.withParameters
  split
  · obtain ⟨spec, ⟨_, _, _, _, _, _, inner⟩, _, _⟩ := page
    cases inner with
    | none => rfl
    | some inner =>
        simp only [Decl.Declarator.updateHead]
        split <;> rfl
  · rfl

/-- Marking duplicates leaves the face of every page. -/
theorem face_markDuplicates (pages : List ManualPage) :
    (Page.markDuplicates pages).map face = pages.map face := by
  have zipped (marks : List (List Decl.Parameter)) (lengths : marks.length = pages.length) :
      (pages.zipWith Page.withParameters marks).map face = pages.map face := by
    induction pages generalizing marks with
    | nil => rfl
    | cons page pages hypothesis =>
        cases marks with
        | nil => cases lengths
        | cons mark marks =>
            rw [List.zipWith_cons_cons, List.map_cons, face_withParameters,
              hypothesis marks (Nat.succ.inj lengths), List.map_cons]
  exact zipped _ (by rw [Page.length_markPages, List.length_map])

/-- The pages of a group are opened where they were before their parameters were marked. -/
theorem face_compose
    (pages : List ManualPage)
    (title : Option String)
    (manualSection : String)
    (grouped : context.options.groupTogether = true) :
    (compose context pages 0 title manualSection).1.map face = pages.map face := by
  unfold compose
  simp only [grouped, if_true, List.take_zero, List.drop_zero, List.nil_append]
  split
  · exact face_markDuplicates pages
  · rfl

/-! ## Whole runs -/

/-- The text of the page of a group. -/
def groupText (context : Context) (writer : Writer) (pages : List ManualPage) : List Char :=
  let first := pages.getD 0 default
  (writer.writeAll (compose context pages 0 (some (first.sourceBase.getD first.name))
    context.options.manualSectionText).2).2

/-- A page that is composed is written at once by the writer. -/
theorem compose_bind_run
    {α : Type}
    (title manualSection : String)
    (next : List Call -> Publish α)
    (state : Publication) :
    (composePage context 0 title manualSection >>= next) state =
      next (compose context state.pages 0 (some title) manualSection).2
        { state with pages := (compose context state.pages 0 (some title) manualSection).1 } := rfl

/-- What creating a file does. -/
theorem createFile_ok
    {path : Path}
    {text : List Char}
    {state after : Publication}
    (ran : createFile path text state = .ok () after) :
    ∃ grown written,
      state.tree.ensureDirectories path.isAbsolute (path.parentParts?.getD []) = (grown, none) ∧
      grown.write path (String.ofList text).toUTF8 = .ok written ∧
      after = { state with
        tree := written
        summary := { state.summary with generated := state.summary.generated ++ [path] } } := by
  rw [createFile_run] at ran
  rcases made : state.tree.ensureDirectories path.isAbsolute (path.parentParts?.getD []) with
    ⟨grown, _ | cause⟩
  · rw [made] at ran
    dsimp only at ran
    split at ran
    · rename_i written ok
      exact ⟨grown, written, rfl, ok, (EStateM.Result.ok.inj ran).2.symm⟩
    · cases ran
  · rw [made] at ran
    cases ran

/-- The steps that write the page of a group. -/
theorem publishPage_run_group
    (grouped : context.options.groupTogether = true)
    (toFile : context.options.toStdout = false)
    (state : Publication) :
    publishPage context 0 state =
      (do
        clearFile (pageFile context.options (state.pages.getD 0 default))
        let calls ← composePage context 0
          ((state.pages.getD 0 default).sourceBase.getD (state.pages.getD 0 default).name)
          context.options.manualSectionText
        let text ← render calls
        createFile (pageFile context.options (state.pages.getD 0 default)) text
        return some (pageFile context.options (state.pages.getD 0 default)) :
        Publish (Option Path)) state := by
  unfold publishPage clearFile createFile
  simp only [toFile, grouped, Bool.false_eq_true, if_false, if_true, get_bind_run, bind_assoc]
  rfl

/-- What writing the page of a group does. -/
theorem publishPage_group
    {state after : Publication}
    {found : Option Path}
    (grouped : context.options.groupTogether = true)
    (toFile : context.options.toStdout = false)
    (ran : publishPage context 0 state = .ok found after) :
    let path := pageFile context.options (state.pages.getD 0 default)
    found = some path ∧
      after.summary.generated = state.summary.generated ++ [path] ∧
      after.pages.map face = state.pages.map face ∧
      ∃ cleared grown, removeIfPresent state.tree path = .ok cleared ∧
        Tree.Grows cleared grown ∧
        grown.write path (String.ofList (groupText context state.writer state.pages)).toUTF8 =
          .ok after.tree := by
  intro path
  have faces := face_compose state.pages
    (some ((state.pages.getD 0 default).sourceBase.getD (state.pages.getD 0 default).name))
    context.options.manualSectionText grouped
  rw [publishPage_run_group grouped toFile, bind_run, clearFile_run] at ran
  cases removed : removeIfPresent state.tree path with
  | error cause =>
      rw [removed] at ran
      cases ran
  | ok cleared =>
      rw [removed] at ran
      dsimp only at ran
      rw [compose_bind_run, render_bind_run, bind_run] at ran
      split at ran
      · rename_i stored
        obtain ⟨grown, written, made, ok, rfl⟩ := createFile_ok stored
        obtain ⟨rfl, rfl⟩ := EStateM.Result.ok.inj ran
        exact ⟨rfl, rfl, faces, cleared, grown, rfl, Tree.grows_ensureDirectories made, ok⟩
      · cases ran

/-- Pages with the same face are named alike. -/
theorem namePath_of_face
    {first second : ManualPage}
    (same : face first = face second) :
    namePath options first = namePath options second := by
  have name : first.name = second.name := congrArg Prod.fst same
  have kind : first.objectKind = second.objectKind := congrArg (·.2.1) same
  rw [namePath, namePath, name, kind]

/-- The file of a group is that of its first page, unless it is named after the source. -/
theorem pageFile_eq_namePath
    {page : ManualPage}
    (unnamed : (options.useInputName && page.sourceFile.isSome) = false) :
    pageFile options page = namePath options page := by
  unfold pageFile namePath
  cases named : options.useInputName with
  | false => rfl
  | true =>
      rw [named, Bool.true_and] at unnamed
      have noSource : page.sourceFile = none := by simpa using unnamed
      simp [ManualPage.sourceBase, noSource]

/-- Every page of a group is linked, or the file is its own. -/
theorem mem_of_linkPages
    {pages marked : List ManualPage}
    {all : List Path}
    (faces : marked.map face = pages.map face)
    (target : pageFile options (pages.getD 0 default) ∈ all)
    (further : ∀ page ∈
        (if options.useInputName && (marked.head?.map (·.sourceFile.isSome)).getD false then marked
          else marked.drop 1), namePath options page ∈ all)
    {page : ManualPage}
    (member : page ∈ pages) :
    namePath options page ∈ all := by
  obtain ⟨twin, inMarked, same⟩ : ∃ twin ∈ marked, face twin = face page := by
    have inFaces : face page ∈ marked.map face := faces ▸ List.mem_map_of_mem member
    simpa using inFaces
  rw [← namePath_of_face same]
  split at further
  · exact further twin inMarked
  · rename_i unnamed
    cases marked with
    | nil => cases inMarked
    | cons first rest =>
        cases pages with
        | nil => cases faces
        | cons original others =>
            rcases List.mem_cons.1 inMarked with rfl | later
            · have sameFirst : face twin = face original := (List.cons.inj faces).1
              have source : twin.sourceFile = original.sourceFile := congrArg (·.2.2) sameFirst
              have unnamedOriginal :
                  (options.useInputName && original.sourceFile.isSome) = false := by
                simpa [source] using unnamed
              rw [namePath_of_face sameFirst, ← pageFile_eq_namePath unnamedOriginal]
              exact target
            · exact further twin later

/-- A run that groups its pages writes one page and then links the names of the group. -/
theorem publishPages_group_run
    {tree : Tree}
    {pages : List ManualPage}
    {today : String}
    {after : Publication}
    (grouped : context.options.groupTogether = true)
    (toFile : context.options.toStdout = false)
    (policy : makesLinks context.options)
    (nonempty : pages ≠ [])
    (ran : publishPages context today { tree, pages } = .ok () after) :
    ∃ writer target middle, Writer.ofOptions context.options today = .ok writer ∧
      publishPage context 0 { tree, pages, writer } = .ok (some target) middle ∧
      linkPages context.options target middle.pages middle = .ok () after := by
  unfold publishPages at ran
  cases chosen : Writer.ofOptions context.options today with
  | error cause =>
      rw [chosen] at ran
      cases ran
  | ok writer =>
      rw [chosen] at ran
      dsimp only at ran
      have isEmpty : pages.isEmpty = false := by simpa using nonempty
      have links : (context.options.linkPolicy != .none) = true := by
        rcases policy with hard | soft
        · rw [hard]; rfl
        · rw [soft]; rfl
      rw [modify_bind_run, publishAll, get_bind_run] at ran
      simp only [grouped, isEmpty, Bool.false_eq_true, if_true, if_false] at ran
      rw [bind_run] at ran
      split at ran
      · rename_i found middle written
        obtain ⟨rfl, -⟩ := publishPage_group grouped toFile written
        simp only [links, if_true] at ran
        exact ⟨writer, _, middle, rfl, written, ran⟩
      · cases ran

/-- The pages of a group have the names that they had before their parameters were marked. -/
theorem namePath_mem_of_faces
    {pages marked : List ManualPage}
    (faces : marked.map face = pages.map face)
    {page : ManualPage}
    (member : page ∈ marked) :
    namePath options page ∈ pages.map (namePath options) := by
  have inFaces : face page ∈ pages.map face := faces ▸ List.mem_map_of_mem member
  obtain ⟨twin, inPages, same⟩ := List.mem_map.1 inFaces
  exact List.mem_map.2 ⟨twin, inPages, namePath_of_face same⟩

/-- Every name of a group opens the page of the group. -/
theorem publishPages_group
    {tree : Tree}
    {pages : List ManualPage}
    {today : String}
    {after : Publication}
    (grouped : context.options.groupTogether = true)
    (toFile : context.options.toStdout = false)
    (policy : makesLinks context.options)
    (nonempty : pages ≠ [])
    (linkable : Linkable context.options tree (pageFile context.options (pages.getD 0 default))
      (pages.map (namePath context.options)))
    (ran : publishPages context today { tree, pages } = .ok () after) :
    ∃ writer, Writer.ofOptions context.options today = .ok writer ∧
      after.summary.generated = [pageFile context.options (pages.getD 0 default)] ∧
      ∀ page ∈ pages,
        after.tree.read (namePath context.options page) =
          .ok { bytes := (String.ofList (groupText context writer pages)).toUTF8 } := by
  obtain ⟨writer, target, middle, chosen, written, ran⟩ :=
    publishPages_group_run grouped toFile policy nonempty ran
  obtain ⟨isTarget, generated, faces, cleared, grown, removed, grows, ok⟩ :=
    publishPage_group grouped toFile written
  obtain rfl := Option.some.inj isTarget
  obtain ⟨directory, name, number, linked⟩ :=
    Tree.linked_of_write (linkable.direct _ List.mem_cons_self) linkable.absent removed grows ok
  rw [linkPages] at ran
  have members : ∀ page ∈
      (if context.options.useInputName &&
          (middle.pages.head?.map (·.sourceFile.isSome)).getD false then middle.pages
        else middle.pages.drop 1),
      namePath context.options page ∈ pages.map (namePath context.options) := by
    intro page member
    split at member
    · exact namePath_mem_of_faces faces member
    · exact namePath_mem_of_faces faces (List.mem_of_mem_drop member)
  obtain ⟨later, all, linkedAll, kept, added⟩ :=
    linked_forM policy linkable members linked ran
  refine ⟨writer, chosen, later.trans generated, fun page member => linkedAll.read_eq ?_⟩
  exact mem_of_linkPages faces (kept _ List.mem_cons_self) added member

/-! ## A group in one directory and a group in two -/

/-- A documented function or variable. -/
def documented (name : String) (kind : Decl.Kind) : ManualPage where
  spec := { text := some "int" }
  declarator := { Decl.Declarator.identifier name with comment := some "Counts.", kind }

/-- A session that groups its pages under a directory and links their names symbolically;
variables may go into a subdirectory. -/
def softGroup (subdir : Option String) (pages : List ManualPage) : Session where
  options :=
    { groupTogether := true
      outputDir := some "man"
      linkPolicy := .soft
      format := .html
      objects := { dataObject := { subdir } } }
  pages

/-- What the pages of a session are composed with. -/
def contextOf (session : Session) : Context where
  options := session.options
  enums := session.enums
  inputFiles := session.inputFiles
  groupTerse := session.groupTerse

/-- Publishing a session is publishing its pages. -/
theorem publishPages_of_publish
    {session : Session}
    {tree : Tree}
    {today : String}
    (succeeded : (publish session tree today).2 = none) :
    publishPages (contextOf session) today { tree, pages := session.pages } =
      .ok () (publish session tree today).1 := by
  unfold publish at succeeded ⊢
  dsimp only at succeeded ⊢
  split at succeeded
  · rename_i state ran
    exact ran
  · cases succeeded

/-- Every path is direct in an empty tree. -/
theorem isDirect_empty (path : Path) : Tree.IsDirect {} path := by
  intro front rest _ _ target isLink
  unfold Tree.entryAt? at isLink
  split at isLink <;> cases isLink

/-- A group of two pages is published under the names of both. -/
theorem publishPages_group_two :
    let pages := [documented "next" .function, documented "reset" .function]
    let session := softGroup none pages
    ∃ after writer, publishPages (contextOf session) "" { pages } = .ok () after ∧
      ∀ page ∈ pages,
        after.tree.read (namePath session.options page) =
          .ok { bytes := (String.ofList (groupText (contextOf session) writer pages)).toUTF8 } := by
  intro pages session
  have ran := @publishPages_of_publish session {} "" (by decide +kernel)
  have linkable : Linkable session.options {} (pageFile session.options (pages.getD 0 default))
      (pages.map (namePath session.options)) := by
    refine ⟨fun path _ => isDirect_empty path, fun _ => by decide, by decide, ?_, ?_⟩
    · exact fun _ => by decide
    · exact fun _ => by decide
  obtain ⟨writer, -, -, opened⟩ :=
    publishPages_group rfl rfl (.inr rfl) (List.cons_ne_nil _ _) linkable ran
  exact ⟨_, writer, ran, opened⟩

/-- A symbolic link to a file in another directory is written as a path from the working
directory, which leads nowhere from the directory of the link. -/
theorem publishPages_group_apart :
    let pages := [documented "limit" .simple, documented "next" .function]
    let session := softGroup (some "data") pages
    ∃ after, publishPages (contextOf session) "" { pages } = .ok () after ∧
      ∃ page ∈ pages, (after.tree.read (namePath session.options page)).toOption.isNone := by
  intro pages session
  have dangling : ((publish session {} "").1.tree.read
      (namePath session.options (documented "next" .function))).toOption.isNone = true := by
    decide +kernel
  exact ⟨_, publishPages_of_publish (by decide +kernel), documented "next" .function,
    by simp [pages], dangling⟩

end Files
end DeclManual
