import DeclManual.Proofs.Files.Walks
import Mathlib.Data.List.Induction

/-!
# Ways to files

A path to a file is a way to a directory and a name in it.  The way may lead through
symbolic links.  Storing files takes no directory away and replaces nothing but the
entries at the names of these files, so a way leads where it did as long as no symbolic
link on it has one of these names.

A path can lead nowhere when its old file is to be removed and lead to an old entry once
the directories above it are made.  This takes a way that climbs out of a directory that
is not there.
-/

namespace DeclManual
namespace Files

/-- The names of the directory that a path has its last name in. -/
def Path.way (path : Path) : List String :=
  path.names.dropLast

namespace Tree

variable
  {tree before after : Tree}
  {shunned : List String}
  {links : Nat}
  {here directory location : Location}
  {name : String}
  {names rest : List String}

/-! ## Formed trees -/

/-- A tree in which every entry stands in a directory, and whose working directory is one
of its directories. -/
structure Formed (tree : Tree) : Prop where
  inDirectory : ∀ directory name, tree.entryAt? (directory ++ [name]) ≠ none ->
    tree.entryAt? directory = some .directory
  workingDirectory : tree.entryAt? tree.workingDirectory = some .directory

namespace Formed

theorem dropLast
    (formed : tree.Formed)
    (isDirectory : tree.entryAt? here = some .directory) :
    tree.entryAt? here.dropLast = some .directory := by
  rcases List.eq_nil_or_concat here with rfl | ⟨above, last, rfl⟩
  · rfl
  · rw [List.concat_eq_append] at isDirectory ⊢
    rw [List.dropLast_concat]
    exact formed.inDirectory above last (by simp [isDirectory])

theorem start (formed : tree.Formed) (path : Path) :
    tree.entryAt? (tree.start path) = some .directory := by
  unfold Tree.start
  split
  · rfl
  · exact formed.workingDirectory

/-- Nothing stands below a place where nothing stands. -/
theorem absent_append
    (formed : tree.Formed)
    (absent : tree.entryAt? location = none)
    (below : Location) :
    tree.entryAt? (location ++ below) = none := by
  induction below using List.reverseRecOn with
  | nil => rwa [List.append_nil]
  | append_singleton below name hypothesis =>
      by_contra stands
      rw [← List.append_assoc] at stands
      cases hypothesis.symm.trans (formed.inDirectory _ name stands)

/-- A formed tree stays formed when a place is cleared. -/
theorem of_clears (formed : before.Formed) (clears : Clears before location after) :
    after.Formed where
  inDirectory directory name stands := by
    obtain ⟨entry, stands⟩ := Option.ne_none_iff_exists'.1 stands
    exact clears.keepsDirectories _
      (formed.inDirectory directory name (by simp [clears.entryAt?_eq stands]))
  workingDirectory := by
    rw [clears.workingDirectory]
    exact clears.keepsDirectories _ formed.workingDirectory

theorem put
    (formed : tree.Formed)
    (isDirectory : tree.entryAt? directory = some .directory)
    (absent : tree.entryAt? (directory ++ [name]) = none)
    (entry : Entry) :
    (tree.put (directory ++ [name]) entry).Formed where
  inDirectory other last stands := by
    by_cases same : other ++ [last] = directory ++ [name]
    · obtain ⟨rfl, -⟩ : other = directory ∧ last = name := by simpa using same
      exact keepsDirectories_put absent entry _ isDirectory
    · rw [entryAt?_put_of_ne tree entry same] at stands
      exact keepsDirectories_put absent entry _ (formed.inDirectory other last stands)
  workingDirectory := keepsDirectories_put absent entry _ formed.workingDirectory

end Formed

/-- A tree is formed if the entries that it lists are. -/
theorem formed_of_entries
    (listed : ∀ item ∈ tree.entries, tree.entryAt? item.1.dropLast = some .directory)
    (workingDirectory : tree.entryAt? tree.workingDirectory = some .directory) :
    tree.Formed where
  workingDirectory := workingDirectory
  inDirectory directory name stands := by
    rw [entryAt?_of_ne_nil tree (by simp)] at stands
    obtain ⟨entry, stands⟩ := Option.ne_none_iff_exists'.1 stands
    obtain ⟨front, rest, entries_eq, -⟩ := List.lookup_eq_some_iff.1 stands
    have inDirectory := listed (directory ++ [name], entry) (by simp [entries_eq])
    rwa [List.dropLast_concat] at inDirectory

/-! ## Steps of a resolution -/

/-- Where the text of a symbolic link in a directory starts. -/
def linkStart (here : Location) (target : String) : Location :=
  if (⟨target⟩ : Path).isAbsolute then [] else here

/-- The text of a symbolic link is followed from a directory. -/
theorem Formed.linkStart
    (isDirectory : tree.entryAt? here = some .directory)
    (target : String) :
    tree.entryAt? (linkStart here target) = some .directory := by
  unfold Tree.linkStart
  split
  · rfl
  · exact isDirectory

theorem resolveFrom_nil (followLast : Bool) (links : Nat) (here : Location) :
    tree.resolveFrom followLast links here [] = .ok (.taken here .directory) :=
  resolveFrom_of_arrived links rfl

/-- A dot leads nowhere else. -/
theorem resolveFrom_here (followLast : Bool) (links : Nat) (here : Location) (rest : List String) :
    tree.resolveFrom followLast links here ("." :: rest) =
      tree.resolveFrom followLast links here rest := by
  cases links <;> rw [resolveFrom, resolveFrom, walk]

/-- Two dots lead to the directory above. -/
theorem resolveFrom_above (followLast : Bool) (links : Nat) (here : Location) (rest : List String) :
    tree.resolveFrom followLast links here (".." :: rest) =
      tree.resolveFrom followLast links here.dropLast rest := by
  cases links <;> rw [resolveFrom, resolveFrom, walk]

/-- A name leads to its entry, through it if it is a directory, and on from its target if it
is a link. -/
theorem resolveFrom_name
    (isName : IsName name)
    (followLast : Bool)
    (links : Nat)
    (here : Location)
    (rest : List String) :
    tree.resolveFrom followLast links here (name :: rest) =
      match tree.entryAt? (here ++ [name]) with
      | none => if rest.isEmpty then .ok (.vacant here name) else .error .notFound
      | some .directory => tree.resolveFrom followLast links (here ++ [name]) rest
      | some (.file number) =>
        if rest.isEmpty then .ok (.taken (here ++ [name]) (.file number))
        else .error .notDirectory
      | some (.symlink target) =>
        if rest.isEmpty && !followLast then .ok (.taken (here ++ [name]) (.symlink target))
        else
          match links with
          | 0 => .error .linkLoop
          | fewer + 1 =>
            tree.resolveFrom followLast fewer (linkStart here target)
              ((⟨target⟩ : Path).names ++ rest) := by
  have walked := @walk_name tree name isName followLast here rest
  cases stands : tree.entryAt? (here ++ [name]) with
  | none => cases links <;> rw [resolveFrom, walked, stands] <;> cases rest <;> rfl
  | some entry =>
      cases entry with
      | directory => cases links <;> rw [resolveFrom, resolveFrom, walked, stands]
      | file number => cases links <;> rw [resolveFrom, walked, stands] <;> cases rest <;> rfl
      | symlink target =>
          rw [stands] at walked
          dsimp only at walked ⊢
          split
          · rename_i last
            exact resolveFrom_of_arrived links (walked.trans (if_pos last))
          · rename_i notLast
            cases links <;> rw [resolveFrom, walked, if_neg notLast]
            rfl

/-- A name that leads anywhere fits. -/
theorem isName_of_resolveFrom
    {followLast : Bool}
    {spot : Spot}
    (notHere : name ≠ ".")
    (notAbove : name ≠ "..")
    (resolved : tree.resolveFrom followLast links here (name :: rest) = .ok spot) :
    IsName name := by
  refine ⟨notHere, notAbove, Nat.not_lt.1 fun tooLong => ?_⟩
  have walked := (walk.eq_4 tree followLast here name rest notHere notAbove).trans (if_pos tooLong)
  cases (resolveFrom_of_error links walked).symm.trans resolved

/-- Without following links the last name leads to the entry itself. -/
theorem resolveFrom_last_false
    (isName : IsName name)
    (links : Nat)
    (here : Location) :
    tree.resolveFrom false links here [name] = .ok (tree.spot here name) :=
  resolveFrom_of_arrived links
    ((walk_singleton isName false).trans (congrArg Except.ok (arrive_false here name)))

/-- The last name leads to the entry itself where that is no link. -/
theorem resolveFrom_last_true
    (isName : IsName name)
    (noLink : ∀ target, tree.entryAt? (here ++ [name]) ≠ some (.symlink target))
    (links : Nat) :
    tree.resolveFrom true links here [name] = .ok (tree.spot here name) :=
  resolveFrom_of_arrived links
    ((walk_singleton isName true).trans (congrArg Except.ok (arrive_true noLink)))

/-- The induction that a resolution follows: on the symbolic links that may still be
followed, and then on the names. -/
theorem resolution_induction
    {motive : Nat -> Location -> List String -> Prop}
    (nil : ∀ links here, motive links here [])
    (stay : ∀ links here rest, motive links here rest -> motive links here ("." :: rest))
    (up : ∀ links here rest, motive links here.dropLast rest -> motive links here (".." :: rest))
    (name : ∀ links here name rest, name ≠ "." -> name ≠ ".." ->
      motive links (here ++ [name]) rest ->
      (∀ fewer target, links = fewer + 1 ->
        motive fewer (linkStart here target) ((⟨target⟩ : Path).names ++ rest)) ->
      motive links here (name :: rest))
    (links : Nat)
    (here : Location)
    (names : List String) :
    motive links here names := by
  induction links using Nat.strongRecOn generalizing here names with
  | _ links fewerLinks =>
      induction names generalizing here with
      | nil => exact nil links here
      | cons first rest hypothesis =>
          by_cases isHere : first = "."
          · subst isHere
            exact stay links here rest (hypothesis here)
          by_cases isAbove : first = ".."
          · subst isAbove
            exact up links here rest (hypothesis here.dropLast)
          refine name links here first rest isHere isAbove (hypothesis _) ?_
          intro fewer target links_eq
          exact fewerLinks fewer (by omega) _ _

/-- The directory of a vacant name is there. -/
theorem Formed.of_vacant
    {followLast : Bool}
    (formed : tree.Formed)
    (isDirectory : tree.entryAt? here = some .directory)
    (resolved : tree.resolveFrom followLast links here names = .ok (.vacant directory name)) :
    tree.entryAt? directory = some .directory := by
  induction links, here, names using resolution_induction with
  | nil links here =>
      rw [resolveFrom_nil] at resolved
      cases resolved
  | stay links here rest hypothesis =>
      rw [resolveFrom_here] at resolved
      exact hypothesis isDirectory resolved
  | up links here rest hypothesis =>
      rw [resolveFrom_above] at resolved
      exact hypothesis (formed.dropLast isDirectory) resolved
  | name links here first rest notHere notAbove down follow =>
      have isName := isName_of_resolveFrom notHere notAbove resolved
      rw [resolveFrom_name isName] at resolved
      split at resolved
      · split at resolved
        · obtain ⟨rfl, -⟩ := Spot.vacant.inj (Except.ok.inj resolved)
          exact isDirectory
        · cases resolved
      · rename_i stands
        exact down stands resolved
      · split at resolved <;> cases resolved
      · split at resolved
        · cases resolved
        · split at resolved
          · cases resolved
          · exact follow _ _ rfl (Formed.linkStart isDirectory _) resolved

/-- Making a directory keeps a tree formed. -/
theorem Formed.makeDirectory
    {absolute : Bool}
    {made : Tree}
    (formed : tree.Formed)
    (ok : tree.makeDirectory absolute names = .ok made) :
    made.Formed := by
  unfold Tree.makeDirectory at ok
  split at ok
  · cases ok
  · cases ok
  · rename_i directory name resolved
    have started : tree.entryAt? (if absolute then [] else tree.workingDirectory) =
        some .directory := by
      split
      · rfl
      · exact formed.workingDirectory
    exact Except.ok.inj ok ▸
      formed.put (formed.of_vacant started resolved) (entryAt?_of_vacant _ resolved) _

/-- Ensuring a directory keeps a tree formed. -/
theorem Formed.ensureDirectory
    {absolute : Bool}
    {made : Tree}
    (formed : tree.Formed)
    (ok : tree.ensureDirectory absolute names = .ok made) :
    made.Formed := by
  unfold Tree.ensureDirectory at ok
  split at ok
  · rename_i same
    exact Except.ok.inj ok ▸ formed.makeDirectory same
  · split at ok
    · exact Except.ok.inj ok ▸ formed
    · cases ok

/-- Ensuring directories from the innermost out keeps a tree formed. -/
theorem Formed.ensureDirectoriesReversed
    (formed : tree.Formed)
    (absolute : Bool)
    (reversed : List String) :
    (tree.ensureDirectoriesReversed absolute reversed).1.Formed := by
  induction reversed with
  | nil => exact formed
  | cons name above hypothesis =>
      unfold Tree.ensureDirectoriesReversed
      split
      · rename_i made ok
        exact formed.ensureDirectory ok
      · split
        · rename_i made made_eq
          rw [made_eq] at hypothesis
          split
          · rename_i complete ok
            exact hypothesis.ensureDirectory ok
          · exact hypothesis
        · rename_i made error made_eq
          rw [made_eq] at hypothesis
          exact hypothesis
      · exact formed

/-! ## Ways -/

/-- Names that lead from one directory to another, through directories and through at most
`links` symbolic links, none of which has a shunned name. -/
inductive Passes (tree : Tree) (shunned : List String) :
    Nat -> Location -> List String -> Location -> Prop where
  | done {links : Nat} {here : Location} : Passes tree shunned links here [] here
  | stay {links : Nat} {here directory : Location} {rest : List String} :
    Passes tree shunned links here rest directory ->
      Passes tree shunned links here ("." :: rest) directory
  | up {links : Nat} {here directory : Location} {rest : List String} :
    Passes tree shunned links here.dropLast rest directory ->
      Passes tree shunned links here (".." :: rest) directory
  | down {links : Nat} {here directory : Location} {name : String} {rest : List String}
    (isName : IsName name)
    (isDirectory : tree.entryAt? (here ++ [name]) = some .directory) :
    Passes tree shunned links (here ++ [name]) rest directory ->
      Passes tree shunned links here (name :: rest) directory
  | follow {links : Nat} {here directory : Location} {name target : String} {rest : List String}
    (isName : IsName name)
    (unshunned : name ∉ shunned)
    (isLink : tree.entryAt? (here ++ [name]) = some (.symlink target)) :
    Passes tree shunned links (linkStart here target) ((⟨target⟩ : Path).names ++ rest) directory ->
      Passes tree shunned (links + 1) here (name :: rest) directory

/-- Names that lead through a symbolic link of a shunned name, or climb after a name that is
not there. -/
inductive Strays (tree : Tree) (shunned : List String) : Location -> List String -> Prop where
  | stay {here : Location} {rest : List String} :
    Strays tree shunned here rest -> Strays tree shunned here ("." :: rest)
  | up {here : Location} {rest : List String} :
    Strays tree shunned here.dropLast rest -> Strays tree shunned here (".." :: rest)
  | down {here : Location} {name : String} {rest : List String}
    (isName : IsName name)
    (isDirectory : tree.entryAt? (here ++ [name]) = some .directory) :
    Strays tree shunned (here ++ [name]) rest -> Strays tree shunned here (name :: rest)
  | follow {here : Location} {name target : String} {rest : List String}
    (isName : IsName name)
    (unshunned : name ∉ shunned)
    (isLink : tree.entryAt? (here ++ [name]) = some (.symlink target)) :
    Strays tree shunned (linkStart here target) ((⟨target⟩ : Path).names ++ rest) ->
      Strays tree shunned here (name :: rest)
  | shunned {here : Location} {name target : String} {rest : List String}
    (isName : IsName name)
    (isShunned : name ∈ shunned)
    (isLink : tree.entryAt? (here ++ [name]) = some (.symlink target)) :
    Strays tree shunned here (name :: rest)
  | climbs {here : Location} {name : String} {rest : List String}
    (isName : IsName name)
    (absent : tree.entryAt? (here ++ [name]) = none)
    (climbs : ".." ∈ rest) :
    Strays tree shunned here (name :: rest)

/-- Names that start with a directory stray only after it. -/
theorem Strays.after_directory
    (isName : IsName name)
    (isDirectory : tree.entryAt? (here ++ [name]) = some .directory)
    (strays : tree.Strays shunned here (name :: rest)) :
    tree.Strays shunned (here ++ [name]) rest := by
  cases strays with
  | stay _ => exact absurd rfl isName.notHere
  | up _ => exact absurd rfl isName.notAbove
  | down _ _ strays => exact strays
  | follow _ _ isLink _ | shunned _ _ isLink => cases isDirectory.symm.trans isLink
  | climbs _ absent _ => cases isDirectory.symm.trans absent

namespace Passes

/-- What names lead to is what their last names lead to from the end of the way. -/
theorem resolveFrom
    (passes : Passes tree shunned links here names directory)
    (followLast : Bool)
    {further : List String}
    (more : further ≠ []) :
    ∃ left, tree.resolveFrom followLast links here (names ++ further) =
      tree.resolveFrom followLast left directory further := by
  induction passes with
  | @done links here => exact ⟨links, rfl⟩
  | stay _ hypothesis =>
      rw [List.cons_append, resolveFrom_here]
      exact hypothesis
  | up _ hypothesis =>
      rw [List.cons_append, resolveFrom_above]
      exact hypothesis
  | down isName isDirectory _ hypothesis =>
      rw [List.cons_append, resolveFrom_name isName, isDirectory]
      exact hypothesis
  | @follow _ _ _ _ _ rest isName _ isLink _ hypothesis =>
      have notLast : (rest ++ further).isEmpty = false := by simp [more]
      rw [List.cons_append, resolveFrom_name isName, isLink]
      simp only [notLast, Bool.false_and, Bool.false_eq_true, if_false]
      rw [← List.append_assoc]
      exact hypothesis

/-- Past a way the last name leads to the entry itself. -/
theorem resolveFrom_false
    (passes : Passes tree shunned links here names directory)
    (isName : IsName name) :
    tree.resolveFrom false links here (names ++ [name]) = .ok (tree.spot directory name) := by
  obtain ⟨left, resolved⟩ := passes.resolveFrom false (List.cons_ne_nil name [])
  rw [resolved, resolveFrom_last_false isName]

/-- Past a way the last name leads to the entry itself where that is no link. -/
theorem resolveFrom_true
    (passes : Passes tree shunned links here names directory)
    (isName : IsName name)
    (noLink : ∀ target, tree.entryAt? (directory ++ [name]) ≠ some (.symlink target)) :
    tree.resolveFrom true links here (names ++ [name]) = .ok (tree.spot directory name) := by
  obtain ⟨left, resolved⟩ := passes.resolveFrom true (List.cons_ne_nil name [])
  rw [resolved, resolveFrom_last_true isName noLink]

/-- A way leads where it did as long as its directories and its symbolic links stay. -/
theorem mono
    (directories : KeepsDirectories before after)
    (symlinks : ∀ here name target, name ∉ shunned ->
      before.entryAt? (here ++ [name]) = some (.symlink target) ->
      after.entryAt? (here ++ [name]) = some (.symlink target))
    (passes : Passes before shunned links here names directory) :
    Passes after shunned links here names directory := by
  induction passes with
  | done => exact .done
  | stay _ hypothesis => exact .stay hypothesis
  | up _ hypothesis => exact .up hypothesis
  | down isName isDirectory _ hypothesis =>
      exact .down isName (directories _ isDirectory) hypothesis
  | follow isName unshunned isLink _ hypothesis =>
      exact .follow isName unshunned (symlinks _ _ _ unshunned isLink) hypothesis

/-- A way from a directory ends at a directory. -/
theorem isDirectory
    (formed : tree.Formed)
    (passes : Passes tree shunned links here names directory)
    (started : tree.entryAt? here = some .directory) :
    tree.entryAt? directory = some .directory := by
  induction passes with
  | done => exact started
  | stay _ hypothesis => exact hypothesis started
  | up _ hypothesis => exact hypothesis (formed.dropLast started)
  | down _ isDirectory _ hypothesis => exact hypothesis isDirectory
  | follow _ _ _ _ hypothesis => exact hypothesis (Formed.linkStart started _)

end Passes

/-- Names that lead anywhere and do not stray are a way. -/
theorem exists_passes
    {followLast : Bool}
    {spot : Spot}
    {further : List String}
    (more : further ≠ [])
    (straight : ¬ tree.Strays shunned here names)
    (resolved : tree.resolveFrom followLast links here (names ++ further) = .ok spot) :
    ∃ directory, Passes tree shunned links here names directory := by
  induction links, here, names using resolution_induction with
  | nil links here => exact ⟨here, .done⟩
  | stay links here rest hypothesis =>
      rw [List.cons_append, resolveFrom_here] at resolved
      obtain ⟨directory, passes⟩ := hypothesis (fun strays => straight (.stay strays)) resolved
      exact ⟨directory, .stay passes⟩
  | up links here rest hypothesis =>
      rw [List.cons_append, resolveFrom_above] at resolved
      obtain ⟨directory, passes⟩ := hypothesis (fun strays => straight (.up strays)) resolved
      exact ⟨directory, .up passes⟩
  | name links here first rest notHere notAbove down follow =>
      have notLast : (rest ++ further).isEmpty = false := by simp [more]
      rw [List.cons_append] at resolved
      have isName := isName_of_resolveFrom notHere notAbove resolved
      rw [resolveFrom_name isName] at resolved
      simp only [notLast, Bool.false_and, Bool.false_eq_true, if_false] at resolved
      split at resolved
      · cases resolved
      · rename_i stands
        obtain ⟨directory, passes⟩ :=
          down (fun strays => straight (.down isName stands strays)) resolved
        exact ⟨directory, .down isName stands passes⟩
      · cases resolved
      · rename_i target stands
        split at resolved
        · cases resolved
        · rename_i fewer
          have unshunned : first ∉ shunned :=
            fun isShunned => straight (.shunned isName isShunned stands)
          rw [← List.append_assoc] at resolved
          obtain ⟨directory, passes⟩ := follow fewer target rfl
            (fun strays => straight (.follow isName unshunned stands strays)) resolved
          exact ⟨directory, .follow isName unshunned stands passes⟩

/-- The last name of names that lead anywhere fits. -/
theorem isName_of_resolveFrom_concat
    {followLast : Bool}
    {spot : Spot}
    (notHere : name ≠ ".")
    (notAbove : name ≠ "..")
    (resolved : tree.resolveFrom followLast links here (names ++ [name]) = .ok spot) :
    IsName name := by
  induction links, here, names using resolution_induction with
  | nil links here => exact isName_of_resolveFrom notHere notAbove resolved
  | stay links here rest hypothesis =>
      rw [List.cons_append, resolveFrom_here] at resolved
      exact hypothesis resolved
  | up links here rest hypothesis =>
      rw [List.cons_append, resolveFrom_above] at resolved
      exact hypothesis resolved
  | name links here first rest firstNotHere firstNotAbove down follow =>
      have notLast : (rest ++ [name]).isEmpty = false := by simp
      rw [List.cons_append] at resolved
      have firstName := isName_of_resolveFrom firstNotHere firstNotAbove resolved
      rw [resolveFrom_name firstName] at resolved
      simp only [notLast, Bool.false_and, Bool.false_eq_true, if_false] at resolved
      split at resolved
      · cases resolved
      · exact down resolved
      · cases resolved
      · split at resolved
        · cases resolved
        · rw [← List.append_assoc] at resolved
          exact follow _ _ rfl resolved

/-! ## Places that were not there -/

/-- No symbolic link stands at a location or below it. -/
def LinkFree (tree : Tree) (location : Location) : Prop :=
  ∀ below target, tree.entryAt? (location ++ below) ≠ some (.symlink target)

/-- Below a place without links there are none. -/
theorem LinkFree.down (linkFree : tree.LinkFree here) (name : String) :
    tree.LinkFree (here ++ [name]) := by
  intro below target
  rw [List.append_assoc]
  exact linkFree _ target

/-- Names that do not climb stay below where they start if there are no symbolic links. -/
theorem Passes.staysBelow
    (passes : Passes tree shunned links here names directory)
    (linkFree : tree.LinkFree here)
    (climbless : ".." ∉ names) :
    here <+: directory := by
  induction passes with
  | done => exact List.prefix_rfl
  | stay _ hypothesis =>
      exact hypothesis linkFree fun climbs => climbless (List.mem_cons_of_mem _ climbs)
  | up _ _ => exact absurd List.mem_cons_self climbless
  | @down _ _ _ name _ _ _ _ hypothesis =>
      have below := hypothesis (linkFree.down name)
        fun climbs => climbless (List.mem_cons_of_mem _ climbs)
      exact (List.prefix_append _ _).trans below
  | follow _ _ isLink _ _ => exact absurd isLink (linkFree _ _)

/-- From a place without links names lead to no shunned link. -/
theorem LinkFree.straight
    (linkFree : tree.LinkFree here)
    (climbless : ".." ∉ names) :
    ¬ tree.Strays shunned here names := by
  intro strays
  induction strays with
  | stay _ hypothesis =>
      exact hypothesis linkFree fun climbs => climbless (List.mem_cons_of_mem _ climbs)
  | up _ _ => exact climbless List.mem_cons_self
  | @down _ name _ _ _ _ hypothesis =>
      exact hypothesis (linkFree.down name) fun climbs => climbless (List.mem_cons_of_mem _ climbs)
  | follow _ _ isLink _ _ | shunned _ _ isLink => exact linkFree _ _ isLink
  | climbs _ _ climbs => exact climbless (List.mem_cons_of_mem _ climbs)

/-- What a tree has below a place that was not there is not a symbolic link, if all its
symbolic links are old. -/
theorem Formed.linkFree
    (formed : before.Formed)
    (absent : before.entryAt? location = none)
    (symlinks : ∀ location target, after.entryAt? location = some (.symlink target) ->
      before.entryAt? location = some (.symlink target)) :
    after.LinkFree location := by
  intro below target isLink
  cases (formed.absent_append absent below).symm.trans (symlinks _ target isLink)

/-- A tree gains no symbolic link where it grows. -/
theorem Grows.symlinks
    (grows : Grows before after)
    (location : Location)
    (target : String)
    (isLink : after.entryAt? location = some (.symlink target)) :
    before.entryAt? location = some (.symlink target) := by
  rcases grows.entry location with same | ⟨-, made⟩
  · rw [← same, isLink]
  · cases made.symm.trans isLink

/-- A path that leads nowhere before directories are made, and does not stray, leads to a
name in them that was not there. -/
theorem absent_of_grows
    {error : OsError}
    (formed : before.Formed)
    (grows : Grows before after)
    (isName : IsName name)
    (straight : ¬ before.Strays shunned here names)
    (fails : before.resolveFrom false links here (names ++ [name]) = .error error)
    (passes : Passes after shunned links here names directory) :
    before.entryAt? (directory ++ [name]) = none := by
  induction passes with
  | done =>
      rw [List.nil_append, resolveFrom_last_false isName] at fails
      cases fails
  | stay _ hypothesis =>
      rw [List.cons_append, resolveFrom_here] at fails
      exact hypothesis (fun strays => straight (.stay strays)) fails
  | up _ hypothesis =>
      rw [List.cons_append, resolveFrom_above] at fails
      exact hypothesis (fun strays => straight (.up strays)) fails
  | @down _ here directory first rest firstName isDirectory passes hypothesis =>
      rcases grows.entry (here ++ [first]) with same | ⟨absent, -⟩
      · have stands := same.symm.trans isDirectory
        rw [List.cons_append, resolveFrom_name firstName, stands] at fails
        exact hypothesis (fun strays => straight (.down firstName stands strays)) fails
      · have climbless : ".." ∉ rest := fun climbs => straight (.climbs firstName absent climbs)
        obtain ⟨below, rfl⟩ := passes.staysBelow (formed.linkFree absent grows.symlinks) climbless
        rw [List.append_assoc]
        exact formed.absent_append absent _
  | @follow _ here _ first target rest firstName unshunned isLink _ hypothesis =>
      have stands := grows.symlinks _ _ isLink
      have notLast : (rest ++ [name]).isEmpty = false := by simp
      rw [List.cons_append, resolveFrom_name firstName, stands] at fails
      simp only [notLast, Bool.false_and, Bool.false_eq_true, if_false] at fails
      rw [← List.append_assoc] at fails
      exact hypothesis (fun strays => straight (.follow firstName unshunned stands strays)) fails

/-- Names stray only if they did before, where directories have been added, and entries have
been replaced without any that is gone or a symbolic link that is new. -/
theorem Strays.of_change
    (formed : before.Formed)
    (directories : ∀ location, after.entryAt? location = some .directory ->
      before.entryAt? location = some .directory ∨ before.entryAt? location = none)
    (symlinks : ∀ location target, after.entryAt? location = some (.symlink target) ->
      before.entryAt? location = some (.symlink target))
    (absent : ∀ location, after.entryAt? location = none -> before.entryAt? location = none)
    (strays : after.Strays shunned here names) :
    before.Strays shunned here names := by
  induction strays with
  | stay _ hypothesis => exact .stay hypothesis
  | up _ hypothesis => exact .up hypothesis
  | @down _ _ rest isName isDirectory strays hypothesis =>
      rcases directories _ isDirectory with old | new
      · exact .down isName old hypothesis
      · by_cases climbs : ".." ∈ rest
        · exact .climbs isName new climbs
        · exact absurd strays ((formed.linkFree new symlinks).straight climbs)
  | follow isName unshunned isLink _ hypothesis =>
      exact .follow isName unshunned (symlinks _ _ isLink) hypothesis
  | shunned isName isShunned isLink => exact .shunned isName isShunned (symlinks _ _ isLink)
  | climbs isName isAbsent climbs => exact .climbs isName (absent _ isAbsent) climbs

/-- Names that lead astray in a tree that has grown did so before. -/
theorem Grows.strays
    (formed : before.Formed)
    (grows : Grows before after)
    (strays : after.Strays shunned here names) :
    before.Strays shunned here names := by
  refine strays.of_change formed (fun location isDirectory => ?_) grows.symlinks ?_
  · rcases grows.entry location with same | ⟨absent, -⟩
    · exact .inl (same ▸ isDirectory)
    · exact .inr absent
  · intro location absent
    rcases grows.entry location with same | ⟨-, made⟩
    · exact same ▸ absent
    · cases made.symm.trans absent

/-! ## Paths with a name at their end -/

section

variable {path : Path}

/-- A path with a way is not empty. -/
theorem isText_of_way (path_eq : path.names = path.way ++ [name]) : path.text.isEmpty = false :=
  isText_of_names (by simp [path_eq])

/-- A path is resolved along its way, from where it starts. -/
theorem resolve_eq_way (path_eq : path.names = path.way ++ [name]) (followLast : Bool) :
    tree.resolve followLast path =
      tree.resolveFrom followLast linkLimit (tree.start path) (path.way ++ [name]) := by
  rw [resolve_eq (isText_of_way path_eq), ← path_eq]

/-- A path whose last name is taken by no directory can be cleared. -/
theorem Passes.exists_clears
    (path_eq : path.names = path.way ++ [name])
    (isName : IsName name)
    (passes : Passes tree shunned linkLimit (tree.start path) path.way directory)
    (notDirectory : tree.entryAt? (directory ++ [name]) ≠ some .directory) :
    ∃ cleared, removeIfPresent tree path = .ok cleared ∧
      Clears tree (directory ++ [name]) cleared := by
  have resolved := passes.resolveFrom_false isName
  rw [← resolve_eq_way path_eq, spot] at resolved
  have erased : Clears tree (directory ++ [name]) (tree.erase (directory ++ [name])) :=
    ⟨entryAt?_erase_self tree (by simp), notDirectory, fun _ => entryAt?_erase_of_ne tree, rfl, rfl⟩
  cases stands : tree.entryAt? (directory ++ [name]) with
  | none =>
      rw [stands] at resolved
      exact ⟨tree, by rw [removeIfPresent, remove, resolved], stands, notDirectory, fun _ _ => rfl,
        rfl, rfl⟩
  | some entry =>
      rw [stands] at resolved
      cases entry with
      | directory => exact absurd stands notDirectory
      | file number => exact ⟨_, by rw [removeIfPresent, remove, resolved], erased⟩
      | symlink target => exact ⟨_, by rw [removeIfPresent, remove, resolved], erased⟩

/-- At the end of a way a place can be cleared. -/
theorem Passes.clears
    {cleared : Tree}
    (path_eq : path.names = path.way ++ [name])
    (isName : IsName name)
    (passes : Passes tree shunned linkLimit (tree.start path) path.way directory)
    (removed : removeIfPresent tree path = .ok cleared) :
    Clears tree (directory ++ [name]) cleared := by
  by_cases isDirectory : tree.entryAt? (directory ++ [name]) = some .directory
  · have resolved := passes.resolveFrom_false isName
    rw [← resolve_eq_way path_eq, spot, isDirectory] at resolved
    rw [removeIfPresent, remove, resolved] at removed
    cases removed
  · obtain ⟨other, ok, clears⟩ := passes.exists_clears path_eq isName isDirectory
    exact Except.ok.inj (ok.symm.trans removed) ▸ clears

/-- A way leads where it did when the entry at a shunned name is cleared. -/
theorem Clears.passes
    (clears : Clears before (location ++ [name]) after)
    (isShunned : name ∈ shunned)
    (passes : Passes before shunned links here names directory) :
    Passes after shunned links here names directory := by
  refine passes.mono clears.keepsDirectories fun there other target unshunned isLink => ?_
  rw [clears.others _ ?_, isLink]
  intro same
  obtain ⟨-, rfl⟩ : there = location ∧ other = name := by simpa using same
  exact unshunned isShunned

/-- A way is passed in a tree that grows. -/
theorem Grows.passes
    (grows : Grows before after)
    (passes : Passes before shunned links here names directory) :
    Passes after shunned links here names directory := by
  have kept {location : Location} {entry : Entry}
      (stands : before.entryAt? location = some entry) :
      after.entryAt? location = some entry := by
    rcases grows.entry location with same | ⟨absent, -⟩
    · rw [same, stands]
    · cases absent.symm.trans stands
  exact passes.mono (fun _ => kept) fun _ _ _ _ => kept

/-- A way leads where it did when something is put where nothing stood. -/
theorem Passes.put
    (absent : tree.entryAt? location = none)
    (entry : Entry)
    (passes : Passes tree shunned links here names directory) :
    Passes (tree.put location entry) shunned links here names directory := by
  refine passes.mono (keepsDirectories_put absent entry) fun there other target _ isLink => ?_
  rw [entryAt?_put_of_ne tree entry ?_, isLink]
  rintro rfl
  cases absent.symm.trans isLink

/-! ## Storing a file -/

/-- What storing a file at a path does.  The path has a way to the directory of the file,
and nothing else changes but that more directories are there. -/
structure Stores
    (shunned : List String)
    (path : Path)
    (directory : Location)
    (name : String)
    (data : FileData)
    (before after : Tree) : Prop where
  isName : IsName name
  passes : Passes after shunned linkLimit (after.start path) path.way directory
  notDirectory : before.entryAt? (directory ++ [name]) ≠ some .directory
  isFile : after.entryAt? (directory ++ [name]) = some (.file before.files.length)
  others : ∀ location, location ≠ directory ++ [name] ->
    after.entryAt? location = before.entryAt? location ∨
      before.entryAt? location = none ∧ after.entryAt? location = some .directory
  files : after.files = before.files ++ [data]
  workingDirectory : after.workingDirectory = before.workingDirectory
  formed : after.Formed

/-- The directories above a path are made after its old file has been removed, and the path
leads to the place of the old file or to one where there was none. -/
theorem exists_passes_of_write
    {cleared grown : Tree}
    {spot : Spot}
    (formed : before.Formed)
    (isShunned : name ∈ shunned)
    (isName : IsName name)
    (path_eq : path.names = path.way ++ [name])
    (straight : ¬ before.Strays shunned (before.start path) path.way)
    (removed : removeIfPresent before path = .ok cleared)
    (grows : Grows cleared grown)
    (resolved : grown.resolve true path = .ok spot) :
    ∃ directory, Clears before (directory ++ [name]) cleared ∧
      Passes grown shunned linkLimit (grown.start path) path.way directory := by
  cases old : before.resolve false path with
  | error cause =>
      have same : cleared = before := by
        rw [removeIfPresent, remove, old] at removed
        cases cause with
        | notFound => exact (Except.ok.inj removed).symm
        | _ => cases removed
      subst same
      have sameStart : grown.start path = cleared.start path := by
        rw [start, start, grows.workingDirectory]
      rw [resolve_eq_way path_eq, sameStart] at resolved
      rw [resolve_eq_way path_eq] at old
      rw [sameStart]
      obtain ⟨directory, passes⟩ := exists_passes (List.cons_ne_nil name [])
        (fun strays => straight (grows.strays formed strays)) resolved
      have absent := absent_of_grows formed grows isName straight old passes
      exact ⟨directory, ⟨absent, by simp [absent], fun _ _ => rfl, rfl, rfl⟩, passes⟩
  | ok oldSpot =>
      rw [resolve_eq_way path_eq] at old
      obtain ⟨directory, passes⟩ := exists_passes (List.cons_ne_nil name []) straight old
      have clears := passes.clears path_eq isName removed
      have sameStart : grown.start path = before.start path := by
        rw [start, start, grows.workingDirectory, clears.workingDirectory]
      rw [sameStart]
      exact ⟨directory, clears, grows.passes (clears.passes isShunned passes)⟩

/-- Creating a file at the end of a way stores it. -/
theorem stores_create
    {cleared grown : Tree}
    (isName : IsName name)
    (passes : Passes grown shunned linkLimit (grown.start path) path.way directory)
    (clears : Clears before (directory ++ [name]) cleared)
    (grows : Grows cleared grown)
    (formed : grown.Formed)
    (absent : grown.entryAt? (directory ++ [name]) = none)
    (bytes : ByteArray) :
    Stores shunned path directory name { bytes } before
      (grown.create (directory ++ [name]) { bytes }) where
  isName := isName
  passes := by
    have directories : KeepsDirectories (grown.put (directory ++ [name]) (.file grown.files.length))
        (grown.create (directory ++ [name]) { bytes }) := fun _ stands => stands
    exact (passes.put absent _).mono directories fun _ _ _ _ stands => stands
  notDirectory := clears.noDirectory
  isFile := by
    rw [← clears.files, ← grows.files]
    exact entryAt?_put_self grown (by simp) _
  others := by
    intro location elsewhere
    have kept : (grown.create (directory ++ [name]) { bytes }).entryAt? location =
        grown.entryAt? location := entryAt?_put_of_ne grown _ elsewhere
    rw [kept, ← clears.others location elsewhere]
    exact grows.entry location
  files := by
    rw [← clears.files, ← grows.files]
    rfl
  workingDirectory := grows.workingDirectory.trans clears.workingDirectory
  formed := by
    have put := formed.put (passes.isDirectory formed (formed.start path)) absent
      (.file grown.files.length)
    exact ⟨put.inDirectory, put.workingDirectory⟩

/-- A file that is written to a path which does not stray is stored there. -/
theorem stores_of_write
    {cleared grown : Tree}
    {absolute : Bool}
    {above : List String}
    {bytes : ByteArray}
    (formed : before.Formed)
    (isShunned : name ∈ shunned)
    (notHere : name ≠ ".")
    (notAbove : name ≠ "..")
    (path_eq : path.names = path.way ++ [name])
    (straight : ¬ before.Strays shunned (before.start path) path.way)
    (removed : removeIfPresent before path = .ok cleared)
    (made : cleared.ensureDirectories absolute above = (grown, none))
    (ok : grown.write path bytes = .ok after) :
    ∃ directory, Stores shunned path directory name { bytes } before after := by
  have grows := grows_ensureDirectories made
  unfold write at ok
  split at ok
  · cases ok
  cases resolved : grown.resolve true path with
  | error cause =>
      rw [resolved] at ok
      cases ok
  | ok spot =>
      have isName : IsName name := by
        rw [resolve_eq_way path_eq] at resolved
        exact isName_of_resolveFrom_concat notHere notAbove resolved
      obtain ⟨directory, clears, passes⟩ :=
        exists_passes_of_write formed isShunned isName path_eq straight removed grows resolved
      refine ⟨directory, ?_⟩
      have grownFormed : grown.Formed := by
        have all := (formed.of_clears clears).ensureDirectoriesReversed absolute above.reverse
        rwa [← ensureDirectories, made] at all
      -- The place of the file is vacant, or one of the new directories has taken it.
      rcases grows.entry (directory ++ [name]) with same | ⟨-, taken⟩
      · have absent := same.trans clears.absent
        have vacant := passes.resolveFrom_true isName (by simp [absent])
        rw [resolve_eq_way path_eq, vacant, Tree.spot, absent] at ok
        obtain rfl := Except.ok.inj ok
        exact stores_create isName passes clears grows grownFormed absent bytes
      · have onDirectory := passes.resolveFrom_true isName (by simp [taken])
        rw [resolve_eq_way path_eq, onDirectory, Tree.spot, taken] at ok
        cases ok

namespace Stores

variable {data : FileData} (stores : Stores shunned path directory name data before after)
include stores

/-- Storing a file does not change where paths start. -/
theorem start_eq (other : Path) : after.start other = before.start other := by
  rw [start, start, stores.workingDirectory]

/-- Storing a file keeps every directory. -/
theorem keepsDirectories : KeepsDirectories before after := by
  intro location isDirectory
  by_cases same : location = directory ++ [name]
  · exact absurd (same ▸ isDirectory) stores.notDirectory
  · rcases stores.others location same with kept | ⟨absent, -⟩
    · rw [kept, isDirectory]
    · cases absent.symm.trans isDirectory

/-- Storing a file makes no symbolic link. -/
theorem symlinks
    (location : Location)
    (target : String)
    (isLink : after.entryAt? location = some (.symlink target)) :
    before.entryAt? location = some (.symlink target) := by
  by_cases same : location = directory ++ [name]
  · rw [same, stores.isFile] at isLink
    cases isLink
  · rcases stores.others location same with kept | ⟨-, made⟩
    · rw [← kept, isLink]
    · cases made.symm.trans isLink

/-- A way leads where it did when a file of a shunned name has been stored. -/
theorem keepsPasses
    {other : Location}
    (isShunned : name ∈ shunned)
    (passes : Passes before shunned links here names other) :
    Passes after shunned links here names other := by
  refine passes.mono stores.keepsDirectories fun there last target unshunned isLink => ?_
  have elsewhere : there ++ [last] ≠ directory ++ [name] := by
    intro same
    obtain ⟨-, rfl⟩ : there = directory ∧ last = name := by simpa using same
    exact unshunned isShunned
  rcases stores.others _ elsewhere with kept | ⟨absent, -⟩
  · rw [kept, isLink]
  · cases absent.symm.trans isLink

/-- No way strays that did not before the file was stored. -/
theorem strays
    (formed : before.Formed)
    (strays : after.Strays shunned here names) :
    before.Strays shunned here names := by
  refine strays.of_change formed (fun location isDirectory => ?_) stores.symlinks ?_
  · by_cases same : location = directory ++ [name]
    · rw [same, stores.isFile] at isDirectory
      cases isDirectory
    · rcases stores.others location same with kept | ⟨absent, -⟩
      · exact .inl (kept ▸ isDirectory)
      · exact .inr absent
  · intro location absent
    by_cases same : location = directory ++ [name]
    · rw [same, stores.isFile] at absent
      cases absent
    · rcases stores.others location same with kept | ⟨isAbsent, -⟩
      · exact kept ▸ absent
      · exact isAbsent

end Stores

/-- A path that leads to a file with the given data. -/
structure Holds (shunned : List String) (path : Path) (name : String) (data : FileData)
    (tree : Tree) : Prop where
  isName : IsName name
  found : ∃ directory number,
    Passes tree shunned linkLimit (tree.start path) path.way directory ∧
      tree.entryAt? (directory ++ [name]) = some (.file number) ∧
      tree.files[number]? = some data

/-- What has been stored is held. -/
theorem Stores.holds
    {data : FileData}
    (stores : Stores shunned path directory name data before after) :
    Holds shunned path name data after where
  isName := stores.isName
  found := ⟨directory, _, stores.passes, stores.isFile, by simp [stores.files]⟩

/-- A path holds what it did as long as its way, its file and the contents of files stay. -/
theorem Holds.mono
    {data : FileData}
    (holds : Holds shunned path name data before)
    (passes : ∀ {directory},
      Passes before shunned linkLimit (before.start path) path.way directory ->
      Passes after shunned linkLimit (after.start path) path.way directory)
    (file : ∀ directory number, before.entryAt? (directory ++ [name]) = some (.file number) ->
      after.entryAt? (directory ++ [name]) = some (.file number))
    (files : before.files <+: after.files) :
    Holds shunned path name data after where
  isName := holds.isName
  found := by
    obtain ⟨directory, number, found, isFile, holdsData⟩ := holds.found
    obtain ⟨more, files⟩ := files
    refine ⟨directory, number, passes found, file directory number isFile, ?_⟩
    rw [← files, List.getElem?_append_left, holdsData]
    exact (List.getElem?_eq_some_iff.1 holdsData).1

/-- What a path holds does not change when a file of another name is stored. -/
theorem Holds.of_stores
    {other : Path}
    {otherName : String}
    {data otherData : FileData}
    (holds : Holds shunned other otherName otherData before)
    (stores : Stores shunned path directory name data before after)
    (isShunned : name ∈ shunned)
    (distinct : otherName ≠ name) :
    Holds shunned other otherName otherData after := by
  refine holds.mono (fun passes => ?_) (fun there number isFile => ?_) ?_
  · rw [stores.start_eq]
    exact stores.keepsPasses isShunned passes
  · have elsewhere : there ++ [otherName] ≠ directory ++ [name] := by simp [distinct]
    rcases stores.others _ elsewhere with kept | ⟨absent, -⟩
    · rw [kept, isFile]
    · cases absent.symm.trans isFile
  · rw [stores.files]
    exact List.prefix_append _ _

/-- What a path holds is read from it. -/
theorem Holds.read_eq
    {data : FileData}
    (path_eq : path.names = path.way ++ [name])
    (holds : Holds shunned path name data tree) :
    tree.read path = .ok data := by
  obtain ⟨directory, number, passes, isFile, holdsData⟩ := holds.found
  have resolved := passes.resolveFrom_true holds.isName (by simp [isFile])
  rw [read, resolve_eq_way path_eq, resolved, spot, isFile]
  simp [List.getD_eq_getElem?_getD, holdsData]

end

end Tree
end Files
end DeclManual
