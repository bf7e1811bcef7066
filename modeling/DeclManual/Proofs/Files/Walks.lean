import DeclManual.Files.Publish
import Mathlib.Data.List.Basic

/-!
# Where paths lead

Names lead through directories to the name of an entry, or they stop on the way: at a
symbolic link that has to be followed, at a directory, or with an error.  What they lead
to does not change as long as the directories on the way stay, and making directories
takes none away.
-/

namespace DeclManual
namespace Files
namespace Tree

variable {tree : Tree} {here directory : Location} {name : String} {names : List String}

/-! ## Entries -/

theorem entryAt?_of_ne_nil (tree : Tree) {location : Location} (nonempty : location ≠ []) :
    tree.entryAt? location = tree.entries.lookup location :=
  if_neg nonempty

/-- Taking out one key leaves what is listed for the others. -/
theorem lookup_filter_ne
    {entries : List (Location × Entry)}
    {location other : Location}
    (distinct : other ≠ location) :
    (entries.filter (·.1 != location)).lookup other = entries.lookup other := by
  induction entries with
  | nil => rfl
  | cons item rest hypothesis =>
      by_cases kept : item.1 = location
      · have skipped : (other == item.1) = false := by
          simpa [kept] using distinct
        rw [List.filter_cons_of_neg (by simp [kept]), hypothesis, List.lookup_cons, skipped]
      · rw [List.filter_cons_of_pos (by simpa using kept), List.lookup_cons, List.lookup_cons,
          hypothesis]

/-- A key that is taken out is no longer listed. -/
theorem lookup_filter_self (entries : List (Location × Entry)) (location : Location) :
    (entries.filter (·.1 != location)).lookup location = none := by
  rw [List.lookup_eq_none_iff]
  intro item member
  have other : item.1 ≠ location := by simpa using (List.mem_filter.1 member).2
  simpa using other.symm

/-- An erased place holds nothing. -/
theorem entryAt?_erase_self (tree : Tree) {location : Location} (nonempty : location ≠ []) :
    (tree.erase location).entryAt? location = none := by
  rw [entryAt?_of_ne_nil _ nonempty]
  exact lookup_filter_self tree.entries location

/-- Erasing one place leaves the others as they are. -/
theorem entryAt?_erase_of_ne
    (tree : Tree)
    {location other : Location}
    (distinct : other ≠ location) :
    (tree.erase location).entryAt? other = tree.entryAt? other := by
  unfold entryAt?
  split
  · rfl
  · exact lookup_filter_ne distinct

/-- A place holds what was put there last. -/
theorem entryAt?_put_self (tree : Tree) {location : Location} (nonempty : location ≠ [])
    (entry : Entry) :
    (tree.put location entry).entryAt? location = some entry := by
  rw [entryAt?_of_ne_nil _ nonempty]
  simp [put, erase, List.lookup_append, lookup_filter_self]

/-- Putting something at one place leaves the others as they are. -/
theorem entryAt?_put_of_ne
    (tree : Tree)
    {location other : Location}
    (entry : Entry)
    (distinct : other ≠ location) :
    (tree.put location entry).entryAt? other = tree.entryAt? other := by
  unfold entryAt?
  split
  · rfl
  · have absent : (other == location) = false := by simpa using distinct
    simp [put, erase, List.lookup_append, lookup_filter_ne distinct, List.lookup_cons, absent]

/-! ## Names that lead to an entry -/

/-- A name that an entry can have. -/
structure IsName (name : String) : Prop where
  notHere : name ≠ "."
  notAbove : name ≠ ".."
  fits : name.utf8ByteSize ≤ longestName

/-- Names that lead from a directory, through directories only, to a name in a directory,
whatever stands there. -/
inductive Leads (tree : Tree) : Location -> List String -> Location -> String -> Prop where
  | last {here : Location} {name : String} (isName : IsName name) : Leads tree here [name] here name
  | stay {here directory : Location} {rest : List String} {name : String} :
    Leads tree here rest directory name -> Leads tree here ("." :: rest) directory name
  | up {here directory : Location} {rest : List String} {name : String} :
    Leads tree here.dropLast rest directory name -> Leads tree here (".." :: rest) directory name
  | down {here directory : Location} {rest : List String} {other name : String}
    (isName : IsName other)
    (isDirectory : tree.entryAt? (here ++ [other]) = some .directory) :
    Leads tree (here ++ [other]) rest directory name ->
      Leads tree here (other :: rest) directory name

/-- Every directory of one tree is one of another. -/
def KeepsDirectories (before after : Tree) : Prop :=
  ∀ location, before.entryAt? location = some .directory ->
    after.entryAt? location = some .directory

/-- What a walk does at its last name. -/
def arrive (tree : Tree) (followLast : Bool) (directory : Location) (name : String) : Walk :=
  match tree.entryAt? (directory ++ [name]) with
  | none => .arrived (.vacant directory name)
  | some (.symlink target) =>
    if followLast then .follow directory target []
    else .arrived (.taken (directory ++ [name]) (.symlink target))
  | some entry => .arrived (.taken (directory ++ [name]) entry)

/-- A name is looked up in the directory where the walk stands. -/
theorem walk_name
    (isName : IsName name)
    (followLast : Bool)
    (here : Location)
    (rest : List String) :
    tree.walk followLast here (name :: rest) =
      match tree.entryAt? (here ++ [name]) with
      | none => if rest.isEmpty then .ok (.arrived (.vacant here name)) else .error .notFound
      | some .directory => tree.walk followLast (here ++ [name]) rest
      | some (.file number) =>
        if rest.isEmpty then .ok (.arrived (.taken (here ++ [name]) (.file number)))
        else .error .notDirectory
      | some (.symlink target) =>
        if rest.isEmpty && !followLast then
          .ok (.arrived (.taken (here ++ [name]) (.symlink target)))
        else .ok (.follow here target rest) := by
  have fits := Nat.not_lt.2 isName.fits
  exact (walk.eq_4 tree followLast here name rest isName.notHere isName.notAbove).trans
    (if_neg fits)

/-- The last name of a walk is where it arrives. -/
theorem walk_singleton
    (isName : IsName name)
    (followLast : Bool) :
    tree.walk followLast here [name] = .ok (tree.arrive followLast here name) := by
  rw [walk_name isName, arrive]
  cases tree.entryAt? (here ++ [name]) with
  | none => rfl
  | some entry =>
      cases entry with
      | symlink target => cases followLast <;> rfl
      | _ => rfl

namespace Leads

/-- Names that lead to a place end in one that can name an entry. -/
theorem isName (leads : Leads tree here names directory name) : IsName name := by
  induction leads with
  | last isName => exact isName
  | stay _ hypothesis | up _ hypothesis | down _ _ _ hypothesis => exact hypothesis

/-- Through directories alone a walk arrives at the last of the names. -/
theorem walk_eq (leads : Leads tree here names directory name) (followLast : Bool) :
    tree.walk followLast here names = .ok (tree.arrive followLast directory name) := by
  induction leads with
  | last isName => exact walk_singleton isName followLast
  | stay _ hypothesis => rw [walk, hypothesis]
  | up _ hypothesis => rw [walk, hypothesis]
  | down isName isDirectory _ hypothesis => rw [walk_name isName, isDirectory, hypothesis]

/-- Names lead where they did as long as no directory is taken away. -/
theorem mono
    {after : Tree}
    (kept : KeepsDirectories tree after)
    (leads : Leads tree here names directory name) :
    Leads after here names directory name := by
  induction leads with
  | last isName => exact .last isName
  | stay _ hypothesis => exact .stay hypothesis
  | up _ hypothesis => exact .up hypothesis
  | down isName isDirectory _ hypothesis => exact .down isName (kept _ isDirectory) hypothesis

/-- No names lead past a file. -/
theorem walk_append
    {number : Nat}
    (leads : Leads tree here names directory name)
    (isFile : tree.entryAt? (directory ++ [name]) = some (.file number))
    (followLast : Bool)
    {rest : List String}
    (further : rest ≠ []) :
    tree.walk followLast here (names ++ rest) = .error .notDirectory := by
  induction leads with
  | last isName =>
      rw [List.singleton_append, walk_name isName, isFile]
      exact if_neg (by simpa using further)
  | stay _ hypothesis =>
      rw [List.cons_append, walk, hypothesis isFile]
  | up _ hypothesis =>
      rw [List.cons_append, walk, hypothesis isFile]
  | down isName isDirectory _ hypothesis =>
      rw [List.cons_append, walk_name isName, isDirectory]
      exact hypothesis isFile

end Leads

/-- What a walk can do: lead to a name, follow a symbolic link on the way, stop at a
directory, or fail. -/
inductive Outcome (tree : Tree) (here : Location) (names : List String) : Prop where
  | leads (directory : Location) (name : String) (found : Leads tree here names directory name)
  | through
    (front : List String)
    (name : String)
    (rest : List String)
    (directory : Location)
    (target : String)
    (names_eq : names = front ++ name :: rest)
    (further : rest ≠ [])
    (found : Leads tree here (front ++ [name]) directory name)
    (isLink : tree.entryAt? (directory ++ [name]) = some (.symlink target))
    (walk_eq : ∀ followLast, tree.walk followLast here names = .ok (.follow directory target rest))
  | directory
    (location : Location)
    (walk_eq : ∀ followLast,
      tree.walk followLast here names = .ok (.arrived (.taken location .directory)))
  | fails
    (error : OsError)
    (walk_eq : ∀ followLast, tree.walk followLast here names = .error error)

/-- The outcome of a walk whose first name leads to another directory. -/
theorem Outcome.cons
    {next : Location}
    {rest : List String}
    (step : ∀ followLast,
      tree.walk followLast here (name :: rest) = tree.walk followLast next rest)
    (leads : ∀ {names directory last}, Leads tree next names directory last ->
      Leads tree here (name :: names) directory last)
    (outcome : Outcome tree next rest) :
    Outcome tree here (name :: rest) := by
  cases outcome with
  | leads directory last found => exact .leads directory last (leads found)
  | through front last others directory target names_eq further found isLink walk_eq =>
      exact .through (name :: front) last others directory target (names_eq ▸ rfl) further
        (leads found) isLink fun followLast => (step followLast).trans (walk_eq followLast)
  | directory location walk_eq =>
      exact .directory location fun followLast => (step followLast).trans (walk_eq followLast)
  | fails error walk_eq =>
      exact .fails error fun followLast => (step followLast).trans (walk_eq followLast)

/-- Names have one of these outcomes, by induction along the walk. -/
theorem outcome (tree : Tree) (here : Location) (names : List String) :
    Outcome tree here names := by
  induction names generalizing here with
  | nil => exact .directory here fun _ => rfl
  | cons name rest hypothesis =>
      by_cases isHere : name = "."
      · subst isHere
        exact (hypothesis here).cons (fun _ => by rw [walk]) .stay
      by_cases isAbove : name = ".."
      · subst isAbove
        exact (hypothesis here.dropLast).cons (fun _ => by rw [walk]) .up
      by_cases tooLong : longestName < name.utf8ByteSize
      · refine .fails .nameTooLong fun followLast => ?_
        rw [walk, if_pos tooLong]
        · exact isHere
        · exact isAbove
      have isName : IsName name := ⟨isHere, isAbove, Nat.not_lt.1 tooLong⟩
      cases rest with
      | nil => exact .leads here name (.last isName)
      | cons second rest =>
          cases stands : tree.entryAt? (here ++ [name]) with
          | none => exact .fails .notFound fun _ => by rw [walk_name isName, stands]; rfl
          | some entry =>
              cases entry with
              | directory =>
                  exact (hypothesis (here ++ [name])).cons
                    (fun _ => by rw [walk_name isName, stands]) (.down isName stands)
              | file number =>
                  exact .fails .notDirectory fun _ => by rw [walk_name isName, stands]; rfl
              | symlink target =>
                  exact .through [] name (second :: rest) here target rfl (List.cons_ne_nil _ _)
                    (.last isName) stands fun _ => by rw [walk_name isName, stands]; rfl

/-! ## Places -/

/-- The location that names have on their face, as if all were directories. -/
def place (here : Location) : List String -> Location
  | [] => here
  | name :: rest =>
    if name = "." then place here rest
    else if name = ".." then place here.dropLast rest
    else place (here ++ [name]) rest

/-- Where a path starts. -/
def start (tree : Tree) (path : Path) : Location :=
  if path.isAbsolute then [] else tree.workingDirectory

/-- The location that a path has on its face. -/
def placeOf (tree : Tree) (path : Path) : Location :=
  place (tree.start path) path.names

/-- Names lead to the place that they spell. -/
theorem Leads.place_eq (leads : Leads tree here names directory name) :
    place here names = directory ++ [name] := by
  induction leads with
  | last isName => simp [place, isName.notHere, isName.notAbove]
  | stay _ hypothesis => simpa [place] using hypothesis
  | up _ hypothesis => simpa [place] using hypothesis
  | down isName _ _ hypothesis => simpa [place, isName.notHere, isName.notAbove] using hypothesis

/-- None of the directories that a path names is a symbolic link. -/
def IsDirect (tree : Tree) (path : Path) : Prop :=
  ∀ front rest, path.names = front ++ rest -> rest ≠ [] ->
    ∀ target, tree.entryAt? (place (tree.start path) front) ≠ some (.symlink target)

/-- A path stays direct in a tree that gains no symbolic link. -/
theorem isDirect_of_symlinks
    {after : Tree}
    {path : Path}
    (direct : tree.IsDirect path)
    (sameStart : after.workingDirectory = tree.workingDirectory)
    (symlinks : ∀ location target, after.entryAt? location = some (.symlink target) ->
      tree.entryAt? location = some (.symlink target)) :
    after.IsDirect path := by
  intro front rest names_eq further target isLink
  have start_eq : after.start path = tree.start path := by rw [start, start, sameStart]
  rw [start_eq] at isLink
  exact direct front rest names_eq further target (symlinks _ target isLink)

/-! ## Resolution -/

/-- What stands at a name in a directory. -/
def spot (tree : Tree) (directory : Location) (name : String) : Spot :=
  match tree.entryAt? (directory ++ [name]) with
  | none => .vacant directory name
  | some entry => .taken (directory ++ [name]) entry

/-- Without following links a walk arrives at the entry itself. -/
theorem arrive_false (directory : Location) (name : String) :
    tree.arrive false directory name = .arrived (tree.spot directory name) := by
  unfold arrive spot
  cases tree.entryAt? (directory ++ [name]) with
  | none => rfl
  | some entry => cases entry <;> rfl

/-- Where no symbolic link stands a walk arrives at the entry itself. -/
theorem arrive_true
    (noLink : ∀ target, tree.entryAt? (directory ++ [name]) ≠ some (.symlink target)) :
    tree.arrive true directory name = .arrived (tree.spot directory name) := by
  unfold arrive spot
  cases stands : tree.entryAt? (directory ++ [name]) with
  | none => rfl
  | some entry =>
      cases entry with
      | symlink target => exact absurd stands (noLink target)
      | _ => rfl

/-- A walk that arrives needs no link to be resolved. -/
theorem resolveFrom_of_arrived
    {followLast : Bool}
    {spot : Spot}
    (links : Nat)
    (walk_eq : tree.walk followLast here names = .ok (.arrived spot)) :
    tree.resolveFrom followLast links here names = .ok spot := by
  cases links <;> rw [resolveFrom, walk_eq]

/-- A walk that fails is not taken up again. -/
theorem resolveFrom_of_error
    {followLast : Bool}
    {error : OsError}
    (links : Nat)
    (walk_eq : tree.walk followLast here names = .error error) :
    tree.resolveFrom followLast links here names = .error error := by
  cases links <;> rw [resolveFrom, walk_eq]

/-- A path is resolved from where it starts, with all the links allowed. -/
theorem resolve_eq
    {path : Path}
    (isText : path.text.isEmpty = false)
    (followLast : Bool) :
    tree.resolve followLast path =
      tree.resolveFrom followLast linkLimit (tree.start path) path.names := by
  rw [resolve, isText]
  rfl

/-- A path whose walk arrives is resolved to that place, unless it is empty. -/
theorem resolve_of_arrived
    {path : Path}
    {followLast : Bool}
    {spot : Spot}
    (walk_eq : tree.walk followLast (tree.start path) path.names = .ok (.arrived spot)) :
    tree.resolve followLast path = .error .notFound ∨ tree.resolve followLast path = .ok spot := by
  cases isText : path.text.isEmpty with
  | true => exact .inl (if_pos isText)
  | false => exact .inr ((resolve_eq isText followLast).trans (resolveFrom_of_arrived _ walk_eq))

/-- A path whose walk fails is not resolved. -/
theorem resolve_of_error
    {path : Path}
    {followLast : Bool}
    {error : OsError}
    (walk_eq : tree.walk followLast (tree.start path) path.names = .error error) :
    ∃ cause, tree.resolve followLast path = .error cause := by
  cases isText : path.text.isEmpty with
  | true => exact ⟨_, if_pos isText⟩
  | false => exact ⟨_, (resolve_eq isText followLast).trans (resolveFrom_of_error _ walk_eq)⟩

/-- A path with names is not empty. -/
theorem isText_of_names {path : Path} (nonempty : path.names ≠ []) :
    path.text.isEmpty = false := by
  cases isEmpty : path.text.isEmpty with
  | false => rfl
  | true =>
      refine absurd ?_ nonempty
      rw [Path.names, Path.endsWithSlash, String.isEmpty_iff.1 isEmpty]
      rfl

/-- A path that leads somewhere is not empty. -/
theorem Leads.isText
    {path : Path}
    (leads : Leads tree here path.names directory name) :
    path.text.isEmpty = false := by
  refine isText_of_names fun noNames => ?_
  rw [noNames] at leads
  cases leads

/-- A path that meets a symbolic link leads where the text of the link and the rest of the
path lead. -/
theorem resolve_of_follow
    {path : Path}
    {followLast : Bool}
    {target : String}
    {rest : List String}
    (isText : path.text.isEmpty = false)
    (walk_eq : tree.walk followLast (tree.start path) path.names =
      .ok (.follow directory target rest)) :
    tree.resolve followLast path =
      tree.resolveFrom followLast (linkLimit - 1)
        (if (⟨target⟩ : Path).isAbsolute then [] else directory)
        ((⟨target⟩ : Path).names ++ rest) := by
  rw [resolve_eq isText]
  change tree.resolveFrom followLast (linkLimit - 1 + 1) (tree.start path) path.names = _
  rw [resolveFrom, walk_eq]

/-- A path that leads somewhere is resolved to the entry there. -/
theorem Leads.resolve_false
    {path : Path}
    (leads : Leads tree (tree.start path) path.names directory name) :
    tree.resolve false path = .ok (tree.spot directory name) := by
  rw [resolve_eq leads.isText]
  exact resolveFrom_of_arrived _ ((leads.walk_eq false).trans (by rw [arrive_false]))

/-- Where no symbolic link stands a path is resolved to the entry there. -/
theorem Leads.resolve_true
    {path : Path}
    (leads : Leads tree (tree.start path) path.names directory name)
    (noLink : ∀ target, tree.entryAt? (directory ++ [name]) ≠ some (.symlink target)) :
    tree.resolve true path = .ok (tree.spot directory name) := by
  rw [resolve_eq leads.isText]
  exact resolveFrom_of_arrived _ ((leads.walk_eq true).trans (by rw [arrive_true noLink]))

/-- A vacant spot holds no entry. -/
theorem entryAt?_of_vacant
    {followLast : Bool}
    (links : Nat)
    (resolved : tree.resolveFrom followLast links here names = .ok (.vacant directory name)) :
    tree.entryAt? (directory ++ [name]) = none := by
  have arrived {here : Location} {names : List String}
      (walk_eq : tree.walk followLast here names = .ok (.arrived (.vacant directory name))) :
      tree.entryAt? (directory ++ [name]) = none := by
    cases outcome tree here names with
    | leads other last found =>
        rw [found.walk_eq, arrive] at walk_eq
        split at walk_eq
        · rename_i stands
          obtain ⟨rfl, rfl⟩ := Spot.vacant.inj (Walk.arrived.inj (Except.ok.inj walk_eq))
          exact stands
        · split at walk_eq <;> cases walk_eq
        · cases walk_eq
    | through _ _ _ _ _ _ _ _ _ other => cases (other followLast).symm.trans walk_eq
    | directory _ other => cases (other followLast).symm.trans walk_eq
    | fails _ other => cases (other followLast).symm.trans walk_eq
  induction links generalizing here names with
  | zero =>
      rw [resolveFrom] at resolved
      split at resolved
      · cases resolved
      · rename_i walk_eq
        exact arrived (Except.ok.inj resolved ▸ walk_eq)
      · cases resolved
  | succ links hypothesis =>
      rw [resolveFrom] at resolved
      split at resolved
      · cases resolved
      · rename_i walk_eq
        exact arrived (Except.ok.inj resolved ▸ walk_eq)
      · exact hypothesis resolved

/-! ## Changes of a tree -/

/-- A tree with more directories and nothing else that is new. -/
structure Grows (before after : Tree) : Prop where
  entry : ∀ location, after.entryAt? location = before.entryAt? location ∨
    before.entryAt? location = none ∧ after.entryAt? location = some .directory
  files : after.files = before.files
  workingDirectory : after.workingDirectory = before.workingDirectory

namespace Grows

theorem refl (tree : Tree) : Grows tree tree where
  entry _ := .inl rfl
  files := rfl
  workingDirectory := rfl

theorem trans {first second third : Tree} (left : Grows first second) (right : Grows second third) :
    Grows first third where
  entry location := by
    rcases right.entry location with same | ⟨absent, made⟩
    · rw [same]
      exact left.entry location
    · rcases left.entry location with same | ⟨-, earlier⟩
      · exact .inr ⟨same ▸ absent, made⟩
      · exact absurd (earlier.symm.trans absent) (Option.some_ne_none _)
  files := right.files.trans left.files
  workingDirectory := right.workingDirectory.trans left.workingDirectory

end Grows

/-- Making a directory takes nothing away. -/
theorem grows_makeDirectory
    {absolute : Bool}
    {made : Tree}
    (ok : tree.makeDirectory absolute names = .ok made) :
    Grows tree made := by
  unfold makeDirectory at ok
  split at ok
  · cases ok
  · cases ok
  · rename_i directory name resolved
    obtain rfl := Except.ok.inj ok
    have absent := entryAt?_of_vacant _ resolved
    refine ⟨fun location => ?_, rfl, rfl⟩
    by_cases here : location = directory ++ [name]
    · subst here
      exact .inr ⟨absent, entryAt?_put_self tree (by simp) _⟩
    · exact .inl (entryAt?_put_of_ne tree _ here)

/-- Ensuring a directory takes nothing away. -/
theorem grows_ensureDirectory
    {absolute : Bool}
    {made : Tree}
    (ok : tree.ensureDirectory absolute names = .ok made) :
    Grows tree made := by
  unfold ensureDirectory at ok
  split at ok
  · rename_i same
    exact Except.ok.inj ok ▸ grows_makeDirectory same
  · split at ok
    · exact Except.ok.inj ok ▸ .refl tree
    · cases ok

/-- Ensuring directories from the innermost out takes nothing away. -/
theorem grows_ensureDirectoriesReversed (tree : Tree) (absolute : Bool) (reversed : List String) :
    Grows tree (tree.ensureDirectoriesReversed absolute reversed).1 := by
  induction reversed generalizing tree with
  | nil => exact .refl tree
  | cons name above hypothesis =>
      have above := hypothesis tree
      unfold ensureDirectoriesReversed
      split
      · rename_i made ok
        exact grows_ensureDirectory ok
      · split
        · rename_i made made_eq
          rw [made_eq] at above
          split
          · rename_i complete ok
            exact above.trans (grows_ensureDirectory ok)
          · exact above
        · rename_i made error made_eq
          rw [made_eq] at above
          exact above
      · exact .refl tree

/-- Ensuring the directories of a path takes nothing away. -/
theorem grows_ensureDirectories
    {absolute : Bool}
    {grown : Tree}
    {error? : Option OsError}
    (made : tree.ensureDirectories absolute names = (grown, error?)) :
    Grows tree grown := by
  have grows := grows_ensureDirectoriesReversed tree absolute names.reverse
  rwa [← ensureDirectories, made] at grows

/-- A tree in which a location has become vacant, where no directory stood. -/
structure Clears (before : Tree) (location : Location) (after : Tree) : Prop where
  absent : after.entryAt? location = none
  noDirectory : before.entryAt? location ≠ some .directory
  others : ∀ other, other ≠ location -> after.entryAt? other = before.entryAt? other
  files : after.files = before.files
  workingDirectory : after.workingDirectory = before.workingDirectory

namespace Clears

variable {after : Tree} {location : Location}

/-- A change that spares directories keeps them all. -/
theorem keepsDirectories (clears : Clears tree location after) : KeepsDirectories tree after := by
  intro other isDirectory
  by_cases same : other = location
  · exact absurd (same ▸ isDirectory) clears.noDirectory
  · rw [clears.others other same, isDirectory]

/-- What stands once a place has been cleared stood there before. -/
theorem entryAt?_eq
    (clears : Clears tree location after)
    {other : Location}
    {entry : Entry}
    (stands : after.entryAt? other = some entry) :
    tree.entryAt? other = some entry := by
  by_cases same : other = location
  · rw [same, clears.absent] at stands
    cases stands
  · rw [← clears.others other same, stands]

end Clears

/-- A symbolic link on the way of a path keeps the path from leading anywhere. -/
def Blocks (tree : Tree) (path : Path) : Prop :=
  ∀ front name rest directory target, path.names = front ++ name :: rest -> rest ≠ [] ->
    Leads tree (tree.start path) (front ++ [name]) directory name ->
    tree.entryAt? (directory ++ [name]) = some (.symlink target) ->
    tree.walk false (tree.start path) path.names = .ok (.follow directory target rest) ->
      tree.resolve false path = .error .notDirectory

/-- A file in the way of a direct path blocks it. -/
theorem IsDirect.blocks {path : Path} (direct : tree.IsDirect path) : tree.Blocks path := by
  intro front name rest directory target names_eq further leads isLink _
  rw [← leads.place_eq] at isLink
  have split : path.names = (front ++ [name]) ++ rest := by simpa using names_eq
  exact absurd isLink (direct _ rest split further target)

/-- What removing whatever stands at a path can do: nothing if the path does not lead
anywhere, and otherwise the path leads to a vacant name. -/
theorem removeIfPresent_cases
    {path : Path}
    {after : Tree}
    (blocks : tree.Blocks path)
    (ok : removeIfPresent tree path = .ok after) :
    tree.resolve false path = .error .notFound ∧ after = tree ∨
      ∃ directory name, Clears tree (directory ++ [name]) after ∧
        Leads after (after.start path) path.names directory name := by
  have failed {error : OsError} (fails : tree.resolve false path = .error error) :
      tree.resolve false path = .error .notFound ∧ after = tree := by
    rw [removeIfPresent, remove, fails] at ok
    cases error with
    | notFound => exact ⟨fails, (Except.ok.inj ok).symm⟩
    | _ => cases ok
  cases outcome tree (tree.start path) path.names with
  | leads directory name found =>
      refine .inr ⟨directory, name, ?_⟩
      rw [removeIfPresent, remove, found.resolve_false, spot] at ok
      cases stands : tree.entryAt? (directory ++ [name]) with
      | none =>
          rw [stands] at ok
          obtain rfl := Except.ok.inj ok
          exact ⟨⟨stands, by simp [stands], fun _ _ => rfl, rfl, rfl⟩, found⟩
      | some entry =>
          rw [stands] at ok
          have erased (notDirectory : entry ≠ .directory)
              (same : tree.erase (directory ++ [name]) = after) :
              Clears tree (directory ++ [name]) after ∧
                Leads after (after.start path) path.names directory name := by
            subst same
            have clears : Clears tree (directory ++ [name]) (tree.erase (directory ++ [name])) :=
              ⟨entryAt?_erase_self tree (by simp), by simpa [stands] using notDirectory,
                fun _ => entryAt?_erase_of_ne tree, rfl, rfl⟩
            exact ⟨clears, found.mono clears.keepsDirectories⟩
          cases entry with
          | directory => cases ok
          | file number => exact erased Entry.noConfusion (Except.ok.inj ok)
          | symlink target => exact erased Entry.noConfusion (Except.ok.inj ok)
  | through front name rest directory target names_eq further found isLink walk_eq =>
      exact .inl (failed
        (blocks front name rest directory target names_eq further found isLink (walk_eq false)))
  | directory location walk_eq =>
      rcases resolve_of_arrived (walk_eq false) with fails | resolved
      · exact .inl (failed fails)
      · rw [removeIfPresent, remove, resolved] at ok
        cases ok
  | fails error walk_eq =>
      obtain ⟨cause, fails⟩ := resolve_of_error (walk_eq false)
      exact .inl (failed fails)

/-- A new entry at a vacant location takes no directory away. -/
theorem keepsDirectories_put
    {location : Location}
    (absent : tree.entryAt? location = none)
    (entry : Entry) :
    KeepsDirectories tree (tree.put location entry) := by
  intro other isDirectory
  by_cases same : other = location
  · rw [same, absent] at isDirectory
    cases isDirectory
  · rw [entryAt?_put_of_ne tree entry same, isDirectory]

/-- A new entry at a vacant location is one more path of the file that it is. -/
theorem linkCount_put
    {location : Location}
    (absent : tree.entryAt? location = none)
    (entry : Entry)
    (number : Nat) :
    (tree.put location entry).linkCount number =
      tree.linkCount number + if entry = .file number then 1 else 0 := by
  have nonempty : location ≠ [] := by
    rintro rfl
    cases absent
  have others : ∀ item ∈ tree.entries, (item.1 != location) = true := by
    rw [entryAt?_of_ne_nil tree nonempty, List.lookup_eq_none_iff] at absent
    intro item member
    rw [bne_iff_ne]
    rintro same
    exact absurd same.symm (by simpa using absent item member)
  have kept : (tree.erase location).entries = tree.entries :=
    List.filter_eq_self.2 others
  rw [linkCount, put, kept, List.countP_append, List.countP_singleton]
  simp only [beq_iff_eq]
  rfl

/-- A hard link gives the file that it is made to one more path, and no other file. -/
theorem linkCount_hardLink
    {existing link : Path}
    {after : Tree}
    (linked : tree.hardLink existing link = .ok after) :
    ∃ location entry, tree.resolve false existing = .ok (.taken location entry) ∧
      ∀ number, after.linkCount number =
        tree.linkCount number + if entry = .file number then 1 else 0 := by
  unfold hardLink at linked
  split at linked
  · cases linked
  · cases linked
  rename_i location entry resolved
  split at linked
  · cases linked
  · cases linked
  rename_i directory name vacant
  split at linked
  · cases linked
  obtain rfl := Except.ok.inj linked
  refine ⟨location, entry, resolved, linkCount_put ?_ entry⟩
  unfold resolve at vacant
  split at vacant
  · cases vacant
  · exact entryAt?_of_vacant linkLimit vacant

/-- A file that is written where nothing stands is a new one. -/
theorem write_eq_create
    {path : Path}
    {bytes : ByteArray}
    {after : Tree}
    (direct : tree.IsDirect path)
    (absent : ∀ entry, tree.entryAt? (tree.placeOf path) = some entry -> entry = .directory)
    (ok : tree.write path bytes = .ok after) :
    ∃ directory name, Leads tree (tree.start path) path.names directory name ∧
      tree.entryAt? (directory ++ [name]) = none ∧
      after = tree.create (directory ++ [name]) { bytes } := by
  unfold write at ok
  split at ok
  · cases ok
  cases outcome tree (tree.start path) path.names with
  | leads directory name found =>
      rw [placeOf, found.place_eq] at absent
      rw [found.resolve_true fun target isLink => Entry.noConfusion (absent _ isLink), spot] at ok
      cases stands : tree.entryAt? (directory ++ [name]) with
      | none =>
          rw [stands] at ok
          exact ⟨directory, name, found, stands, (Except.ok.inj ok).symm⟩
      | some entry =>
          obtain rfl := absent entry stands
          rw [stands] at ok
          cases ok
  | through front name rest directory target names_eq further found isLink _ =>
      rw [← found.place_eq] at isLink
      exact absurd isLink (direct _ rest (by simpa using names_eq) further target)
  | directory location walk_eq =>
      rcases resolve_of_arrived (walk_eq true) with fails | resolved
      · rw [fails] at ok
        cases ok
      · rw [resolved] at ok
        cases ok
  | fails error walk_eq =>
      obtain ⟨cause, fails⟩ := resolve_of_error (walk_eq true)
      rw [fails] at ok
      cases ok

/-! ## Listings -/

/-- A listing has every entry below the working directory, under the way to it from there. -/
theorem mem_listing
    {way : String}
    {entry : Entry} :
    (way, entry) ∈ tree.listing ↔
      way ≠ "" ∧ ∃ names, (tree.workingDirectory ++ names, entry) ∈ tree.entries ∧
        "/".intercalate names = way := by
  unfold listing
  rw [List.mem_mergeSort, List.mem_filter, List.mem_filterMap]
  constructor
  · rintro ⟨⟨⟨location, stored⟩, member, isBelow⟩, isNamed⟩
    obtain ⟨names, isPrefix, same⟩ := Option.map_eq_some_iff.1 isBelow
    obtain ⟨rfl, rfl⟩ := Prod.mk.inj same
    obtain rfl := List.isPrefixOf?_eq_some_iff_append_eq.1 isPrefix
    exact ⟨by simpa using isNamed, names, member, rfl⟩
  · rintro ⟨isNamed, names, member, rfl⟩
    have isPrefix : tree.workingDirectory.isPrefixOf? (tree.workingDirectory ++ names) =
        some names :=
      List.isPrefixOf?_eq_some_iff_append_eq.2 rfl
    exact ⟨⟨_, member, by simp [isPrefix]⟩, by simpa using isNamed⟩

/-- A listing is in the order of its ways. -/
theorem pairwise_listing (tree : Tree) :
    tree.listing.Pairwise fun first second => first.1 ≤ second.1 := by
  unfold listing
  refine (List.pairwise_mergeSort ?_ ?_ _).imp fun inOrder => of_decide_eq_true inOrder
  · intro first second third before after
    exact decide_eq_true (String.le_trans (of_decide_eq_true before) (of_decide_eq_true after))
  · intro first second
    simpa using String.le_total first.1 second.1

end Tree
end Files
end DeclManual
