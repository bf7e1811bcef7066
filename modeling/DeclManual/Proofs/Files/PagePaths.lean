import DeclManual.Proofs.Files.Groups
import DeclManual.Proofs.Files.Ways
import DeclManual.Proofs.Source.Fit

/-!
# Paths of pages

The file of a page is a name in the directory of its kind.  The name starts with a word
and a dot, so pages that are named after different words have different files, whatever
their directories and extensions are.
-/

namespace DeclManual

namespace Files
namespace Path

/-! ## Names in directories -/

/-- A name that is one component of a path, other than the dots. -/
structure IsComponent (name : String) : Prop where
  nonempty : name ≠ ""
  noSlash : '/' ∉ name.toList
  notHere : name ≠ "."
  notAbove : name ≠ ".."

/-- The components of a path as they are written, every `.` included. -/
def pieces (path : Path) : List String :=
  ((Text.splitOn '/' path.text.toList).filter (!·.isEmpty)).map String.ofList

theorem parts_eq_pieces (path : Path) :
    path.parts =
      match path.pieces with
      | [] => []
      | first :: rest =>
        if path.isAbsolute || first != "." then dropDots (first :: rest)
        else first :: dropDots rest := rfl

theorem names_eq_pieces (path : Path) :
    path.names = path.pieces ++ if path.endsWithSlash then ["."] else [] := rfl

variable {name other : String}

theorem IsComponent.toList_ne_nil (component : IsComponent name) : name.toList ≠ [] := by
  simpa using component.nonempty

theorem IsComponent.pieces_eq (component : IsComponent name) : (⟨name⟩ : Path).pieces = [name] := by
  have nonempty := component.toList_ne_nil
  simp [pieces, Text.splitOn_of_not_mem component.noSlash, nonempty]

theorem IsComponent.isAbsolute_eq (component : IsComponent name) :
    (⟨name⟩ : Path).isAbsolute = false := by
  have noLead : name.toList.head? ≠ some '/' :=
    fun same => component.noSlash (List.mem_of_head? same)
  simpa [isAbsolute] using noLead

/-- How a path is continued by a name: at once if it is empty or ends with a slash, and
after a slash otherwise. -/
theorem join_cases (component : IsComponent name) (base : Path) :
    base.text.toList = [] ∧ base.join ⟨name⟩ = ⟨name⟩ ∨
      (∃ front, base.text.toList = front ++ ['/'] ∧
        (base.join ⟨name⟩).text.toList = front ++ '/' :: name.toList) ∨
      base.text.toList ≠ [] ∧
        (base.join ⟨name⟩).text.toList = base.text.toList ++ '/' :: name.toList := by
  unfold join
  simp only [component.isAbsolute_eq, Bool.false_eq_true, if_false]
  split
  · rename_i isEmpty
    exact .inl ⟨by simpa using isEmpty, rfl⟩
  · rename_i slash
    obtain ⟨front, split⟩ := List.getLast?_eq_some_iff.1 slash
    exact .inr (.inl ⟨front, split, by simp [split]⟩)
  · rename_i c _ last
    refine .inr (.inr ⟨?_, by simp⟩)
    intro isEmpty
    rw [isEmpty] at last
    cases last

theorem pieces_join (component : IsComponent name) (base : Path) :
    (base.join ⟨name⟩).pieces = base.pieces ++ [name] := by
  have named : ((Text.splitOn '/' name.toList).filter (!·.isEmpty)).map String.ofList = [name] :=
    component.pieces_eq
  rcases join_cases component base with ⟨isEmpty, joined⟩ | ⟨front, split, joined⟩ | ⟨-, joined⟩
  · rw [joined, component.pieces_eq, pieces, isEmpty]
    rfl
  · rw [pieces, pieces, joined, split, Text.splitOn_append, Text.splitOn_append]
    simp only [List.filter_append, List.map_append, named]
    simp [Text.splitOn]
  · rw [pieces, pieces, joined, Text.splitOn_append]
    simp only [List.filter_append, List.map_append, named]

theorem endsWithSlash_join (component : IsComponent name) (base : Path) :
    (base.join ⟨name⟩).endsWithSlash = false := by
  have nonempty := component.toList_ne_nil
  have noTrail : name.toList.getLast? ≠ some '/' :=
    fun same => component.noSlash (List.mem_of_getLast? same)
  rcases join_cases component base with ⟨-, joined⟩ | ⟨front, -, joined⟩ | ⟨-, joined⟩
  · simpa [endsWithSlash, joined] using noTrail
  · simpa [endsWithSlash, joined, List.getLast?_append, List.getLast?_cons_of_ne_nil nonempty,
      component.nonempty] using noTrail
  · simpa [endsWithSlash, joined, List.getLast?_append, List.getLast?_cons_of_ne_nil nonempty,
      component.nonempty] using noTrail

theorem names_join (component : IsComponent name) (base : Path) :
    (base.join ⟨name⟩).names = base.pieces ++ [name] := by
  rw [names_eq_pieces, endsWithSlash_join component, pieces_join component]
  exact List.append_nil _

theorem way_join (component : IsComponent name) (base : Path) :
    (base.join ⟨name⟩).way = base.pieces := by
  rw [way, names_join component, List.dropLast_concat]

theorem isAbsolute_join (component : IsComponent name) (base : Path) :
    (base.join ⟨name⟩).isAbsolute = base.isAbsolute := by
  rcases join_cases component base with ⟨isEmpty, joined⟩ | ⟨front, split, joined⟩ | ⟨text, joined⟩
  · rw [joined, component.isAbsolute_eq, isAbsolute, isEmpty]
    rfl
  · rw [isAbsolute, isAbsolute, joined, split]
    cases front <;> rfl
  · rw [isAbsolute, isAbsolute, joined]
    cases letters : base.text.toList with
    | nil => exact absurd letters text
    | cons c rest => rfl

theorem parts_join (component : IsComponent name) (base : Path) :
    (base.join ⟨name⟩).parts = base.parts ++ [name] := by
  have kept : dropDots [name] = [name] := dropDots_cons component.notHere []
  rw [parts_eq_pieces, parts_eq_pieces, pieces_join component, isAbsolute_join component]
  cases base.pieces with
  | nil =>
      have other : (name != ".") = true := by simpa using component.notHere
      simp only [List.nil_append, other, Bool.or_true, if_true]
      exact kept
  | cons first rest =>
      simp only [List.cons_append]
      rw [← List.cons_append, dropDots_append, dropDots_append, kept]
      split <;> rfl

/-- Two names in directories have the same path exactly if they are equal and the directories
are the same. -/
theorem same_join
    (component : IsComponent name)
    (otherComponent : IsComponent other)
    (base otherBase : Path) :
    (base.join ⟨name⟩).same (otherBase.join ⟨other⟩) = true ↔
      base.same otherBase = true ∧ name = other := by
  unfold same
  rw [isAbsolute_join component, isAbsolute_join otherComponent, parts_join component,
    parts_join otherComponent]
  simp [and_assoc]

end Path

/-! ## Files of pages -/

/-- The characters of a word are neither dots nor slashes. -/
theorem not_mem_of_isWordText
    {text : String}
    {c : Char}
    (isWord : Source.IsWordText text)
    (isMark : Source.isWordChar c = false) :
    c ∉ text.toList :=
  fun member => Bool.false_ne_true (isMark.symm.trans (isWord.2 c member))

/-- A word, a dot and an extension are a name. -/
theorem isComponent_of_isWordText
    {base extension : String}
    (isWord : Source.IsWordText base)
    (noSlash : '/' ∉ extension.toList) :
    Path.IsComponent (base ++ "." ++ extension) := by
  have baseSlash := not_mem_of_isWordText isWord (by decide : Source.isWordChar '/' = false)
  have letters : (base ++ "." ++ extension).toList = base.toList ++ '.' :: extension.toList := by
    simp
  obtain ⟨c, rest, base_eq⟩ : ∃ c rest, base.toList = c :: rest :=
    List.exists_cons_of_ne_nil (by simpa using isWord.1)
  -- The name starts with a letter of the word, which the dots do not.
  have starts {name : String} {others : List Char} (dotted : name.toList = '.' :: others) :
      base ++ "." ++ extension ≠ name := by
    rintro rfl
    rw [letters, base_eq] at dotted
    refine not_mem_of_isWordText isWord (by decide : Source.isWordChar '.' = false) ?_
    rw [base_eq, (List.cons.inj dotted).1]
    exact List.mem_cons_self
  refine ⟨?_, ?_, starts (rfl : ".".toList = '.' :: []), starts (rfl : "..".toList = '.' :: ['.'])⟩
  · intro isEmpty
    rw [isEmpty] at letters
    simp at letters
  · rw [letters]
    simp [baseSlash, noSlash]

/-- The word of a name is what stands before its first dot. -/
theorem fileName_injective
    {base otherBase extension otherExtension : String}
    (isWord : Source.IsWordText base)
    (otherWord : Source.IsWordText otherBase)
    (same : base ++ "." ++ extension = otherBase ++ "." ++ otherExtension) :
    base = otherBase ∧ extension = otherExtension := by
  have dotless := not_mem_of_isWordText isWord (by decide : Source.isWordChar '.' = false)
  have otherDotless := not_mem_of_isWordText otherWord (by decide : Source.isWordChar '.' = false)
  have letters : base.toList ++ '.' :: extension.toList =
      otherBase.toList ++ '.' :: otherExtension.toList := by
    simpa using congrArg String.toList same
  have pieces := congrArg (Text.splitOn '.') letters
  rw [Text.splitOn_append, Text.splitOn_append, Text.splitOn_of_not_mem dotless,
    Text.splitOn_of_not_mem otherDotless] at pieces
  have bases : base.toList = otherBase.toList := (List.cons.inj pieces).1
  rw [bases] at letters
  exact ⟨String.toList_inj.1 bases,
    String.toList_inj.1 (List.cons.inj (List.append_cancel_left letters)).2⟩

variable {options : Options}

/-- The directory of the pages of a kind. -/
def pageDirectory (options : Options) (kind : ObjectKind) : Path :=
  let directory : Path := ⟨options.outputDir.getD ""⟩
  match (options.objects.get kind).subdir with
  | some subdir => directory.join ⟨subdir⟩
  | none => directory

/-- What the file of a page is named after. -/
def fileBase (options : Options) (page : ManualPage) : String :=
  if options.useInputName then page.sourceBase.getD page.name else page.name

/-- The name of the file of a page in its directory. -/
def fileName (options : Options) (page : ManualPage) : String :=
  fileBase options page ++ "." ++ pageSection options page.objectKind

theorem pageFile_eq_join (options : Options) (page : ManualPage) :
    pageFile options page =
      (pageDirectory options page.objectKind).join ⟨fileName options page⟩ := rfl

/-- Pages whose files are named after different words, with extensions that are no paths. -/
structure Distinguished (options : Options) (pages : List ManualPage) : Prop where
  isWord : ∀ page ∈ pages, Source.IsWordText (fileBase options page)
  distinct : (pages.map (fileBase options)).Nodup
  noSlash : ∀ page ∈ pages, '/' ∉ (pageSection options page.objectKind).toList

namespace Distinguished

variable {pages : List ManualPage} (distinguished : Distinguished options pages)
include distinguished

theorem isComponent {page : ManualPage} (member : page ∈ pages) :
    Path.IsComponent (fileName options page) :=
  isComponent_of_isWordText (distinguished.isWord page member) (distinguished.noSlash page member)

theorem names_pageFile {page : ManualPage} (member : page ∈ pages) :
    (pageFile options page).names = (pageFile options page).way ++ [fileName options page] := by
  have component := distinguished.isComponent member
  rw [pageFile_eq_join, Path.way_join component, Path.names_join component]

theorem pairwise : pages.Pairwise fun first second =>
    fileName options first ≠ fileName options second := by
  have bases := List.pairwise_map.1 distinguished.distinct
  refine bases.imp_of_mem fun {first second} firstMember secondMember apart same => apart ?_
  exact (fileName_injective (distinguished.isWord first firstMember)
    (distinguished.isWord second secondMember) same).1

/-- The files of different pages have different paths. -/
theorem pairwise_same : (pages.map (pageFile options)).Pairwise fun first second =>
    first.same second = false := by
  refine List.pairwise_map.2 (distinguished.pairwise.imp_of_mem ?_)
  intro first second firstMember secondMember apart
  rw [Bool.eq_false_iff, pageFile_eq_join, pageFile_eq_join, Ne,
    Path.same_join (distinguished.isComponent firstMember) (distinguished.isComponent secondMember)]
  exact fun same => apart same.2

end Distinguished

end Files
end DeclManual
