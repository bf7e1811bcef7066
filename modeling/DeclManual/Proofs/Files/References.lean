import DeclManual.Proofs.Files.Grouping
import DeclManual.Proofs.Markup.Html
import Mathlib.Data.List.DropRight

/-!
# Where cross-references lead

In HTML the SEE ALSO section of a page refers to every other page of the run by a path,
which is read from the directory of the page's own file.  The path is made of the name
of the other page and of the section of the run, while the file of a page has the
directory and the extension of its kind.  So a reference leads to the file of its page
exactly if both pages have the same directory and the extension is the section of the
run.
-/

namespace DeclManual

/-! ## Paths that are read beside a file -/

namespace Files.Path

/-- The path that a name has when it is read from the directory of a file: it takes the place
of what stands after the last slash. -/
def beside (path : Path) (name : String) : Path :=
  ⟨String.ofList (path.text.toList.rdropWhile (· != '/')) ++ name⟩

theorem rdropWhile_append
    {text name : List Char}
    (noSlash : '/' ∉ name) :
    (text ++ name).rdropWhile (· != '/') = text.rdropWhile (· != '/') := by
  have others : ∀ c ∈ name.reverse, (c != '/') = true := by
    intro c member
    simp only [bne_iff_ne]
    rintro rfl
    exact noSlash (List.mem_reverse.1 member)
  rw [List.rdropWhile, List.rdropWhile, List.reverse_append, List.dropWhile_append_of_pos others]

/-- A name beside one in a directory is in that directory. -/
theorem beside_join
    {name other : String}
    (component : IsComponent name)
    (otherComponent : IsComponent other)
    (base : Path) :
    (base.join ⟨name⟩).beside other = base.join ⟨other⟩ := by
  have lone : name.toList.rdropWhile (· != '/') = [] := by
    have dropped := @rdropWhile_append [] name.toList component.noSlash
    simpa using dropped
  unfold beside join
  simp only [component.isAbsolute_eq, otherComponent.isAbsolute_eq, Bool.false_eq_true, if_false]
  split
  · simp [lone]
  · rename_i slash
    obtain ⟨front, split⟩ := List.getLast?_eq_some_iff.1 slash
    have kept : (base.text.toList ++ name.toList).rdropWhile (· != '/') = base.text.toList := by
      rw [rdropWhile_append component.noSlash, split, List.rdropWhile_concat_neg _ _ _ (by simp)]
    simp [kept]
  · have kept : (base.text.toList ++ ['/'] ++ name.toList).rdropWhile (· != '/') =
        base.text.toList ++ ['/'] := by
      rw [rdropWhile_append component.noSlash, List.rdropWhile_concat_neg _ _ _ (by simp)]
    have letters : (base.text ++ "/" ++ name).toList =
        base.text.toList ++ ['/'] ++ name.toList := by
      simp
    simp only [letters, kept]
    congr 1
    apply String.toList_inj.1
    simp

end Files.Path

/-! ## References of a text -/

namespace Markup.Html

/-- A text refers to a path: it opens the value of a reference that reads as the path when its
entities are undone, and closes it at the next double quote. -/
def Refers (text : List Char) (path : String) : Prop :=
  ∃ before quoted after, text = before ++ referenceStart.toList ++ (quoted ++ '"' :: after) ∧
    '"' ∉ quoted ∧ String.ofList (unescape quoted) = path

theorem piecesAll_append
    (settings : Settings)
    (inCode : Bool)
    (first second : List Call) :
    piecesAll settings inCode (first ++ second) =
      piecesAll settings inCode first ++
        piecesAll settings (first.foldl inCodeAfter inCode) second := by
  induction first generalizing inCode with
  | nil => rfl
  | cons call rest hypothesis =>
      rw [List.cons_append, piecesAll, piecesAll, hypothesis, List.append_assoc, List.foldl_cons]

/-- Calls that are written alike inside and outside of a prototype. -/
def Alike (settings : Settings) (calls : List Call) : Prop :=
  ∀ call ∈ calls, ∀ inCode, pieces settings inCode call = pieces settings false call

namespace Alike

variable {settings : Settings}

theorem nil : Alike settings [] := by simp [Alike]

theorem singleton
    {call : Call}
    (same : ∀ inCode, pieces settings inCode call = pieces settings false call) :
    Alike settings [call] := by
  simpa [Alike] using same

theorem append
    {first second : List Call}
    (left : Alike settings first)
    (right : Alike settings second) :
    Alike settings (first ++ second) := by
  intro call member
  rcases List.mem_append.1 member with inFirst | inSecond
  · exact left call inFirst
  · exact right call inSecond

theorem piecesAll_eq
    {calls : List Call}
    (alike : Alike settings calls)
    (inCode : Bool) :
    piecesAll settings inCode calls = calls.flatMap (pieces settings false) := by
  induction calls generalizing inCode with
  | nil => rfl
  | cons call rest hypothesis =>
      rw [piecesAll, List.flatMap_cons, alike call List.mem_cons_self,
        hypothesis fun other member => alike other (List.mem_cons_of_mem call member)]

end Alike

/-- The path that a reference to a name is written as. -/
def referencePath (settings : Settings) (name : String) : String :=
  name ++ "." ++ settings.manualSection

theorem unescape_referencePath (settings : Settings) (name : String) :
    String.ofList (unescape
        (name.toList.flatMap escape ++ '.' :: settings.manualSection.toList.flatMap escape)) =
      referencePath settings name := by
  have written : name.toList.flatMap escape ++ '.' :: settings.manualSection.toList.flatMap escape =
      (referencePath settings name).toList.flatMap escape := by
    simp only [referencePath, String.toList_append, List.flatMap_append, List.append_assoc]
    rfl
  rw [written, unescape_escape, String.ofList_toList]

/-- What calls write refers to the paths of the references among them, and to nothing else. -/
theorem refers_iff
    (settings : Settings)
    (inCode : Bool)
    (calls : List Call)
    (path : String) :
    Refers (writePieces escape (piecesAll settings inCode calls)) path ↔
      ∃ name, .reference name ∈ calls ∧ path = referencePath settings name := by
  constructor
  · rintro ⟨before, quoted, after, text_eq, noQuote, rfl⟩
    rw [← writeAll_eq] at text_eq
    obtain ⟨name, value, rest, member, value_eq, closed, after_eq⟩ :=
      (faithful_piecesAll settings inCode calls).reference _ _ text_eq
    -- Both values end at the first double quote.
    have pieces := congrArg (Text.splitOn '"') after_eq
    change _ = Text.splitOn '"' (value ++ '"' :: '>' :: [] ++ rest) at pieces
    rw [List.append_assoc, List.cons_append, Text.splitOn_append, Text.splitOn_append,
      Text.splitOn_of_not_mem noQuote, Text.splitOn_of_not_mem closed] at pieces
    have same : quoted = value := (List.cons.inj pieces).1
    exact ⟨name, member, by rw [same, value_eq, unescape_referencePath]⟩
  · rintro ⟨name, member, rfl⟩
    obtain ⟨first, second, rfl⟩ := List.append_of_mem member
    let ending := writePieces escape
      ([.escaped name, .raw "</a>"] ++
        piecesAll settings (inCodeAfter (first.foldl inCodeAfter inCode) (.reference name)) second)
    refine ⟨writePieces escape (piecesAll settings inCode first),
      name.toList.flatMap escape ++ '.' :: settings.manualSection.toList.flatMap escape,
      '>' :: ending, ?_, ?_, unescape_referencePath settings name⟩
    · rw [piecesAll_append, piecesAll, writePieces_append]
      simp [pieces, basic, referenceStart, ending, writePieces, Piece.write]
    · rw [List.mem_append, List.mem_cons]
      rintro (inName | dot | inSection)
      · exact (isClean_of_mem_flatMap_escape inName).2.2 rfl
      · exact absurd dot (by decide)
      · exact (isClean_of_mem_flatMap_escape inSection).2.2 rfl

end Markup.Html

/-! ## The SEE ALSO section -/

namespace Page

open Markup

/-- The names of all pages but the one at an index. -/
def otherNames (pages : List ManualPage) (index : Nat) : List String :=
  (pages.take index ++ pages.drop (index + 1)).map ManualPage.name

/-- The calls of the SEE ALSO section of the page at an index. -/
def seeAlsoCalls (options : Options) (pages : List ManualPage) (index : Nat) : List Call :=
  unlessExcluded options "SEE ALSO" (seeAlsoSection (otherNames pages index))

theorem mem_otherNames
    {pages : List ManualPage}
    {index : Nat}
    {name : String} :
    name ∈ otherNames pages index ↔
      ∃ other, ∃ bound : other < pages.length, other ≠ index ∧ pages[other].name = name := by
  unfold otherNames
  rw [← List.eraseIdx_eq_take_drop_succ, List.mem_map]
  constructor
  · rintro ⟨page, member, rfl⟩
    obtain ⟨other, bound, apart, rfl⟩ := List.mem_eraseIdx_iff_getElem.1 member
    exact ⟨other, bound, apart, rfl⟩
  · rintro ⟨other, bound, apart, rfl⟩
    exact ⟨pages[other], List.mem_eraseIdx_iff_getElem.2 ⟨other, bound, apart, rfl⟩, rfl⟩

theorem mem_separated_reference {names : List String} {name : String} :
    .reference name ∈ separated [.text ",\n"] (fun name => [Call.reference name]) names ↔
      name ∈ names := by
  fun_induction separated [Call.text ",\n"] (fun name => [Call.reference name]) names with
  | case1 => simp
  | case2 last => simp
  | case3 first rest _ hypothesis => simp [hypothesis]

theorem reference_mem_seeAlsoSection {names : List String} {name : String} :
    .reference name ∈ seeAlsoSection names ↔ name ∈ names := by
  unfold seeAlsoSection
  split
  · rename_i noNames
    simp [List.isEmpty_iff.1 noNames]
  · simp [mem_separated_reference]

theorem compose_eq_seeAlso
    {context : Context}
    (ungrouped : context.options.groupTogether = false)
    (pages : List ManualPage)
    (index : Nat)
    (title : Option String)
    (manualSection : String) :
    ∃ front ending, (compose context pages index title manualSection).2 =
      front ++ seeAlsoCalls context.options pages index ++ ending := by
  unfold compose
  simp only [ungrouped, Bool.false_eq_true, if_false]
  exact ⟨_, _, rfl⟩

/-- The section is written alike inside and outside of a prototype. -/
theorem piecesAll_seeAlsoCalls
    (options : Options)
    (settings : Settings)
    (inCode : Bool)
    (pages : List ManualPage)
    (index : Nat) :
    Html.piecesAll settings inCode (seeAlsoCalls options pages index) =
      Html.piecesAll settings false (seeAlsoCalls options pages index) := by
  have alike : Html.Alike settings (seeAlsoCalls options pages index) := by
    unfold seeAlsoCalls unlessExcluded seeAlsoSection
    split
    · exact .nil
    split
    · exact .nil
    · refine .append (.append (.singleton fun _ => rfl) ?_) (.singleton fun _ => rfl)
      exact separated_induction .nil .append (.singleton fun _ => rfl)
        (fun _ => .singleton fun _ => rfl) _
  rw [alike.piecesAll_eq, alike.piecesAll_eq]

end Page

namespace Files

open Markup
open Page (Context seeAlsoCalls)

variable
  {context : Context}
  {options : Options}
  {today : String}
  {writer : Writer}
  {pages : List ManualPage}

/-! ## References and files -/

theorem writerAfter_html
    (selected : Writer.Selected context.options today writer)
    (html : context.options.format = .html)
    (index : Nat) :
    ∃ inCode, writerAfter context writer pages index =
      { settings := Settings.ofOptions context.options today, memory := .html inCode } := by
  induction index with
  | zero =>
      obtain ⟨settings, memory⟩ := writer
      have format : memory.format = .html := selected.format.trans html
      obtain rfl := selected.settings
      cases memory with
      | html inCode => exact ⟨inCode, rfl⟩
      | _ => cases format
  | succ index hypothesis =>
      obtain ⟨inCode, writer_eq⟩ := hypothesis
      rw [writerAfter, writer_eq, Writer.writeAll_html]
      exact ⟨_, rfl⟩

/-- The text of the SEE ALSO section of the page at an index. -/
def seeAlsoText
    (options : Options)
    (today : String)
    (pages : List ManualPage)
    (index : Nat) : List Char :=
  writePieces Html.escape
    (Html.piecesAll (Settings.ofOptions options today) false (seeAlsoCalls options pages index))

/-- The section is part of what is rendered for the page. -/
theorem renderedText_eq_seeAlso
    (selected : Writer.Selected context.options today writer)
    (html : context.options.format = .html)
    (ungrouped : context.options.groupTogether = false)
    (index : Nat) :
    ∃ before after, renderedText context writer pages index =
      before ++ seeAlsoText context.options today pages index ++ after := by
  obtain ⟨inCode, writer_eq⟩ := @writerAfter_html context today writer pages selected html index
  obtain ⟨front, ending, calls_eq⟩ := Page.compose_eq_seeAlso ungrouped pages index
    (some (pages.getD index default).name)
    (pageSection context.options (pages.getD index default).objectKind)
  rw [renderedText, writer_eq, Html.writeAll_eq, pageCalls]
  rw [calls_eq, Html.piecesAll_append, Html.piecesAll_append, Html.writePieces_append,
    Html.writePieces_append, Page.piecesAll_seeAlsoCalls]
  exact ⟨_, _, rfl⟩

/-- The path by which other pages refer to a page. -/
def referenceTo (options : Options) (page : ManualPage) : String :=
  page.name ++ "." ++ options.manualSectionText

/-- The section refers to every other page of the run, unless it is excluded. -/
theorem refers_seeAlsoText
    (index : Nat)
    (path : String) :
    Html.Refers (seeAlsoText options today pages index) path ↔
      options.isExcluded "SEE ALSO" = false ∧
        ∃ other, ∃ bound : other < pages.length, other ≠ index ∧
          path = referenceTo options pages[other] := by
  unfold seeAlsoText
  rw [Html.refers_iff]
  unfold seeAlsoCalls Page.unlessExcluded
  cases options.isExcluded "SEE ALSO" with
  | true => simp
  | false =>
      simp only [Bool.false_eq_true, if_false, true_and, Page.reference_mem_seeAlsoSection,
        Page.mem_otherNames]
      constructor
      · rintro ⟨_, ⟨other, bound, apart, rfl⟩, rfl⟩
        exact ⟨other, bound, apart, rfl⟩
      · rintro ⟨other, bound, apart, rfl⟩
        exact ⟨_, ⟨other, bound, apart, rfl⟩, rfl⟩

/-- The path by which a page is referred to, read beside the file of another page, is that of
its own file exactly if the directories are the same and its extension is the section of the
run. -/
theorem same_beside_referenceTo
    {page other : ManualPage}
    (unnamed : options.useInputName = false)
    (distinguished : Distinguished options pages)
    (noSlash : '/' ∉ options.manualSectionText.toList)
    (member : page ∈ pages)
    (otherMember : other ∈ pages) :
    ((pageFile options page).beside (referenceTo options other)).same (pageFile options other) =
        true ↔
      (pageDirectory options page.objectKind).same (pageDirectory options other.objectKind) = true ∧
        pageSection options other.objectKind = options.manualSectionText := by
  have base : fileBase options other = other.name := by simp [fileBase, unnamed]
  have isWord := distinguished.isWord other otherMember
  have component : Path.IsComponent (referenceTo options other) :=
    isComponent_of_isWordText (base ▸ isWord) noSlash
  rw [pageFile_eq_join, pageFile_eq_join, Path.beside_join (distinguished.isComponent member)
    component, Path.same_join component (distinguished.isComponent otherMember),
    and_congr_right_iff]
  intro _
  unfold referenceTo fileName
  rw [base] at isWord ⊢
  exact ⟨fun same => (fileName_injective isWord isWord same).2.symm, fun same => by rw [same]⟩

/-- References of a page and the files that they lead to.  The SEE ALSO section of the page at
an index is part of its text and refers exactly to the other pages, if it is not excluded.  A
reference, read from the directory of the page's file, is the path of the other page's file
exactly if both pages have the same directory and the extension of the other page is the
section of the run. -/
theorem seeAlso_leads_to_pages
    (html : context.options.format = .html)
    (ungrouped : context.options.groupTogether = false)
    (unnamed : context.options.useInputName = false)
    (distinguished : Distinguished context.options pages)
    (noSlash : '/' ∉ context.options.manualSectionText.toList)
    (chosen : Writer.ofOptions context.options today = .ok writer)
    {index : Nat}
    (bound : index < pages.length) :
    (∃ before after, renderedText context writer pages index =
      before ++ seeAlsoText context.options today pages index ++ after) ∧
    (∀ path, Html.Refers (seeAlsoText context.options today pages index) path ↔
      context.options.isExcluded "SEE ALSO" = false ∧
        ∃ other, ∃ bound : other < pages.length, other ≠ index ∧
          path = referenceTo context.options pages[other]) ∧
    ∀ other (otherBound : other < pages.length),
      ((pageFile context.options pages[index]).beside
          (referenceTo context.options pages[other])).same
            (pageFile context.options pages[other]) = true ↔
        (pageDirectory context.options pages[index].objectKind).same
            (pageDirectory context.options pages[other].objectKind) = true ∧
          pageSection context.options pages[other].objectKind =
            context.options.manualSectionText := by
  have selected := Writer.selected_of_ofOptions chosen
  refine ⟨renderedText_eq_seeAlso selected html ungrouped index, refers_seeAlsoText index, ?_⟩
  intro other otherBound
  exact same_beside_referenceTo unnamed distinguished noSlash (List.getElem_mem bound)
    (List.getElem_mem otherBound)

/-- Two functions in one directory refer to each other. -/
theorem seeAlso_leads_to_pages_two :
    let options := (twoFunctions false).options
    let pages := (twoFunctions false).pages
    Html.Refers (seeAlsoText options "" pages 0) "reset.html" ∧
      ((pageFile options (sourced "next")).beside "reset.html").same
        (pageFile options (sourced "reset")) = true := by
  intro options pages
  have noSlash : '/' ∉ options.manualSectionText.toList := by decide
  obtain ⟨-, refers, leads⟩ :=
    @seeAlso_leads_to_pages (contextOf (twoFunctions false)) "" _ pages rfl rfl rfl
      distinguished_twoFunctions noSlash rfl 0 (by decide)
  refine ⟨(refers "reset.html").2 ⟨by decide, 1, by decide, by decide, by decide⟩, ?_⟩
  exact (leads 1 (by decide)).2 ⟨by decide, by decide⟩

/-- The page of a function refers to that of a variable in its own directory, and the file of
the variable is in another. -/
theorem seeAlso_leads_elsewhere :
    let options := functionAndVariable.options
    let pages := functionAndVariable.pages
    Html.Refers (seeAlsoText options "" pages 0) "limit.html" ∧
      ((pageFile options (documented "next" .function)).beside "limit.html").same
        (pageFile options (documented "limit" .simple)) = false := by
  intro options pages
  refine ⟨(refers_seeAlsoText 0 "limit.html").2 ⟨by decide, 1, by decide, by decide, by decide⟩, ?_⟩
  decide

end Files

end DeclManual
