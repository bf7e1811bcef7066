import DeclManual.Page.Compose
import Mathlib.Data.List.Basic

/-!
# What a page is made of

However a page is composed, it is a header, the NAME section, further sections of a
few kinds, and the end of the file unless it is embedded.  A property that every kind
of section has, and that is kept when sections are put together, is a property of
every page.
-/

namespace DeclManual
namespace Page

open Markup

/-- A property of calls that is kept when they are put together holds of separated calls
if it holds of the calls for each thing and of the separator. -/
theorem separated_induction
    {α : Type}
    {holds : List Call -> Prop}
    (nothing : holds [])
    (append : ∀ {first second}, holds first -> holds second -> holds (first ++ second))
    {separator : List Call}
    {calls : α -> List Call}
    (between : holds separator)
    (each : ∀ item, holds (calls item))
    (items : List α) :
    holds (separated separator calls items) := by
  fun_induction separated separator calls items with
  | case1 => exact nothing
  | case2 last => exact each last
  | case3 first rest _ hypothesis => exact append (append (each first) between) hypothesis

/-- What stands on a page between the NAME section and the end of the file. -/
inductive Sections (context : Context) : List Call -> Prop where
  | nothing : Sections context []
  | append {first second : List Call} :
      Sections context first -> Sections context second -> Sections context (first ++ second)
  | synopsis (first : ManualPage) (pages : List ManualPage) :
      Sections context (synopsisSection context.options first pages)
  | parameters (pages : List ManualPage) :
      Sections context (parametersSection context pages)
  | description : Sections context [.heading "DESCRIPTION"]
  | described (terse : String) (member : Member) :
      Sections context (singleDescription context terse member)
  | describedInGroup (member : Member) : Sections context (groupedDescription context member)
  | returns (grouped : Bool) (members : List Member) :
      Sections context (returnsSection context grouped members)
  | named (grouped : Bool) (members : List Member) :
      Sections context (namedSections context.options context.voice grouped [] members)
  | seeAlso (names : List String) : Sections context (seeAlsoSection names)

namespace Sections

variable {context : Context}

theorem ite
    {condition : Prop}
    [Decidable condition]
    {first second : List Call}
    (left : Sections context first)
    (right : Sections context second) :
    Sections context (if condition then first else second) := by
  split
  · exact left
  · exact right

theorem flatMap
    {α : Type}
    {calls : α -> List Call}
    (each : ∀ item, Sections context (calls item))
    (items : List α) :
    Sections context (items.flatMap calls) := by
  induction items with
  | nil => exact .nothing
  | cons item items hypothesis =>
      rw [List.flatMap_cons]
      exact (each item).append hypothesis

end Sections

/-- A page is a header, the NAME section, further sections, and the end of the file
unless it is embedded. -/
theorem compose_eq_sections
    (context : Context)
    (pages : List ManualPage)
    (base : Nat)
    (title : Option String)
    (manualSection : String) :
    ∃ header names terse sections,
      (compose context pages base title manualSection).2 =
        [.header header] ++ nameCalls names terse ++ sections ++
          (if context.options.embeddable then [] else [.fileEnd]) ∧
      header.name = title.getD (pages.getD base default).name ∧
      header.sourceFile = (pages.getD base default).sourceFile ∧
      Sections context sections := by
  have regroup (header names synopsis parameters description returns named seeAlso ending :
      List Call) :
      header ++ names ++ synopsis ++ parameters ++ description ++ returns ++ named ++ seeAlso ++
          ending =
        header ++ names ++ (synopsis ++ parameters ++ description ++ returns ++ named ++ seeAlso) ++
          ending := by
    simp only [List.append_assoc]
  refine ⟨_, _, _, _, regroup _ _ _ _ _ _ _ _ _, rfl, rfl, ?_⟩
  unfold unlessExcluded
  refine .append (.append (.append (.append (.append ?_ ?_) ?_) ?_) ?_) ?_
  · exact .ite .nothing (.synopsis _ _)
  · exact .ite (.parameters _) .nothing
  · refine .ite .nothing (.append .description (.ite ?_ ?_))
    · exact .flatMap .describedInGroup _
    · exact .flatMap (.described _) _
  · exact .ite (.ite .nothing (.returns _ _)) .nothing
  · exact .named _ _
  · exact .ite .nothing (.ite .nothing (.seeAlso _))

end Page
end DeclManual
