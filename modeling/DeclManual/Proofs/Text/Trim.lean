import DeclManual.Text.Blank
import Mathlib.Data.List.DropRight
import Mathlib.Data.List.TakeWhile

/-!
# What is taken off the ends of a text

A text is trimmed in several rounds, each of which takes characters of some kind off its front
or its back.  What is left in the end is a part of the text with nothing but such characters
around it.  Lists of lines are trimmed in the same way, so everything here is about lists.
-/

namespace DeclManual
namespace Text

variable {α : Type} {p q : α -> Bool} {core middle items front back : List α}

/-! ## The part that is left -/

/-- A part of a list around which every item satisfies `p`. -/
def IsCore (p : α -> Bool) (core items : List α) : Prop :=
  ∃ front back, items = front ++ (core ++ back) ∧
    (∀ item ∈ front, p item = true) ∧ ∀ item ∈ back, p item = true

namespace IsCore

theorem trans (inner : IsCore p core middle) (outer : IsCore p middle items) :
    IsCore p core items := by
  obtain ⟨front, back, rfl, inFront, inBack⟩ := inner
  obtain ⟨before, after, rfl, inBefore, inAfter⟩ := outer
  refine ⟨before ++ front, back ++ after, by simp, ?_, ?_⟩
  · exact List.forall_mem_append.2 ⟨inBefore, inFront⟩
  · exact List.forall_mem_append.2 ⟨inBack, inAfter⟩

theorem mono
    (weaker : ∀ item, p item = true → q item = true)
    (left : IsCore p core items) :
    IsCore q core items := by
  obtain ⟨front, back, parts, inFront, inBack⟩ := left
  exact ⟨front, back, parts, fun item listed => weaker item (inFront item listed),
    fun item listed => weaker item (inBack item listed)⟩

/-- Nothing has to be left of a list in which every item satisfies `p`. -/
theorem nil (all : ∀ item ∈ items, p item = true) : IsCore p [] items :=
  ⟨items, [], by simp, all, by simp⟩

theorem dropWhile (p : α -> Bool) (items : List α) : IsCore p (items.dropWhile p) items :=
  ⟨items.takeWhile p, [], by simp, fun _ => List.mem_takeWhile_imp, by simp⟩

theorem reverse (left : IsCore p core items) : IsCore p core.reverse items.reverse := by
  obtain ⟨front, back, rfl, inFront, inBack⟩ := left
  refine ⟨back.reverse, front.reverse, by simp, ?_, ?_⟩
  · simpa using inBack
  · simpa using inFront

theorem rdropWhile (p : α -> Bool) (items : List α) : IsCore p (items.rdropWhile p) items := by
  simpa [List.rdropWhile] using (dropWhile p items.reverse).reverse

theorem isInfix (left : IsCore p core items) : core <:+: items := by
  obtain ⟨front, back, rfl, -, -⟩ := left
  exact ⟨front, back, List.append_assoc front core back⟩

/-- Only items that satisfy `p` are taken away. -/
theorem filter (left : IsCore p core items) :
    core.filter (!p ·) = items.filter (!p ·) := by
  obtain ⟨front, back, rfl, inFront, inBack⟩ := left
  have noFront : front.filter (!p ·) = [] :=
    List.filter_eq_nil_iff.2 fun item listed => by simp [inFront item listed]
  have noBack : back.filter (!p ·) = [] :=
    List.filter_eq_nil_iff.2 fun item listed => by simp [inBack item listed]
  rw [List.filter_append, List.filter_append, noFront, noBack, List.nil_append, List.append_nil]

/-- Every item satisfies `p` if nothing is left. -/
theorem all_of_nil (left : IsCore p [] items) : ∀ item ∈ items, p item = true := by
  obtain ⟨front, back, rfl, inFront, inBack⟩ := left
  exact List.forall_mem_append.2 ⟨inFront, inBack⟩

end IsCore

/-! ## The ends of what is left -/

/-- A list that neither starts nor ends with an item that satisfies `p`. -/
structure IsStripped (p : α -> Bool) (items : List α) : Prop where
  head : ∀ item ∈ items.head?, p item = false
  last : ∀ item ∈ items.getLast?, p item = false

/-- What is left after items that satisfy `p` are taken off the back does not end with one. -/
theorem getLast?_rdropWhile
    (p : α -> Bool)
    (items : List α) :
    ∀ item ∈ (items.rdropWhile p).getLast?, p item = false := by
  intro item last
  obtain ⟨before, isLast⟩ := List.getLast?_eq_some_iff.1 last
  have nonempty : items.rdropWhile p ≠ [] := by simp [isLast]
  have fails := List.rdropWhile_last_not p items nonempty
  simpa [isLast] using fails

/-- What is left after items that satisfy `p` are taken off the front does not start with one. -/
theorem head?_dropWhile
    (p : α -> Bool)
    (items : List α) :
    ∀ item ∈ (items.dropWhile p).head?, p item = false := by
  intro item first
  have fails := List.head?_dropWhile_not p items
  rw [first] at fails
  exact fails

/-- A part at the start of a list starts as the list does. -/
theorem head?_of_prefix
    (starts : ∀ item ∈ items.head?, p item = false)
    (isPrefix : front <+: items) :
    ∀ item ∈ front.head?, p item = false := by
  obtain ⟨rest, rfl⟩ := isPrefix
  intro item first
  refine starts item ?_
  rw [List.head?_append, first, Option.some_or]
  rfl

namespace IsStripped

theorem nil (p : α -> Bool) : IsStripped p [] :=
  ⟨nofun, nofun⟩

/-- Taking items off the back leaves the start of a list as it is. -/
theorem rdropWhile
    (starts : ∀ item ∈ items.head?, p item = false)
    (isPrefix : front <+: items) :
    IsStripped p (front.rdropWhile p) where
  head := head?_of_prefix starts ((List.rdropWhile_prefix p front).trans isPrefix)
  last := getLast?_rdropWhile p front

theorem dropWhile_rdropWhile (p : α -> Bool) (items : List α) :
    IsStripped p ((items.dropWhile p).rdropWhile p) :=
  rdropWhile (head?_dropWhile p items) (List.prefix_refl _)

end IsStripped

/-! ## Trimmed texts -/

variable {text : List Char}

theorem isCore_dropEndWhile (p : Char -> Bool) (text : List Char) :
    IsCore p (dropEndWhile p text) text :=
  .rdropWhile p text

theorem isCore_trim (text : List Char) : IsCore isBlank (trim text) text :=
  (isCore_dropEndWhile isBlank _).trans (.dropWhile isBlank text)

theorem isStripped_trim (text : List Char) : IsStripped isBlank (trim text) :=
  .dropWhile_rdropWhile isBlank text

theorem dropEndWhile_begins (p : Char -> Bool) (text : List Char) : dropEndWhile p text <+: text :=
  List.rdropWhile_prefix p text

/-- A text is what is left of it when its end is trimmed, and blanks. -/
theorem exists_trimEnd (text : List Char) :
    ∃ blanks, text = trimEnd text ++ blanks ∧ ∀ c ∈ blanks, isBlank c = true :=
  ⟨text.rtakeWhile isBlank, (List.rdropWhile_append_rtakeWhile ..).symm,
    fun _ => List.mem_rtakeWhile_imp⟩

/-- Trimming the end of a part that stands at the start of a stripped text. -/
theorem isStripped_trimEnd
    {part : List Char}
    (stripped : IsStripped isBlank text)
    (isPrefix : part <+: text) :
    IsStripped isBlank (trimEnd part) :=
  .rdropWhile stripped.head isPrefix

end Text
end DeclManual
