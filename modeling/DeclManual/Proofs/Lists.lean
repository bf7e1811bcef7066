import Mathlib.Data.List.Basic

/-!
# Lists that change at one place

Tokens, comments and enumerators are read one after another, so lists of them grow at their
end, and what is known about an item already read is changed where it stands.  Texts that are
written one after another are joined by separators.
-/

namespace DeclManual

variable {α : Type} {items front : List α} {last : α}

/-! ## Changing an item -/

/-- An item of a list with one item changed was there before, or is the one changed. -/
theorem mem_modify
    {index : Nat}
    {change : α -> α}
    {item : α}
    (member : item ∈ items.modify index change) :
    item ∈ items ∨ ∃ old ∈ items, item = change old := by
  obtain ⟨position, at_⟩ := List.mem_iff_getElem?.1 member
  rw [List.getElem?_modify] at at_
  obtain ⟨old, found, rfl⟩ := Option.map_eq_some_iff.1 at_
  have present := List.mem_of_getElem? found
  split
  · exact .inr ⟨old, present, rfl⟩
  · exact .inl present

/-- The last item changed. -/
theorem modify_concat
    (front : List α)
    (last : α)
    (change : α → α) :
    (front ++ [last]).modify front.length change = front ++ [change last] := by
  rw [List.modify_eq_take_cons_drop (by simp)]
  simp

/-! ## The last item of a kind -/

/-- A list with items of a kind has a last one. -/
theorem exists_last
    {isKind : α → Bool}
    (some : items.any isKind = true) :
    ∃ earlier item later, items = earlier ++ item :: later ∧ isKind item = true ∧
      ∀ other ∈ later, isKind other = false := by
  induction items with
  | nil => cases some
  | cons first rest hypothesis =>
      by_cases later : rest.any isKind = true
      · obtain ⟨earlier, item, after, rfl, isItem, others⟩ := hypothesis later
        exact ⟨first :: earlier, item, after, rfl, isItem, others⟩
      · exact ⟨[], first, rest, rfl, by simpa [later] using some, by simpa using later⟩

/-! ## Adding an item -/

/-- An item of a list that has grown at its end is the new one or was there before. -/
theorem cut_of_concat
    {earlier later : List α}
    {item : α}
    (whole : front ++ [last] = earlier ++ item :: later) :
    (earlier = front ∧ item = last ∧ later = []) ∨
      ∃ before, later = before ++ [last] ∧ front = earlier ++ item :: before := by
  rcases List.eq_nil_or_concat' later with rfl | ⟨before, final, rfl⟩
  · obtain ⟨rfl, isLast⟩ := List.append_inj' whole rfl
    cases isLast
    exact .inl ⟨rfl, rfl, rfl⟩
  · rw [← List.cons_append, ← List.append_assoc] at whole
    obtain ⟨rfl, isLast⟩ := List.append_inj' whole rfl
    cases isLast
    exact .inr ⟨before, rfl, rfl⟩

/-- A list that grows at its end has its last item of a kind either there or where it was
before. -/
theorem exists_last_concat
    {kind : List α -> α -> Prop}
    {others : α -> Prop}
    (front : List α)
    (last : α) :
    (∃ earlier item later, front ++ [last] = earlier ++ item :: later ∧
        kind earlier item ∧ ∀ other ∈ later, others other) ↔
      kind front last ∨ others last ∧
        ∃ earlier item later, front = earlier ++ item :: later ∧
          kind earlier item ∧ ∀ other ∈ later, others other := by
  constructor
  · rintro ⟨earlier, item, later, whole, isKind, areOthers⟩
    rcases cut_of_concat whole with ⟨rfl, rfl, -⟩ | ⟨before, rfl, rfl⟩
    · exact .inl isKind
    · exact .inr ⟨areOthers last (by simp), earlier, item, before, rfl, isKind,
        fun other member => areOthers other (by simp [member])⟩
  · rintro (isKind | ⟨isOther, earlier, item, later, rfl, isKind, areOthers⟩)
    · exact ⟨front, last, [], rfl, isKind, by simp⟩
    · exact ⟨earlier, item, later ++ [last], by simp, isKind,
        List.forall_mem_append.2 ⟨areOthers, List.forall_mem_singleton.2 isOther⟩⟩

/-! ## Joining items -/

/-- The first of some joined texts, and the others, each after a separator. -/
theorem intercalate_cons (separator first : List α) (rest : List (List α)) :
    separator.intercalate (first :: rest) = first ++ rest.flatMap (separator ++ ·) := by
  induction rest generalizing first with
  | nil => simp [List.intercalate]
  | cons second rest hypothesis =>
      have next := hypothesis second
      simp only [List.intercalate] at next
      simp [List.intercalate, next]

/-- The first of some joined texts, and the others joined, with a separator if there are
any. -/
theorem intercalate_cons_ite (separator first : List α) (rest : List (List α)) :
    separator.intercalate (first :: rest) =
      first ++ (if 0 < rest.length then separator else []) ++ separator.intercalate rest := by
  cases rest with
  | nil => simp [List.intercalate]
  | cons second others => simp [intercalate_cons]

end DeclManual
