import DeclManual.Text.Search
import Mathlib.Data.List.Infix

/-!
# Where a text is cut

A text is cut at the first place where a character or a word occurs.  The parts make up the
text and no occurrence comes before the cut, and parts with both properties are those of the
cut.
-/

namespace DeclManual
namespace Text

/-! ## Cuts at a character -/

theorem splitFirst?_eq_some_iff
    {mark : Char}
    {text before after : List Char} :
    splitFirst? mark text = some (before, after) ↔
      text = before ++ mark :: after ∧ mark ∉ before := by
  induction text generalizing before with
  | nil => simp [splitFirst?]
  | cons c rest hypothesis =>
      rw [splitFirst?]
      split
      · rename_i isMark
        subst isMark
        cases before with
        | nil => simp [eq_comm]
        | cons d before =>
            simp only [Option.some.injEq, Prod.mk.injEq, List.nil_eq, reduceCtorEq, false_and,
              List.cons_append, List.cons.injEq, List.mem_cons, not_or, false_iff, not_and]
            rintro ⟨rfl, -⟩ notMark
            exact absurd rfl notMark
      · rename_i notMark
        cases before with
        | nil =>
            simp only [Option.map_eq_some_iff, Prod.mk.injEq, reduceCtorEq, false_and, and_false,
              exists_false, List.nil_append, List.cons.injEq, false_iff, not_and]
            rintro ⟨isMark, -⟩
            exact absurd isMark notMark
        | cons d before =>
            rw [Option.map_eq_some_iff]
            constructor
            · rintro ⟨⟨first, last⟩, found, isPair⟩
              obtain ⟨isBefore, rfl⟩ := Prod.mk.inj isPair
              obtain ⟨rfl, rfl⟩ := List.cons.inj isBefore
              obtain ⟨rfl, absent⟩ := hypothesis.1 found
              exact ⟨rfl, by simp [absent, Ne.symm notMark]⟩
            · rintro ⟨isText, absent⟩
              obtain ⟨rfl, rfl⟩ := List.cons.inj isText
              exact ⟨(before, after), hypothesis.2 ⟨rfl, fun member => absent (by simp [member])⟩,
                rfl⟩

/-! ## Cuts at a word -/

/-- The parts of the cut at a word make up the text. -/
theorem eq_append_of_splitAtWord?
    {word text before after : List Char}
    (found : splitAtWord? word text = some (before, after)) :
    text = before ++ word ++ after := by
  induction text generalizing before with
  | nil =>
      unfold splitAtWord? at found
      split at found <;> simp_all
  | cons c rest hypothesis =>
      unfold splitAtWord? at found
      split at found
      · rename_i tail isPrefix
        obtain ⟨rfl, rfl⟩ := Prod.mk.inj (Option.some.inj found)
        simpa using (List.append_eq_of_isPrefixOf?_eq_some isPrefix).symm
      · obtain ⟨⟨first, last⟩, inner, equal⟩ := Option.map_eq_some_iff.1 found
        obtain ⟨rfl, rfl⟩ := Prod.mk.inj equal
        simp [hypothesis inner]

private theorem not_prefix_of_isPrefixOf?
    {word text : List Char}
    (absent : word.isPrefixOf? text = none) :
    ¬ word <+: text := by
  rintro ⟨tail, equal⟩
  rw [List.isPrefixOf?_eq_some_iff_append_eq.2 equal] at absent
  contradiction

/-- A text without a cut at a word does not hold the word. -/
theorem not_infix_of_splitAtWord?
    {word text : List Char}
    (absent : splitAtWord? word text = none) :
    ¬ word <:+: text := by
  induction text with
  | nil =>
      intro isInfix
      simp [splitAtWord?, List.infix_nil.1 isInfix] at absent
  | cons c rest hypothesis =>
      unfold splitAtWord? at absent
      split at absent
      · contradiction
      · rename_i noPrefix
        rw [List.infix_cons_iff]
        rintro (isPrefix | isInfix)
        · exact not_prefix_of_isPrefixOf? noPrefix isPrefix
        · exact hypothesis (Option.map_eq_none_iff.1 absent) isInfix

theorem splitAtWord?_eq_none_iff
    (word text : List Char) :
    splitAtWord? word text = none ↔ ¬ word <:+: text := by
  refine ⟨not_infix_of_splitAtWord?, fun absent => ?_⟩
  cases found : splitAtWord? word text with
  | none => rfl
  | some parts =>
      exact absurd ⟨parts.1, parts.2, (eq_append_of_splitAtWord? found).symm⟩ absent

/-- The cut is made where the word first occurs: it does not end any earlier. -/
theorem not_infix_before_splitAtWord?
    {word text before after : List Char}
    (nonempty : word ≠ [])
    (found : splitAtWord? word text = some (before, after)) :
    ¬ word <:+: (before ++ word).dropLast := by
  induction text generalizing before with
  | nil =>
      unfold splitAtWord? at found
      split at found <;> simp_all
  | cons c rest hypothesis =>
      unfold splitAtWord? at found
      split at found
      · obtain ⟨rfl, rfl⟩ := Prod.mk.inj (Option.some.inj found)
        intro isInfix
        have shorter := isInfix.length_le
        have positive := List.length_pos_iff.2 nonempty
        simp only [List.nil_append, List.length_dropLast] at shorter
        omega
      · rename_i noPrefix
        obtain ⟨⟨first, last⟩, inner, equal⟩ := Option.map_eq_some_iff.1 found
        obtain ⟨rfl, rfl⟩ := Prod.mk.inj equal
        rw [List.cons_append, List.dropLast_cons_of_ne_nil (by simp [nonempty]),
          List.infix_cons_iff]
        rintro (isPrefix | isInfix)
        · apply not_prefix_of_isPrefixOf? noPrefix
          rw [eq_append_of_splitAtWord? inner]
          exact isPrefix.trans ((List.prefix_cons_inj c).2
            ((List.dropLast_prefix _).trans (List.prefix_append _ _)))
        · exact hypothesis inner isInfix

/-- A word that is not found before one place of a text does not stand at an earlier one. -/
theorem length_le_of_first_cut
    {word before after other rest : List Char}
    (nonempty : word ≠ [])
    (whole : before ++ word ++ after = other ++ word ++ rest)
    (first : ¬ word <:+: (before ++ word).dropLast) :
    before.length ≤ other.length := by
  by_contra earlier
  have positive := List.length_pos_iff.2 nonempty
  have early : other ++ word <+: (before ++ word).dropLast := by
    refine List.prefix_of_prefix_length_le ⟨rest, whole.symm⟩
      ((List.dropLast_prefix _).trans (List.prefix_append _ after)) ?_
    simp only [List.length_append, List.length_dropLast]
    omega
  exact first ((List.suffix_append other word).isInfix.trans early.isInfix)

theorem splitAtWord?_eq_some_iff
    {word text before after : List Char}
    (nonempty : word ≠ []) :
    splitAtWord? word text = some (before, after) ↔
      text = before ++ word ++ after ∧ ¬ word <:+: (before ++ word).dropLast := by
  refine ⟨fun found => ⟨eq_append_of_splitAtWord? found,
    not_infix_before_splitAtWord? nonempty found⟩, ?_⟩
  rintro ⟨whole, first⟩
  cases found : splitAtWord? word text with
  | none => exact absurd ⟨before, after, whole.symm⟩ (not_infix_of_splitAtWord? found)
  | some parts =>
      obtain ⟨other, rest⟩ := parts
      have same := whole.symm.trans (eq_append_of_splitAtWord? found)
      have length : before.length = other.length :=
        Nat.le_antisymm (length_le_of_first_cut nonempty same first)
          (length_le_of_first_cut nonempty same.symm (not_infix_before_splitAtWord? nonempty found))
      rw [List.append_assoc, List.append_assoc] at same
      obtain ⟨rfl, sameTail⟩ := List.append_inj same length
      rw [List.append_cancel_left sameTail]

/-- Of a word of two different characters no part is left in front of the cut. -/
theorem splitAtWord?_pair_eq_some_iff
    {a b : Char}
    {text before after : List Char}
    (different : a ≠ b) :
    splitAtWord? [a, b] text = some (before, after) ↔
      text = before ++ [a, b] ++ after ∧ ¬ [a, b] <:+: before := by
  have dropped : (before ++ [a, b]).dropLast = before ++ [a] := by
    simp [List.dropLast_append_of_ne_nil]
  have notSuffix : ¬ [a, b] <:+ before ++ [a] := by
    rintro ⟨front, same⟩
    have sameLast := congrArg List.getLast? same
    exact different (by simpa [eq_comm] using sameLast)
  rw [splitAtWord?_eq_some_iff (List.cons_ne_nil a [b]), dropped, List.infix_concat_iff,
    or_iff_right notSuffix]

/-- A cut at a word does not depend on what comes after the word. -/
theorem splitAtWord?_append
    {word text before after : List Char}
    (nonempty : word ≠ [])
    (found : splitAtWord? word text = some (before, after))
    (other : List Char) :
    splitAtWord? word (before ++ word ++ other) = some (before, other) :=
  (splitAtWord?_eq_some_iff nonempty).2
    ⟨rfl, ((splitAtWord?_eq_some_iff nonempty).1 found).2⟩

end Text
end DeclManual
