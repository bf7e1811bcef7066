import DeclManual.Prose.Dash
import Mathlib.Data.List.TakeWhile

/-!
# The leading name of a text

A leading name is skipped together with its dash: what is skipped stands on one line, ends in
a dash between blanks, and text follows it on that line.
-/

namespace DeclManual
namespace Prose

variable {text rest : List Char} {previous : Char} {passed skipped : Nat}

/-- A name with a dash after it, both followed by blanks, on one line. -/
def IsLeadingName (text : List Char) : Prop :=
  ∃ name blank blanks, text = name ++ blank :: '-' :: blanks ∧ '\n' ∉ text ∧
    Text.isAsciiBlank blank = true ∧ blanks ≠ [] ∧ ∀ b ∈ blanks, Text.isAsciiBlank b = true

theorem drop_length_takeWhile (p : Char → Bool) :
    text.drop (text.takeWhile p).length = text.dropWhile p := by
  induction text with
  | nil => rfl
  | cons c rest hypothesis =>
      cases holds : p c with
      | true =>
          rw [List.takeWhile_cons_of_pos holds, List.dropWhile_cons_of_pos holds]
          exact hypothesis
      | false =>
          have fails : ¬ p c = true := by rw [holds]; exact Bool.false_ne_true
          rw [List.takeWhile_cons_of_neg fails, List.dropWhile_cons_of_neg fails]
          rfl

/-- A dash that counts is followed by blanks and text. -/
theorem blanks_of_dash
    (blankFollows : (rest.head?.map Text.isAsciiBlank).getD false = true)
    (textFollows :
      ((rest.dropWhile fun b => b != '\n' && Text.isAsciiBlank b).head?.map
        (· != '\n')).getD false = true) :
    ∃ blanks c after, rest = blanks ++ c :: after ∧
      (rest.takeWhile fun b => b != '\n' && Text.isAsciiBlank b) = blanks ∧ blanks ≠ [] ∧
      (∀ b ∈ blanks, b ≠ '\n' ∧ Text.isAsciiBlank b = true) ∧ c ≠ '\n' := by
  have parts := List.takeWhile_append_dropWhile
    (p := fun b => b != '\n' && Text.isAsciiBlank b) (l := rest)
  cases isAfter : rest.dropWhile fun b => b != '\n' && Text.isAsciiBlank b with
  | nil => rw [isAfter] at textFollows; contradiction
  | cons c after =>
      rw [isAfter] at parts textFollows
      have noNewline : c ≠ '\n' := by simpa using textFollows
      refine ⟨_, c, after, parts.symm, rfl, ?_, ?_, noNewline⟩
      · rintro none
        rw [none, List.nil_append] at parts
        rw [← parts, List.head?_cons, Option.map_some, Option.getD_some] at blankFollows
        rw [← parts, List.takeWhile_eq_nil_iff] at none
        exact none (Nat.succ_pos _) (by simpa using ⟨noNewline, blankFollows⟩)
      · intro b listed
        simpa using List.mem_takeWhile_imp listed

/-- What stands before the text after a dash. -/
theorem dashEnd?_eq_some (found : dashEnd? previous passed text = some skipped) :
    ∃ name blanks c after, text = name ++ '-' :: (blanks ++ c :: after) ∧
      skipped = passed + name.length + 1 + blanks.length ∧
      Text.isAsciiBlank ((previous :: name).getLast (List.cons_ne_nil _ _)) = true ∧
      '\n' ∉ name ∧ blanks ≠ [] ∧
      (∀ b ∈ blanks, b ≠ '\n' ∧ Text.isAsciiBlank b = true) ∧ c ≠ '\n' := by
  induction text generalizing previous passed with
  | nil => exact absurd found (by simp [dashEnd?])
  | cons first rest hypothesis =>
      unfold dashEnd? at found
      split at found
      · exact absurd found (by simp)
      · rename_i noNewline
        split at found
        · rename_i dash
          dsimp only at found
          split at found
          · rename_i between
            simp only [Bool.and_eq_true] at between
            obtain ⟨⟨blank, blankFollows⟩, textFollows⟩ := between
            rw [drop_length_takeWhile] at textFollows
            obtain ⟨blanks, c, after, rfl, isBlanks, nonempty, allBlank, noNewline⟩ :=
              blanks_of_dash blankFollows textFollows
            rw [isBlanks] at found
            refine ⟨[], blanks, c, after, by rw [dash]; rfl, ?_, by simpa using blank,
              List.not_mem_nil, nonempty, allBlank, noNewline⟩
            rw [← Option.some.inj found, List.length_nil, Nat.add_zero]
          · exact absurd found (by simp)
        · obtain ⟨name, blanks, c, after, rfl, rfl, blank, oneLine, rest⟩ := hypothesis found
          refine ⟨first :: name, blanks, c, after, rfl, ?_, ?_, ?_, rest⟩
          · simp only [List.length_cons]
            omega
          · rwa [List.getLast_cons (List.cons_ne_nil _ _)]
          · rw [List.mem_cons, not_or]
            exact ⟨Ne.symm noNewline, oneLine⟩

/-- What is skipped is nothing or a leading name, after which the line goes on. -/
theorem exists_leadingName
    (started : text.head? ≠ some '\n')
    (skips : skipDash text ≠ 0) :
    ∃ lead c after, text = lead ++ c :: after ∧ skipDash text = lead.length ∧ c ≠ '\n' ∧
      IsLeadingName lead := by
  cases text with
  | nil => exact absurd rfl skips
  | cons first rest =>
      rw [skipDash] at skips ⊢
      cases found : dashEnd? first 1 rest with
      | none => rw [found] at skips; exact absurd rfl skips
      | some skipped =>
          obtain ⟨name, blanks, c, after, rfl, rfl, blank, oneLine, nonempty, allBlank,
            noNewline⟩ := dashEnd?_eq_some found
          refine ⟨first :: name ++ '-' :: blanks, c, after, by simp, ?_, noNewline, ?_⟩
          · rw [Option.getD_some, List.length_append, List.length_cons, List.length_cons]
            omega
          · refine ⟨(first :: name).dropLast, _, blanks, ?_, ?_, blank, nonempty,
              fun b listed => (allBlank b listed).2⟩
            · have parts := List.dropLast_concat_getLast (List.cons_ne_nil first name)
              rw [← List.singleton_append (l := '-' :: blanks), ← List.append_assoc, parts]
            · simp only [List.cons_append, List.mem_cons, List.mem_append, not_or]
              exact ⟨fun same => started (by rw [List.head?_cons, ← same]), oneLine, by decide,
                fun listed => (allBlank _ listed).1 rfl⟩

end Prose
end DeclManual
