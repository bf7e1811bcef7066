import DeclManual.Text.Lines
import Mathlib.Data.List.Forall2

/-!
# Pieces and lines of a text

No piece holds the separator, a text without it is one piece, and the pieces of a text are
those before a separator and those after it.  So a text can be taken line by line.
-/

namespace DeclManual
namespace Text

theorem not_mem_of_mem_splitOn
    {separator : Char}
    {text piece : List Char}
    (member : piece ∈ splitOn separator text) :
    separator ∉ piece := by
  induction text generalizing piece with
  | nil =>
      rw [List.mem_singleton.1 member]
      exact List.not_mem_nil
  | cons c rest hypothesis =>
      unfold splitOn at member
      split at member
      · rcases List.mem_cons.1 member with rfl | later
        · exact List.not_mem_nil
        · exact hypothesis later
      · rename_i other
        cases pieces : splitOn separator rest with
        | nil => exact absurd pieces (splitOn_ne_nil separator rest)
        | cons first others =>
            rw [pieces] at member hypothesis
            rcases List.mem_cons.1 member with rfl | later
            · rw [List.mem_cons, not_or]
              exact ⟨Ne.symm other, hypothesis List.mem_cons_self⟩
            · exact hypothesis (List.mem_cons_of_mem first later)

theorem splitOn_of_not_mem
    {separator : Char}
    {text : List Char}
    (absent : separator ∉ text) :
    splitOn separator text = [text] := by
  induction text with
  | nil => rfl
  | cons c rest hypothesis =>
      have other : c ≠ separator := fun same => absent (same ▸ List.mem_cons_self)
      rw [splitOn, if_neg other, hypothesis fun member => absent (List.mem_cons_of_mem c member)]

theorem splitOn_append (separator : Char) (first second : List Char) :
    splitOn separator (first ++ separator :: second) =
      splitOn separator first ++ splitOn separator second := by
  induction first with
  | nil => exact if_pos rfl
  | cons c rest hypothesis =>
      rw [List.cons_append, splitOn, splitOn, hypothesis]
      split
      · rfl
      · cases pieces : splitOn separator rest with
        | nil => exact absurd pieces (splitOn_ne_nil separator rest)
        | cons piece others => rfl

/-- A character that is not the separator belongs to the first piece. -/
theorem splitOn_cons_of_ne
    {separator c : Char}
    (other : c ≠ separator)
    (rest : List Char) :
    ∃ piece pieces, splitOn separator rest = piece :: pieces ∧
      splitOn separator (c :: rest) = (c :: piece) :: pieces := by
  cases split : splitOn separator rest with
  | nil => exact absurd split (splitOn_ne_nil _ _)
  | cons piece pieces =>
      refine ⟨piece, pieces, rfl, ?_⟩
      rw [splitOn, if_neg other, split]

/-- Pieces that are joined with a separator which none of them holds are found again. -/
theorem splitOn_joinWith
    {separator : Char}
    {pieces : List (List Char)}
    (nonempty : pieces ≠ [])
    (absent : ∀ piece ∈ pieces, separator ∉ piece) :
    splitOn separator (joinWith [separator] pieces) = pieces := by
  induction pieces with
  | nil => exact absurd rfl nonempty
  | cons first rest hypothesis =>
      obtain ⟨absentFirst, absent⟩ := List.forall_mem_cons.1 absent
      cases rest with
      | nil => exact splitOn_of_not_mem absentFirst
      | cons second others =>
          rw [joinWith, List.append_assoc, List.singleton_append, splitOn_append,
            splitOn_of_not_mem absentFirst, hypothesis (List.cons_ne_nil second others) absent]
          · rfl
          · exact List.cons_ne_nil second others

/-! ## Pieces of a text with something around it -/

theorem splitOn_append_begins
    {separator : Char}
    {back : List Char}
    (absent : separator ∉ back)
    (text : List Char) :
    List.Forall₂ (· <+: ·) (splitOn separator text) (splitOn separator (text ++ back)) := by
  induction text with
  | nil =>
      rw [List.nil_append, splitOn_of_not_mem absent]
      exact .cons List.nil_prefix .nil
  | cons c rest hypothesis =>
      by_cases ends : c = separator
      · rw [List.cons_append, splitOn, splitOn, if_pos ends, if_pos ends]
        exact .cons List.nil_prefix hypothesis
      · obtain ⟨piece, pieces, isSplit, isNext⟩ := splitOn_cons_of_ne ends rest
        obtain ⟨longer, others, otherSplit, otherNext⟩ := splitOn_cons_of_ne ends (rest ++ back)
        rw [isSplit, otherSplit] at hypothesis
        rw [List.cons_append, isNext, otherNext]
        cases hypothesis with
        | cons first following => exact .cons ((List.prefix_cons_inj c).2 first) following

/-- The pieces of a text stand in the pieces of a text that goes on around it, if no separator
stands in what is around it. -/
theorem splitOn_inside
    {separator : Char}
    {front back : List Char}
    (absentFront : separator ∉ front)
    (absentBack : separator ∉ back)
    (text : List Char) :
    List.Forall₂ (· <:+: ·) (splitOn separator text)
      (splitOn separator (front ++ (text ++ back))) := by
  induction front with
  | nil => exact (splitOn_append_begins absentBack text).imp fun _ _ => List.IsPrefix.isInfix
  | cons c front hypothesis =>
      rw [List.mem_cons, not_or] at absentFront
      obtain ⟨longer, others, isSplit, isNext⟩ :=
        splitOn_cons_of_ne (Ne.symm absentFront.1) (front ++ (text ++ back))
      have inside := hypothesis absentFront.2
      rw [isSplit] at inside
      obtain ⟨piece, following, isInfix, infixes, isPieces⟩ :=
        List.forall₂_cons_right_iff.1 inside
      rw [List.cons_append, isNext, isPieces]
      exact .cons (isInfix.trans (List.suffix_cons c longer).isInfix) infixes

/-- A text is one line, or a line, a newline and a text. -/
@[elab_as_elim]
theorem lines_induction
    {holds : List Char → Prop}
    (last : ∀ line, '\n' ∉ line → holds line)
    (more : ∀ line rest, '\n' ∉ line → holds rest → holds (line ++ '\n' :: rest))
    (text : List Char) :
    holds text := by
  induction size : text.length using Nat.strongRecOn generalizing text with
  | ind size hypothesis =>
      by_cases ends : '\n' ∈ text
      · obtain ⟨line, rest, rfl, oneLine⟩ := List.eq_append_cons_of_mem ends
        refine more line rest oneLine (hypothesis rest.length ?_ rest rfl)
        simp only [List.length_append, List.length_cons] at size
        omega
      · exact last text ends

/-! ## Ended lines -/

theorem splitInclusive_more {line : List Char} (oneLine : '\n' ∉ line) (rest : List Char) :
    splitInclusive (line ++ '\n' :: rest) = (line ++ ['\n']) :: splitInclusive rest := by
  induction line with
  | nil => exact if_pos rfl
  | cons c line hypothesis =>
      rw [List.mem_cons, not_or] at oneLine
      rw [List.cons_append, splitInclusive, if_neg (Ne.symm oneLine.1), hypothesis oneLine.2]
      rfl

theorem splitInclusive_last {line : List Char} (oneLine : '\n' ∉ line) :
    splitInclusive line = if line.isEmpty then [] else [line] := by
  induction line with
  | nil => rfl
  | cons c line hypothesis =>
      rw [List.mem_cons, not_or] at oneLine
      rw [splitInclusive, if_neg (Ne.symm oneLine.1), hypothesis oneLine.2]
      cases line <;> rfl

/-- The end of a line is a newline, and a carriage return in front of it. -/
theorem dropLineEnd_newline (line : List Char) :
    dropLineEnd (line ++ ['\n']) = line ∨ dropLineEnd (line ++ ['\n']) ++ ['\r'] = line := by
  unfold dropLineEnd
  rw [List.reverse_append]
  split
  · rename_i rest reversed
    have ends : line.reverse = '\r' :: rest := (List.cons.inj reversed).2
    right
    rw [← List.reverse_cons, ← ends, List.reverse_reverse]
  · rename_i rest _ reversed
    have ends : line.reverse = rest := (List.cons.inj reversed).2
    left
    rw [← ends, List.reverse_reverse]
  · rename_i noEnd
    exact absurd rfl (noEnd line.reverse)

theorem dropLineEnd_of_not_mem {line : List Char} (oneLine : '\n' ∉ line) :
    dropLineEnd line = line := by
  have notLast (rest : List Char) : line.reverse ≠ '\n' :: rest := by
    intro reversed
    exact oneLine (List.mem_reverse.1 (reversed ▸ List.mem_cons_self))
  unfold dropLineEnd
  split
  · rename_i reversed
    exact absurd reversed (notLast _)
  · rename_i reversed
    exact absurd reversed (notLast _)
  · rfl

theorem lines_last {line : List Char} (oneLine : '\n' ∉ line) :
    lines line = if line.isEmpty then [] else [line] := by
  rw [lines, splitInclusive_last oneLine]
  split
  · rfl
  · rw [List.map_singleton, dropLineEnd_of_not_mem oneLine]

theorem lines_more {line : List Char} (oneLine : '\n' ∉ line) (rest : List Char) :
    lines (line ++ '\n' :: rest) = dropLineEnd (line ++ ['\n']) :: lines rest := by
  rw [lines, splitInclusive_more oneLine]
  rfl

/-- No line holds a newline. -/
theorem newline_not_mem_of_mem_lines
    {text line : List Char}
    (member : line ∈ lines text) :
    '\n' ∉ line := by
  induction text using lines_induction with
  | last content oneLine =>
      rw [lines_last oneLine] at member
      split at member
      · exact absurd member List.not_mem_nil
      · rwa [List.mem_singleton.1 member]
  | more content rest oneLine hypothesis =>
      rw [lines_more oneLine] at member
      rcases List.mem_cons.1 member with rfl | later
      · rcases dropLineEnd_newline content with whole | whole
        · rwa [whole]
        · exact fun inLine => oneLine (whole ▸ List.mem_append_left _ inLine)
      · exact hypothesis later

/-- Cutting a text into lines takes away nothing but carriage returns and newlines. -/
theorem filter_flatten_lines
    {p : Char -> Bool}
    (noNewline : p '\n' = false)
    (noReturn : p '\r' = false)
    (text : List Char) :
    (lines text).flatten.filter p = text.filter p := by
  induction text using lines_induction with
  | last content oneLine =>
      rw [lines_last oneLine]
      split
      · rename_i empty
        rw [List.isEmpty_iff.1 empty]
        rfl
      · rw [List.flatten_singleton]
  | more content rest oneLine hypothesis =>
      have kept : (dropLineEnd (content ++ ['\n'])).filter p = content.filter p := by
        rcases dropLineEnd_newline content with whole | whole
        · rw [whole]
        · have filtered := congrArg (List.filter p) whole
          rwa [List.filter_append, List.filter_cons, noReturn, if_neg Bool.false_ne_true,
            List.filter_nil, List.append_nil] at filtered
      rw [lines_more oneLine, List.flatten_cons, List.filter_append, hypothesis, kept,
        List.filter_append, List.filter_cons, noNewline, if_neg Bool.false_ne_true]

end Text
end DeclManual
