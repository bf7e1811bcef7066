import DeclManual.Prose.Split
import DeclManual.Proofs.Text.Case
import DeclManual.Proofs.Text.Lines

/-!
# Lines of a comment and their positions

The lines of a comment stand in it in order, each at its position and without a newline in
it, and nothing but newlines stands between them.
-/

namespace DeclManual
namespace Prose

variable
  {start place : Nat} {content text rest comment : List Char} {c : Char}
  {line : Line} {further : List Line}

/-- Where a line ends. -/
def Line.stop (line : Line) : Nat :=
  line.start + line.content.length

/-- The lines of a text that stands at a position. -/
def linesAt (start : Nat) (text : List Char) : List Line :=
  linesFrom start (Text.splitOn '\n' text)

theorem linesAt_last (oneLine : '\n' ∉ content) :
    linesAt start content =
      if content.isEmpty then [] else [{ start, content, ended := false }] := by
  rw [linesAt, Text.splitOn_of_not_mem oneLine, linesFrom]

theorem linesAt_more (oneLine : '\n' ∉ content) (rest : List Char) :
    linesAt start (content ++ '\n' :: rest) =
      { start, content, ended := true } :: linesAt (start + content.length + 1) rest := by
  rw [linesAt, Text.splitOn_append, Text.splitOn_of_not_mem oneLine, List.singleton_append,
    linesFrom, linesAt]
  exact Text.splitOn_ne_nil _ _

/-- A line stands in a text at its position, up to a newline or to the end of the text. -/
def Line.StandsIn (text : List Char) (line : Line) : Prop :=
  ∃ before after, text = before ++ (line.content ++ after) ∧ before.length = line.start ∧
    '\n' ∉ line.content ∧
    if line.ended then after.head? = some '\n' else after = [] ∧ line.content ≠ []

theorem standsIn_of_mem_linesAt
    (before : List Char)
    (listed : line ∈ linesAt before.length text) :
    line.StandsIn (before ++ text) := by
  induction text using Text.lines_induction generalizing before with
  | last content oneLine =>
      rw [linesAt_last oneLine] at listed
      split at listed
      · exact absurd listed List.not_mem_nil
      · rename_i nonempty
        rw [List.mem_singleton.1 listed]
        exact ⟨before, [], by rw [List.append_nil], rfl, oneLine, rfl,
          fun isEmpty => nonempty (List.isEmpty_iff.2 isEmpty)⟩
  | more content rest oneLine hypothesis =>
      rw [linesAt_more oneLine] at listed
      rcases List.mem_cons.1 listed with rfl | later
      · exact ⟨before, '\n' :: rest, rfl, rfl, oneLine, rfl⟩
      · have stands := hypothesis (before ++ content ++ ['\n'])
          (by simpa [Nat.add_assoc] using later)
        simpa using stands

theorem standsIn_of_mem_linesOf (listed : line ∈ linesOf comment) : line.StandsIn comment :=
  standsIn_of_mem_linesAt [] listed

namespace Line.StandsIn

theorem stop_le_length (stands : line.StandsIn comment) : line.stop ≤ comment.length := by
  obtain ⟨before, after, rfl, atStart, -⟩ := stands
  simp [Line.stop, ← atStart]

theorem noNewline (stands : line.StandsIn comment) : '\n' ∉ line.content := by
  obtain ⟨before, after, -, -, oneLine, -⟩ := stands
  exact oneLine

/-- What follows a line's start is the line, and then something that does not continue it. -/
theorem drop_start (stands : line.StandsIn comment) :
    ∃ after, comment.drop line.start = line.content ++ after ∧
      if line.ended then after.head? = some '\n' else after = [] ∧ line.content ≠ [] := by
  obtain ⟨before, after, rfl, atStart, -, ends⟩ := stands
  exact ⟨after, by rw [← atStart, List.drop_left], ends⟩

theorem getElem?
    (stands : line.StandsIn comment)
    (offset : Nat)
    (inside : offset < line.content.length) :
    comment[line.start + offset]? = line.content[offset]? := by
  obtain ⟨after, isDrop, -⟩ := stands.drop_start
  rw [← List.getElem?_drop, isDrop, List.getElem?_append_left inside]

end Line.StandsIn

/-! ## The words of a line -/

/-- A character of a heading is a space, or an ASCII character from the slash to the letters. -/
theorem isHeadingChar_bounds (holds : isHeadingChar c = true) :
    c = ' ' ∨ 47 ≤ c.toNat ∧ c.toNat ≤ 122 := by
  simp only [isHeadingChar, Bool.or_eq_true, beq_iff_eq, Text.isAlphanum_iff, Text.isAlpha_iff,
    Text.isUpper_iff, Text.isLower_iff, Text.isDigit_iff] at holds
  rcases holds with (letter | space) | rfl
  · omega
  · exact .inl space
  · exact .inr (by decide)

theorem ascii_of_isHeadingChar (holds : isHeadingChar c = true) : c.toNat < 128 := by
  rcases isHeadingChar_bounds holds with rfl | bounds
  · decide
  · omega

/-! ## The order of lines -/

theorem start_le_of_mem_linesAt (listed : line ∈ linesAt start text) : start ≤ line.start := by
  induction text using Text.lines_induction generalizing start with
  | last content oneLine =>
      rw [linesAt_last oneLine] at listed
      split at listed
      · exact absurd listed List.not_mem_nil
      · obtain rfl := List.mem_singleton.1 listed
        exact Nat.le_refl start
  | more content rest oneLine hypothesis =>
      rw [linesAt_more oneLine] at listed
      rcases List.mem_cons.1 listed with rfl | later
      · exact Nat.le_refl _
      · have := hypothesis later
        omega

/-- The first line stands at the start. -/
theorem start_of_linesAt_eq_cons (lines : linesAt start text = line :: further) :
    line.start = start := by
  induction text using Text.lines_induction with
  | last content oneLine =>
      rw [linesAt_last oneLine] at lines
      split at lines
      · exact absurd lines (List.cons_ne_nil _ _).symm
      · rw [← (List.cons.inj lines).1]
  | more content rest oneLine hypothesis =>
      rw [linesAt_more oneLine] at lines
      rw [← (List.cons.inj lines).1]

/-- Every line ends before the next one starts. -/
theorem pairwise_linesAt (start : Nat) (text : List Char) :
    (linesAt start text).Pairwise fun line next => line.stop < next.start := by
  induction text using Text.lines_induction generalizing start with
  | last content oneLine =>
      rw [linesAt_last oneLine]
      split
      · exact .nil
      · exact List.pairwise_singleton _ _
  | more content rest oneLine hypothesis =>
      rw [linesAt_more oneLine, List.pairwise_cons]
      refine ⟨fun next later => ?_, hypothesis _⟩
      exact start_le_of_mem_linesAt later

theorem pairwise_linesOf (comment : List Char) :
    (linesOf comment).Pairwise fun line next => line.stop < next.start :=
  pairwise_linesAt 0 comment

theorem start_of_linesOf_eq_cons (lines : linesOf comment = line :: further) : line.start = 0 :=
  start_of_linesAt_eq_cons lines

theorem start_ne_zero_of_linesOf_eq_cons
    (lines : linesOf comment = line :: further)
    (next : Line)
    (later : next ∈ further) :
    next.start ≠ 0 := by
  have order := pairwise_linesOf comment
  rw [lines, List.pairwise_cons] at order
  exact Nat.ne_of_gt (Nat.lt_of_le_of_lt (Nat.zero_le _) (order.1 next later))

/-- Every character other than a newline stands in a line. -/
theorem exists_mem_linesAt
    (isAt : text[place]? = some c)
    (noNewline : c ≠ '\n') :
    ∃ line ∈ linesAt start text, line.start ≤ start + place ∧ start + place < line.stop := by
  induction text using Text.lines_induction generalizing start place with
  | last content oneLine =>
      have inside := (List.getElem?_eq_some_iff.1 isAt).1
      have nonempty : ¬ content.isEmpty := by
        rintro isEmpty
        rw [List.isEmpty_iff.1 isEmpty] at inside
        exact absurd inside (Nat.not_lt_zero place)
      rw [linesAt_last oneLine, if_neg nonempty]
      exact ⟨_, List.mem_singleton_self _, Nat.le_add_right _ _, Nat.add_lt_add_left inside _⟩
  | more content rest oneLine hypothesis =>
      rw [linesAt_more oneLine]
      rcases Nat.lt_trichotomy place content.length with inside | rfl | past
      · exact ⟨_, List.mem_cons_self, Nat.le_add_right _ _, Nat.add_lt_add_left inside _⟩
      · rw [List.getElem?_append_right (Nat.le_refl _), Nat.sub_self] at isAt
        exact absurd (Option.some.inj isAt).symm noNewline
      · obtain ⟨further, rfl⟩ := Nat.exists_eq_add_of_lt past
        rw [List.getElem?_append_right (by omega), List.getElem?_cons,
          if_neg (by omega),
          show content.length + further + 1 - content.length - 1 = further by omega]
          at isAt
        obtain ⟨line, listed, starts, stops⟩ := @hypothesis (start + content.length + 1) _ isAt
        exact ⟨line, List.mem_cons_of_mem _ listed, by omega, by omega⟩

theorem exists_mem_linesOf (isAt : comment[place]? = some c) (noNewline : c ≠ '\n') :
    ∃ line ∈ linesOf comment, line.start ≤ place ∧ place < line.stop := by
  obtain ⟨line, listed, inside⟩ := @exists_mem_linesAt 0 place comment c isAt noNewline
  rw [Nat.zero_add] at inside
  exact ⟨line, listed, inside⟩

end Prose
end DeclManual
