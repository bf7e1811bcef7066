import DeclManual.Proofs.Prose.Slices
import DeclManual.Prose.Terse

/-!
# The terse line of a comment

A group is described by the first line of what follows the first dashes between blanks, or of
the whole comment if there are none.  Newlines are blanks, so the dashes may stand on a later
line, and what follows them is then no part of the first line.  The scan looks for ASCII
characters alone, so it runs over the bytes of the comment and cuts between two characters.
-/

namespace DeclManual
namespace Prose

variable
  {before : List Char -> Prop} {p : Char -> Bool} {state : DashScan} {c : Char}
  {text past middle rest lead : List Char}

/-! ## Dashes between blanks -/

/-- A text that ends in characters of some kind, after a text of another kind. -/
def EndsInRun (before : List Char -> Prop) (p : Char -> Bool) (text : List Char) : Prop :=
  ∃ front run, text = front ++ run ∧ before front ∧ run ≠ [] ∧ ∀ c ∈ run, p c = true

/-- A text that ends in blanks. -/
def EndsInBlanks (text : List Char) : Prop :=
  EndsInRun (fun _ => True) Text.isAsciiBlank text

/-- A text that ends in dashes after blanks. -/
def EndsInDashes (text : List Char) : Prop :=
  EndsInRun EndsInBlanks (· == '-') text

/-- A text that ends in dashes between blanks. -/
def EndsInDash (text : List Char) : Prop :=
  EndsInRun EndsInDashes Text.isAsciiBlank text

theorem not_endsInRun_nil : ¬ EndsInRun before p [] := by
  rintro ⟨front, run, parts, -, nonempty, -⟩
  exact nonempty (List.append_eq_nil_iff.1 parts.symm).2

/-- A run goes on, or starts after a text of the other kind. -/
theorem endsInRun_concat :
    EndsInRun before p (text ++ [c]) ↔ p c = true ∧ (before text ∨ EndsInRun before p text) := by
  constructor
  · rintro ⟨front, run, parts, isBefore, nonempty, all⟩
    obtain ⟨run, last, rfl⟩ := List.eq_nil_or_concat run |>.resolve_left nonempty
    rw [List.concat_eq_append] at parts all
    rw [← List.append_assoc] at parts
    obtain ⟨rfl, rfl⟩ := List.append_inj' parts rfl |>.imp_right List.singleton_inj.1
    obtain ⟨all, holds⟩ := List.forall_mem_append.1 all
    refine ⟨holds c (List.mem_singleton_self c), ?_⟩
    cases run with
    | nil => exact .inl (by rwa [List.append_nil])
    | cons d run => exact .inr ⟨front, d :: run, rfl, isBefore, List.cons_ne_nil d run, all⟩
  · rintro ⟨holds, isBefore | ⟨front, run, rfl, isBefore, -, all⟩⟩
    · exact ⟨text, [c], rfl, isBefore, List.cons_ne_nil c [], by simpa using holds⟩
    · refine ⟨front, run ++ [c], List.append_assoc front run [c], isBefore, by simp, ?_⟩
      exact List.forall_mem_append.2 ⟨all, by simpa using holds⟩

/-! ## The scan -/

/-- The state of the scan after a character. -/
def DashScan.next (state : DashScan) (c : Char) : DashScan :=
  if Text.isAsciiBlank c then
    if state = .dash ∨ state = .trailBlank then .trailBlank else .leadBlank
  else if c = '-' ∧ (state = .leadBlank ∨ state = .dash) then .dash
  else .stuff

theorem afterDashes?_cons (state : DashScan) (c : Char) (rest : List Char) :
    afterDashes? state (c :: rest) =
      if state = .trailBlank ∧ Text.isAsciiBlank c = false then some (c :: rest)
      else afterDashes? (state.next c) rest := by
  have noBlank : Text.isAsciiBlank '-' = false := rfl
  by_cases dash : c = '-'
  · subst dash
    cases state <;> simp [afterDashes?, DashScan.next, noBlank]
  · cases blank : Text.isAsciiBlank c <;> cases state <;>
      simp [afterDashes?, DashScan.next, blank, dash]

theorem next_isBlank_iff :
    state.next c = .leadBlank ∨ state.next c = .trailBlank ↔ Text.isAsciiBlank c = true := by
  unfold DashScan.next
  split_ifs <;> simp_all

theorem next_eq_dash_iff :
    state.next c = .dash ↔ c = '-' ∧ (state = .leadBlank ∨ state = .dash) := by
  have noDash (blank : Text.isAsciiBlank c = true) : c ≠ '-' := by
    rintro rfl
    cases blank
  unfold DashScan.next
  split_ifs <;> simp_all

theorem next_eq_trailBlank_iff :
    state.next c = .trailBlank ↔
      Text.isAsciiBlank c = true ∧ (state = .dash ∨ state = .trailBlank) := by
  unfold DashScan.next
  split_ifs <;> simp_all

/-- What a state says of the text before it. -/
structure DashScan.Saw (state : DashScan) (past : List Char) : Prop where
  blanks : EndsInBlanks past ↔ state = .leadBlank ∨ state = .trailBlank
  dashes : EndsInDashes past ↔ state = .dash
  between : EndsInDash past ↔ state = .trailBlank

theorem saw_nil : DashScan.stuff.Saw [] where
  blanks := iff_of_false not_endsInRun_nil (by decide)
  dashes := iff_of_false not_endsInRun_nil (by decide)
  between := iff_of_false not_endsInRun_nil (by decide)

/-- The scan goes on until something other than a blank follows dashes between blanks. -/
theorem DashScan.Saw.next
    (saw : state.Saw past)
    (goesOn : ¬ (state = .trailBlank ∧ Text.isAsciiBlank c = false)) :
    (state.next c).Saw (past ++ [c]) where
  blanks := by
    rw [EndsInBlanks, endsInRun_concat, next_isBlank_iff]
    exact ⟨And.left, fun blank => ⟨blank, .inl trivial⟩⟩
  dashes := by
    -- a dash ends the scan where it follows dashes between blanks
    have noTrail (isDash : c = '-') : state ≠ .trailBlank := by
      rintro rfl
      exact goesOn ⟨rfl, by rw [isDash]; rfl⟩
    rw [EndsInDashes, endsInRun_concat, ← EndsInDashes, saw.blanks, saw.dashes, next_eq_dash_iff,
      beq_iff_eq]
    refine and_congr_right fun isDash => ?_
    rw [or_iff_left (noTrail isDash)]
  between := by
    rw [EndsInDash, endsInRun_concat, ← EndsInDash, saw.dashes, saw.between,
      next_eq_trailBlank_iff]

/-! ## What the scan finds -/

/-- A text with dashes between blanks at the end of its first part, after which text follows. -/
def IsDashCut (lead rest : List Char) : Prop :=
  EndsInDash lead ∧ rest.head?.map Text.isAsciiBlank = some false

theorem DashScan.Saw.isDashCut_cons_iff (saw : state.Saw past) :
    IsDashCut past (c :: rest) ↔ state = .trailBlank ∧ Text.isAsciiBlank c = false := by
  rw [IsDashCut, saw.between, List.head?_cons, Option.map_some, Option.some_inj]

/-- What the scan finds follows dashes between blanks. -/
theorem isDashCut_of_afterDashes?
    (saw : state.Saw past)
    (found : afterDashes? state text = some rest) :
    ∃ middle, text = middle ++ rest ∧ IsDashCut (past ++ middle) rest := by
  induction text generalizing state past with
  | nil => simp [afterDashes?] at found
  | cons c text hypothesis =>
      rw [afterDashes?_cons] at found
      split at found
      · rename_i ends
        obtain rfl := Option.some.inj found
        exact ⟨[], rfl, by rw [List.append_nil]; exact saw.isDashCut_cons_iff.2 ends⟩
      · rename_i goesOn
        obtain ⟨middle, rfl, cut⟩ := hypothesis (saw.next goesOn) found
        exact ⟨c :: middle, rfl, by simpa using cut⟩

/-- The scan does not go past text that follows dashes between blanks. -/
theorem afterDashes?_of_isDashCut
    (saw : state.Saw past)
    (cut : IsDashCut (past ++ middle) rest) :
    ∃ between, afterDashes? state (middle ++ rest) = some (between ++ rest) := by
  induction middle generalizing state past with
  | nil =>
      rw [List.append_nil] at cut
      cases rest with
      | nil => exact absurd cut.2 (by simp)
      | cons c after =>
          refine ⟨[], ?_⟩
          rw [List.nil_append, afterDashes?_cons, if_pos (saw.isDashCut_cons_iff.1 cut)]
  | cons c middle hypothesis =>
      rw [List.cons_append, afterDashes?_cons]
      split
      · exact ⟨c :: middle, rfl⟩
      · rename_i goesOn
        exact hypothesis (saw.next goesOn) (by simpa using cut)

/-- A text through the first dashes between blanks after which text follows, and what follows
them; all of the text follows if there are none. -/
def IsFirstDashCut (text lead rest : List Char) : Prop :=
  text = lead ++ rest ∧
    ((lead = [] ∧ ∀ front back, text = front ++ back → ¬ IsDashCut front back) ∨
      IsDashCut lead rest ∧
        ∀ front back, text = front ++ back → IsDashCut front back → lead.length ≤ front.length)

/-- The text of which the first line is the terse line. -/
def terseText (text : List Char) : List Char :=
  (afterDashes? .stuff text).getD text

/-- The terse line of a text is taken after its first dashes between blanks. -/
theorem exists_isFirstDashCut (text : List Char) :
    ∃ lead, IsFirstDashCut text lead (terseText text) := by
  unfold terseText
  cases found : afterDashes? .stuff text with
  | none =>
      refine ⟨[], rfl, .inl ⟨rfl, fun front back parts cut => ?_⟩⟩
      obtain ⟨between, isFound⟩ := afterDashes?_of_isDashCut saw_nil cut
      rw [← parts, found] at isFound
      exact absurd isFound.symm (Option.some_ne_none _)
  | some rest =>
      obtain ⟨lead, parts, cut⟩ := isDashCut_of_afterDashes? saw_nil found
      refine ⟨lead, parts, .inr ⟨cut, fun front back others otherCut => ?_⟩⟩
      obtain ⟨between, isFound⟩ := afterDashes?_of_isDashCut saw_nil otherCut
      rw [← others, found] at isFound
      have lengths := congrArg List.length (parts.symm.trans others)
      rw [Option.some.inj isFound] at lengths
      simp only [List.length_append] at lengths
      omega

/-! ## The scan of the bytes -/

/-- The scan passes over characters that are neither blanks nor dashes, unless text is due. -/
theorem afterDashes?_plain
    (plain : ∀ c ∈ text, Text.isAsciiBlank c = false ∧ c ≠ '-')
    (nonempty : text ≠ [])
    (goesOn : state ≠ .trailBlank) :
    afterDashes? state (text ++ rest) = afterDashes? .stuff rest := by
  induction text generalizing state with
  | nil => exact absurd rfl nonempty
  | cons c text hypothesis =>
      obtain ⟨⟨noBlank, noDash⟩, plain⟩ := List.forall_mem_cons.1 plain
      have isNext : state.next c = .stuff := by simp [DashScan.next, noBlank, noDash]
      rw [List.cons_append, afterDashes?_cons, if_neg fun ends => goesOn ends.1, isNext]
      by_cases more : text = []
      · rw [more, List.nil_append]
      · exact hypothesis plain more (by decide)

theorem plain_of_not_ascii (other : 128 ≤ c.toNat) : Text.isAsciiBlank c = false ∧ c ≠ '-' := by
  constructor
  · rw [← Bool.not_eq_true]
    exact fun blank => absurd (ascii_of_isAsciiBlank blank) (Nat.not_lt_of_le other)
  · rintro rfl
    exact absurd other (by decide)

/-- The scan of the bytes finds the bytes of what the scan of the text finds. -/
theorem afterDashes?_encoded (state : DashScan) (text : List Char) :
    afterDashes? state (Text.encoded text) = (afterDashes? state text).map Text.encoded := by
  induction text generalizing state with
  | nil => cases state <;> rfl
  | cons c text hypothesis =>
      rcases Nat.lt_or_ge c.toNat 128 with ascii | other
      · rw [Text.encoded_cons_of_ascii ascii, afterDashes?_cons, afterDashes?_cons]
        split
        · rw [Option.map_some, Text.encoded_cons_of_ascii ascii]
        · exact hypothesis _
      · have plain : ∀ b ∈ Text.encodedChar c, Text.isAsciiBlank b = false ∧ b ≠ '-' :=
          fun b listed => plain_of_not_ascii (Text.encodedChar_of_not_ascii other listed)
        have nonempty := Text.encodedChar_ne_nil c
        by_cases ends : state = .trailBlank
        · obtain ⟨b, bytes, isChar⟩ := List.exists_cons_of_ne_nil nonempty
          have noBlank := (plain b (isChar ▸ List.mem_cons_self)).1
          rw [Text.encoded_cons, isChar, List.cons_append, afterDashes?_cons, afterDashes?_cons,
            if_pos ⟨ends, noBlank⟩, if_pos ⟨ends, (plain_of_not_ascii other).1⟩, Option.map_some,
            Text.encoded_cons, isChar, List.cons_append]
        · have single : afterDashes? state ([c] ++ text) = afterDashes? .stuff text :=
            afterDashes?_plain (by simpa using plain_of_not_ascii other)
              (List.cons_ne_nil c []) ends
          rw [Text.encoded_cons, afterDashes?_plain plain nonempty ends, hypothesis, ← single,
            List.singleton_append]

theorem terseText_encoded (text : List Char) :
    terseText (Text.encoded text) = Text.encoded (terseText text) := by
  unfold terseText
  rw [afterDashes?_encoded]
  cases afterDashes? .stuff text <;> rfl

/-- Where the terse line of a text stands in it. -/
def terseSpan (text : List Char) : Range where
  start := text.length - (terseText text).length
  stop := text.length - (terseText text).length + (Text.firstLine (terseText text)).length

theorem terseSpan_of_parts (parts : text = lead ++ terseText text) :
    terseSpan text =
      ⟨lead.length, lead.length + (Text.firstLine (terseText text)).length⟩ := by
  have length := congrArg List.length parts
  rw [List.length_append] at length
  have start : text.length - (terseText text).length = lead.length := by omega
  rw [terseSpan, start]

theorem firstLine_begins (text : List Char) : Text.firstLine text <+: text :=
  List.takeWhile_prefix _

theorem firstLine_encoded (text : List Char) :
    Text.firstLine (Text.encoded text) = Text.encoded (Text.firstLine text) :=
  isAsciiTest_ne_newline.takeWhile text

/-- The bytes of a first line stand where the line does. -/
theorem encoded_firstLine_range (lead rest : List Char) :
    Range.encoded (lead ++ rest) ⟨lead.length, lead.length + (Text.firstLine rest).length⟩ =
      ⟨Text.byteLength lead, Text.byteLength lead + Text.byteLength (Text.firstLine rest)⟩ := by
  obtain ⟨after, isFirst⟩ := firstLine_begins rest
  have stop : Text.byteOffset (lead ++ rest) (lead.length + (Text.firstLine rest).length) =
      Text.byteLength lead + Text.byteLength (Text.firstLine rest) := by
    rw [← Text.byteLength_append, ← List.length_append,
      ← Text.byteOffset_length_append (lead ++ Text.firstLine rest) after, List.append_assoc,
      isFirst]
  rw [Range.encoded, stop, Text.byteOffset_length_append]

/-- The terse line of the bytes stands where that of the text does. -/
theorem terseSpan_encoded (text : List Char) :
    terseSpan (Text.encoded text) = (terseSpan text).encoded text := by
  obtain ⟨lead, parts, -⟩ := exists_isFirstDashCut text
  have encodedParts : Text.encoded text = Text.encoded lead ++ terseText (Text.encoded text) := by
    rw [terseText_encoded, ← Text.encoded_append, ← parts]
  rw [terseSpan_of_parts parts, terseSpan_of_parts encodedParts, terseText_encoded,
    firstLine_encoded, Text.length_encoded, Text.length_encoded]
  generalize terseText text = rest at parts
  rw [parts, encoded_firstLine_range]

/-- The first line of a text is that of its second part, after the first part, exactly if that
has no newline. -/
theorem append_firstLine_iff :
    lead ++ Text.firstLine rest = Text.firstLine (lead ++ rest) ↔ '\n' ∉ lead := by
  induction lead with
  | nil => simp
  | cons c lead hypothesis =>
      rw [List.mem_cons, not_or, ← hypothesis, Text.firstLine, Text.firstLine, List.cons_append,
        List.cons_append, List.takeWhile_cons]
      by_cases newline : c = '\n'
      · simp [newline]
      · simp [newline, Ne.symm newline, Text.firstLine]

/-- The scan of the bytes of a comment cuts its terse line out between two characters.  It is
the first line of what follows the first dashes between blanks, and so a part of the comment's
first line, at the end of it, exactly if they stand on that line. -/
theorem terseOf_slice (comment : String) :
    IsSlice comment (terseSpan (commentBytes comment)) ∧
    (terseOf comment).toUTF8 =
      comment.toUTF8.extract (terseSpan (commentBytes comment)).start
        (terseSpan (commentBytes comment)).stop ∧
    ∃ lead rest, IsFirstDashCut comment.toList lead rest ∧
      (terseSpan (commentBytes comment)).start = Text.byteLength lead ∧
      (terseOf comment).toList = Text.firstLine rest ∧
      (lead ++ (terseOf comment).toList = Text.firstLine comment.toList ↔ '\n' ∉ lead) := by
  have isBytes : commentBytes comment = Text.encoded comment.toList :=
    Text.toList_ofLatin1_toUTF8 comment
  have isTerse : terseOf comment = String.ofList (Text.firstLine (terseText comment.toList)) := rfl
  obtain ⟨lead, cut⟩ := exists_isFirstDashCut comment.toList
  have order : (terseSpan comment.toList).start ≤ (terseSpan comment.toList).stop :=
    Nat.le_add_right _ _
  rw [isBytes, terseSpan_encoded, isTerse, String.toList_ofList]
  refine ⟨⟨Text.byteOffset_mono _ order, Text.isValid_byteOffset _ _, Text.isValid_byteOffset _ _⟩,
    ?_, lead, _, cut, ?_, rfl, ?_⟩
  · rw [Range.encoded, Text.extract_byteOffset comment order, terseSpan_of_parts cut.1]
    generalize terseText comment.toList = rest at cut
    rw [cut.1, List.drop_left, Nat.add_sub_cancel_left,
      ← List.prefix_iff_eq_take.1 (firstLine_begins rest)]
  · rw [terseSpan_of_parts cut.1]
    generalize terseText comment.toList = rest at cut
    rw [cut.1, encoded_firstLine_range]
  · generalize terseText comment.toList = rest at cut
    rw [cut.1]
    exact append_firstLine_iff

/-- The first line is not the terse line of a comment with a list of dashes. -/
theorem terseOf_list :
    terseOf "String helpers:\n- copy\n- join" = "copy" ∧
      ¬ (terseOf "String helpers:\n- copy\n- join").toList <:+
        Text.firstLine "String helpers:\n- copy\n- join".toList := by
  decide

end Prose
end DeclManual
