import DeclManual.Proofs.Text.Lines
import DeclManual.Proofs.Text.Trim
import DeclManual.Source.Comment

/-!
# Cleaning takes decoration away

The lines that are left of a comment are parts of the lines that were written, without blanks
at either end, and neither the first nor the last of them is empty.  Besides blanks and the
characters with which borders are drawn, nothing is lost.
-/

namespace DeclManual
namespace Source

variable
  {line part text source : List Char} {lines written : List (List Char)} {cleaned : String}

/-- A character that does not count as text: a blank, or one with which borders are drawn. -/
def isDecoration (c : Char) : Bool :=
  Text.isBlank c || isBorder c

/-- A text without its decoration. -/
def undecorated (text : List Char) : List Char :=
  text.filter (!isDecoration ·)

theorem undecorated_append (first second : List Char) :
    undecorated (first ++ second) = undecorated first ++ undecorated second :=
  List.filter_append first second

/-- A blank is decoration. -/
theorem isDecoration_of_isBlank {c : Char} (blank : Text.isBlank c = true) :
    isDecoration c = true := by
  rw [isDecoration, blank, Bool.true_or]

/-- A border character is decoration. -/
theorem isDecoration_of_isBorder {c : Char} (border : isBorder c = true) :
    isDecoration c = true := by
  rw [isDecoration, border, Bool.or_true]

/-- A gutter character is decoration. -/
theorem isDecoration_of_isGutter {c : Char} (gutter : isGutter c = true) :
    isDecoration c = true :=
  isDecoration_of_isBorder (by simp [isBorder, gutter])

/-! ## One line -/

/-- A drawn line is all decoration. -/
theorem isCore_nil_of_isRule (rule : isRule text = true) : Text.IsCore isDecoration [] text := by
  simp only [isRule, Bool.and_eq_true, List.all_eq_true] at rule
  obtain ⟨⟨-, borders⟩, -⟩ := rule
  exact (Text.IsCore.nil fun c listed => isDecoration_of_isBorder (borders c listed)).trans
    ((Text.isCore_trim text).mono fun _ => isDecoration_of_isBlank)

/-- A trimmed part of a line, with nothing but decoration around it. -/
structure IsCleaned (part line : List Char) : Prop where
  core : Text.IsCore isDecoration part line
  stripped : Text.IsStripped Text.isBlank part

namespace IsCleaned

/-- A cleaned line stays cleaned without its outer blanks. -/
theorem trim (core : Text.IsCore isDecoration part line) : IsCleaned (Text.trim part) line where
  core := ((Text.isCore_trim part).mono fun _ => isDecoration_of_isBlank).trans core
  stripped := Text.isStripped_trim part

/-- A drawn part may be left out. -/
theorem unlessRule (cleaned : IsCleaned part line) :
    IsCleaned (if isRule part then [] else part) line := by
  split
  · rename_i rule
    exact ⟨(isCore_nil_of_isRule rule).trans cleaned.core, .nil _⟩
  · exact cleaned

/-- The right-hand border of a box goes with the blanks in front of it, or stays. -/
theorem dropRightBorder (cleaned : IsCleaned part line) :
    IsCleaned (Source.dropRightBorder part) line := by
  rw [Source.dropRightBorder]
  split
  · have borders : Text.IsCore isDecoration (Text.dropEndWhile isGutter part) part :=
      (Text.isCore_dropEndWhile isGutter part).mono fun _ => isDecoration_of_isGutter
    have blanks : Text.IsCore isDecoration (Text.trimEnd (Text.dropEndWhile isGutter part))
        (Text.dropEndWhile isGutter part) :=
      (Text.isCore_dropEndWhile Text.isBlank _).mono fun _ => isDecoration_of_isBlank
    exact ⟨(blanks.trans borders).trans cleaned.core,
      Text.isStripped_trimEnd cleaned.stripped (Text.dropEndWhile_begins isGutter part)⟩
  · exact cleaned

end IsCleaned

/-- Cleaning a line takes nothing but decoration from its ends. -/
theorem isCleaned_cleanLine (line : List Char) : IsCleaned (cleanLine line) line := by
  have returns : Text.IsCore isDecoration (Text.dropEndWhile (· == '\r') line) line := by
    refine (Text.isCore_dropEndWhile _ line).mono fun c isReturn => ?_
    rw [eq_of_beq isReturn]
    decide
  have trimmed := IsCleaned.trim returns
  unfold cleanLine
  dsimp only
  split
  · rename_i rule
    exact ⟨(isCore_nil_of_isRule rule).trans trimmed.core, .nil _⟩
  · have gutter : Text.IsCore isDecoration _ (Text.trim (Text.dropEndWhile (· == '\r') line)) :=
      (Text.IsCore.dropWhile isGutter _).mono fun _ => isDecoration_of_isGutter
    have inside := IsCleaned.trim (gutter.trans trimmed.core)
    refine IsCleaned.unlessRule ?_
    split
    · exact inside.dropRightBorder
    · exact inside

/-- Cleaning a line keeps all that is no decoration. -/
theorem undecorated_cleanLine (line : List Char) :
    undecorated (cleanLine line) = undecorated line :=
  (isCleaned_cleanLine line).core.filter

/-! ## The lines of a comment -/

/-- Lines are dropped from both ends alone, and only blank ones. -/
theorem isCore_dropOuterBlanks (lines : List (List Char)) :
    Text.IsCore List.isEmpty (dropOuterBlanks lines) lines :=
  (Text.IsCore.rdropWhile List.isEmpty _).trans (.dropWhile List.isEmpty lines)

/-- Neither the first nor the last line left is blank. -/
theorem isStripped_dropOuterBlanks (lines : List (List Char)) :
    Text.IsStripped List.isEmpty (dropOuterBlanks lines) :=
  .dropWhile_rdropWhile List.isEmpty lines

/-- No line is left just if all are blank. -/
theorem dropOuterBlanks_eq_nil_iff :
    dropOuterBlanks lines = [] ↔ ∀ line ∈ lines, line = [] := by
  constructor
  · intro none line listed
    have core := isCore_dropOuterBlanks lines
    rw [none] at core
    exact List.isEmpty_iff.1 (core.all_of_nil line listed)
  · intro empty
    cases left : dropOuterBlanks lines with
    | nil => rfl
    | cons first rest =>
        have filled := (isStripped_dropOuterBlanks lines).head first (by rw [left]; rfl)
        have listed := (isCore_dropOuterBlanks lines).isInfix.subset (left ▸ List.mem_cons_self)
        rw [empty first listed] at filled
        contradiction

/-- Dropping blank lines drops no character. -/
theorem flatten_dropOuterBlanks (lines : List (List Char)) :
    (dropOuterBlanks lines).flatten = lines.flatten := by
  obtain ⟨front, back, parts, inFront, inBack⟩ := isCore_dropOuterBlanks lines
  have noFront : front.flatten = [] :=
    List.flatten_eq_nil_iff.2 fun line listed => List.isEmpty_iff.1 (inFront line listed)
  have noBack : back.flatten = [] :=
    List.flatten_eq_nil_iff.2 fun line listed => List.isEmpty_iff.1 (inBack line listed)
  conv_rhs => rw [parts]
  rw [List.flatten_append, List.flatten_append, noFront, noBack, List.nil_append, List.append_nil]

/-- Line ends between lines are decoration. -/
theorem undecorated_joinWith (lines : List (List Char)) :
    undecorated (Text.joinWith ['\n'] lines) = undecorated lines.flatten := by
  induction lines with
  | nil => rfl
  | cons first rest hypothesis =>
      cases rest with
      | nil => rw [Text.joinWith, List.flatten_singleton]
      | cons second others =>
          have joined : Text.joinWith ['\n'] (first :: second :: others) =
              first ++ '\n' :: Text.joinWith ['\n'] (second :: others) := by
            simp [Text.joinWith]
          rw [joined, List.flatten_cons, undecorated_append, undecorated_append, ← hypothesis]
          rfl

/-- Cleaning lines keeps all that is no decoration. -/
theorem undecorated_cleanLines (lines : List (List Char)) :
    undecorated (lines.map cleanLine).flatten = undecorated lines.flatten := by
  rw [undecorated, undecorated, List.filter_flatten, List.filter_flatten, List.map_map]
  exact congrArg List.flatten (List.map_congr_left fun line _ => undecorated_cleanLine line)

/-! ## What is left of a comment -/

/-- The cleaned text is the cleaned lines without blank ones at its ends. -/
theorem toList_getD_cleanLines (lines : List (List Char)) :
    ((cleanLines lines).getD "").toList =
      Text.joinWith ['\n'] (dropOuterBlanks (lines.map cleanLine)) := by
  unfold cleanLines
  split
  · rename_i none
    rw [none]
    rfl
  · rw [Option.getD_some, String.toList_ofList]

/-- There is no cleaned text just if every line is cleaned to nothing. -/
theorem cleanLines_eq_none_iff :
    cleanLines lines = none ↔ ∀ line ∈ lines, cleanLine line = [] := by
  rw [← List.forall_mem_map (P := (· = [])), ← dropOuterBlanks_eq_nil_iff]
  unfold cleanLines
  split
  · rename_i none
    exact iff_of_true rfl none
  · rename_i some
    exact iff_of_false (Option.some_ne_none _) some

/-- The lines of the text that is left are the cleaned lines. -/
theorem splitOn_of_cleanLines
    (oneLine : ∀ line ∈ lines, '\n' ∉ line)
    (left : cleanLines lines = some cleaned) :
    Text.splitOn '\n' cleaned.toList = dropOuterBlanks (lines.map cleanLine) := by
  have isText := toList_getD_cleanLines lines
  rw [left, Option.getD_some] at isText
  rw [isText]
  refine Text.splitOn_joinWith ?_ ?_
  · rw [Ne, dropOuterBlanks_eq_nil_iff, List.forall_mem_map, ← cleanLines_eq_none_iff, left]
    exact Option.some_ne_none cleaned
  · intro part listed
    obtain ⟨line, isLine, rfl⟩ :=
      List.mem_map.1 ((isCore_dropOuterBlanks (lines.map cleanLine)).isInfix.subset listed)
    exact fun newline =>
      oneLine line isLine ((isCleaned_cleanLine line).core.isInfix.subset newline)

/-- What cleaning leaves of a comment, against its text and its lines as they were written.
`lines` are the same lines without the delimiters of the comment. -/
structure LosesDecoration
    (source : List Char)
    (written lines : List (List Char))
    (left : Option String) : Prop where
  /-- With empty lines at either end again, every line is a trimmed part of the written line in
  its place. -/
  parts : ∀ text ∈ left, ∃ before after,
    (∀ line ∈ before, line = []) ∧ (∀ line ∈ after, line = []) ∧
    List.Forall₂ (fun part line => part <:+: line ∧ Text.IsStripped Text.isBlank part)
      (before ++ (Text.splitOn '\n' text.toList ++ after)) written
  /-- The first line and the last line are not empty. -/
  ends : ∀ text ∈ left, Text.IsStripped List.isEmpty (Text.splitOn '\n' text.toList)
  content : undecorated (left.getD "").toList = undecorated source
  none_iff : left = none ↔ ∀ line ∈ lines, cleanLine line = []

/-- Cleaned lines have lost decoration alone. -/
theorem losesDecoration_cleanLines
    (oneLine : ∀ line ∈ lines, '\n' ∉ line)
    (inside : List.Forall₂ (· <:+: ·) lines written)
    (content : undecorated lines.flatten = undecorated source) :
    LosesDecoration source written lines (cleanLines lines) where
  parts text left := by
    obtain ⟨before, after, parts, inBefore, inAfter⟩ := isCore_dropOuterBlanks (lines.map cleanLine)
    refine ⟨before, after, fun line listed => List.isEmpty_iff.1 (inBefore line listed),
      fun line listed => List.isEmpty_iff.1 (inAfter line listed), ?_⟩
    rw [splitOn_of_cleanLines oneLine left, ← parts, List.forall₂_map_left_iff]
    refine inside.imp fun line written isInside => ?_
    have cleaned := isCleaned_cleanLine line
    exact ⟨cleaned.core.isInfix.trans isInside, cleaned.stripped⟩
  ends text left := by
    rw [splitOn_of_cleanLines oneLine left]
    exact isStripped_dropOuterBlanks _
  content := by
    rw [toList_getD_cleanLines, undecorated_joinWith, flatten_dropOuterBlanks,
      undecorated_cleanLines, content]
  none_iff := cleanLines_eq_none_iff

/-! ## Delimiters -/

/-- The text of a block comment without its delimiters. -/
def blockText (raw : List Char) : List Char :=
  dropTrail ['*', '/'] (dropLead ['/', '*'] raw)

/-- The lines of a block comment without its delimiters. -/
def blockLines (raw : List Char) : List (List Char) :=
  Text.splitOn '\n' (blockText raw)

/-- A word in front is dropped or does not stand there. -/
theorem dropLead_cases (word text : List Char) :
    text = word ++ dropLead word text ∨ dropLead word text = text := by
  unfold dropLead
  cases found : word.isPrefixOf? text with
  | none => exact .inr rfl
  | some rest => exact .inl (List.isPrefixOf?_eq_some_iff_append_eq.1 found).symm

/-- A word at the end is dropped or does not stand there. -/
theorem dropTrail_cases (word text : List Char) :
    text = dropTrail word text ++ word ∨ dropTrail word text = text := by
  unfold dropTrail
  rcases dropLead_cases word.reverse text.reverse with found | none
  · left
    have backwards := congrArg List.reverse found
    rwa [List.reverse_append, List.reverse_reverse, List.reverse_reverse] at backwards
  · right
    rw [none, List.reverse_reverse]

/-- Nothing but border characters stands around the text of a block comment. -/
theorem exists_delimiters (raw : List Char) :
    ∃ front back, raw = front ++ (blockText raw ++ back) ∧
      (∀ c ∈ front, isGutter c = true) ∧ ∀ c ∈ back, isGutter c = true := by
  have before : ∃ front, raw = front ++ dropLead ['/', '*'] raw ∧
      ∀ c ∈ front, isGutter c = true := by
    rcases dropLead_cases ['/', '*'] raw with opened | plain
    · exact ⟨_, opened, List.all_eq_true.1 rfl⟩
    · exact ⟨[], plain.symm, nofun⟩
  have after : ∃ back, dropLead ['/', '*'] raw = blockText raw ++ back ∧
      ∀ c ∈ back, isGutter c = true := by
    rcases dropTrail_cases ['*', '/'] (dropLead ['/', '*'] raw) with closed | plain
    · exact ⟨_, closed, List.all_eq_true.1 rfl⟩
    · exact ⟨[], by rw [blockText, plain, List.append_nil], nofun⟩
  obtain ⟨front, opened, inFront⟩ := before
  obtain ⟨back, closed, inBack⟩ := after
  exact ⟨front, back, closed ▸ opened, inFront, inBack⟩

/-- Lines hold all of a text but its newlines. -/
theorem undecorated_splitOn (text : List Char) :
    undecorated (Text.splitOn '\n' text).flatten = undecorated text := by
  rw [← undecorated_joinWith, Text.joinWith_splitOn]

/-- A cleaned block comment has lost decoration alone. -/
theorem losesDecoration_cleanBlock (raw : List Char) :
    LosesDecoration raw (Text.splitOn '\n' raw) (blockLines raw) (cleanBlock raw) := by
  obtain ⟨front, back, parts, inFront, inBack⟩ := exists_delimiters raw
  have noNewline {around : List Char} (gutter : ∀ c ∈ around, isGutter c = true) :
      '\n' ∉ around :=
    fun newline => absurd (gutter '\n' newline) (by decide)
  have core : Text.IsCore isDecoration (blockText raw) raw :=
    ⟨front, back, parts, fun c listed => isDecoration_of_isGutter (inFront c listed),
      fun c listed => isDecoration_of_isGutter (inBack c listed)⟩
  refine losesDecoration_cleanLines (fun line => Text.not_mem_of_mem_splitOn) ?_ ?_
  · have inside := Text.splitOn_inside (noNewline inFront) (noNewline inBack) (blockText raw)
    rwa [← parts] at inside
  · exact (undecorated_splitOn (blockText raw)).trans core.filter

/-- Cleaning a block comment, and cleaning `//` lines, takes nothing but decoration away: the
lines that are left are trimmed parts of the written lines, neither the first nor the last of
them is empty, all other text is kept, and there is none exactly if every line is cleaned away. -/
theorem cleaning_losesDecoration
    (raw : List Char)
    {lines : List (List Char)}
    (oneLine : ∀ line ∈ lines, '\n' ∉ line) :
    LosesDecoration raw (Text.splitOn '\n' raw) (blockLines raw) (cleanBlock raw) ∧
      LosesDecoration lines.flatten lines lines (cleanLines lines) :=
  ⟨losesDecoration_cleanBlock raw,
    losesDecoration_cleanLines oneLine (List.forall₂_same.2 fun line _ => List.infix_refl line) rfl⟩

/-- A framed box and a box of `//` lines with a rule, a list marker and a blank line. -/
theorem cleaning_losesDecoration_boxes :
    (∀ line ∈ ["//// - Fancy box.  ".toList, "////".toList, "// ----".toList], '\n' ∉ line) ∧
      LosesDecoration "/****\n * Framed  *\n ****/".toList
        (Text.splitOn '\n' "/****\n * Framed  *\n ****/".toList)
        (blockLines "/****\n * Framed  *\n ****/".toList) (some "Framed") ∧
      LosesDecoration ["//// - Fancy box.  ".toList, "////".toList, "// ----".toList].flatten
        ["//// - Fancy box.  ".toList, "////".toList, "// ----".toList]
        ["//// - Fancy box.  ".toList, "////".toList, "// ----".toList] (some "- Fancy box.") :=
  ⟨by decide, cleaning_losesDecoration _ (by decide)⟩

end Source
end DeclManual
