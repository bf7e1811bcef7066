import DeclManual.Proofs.Markup.Html

/-!
# Escaped text can be read back

A format writes user text with its markup characters escaped.  Each escape is a word of a
code in which no word starts another, and nothing else that is written starts like a word,
so that undoing the words from left to right gives the text back.  In nroff the escapes
depend on where a line starts: they keep every line that starts inside the text from being
read as a request.  A text may be handed over in parts, with the same result.
-/

namespace DeclManual
namespace Markup

/-! ## Codes -/

/-- The words of a code, each with what it stands for. -/
abbrev Code := List (String × String)

/-- Undoes the words of a code from left to right.  The characters of a word are skipped once
it has been read. -/
def undoFrom (code : Code) : (skipped : Nat) -> List Char -> List Char
  | _, [] => []
  | skipped + 1, _ :: rest => undoFrom code skipped rest
  | 0, c :: rest =>
    match code.find? fun word => word.1.toList.isPrefixOf (c :: rest) with
    | some word => word.2.toList ++ undoFrom code (word.1.toList.length - 1) rest
    | none => c :: undoFrom code 0 rest

/-- What a text stands for in which the words of a code are undone. -/
def undo (code : Code) (text : List Char) : List Char :=
  undoFrom code 0 text

/-- No word is empty, and none starts another. -/
def IsPrefixFree (code : Code) : Prop :=
  ∀ word ∈ code, word.1.toList ≠ [] ∧
    ∀ other ∈ code, word.1.toList <+: other.1.toList -> word = other

instance (code : Code) : Decidable (IsPrefixFree code) :=
  inferInstanceAs (Decidable (∀ word ∈ code, word.1.toList ≠ [] ∧
    ∀ other ∈ code, word.1.toList <+: other.1.toList -> word = other))

/-- A character with which no word starts. -/
def IsPlainIn (code : Code) (c : Char) : Prop :=
  ∀ word ∈ code, word.1.toList.head? ≠ some c

instance (code : Code) : DecidablePred (IsPlainIn code) :=
  fun c => inferInstanceAs (Decidable (∀ word ∈ code, word.1.toList.head? ≠ some c))

/-- A text is written for another: as a word for what it stands for, or as itself where none of
its characters starts a word. -/
inductive Writes (code : Code) : (written reading : List Char) -> Prop where
  | word {word : String × String} (listed : word ∈ code) :
      Writes code word.1.toList word.2.toList
  | plain {text : List Char} (plain : ∀ c ∈ text, IsPlainIn code c) : Writes code text text

variable {code : Code} {c : Char} {text rest : List Char}

/-- Undoing from within a word drops the rest of the word first. -/
theorem undoFrom_eq_drop (skipped : Nat) (text : List Char) :
    undoFrom code skipped text = undo code (text.drop skipped) := by
  induction text generalizing skipped with
  | nil => cases skipped <;> rfl
  | cons c rest hypothesis =>
      cases skipped with
      | zero => rfl
      | succ skipped => exact hypothesis skipped

namespace Writes

theorem of_mem
    (word meaning : String)
    {written reading : List Char}
    (listed : (word, meaning) ∈ code)
    (isWord : word.toList = written)
    (isMeaning : meaning.toList = reading) :
    Writes code written reading :=
  isWord ▸ isMeaning ▸ .word listed

theorem singleton (plain : IsPlainIn code c) : Writes code [c] [c] :=
  .plain fun _ member => List.mem_singleton.1 member ▸ plain

/-- The blanks that a tab is written as are plain. -/
theorem tabSpaces (plain : IsPlainIn code ' ') : Writes code tabSpaces tabSpaces :=
  .plain fun _ member => List.eq_of_mem_replicate member ▸ plain

end Writes

namespace IsPrefixFree

variable (prefixFree : IsPrefixFree code)
include prefixFree

/-- A text starts with one word at most. -/
theorem eq_of_prefix
    {word other : String × String}
    (listed : word ∈ code)
    (otherListed : other ∈ code)
    (starts : word.1.toList <+: text)
    (otherStarts : other.1.toList <+: text) :
    word = other := by
  rcases List.prefix_or_prefix_of_prefix starts otherStarts with within | within
  · exact (prefixFree word listed).2 other otherListed within
  · exact ((prefixFree other otherListed).2 word listed within).symm

/-- A word in front is undone to what it stands for. -/
theorem undo_word
    {word : String × String}
    (listed : word ∈ code)
    (rest : List Char) :
    undo code (word.1.toList ++ rest) = word.2.toList ++ undo code rest := by
  have starts : word.1.toList <+: word.1.toList ++ rest := List.prefix_append _ _
  have found : (code.find? fun other => other.1.toList.isPrefixOf (word.1.toList ++ rest)) =
      some word := by
    cases search : code.find? fun other => other.1.toList.isPrefixOf (word.1.toList ++ rest) with
    | none =>
        have missed := List.find?_eq_none.1 search word listed
        exact absurd (List.isPrefixOf_iff_prefix.2 starts) missed
    | some other =>
        have otherStarts : other.1.toList.isPrefixOf (word.1.toList ++ rest) = true := by
          simpa using List.find?_some search
        rw [prefixFree.eq_of_prefix (List.mem_of_find?_eq_some search) listed
          (List.isPrefixOf_iff_prefix.1 otherStarts) starts]
  obtain ⟨first, others, spelled⟩ := List.exists_cons_of_ne_nil (prefixFree word listed).1
  rw [spelled, List.cons_append] at found ⊢
  rw [undo, undoFrom, found]
  dsimp only
  rw [undoFrom_eq_drop, spelled, List.length_cons, Nat.add_sub_cancel, List.drop_left]

theorem undo_cons (plain : IsPlainIn code c) (rest : List Char) :
    undo code (c :: rest) = c :: undo code rest := by
  have missed : (code.find? fun word => word.1.toList.isPrefixOf (c :: rest)) = none := by
    rw [List.find?_eq_none]
    intro word listed starts
    obtain ⟨first, others, spelled⟩ := List.exists_cons_of_ne_nil (prefixFree word listed).1
    have sameFirst := (List.cons_prefix_cons.1 (spelled ▸ List.isPrefixOf_iff_prefix.1 starts)).1
    exact plain word listed (by rw [spelled, sameFirst, List.head?_cons])
  rw [undo, undoFrom, missed]
  rfl

theorem undo_append (plain : ∀ c ∈ text, IsPlainIn code c) (rest : List Char) :
    undo code (text ++ rest) = text ++ undo code rest := by
  induction text with
  | nil => rfl
  | cons c text hypothesis =>
      rw [List.cons_append, prefixFree.undo_cons (plain c List.mem_cons_self),
        hypothesis fun d later => plain d (List.mem_cons_of_mem c later), List.cons_append]

/-- Undoing the words of a text gives what it stands for, and leaves what follows. -/
theorem undo_writes
    {written reading : List Char}
    (writes : Writes code written reading)
    (rest : List Char) :
    undo code (written ++ rest) = reading ++ undo code rest := by
  cases writes with
  | word listed => exact prefixFree.undo_word listed rest
  | plain plain => exact prefixFree.undo_append plain rest

/-- What is written for every character is undone to what each stands for. -/
theorem undo_flatMap
    {escape reading : Char -> List Char}
    (writes : ∀ c, Writes code (escape c) (reading c))
    (text : List Char) :
    undo code (text.flatMap escape) = text.flatMap reading := by
  induction text with
  | nil => rfl
  | cons c rest hypothesis =>
      rw [List.flatMap_cons, List.flatMap_cons, prefixFree.undo_writes (writes c), hypothesis]

end IsPrefixFree

/-! ## The formats that escape each character on its own -/

/-- A character, or the spaces that stand for a tab. -/
def spaced (c : Char) : List Char :=
  if c = '\t' then tabSpaces else [c]

namespace Texinfo

/-- The escapes of the format. -/
def escapes : Code := [("@@", "@"), ("@\x7b", "\x7b"), ("@\x7d", "\x7d")]

theorem isPrefixFree_escapes : IsPrefixFree escapes := by decide

theorem isPlainIn_escapes : IsPlainIn escapes c ↔ c ≠ '@' := by
  simp [IsPlainIn, escapes, eq_comm]

theorem writes_escape (c : Char) : Writes escapes (escape c) (spaced c) := by
  unfold escape
  split
  · exact .tabSpaces (by decide)
  · exact .of_mem "@@" "@" (by decide) rfl rfl
  · exact .of_mem "@\x7b" "\x7b" (by decide) rfl rfl
  · exact .of_mem "@\x7d" "\x7d" (by decide) rfl rfl
  · rename_i noTab noAt _ _
    rw [spaced, if_neg noTab]
    exact .singleton (isPlainIn_escapes.2 noAt)

end Texinfo

namespace Latex

/-- The escapes of the format outside verbatim blocks. -/
def escapes : Code :=
  [("\\$", "$"), ("\\#", "#"), ("\\&", "&"), ("\\_", "_"), ("\\%", "%"), ("\\\x7b", "\x7b"),
    ("\\\x7d", "\x7d"), ("\\^\x7b\x7d", "^"), ("\\~\x7b\x7d", "~"), ("$\\backslash$", "\\"),
    ("$<$", "<"), ("$>$", ">")]

theorem isPrefixFree_escapes : IsPrefixFree escapes := by decide

theorem isPlainIn_escapes : IsPlainIn escapes c ↔ c ≠ '\\' ∧ c ≠ '$' := by
  simp [IsPlainIn, escapes, eq_comm]

theorem writes_escape (c : Char) : Writes escapes (escape false c) (spaced c) := by
  unfold escape spaced
  by_cases tab : c = '\t'
  · rw [if_pos tab, if_pos (beq_iff_eq.2 tab)]
    exact .tabSpaces (by decide)
  · rw [if_neg tab, if_neg (mt beq_iff_eq.1 tab), if_neg Bool.false_ne_true]
    split
    · exact .of_mem "\\$" "$" (by decide) rfl rfl
    · exact .of_mem "\\#" "#" (by decide) rfl rfl
    · exact .of_mem "\\&" "&" (by decide) rfl rfl
    · exact .of_mem "\\_" "_" (by decide) rfl rfl
    · exact .of_mem "\\%" "%" (by decide) rfl rfl
    · exact .of_mem "\\\x7b" "\x7b" (by decide) rfl rfl
    · exact .of_mem "\\\x7d" "\x7d" (by decide) rfl rfl
    · exact .of_mem "\\^\x7b\x7d" "^" (by decide) rfl rfl
    · exact .of_mem "\\~\x7b\x7d" "~" (by decide) rfl rfl
    · exact .of_mem "$\\backslash$" "\\" (by decide) rfl rfl
    · exact .of_mem "$<$" "<" (by decide) rfl rfl
    · exact .of_mem "$>$" ">" (by decide) rfl rfl
    · rename_i noDollar _ _ _ _ _ _ _ _ noBackslash _ _
      exact .singleton (isPlainIn_escapes.2 ⟨noBackslash, noDollar⟩)

end Latex

/-! ## nroff -/

/-- A line starts after what stands in a buffer. -/
def AtLineStart (buffer : List Char) : Prop :=
  buffer = [] ∨ buffer.getLast? = some '\n'

/-- A line that begins like a text would be read as a request to the formatter. -/
def OpensRequest (text : List Char) : Prop :=
  text.head? = some '.' ∨ text.head? = some '\''

namespace Nroff

variable {lineStart : Bool}

/-- The escapes of the format; one of them stands for nothing. -/
def escapes : Code := [("\\e", "\\"), ("\\&", "")]

theorem isPrefixFree_escapes : IsPrefixFree escapes := by decide

theorem isPlainIn_escapes : IsPlainIn escapes c ↔ c ≠ '\\' := by
  simp [IsPlainIn, escapes, eq_comm]

theorem undo_escape (lineStart : Bool) (text : List Char) :
    undo escapes (escape lineStart text) = text := by
  induction text generalizing lineStart with
  | nil => rfl
  | cons c rest hypothesis =>
      unfold escape
      split
      · rename_i backslash
        have listed : ("\\e", "\\") ∈ escapes := by decide
        have undone := isPrefixFree_escapes.undo_word listed (escape false rest)
        rw [hypothesis] at undone
        rw [backslash]
        exact undone
      · rename_i noBackslash
        have plain := isPlainIn_escapes.2 noBackslash
        split
        · have listed : ("\\&", "") ∈ escapes := by decide
          have undone := isPrefixFree_escapes.undo_word listed (c :: escape false rest)
          rw [isPrefixFree_escapes.undo_cons plain, hypothesis] at undone
          exact undone
        · rw [isPrefixFree_escapes.undo_cons plain, hypothesis]

/-! ### Where lines start -/

theorem startsLine_cons (lineStart : Bool) (c : Char) (rest : List Char) :
    startsLine lineStart (c :: rest) = startsLine (c == '\n') rest := by
  cases rest with
  | nil => rfl
  | cons d rest => rw [startsLine, startsLine, List.getLast?_cons_cons]; rfl

theorem startsLine_append (lineStart : Bool) (first second : List Char) :
    startsLine lineStart (first ++ second) = startsLine (startsLine lineStart first) second := by
  induction first generalizing lineStart with
  | nil => rfl
  | cons c rest hypothesis =>
      rw [List.cons_append, startsLine_cons, hypothesis, startsLine_cons]

/-- After a buffer a line starts just if the buffer is empty or ends a line. -/
theorem startsLine_true_iff {buffer : List Char} :
    startsLine true buffer = true ↔ AtLineStart buffer := by
  unfold startsLine AtLineStart
  cases last : buffer.getLast? with
  | none => simp [List.getLast?_eq_none_iff.1 last]
  | some c =>
      have nonempty : buffer ≠ [] := by rintro rfl; cases last
      simp [nonempty]

/-- Whether no line of a text would be read as a request. -/
def keepsLines : (lineStart : Bool) -> List Char -> Bool
  | _, [] => true
  | lineStart, c :: rest =>
    !(lineStart && (c == '.' || c == '\'')) && keepsLines (c == '\n') rest

/-- A control character is no line end. -/
theorem ne_newline_of_control (control : (c == '.' || c == '\'') = true) :
    (c == '\n') = false := by
  rw [Bool.or_eq_true, beq_iff_eq, beq_iff_eq] at control
  rcases control with rfl | rfl <;> rfl

/-- No line of an escaped text would be read as a request. -/
theorem keepsLines_escape (lineStart : Bool) (text : List Char) :
    keepsLines lineStart (escape lineStart text) = true := by
  induction text generalizing lineStart with
  | nil => rfl
  | cons c rest hypothesis =>
      unfold escape
      split
      · simpa [keepsLines] using hypothesis false
      · split
        · rename_i control
          have newline := ne_newline_of_control (Bool.and_eq_true_iff.1 control).2
          simpa [keepsLines, newline] using hypothesis false
        · rename_i noControl
          rw [keepsLines, hypothesis, Bool.eq_false_iff.2 noControl]
          rfl

/-- Where a line starts in such a text no request opens. -/
theorem not_opensRequest
    {before after : List Char}
    (keeps : keepsLines lineStart (before ++ after) = true)
    (starts : startsLine lineStart before = true) :
    ¬ OpensRequest after := by
  induction before generalizing lineStart with
  | nil =>
      obtain rfl : lineStart = true := starts
      cases after with
      | nil => simp [OpensRequest]
      | cons c rest =>
        simp [keepsLines] at keeps
        simp [OpensRequest, keeps]
  | cons c before hypothesis =>
      rw [startsLine_cons] at starts
      exact hypothesis (Bool.and_eq_true_iff.1 keeps).2 starts

/-- A text may be handed over in parts. -/
theorem escape_append (lineStart : Bool) (first second : List Char) :
    escape lineStart (first ++ second) =
      escape lineStart first ++
        escape (startsLine lineStart (escape lineStart first)) second := by
  induction first generalizing lineStart with
  | nil => rfl
  | cons c rest hypothesis =>
      rw [List.cons_append, escape, escape]
      split
      · simp [hypothesis, startsLine_cons]
      · split
        · rename_i control
          have newline := ne_newline_of_control (Bool.and_eq_true_iff.1 control).2
          simp [hypothesis, startsLine_cons, newline]
        · simp [hypothesis, startsLine_cons]

/-- Whether a line starts after pieces shows in their text. -/
theorem write_fst (lineStart : Bool) (pieces : List Piece) :
    (write lineStart pieces).1 = startsLine lineStart (write lineStart pieces).2 := by
  induction pieces generalizing lineStart with
  | nil => rfl
  | cons piece rest hypothesis =>
      unfold write
      dsimp only
      rw [hypothesis, startsLine_append]

/-- An escaped piece is written as its escape and leaves the line as that does. -/
theorem write_escaped (lineStart : Bool) (text : String) :
    write lineStart [.escaped text] =
      (startsLine lineStart (escape lineStart text.toList), escape lineStart text.toList) := by
  simp [write, writePiece]

end Nroff

/-! ## Writers -/

namespace Writer

/-- What a writer remembers of the text in its buffer: in nroff, whether a line starts after
it. -/
def StandsAfter (writer : Writer) (buffer : List Char) : Prop :=
  ∀ lineStart, writer.memory = .nroff lineStart -> (lineStart = true ↔ AtLineStart buffer)

variable {writer : Writer} {buffer : List Char}

/-- A writer that starts stands after an empty buffer. -/
theorem standsAfter_start (format : OutputFormat) (settings : Settings) :
    (start format settings).StandsAfter [] := by
  rintro lineStart remembered
  cases format <;> cases remembered
  simp [AtLineStart]

/-- A writer knows whether a line starts after its buffer. -/
theorem StandsAfter.startsLine_eq
    {settings : Settings}
    {lineStart : Bool}
    (stands : StandsAfter { settings, memory := .nroff lineStart } buffer) :
    Nroff.startsLine true buffer = lineStart := by
  rw [Bool.eq_iff_iff, Nroff.startsLine_true_iff, stands lineStart rfl]

/-- A writer keeps track of what it adds to its buffer. -/
theorem StandsAfter.write (stands : writer.StandsAfter buffer) (call : Call) :
    (writer.write call).1.StandsAfter (buffer ++ (writer.write call).2) := by
  obtain ⟨settings, memory⟩ := writer
  cases memory with
  | nroff lineStart =>
      rintro after remembered
      obtain rfl := Memory.nroff.inj remembered
      rw [← Nroff.startsLine_true_iff, Nroff.startsLine_append, stands.startsLine_eq,
        Nroff.write_fst]
      rfl
  | _ => exact fun _ => nofun

/-- After calls a writer stands after all that they wrote. -/
theorem StandsAfter.writeAll (stands : writer.StandsAfter buffer) (calls : List Call) :
    (writer.writeAll calls).1.StandsAfter (buffer ++ (writer.writeAll calls).2) := by
  induction calls generalizing writer buffer with
  | nil => simpa [Writer.writeAll] using stands
  | cons call rest hypothesis =>
      unfold Writer.writeAll
      dsimp only
      rw [← List.append_assoc]
      exact hypothesis (stands.write call)

/-- A text is escaped for `nroff`, at the start of a line as well. -/
theorem write_text_nroff (settings : Settings) (lineStart : Bool) (text : String) :
    write { settings, memory := .nroff lineStart } (.text text) =
      ({ settings,
         memory := .nroff (Nroff.startsLine lineStart (Nroff.escape lineStart text.toList)) },
        Nroff.escape lineStart text.toList) := by
  simp only [write, Nroff.pieces, Nroff.basic, Nroff.write_escaped]

/-- A text is escaped for `LaTeX`. -/
theorem write_text_latex (settings : Settings) (verbatim : Bool) (text : String) :
    write { settings, memory := .latex verbatim } (.text text) =
      ({ settings, memory := .latex verbatim }, text.toList.flatMap (Latex.escape verbatim)) :=
  congrArg (Prod.mk _) (List.append_nil _)

/-- A text is escaped for `HTML`. -/
theorem write_text_html (settings : Settings) (inCode : Bool) (text : String) :
    write { settings, memory := .html inCode } (.text text) =
      ({ settings, memory := .html inCode }, text.toList.flatMap Html.escape) :=
  congrArg (Prod.mk _) (List.append_nil _)

/-- A text is escaped for `Texinfo`. -/
theorem write_text_texinfo (settings : Settings) (state : Texinfo.State) (text : String) :
    write { settings, memory := .texinfo state } (.text text) =
      ({ settings, memory := .texinfo state }, text.toList.flatMap Texinfo.escape) :=
  congrArg (Prod.mk _) (List.append_nil _)

/-- Two texts one after the other are written as one. -/
theorem writeAll_text_append (escaping : writer.memory.format ≠ .autodoc) (first second : String) :
    writer.writeAll [.text first, .text second] = writer.writeAll [.text (first ++ second)] := by
  obtain ⟨settings, memory⟩ := writer
  cases memory with
  | nroff lineStart =>
      simp only [Writer.writeAll, write_text_nroff, String.toList_append, Nroff.escape_append,
        Nroff.startsLine_append, List.append_nil]
  | latex verbatim =>
      simp only [Writer.writeAll, write_text_latex, String.toList_append, List.flatMap_append,
        List.append_nil]
  | html inCode =>
      simp only [Writer.writeAll, write_text_html, String.toList_append, List.flatMap_append,
        List.append_nil]
  | texinfo state =>
      simp only [Writer.writeAll, write_text_texinfo, String.toList_append, List.flatMap_append,
        List.append_nil]
  | autodoc state => exact absurd rfl escaping

end Writer

/-- Undoes the escapes of a format. -/
def readBack : OutputFormat -> List Char -> List Char
  | .nroff => undo Nroff.escapes
  | .latex => undo Latex.escapes
  | .html => Html.unescape
  | .texinfo => undo Texinfo.escapes
  | .autodoc => id

/-- A text as it can be read back from a format: two of them have no tabs. -/
def readable : OutputFormat -> List Char -> List Char
  | .latex | .texinfo => (·.flatMap spaced)
  | _ => id

/-- A text that was written is read back in its format. -/
theorem readBack_write_text
    {writer : Writer}
    (escaping : writer.memory.format ≠ .autodoc)
    (outside : writer.memory ≠ .latex true)
    (text : String) :
    readBack writer.memory.format (writer.write (.text text)).2 =
      readable writer.memory.format text.toList := by
  obtain ⟨settings, memory⟩ := writer
  cases memory with
  | nroff lineStart =>
      rw [Writer.write_text_nroff]
      exact Nroff.undo_escape lineStart text.toList
  | latex verbatim =>
      obtain rfl : verbatim = false := by simpa using outside
      rw [Writer.write_text_latex]
      exact Latex.isPrefixFree_escapes.undo_flatMap Latex.writes_escape text.toList
  | html inCode =>
      rw [Writer.write_text_html]
      exact Html.unescape_escape text.toList
  | texinfo state =>
      rw [Writer.write_text_texinfo]
      exact Texinfo.isPrefixFree_escapes.undo_flatMap Texinfo.writes_escape text.toList
  | autodoc state => exact absurd rfl escaping

/-- In nroff, no line that starts in user text, or before it where the buffer ends in a line, is
read as a request. -/
theorem not_opensRequest_write_text
    {writer : Writer}
    {buffer before after : List Char}
    {text : String}
    (stands : writer.StandsAfter buffer)
    (nroff : writer.memory.format = .nroff)
    (split : (writer.write (.text text)).2 = before ++ after)
    (starts : AtLineStart (buffer ++ before)) :
    ¬ OpensRequest after := by
  obtain ⟨settings, memory⟩ := writer
  cases memory with
  | nroff lineStart =>
      rw [← Nroff.startsLine_true_iff, Nroff.startsLine_append, stands.startsLine_eq] at starts
      rw [Writer.write_text_nroff] at split
      exact Nroff.not_opensRequest (split ▸ Nroff.keepsLines_escape lineStart text.toList) starts
  | _ => cases nroff

/-- User text can be read back from what a writer adds to its buffer for it.  In nroff, no line
that starts in it, or before it where the buffer ends in a line, is read as a request.  Two texts
one after the other are written as one. -/
theorem write_text_reversible
    {writer : Writer}
    {buffer : List Char}
    (stands : writer.StandsAfter buffer)
    (escaping : writer.memory.format ≠ .autodoc) :
    (∀ text, writer.memory ≠ .latex true ->
      readBack writer.memory.format (writer.write (.text text)).2 =
        readable writer.memory.format text.toList) ∧
    (∀ text before after, writer.memory.format = .nroff ->
      (writer.write (.text text)).2 = before ++ after -> AtLineStart (buffer ++ before) ->
        ¬ OpensRequest after) ∧
    ∀ first second, writer.writeAll [.text first, .text second] =
      writer.writeAll [.text (first ++ second)] :=
  ⟨fun text outside => readBack_write_text escaping outside text,
    fun _ _ _ nroff split starts => not_opensRequest_write_text stands nroff split starts,
    Writer.writeAll_text_append escaping⟩

/-- After a heading, a text whose two lines would both be read as requests. -/
theorem write_text_reversible_requests :
    let writer := ((Writer.start .nroff {}).writeAll [.heading "X"]).1
    let buffer := ((Writer.start .nroff {}).writeAll [.heading "X"]).2
    let written := (writer.write (.text ".b\\c\n'd")).2
    writer.StandsAfter buffer ∧ writer.memory.format ≠ .autodoc ∧
      written = "\\&.b\\ec\n\\&'d".toList ∧
      readBack .nroff written = ".b\\c\n'd".toList ∧
      (∀ before after, written = before ++ after -> AtLineStart (buffer ++ before) ->
        ¬ OpensRequest after) ∧
      writer.writeAll [.text ".b\\c", .text "\n'd"] = writer.writeAll [.text ".b\\c\n'd"] := by
  have stands := (Writer.standsAfter_start .nroff {}).writeAll [.heading "X"]
  have escaping :
      ((Writer.start .nroff {}).writeAll [.heading "X"]).1.memory.format ≠ .autodoc := by
    decide
  obtain ⟨reads, keeps, joins⟩ := write_text_reversible stands escaping
  exact ⟨stands, escaping, by decide, reads _ (by decide),
    fun before after => keeps _ before after rfl, joins _ _⟩

end Markup
end DeclManual
