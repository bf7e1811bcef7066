import DeclManual.Proofs.Markup.Autodoc
import DeclManual.Proofs.Text.Bytes

/-!
# References are wrapped between names

In its section of cross-references the autodoc format starts a new line before one would grow
too long.  Names that fit on a line stay whole, no line is too long, and the names can be read
back from the lines.
-/

namespace DeclManual
namespace Markup
namespace Autodoc

variable
  {state : State} {start column stop upcoming columns : Nat}
  {written other gap word : List Char} {name : String} {names : List String}

/-! ## Lines that fit -/

/-- A text that goes on in a line at a column, without making a line too long, and the column
after it. -/
inductive Fits : Nat -> List Char -> Nat -> Prop
  | nil {column : Nat} (bound : column ≤ lineLength) : Fits column [] column
  | newline {column stop : Nat} {rest : List Char}
      (bound : column ≤ lineLength)
      (fits : Fits 0 rest stop) :
      Fits column ('\n' :: rest) stop
  | character {column stop : Nat} {rest : List Char} {c : Char}
      (noNewline : c ≠ '\n')
      (fits : Fits (column + 1) rest stop) :
      Fits column (c :: rest) stop

namespace Fits

/-- What fits stops within the line. -/
theorem stop_le (fits : Fits start written stop) : stop ≤ lineLength := by
  induction fits with
  | nil bound => exact bound
  | newline _ _ hypothesis => exact hypothesis
  | character _ _ hypothesis => exact hypothesis

theorem append (first : Fits start written column) (second : Fits column other stop) :
    Fits start (written ++ other) stop := by
  induction first with
  | nil => exact second
  | newline bound _ hypothesis => exact .newline bound (hypothesis second)
  | character noNewline _ hypothesis => exact .character noNewline (hypothesis second)

/-- A text without line ends fits as far as its length goes. -/
theorem of_length
    (noNewline : '\n' ∉ written)
    (bound : column + written.length ≤ lineLength) :
    Fits column written (column + written.length) := by
  induction written generalizing column with
  | nil => exact .nil bound
  | cons c rest hypothesis =>
      rw [List.mem_cons, not_or] at noNewline
      rw [List.length_cons, Nat.add_comm rest.length 1, ← Nat.add_assoc] at bound ⊢
      exact .character (Ne.symm noNewline.1) (hypothesis noNewline.2 bound)

/-- The first line goes on at the column, and no line is too long. -/
theorem length_lines (fits : Fits start written stop) :
    ∃ first lines, Text.splitOn '\n' written = first :: lines ∧
      start + first.length ≤ lineLength ∧ ∀ line ∈ lines, line.length ≤ lineLength := by
  induction fits with
  | nil bound => exact ⟨[], [], rfl, bound, nofun⟩
  | newline bound _ hypothesis =>
      obtain ⟨first, lines, isSplit, firstFits, linesFit⟩ := hypothesis
      rw [Nat.zero_add] at firstFits
      exact ⟨[], first :: lines, by rw [Text.splitOn, if_pos rfl, isSplit], bound,
        List.forall_mem_cons.2 ⟨firstFits, linesFit⟩⟩
  | @character column _ rest c noNewline _ hypothesis =>
      obtain ⟨first, lines, isSplit, firstFits, linesFit⟩ := hypothesis
      obtain ⟨piece, pieces, isPiece, isNext⟩ := Text.splitOn_cons_of_ne noNewline rest
      rw [isSplit] at isPiece
      obtain ⟨rfl, rfl⟩ := List.cons.inj isPiece
      refine ⟨c :: first, lines, isNext, ?_, linesFit⟩
      rw [List.length_cons]
      omega

/-- No line of a text that starts a line is too long. -/
theorem length_le (fits : Fits 0 written stop) :
    ∀ line ∈ Text.splitOn '\n' written, line.length ≤ lineLength := by
  obtain ⟨first, lines, isSplit, firstFits, linesFit⟩ := fits.length_lines
  rw [Nat.zero_add] at firstFits
  rw [isSplit]
  exact List.forall_mem_cons.2 ⟨firstFits, linesFit⟩

end Fits

/-! ## Names between commas and blanks -/

/-- A character that does not belong to a name. -/
def isBetween (c : Char) : Bool :=
  c == ',' || Text.isBlank c

/-- What stands between the commas and blanks of a text. -/
def namesIn (written : List Char) : List (List Char) :=
  (written.splitOnP isBetween).filter fun word => !word.isEmpty

/-- A separator divides the names before it from those after it. -/
theorem namesIn_append_between
    {c : Char}
    (between : isBetween c = true)
    (first second : List Char) :
    namesIn (first ++ c :: second) = namesIn first ++ namesIn second := by
  rw [namesIn, List.splitOnP_append_cons first second between, List.filter_append]
  rfl

theorem namesIn_nil : namesIn [] = [] := by
  simp [namesIn]

/-- Nothing in front of a text belongs to a name if it is all commas and blanks. -/
theorem namesIn_gap (between : ∀ c ∈ gap, isBetween c = true) (rest : List Char) :
    namesIn (gap ++ rest) = namesIn rest := by
  induction gap with
  | nil => rfl
  | cons c gap hypothesis =>
      obtain ⟨isHere, between⟩ := List.forall_mem_cons.1 between
      have apart := namesIn_append_between isHere [] (gap ++ rest)
      rw [List.nil_append, namesIn_nil, List.nil_append] at apart
      rw [List.cons_append, apart, hypothesis between]

/-- A text without separators is one name. -/
theorem namesIn_word
    (nonempty : word ≠ [])
    (apart : ∀ c ∈ word, isBetween c = false) :
    namesIn word = [word] := by
  rw [namesIn, List.splitOnP_eq_singleton apart]
  simp [nonempty]

/-- Names do not go on past the end of a line. -/
theorem flatMap_namesIn_splitOn (written : List Char) :
    (Text.splitOn '\n' written).flatMap namesIn = namesIn written := by
  induction written using Text.lines_induction with
  | last line oneLine => rw [Text.splitOn_of_not_mem oneLine, List.flatMap_singleton]
  | more line rest oneLine hypothesis =>
      rw [Text.splitOn_append, Text.splitOn_of_not_mem oneLine, List.singleton_append,
        List.flatMap_cons, hypothesis, namesIn_append_between (by decide)]

/-! ## Writing references -/

/-- A state inside the section of cross-references. -/
structure IsOpen (state : State) : Prop where
  seeAlso : state.seeAlso = true
  indent : state.indent + state.listIndent = 2 * indentLength
  bound : state.column ≤ lineLength
  /-- Nothing stands on a line for which indentation is owed. -/
  fresh : state.newline = true -> state.column = 0

/-- The state after the indentation of a line. -/
def State.indented (state : State) : State :=
  { state with column := state.indent + state.listIndent, newline := false }

/-- The indentation of a line. -/
def State.margin (state : State) : List Char :=
  List.replicate (state.indent + state.listIndent) ' '

/-- Before a line end the line is indented. -/
theorem align_of_newline
    (owed : state.newline = true)
    (room : state.column + upcoming ≤ lineLength) :
    align upcoming state = (state.indented, state.margin) := by
  simp [align, steps, wrap, settle, owed, Nat.not_lt.2 room, State.indented, State.margin]

/-- Where there is room the line goes on. -/
theorem align_of_room
    (started : state.newline = false)
    (room : state.column + upcoming ≤ lineLength) :
    align upcoming state = (state, []) := by
  simp [align, steps, wrap, settle, started, Nat.not_lt.2 room]

/-- Where there is no room a new line is started. -/
theorem align_of_wrap
    (seeAlso : state.seeAlso = true)
    (full : lineLength < state.column + upcoming) :
    align upcoming state = (state.indented, '\n' :: state.margin) := by
  simp [align, steps, wrap, settle, seeAlso, full, State.indented, State.margin]

/-- What is added in the section: commas and blanks, and then words, on lines that fit. -/
structure Adds (before : State) (words : List Char) (result : State × List Char) : Prop where
  isOpen : IsOpen result.1
  started : result.1.newline = false
  spelled : ∃ gap, (∀ c ∈ gap, isBetween c = true) ∧ result.2 = gap ++ words
  fits : Fits before.column result.2 result.1.column

/-- Making ready for a text starts a line if the text has no room. -/
theorem align_adds (isOpen : IsOpen state) (upcoming : Nat) :
    Adds state [] (align upcoming state) ∧
      ((align upcoming state).1.column = 2 * indentLength ∨
        (align upcoming state).1.column + upcoming ≤ lineLength) := by
  have atMargin : state.indented.column = 2 * indentLength := isOpen.indent
  have indented : IsOpen state.indented :=
    ⟨isOpen.seeAlso, isOpen.indent, atMargin ▸ by decide, nofun⟩
  have blank : ∀ c ∈ state.margin, isBetween c = true := by
    intro c listed
    rw [List.eq_of_mem_replicate listed]
    decide
  have fits : Fits 0 state.margin state.indented.column := by
    have width : state.margin.length = 2 * indentLength :=
      List.length_replicate.trans isOpen.indent
    have onLine : Fits 0 state.margin (0 + state.margin.length) :=
      .of_length (by simp [State.margin, List.mem_replicate]) (by rw [width]; decide)
    rwa [Nat.zero_add, width, ← atMargin] at onLine
  rcases Nat.lt_or_ge lineLength (state.column + upcoming) with full | room
  · rw [align_of_wrap isOpen.seeAlso full]
    have between : ∀ c ∈ '\n' :: state.margin, isBetween c = true :=
      List.forall_mem_cons.2 ⟨by decide, blank⟩
    exact ⟨⟨indented, rfl, ⟨_, between, (List.append_nil _).symm⟩, .newline isOpen.bound fits⟩,
      .inl atMargin⟩
  · cases owed : state.newline with
    | true =>
        rw [align_of_newline owed room]
        refine ⟨⟨indented, rfl, ⟨_, blank, (List.append_nil _).symm⟩, ?_⟩, .inl atMargin⟩
        rwa [isOpen.fresh owed]
    | false =>
        rw [align_of_room owed room]
        exact ⟨⟨isOpen, owed, ⟨[], nofun, rfl⟩, .nil isOpen.bound⟩, .inr room⟩

/-- A name that fits on a line of cross-references. -/
structure IsReferenceName (name : String) : Prop where
  ascii : ∀ c ∈ name.toList, c.toNat < 128
  apart : ∀ c ∈ name.toList, isBetween c = false
  nonempty : 1 ≤ name.toList.length
  short : name.toList.length ≤ 71

/-- The state after some columns of a line. -/
def State.advanced (state : State) (columns : Nat) : State :=
  { state with column := state.column + columns }

/-- A reference stays open while its columns are counted. -/
theorem IsOpen.advanced
    (isOpen : IsOpen state)
    (started : state.newline = false)
    (room : state.column + columns ≤ lineLength) :
    IsOpen (state.advanced columns) where
  seeAlso := isOpen.seeAlso
  indent := isOpen.indent
  bound := room
  fresh owed := absurd (started.symm.trans owed) Bool.false_ne_true

/-- A character that takes one column. -/
def takesColumn (c : Char) : Bool :=
  c != '\x0c' && c != '\n' && c != '\t'

/-- A character that is part of a name takes a column. -/
theorem takesColumn_of_apart {c : Char} (apart : isBetween c = false) : takesColumn c = true := by
  simp only [takesColumn, Bool.and_eq_true, bne_iff_ne]
  refine ⟨⟨?_, ?_⟩, ?_⟩ <;> rintro rfl <;> cases apart

/-- A character for which there is room on the line. -/
theorem character_of_room
    {c : Char}
    (oneColumn : takesColumn c = true)
    (started : state.newline = false)
    (room : state.column + 1 ≤ lineLength) :
    character c state = (state.advanced 1, [c]) := by
  simp only [takesColumn, Bool.and_eq_true, bne_iff_ne] at oneColumn
  obtain ⟨⟨noFeed, noNewline⟩, noTab⟩ := oneColumn
  rw [character, if_neg noFeed, if_neg noNewline, steps_cons, align_of_room started room]
  simp [steps, noTab, State.advanced]

/-- Characters for which there is room on the line. -/
theorem characters_of_room
    (oneColumn : ∀ c ∈ word, takesColumn c = true)
    (started : state.newline = false)
    (room : state.column + word.length ≤ lineLength) :
    steps (word.map character) state = (state.advanced word.length, word) := by
  induction word generalizing state with
  | nil => rfl
  | cons c word hypothesis =>
      obtain ⟨first, oneColumn⟩ := List.forall_mem_cons.1 oneColumn
      rw [List.length_cons] at room
      have later : (state.advanced 1).column + word.length ≤ lineLength := by
        simp only [State.advanced]
        omega
      have startedNext : (state.advanced 1).newline = false := started
      rw [List.map_cons, steps_cons, character_of_room first started (by omega),
        hypothesis oneColumn startedNext later]
      simp [State.advanced, Nat.add_assoc, Nat.add_comm 1]

/-- An `ASCII` name has as many bytes as characters. -/
theorem size_of_ascii (ascii : ∀ c ∈ name.toList, c.toNat < 128) :
    name.utf8ByteSize = name.toList.length := by
  have size := Text.size_ofList name.toList
  rwa [String.ofList_toList, ← Text.length_encoded, Text.encoded_of_ascii ascii] at size

/-- Where a line has room for a text, there is room for it after making ready. -/
theorem room_align (isOpen : IsOpen state) (announced : columns ≤ upcoming) (short : columns ≤ 71) :
    (align upcoming state).1.column + columns ≤ lineLength := by
  obtain ⟨-, room⟩ := align_adds isOpen upcoming
  rw [lineLength, indentLength] at *
  omega

/-- A word is added whole once all is ready for it. -/
theorem align_append_adds
    (isOpen : IsOpen state)
    (announced : word.length ≤ upcoming)
    (short : word.length ≤ 71)
    (noNewline : '\n' ∉ word) :
    Adds state word
      ((align upcoming state).1.advanced word.length, (align upcoming state).2 ++ word) := by
  obtain ⟨aligned, -⟩ := align_adds isOpen upcoming
  obtain ⟨gap, between, spelled⟩ := aligned.spelled
  have onLine := room_align isOpen announced short
  rw [List.append_nil] at spelled
  exact ⟨aligned.isOpen.advanced aligned.started onLine, aligned.started,
    ⟨gap, between, by rw [spelled]⟩, aligned.fits.append (.of_length noNewline onLine)⟩

/-- A reference stays whole. -/
theorem text_adds (isOpen : IsOpen state) (fit : IsReferenceName name) :
    Adds state name.toList (text name state) := by
  have noSeparator : name ≠ ",\n" := by
    rintro rfl
    exact absurd (fit.apart ',' (by decide)) (by decide)
  have noNewline : '\n' ∉ name.toList := fun listed => absurd (fit.apart '\n' listed) (by decide)
  have oneColumn : ∀ c ∈ name.toList, takesColumn c = true :=
    fun c listed => takesColumn_of_apart (fit.apart c listed)
  have written : text name state =
      steps (align (name.toList.length + 2) :: name.toList.map character) state := by
    rw [text, beq_eq_false_iff_ne.2 noSeparator, Bool.and_false, if_neg Bool.false_ne_true,
      size_of_ascii fit.ascii]
  have announced : name.toList.length ≤ name.toList.length + 2 := Nat.le_add_right _ 2
  obtain ⟨aligned, -⟩ := align_adds isOpen (name.toList.length + 2)
  rw [written, steps_cons,
    characters_of_room oneColumn aligned.started (room_align isOpen announced fit.short)]
  exact align_append_adds isOpen announced fit.short noNewline

/-- The separator of references is a comma and a space. -/
theorem text_separator_adds (isOpen : IsOpen state) :
    Adds state [',', ' '] (text ",\n" state) := by
  have written : text ",\n" state =
      ((align 2 state).1.advanced 2, (align 2 state).2 ++ [',', ' ']) := by
    rw [text, isOpen.seeAlso, Bool.true_and, if_pos (by decide)]
    rfl
  rw [written]
  exact align_append_adds isOpen (Nat.le_refl 2) (by decide) (by decide)

/-! ## The section of cross-references -/

/-- What a reference adds to a text is read back as its name. -/
theorem IsReferenceName.namesIn_of_adds
    {result : State × List Char}
    (fit : IsReferenceName name)
    (adds : Adds state name.toList result) :
    namesIn result.2 = [name.toList] := by
  obtain ⟨gap, between, spelled⟩ := adds.spelled
  rw [spelled, namesIn_gap between]
  exact namesIn_word (List.ne_nil_of_length_pos fit.nonempty) fit.apart

/-- Commas and blanks end a name. -/
theorem namesIn_append_gap
    (nonempty : gap ≠ [])
    (between : ∀ c ∈ gap, isBetween c = true)
    (first second : List Char) :
    namesIn (first ++ (gap ++ second)) = namesIn first ++ namesIn second := by
  obtain ⟨c, rest, rfl⟩ := List.exists_cons_of_ne_nil nonempty
  obtain ⟨isHere, between⟩ := List.forall_mem_cons.1 between
  rw [List.cons_append, namesIn_append_between isHere, namesIn_gap between]

/-- The calls that write references. -/
def referenceCalls (names : List String) : List Call :=
  Page.separated [.text ",\n"] (fun name => [Call.reference name]) names

theorem referenceCalls_cons_cons (first second : String) (others : List String) :
    referenceCalls (first :: second :: others) =
      .reference first :: .text ",\n" :: referenceCalls (second :: others) := rfl

/-- References fit their lines and are read back by their names. -/
theorem writeCalls_references
    (settings : Settings)
    (fit : ∀ name ∈ names, IsReferenceName name)
    (isOpen : IsOpen state) :
    Fits state.column (writeCalls settings (referenceCalls names) state).2
        (writeCalls settings (referenceCalls names) state).1.column ∧
      namesIn (writeCalls settings (referenceCalls names) state).2 = names.map String.toList := by
  induction names generalizing state with
  | nil => exact ⟨.nil isOpen.bound, namesIn_nil⟩
  | cons first rest hypothesis =>
      obtain ⟨fitFirst, fit⟩ := List.forall_mem_cons.1 fit
      have adds := text_adds isOpen fitFirst
      have single := fitFirst.namesIn_of_adds adds
      cases rest with
      | nil =>
          have written : writeCalls settings (referenceCalls [first]) state =
              ((text first state).1, (text first state).2 ++ []) := rfl
          rw [written, List.append_nil]
          exact ⟨adds.fits, single⟩
      | cons second others =>
          have separator := text_separator_adds adds.isOpen
          obtain ⟨gap, between, spelled⟩ := separator.spelled
          obtain ⟨fits, isNames⟩ := hypothesis fit separator.isOpen
          rw [referenceCalls_cons_cons, writeCalls_cons, writeCalls_cons]
          refine ⟨adds.fits.append (separator.fits.append fits), ?_⟩
          change namesIn ((text first state).2 ++ ((text ",\n" (text first state).1).2 ++ _)) = _
          rw [spelled, namesIn_append_gap (by simp) ?_, single]
          · exact congrArg (first.toList :: ·) isNames
          · exact List.forall_mem_append.2 ⟨between, List.all_eq_true.1 rfl⟩

/-- The state after the heading of the section. -/
def State.referenced (state : State) : State where
  indent := 2 * indentLength
  newline := true
  seeAlso := true
  fileEnded := state.fileEnded
  tables := state.tables

/-- The heading of the references starts a line and opens their list. -/
theorem write_seeAlsoHeading (settings : Settings) (state : State) :
    write settings (.heading "SEE ALSO") state =
      (state.referenced, "\n    SEE ALSO\n".toList) := by
  let opened : State := { state with newline := false, seeAlso := true, column := 4 }
  have title : text "SEE ALSO" opened = (opened.advanced 8, "SEE ALSO".toList) := by
    have noSeparator : ("SEE ALSO" == ",\n") = false := by decide
    have room : 4 + ("SEE ALSO".utf8ByteSize + 2) ≤ lineLength := by decide
    have onLine : 4 + "SEE ALSO".toList.length ≤ lineLength := by decide
    rw [text, noSeparator, Bool.and_false, if_neg Bool.false_ne_true, steps_cons,
      align_of_room rfl room, characters_of_room (List.all_eq_true.1 rfl) rfl onLine]
    rfl
  have sameTitle : sectionTitle "SEE ALSO" = "SEE ALSO" := rfl
  have opens : write settings (.heading "SEE ALSO") state = heading "SEE ALSO" state := rfl
  rw [opens, heading, sameTitle]
  simp only [steps_cons, change, put, beq_self_eq_true]
  rw [title]
  rfl

/-- The section of cross-references has no line of more than 79 columns, and the names are read
back from its lines, in order and without a break in one of them. -/
theorem writeAll_seeAlso
    (settings : Settings)
    (state : State)
    {names : List String}
    (fit : ∀ name ∈ names, IsReferenceName name) :
    ∃ body,
      (Writer.writeAll { settings, memory := .autodoc state }
          (.heading "SEE ALSO" :: (referenceCalls names ++ [.character '\n']))).2 =
        "\n    SEE ALSO\n".toList ++ body ∧
      (∀ line ∈ Text.splitOn '\n' ("\n    SEE ALSO\n".toList ++ body), line.length ≤ 79) ∧
      (Text.splitOn '\n' body).flatMap namesIn = names.map String.toList := by
  have isOpen : IsOpen state.referenced := ⟨rfl, rfl, Nat.zero_le _, fun _ => rfl⟩
  obtain ⟨fits, isNames⟩ := writeCalls_references settings fit isOpen
  refine ⟨(writeCalls settings (referenceCalls names) state.referenced).2 ++ ['\n'], ?_, ?_, ?_⟩
  · rw [writeAll_eq, writeCalls_cons, write_seeAlsoHeading, writeCalls_append]
    rfl
  · have title : Fits 0 "    SEE ALSO".toList 12 := .of_length (by decide) (by decide)
    have heading : Fits 0 "\n    SEE ALSO\n".toList 0 :=
      .newline (by decide) (title.append (.newline (by decide) (.nil (by decide))))
    exact (heading.append (fits.append (.newline fits.stop_le (.nil (Nat.zero_le _))))).length_le
  · rw [flatMap_namesIn_splitOn, namesIn_append_between (by decide), isNames, namesIn_nil,
      List.append_nil]

/-- A name that repeats one character. -/
def repeated (count : Nat) (c : Char) : String :=
  String.ofList (List.replicate count c)

/-- A name may consist of one letter repeated. -/
theorem isReferenceName_repeated
    {count : Nat}
    {c : Char}
    (ascii : c.toNat < 128)
    (apart : isBetween c = false)
    (nonempty : 1 ≤ count)
    (short : count ≤ 71) :
    IsReferenceName (repeated count c) := by
  have width : (repeated count c).toList.length = count := by
    rw [repeated, String.toList_ofList, List.length_replicate]
  have isLetter : ∀ d ∈ (repeated count c).toList, d = c := by
    intro d listed
    rw [repeated, String.toList_ofList] at listed
    exact List.eq_of_mem_replicate listed
  exact
    { ascii := fun d listed => isLetter d listed ▸ ascii
      apart := fun d listed => isLetter d listed ▸ apart
      nonempty := by rwa [width]
      short := by rwa [width] }

/-- Names of which one fills a line, so that the comma after it starts the next. -/
def lineFillingNames : List String :=
  [repeated 1 'f', repeated 71 'n', repeated 1 'g']

/-- Names that fill their lines are wrapped and read back. -/
theorem writeAll_seeAlso_lineFillingNames :
    (∀ name ∈ lineFillingNames, IsReferenceName name) ∧
      ∃ body,
        (Writer.writeAll { settings := {}, memory := .autodoc {} }
            (.heading "SEE ALSO" :: (referenceCalls lineFillingNames ++ [.character '\n']))).2 =
          "\n    SEE ALSO\n".toList ++ body ∧
        (∀ line ∈ Text.splitOn '\n' ("\n    SEE ALSO\n".toList ++ body), line.length ≤ 79) ∧
        (Text.splitOn '\n' body).flatMap namesIn = lineFillingNames.map String.toList := by
  have fit : ∀ name ∈ lineFillingNames, IsReferenceName name := by
    simp only [lineFillingNames, List.forall_mem_cons]
    exact ⟨isReferenceName_repeated (by decide) (by decide) (by decide) (by decide),
      isReferenceName_repeated (by decide) (by decide) (by decide) (by decide),
      isReferenceName_repeated (by decide) (by decide) (by decide) (by decide), nofun⟩
  exact ⟨fit, writeAll_seeAlso {} {} fit⟩

end Autodoc
end Markup
end DeclManual
