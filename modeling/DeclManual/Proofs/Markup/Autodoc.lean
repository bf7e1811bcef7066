import DeclManual.Markup.Writer
import DeclManual.Proofs.Page.LineEnds
import DeclManual.Proofs.Page.Nesting

/-!
# What autodoc output remembers

The autodoc format carries a state from call to call.  Here is what a call does to
the parts of that state on which later pages could depend: the open tables and the
end of the file, the column, and the indentation that is owed.  No call but the end
of the file writes a form feed.
-/

namespace DeclManual
namespace Markup
namespace Autodoc

/-- Writes calls one after another. -/
def writeCalls (settings : Settings) (calls : List Call) : Step :=
  steps (calls.map (write settings))

theorem steps_cons (first : Step) (rest : List Step) (state : State) :
    steps (first :: rest) state =
      ((steps rest (first state).1).1, (first state).2 ++ (steps rest (first state).1).2) := rfl

theorem steps_append (first second : List Step) (state : State) :
    steps (first ++ second) state =
      ((steps second (steps first state).1).1,
        (steps first state).2 ++ (steps second (steps first state).1).2) := by
  induction first generalizing state with
  | nil => rfl
  | cons step rest hypothesis =>
      rw [List.cons_append, steps_cons, hypothesis, steps_cons, List.append_assoc]

theorem writeCalls_append
    (settings : Settings)
    (first second : List Call)
    (state : State) :
    writeCalls settings (first ++ second) state =
      ((writeCalls settings second (writeCalls settings first state).1).1,
        (writeCalls settings first state).2 ++
          (writeCalls settings second (writeCalls settings first state).1).2) := by
  unfold writeCalls
  rw [List.map_append, steps_append]

theorem writeCalls_cons
    (settings : Settings)
    (call : Call)
    (rest : List Call)
    (state : State) :
    writeCalls settings (call :: rest) state =
      ((writeCalls settings rest (write settings call state).1).1,
        (write settings call state).2 ++
          (writeCalls settings rest (write settings call state).1).2) := rfl

/-- A writer of this format writes the steps of its calls. -/
theorem writeAll_eq (settings : Settings) (state : State) (calls : List Call) :
    Writer.writeAll { settings, memory := .autodoc state } calls =
      ({ settings, memory := .autodoc (writeCalls settings calls state).1 },
        (writeCalls settings calls state).2) := by
  induction calls generalizing state with
  | nil => rfl
  | cons call rest hypothesis =>
      rw [writeCalls_cons]
      unfold Writer.writeAll
      simp only [Writer.write, hypothesis]

/-! ## Open tables, the end of the file, and form feeds -/

/-- What no text changes: the open tables, and whether the file has ended. -/
def State.held (state : State) : List Nat × Bool :=
  (state.tables, state.fileEnded)

/-- A step that leaves open tables and the end of the file alone and writes no form
feed. -/
structure Plain (step : Step) : Prop where
  held : ∀ state, (step state).1.held = state.held
  noFeed : ∀ state, '\x0c' ∉ (step state).2

namespace Plain

theorem nil : Plain (steps []) where
  held _ := rfl
  noFeed _ := List.not_mem_nil

theorem cons
    {step : Step}
    {rest : List Step}
    (first : Plain step)
    (others : Plain (steps rest)) :
    Plain (steps (step :: rest)) where
  held state := by
    rw [steps_cons]
    exact (others.held _).trans (first.held state)
  noFeed state := by
    rw [steps_cons, List.mem_append, not_or]
    exact ⟨first.noFeed state, others.noFeed _⟩

theorem append
    {first second : List Step}
    (left : Plain (steps first))
    (right : Plain (steps second)) :
    Plain (steps (first ++ second)) where
  held state := by
    rw [steps_append]
    exact (right.held _).trans (left.held state)
  noFeed state := by
    rw [steps_append, List.mem_append, not_or]
    exact ⟨left.noFeed state, right.noFeed _⟩

theorem map
    {α : Type}
    {step : α -> Step}
    (items : List α)
    (each : ∀ item ∈ items, Plain (step item)) :
    Plain (steps (items.map step)) := by
  induction items with
  | nil => exact .nil
  | cons item items hypothesis =>
      exact .cons (each item List.mem_cons_self)
        (hypothesis fun other member => each other (List.mem_cons_of_mem item member))

/-- A change that keeps open tables and the end of the file is a plain step. -/
theorem change {f : State -> State} (held : ∀ state, (f state).held = state.held) :
    Plain (Autodoc.change f) where
  held := held
  noFeed _ := List.not_mem_nil

theorem put {words : List Char} (noFeed : '\x0c' ∉ words) : Plain (Autodoc.put words) where
  held _ := rfl
  noFeed _ := noFeed

/-- Wrapping a line is a plain step. -/
theorem wrap (upcoming : Nat) : Plain (Autodoc.wrap upcoming) := by
  constructor <;> intro state <;> unfold Autodoc.wrap <;> split
  · rfl
  · rfl
  · simp
  · exact List.not_mem_nil

/-- Ending a line that is due is a plain step. -/
theorem settle : Plain Autodoc.settle := by
  constructor <;> intro state <;> unfold Autodoc.settle <;> split
  · rfl
  · rfl
  · simp [List.mem_replicate]
  · exact List.not_mem_nil

/-- Going to a column is a plain step. -/
theorem align (upcoming : Nat) : Plain (Autodoc.align upcoming) :=
  .cons (.wrap upcoming) (.cons .settle .nil)

/-- The form feed itself is not written. -/
theorem character (c : Char) : Plain (Autodoc.character c) := by
  unfold Autodoc.character
  split
  · exact .put List.not_mem_nil
  split
  · exact ⟨fun _ => rfl, fun _ => by simp⟩
  · rename_i notFeed _
    refine .cons (.align 1) (.cons ?_ .nil)
    constructor <;> intro state <;> split
    · rfl
    · rfl
    · simp [List.mem_replicate]
    · simpa using Ne.symm notFeed

theorem text (words : String) : Plain (Autodoc.text words) := by
  have separator : Plain (steps [Autodoc.align 2, Autodoc.put [',', ' '],
      Autodoc.change fun state => { state with column := state.column + 2 }]) :=
    .cons (.align 2) (.cons (.put (by decide)) (.cons (.change fun _ => rfl) .nil))
  have spelled :
      Plain (steps (Autodoc.align (words.utf8ByteSize + 2) ::
        words.toList.map Autodoc.character)) :=
    .cons (.align _) (.map _ fun c _ => .character c)
  constructor <;> intro state <;> unfold Autodoc.text <;> split
  · exact separator.held state
  · exact spelled.held state
  · exact separator.noFeed state
  · exact spelled.noFeed state

theorem heading (name : String) : Plain (Autodoc.heading name) :=
  .cons (.change fun _ => rfl) (.cons (.put (by decide)) (.cons (.change fun _ => rfl)
    (.cons (.text _) (.cons (.change fun _ => rfl) (.cons (.character _) .nil)))))

theorem tagEntryStart : Plain Autodoc.tagEntryStart := by
  have leaving : Plain (steps [Autodoc.character '\n', Autodoc.change fun state =>
      { state with listIndent := state.listIndent - indentLength }]) :=
    .cons (.character _) (.cons (.change fun _ => rfl) .nil)
  constructor <;> intro state <;> unfold Autodoc.tagEntryStart <;> split
  · exact leaving.held state
  · rfl
  · exact leaving.noFeed state
  · exact List.not_mem_nil

theorem tagEntryEnd : Plain Autodoc.tagEntryEnd :=
  .cons (.change fun _ => rfl) (.cons (.character _) .nil)

end Plain

/-- The calls that change the open tables or the end of the file. -/
def changesHeld : Call -> Bool
  | .header _ | .tableStart _ | .tableEnd | .fileEnd => true
  | _ => false

/-- A call that changes neither tables nor the end of the file is a plain step. -/
theorem plain_basic
    (settings : Settings)
    {call : Call}
    (unchanged : changesHeld call = false) :
    Plain (basic settings call) := by
  cases call with
  | header page => cases unchanged
  | tableStart longestTag => cases unchanged
  | tableEnd => cases unchanged
  | fileEnd => cases unchanged
  | comment => exact .put List.not_mem_nil
  | codeStart => exact .put List.not_mem_nil
  | codeEnd => exact .put List.not_mem_nil
  | tagListStart => exact .put List.not_mem_nil
  | tableEntry name description => exact .put List.not_mem_nil
  | includeFile name => exact .put List.not_mem_nil
  | dash => exact .text _
  | code code => exact .text _
  | listEntry name => exact .text _
  | listSeparator => exact .text _
  | text words => exact .text _
  | name name => exact .text _
  | reference name => exact .text _
  | emphasized words => exact .text _
  | character c => exact .character c
  | blankLine => exact .character _
  | heading name => exact .heading name
  | nameHeading => exact .heading _
  | subheading name =>
      rw [basic]
      exact .cons (.text _) (.cons (.change fun _ => rfl) (.cons (.character _) .nil))
  | breakLine =>
      have ended := Plain.character '\n'
      constructor <;> intro state <;> unfold basic <;> dsimp only <;> split
      · exact ended.held state
      · rfl
      · exact ended.noFeed state
      · exact List.not_mem_nil
  | tagListEnd => exact .change fun _ => rfl
  | tagEntryStart => exact .tagEntryStart
  | tagEntryStartExtra => exact .tagEntryStart
  | tagEntryEnd => exact .tagEntryEnd
  | tagEntryEndExtra extra =>
      exact .cons (.text _) (.cons (.text _) (.cons (.text _) (.cons .tagEntryEnd .nil)))
  | indent => exact .align 0
  | listStart => exact .change fun _ => rfl
  | listEnd =>
      rw [basic]
      exact .cons (.character _) (.cons (.character _) (.cons (.change fun _ => rfl) .nil))
  | terseSeparator =>
      rw [basic]
      exact .cons (.character _) (.cons (.text _) (.cons (.character _) .nil))
  | warning => exact .cons (.text _) (.cons (.text _) (.cons (.text _) (.cons (.text _) .nil)))

/-- Plain calls change neither tables nor the end of the file. -/
theorem changesHeld_of_isPlain {call : Call} (plain : call.isPlain = true) :
    changesHeld call = false := by
  cases call <;> simp_all [Call.isPlain, changesHeld]

/-- An entry of a table is a plain step. -/
theorem plain_tableEntry (settings : Settings) (name : String) (description : Option String) :
    Plain (write settings (.tableEntry name description)) := by
  have entry (width : Nat) {rest : List Step} (described : Plain (steps rest)) :
      Plain (steps ([text name, spaces (width + 1 - name.utf8ByteSize), text "- "] ++ rest)) :=
    .cons (.text _) (.cons (.text _) (.cons (.text _) described))
  cases description with
  | none =>
      have described : Plain (steps [character '\n']) := .cons (.character _) .nil
      exact ⟨fun state => (entry _ described).held state,
        fun state => (entry _ described).noFeed state⟩
  | some words =>
      have described := Plain.map (Prose.paragraph (settings.voice .autodoc) (some words))
        fun call member => plain_basic settings
          (changesHeld_of_isPlain (Prose.isPlain_paragraph _ _ call member))
      exact ⟨fun state => (entry _ described).held state,
        fun state => (entry _ described).noFeed state⟩

/-- Only a table's start and end change the open tables, and only a header and the end
of the file say whether the file has ended. -/
theorem plain_write
    (settings : Settings)
    {call : Call}
    (unchanged : changesHeld call = false) :
    Plain (write settings call) := by
  unfold write
  split
  · exact plain_tableEntry settings _ _
  · exact plain_basic settings unchanged

/-! ## Columns -/

/-- After a text that ends its line the column is the first. -/
theorem column_text
    {words : String}
    (ended : words.toList.getLast? = some '\n')
    (noComma : words ≠ ",\n")
    (state : State) :
    (text words state).1.column = 0 := by
  obtain ⟨before, spelled⟩ := List.getLast?_eq_some_iff.1 ended
  have noJoin : (state.seeAlso && words == ",\n") = false := by
    rw [beq_eq_false_iff_ne.2 noComma, Bool.and_false]
  unfold text
  rw [noJoin, spelled, List.map_append, ← List.cons_append, steps_append]
  rfl

/-- A call that is known to end its line does so. -/
theorem column_write
    (settings : Settings)
    {call : Call}
    {before : Bool}
    {state : State}
    (known : before = true -> state.column = 0)
    (ended : call.lineStart before = true) :
    (write settings call state).1.column = 0 := by
  cases call with
  | character c =>
      rw [eq_of_beq ended]
      rfl
  | text words =>
      rw [Call.lineStart, Bool.and_eq_true] at ended
      exact column_text (eq_of_beq ended.1) (bne_iff_ne.1 ended.2) state
  | breakLine =>
      unfold write basic
      dsimp only
      split
      · rfl
      · exact known ended
  | codeStart => exact known ended
  | codeEnd => exact known ended
  | tagListStart => exact known ended
  | tagListEnd => exact known ended
  | heading name => rfl
  | nameHeading => rfl
  | subheading name => rfl
  | blankLine => rfl
  | tableEnd => rfl
  | listEnd => rfl
  | tagEntryEnd => rfl
  | tagEntryEndExtra extra => rfl
  | _ => cases ended

/-- After calls that end their line the column is the first. -/
theorem column_writeCalls
    (settings : Settings)
    (calls : List Call)
    {before : Bool}
    {state : State}
    (known : before = true -> state.column = 0)
    (ended : lineStartAfter before calls = true) :
    (writeCalls settings calls state).1.column = 0 := by
  induction calls generalizing before state with
  | nil => exact known ended
  | cons call rest hypothesis =>
      exact hypothesis (column_write settings known) ended

/-! ## Open tables -/

/-- Every table whose width is remembered is open. -/
def TablesWithin (opened : List Bracket) (state : State) : Prop :=
  state.tables.length ≤ opened.count .table

/-- As many tables stay open as calls have opened. -/
theorem tablesWithin_of_held
    {opened next : List Bracket}
    {before after : State}
    (within : TablesWithin opened before)
    (kept : after.held = before.held)
    (grown : opened.count .table ≤ next.count .table) :
    TablesWithin next after := by
  have same : after.tables = before.tables := congrArg Prod.fst kept
  unfold TablesWithin at within ⊢
  rw [same]
  exact Nat.le_trans within grown

/-! ## Headers -/

/-- The texts that a header writes: the label, and again flush right. -/
def labelTexts (page : Header) : List String :=
  let label := label page
  let width := label.utf8ByteSize
  label ::
    if 2 * width < lineLength then
      [String.ofList (List.replicate (lineLength - 2 * width) ' '), label]
    else [String.ofList (label.toList.take (lineLength - 1 - width))]

/-- The state in which the label of a page is written. -/
def State.opened (state : State) : State :=
  { state with fileEnded := false, seeAlso := false }

/-- What a header writes after the label. -/
def labelEnd : List Step :=
  [character '\n', change fun state => { state with newline := false }]

/-- A header writes the labels of its page and nothing else. -/
theorem header_eq
    {settings : Settings}
    (complete : settings.embeddable = false)
    (page : Header)
    (state : State) :
    header settings page state =
      steps ((labelTexts page).map text ++ labelEnd) state.opened := by
  unfold header labelTexts
  rw [complete]
  simp only [Bool.false_eq_true, if_false]
  split <;> rfl

/-- A header forgets that the file has ended. -/
theorem held_header (settings : Settings) (page : Header) (state : State) :
    (header settings page state).1.held = (state.tables, false) ∧
      '\x0c' ∉ (header settings page state).2 := by
  cases embeddable : settings.embeddable with
  | true =>
      unfold header
      rw [if_pos embeddable]
      exact ⟨rfl, List.not_mem_nil⟩
  | false =>
      have plain : Plain (steps ((labelTexts page).map text ++ labelEnd)) :=
        .append (.map _ fun words _ => .text words)
          (.cons (.character _) (.cons (.change fun _ => rfl) .nil))
      rw [header_eq embeddable]
      exact ⟨plain.held _, plain.noFeed _⟩

/-- A call keeps as many tables open as there are brackets. -/
theorem tablesWithin_write
    (settings : Settings)
    {call : Call}
    {opened next : List Bracket}
    {state : State}
    (within : TablesWithin opened state)
    (nested : call.nest opened = some next) :
    TablesWithin next (write settings call state).1 := by
  have grown (keeps : call.closes ≠ some .table) :
      opened.count .table ≤ next.count .table :=
    Call.count_le_of_nest nested (fun _ => nofun) keeps
  cases changes : changesHeld call with
  | false =>
      refine tablesWithin_of_held within ((plain_write settings changes).held state) (grown ?_)
      cases call <;> simp_all [changesHeld, Call.closes]
  | true =>
      cases call with
      | tableStart longestTag =>
          obtain rfl := Option.some_inj.1 nested
          unfold TablesWithin at within ⊢
          rw [List.count_cons_self]
          change (if state.tables.length < maxTables then
            { state with tables := longestTag.utf8ByteSize :: state.tables }
          else state).tables.length
              ≤ _
          split
          · exact Nat.succ_le_succ within
          · exact Nat.le_succ_of_le within
      | tableEnd =>
          obtain rfl := Bracket.eq_cons_of_close nested
          unfold TablesWithin at within ⊢
          rw [List.count_cons_self] at within
          change state.tables.tail.length ≤ _
          rw [List.length_tail]
          exact Nat.sub_le_of_le_add within
      | header page =>
          have kept := congrArg Prod.fst (held_header settings page state).1
          refine Nat.le_trans (Nat.le_of_eq (congrArg List.length kept)) ?_
          exact Nat.le_trans within (grown nofun)
      | fileEnd => exact Nat.le_trans within (grown nofun)
      | _ => cases changes

/-- Calls keep as many tables open as there are brackets. -/
theorem tablesWithin_writeCalls
    (settings : Settings)
    {calls : List Call}
    {opened final : List Bracket}
    {state : State}
    (within : TablesWithin opened state)
    (nested : nestAll opened calls = some final) :
    TablesWithin final (writeCalls settings calls state).1 := by
  induction calls generalizing opened state with
  | nil => exact Option.some_inj.1 nested ▸ within
  | cons call rest hypothesis =>
      obtain ⟨next, placed, onward⟩ := Option.bind_eq_some_iff.1 nested
      exact hypothesis (tablesWithin_write settings within placed) onward

/-! ## Calls inside a page -/

/-- A call inside of a page does not end the file and writes no form feed. -/
theorem write_of_inside
    (settings : Settings)
    {call : Call}
    (inside : call.isOutside = false)
    (state : State) :
    (write settings call state).1.fileEnded = state.fileEnded ∧
      '\x0c' ∉ (write settings call state).2 := by
  cases changes : changesHeld call with
  | false =>
      have plain := plain_write settings changes
      exact ⟨congrArg Prod.snd (plain.held state), plain.noFeed state⟩
  | true =>
      cases call with
      | header page => cases inside
      | fileEnd => cases inside
      | tableStart longestTag =>
          refine ⟨?_, List.not_mem_nil⟩
          change (if state.tables.length < maxTables then
            { state with tables := longestTag.utf8ByteSize :: state.tables }
          else state).fileEnded = _
          split <;> rfl
      | tableEnd => exact ⟨rfl, by simp [write, basic, steps, change, character, dedent]⟩
      | _ => cases changes

/-- Calls inside of a page do not end the file and write no form feed. -/
theorem writeCalls_of_inside
    (settings : Settings)
    {calls : List Call}
    (inside : ∀ call ∈ calls, call.isOutside = false)
    (state : State) :
    (writeCalls settings calls state).1.fileEnded = state.fileEnded ∧
      '\x0c' ∉ (writeCalls settings calls state).2 := by
  induction calls generalizing state with
  | nil => exact ⟨rfl, List.not_mem_nil⟩
  | cons call rest hypothesis =>
      obtain ⟨kept, noFeed⟩ := write_of_inside settings (inside call List.mem_cons_self) state
      obtain ⟨later, noLaterFeed⟩ :=
        hypothesis (fun other member => inside other (List.mem_cons_of_mem call member))
          (write settings call state).1
      rw [writeCalls_cons, List.mem_append, not_or]
      exact ⟨later.trans kept, noFeed, noLaterFeed⟩

/-! ## The same header from two states -/

/-- Two states from which the same words on the current line give the same text. -/
structure Level (first second : State) : Prop where
  column : first.column = second.column
  firstReady : first.newline = false ∧ first.seeAlso = false
  secondReady : second.newline = false ∧ second.seeAlso = false

/-- Two steps that write the same text from two states and keep them level. -/
def Level.Kept (step : Step) (first second : State) : Prop :=
  (step first).2 = (step second).2 ∧ Level (step first).1 (step second).1

/-- Nothing is written where the column has been reached. -/
theorem align_of_ready
    {state : State}
    (ready : state.newline = false ∧ state.seeAlso = false)
    (upcoming : Nat) :
    align upcoming state = (state, []) := by
  simp [align, steps, wrap, settle, ready.1, ready.2]

namespace Level

variable {first second : State}

theorem steps
    {items : List Step}
    (each : ∀ step ∈ items, ∀ {first second}, Level first second -> Kept step first second)
    (level : Level first second) :
    Kept (Autodoc.steps items) first second := by
  induction items generalizing first second with
  | nil => exact ⟨rfl, level⟩
  | cons step rest hypothesis =>
      obtain ⟨same, onward⟩ := each step List.mem_cons_self level
      obtain ⟨sameRest, final⟩ :=
        hypothesis (fun other member => each other (List.mem_cons_of_mem step member)) onward
      refine ⟨?_, final⟩
      rw [steps_cons, steps_cons, same, sameRest]

theorem align (level : Level first second) (upcoming : Nat) :
    Kept (Autodoc.align upcoming) first second := by
  unfold Kept
  rw [align_of_ready level.firstReady, align_of_ready level.secondReady]
  exact ⟨rfl, level⟩

theorem character
    {c : Char}
    (noNewline : c ≠ '\n')
    (level : Level first second) :
    Kept (Autodoc.character c) first second := by
  unfold Autodoc.character
  split
  · exact ⟨rfl, level⟩
  unfold Kept
  simp only [Autodoc.steps, align_of_ready level.firstReady, align_of_ready level.secondReady,
    level.column]
  split
  · exact ⟨rfl, ⟨rfl, level.firstReady, level.secondReady⟩⟩
  · exact ⟨rfl, ⟨rfl, level.firstReady, level.secondReady⟩⟩

theorem text
    {words : String}
    (noNewline : '\n' ∉ words.toList)
    (level : Level first second) :
    Kept (Autodoc.text words) first second := by
  unfold Kept Autodoc.text
  rw [level.firstReady.2, level.secondReady.2]
  refine steps ?_ level
  intro step member first second level
  rcases List.mem_cons.1 member with rfl | written
  · exact level.align _
  · obtain ⟨c, spelled, rfl⟩ := List.mem_map.1 written
    exact level.character fun newline => noNewline (newline ▸ spelled)

end Level

/-- The labels of a page stand on one line. -/
theorem newline_not_mem_labelTexts
    {page : Header}
    (noNewline : '\n' ∉ (label page).toList) :
    ∀ words ∈ labelTexts page, '\n' ∉ words.toList := by
  intro words member
  unfold labelTexts at member
  dsimp only at member
  split at member
  · simp only [List.mem_cons, List.not_mem_nil, or_false] at member
    rcases member with rfl | rfl | rfl
    · exact noNewline
    · simp [List.mem_replicate]
    · exact noNewline
  · simp only [List.mem_cons, List.not_mem_nil, or_false] at member
    rcases member with rfl | rfl
    · exact noNewline
    · rw [String.toList_ofList]
      exact fun taken => noNewline (List.mem_of_mem_take taken)

/-- The state after the heading of the NAME section: nothing but the open tables and the
end of the file is left of what was before. -/
def State.named (state : State) : State where
  indent := 2 * indentLength
  newline := true
  fileEnded := state.fileEnded
  tables := state.tables

/-- The heading of the name is written in the same way on every page. -/
theorem write_nameHeading (settings : Settings) (state : State) :
    write settings .nameHeading state = (state.named, "\n    NAME\n".toList) := rfl

/-- A page up to the end of its file. -/
theorem writeCalls_opening
    (settings : Settings)
    (page : Header)
    (body : List Call)
    (state : State) :
    writeCalls settings (.header page :: .nameHeading :: body) state =
      ((writeCalls settings body (header settings page state).1.named).1,
        (header settings page state).2 ++ ("\n    NAME\n".toList ++
          (writeCalls settings body (header settings page state).1.named).2)) := by
  rw [writeCalls_cons, writeCalls_cons, write_nameHeading]
  rfl

/-- From two states with the same open tables, a header and the NAME heading write the
same and leave the same state, if the label starts at the same column or there is none. -/
theorem writeCalls_header
    {settings : Settings}
    {page : Header}
    (noNewline : '\n' ∉ (label page).toList)
    {first second : State}
    (tables : first.tables = second.tables)
    (margin : settings.embeddable = true ∨ Level first.opened second.opened)
    (rest : List Call) :
    writeCalls settings (.header page :: .nameHeading :: rest) first =
      writeCalls settings (.header page :: .nameHeading :: rest) second := by
  have sameText :
      (header settings page first).2 = (header settings page second).2 := by
    rcases margin with embeddable | level
    · unfold header
      rw [if_pos embeddable]
      rfl
    cases embeddable : settings.embeddable with
    | true =>
        unfold header
        rw [if_pos embeddable]
        rfl
    | false =>
        have written : Level.Kept (steps ((labelTexts page).map text)) first.opened
            second.opened := by
          refine level.steps ?_
          intro step member first second level
          obtain ⟨words, listed, rfl⟩ := List.mem_map.1 member
          exact level.text (newline_not_mem_labelTexts noNewline words listed)
        rw [header_eq embeddable, header_eq embeddable, steps_append, steps_append, written.1]
        rfl
  have sameState :
      (header settings page first).1.named = (header settings page second).1.named := by
    have firstHeld := (held_header settings page first).1
    have secondHeld := (held_header settings page second).1
    rw [tables, ← secondHeld] at firstHeld
    have sameTables := congrArg Prod.fst firstHeld
    have sameEnd := congrArg Prod.snd firstHeld
    simp only [State.held] at sameTables sameEnd
    simp only [State.named, sameTables, sameEnd]
  rw [writeCalls_opening, writeCalls_opening, sameText, sameState]

/-- The end of a file is noted and written as nothing. -/
theorem writeCalls_fileEnd (settings : Settings) (state : State) :
    writeCalls settings [.fileEnd] state =
      ({ state with fileEnded := true, newline := false },
        if state.fileEnded then [] else ['\x0c']) := by
  rw [writeCalls_cons]
  exact Prod.ext rfl (List.append_nil _)

/-- A page up to the end of its file ends its last line, has not ended its file and holds
no form feed. -/
theorem writeCalls_opening_rests
    (settings : Settings)
    (page : Header)
    {body : List Call}
    (inside : ∀ call ∈ body, call.isOutside = false)
    (ended : EndsLines body)
    (state : State) :
    (writeCalls settings (.header page :: .nameHeading :: body) state).1.column = 0 ∧
      (writeCalls settings (.header page :: .nameHeading :: body) state).1.fileEnded = false ∧
      '\x0c' ∉ (writeCalls settings (.header page :: .nameHeading :: body) state).2 := by
  obtain ⟨held, noFeed⟩ := held_header settings page state
  obtain ⟨kept, noBodyFeed⟩ :=
    writeCalls_of_inside settings inside (header settings page state).1.named
  have notEnded : (header settings page state).1.fileEnded = false := congrArg Prod.snd held
  rw [writeCalls_opening]
  refine ⟨?_, kept.trans notEnded, ?_⟩
  · exact column_writeCalls settings body (fun _ => rfl) ended
  · simp only [List.mem_append, not_or]
    exact ⟨noFeed, by decide, noBodyFeed⟩

end Autodoc
end Markup
end DeclManual
