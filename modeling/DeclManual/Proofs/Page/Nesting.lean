import DeclManual.Proofs.Page.Sections

/-!
# Markup is well nested

Some markup calls open a bracket and others close one: prototypes, tag lists with
their tags, tables and lists.  Here the calls of a page are run over a stack of the
brackets that are open.  A call that closes has to meet the bracket that it closes,
an entry has to stand directly in what it is an entry of, and the entries of a list
have exactly one separator between them.  Every part of a page leaves every stack
as it found it, and so does a whole page.
-/

namespace DeclManual
namespace Markup

/-- What an open list ends in so far. -/
inductive ListProgress where
  | nothing
  | entry
  | separator
deriving DecidableEq, Repr

/-- An open bracket of markup. -/
inductive Bracket where
  | code
  | tagList
  /-- The tag of an entry, which will be annotated or not. -/
  | tag (annotated : Bool)
  | table
  | list (progress : ListProgress)
deriving DecidableEq, Repr

namespace Bracket

/-- Closes a bracket, which has to be the innermost. -/
def close (bracket : Bracket) : List Bracket -> Option (List Bracket)
  | [] => none
  | innermost :: outer => if innermost = bracket then some outer else none

/-- Replaces the innermost bracket, which has to be a given one, by others. -/
def replace (bracket : Bracket) (others opened : List Bracket) : Option (List Bracket) :=
  (bracket.close opened).map (others ++ ·)

end Bracket

/-- The brackets that are open after a call, the innermost first, where `opened` are
open before it; none if the call cannot stand there.  A header and the end of a file
stand outside all brackets. -/
def Call.nest (opened : List Bracket) : Call -> Option (List Bracket)
  | .codeStart => some (.code :: opened)
  | .codeEnd => Bracket.code.close opened
  | .tagListStart => some (.tagList :: opened)
  | .tagListEnd => Bracket.tagList.close opened
  | .tagEntryStart => Bracket.tagList.replace [.tag false, .tagList] opened
  | .tagEntryStartExtra => Bracket.tagList.replace [.tag true, .tagList] opened
  | .tagEntryEnd => (Bracket.tag false).close opened
  | .tagEntryEndExtra _ => (Bracket.tag true).close opened
  | .tableStart _ => some (.table :: opened)
  | .tableEntry _ _ => Bracket.table.replace [.table] opened
  | .tableEnd => Bracket.table.close opened
  | .listStart => some (.list .nothing :: opened)
  | .listEntry _ =>
    ((Bracket.list .nothing).replace [.list .entry] opened).or
      ((Bracket.list .separator).replace [.list .entry] opened)
  | .listSeparator => (Bracket.list .entry).replace [.list .separator] opened
  | .listEnd => (Bracket.list .entry).close opened
  | .header _ | .fileEnd => if opened.isEmpty then some [] else none
  | _ => some opened

/-- The brackets that are open after some calls. -/
def nestAll : (opened : List Bracket) -> List Call -> Option (List Bracket)
  | opened, [] => some opened
  | opened, call :: rest => (call.nest opened).bind fun next => nestAll next rest

theorem nestAll_append (opened : List Bracket) (first second : List Call) :
    nestAll opened (first ++ second) =
      (nestAll opened first).bind fun middle => nestAll middle second := by
  induction first generalizing opened with
  | nil => rfl
  | cons call rest hypothesis =>
      simp only [List.cons_append, nestAll, Option.bind_assoc]
      congr 1
      funext next
      exact hypothesis next

/-- Calls that nest can be cut before any of them, and that one can stand there. -/
theorem nest_of_nestAll_append
    {opened final : List Bracket}
    {before after : List Call}
    {call : Call}
    (nested : nestAll opened (before ++ call :: after) = some final) :
    ∃ here next, nestAll opened before = some here ∧ call.nest here = some next ∧
      nestAll next after = some final := by
  rw [nestAll_append] at nested
  obtain ⟨here, read, further⟩ := Option.bind_eq_some_iff.1 nested
  obtain ⟨next, placed, rest⟩ := Option.bind_eq_some_iff.1 further
  exact ⟨here, next, read, placed, rest⟩

/-- Where a call can stand: an entry directly in what it is an entry of, a separator
after an entry of a list, and the end of a list not after a separator. -/
def Call.Placed (opened : List Bracket) : Call -> Prop
  | .tagEntryStart | .tagEntryStartExtra => opened.head? = some .tagList
  | .tableEntry _ _ => opened.head? = some .table
  | .listEntry _ =>
    opened.head? = some (.list .nothing) ∨ opened.head? = some (.list .separator)
  | .listSeparator | .listEnd => opened.head? = some (.list .entry)
  | _ => True

/-- What can be closed was opened last. -/
theorem Bracket.eq_cons_of_close
    {bracket : Bracket}
    {opened outer : List Bracket}
    (closed : bracket.close opened = some outer) :
    opened = bracket :: outer := by
  cases opened with
  | nil => cases closed
  | cons innermost rest =>
      rw [Bracket.close] at closed
      by_cases same : innermost = bracket
      · rw [if_pos same, Option.some_inj] at closed
        rw [same, closed]
      · rw [if_neg same] at closed
        cases closed

theorem Bracket.head?_of_close
    {bracket : Bracket}
    {opened outer : List Bracket}
    (closed : bracket.close opened = some outer) :
    opened.head? = some bracket := by
  rw [Bracket.eq_cons_of_close closed, List.head?_cons]

/-- What is replaced was opened last. -/
theorem Bracket.eq_cons_of_replace
    {bracket : Bracket}
    {others opened next : List Bracket}
    (replaced : bracket.replace others opened = some next) :
    ∃ outer, opened = bracket :: outer ∧ next = others ++ outer := by
  obtain ⟨outer, closed, rfl⟩ := Option.map_eq_some_iff.1 replaced
  exact ⟨outer, Bracket.eq_cons_of_close closed, rfl⟩

theorem Bracket.head?_of_replace
    {bracket : Bracket}
    {others opened next : List Bracket}
    (replaced : bracket.replace others opened = some next) :
    opened.head? = some bracket := by
  obtain ⟨outer, rfl, -⟩ := Bracket.eq_cons_of_replace replaced
  rfl

/-- A call that nests stands where it may. -/
theorem Call.placed_of_nest
    {call : Call}
    {opened next : List Bracket}
    (nested : call.nest opened = some next) :
    call.Placed opened := by
  cases call with
  | tagEntryStart => exact Bracket.head?_of_replace nested
  | tagEntryStartExtra => exact Bracket.head?_of_replace nested
  | tableEntry name description => exact Bracket.head?_of_replace nested
  | listEntry name =>
      rcases Option.or_eq_some_iff.1 nested with first | ⟨-, further⟩
      · exact .inl (Bracket.head?_of_replace first)
      · exact .inr (Bracket.head?_of_replace further)
  | listSeparator => exact Bracket.head?_of_replace nested
  | listEnd => exact Bracket.head?_of_close nested
  | _ => trivial

/-! ## Calls outside all brackets -/

/-- The calls that stand outside all brackets. -/
def Call.isOutside : Call -> Bool
  | .header _ | .fileEnd => true
  | _ => false

/-- A call that stands outside of everything leaves nothing open. -/
theorem Call.eq_nil_of_nest
    {call : Call}
    {opened next : List Bracket}
    (outside : call.isOutside = true)
    (nested : call.nest opened = some next) :
    opened = [] ∧ next = [] := by
  cases opened with
  | nil =>
      cases call with
      | header page => exact ⟨rfl, (Option.some_inj.1 nested).symm⟩
      | fileEnd => exact ⟨rfl, (Option.some_inj.1 nested).symm⟩
      | _ => cases outside
  | cons innermost rest =>
      cases call with
      | header page => cases nested
      | fileEnd => cases nested
      | _ => cases outside

theorem Bracket.close_append
    {bracket : Bracket}
    {opened outer : List Bracket}
    (closed : bracket.close opened = some outer)
    (others : List Bracket) :
    bracket.close (opened ++ others) = some (outer ++ others) := by
  rw [Bracket.eq_cons_of_close closed, List.cons_append, Bracket.close, if_pos rfl]

theorem Bracket.replace_append
    {bracket : Bracket}
    {inner opened next : List Bracket}
    (replaced : bracket.replace inner opened = some next)
    (others : List Bracket) :
    bracket.replace inner (opened ++ others) = some (next ++ others) := by
  obtain ⟨outer, closed, rfl⟩ := Option.map_eq_some_iff.1 replaced
  rw [Bracket.replace, Bracket.close_append closed, Option.map_some, List.append_assoc]

/-- The bracket that a call closes. -/
def Call.closes : Call -> Option Bracket
  | .codeEnd => some .code
  | .tagListEnd => some .tagList
  | .tagEntryEnd => some (.tag false)
  | .tagEntryEndExtra _ => some (.tag true)
  | .tableEnd => some .table
  | .listEnd => some (.list .entry)
  | _ => none

/-- Closing one bracket takes no other away. -/
theorem Bracket.count_close
    {bracket other : Bracket}
    {opened outer : List Bracket}
    (closed : other.close opened = some outer)
    (different : some other ≠ some bracket) :
    opened.count bracket ≤ outer.count bracket := by
  apply Nat.le_of_eq
  rw [Bracket.eq_cons_of_close closed, List.count_cons_of_ne]
  exact fun same => different (congrArg some same)

theorem Bracket.count_replace
    {bracket other : Bracket}
    {inner opened next : List Bracket}
    (replaced : other.replace inner opened = some next)
    (grown : [other].count bracket ≤ inner.count bracket) :
    opened.count bracket ≤ next.count bracket := by
  obtain ⟨outer, rfl, rfl⟩ := Bracket.eq_cons_of_replace replaced
  rw [← List.singleton_append, List.count_append, List.count_append]
  exact Nat.add_le_add_right grown _

/-- A bracket, lists apart, is closed by no call but its own. -/
theorem Call.count_le_of_nest
    {call : Call}
    {bracket : Bracket}
    {opened next : List Bracket}
    (nested : call.nest opened = some next)
    (noList : ∀ progress, Bracket.list progress ≠ bracket)
    (keeps : call.closes ≠ some bracket) :
    opened.count bracket ≤ next.count bracket := by
  have listed (progress : ListProgress) (inner : List Bracket) :
      [Bracket.list progress].count bracket ≤ inner.count bracket := by
    rw [List.count_cons_of_ne (noList progress), List.count_nil]
    exact Nat.zero_le _
  cases call with
  | header page =>
      rw [(Call.eq_nil_of_nest rfl nested).1]
      exact Nat.zero_le _
  | fileEnd =>
      rw [(Call.eq_nil_of_nest rfl nested).1]
      exact Nat.zero_le _
  | codeStart => exact Option.some_inj.1 nested ▸ List.count_le_count_cons
  | tagListStart => exact Option.some_inj.1 nested ▸ List.count_le_count_cons
  | tableStart longestTag => exact Option.some_inj.1 nested ▸ List.count_le_count_cons
  | listStart => exact Option.some_inj.1 nested ▸ List.count_le_count_cons
  | codeEnd => exact Bracket.count_close nested keeps
  | tagListEnd => exact Bracket.count_close nested keeps
  | tagEntryEnd => exact Bracket.count_close nested keeps
  | tagEntryEndExtra extra => exact Bracket.count_close nested keeps
  | tableEnd => exact Bracket.count_close nested keeps
  | listEnd => exact Bracket.count_close nested keeps
  | tagEntryStart => exact Bracket.count_replace nested List.count_le_count_cons
  | tagEntryStartExtra => exact Bracket.count_replace nested List.count_le_count_cons
  | tableEntry name description => exact Bracket.count_replace nested (Nat.le_refl _)
  | listSeparator => exact Bracket.count_replace nested (listed _ _)
  | listEntry name =>
      rcases Option.or_eq_some_iff.1 nested with first | ⟨-, further⟩
      · exact Bracket.count_replace first (listed _ _)
      · exact Bracket.count_replace further (listed _ _)
  | _ => exact Nat.le_of_eq (congrArg _ (Option.some_inj.1 nested))

/-- What a call does is not affected by further brackets around those that are open. -/
theorem Call.nest_append
    {call : Call}
    {opened next : List Bracket}
    (inside : call.isOutside = false)
    (nested : call.nest opened = some next)
    (others : List Bracket) :
    call.nest (opened ++ others) = some (next ++ others) := by
  cases call with
  | header page => cases inside
  | fileEnd => cases inside
  | codeEnd => exact Bracket.close_append nested others
  | tagListEnd => exact Bracket.close_append nested others
  | tagEntryEnd => exact Bracket.close_append nested others
  | tagEntryEndExtra extra => exact Bracket.close_append nested others
  | tableEnd => exact Bracket.close_append nested others
  | listEnd => exact Bracket.close_append nested others
  | tagEntryStart => exact Bracket.replace_append nested others
  | tagEntryStartExtra => exact Bracket.replace_append nested others
  | tableEntry name description => exact Bracket.replace_append nested others
  | listSeparator => exact Bracket.replace_append nested others
  | listEntry name =>
      rcases Option.or_eq_some_iff.1 nested with first | ⟨-, further⟩
      · exact Option.or_eq_some_iff.2 (.inl (Bracket.replace_append first others))
      · obtain ⟨outer, rfl, -⟩ := Bracket.eq_cons_of_replace further
        exact Option.or_eq_some_iff.2 (.inr ⟨rfl, Bracket.replace_append further others⟩)
  | _ =>
      obtain rfl := Option.some_inj.1 nested
      rfl

/-- Calls that nest both on their own and inside a bracket are all inside. -/
theorem isOutside_of_nestAll
    {calls : List Call}
    {opened final wrapped : List Bracket}
    (alone : nestAll opened calls = some final)
    (within : nestAll (opened ++ [.code]) calls = some wrapped) :
    ∀ call ∈ calls, call.isOutside = false := by
  induction calls generalizing opened with
  | nil => exact fun call member => absurd member List.not_mem_nil
  | cons call rest hypothesis =>
      obtain ⟨next, nested, onward⟩ := Option.bind_eq_some_iff.1 alone
      obtain ⟨further, nestedWithin, onwardWithin⟩ := Option.bind_eq_some_iff.1 within
      have inside : call.isOutside = false := by
        rw [Bool.eq_false_iff]
        intro outside
        have empty := (Call.eq_nil_of_nest outside nestedWithin).1
        exact List.append_ne_nil_of_right_ne_nil opened (List.cons_ne_nil _ _) empty
      rw [Call.nest_append inside nested, Option.some_inj] at nestedWithin
      rw [← nestedWithin] at onwardWithin
      intro other member
      rcases List.mem_cons.1 member with rfl | later
      · exact inside
      · exact hypothesis onward onwardWithin other later

/-! ## Calls that leave the brackets alone -/

/-- Calls that can stand anywhere and leave the brackets that are open as they are. -/
def Neutral (calls : List Call) : Prop :=
  ∀ opened, nestAll opened calls = some opened

namespace Neutral

theorem nil : Neutral [] := fun _ => rfl

theorem append
    {first second : List Call}
    (left : Neutral first)
    (right : Neutral second) :
    Neutral (first ++ second) := by
  intro opened
  rw [nestAll_append, left, Option.bind_some, right]

/-- Calls that nest on from where some others left off. -/
theorem nestAll_append_left
    {calls : List Call}
    (neutral : Neutral calls)
    (opened : List Bracket)
    (rest : List Call) :
    nestAll opened (calls ++ rest) = nestAll opened rest := by
  rw [nestAll_append, neutral, Option.bind_some]

theorem flatMap
    {α : Type}
    {items : List α}
    {calls : α -> List Call}
    (each : ∀ item ∈ items, Neutral (calls item)) :
    Neutral (items.flatMap calls) := by
  induction items with
  | nil => exact nil
  | cons item items hypothesis =>
      rw [List.flatMap_cons]
      exact (each item List.mem_cons_self).append
        (hypothesis fun other member => each other (List.mem_cons_of_mem item member))

theorem ite
    {condition : Prop}
    [Decidable condition]
    {first second : List Call}
    (left : Neutral first)
    (right : Neutral second) :
    Neutral (if condition then first else second) := by
  split
  · exact left
  · exact right

/-- Calls that leave everything as it was nest inside of anything. -/
theorem inside {calls : List Call} (neutral : Neutral calls) :
    ∀ call ∈ calls, call.isOutside = false :=
  isOutside_of_nestAll (neutral []) (neutral [.code])

end Neutral

/-- Calls that open and close nothing and are no entries. -/
def Call.isPlain : Call -> Bool
  | .text _ | .character _ | .breakLine | .blankLine | .code _ | .indent => true
  | .heading _ | .subheading _ | .nameHeading | .name _ | .terseSeparator | .reference _ => true
  | .codeStart | .codeEnd | .tagListStart | .tagListEnd | .tagEntryStart => false
  | .tagEntryStartExtra | .tagEntryEnd | .tagEntryEndExtra _ | .tableStart _ => false
  | .tableEntry _ _ | .tableEnd | .listStart | .listEntry _ | .listSeparator => false
  | .listEnd | .header _ | .fileEnd | .includeFile _ | .comment | .dash => false
  | .emphasized _ | .warning => false

/-- A plain call may stand anywhere and opens nothing. -/
theorem Call.nest_of_isPlain
    {call : Call}
    (plain : call.isPlain = true)
    (opened : List Bracket) :
    call.nest opened = some opened := by
  cases call <;> simp_all [Call.isPlain, Call.nest]

/-- Plain calls leave everything as it was. -/
theorem Neutral.of_plain
    {calls : List Call}
    (plain : ∀ call ∈ calls, call.isPlain = true) :
    Neutral calls := by
  intro opened
  induction calls with
  | nil => rfl
  | cons call rest hypothesis =>
      rw [nestAll, Call.nest_of_isPlain (plain call List.mem_cons_self), Option.bind_some]
      exact hypothesis fun other member => plain other (List.mem_cons_of_mem call member)

theorem Neutral.cons
    {call : Call}
    {calls : List Call}
    (plain : call.isPlain = true)
    (neutral : Neutral calls) :
    Neutral (call :: calls) := by
  intro opened
  rw [nestAll, Call.nest_of_isPlain plain, Option.bind_some, neutral]

theorem Neutral.text (words : String) : Neutral [.text words] :=
  .of_plain (by simp [Call.isPlain])

theorem Neutral.character (c : Char) : Neutral [.character c] :=
  .of_plain (by simp [Call.isPlain])

/-! ## Prose -/

/-- A text that is written by characters opens nothing. -/
theorem neutral_characters (text : List Char) : Neutral (characters text) := by
  refine .of_plain ?_
  intro call member
  obtain ⟨c, -, rfl⟩ := List.mem_map.1 member
  rfl

end Markup

namespace Prose

open Markup

/-- A description is written in plain calls. -/
theorem isPlain_describeFrom
    (voice : Voice)
    (state : DescriptionState)
    (text : List Char) :
    ∀ call ∈ describeFrom voice state text, call.isPlain = true := by
  induction text generalizing state with
  | nil =>
      unfold describeFrom
      split <;> simp [Call.isPlain]
  | cons c rest hypothesis =>
      unfold describeFrom
      intro call member
      split at member
      · rcases List.mem_cons.1 member with rfl | later
        · rfl
        · exact hypothesis _ call later
      split at member
      · rcases List.mem_cons.1 member with rfl | later
        · rfl
        · exact hypothesis _ call later
      split at member
      · rcases List.mem_cons.1 member with rfl | member
        · rfl
        rcases List.mem_cons.1 member with rfl | later
        · rfl
        · exact hypothesis _ call later
      · rcases List.mem_cons.1 member with rfl | later
        · rfl
        · exact hypothesis _ call later

/-- A paragraph is written in plain calls. -/
theorem isPlain_paragraph (voice : Voice) (text : Option String) :
    ∀ call ∈ paragraph voice text, call.isPlain = true := by
  intro call member
  unfold paragraph at member
  rcases List.mem_append.1 member with body | ending
  · split at body
    · split at body
      · rw [List.mem_singleton.1 body, Call.isPlain]
      split at body
      · exact isPlain_describeFrom voice _ _ call body
      · rw [List.mem_singleton.1 body, Call.isPlain]
    · rw [List.mem_singleton.1 body, Call.isPlain]
  · rw [List.mem_singleton.1 ending, Call.isPlain]

theorem neutral_paragraph (voice : Voice) (text : Option String) :
    Neutral (paragraph voice text) :=
  .of_plain (isPlain_paragraph voice text)

/-- A line of returned values is written in plain calls. -/
theorem isPlain_stepLine
    (fixup : Bool)
    (sentence : Sentence)
    (last : Char)
    (line : List Char) :
    ∀ call ∈ (stepLine fixup sentence last line).2.2, call.isPlain = true := by
  induction line generalizing sentence last with
  | nil => simp [stepLine]
  | cons c rest hypothesis =>
      unfold stepLine
      intro call member
      rcases List.mem_cons.1 member with rfl | later
      · rfl
      · exact hypothesis _ _ call later

/-- Text between the tags of returned values opens nothing. -/
theorem neutral_writeReturnsText
    (fixup : Bool)
    (state : ReturnsState)
    (line : List Char) :
    Neutral (writeReturnsText fixup state line).2 := by
  have lead : Neutral (if state.last == '\n' then [] else [Call.character '\n']) :=
    .ite .nil (.character '\n')
  have body : Neutral (stepLine fixup state.sentence '\n' line).2.2 :=
    .of_plain (isPlain_stepLine _ _ _ _)
  unfold writeReturnsText
  dsimp only
  split
  · exact (lead.append body).append (.character '\n')
  · exact lead.append body

/-- Text that a line adds leaves the tag list open or not, as it was. -/
theorem listStarted_writeReturnsText
    (fixup : Bool)
    (state : ReturnsState)
    (line : List Char) :
    (writeReturnsText fixup state line).1.listStarted = state.listStarted := by
  unfold writeReturnsText
  dsimp only
  split <;> rfl

theorem neutral_closeBeforeTag (state : ReturnsState) : Neutral (closeBeforeTag state) := by
  unfold closeBeforeTag
  exact .ite .nil (.ite (.of_plain (by simp [Call.isPlain])) (.character '\n'))

/-- The brackets that a returns body has opened. -/
def ReturnsState.opened (state : ReturnsState) (outer : List Bracket) : List Bracket :=
  if state.listStarted then .tagList :: outer else outer

/-- A tag opens the tag list unless it is open, and leaves it open. -/
theorem nestAll_openTag
    (state : ReturnsState)
    (tag : List Char)
    (outer : List Bracket) :
    nestAll (state.opened outer) (openTag state tag) = some (.tagList :: outer) := by
  have entry :
      nestAll (.tagList :: outer) (.tagEntryStart :: characters tag ++ [.tagEntryEnd]) =
        some (.tagList :: outer) := by
    change nestAll (.tag false :: .tagList :: outer) (characters tag ++ [.tagEntryEnd]) = _
    rw [(neutral_characters tag).nestAll_append_left]
    rfl
  unfold openTag ReturnsState.opened
  cases state.listStarted
  · exact entry
  · exact entry

/-- A line of a returns body leaves open nothing but the tag list. -/
theorem nestAll_returnsLine
    (voice : Voice)
    (state : ReturnsState)
    (line : List Char)
    (outer : List Bracket) :
    nestAll (state.opened outer) (returnsLine voice state line).2 =
      some ((returnsLine voice state line).1.opened outer) := by
  unfold returnsLine
  split
  · have lead : Neutral (if state.last == '\n' then [] else [Call.character '\n']) :=
      .ite .nil (.character '\n')
    exact (lead.append (neutral_characters line)).append (.character '\n') _
  split
  · dsimp only
    rw [List.append_assoc, (neutral_closeBeforeTag state).nestAll_append_left, nestAll_append,
      nestAll_openTag, Option.bind_some, neutral_writeReturnsText]
    simp [ReturnsState.opened, listStarted_writeReturnsText]
  · rw [neutral_writeReturnsText]
    simp [ReturnsState.opened, listStarted_writeReturnsText]

/-- The lines of returned values close what they open, at the latest at their end. -/
theorem nestAll_returnsLines
    (voice : Voice)
    (state : ReturnsState)
    (lines : List (List Char))
    (outer : List Bracket) :
    nestAll (state.opened outer) (returnsLines voice state lines) = some outer := by
  induction lines generalizing state with
  | nil =>
      unfold returnsLines
      dsimp only
      rw [Neutral.nestAll_append_left
        (.ite .nil (.ite (.of_plain (by simp [Call.isPlain])) (.character '\n')))]
      unfold ReturnsState.opened
      cases state.listStarted <;> rfl
  | cons line rest hypothesis =>
      unfold returnsLines
      dsimp only
      rw [nestAll_append, nestAll_returnsLine, Option.bind_some, hypothesis]

/-- The returned values of a comment leave everything as it was. -/
theorem neutral_returns (voice : Voice) (comment : String) :
    Neutral (returns voice comment) :=
  nestAll_returnsLines voice {} _

end Prose

namespace Page

open Decl
open Markup
open Prose (Voice)

/-! ## Prototypes -/

theorem neutral_layoutCalls (text : String) : Neutral (layoutCalls text) := by
  refine .flatMap fun c _ => ?_
  exact .ite (.of_plain (by simp [Call.isPlain])) (.character c)

theorem neutral_declaratorText (text : String) (keepUnderscores : Bool) :
    Neutral (declaratorText text keepUnderscores) := by
  unfold declaratorText
  exact .ite (.text text) ((neutral_characters _).append (.text _))

theorem neutral_innerText
    (layout : Layout)
    (spread : Bool)
    (name : Option String)
    (text : String) :
    Neutral (innerText layout spread name text) := by
  unfold innerText
  split
  · refine .append (.append (.append (.append (.text _) ?_) ?_) (.text _)) ?_
    · exact .ite (neutral_layoutCalls _) .nil
    · exact neutral_declaratorText _ _
    · exact .ite (neutral_layoutCalls _) .nil
  · exact .text text

mutual

/-- A function declarator is written in calls that nest, by induction on it. -/
theorem neutral_functionCalls (layout : Layout) (spread : Bool) :
    (declarator : Declarator) -> Neutral (functionCalls layout spread declarator)
  | { name, text, parameters, inner, .. } => by
    unfold functionCalls
    split
    · exact .nil
    refine .append (.append (.text _) (neutral_innerCalls layout spread name inner)) ?_
    split
    · exact .nil
    refine .append (.append (.of_plain (by simp [Call.isPlain])) ?_)
      (.of_plain (by simp [Call.isPlain]))
    refine .ite (.append (.append ?_ ?_) ?_) (.text _)
    · exact .ite (neutral_layoutCalls _) .nil
    · exact neutral_parametersCalls layout spread true parameters
    · exact .ite (neutral_layoutCalls _) .nil

theorem neutral_innerCalls (layout : Layout) (spread : Bool) (name : Option String) :
    (inner : Option Declarator) -> Neutral (innerCalls layout spread name inner)
  | none => .nil
  | some inner => by
    unfold innerCalls
    exact .ite (neutral_functionCalls layout spread inner) (neutral_innerText _ _ _ _)

theorem neutral_parametersCalls (layout : Layout) (spread isFirst : Bool) :
    (parameters : List Parameter) ->
      Neutral (parametersCalls layout spread isFirst parameters)
  | [] => .nil
  | parameter :: rest => by
    unfold parametersCalls
    refine .append (.append (.ite .nil ?_) (neutral_parameterCalls layout parameter))
      (neutral_parametersCalls layout spread false rest)
    exact .append (.character ',') (.ite (neutral_layoutCalls _) .nil)

theorem neutral_parameterCalls (layout : Layout) :
    (parameter : Parameter) -> Neutral (parameterCalls layout parameter)
  | { spec, declarator, .. } => by
    have space : Neutral (if spec.text.isSome then [Call.character ' '] else []) :=
      .ite (.character ' ') .nil
    unfold parameterCalls
    refine .append ?_ (.ite ?_ ?_)
    · split
      · exact .text _
      · exact .ite (.text _) .nil
    · exact space.append (neutral_functionCalls layout false declarator)
    · split
      · exact space.append (neutral_declaratorText _ _)
      · exact .nil

end

/-- A declarator is written in calls that nest. -/
theorem neutral_declaratorCalls (layout : Layout) (spread : Bool) (declarator : Declarator) :
    Neutral (declaratorCalls layout spread declarator) := by
  unfold declaratorCalls
  refine .ite (neutral_functionCalls layout spread declarator) ?_
  split
  · exact neutral_declaratorText _ _
  · exact .nil

/-! ## Descriptions of identifiers -/

/-- Prose is written in calls that nest, in any manner. -/
theorem neutral_proseCalls (voice : Voice) (manner : Manner) (text : Option String) :
    Neutral (proseCalls voice manner text) := by
  cases manner with
  | paragraph => exact Prose.neutral_paragraph voice text
  | returns => exact Prose.neutral_returns voice _

/-- The bracket of a listing of which the last value has been written. -/
def Listing.bracket : Listing -> Bracket
  | .table _ => .table
  | .list => .list .entry

/-- The brackets while values are listed. -/
def Listing.opened (listing : Listing) (isOpen : Bool) (outer : List Bracket) : List Bracket :=
  if isOpen then listing.bracket :: outer else outer

/-- A listing is closed by the call that ends it. -/
theorem Listing.nest_stop (listing : Listing) (outer : List Bracket) :
    listing.stop.nest (listing.bracket :: outer) = some outer := by
  cases listing <;> rfl

/-- The first value of a listing, with what opens the listing. -/
theorem Listing.nestAll_first
    (listing : Listing)
    (enumerator : Enumerator)
    (outer : List Bracket) :
    nestAll outer (listing.start :: listing.entry true enumerator) =
      some (listing.bracket :: outer) := by
  cases listing <;> rfl

/-- A further value of a listing. -/
theorem Listing.nestAll_further
    (listing : Listing)
    (enumerator : Enumerator)
    (outer : List Bracket) :
    nestAll (listing.bracket :: outer) (listing.entry false enumerator) =
      some (listing.bracket :: outer) := by
  cases listing <;> rfl

/-- The comment of a group is written with the listing closed. -/
theorem nestAll_group
    (voice : Voice)
    (listing : Listing)
    (isOpen : Bool)
    (comment : String)
    (outer : List Bracket) :
    nestAll (listing.opened isOpen outer)
        ((if isOpen then [listing.stop] else []) ++
          .indent :: Prose.paragraph voice (some comment)) =
      some outer := by
  have introduced : Neutral (.indent :: Prose.paragraph voice (some comment)) :=
    .cons rfl (Prose.neutral_paragraph voice _)
  rw [nestAll_append]
  cases isOpen with
  | false => exact introduced outer
  | true =>
      simp only [Listing.opened, if_true, nestAll, Listing.nest_stop, Option.bind_some]
      exact introduced outer

/-- Values are listed in one listing, or in one for every group. -/
theorem nestAll_enumeratorCalls
    (voice : Voice)
    (listing : Listing)
    (isOpen : Bool)
    (enumerators : List Enumerator)
    (outer : List Bracket) :
    nestAll (listing.opened isOpen outer) (enumeratorCalls voice listing isOpen enumerators) =
      some outer := by
  induction enumerators generalizing isOpen with
  | nil =>
      unfold enumeratorCalls Listing.opened
      cases isOpen with
      | false => rfl
      | true => simp only [if_true, nestAll, Listing.nest_stop, Option.bind_some]
  | cons enumerator rest hypothesis =>
      have onward := hypothesis true
      simp only [Listing.opened, if_true] at onward
      unfold enumeratorCalls
      cases grouped : enumerator.groupComment with
      | some comment =>
          simp only [Option.isNone_some, Bool.and_false, Bool.false_eq_true, if_false,
            Bool.not_false]
          rw [List.append_assoc, List.append_assoc, nestAll_append, nestAll_group,
            Option.bind_some, List.singleton_append, ← List.cons_append, nestAll_append,
            Listing.nestAll_first, Option.bind_some, onward]
      | none =>
          simp only [Option.isNone_none, Bool.and_true, List.nil_append]
          cases isOpen with
          | false =>
              simp only [Listing.opened, Bool.false_eq_true, if_false, Bool.not_false]
              rw [List.singleton_append, nestAll_append, Listing.nestAll_first,
                Option.bind_some, onward]
          | true =>
              simp only [Listing.opened, if_true, Bool.not_true, List.nil_append]
              rw [nestAll_append, Listing.nestAll_further, Option.bind_some, onward]

theorem neutral_articleCalls (typeText : String) : Neutral (articleCalls typeText) := by
  unfold articleCalls
  exact .append (.append (.character 'a') (.ite (.character 'n') .nil))
    (.of_plain (by simp [Call.isPlain]))

/-- The values of an enumeration are written in calls that nest. -/
theorem neutral_valuesCalls
    (voice : Voice)
    (typeText : String)
    (enumerators : List Enumerator) :
    Neutral (valuesCalls voice typeText enumerators) := by
  unfold valuesCalls
  refine .ite ?_ (.ite .nil ?_)
  · exact .append (.append (.of_plain (by simp [Call.isPlain])) (neutral_articleCalls _))
      (.text _)
  · refine .append (.append (.append (.text _) (neutral_articleCalls _)) (.text _)) ?_
    exact nestAll_enumeratorCalls voice _ false _

/-- The description of an identifier is written in calls that nest. -/
theorem neutral_identifierCalls
    (voice : Voice)
    (enums : EnumStore)
    (comment : Option String)
    (manner : Manner)
    (spec : Spec) :
    Neutral (identifierCalls voice enums comment manner spec) := by
  unfold identifierCalls
  split
  · exact neutral_proseCalls voice manner comment
  · refine .append (.ite (.append ?_ (.of_plain (by simp [Call.isPlain]))) .nil) ?_
    · exact neutral_proseCalls voice manner comment
    · exact neutral_valuesCalls voice _ _

/-- An entry stands in a tag list and leaves it open. -/
theorem nestAll_parameterEntry
    (voice : Voice)
    (enums : EnumStore)
    (layout : Layout)
    (function : String)
    (parameter : Parameter)
    (outer : List Bracket) :
    nestAll (.tagList :: outer) (parameterEntry voice enums layout function parameter) =
      some (.tagList :: outer) := by
  have described := neutral_identifierCalls voice enums parameter.comment .paragraph
    parameter.spec
  unfold parameterEntry
  cases parameter.duplicate <;>
  · simp only [if_true, Bool.false_eq_true, if_false, List.append_assoc, nestAll, Call.nest,
      Bracket.replace, Bracket.close, Option.map_some, Option.bind_some, List.cons_append,
      List.nil_append]
    rw [(neutral_parameterCalls layout parameter).nestAll_append_left]
    simp only [nestAll, Call.nest, Bracket.close, if_true, Option.bind_some]
    exact described _

/-- The descriptions of parameters stand in listings that are closed. -/
theorem neutral_parameterDescriptions
    (voice : Voice)
    (enums : EnumStore)
    (options : Options)
    (function : String)
    (parameters : List Parameter) :
    Neutral (parameterDescriptions voice enums options function parameters) := by
  intro outer
  have entries (listed : List Parameter) :
      nestAll (.tagList :: outer)
          (listed.flatMap (parameterEntry voice enums options.prototype function)) =
        some (.tagList :: outer) := by
    induction listed with
    | nil => rfl
    | cons parameter listed hypothesis =>
        rw [List.flatMap_cons, nestAll_append, nestAll_parameterEntry, Option.bind_some,
          hypothesis]
  unfold parameterDescriptions
  split
  · rfl
  · simp only [List.cons_append, List.nil_append, nestAll, Call.nest, Option.bind_some]
    rw [nestAll_append, entries, Option.bind_some]
    rfl

/-! ## Sections -/

/-- Items with separators nest if the items and the separator do. -/
theorem neutral_separated
    {α : Type}
    {separator : List Call}
    {calls : α -> List Call}
    (between : Neutral separator)
    (each : ∀ item, Neutral (calls item))
    (items : List α) :
    Neutral (separated separator calls items) :=
  separated_induction .nil .append between each items

theorem neutral_nameCalls (names : List String) (terse : String) :
    Neutral (nameCalls names terse) := by
  unfold nameCalls
  refine .append (.append (.of_plain (by simp [Call.isPlain])) ?_)
    (.of_plain (by simp [Call.isPlain]))
  exact neutral_separated (.text _) (fun name => .of_plain (by simp [Call.isPlain])) names

/-- The synopsis of a page is written in calls that nest. -/
theorem neutral_synopsisCalls (options : Options) (page : ManualPage) :
    Neutral (synopsisCalls options page) := by
  unfold synopsisCalls
  refine .append (.append (.append (.append (.append ?_ ?_) (.text _)) ?_) ?_) (.text _)
  · exact neutral_layoutCalls _
  · exact .ite (.text _) .nil
  · exact neutral_layoutCalls _
  · exact neutral_declaratorCalls _ _ _

theorem neutral_includeCalls (name : String) : Neutral (includeCalls name) := by
  unfold includeCalls
  refine .append (.append (.append (.append (.text _) ?_) (.text _)) ?_)
    (.of_plain (by simp [Call.isPlain]))
  · exact .ite .nil (.character _)
  · exact .ite .nil (.character _)

theorem neutral_headerIncludeCalls (headerPrefix : Option String) (file : String) :
    Neutral (headerIncludeCalls headerPrefix file) := by
  unfold headerIncludeCalls
  refine .append (.append (.text _) ?_) (.of_plain (by simp [Call.isPlain]))
  cases headerPrefix with
  | none => exact .nil
  | some directory => exact .of_plain (by simp [Call.isPlain])

/-- The synopsis of all pages is written in calls that nest. -/
theorem neutral_synopsisSection
    (options : Options)
    (first : ManualPage)
    (pages : List ManualPage) :
    Neutral (synopsisSection options first pages) := by
  intro opened
  have includes : Neutral (options.includes.flatMap includeCalls) :=
    .flatMap fun name _ => neutral_includeCalls name
  have blank : Neutral [.blankLine] := .of_plain (by simp [Call.isPlain])
  have prototypes := neutral_separated blank (neutral_synopsisCalls options) pages
  unfold synopsisSection
  simp only [List.append_assoc, List.cons_append, List.nil_append, nestAll, Call.nest,
    Option.bind_some]
  rw [includes.nestAll_append_left, Neutral.nestAll_append_left ?header,
    (Neutral.ite blank .nil).nestAll_append_left, prototypes.nestAll_append_left]
  · rfl
  · split
    · exact neutral_headerIncludeCalls _ _
    · exact .nil

/-- The section of parameters is written in calls that nest. -/
theorem neutral_parametersSection (context : Context) (pages : List ManualPage) :
    Neutral (parametersSection context pages) := by
  unfold parametersSection
  refine .append (.of_plain (by simp [Call.isPlain])) (.flatMap fun page _ => ?_)
  exact .ite (neutral_parameterDescriptions _ _ _ _ _) .nil

theorem neutral_singleDescription (context : Context) (terse : String) (member : Member) :
    Neutral (singleDescription context terse member) := by
  unfold singleDescription
  exact .ite (neutral_identifierCalls _ _ _ _ _) (Prose.neutral_paragraph _ _)

theorem neutral_groupedDescription (context : Context) (member : Member) :
    Neutral (groupedDescription context member) := by
  unfold groupedDescription
  refine .ite (.cons rfl (neutral_identifierCalls _ _ _ _ _)) ?_
  split
  · exact .cons rfl (Prose.neutral_paragraph _ _)
  · exact .nil

/-- The section of returned values is written in calls that nest. -/
theorem neutral_returnsSection (context : Context) (grouped : Bool) (members : List Member) :
    Neutral (returnsSection context grouped members) := by
  unfold returnsSection
  refine .append (.of_plain (by simp [Call.isPlain])) (.flatMap fun member _ => ?_)
  refine .ite (.append (.ite (.of_plain (by simp [Call.isPlain])) .nil) ?_) .nil
  exact neutral_identifierCalls _ _ _ _ _

theorem neutral_laterSections (voice : Voice) (heading : String) (later : List Member) :
    Neutral (laterSections voice heading later) :=
  .flatMap fun _ _ => .flatMap fun _ _ => .cons rfl (Prose.neutral_paragraph _ _)

/-- The sections of a member are written in calls that nest. -/
theorem neutral_memberSections
    (options : Options)
    (voice : Voice)
    (grouped : Bool)
    (member : Member)
    (later : List Member)
    (done here : List String)
    (sections : List (String × Option String)) :
    Neutral (memberSections options voice grouped member later done here sections).1 := by
  induction sections generalizing here with
  | nil => exact .nil
  | cons item rest hypothesis =>
      obtain ⟨heading, text⟩ := item
      unfold memberSections
      cases text with
      | none => exact hypothesis here
      | some body =>
          dsimp only
          split
          · exact hypothesis here
          refine .append (.append (.append (.append ?_ ?_) ?_) ?_) (hypothesis _)
          · exact .of_plain (by simp [Call.isPlain])
          · exact .ite (.of_plain (by simp [Call.isPlain])) .nil
          · exact Prose.neutral_paragraph _ _
          · exact .ite (neutral_laterSections _ _ _) .nil

/-- The named sections of a page are written in calls that nest. -/
theorem neutral_namedSections
    (options : Options)
    (voice : Voice)
    (grouped : Bool)
    (done : List String)
    (members : List Member) :
    Neutral (namedSections options voice grouped done members) := by
  induction members generalizing done with
  | nil => exact .nil
  | cons member later hypothesis =>
      exact (neutral_memberSections _ _ _ _ _ _ _ _).append (hypothesis _)

theorem neutral_seeAlsoSection (names : List String) : Neutral (seeAlsoSection names) := by
  unfold seeAlsoSection
  refine .ite .nil (.append (.append (.of_plain (by simp [Call.isPlain])) ?_) (.character _))
  exact neutral_separated (.text _) (fun name => .of_plain (by simp [Call.isPlain])) names

/-! ## Whole pages -/

/-- Sections can stand anywhere. -/
theorem Sections.neutral
    {context : Context}
    {calls : List Call}
    (sections : Sections context calls) :
    Neutral calls := by
  induction sections with
  | nothing => exact .nil
  | append _ _ left right => exact left.append right
  | synopsis first pages => exact neutral_synopsisSection _ first pages
  | parameters pages => exact neutral_parametersSection context pages
  | description => exact .of_plain (by simp [Call.isPlain])
  | described terse member => exact neutral_singleDescription context terse member
  | describedInGroup member => exact neutral_groupedDescription context member
  | returns grouped members => exact neutral_returnsSection context grouped members
  | named grouped members => exact neutral_namedSections _ _ grouped [] members
  | seeAlso names => exact neutral_seeAlsoSection names

/-- The calls of every page are well nested: every bracket is closed by its match and
none is left open, and every call stands where it can. -/
theorem compose_wellNested
    (context : Context)
    (pages : List ManualPage)
    (base : Nat)
    (title : Option String)
    (manualSection : String) :
    nestAll [] (compose context pages base title manualSection).2 = some [] ∧
      ∀ before call after,
        (compose context pages base title manualSection).2 = before ++ call :: after ->
          ∃ opened, nestAll [] before = some opened ∧ call.Placed opened := by
  have nested : nestAll [] (compose context pages base title manualSection).2 = some [] := by
    obtain ⟨header, names, terse, sections, calls, -, -, isSections⟩ :=
      compose_eq_sections context pages base title manualSection
    rw [calls, List.append_assoc, List.append_assoc]
    rw [List.singleton_append, nestAll, Call.nest, List.isEmpty_nil, if_pos rfl,
      Option.bind_some, (neutral_nameCalls names terse).nestAll_append_left,
      isSections.neutral.nestAll_append_left]
    cases context.options.embeddable <;> rfl
  refine ⟨nested, ?_⟩
  intro before call after split
  rw [split] at nested
  obtain ⟨opened, next, read, placed, -⟩ := nest_of_nestAll_append nested
  exact ⟨opened, read, Call.placed_of_nest placed⟩

end Page
end DeclManual
