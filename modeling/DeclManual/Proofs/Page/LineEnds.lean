import DeclManual.Proofs.Page.Sections

/-!
# Sections end their last line

Calls alone tell whether the output stands at the start of a line: a heading or a
newline ends one, a call that only opens or closes a block leaves it where it is, and
anything else may start one.  Every section of a page that begins at the start of a
line also ends at the start of a line.
-/

namespace DeclManual
namespace Markup

/-- Whether output is known to stand at the start of a line after a call.  A comma at
the end of a line does not tell, since a format may join the lines of references. -/
def Call.lineStart (before : Bool) : Call -> Bool
  | .heading _ | .nameHeading | .subheading _ | .blankLine | .tableEnd | .listEnd => true
  | .tagEntryEnd | .tagEntryEndExtra _ => true
  | .breakLine | .codeStart | .codeEnd | .tagListStart | .tagListEnd => before
  | .character c => c == '\n'
  | .text words => words.toList.getLast? == some '\n' && words != ",\n"
  | _ => false

/-- Whether output is known to stand at the start of a line after some calls. -/
def lineStartAfter (before : Bool) (calls : List Call) : Bool :=
  calls.foldl Call.lineStart before

@[simp] theorem lineStartAfter_nil (before : Bool) : lineStartAfter before [] = before := rfl

@[simp] theorem lineStartAfter_cons (before : Bool) (call : Call) (rest : List Call) :
    lineStartAfter before (call :: rest) = lineStartAfter (call.lineStart before) rest := rfl

@[simp] theorem lineStartAfter_append (before : Bool) (first second : List Call) :
    lineStartAfter before (first ++ second) =
      lineStartAfter (lineStartAfter before first) second :=
  List.foldl_append

/-- Calls that end at the start of a line if they begin at one. -/
def EndsLines (calls : List Call) : Prop :=
  lineStartAfter true calls = true

namespace EndsLines

theorem nil : EndsLines [] := rfl

theorem append
    {first second : List Call}
    (left : EndsLines first)
    (right : EndsLines second) :
    EndsLines (first ++ second) := by
  unfold EndsLines
  rw [lineStartAfter_append, left, right]

/-- Whatever stands before a call that ends its line. -/
theorem concat
    (calls : List Call)
    {last : Call}
    (ends : ∀ before, last.lineStart before = true) :
    EndsLines (calls ++ [last]) := by
  unfold EndsLines
  rw [lineStartAfter_append]
  exact ends _

theorem flatMap
    {α : Type}
    {calls : α -> List Call}
    (each : ∀ item, EndsLines (calls item))
    (items : List α) :
    EndsLines (items.flatMap calls) := by
  induction items with
  | nil => exact nil
  | cons item items hypothesis =>
      rw [List.flatMap_cons]
      exact (each item).append hypothesis

theorem ite
    {condition : Prop}
    [Decidable condition]
    {first second : List Call}
    (left : EndsLines first)
    (right : EndsLines second) :
    EndsLines (if condition then first else second) := by
  split
  · exact left
  · exact right

/-- Whatever stands before a text that ends its line. -/
theorem text
    (calls : List Call)
    {words : String}
    (ended : words.toList.getLast? = some '\n')
    (noComma : words ≠ ",\n") :
    EndsLines (calls ++ [.text words]) := by
  refine concat calls fun _ => ?_
  rw [Call.lineStart, ended, bne_iff_ne.2 noComma]
  rfl

theorem heading (name : String) : EndsLines [.heading name] := rfl

theorem subheading (name : String) {calls : List Call} (rest : EndsLines calls) :
    EndsLines (.subheading name :: calls) := rest

end EndsLines
end Markup

namespace Prose

open Markup

/-- A paragraph ends its line, since its last character is a line end. -/
theorem lineStartAfter_paragraph (before : Bool) (voice : Voice) (text : Option String) :
    lineStartAfter before (paragraph voice text) = true := by
  unfold paragraph
  rw [lineStartAfter_append]
  rfl

/-- The last character that a line writes tells whether it ended. -/
theorem lineStartAfter_stepLine
    {fixup before : Bool}
    {sentence : Sentence}
    {last : Char}
    {line : List Char}
    (entered : last = '\n' -> before = true)
    (ended : (stepLine fixup sentence last line).2.1 = '\n') :
    lineStartAfter before (stepLine fixup sentence last line).2.2 = true := by
  induction line generalizing before sentence last with
  | nil => exact entered ended
  | cons c rest hypothesis =>
      unfold stepLine at ended ⊢
      apply hypothesis _ ended
      intro newline
      exact beq_iff_eq.2 newline

/-- What the state of a returns body knows about the line. -/
def ReturnsState.Knows (state : ReturnsState) (lineStart : Bool) : Prop :=
  state.last = '\n' -> lineStart = true

/-- The state of the returned values knows whether a line is open. -/
theorem knows_writeReturnsText
    {fixup before : Bool}
    {state : ReturnsState}
    (knows : state.Knows before)
    (line : List Char) :
    (writeReturnsText fixup state line).1.Knows
      (lineStartAfter before (writeReturnsText fixup state line).2) := by
  have lead : lineStartAfter before
      (if state.last == '\n' then [] else [Call.character '\n']) = true := by
    split
    · rename_i newline
      exact knows (eq_of_beq newline)
    · rfl
  unfold writeReturnsText
  dsimp only
  split
  · intro _
    rw [lineStartAfter_append]
    rfl
  · intro ended
    rw [lineStartAfter_append, lead]
    exact lineStartAfter_stepLine (fun _ => rfl) ended

/-- The state knows whether a line is open after every line of returned values. -/
theorem knows_returnsLine
    {voice : Voice}
    {before : Bool}
    {state : ReturnsState}
    (knows : state.Knows before)
    (line : List Char) :
    (returnsLine voice state line).1.Knows
      (lineStartAfter before (returnsLine voice state line).2) := by
  unfold returnsLine
  split
  · intro _
    rw [lineStartAfter_append]
    rfl
  split
  · dsimp only
    have tagged : lineStartAfter before (closeBeforeTag state ++
        openTag state (line.takeWhile (!endsTag ·))) = true := by
      unfold openTag
      rw [← List.append_assoc, lineStartAfter_append]
      simp [Call.lineStart]
    rw [lineStartAfter_append, tagged]
    exact knows_writeReturnsText (fun _ => rfl) _
  · exact knows_writeReturnsText knows line

/-- The returned values end their last line. -/
theorem lineStartAfter_returnsLines
    {voice : Voice}
    {before : Bool}
    {state : ReturnsState}
    (knows : state.Knows before)
    (lines : List (List Char)) :
    lineStartAfter before (returnsLines voice state lines) = true := by
  induction lines generalizing before state with
  | nil =>
      have closed (calls : List Call) (ended : lineStartAfter before calls = true) :
          lineStartAfter before (calls ++ if state.listStarted then [.tagListEnd] else []) =
            true := by
        rw [lineStartAfter_append, ended]
        split <;> rfl
      apply closed
      split
      · rename_i newline
        exact knows (eq_of_beq newline)
      split <;> rfl
  | cons line rest hypothesis =>
      unfold returnsLines
      dsimp only
      rw [lineStartAfter_append]
      exact hypothesis (knows_returnsLine knows line)

theorem endsLines_returns (voice : Voice) (comment : String) :
    EndsLines (returns voice comment) :=
  lineStartAfter_returnsLines (fun _ => rfl) _

end Prose

namespace Page

open Decl
open Markup
open Prose (Voice)

/-! ## Descriptions of identifiers -/

theorem endsLines_paragraph (voice : Voice) (text : Option String) :
    EndsLines (Prose.paragraph voice text) :=
  Prose.lineStartAfter_paragraph true voice text

/-- Prose ends its lines, in any manner. -/
theorem endsLines_proseCalls (voice : Voice) (manner : Manner) (text : Option String) :
    EndsLines (proseCalls voice manner text) := by
  cases manner with
  | paragraph => exact endsLines_paragraph voice text
  | returns => exact Prose.endsLines_returns voice _

/-- A listing that has been opened ends its last line when it is closed. -/
theorem lineStartAfter_enumeratorCalls
    (voice : Voice)
    (listing : Listing)
    {isOpen before : Bool}
    (known : isOpen = false -> before = true)
    (enumerators : List Enumerator) :
    lineStartAfter before (enumeratorCalls voice listing isOpen enumerators) = true := by
  induction enumerators generalizing isOpen before with
  | nil =>
      unfold enumeratorCalls
      cases isOpen with
      | false => exact known rfl
      | true => cases listing <;> rfl
  | cons enumerator rest hypothesis =>
      unfold enumeratorCalls
      dsimp only
      rw [lineStartAfter_append]
      exact hypothesis (fun closed => by cases closed)

theorem endsLines_valuesCalls
    (voice : Voice)
    (typeText : String)
    (enumerators : List Enumerator) :
    EndsLines (valuesCalls voice typeText enumerators) := by
  unfold valuesCalls
  refine .ite (.text _ (by decide) (by decide)) (.ite .nil ?_)
  exact .append (.text _ (by decide) (by decide))
    (lineStartAfter_enumeratorCalls _ _ (fun _ => rfl) _)

theorem endsLines_identifierCalls
    (voice : Voice)
    (enums : EnumStore)
    (comment : Option String)
    (manner : Manner)
    (spec : Spec) :
    EndsLines (identifierCalls voice enums comment manner spec) := by
  unfold identifierCalls
  split
  · exact endsLines_proseCalls voice manner comment
  · exact .append (.ite (.concat _ fun _ => rfl) .nil) (endsLines_valuesCalls voice _ _)

theorem endsLines_parameterEntry
    (voice : Voice)
    (enums : EnumStore)
    (layout : Layout)
    (function : String)
    (parameter : Parameter) :
    EndsLines (parameterEntry voice enums layout function parameter) := by
  unfold parameterEntry
  refine .append (.concat _ fun _ => ?_) (endsLines_identifierCalls _ _ _ _ _)
  split <;> rfl

/-- The descriptions of parameters end their lines. -/
theorem endsLines_parameterDescriptions
    (voice : Voice)
    (enums : EnumStore)
    (options : Options)
    (function : String)
    (parameters : List Parameter) :
    EndsLines (parameterDescriptions voice enums options function parameters) := by
  unfold parameterDescriptions
  split
  · exact .nil
  · exact .append (.append rfl (.flatMap (endsLines_parameterEntry _ _ _ _) _)) rfl

/-! ## Sections -/

/-- Items with separators end their lines if both do. -/
theorem endsLines_separated
    {α : Type}
    {separator : List Call}
    {calls : α -> List Call}
    (between : EndsLines separator)
    (each : ∀ item, EndsLines (calls item))
    (items : List α) :
    EndsLines (separated separator calls items) :=
  separated_induction .nil .append between each items

theorem endsLines_includeCalls (name : String) : EndsLines (includeCalls name) := by
  have ending : [Call.text "\n", .breakLine] = [.text "\n"] ++ [.breakLine] := rfl
  unfold includeCalls
  rw [ending, ← List.append_assoc]
  exact .append (.text _ (by decide) (by decide)) rfl

theorem endsLines_headerIncludeCalls (headerPrefix : Option String) (file : String) :
    EndsLines (headerIncludeCalls headerPrefix file) := by
  have ending (words : String) :
      [Call.text words, .text ">\n"] = [.text words] ++ [.text ">\n"] := rfl
  unfold headerIncludeCalls
  rw [ending, ← List.append_assoc]
  exact .text _ (by decide) (by decide)

theorem endsLines_synopsisCalls (options : Options) (page : ManualPage) :
    EndsLines (synopsisCalls options page) := by
  unfold synopsisCalls
  exact .text _ (by decide) (by decide)

/-- The synopsis of all pages ends its lines. -/
theorem endsLines_synopsisSection
    (options : Options)
    (first : ManualPage)
    (pages : List ManualPage) :
    EndsLines (synopsisSection options first pages) := by
  unfold synopsisSection
  refine .append (.append (.append (.append (.append rfl ?_) ?_) (.ite rfl .nil)) ?_) rfl
  · exact .flatMap endsLines_includeCalls _
  · split
    · exact endsLines_headerIncludeCalls _ _
    · exact .nil
  · have between : EndsLines [.blankLine] := rfl
    exact endsLines_separated between (endsLines_synopsisCalls options) pages

/-- The section of parameters ends its lines. -/
theorem endsLines_parametersSection (context : Context) (pages : List ManualPage) :
    EndsLines (parametersSection context pages) := by
  unfold parametersSection
  refine .append (.heading _) (.flatMap (fun page => ?_) _)
  exact .ite (endsLines_parameterDescriptions _ _ _ _ _) .nil

theorem endsLines_singleDescription (context : Context) (terse : String) (member : Member) :
    EndsLines (singleDescription context terse member) := by
  unfold singleDescription
  exact .ite (endsLines_identifierCalls _ _ _ _ _) (endsLines_paragraph _ _)

theorem endsLines_groupedDescription (context : Context) (member : Member) :
    EndsLines (groupedDescription context member) := by
  unfold groupedDescription
  refine .ite (.subheading _ (endsLines_identifierCalls _ _ _ _ _)) ?_
  split
  · exact .subheading _ (endsLines_paragraph _ _)
  · exact .nil

/-- The section of returned values ends its lines. -/
theorem endsLines_returnsSection (context : Context) (grouped : Bool) (members : List Member) :
    EndsLines (returnsSection context grouped members) := by
  unfold returnsSection
  refine .append (.heading _) (.flatMap (fun member => ?_) _)
  exact .ite (.append (.ite (.subheading _ .nil) .nil) (endsLines_identifierCalls _ _ _ _ _)) .nil

theorem endsLines_memberSections
    (options : Options)
    (voice : Voice)
    (grouped : Bool)
    (member : Member)
    (later : List Member)
    (done here : List String)
    (sections : List (String × Option String)) :
    EndsLines (memberSections options voice grouped member later done here sections).1 := by
  induction sections generalizing here with
  | nil => exact .nil
  | cons item rest hypothesis =>
      obtain ⟨heading, text⟩ := item
      unfold memberSections
      cases text with
      | none => exact hypothesis here
      | some body =>
          dsimp only
          split
          · exact hypothesis here
          refine .append (.append (.append (.append ?_ ?_) ?_) ?_) (hypothesis _)
          · exact .heading _
          · exact .ite (.subheading _ .nil) .nil
          · exact endsLines_paragraph _ _
          · refine .ite (.flatMap (fun member => .flatMap (fun item => ?_) _) _) .nil
            exact .subheading _ (endsLines_paragraph _ _)

/-- The named sections of a page end their lines. -/
theorem endsLines_namedSections
    (options : Options)
    (voice : Voice)
    (grouped : Bool)
    (done : List String)
    (members : List Member) :
    EndsLines (namedSections options voice grouped done members) := by
  induction members generalizing done with
  | nil => exact .nil
  | cons member later hypothesis =>
      exact (endsLines_memberSections _ _ _ _ _ _ _ _).append (hypothesis _)

theorem endsLines_nameCalls (names : List String) (terse : String) :
    EndsLines (nameCalls names terse) := by
  unfold nameCalls EndsLines
  rw [lineStartAfter_append]
  rfl

theorem endsLines_seeAlsoSection (names : List String) : EndsLines (seeAlsoSection names) := by
  unfold seeAlsoSection
  exact .ite .nil (.concat _ fun _ => rfl)

/-- Sections end their last line. -/
theorem Sections.endsLines
    {context : Context}
    {calls : List Call}
    (sections : Sections context calls) :
    EndsLines calls := by
  induction sections with
  | nothing => exact .nil
  | append _ _ left right => exact left.append right
  | synopsis first pages => exact endsLines_synopsisSection _ first pages
  | parameters pages => exact endsLines_parametersSection context pages
  | description => exact .heading _
  | described terse member => exact endsLines_singleDescription context terse member
  | describedInGroup member => exact endsLines_groupedDescription context member
  | returns grouped members => exact endsLines_returnsSection context grouped members
  | named grouped members => exact endsLines_namedSections _ _ grouped [] members
  | seeAlso names => exact endsLines_seeAlsoSection names

end Page
end DeclManual
