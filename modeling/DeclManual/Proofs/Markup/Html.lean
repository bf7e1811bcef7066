import DeclManual.Markup.Writer
import DeclManual.Page.Compose
import Mathlib.Data.List.Infix

/-!
# User text adds no markup to HTML

A page in HTML is made of two kinds of pieces: literals of the format, and user text
whose markup characters are written as entities.  No user text, wherever it comes from,
holds an angle bracket or a double quote when it is written, and undoing the entities
gives it back.  So every angle bracket belongs to a literal, and the value of a
reference ends at the quote that the format writes after it.
-/

namespace DeclManual
namespace Markup
namespace Html

/-! ## Entities -/

/-- Undoes the four entities. -/
def unescape : List Char -> List Char
  | '&' :: 'l' :: 't' :: ';' :: rest => '<' :: unescape rest
  | '&' :: 'g' :: 't' :: ';' :: rest => '>' :: unescape rest
  | '&' :: 'a' :: 'm' :: 'p' :: ';' :: rest => '&' :: unescape rest
  | '&' :: 'q' :: 'u' :: 'o' :: 't' :: ';' :: rest => '"' :: unescape rest
  | c :: rest => c :: unescape rest
  | [] => []

theorem unescape_cons
    {c : Char}
    (noEntity : c ≠ '&')
    (rest : List Char) :
    unescape (c :: rest) = c :: unescape rest := by
  conv_lhs => unfold unescape
  split <;> simp_all

theorem unescape_escape_append (c : Char) (rest : List Char) :
    unescape (escape c ++ rest) = c :: unescape rest := by
  unfold escape
  split
  · rfl
  · rfl
  · rfl
  · rfl
  · rename_i noEntity _
    exact unescape_cons noEntity rest

/-- Undoing the entities of an escaped text gives the text back. -/
theorem unescape_escape (text : List Char) : unescape (text.flatMap escape) = text := by
  induction text with
  | nil => rfl
  | cons c rest hypothesis =>
      rw [List.flatMap_cons, unescape_escape_append, hypothesis]

/-- A character that is no angle bracket and no double quote. -/
def IsClean (c : Char) : Prop :=
  c ≠ '<' ∧ c ≠ '>' ∧ c ≠ '"'

instance : DecidablePred IsClean :=
  fun c => inferInstanceAs (Decidable (c ≠ '<' ∧ c ≠ '>' ∧ c ≠ '"'))

/-- No written character has a meaning in the markup. -/
theorem isClean_of_mem_escape
    {c written : Char}
    (member : written ∈ escape c) :
    IsClean written := by
  have entity {name : List Char} (clean : (name.all fun letter => IsClean letter) = true)
      (inName : written ∈ name) : IsClean written :=
    of_decide_eq_true (List.all_eq_true.1 clean written inName)
  unfold escape at member
  split at member
  · exact entity (by decide) member
  · exact entity (by decide) member
  · exact entity (by decide) member
  · exact entity (by decide) member
  · rename_i noLess noGreater _ noQuote
    rw [List.mem_singleton.1 member]
    exact ⟨noLess, noGreater, noQuote⟩

/-- No character of an escaped text has a meaning in the markup. -/
theorem isClean_of_mem_flatMap_escape
    {text : List Char}
    {written : Char}
    (member : written ∈ text.flatMap escape) :
    IsClean written :=
  have ⟨_, _, inEntity⟩ := List.mem_flatMap.1 member
  isClean_of_mem_escape inEntity

/-! ## Pieces -/

/-- The literal that opens the value of a reference. -/
def referenceStart : String := "<a href=\""

/-- The other literals of the format: its tags, its banner and the marks that it writes
by itself. -/
def plainLiterals : List String :=
  ["<!-- ", "<!-- WARNING! THIS FILE WAS GENERATED AUTOMATICALLY BY ", programName, "! -->\n",
    "<!-- DO NOT EDIT! CHANGES MADE TO THIS FILE WILL BE LOST! -->\n",
    "<html>\n<head>\n<title>", "</title>\n</head>\n<body>\n", "</body>\n</html>\n",
    "<h1>", "</h1>\n", "<h2>", "</h2>\n", "<br>\n", "<p>\n", "<pre>", "</pre>\n",
    "<code>", "</code>", "<em>", "</em>", " (<em>", "</em>)",
    "<dl>\n", "</dl>\n", "<dt>", "\n<dd>", "<ul>\n", "</ul>\n", "\n</ul>\n", "<li>",
    "<!--#include virtual=\"", "\" -->\n", "\">", "</a>", "-", ".", "\n", "\t"]

/-- The literals of the format. -/
def literals : List String :=
  referenceStart :: plainLiterals

/-- The user texts among pieces. -/
def userTexts (pieces : List Piece) : List String :=
  pieces.filterMap fun
    | .raw _ => none
    | .escaped text => some text

theorem userTexts_append (first second : List Piece) :
    userTexts (first ++ second) = userTexts first ++ userTexts second :=
  List.filterMap_append

theorem writePieces_append (escape : Char -> List Char) (first second : List Piece) :
    writePieces escape (first ++ second) =
      writePieces escape first ++ writePieces escape second :=
  List.flatMap_append

/-- Between literals, undoing the entities gives back what was to be written. -/
theorem unescape_writePieces
    {run : List Piece}
    (noLiteral : ∀ literal, .raw literal ∉ run) :
    unescape (writePieces escape run) = (userTexts run).flatMap String.toList := by
  have written : writePieces escape run =
      ((userTexts run).flatMap String.toList).flatMap escape := by
    induction run with
    | nil => rfl
    | cons piece rest hypothesis =>
        have others := hypothesis fun literal later =>
          noLiteral literal (List.mem_cons_of_mem piece later)
        cases piece with
        | raw literal => exact absurd List.mem_cons_self (noLiteral literal)
        | escaped text =>
            rw [← List.singleton_append, writePieces_append, others, userTexts_append,
              List.flatMap_append, List.flatMap_append]
            congr 1
            simp [writePieces, Piece.write, userTexts]
  rw [written, unescape_escape]

/-- Whether every literal among pieces is one of the format's that opens no reference. -/
def isPlain (pieces : List Piece) : Bool :=
  pieces.all fun
    | .raw literal => plainLiterals.contains literal
    | .escaped _ => true

theorem isPlain_append (first second : List Piece) :
    isPlain (first ++ second) = (isPlain first && isPlain second) :=
  List.all_append

/-- Every literal of plain pieces is listed. -/
theorem mem_plainLiterals
    {pieces : List Piece}
    (plain : isPlain pieces = true)
    {literal : String}
    (member : .raw literal ∈ pieces) :
    literal ∈ plainLiterals :=
  List.contains_iff_mem.1 (List.all_eq_true.1 plain _ member)

/-! ## Calls -/

/-- The texts that every call but a table entry hands over to be written, in the order in
which they are written. -/
def basicTexts (settings : Settings) : Call -> List String
  | .header page => if settings.embeddable then [] else [page.name, " ", " ", page.terse]
  | .heading name | .subheading name | .name name => [name]
  | .listEntry name | .includeFile name => [name]
  | .text text | .code text | .emphasized text | .tagEntryEndExtra text => [text]
  | .character c => [String.singleton c]
  | .nameHeading => ["NAME"]
  | .terseSeparator => [" ", " "]
  | .reference name => [name, settings.manualSection, name]
  | _ => []

/-- The texts that a call hands over to be written.  The description of a table entry is
prose, which is handed over character by character when it is fixed up. -/
def callTexts (settings : Settings) : Call -> List String
  | .tableEntry name description =>
    name ::
      match description with
      | some text =>
        " " :: " " ::
          if settings.fixupComments then
            (Prose.description (settings.voice .html) text).flatMap (basicTexts settings)
          else [text]
      | none => []
  | call => basicTexts settings call

/-- The basic pieces of a call hold its texts. -/
theorem userTexts_basic (settings : Settings) (inCode : Bool) (call : Call) :
    userTexts (basic settings inCode call) = basicTexts settings call := by
  cases call with
  | header page =>
      show userTexts (if settings.embeddable then _ else _) = if settings.embeddable then _ else _
      split <;> rfl
  | breakLine => cases inCode <;> rfl
  | blankLine => cases inCode <;> rfl
  | fileEnd =>
      show userTexts (if settings.embeddable then _ else _) = _
      split <;> rfl
  | _ => rfl

/-- The basic pieces of calls hold their texts. -/
theorem userTexts_basicCalls (settings : Settings) (inCode : Bool) (calls : List Call) :
    userTexts (calls.flatMap (basic settings inCode)) = calls.flatMap (basicTexts settings) := by
  induction calls with
  | nil => rfl
  | cons call rest hypothesis =>
      rw [List.flatMap_cons, List.flatMap_cons, userTexts_append, userTexts_basic, hypothesis]

/-- Only table entries are composed of other calls. -/
theorem pieces_eq_basic
    (settings : Settings)
    (inCode : Bool)
    {call : Call}
    (noEntry : ∀ name description, call ≠ .tableEntry name description) :
    pieces settings inCode call = basic settings inCode call := by
  unfold pieces
  split
  · exact absurd rfl (noEntry _ _)
  · rfl

/-- A call writes the texts that it hands over and no other. -/
theorem userTexts_pieces (settings : Settings) (inCode : Bool) (call : Call) :
    userTexts (pieces settings inCode call) = callTexts settings call := by
  unfold callTexts
  split
  · rename_i name description
    unfold pieces
    cases description with
    | none => rfl
    | some text =>
        cases settings.fixupComments with
        | false => rfl
        | true =>
            simp only [if_true, userTexts_append, userTexts_basicCalls]
            exact congrArg (name :: " " :: " " :: ·) (List.append_nil _)
  · rename_i noEntry
    rw [pieces_eq_basic settings inCode fun name description => noEntry name description,
      userTexts_basic]

/-- The basic pieces of a call are plain. -/
theorem isPlain_basic
    (settings : Settings)
    (inCode : Bool)
    {call : Call}
    (noReference : ∀ name, call ≠ .reference name) :
    isPlain (basic settings inCode call) = true := by
  cases call with
  | header page =>
      show isPlain (if settings.embeddable then _ else _) = true
      split
      · rfl
      · rfl
  | breakLine => cases inCode <;> rfl
  | blankLine => cases inCode <;> rfl
  | fileEnd =>
      show isPlain (if settings.embeddable then _ else _) = true
      split <;> rfl
  | reference name => exact absurd rfl (noReference name)
  | _ => rfl

/-- Prose is written character by character, with line breaks between. -/
theorem not_mem_description (voice : Prose.Voice) (text name : String) :
    .reference name ∉ Prose.description voice text := by
  unfold Prose.description
  generalize ({} : Prose.DescriptionState) = state
  fun_induction Prose.describeFrom voice state text.toList <;> simp_all

/-- Only a reference opens the value of a reference. -/
theorem isPlain_pieces
    (settings : Settings)
    (inCode : Bool)
    {call : Call}
    (noReference : ∀ name, call ≠ .reference name) :
    isPlain (pieces settings inCode call) = true := by
  by_cases entry : ∃ name description, call = .tableEntry name description
  · obtain ⟨name, description, rfl⟩ := entry
    have prose (text : String) :
        isPlain ((Prose.description (settings.voice .html) text).flatMap
          (basic settings inCode)) = true := by
      refine List.all_flatMap.trans (List.all_eq_true.2 fun call member => ?_)
      exact isPlain_basic settings inCode fun other same =>
        not_mem_description _ text other (same ▸ member)
    unfold pieces
    cases description with
    | none => rfl
    | some text =>
        simp only [isPlain_append]
        cases settings.fixupComments with
        | false => rfl
        | true => exact (congrArg (fun plain => _ && (_ && plain) && _) (prose text)).trans rfl
  · rw [pieces_eq_basic settings inCode fun name description same =>
      entry ⟨name, description, same⟩]
    exact isPlain_basic settings inCode noReference

/-! ## Runs of calls -/

/-- The pieces of calls one after another. -/
def piecesAll (settings : Settings) : (inCode : Bool) -> List Call -> List Piece
  | _, [] => []
  | inCode, call :: rest =>
    pieces settings inCode call ++ piecesAll settings (inCodeAfter inCode call) rest

/-- A writer of this format writes the pieces of its calls. -/
theorem writeAll_eq (settings : Settings) (inCode : Bool) (calls : List Call) :
    (Writer.writeAll { settings, memory := .html inCode } calls).2 =
      writePieces escape (piecesAll settings inCode calls) := by
  induction calls generalizing inCode with
  | nil => rfl
  | cons call rest hypothesis =>
      unfold Writer.writeAll piecesAll
      rw [writePieces_append, ← hypothesis]
      rfl

/-- The pieces of calls hold their texts in order. -/
theorem userTexts_piecesAll (settings : Settings) (inCode : Bool) (calls : List Call) :
    userTexts (piecesAll settings inCode calls) = calls.flatMap (callTexts settings) := by
  induction calls generalizing inCode with
  | nil => rfl
  | cons call rest hypothesis =>
      rw [piecesAll, userTexts_append, userTexts_pieces, hypothesis, List.flatMap_cons]

/-- The literals of a call are among those of the format. -/
theorem mem_literals_of_mem_pieces
    {settings : Settings}
    {inCode : Bool}
    {call : Call}
    {literal : String}
    (member : .raw literal ∈ pieces settings inCode call) :
    literal ∈ literals := by
  by_cases reference : ∃ name, call = .reference name
  · obtain ⟨name, rfl⟩ := reference
    rcases List.mem_cons.1 member with same | later
    · exact Piece.raw.inj same ▸ List.mem_cons_self
    · exact List.mem_cons_of_mem _ (mem_plainLiterals rfl later)
  · have plain := isPlain_pieces settings inCode fun name same => reference ⟨name, same⟩
    exact List.mem_cons_of_mem _ (mem_plainLiterals plain member)

/-- The literals of calls are among those of the format. -/
theorem mem_literals_of_mem_piecesAll
    {settings : Settings}
    {inCode : Bool}
    {calls : List Call}
    {literal : String}
    (member : .raw literal ∈ piecesAll settings inCode calls) :
    literal ∈ literals := by
  induction calls generalizing inCode with
  | nil => exact absurd member List.not_mem_nil
  | cons call rest hypothesis =>
      rcases List.mem_append.1 member with here | later
      · exact mem_literals_of_mem_pieces here
      · exact hypothesis later

/-! ## References -/

/-- The pieces of a reference after the literal that opens its value. -/
def referenceRest (settings : Settings) (name : String) : List Piece :=
  [.escaped name, .raw ".", .escaped settings.manualSection, .raw "\">", .escaped name, .raw "</a>"]

theorem pieces_eq_append_cons
    {settings : Settings}
    {inCode : Bool}
    {call : Call}
    {before after : List Piece}
    (split : pieces settings inCode call = before ++ .raw referenceStart :: after) :
    ∃ name, call = .reference name ∧ after = referenceRest settings name := by
  have notPlain : referenceStart ∉ plainLiterals := by decide
  by_cases reference : ∃ name, call = .reference name
  · obtain ⟨name, rfl⟩ := reference
    refine ⟨name, rfl, ?_⟩
    change .raw referenceStart :: referenceRest settings name = _ at split
    cases before with
    | nil => exact (List.cons.inj split).2.symm
    | cons piece others =>
        have later : .raw referenceStart ∈ referenceRest settings name := by
          rw [(List.cons.inj split).2]
          exact List.mem_append_right _ List.mem_cons_self
        exact absurd (mem_plainLiterals rfl later) notPlain
  · have plain := isPlain_pieces settings inCode fun name same => reference ⟨name, same⟩
    have member : .raw referenceStart ∈ pieces settings inCode call := by
      rw [split]
      exact List.mem_append_right _ List.mem_cons_self
    exact absurd (mem_plainLiterals plain member) notPlain

/-- Wherever the value of a reference is opened, a call asked for that reference. -/
theorem piecesAll_eq_append_cons
    {settings : Settings}
    {inCode : Bool}
    {calls : List Call}
    {before after : List Piece}
    (split : piecesAll settings inCode calls = before ++ .raw referenceStart :: after) :
    ∃ name rest, .reference name ∈ calls ∧ after = referenceRest settings name ++ rest := by
  induction calls generalizing inCode before with
  | nil => exact absurd split (by simp [piecesAll])
  | cons call others hypothesis =>
      rw [piecesAll, List.append_eq_append_iff] at split
      rcases split with ⟨skipped, -, rest⟩ | ⟨kept, here, rest⟩
      · obtain ⟨name, after, member, same⟩ := hypothesis rest
        exact ⟨name, after, List.mem_cons_of_mem call member, same⟩
      · cases kept with
        | nil =>
            obtain ⟨name, after, member, same⟩ := @hypothesis _ [] rest.symm
            exact ⟨name, after, List.mem_cons_of_mem call member, same⟩
        | cons piece tail =>
            obtain ⟨same, rest⟩ := List.cons.inj rest
            rw [← same] at here
            obtain ⟨name, rfl, same⟩ := pieces_eq_append_cons here
            exact ⟨name, _, List.mem_cons_self, rest.trans (congrArg (· ++ _) same)⟩

/-- Where an angle bracket in a literal opens a tag that starts in `a`, it is the literal
that opens the value of a reference. -/
theorem opens_reference :
    ∀ literal ∈ literals, ∀ tail ∈ literal.toList.tails, tail.head? = some '<' ->
      tail[1]? ≠ none ∧
        (tail[1]? = some 'a' -> literal = referenceStart ∧ tail = literal.toList) := by
  decide +kernel

/-- No text but the literal itself reads as the literal that opens the value of a
reference. -/
theorem writePieces_eq_append
    {pieces : List Piece}
    (known : ∀ literal, .raw literal ∈ pieces -> literal ∈ literals)
    {before after : List Char}
    (split : writePieces escape pieces = before ++ '<' :: 'a' :: after) :
    ∃ first second, pieces = first ++ .raw referenceStart :: second ∧
      '<' :: 'a' :: after = referenceStart.toList ++ writePieces escape second := by
  induction pieces generalizing before with
  | nil => exact absurd split (by simp [writePieces])
  | cons piece others hypothesis =>
      have later {before : List Char}
          (split : writePieces escape others = before ++ '<' :: 'a' :: after) :
          ∃ first second, piece :: others = first ++ .raw referenceStart :: second ∧
            '<' :: 'a' :: after = referenceStart.toList ++ writePieces escape second := by
        obtain ⟨first, second, same, rest⟩ := hypothesis
          (fun literal member => known literal (List.mem_cons_of_mem piece member)) split
        exact ⟨piece :: first, second, congrArg (piece :: ·) same, rest⟩
      rw [← List.singleton_append, writePieces_append, List.append_eq_append_iff] at split
      rcases split with ⟨skipped, -, rest⟩ | ⟨kept, here, rest⟩
      · exact later rest
      cases kept with
      | nil => exact @later [] rest.symm
      | cons opening tail =>
          obtain ⟨rfl, afterBracket⟩ := List.cons.inj rest
          cases piece with
          | escaped text =>
              have bracket : '<' ∈ text.toList.flatMap escape := by
                have member : '<' ∈ writePieces escape [.escaped text] :=
                  here ▸ List.mem_append_right _ List.mem_cons_self
                simpa [writePieces, Piece.write] using member
              exact absurd rfl (isClean_of_mem_flatMap_escape bracket).1
          | raw literal =>
              have written : literal.toList = before ++ '<' :: tail := by
                simpa [writePieces, Piece.write] using here
              obtain ⟨longer, opens⟩ := opens_reference literal
                (known literal List.mem_cons_self) ('<' :: tail)
                ((List.mem_tails _ _).2 ⟨before, written.symm⟩) rfl
              cases tail with
              | nil => exact absurd rfl longer
              | cons second tail =>
                  obtain ⟨rfl, -⟩ := List.cons.inj afterBracket
                  obtain ⟨rfl, whole⟩ := opens rfl
                  exact ⟨[], others, rfl, whole ▸ rest⟩

/-! ## Pages -/

/-- A text is literals of the format and user text, handed over by calls, that adds no
markup to them. -/
structure Faithful
    (settings : Settings)
    (calls : List Call)
    (text : List Char)
    (pieces : List Piece) : Prop where
  /-- The text is its pieces one after another. -/
  text_eq : text = writePieces escape pieces
  /-- What is not escaped belongs to the format. -/
  literal : ∀ literal, .raw literal ∈ pieces -> literal ∈ literals
  /-- What is escaped is what the calls hand over, in their order. -/
  userTexts_eq : userTexts pieces = calls.flatMap (callTexts settings)
  /-- No angle bracket and no double quote comes from user text. -/
  clean : ∀ user, .escaped user ∈ pieces -> ∀ c ∈ user.toList.flatMap escape, IsClean c
  /-- Undoing the entities between literals gives back what was handed over there. -/
  unescape_eq : ∀ before run after, pieces = before ++ run ++ after ->
    (∀ literal, .raw literal ∉ run) ->
      unescape (writePieces escape run) = (userTexts run).flatMap String.toList
  /-- The value of every reference ends at the first double quote after it is opened, which
  is the one that the format writes. -/
  reference : ∀ before after, text = before ++ referenceStart.toList ++ after ->
    ∃ name value rest, .reference name ∈ calls ∧
      value = name.toList.flatMap escape ++ '.' :: settings.manualSection.toList.flatMap escape ∧
      '"' ∉ value ∧ after = value ++ "\">".toList ++ rest

/-- The pieces of calls are written faithfully. -/
theorem faithful_piecesAll (settings : Settings) (inCode : Bool) (calls : List Call) :
    Faithful settings calls (Writer.writeAll { settings, memory := .html inCode } calls).2
      (piecesAll settings inCode calls) where
  text_eq := writeAll_eq settings inCode calls
  literal _ := mem_literals_of_mem_piecesAll
  userTexts_eq := userTexts_piecesAll settings inCode calls
  clean _ _ _ := isClean_of_mem_flatMap_escape
  unescape_eq _ _ _ _ := unescape_writePieces
  reference before after split := by
    have opening : referenceStart.toList = '<' :: 'a' :: " href=\"".toList := by decide
    rw [writeAll_eq, List.append_assoc, opening] at split
    obtain ⟨first, second, found, written⟩ :=
      writePieces_eq_append (fun _ => mem_literals_of_mem_piecesAll) split
    obtain ⟨name, rest, member, rfl⟩ := piecesAll_eq_append_cons found
    refine
      ⟨name, _, writePieces escape ([.escaped name, .raw "</a>"] ++ rest), member, rfl, ?_, ?_⟩
    · rw [List.mem_append, List.mem_cons]
      rintro (inName | dot | inSection)
      · exact (isClean_of_mem_flatMap_escape inName).2.2 rfl
      · exact absurd dot (by decide)
      · exact (isClean_of_mem_flatMap_escape inSection).2.2 rfl
    · rw [opening] at written
      refine ((List.append_right_inj ('<' :: 'a' :: _)).1 written).trans ?_
      simp [referenceRest, writePieces, Piece.write]

end Html
end Markup

namespace Page

open Decl
open Markup

/-- No text of a page, of its options or of its comments adds markup to the page. -/
theorem faithful_compose
    (context : Context)
    (pages : List ManualPage)
    (base : Nat)
    (title : Option String)
    (manualSection : String)
    (writer : Writer)
    (selected : writer.memory.format = context.options.format)
    (html : context.options.format = .html) :
    ∃ pieces,
      Html.Faithful writer.settings (compose context pages base title manualSection).2
        (writer.writeAll (compose context pages base title manualSection).2).2 pieces := by
  obtain ⟨settings, memory⟩ := writer
  cases memory with
  | html inCode => exact ⟨_, Html.faithful_piecesAll settings inCode _⟩
  | _ => exact absurd (selected.trans html) OutputFormat.noConfusion

/-- A page whose name and comment would close a reference and open a tag. -/
def scriptedPage : ManualPage where
  spec := { text := some "int" }
  declarator := { Declarator.identifier "\"><script>" with comment := some "</pre><a href=\"x\">" }

/-- A page whose comment holds a script is written faithfully. -/
theorem faithful_compose_scriptedPage :
    let context : Context := { options := { format := .html }, enums := default }
    let writer := Writer.start .html (.ofOptions context.options "")
    let calls := (compose context [default, scriptedPage] 0 none "3").2
    .reference "\"><script>" ∈ calls ∧
      ∃ pieces, Html.Faithful writer.settings calls (writer.writeAll calls).2 pieces :=
  ⟨by decide +kernel, faithful_compose _ _ 0 none "3" (Writer.start .html _) rfl rfl⟩

end Page
end DeclManual
