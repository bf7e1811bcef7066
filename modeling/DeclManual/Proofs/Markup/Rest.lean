import DeclManual.Proofs.Markup.Autodoc

/-!
# Writers between pages

A writer that has written a page remembers something of it, but nothing that shows in
the next page: a header and the NAME heading bring it to the state in which they would
have left a fresh writer.
-/

namespace DeclManual
namespace Markup

/-- A page as calls: a header, the NAME section and further sections, and the end of the
file unless the page is embedded. -/
structure IsPage (embeddable : Bool) (header : Header) (body calls : List Call) : Prop where
  calls_eq :
    calls = .header header :: .nameHeading :: body ++ if embeddable then [] else [.fileEnd]
  neutral : Neutral body
  endsLines : EndsLines body

namespace IsPage

variable {embeddable : Bool} {header : Header} {body calls : List Call}

theorem nestAll_eq (page : IsPage embeddable header body calls) :
    nestAll [] calls = some [] := by
  rw [page.calls_eq]
  change nestAll [] (body ++ _) = _
  rw [page.neutral.nestAll_append_left]
  cases embeddable <;> rfl

end IsPage

/-! ## What calls leave in the memory of a format -/

/-- Whether a prototype is open after a call, as two of the formats remember it. -/
theorem Latex.verbatimAfter_eq : Latex.verbatimAfter = Html.inCodeAfter := by
  funext verbatim call
  cases call <;> rfl

theorem Html.code_of_inCodeAfter
    {call : Call}
    {opened next : List Bracket}
    {inCode : Bool}
    (known : inCode = true -> 0 < opened.count .code)
    (nested : call.nest opened = some next)
    (after : Html.inCodeAfter inCode call = true) :
    0 < next.count .code := by
  cases call with
  | codeStart =>
      obtain rfl := Option.some_inj.1 nested
      rw [List.count_cons_self]
      exact Nat.succ_pos _
  | codeEnd => cases after
  | _ =>
      exact Nat.lt_of_lt_of_le (known after)
        (Call.count_le_of_nest nested (fun _ => nofun) nofun)

/-- Output stands inside a prototype only while one is open. -/
theorem Html.code_of_foldl_inCodeAfter
    {calls : List Call}
    {opened final : List Bracket}
    {inCode : Bool}
    (known : inCode = true -> 0 < opened.count .code)
    (nested : nestAll opened calls = some final)
    (after : calls.foldl Html.inCodeAfter inCode = true) :
    0 < final.count .code := by
  induction calls generalizing opened inCode with
  | nil => exact Option.some_inj.1 nested ▸ known after
  | cons call rest hypothesis =>
      obtain ⟨next, placed, onward⟩ := Option.bind_eq_some_iff.1 nested
      exact hypothesis (Html.code_of_inCodeAfter known placed) onward after

theorem Html.foldl_inCodeAfter_eq_false
    {calls : List Call}
    (nested : nestAll [] calls = some []) :
    calls.foldl Html.inCodeAfter false = false := by
  have outside : false = true -> 0 < ([] : List Bracket).count .code := nofun
  rw [Bool.eq_false_iff]
  intro inCode
  exact Nat.lt_irrefl 0 (Html.code_of_foldl_inCodeAfter outside nested inCode)

namespace Writer

theorem writeAll_concat (writer : Writer) (calls : List Call) (call : Call) :
    writer.writeAll (calls ++ [call]) =
      (((writer.writeAll calls).1.write call).1,
        (writer.writeAll calls).2 ++ ((writer.writeAll calls).1.write call).2) := by
  rw [writeAll_append]
  simp only [writeAll, List.append_nil]

theorem writeAll_nroff (settings : Settings) (lineStart : Bool) (calls : List Call) :
    ∃ after, (writeAll { settings, memory := .nroff lineStart } calls).1 =
      { settings, memory := .nroff after } := by
  induction calls generalizing lineStart with
  | nil => exact ⟨lineStart, rfl⟩
  | cons call rest hypothesis => exact hypothesis _

theorem writeAll_latex (settings : Settings) (verbatim : Bool) (calls : List Call) :
    (writeAll { settings, memory := .latex verbatim } calls).1 =
      { settings, memory := .latex (calls.foldl Html.inCodeAfter verbatim) } := by
  rw [← Latex.verbatimAfter_eq]
  induction calls generalizing verbatim with
  | nil => rfl
  | cons call rest hypothesis => exact hypothesis _

theorem writeAll_html (settings : Settings) (inCode : Bool) (calls : List Call) :
    (writeAll { settings, memory := .html inCode } calls).1 =
      { settings, memory := .html (calls.foldl Html.inCodeAfter inCode) } := by
  induction calls generalizing inCode with
  | nil => rfl
  | cons call rest hypothesis => exact hypothesis _

/-- The options of the format stay as they are. -/
theorem writeAll_texinfo (settings : Settings) (state : Texinfo.State) (calls : List Call) :
    ∃ title firstName, (writeAll { settings, memory := .texinfo state } calls).1 =
      { settings, memory := .texinfo { state with title, firstName } } := by
  induction calls generalizing state with
  | nil => exact ⟨state.title, state.firstName, rfl⟩
  | cons call rest hypothesis =>
      obtain ⟨title, firstName, written⟩ := hypothesis (state.after call)
      refine ⟨title, firstName, written.trans ?_⟩
      cases call <;> rfl

end Writer

/-! ## Resting writers -/

/-- What a format remembers when it rests between two pages, and what it remembers before
the first.  In texinfo the title of the last page and what stands under it may differ, and
in autodoc whatever a header or a heading sets anew. -/
inductive Memory.RestsLike (embeddable : Bool) : Memory -> Memory -> Prop where
  | same (memory : Memory) : RestsLike embeddable memory memory
  | texinfo (fresh : Texinfo.State) (title : String) (firstName : Bool) :
      RestsLike embeddable (.texinfo { fresh with title, firstName }) (.texinfo fresh)
  | autodoc {state fresh : Autodoc.State} :
      state.tables = fresh.tables ->
      embeddable = true ∨ Autodoc.Level state.opened fresh.opened ->
      RestsLike embeddable (.autodoc state) (.autodoc fresh)

/-- A writer from which a page comes out as from a fresh one. -/
structure Writer.RestsLike (writer fresh : Writer) : Prop where
  settings : writer.settings = fresh.settings
  memory : writer.memory.RestsLike fresh.settings.embeddable fresh.memory

/-- What a format remembers before its first page. -/
def Memory.IsFresh : Memory -> Prop
  | .nroff lineStart => lineStart = true
  | .latex verbatim => verbatim = false
  | .html inCode => inCode = false
  | .texinfo _ => True
  | .autodoc state => state = {}

/-- What comes out between two pages. -/
def pageSeparator : OutputFormat -> List Char
  | .autodoc => []
  | _ => ['\x0c']

namespace Writer

/-- The next page of a resting writer is the page of a fresh one. -/
theorem RestsLike.writeAll_eq
    {writer fresh : Writer}
    (rests : writer.RestsLike fresh)
    {header : Header}
    (oneLine : '\n' ∉ (Autodoc.label header).toList)
    (rest : List Call) :
    writer.writeAll (.header header :: .nameHeading :: rest) =
      fresh.writeAll (.header header :: .nameHeading :: rest) := by
  obtain ⟨settings, memory⟩ := writer
  obtain ⟨freshSettings, freshMemory⟩ := fresh
  obtain ⟨sameSettings, rests⟩ := rests
  obtain rfl : settings = freshSettings := sameSettings
  cases rests with
  | same => rfl
  | texinfo state title firstName => rfl
  | autodoc tables margin =>
      rw [Autodoc.writeAll_eq, Autodoc.writeAll_eq,
        Autodoc.writeCalls_header oneLine tables margin]

/-- A fresh writer rests again after it has written a page. -/
theorem restsLike_writeAll
    {fresh : Writer}
    (isFresh : fresh.memory.IsFresh)
    {header : Header}
    {body calls : List Call}
    (page : IsPage fresh.settings.embeddable header body calls) :
    (fresh.writeAll calls).1.taken.RestsLike fresh := by
  have closed := page.nestAll_eq
  obtain ⟨settings, memory⟩ := fresh
  cases memory with
  | nroff lineStart =>
      obtain rfl : lineStart = true := isFresh
      obtain ⟨after, written⟩ := writeAll_nroff settings true calls
      rw [written]
      exact ⟨rfl, .same _⟩
  | latex verbatim =>
      obtain rfl : verbatim = false := isFresh
      rw [writeAll_latex, Html.foldl_inCodeAfter_eq_false closed]
      exact ⟨rfl, .same _⟩
  | html inCode =>
      obtain rfl : inCode = false := isFresh
      rw [writeAll_html, Html.foldl_inCodeAfter_eq_false closed]
      exact ⟨rfl, .same _⟩
  | texinfo state =>
      obtain ⟨title, firstName, written⟩ := writeAll_texinfo settings state calls
      rw [written]
      exact ⟨rfl, .texinfo state title firstName⟩
  | autodoc state =>
      obtain rfl : state = {} := isFresh
      rw [Autodoc.writeAll_eq]
      refine ⟨rfl, .autodoc ?_ ?_⟩
      · have none : Autodoc.TablesWithin [] {} := Nat.le_refl 0
        have within := Autodoc.tablesWithin_writeCalls settings none closed
        exact List.eq_nil_of_length_eq_zero (Nat.le_zero.1 within)
      · cases embeddable : settings.embeddable with
        | true => exact .inl rfl
        | false =>
            have complete : calls = .header header :: .nameHeading :: body ++ [.fileEnd] := by
              rw [page.calls_eq, embeddable]
              rfl
            have ended := (Autodoc.writeCalls_opening_rests settings header
              page.neutral.inside page.endsLines {}).1
            rw [complete, Autodoc.writeCalls_append, Autodoc.writeCalls_fileEnd]
            generalize Autodoc.writeCalls settings _ {} = written at ended ⊢
            exact .inr ⟨ended, ⟨rfl, rfl⟩, ⟨rfl, rfl⟩⟩

/-- The form feed after a page. -/
theorem write_formFeed
    {writer fresh : Writer}
    (isFresh : fresh.memory.IsFresh)
    (rests : writer.taken.RestsLike fresh) :
    (writer.write (.character '\x0c')).1.taken.RestsLike fresh ∧
      (writer.write (.character '\x0c')).2 = pageSeparator fresh.memory.format := by
  obtain ⟨settings, memory⟩ := writer
  obtain ⟨freshSettings, freshMemory⟩ := fresh
  obtain ⟨sameSettings, rests⟩ := rests
  cases memory with
  | nroff lineStart =>
      cases rests
      exact ⟨⟨sameSettings, .same _⟩, rfl⟩
  | latex verbatim =>
      cases rests
      obtain rfl : verbatim = false := isFresh
      exact ⟨⟨sameSettings, .same _⟩, rfl⟩
  | html inCode =>
      cases rests
      exact ⟨⟨sameSettings, .same _⟩, rfl⟩
  | texinfo state =>
      cases rests with
      | same => exact ⟨⟨sameSettings, .same _⟩, rfl⟩
      | texinfo fresh title firstName =>
          exact ⟨⟨sameSettings, .texinfo fresh title firstName⟩, rfl⟩
  | autodoc state =>
      cases rests with
      | same => exact ⟨⟨sameSettings, .same _⟩, rfl⟩
      | autodoc tables margin => exact ⟨⟨sameSettings, .autodoc tables margin⟩, rfl⟩

end Writer
end Markup
end DeclManual
