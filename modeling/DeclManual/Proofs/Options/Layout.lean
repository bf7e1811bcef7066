import DeclManual.Options.Layout
import Mathlib.Data.List.TakeWhile

/-!
# Layouts and their examples

An example prototype shows a layout: its six strings stand between four words and the
punctuation of a parameter list.  Where each string can be told from the words around it, the
layout that is read off the example is the one that it shows.
-/

namespace DeclManual
namespace Layout

variable {c : Char} {text rest front : List Char}

/-! ## Escapes -/

/-- A character as it is written in a template. -/
def escapeChar (c : Char) : List Char :=
  if c = '\\' then ['\\', '\\']
  else if c = '\n' then ['\\', 'n']
  else if c = '\t' then ['\\', 't']
  else [c]

/-- A text with its backslashes, newlines and tabs escaped. -/
def escape (text : List Char) : List Char :=
  text.flatMap escapeChar

theorem unescape_cons_of_ne (plain : c ≠ '\\') (rest : List Char) :
    unescape (c :: rest) = c :: unescape rest := by
  rw [unescape] <;> simp [plain]

theorem unescape_escapeChar_append (c : Char) (rest : List Char) :
    unescape (escapeChar c ++ rest) = c :: unescape rest := by
  unfold escapeChar
  split_ifs with backslash newline tab
  · subst backslash
    rw [List.cons_append, List.cons_append, List.nil_append, unescape] <;> simp
  · subst newline
    rfl
  · subst tab
    rfl
  · exact unescape_cons_of_ne backslash rest

theorem unescape_escape (text : List Char) : unescape (escape text) = text := by
  induction text with
  | nil => rfl
  | cons c text hypothesis =>
      rw [escape, List.flatMap_cons, unescape_escapeChar_append, ← escape, hypothesis]

/-! ## Examples -/

/-- A word of an example: ASCII letters and digits, at least one. -/
structure Word where
  text : String
  nonempty : text ≠ ""
  alphanumeric : ∀ c ∈ text.toList, c.isAlphanum = true

/-- A layout of which every string can be told from the words around it. -/
structure IsShowable (layout : Layout) : Prop where
  specPrefix : ∀ c ∈ layout.specPrefix.toList, isSeparator c = true
  declaratorPrefix : ∀ c ∈ layout.declaratorPrefix.toList, isSeparator c = true
  declaratorPrefix_ne : layout.declaratorPrefix ≠ ""
  declaratorSuffix : '(' ∉ layout.declaratorSuffix.toList
  declaratorSuffix_head : ∀ c ∈ layout.declaratorSuffix.toList.head?, c.isAlphanum = false
  firstParameterPrefix : ∀ c ∈ layout.firstParameterPrefix.toList, isSeparator c = true
  middleParameterPrefix : ∀ c ∈ layout.middleParameterPrefix.toList, isSeparator c = true
  lastParameterSuffix : ')' ∉ layout.lastParameterSuffix.toList
  lastParameterSuffix_head : ∀ c ∈ layout.lastParameterSuffix.toList.head?, c.isAlphanum = false

/-- The prototype of a function with two parameters, spread as a layout says. -/
def exampleWith (layout : Layout) (spec name first second : Word) : List Char :=
  layout.specPrefix.toList ++ (spec.text.toList ++
    (layout.declaratorPrefix.toList ++ (name.text.toList ++
      (layout.declaratorSuffix.toList ++ '(' ::
        (layout.firstParameterPrefix.toList ++ (first.text.toList ++ ',' ::
          (layout.middleParameterPrefix.toList ++ (second.text.toList ++
            (layout.lastParameterSuffix.toList ++ [')'])))))))))

/-- The template that shows a layout with four words. -/
def templateWith (layout : Layout) (spec name first second : Word) : String :=
  String.ofList (escape (layout.exampleWith spec name first second))

/-! ## Reading an example -/

theorem isSeparator_of_isAlphanum (letter : c.isAlphanum = true) : isSeparator c = false := by
  rw [isSeparator, letter, Bool.not_true, Bool.and_false]

theorem isAlphanum_of_isSeparator (separator : isSeparator c = true) : c.isAlphanum = false := by
  rw [← Bool.not_eq_true]
  exact fun letter => by simp [isSeparator_of_isAlphanum letter] at separator

/-- Separators before a word are taken, with the first character of the word. -/
theorem exists_separators?
    (separators : ∀ c ∈ front, isSeparator c = true)
    (word : Word) :
    ∃ tail, (∀ c ∈ tail, c.isAlphanum = true) ∧
      ∀ rest, separators? (front ++ (word.text.toList ++ rest)) = some (front, tail ++ rest) := by
  obtain ⟨c, tail, isWord⟩ := List.exists_cons_of_ne_nil
    (fun none => word.nonempty (String.toList_eq_nil_iff.1 none))
  have letters := word.alphanumeric
  rw [isWord] at letters ⊢
  obtain ⟨letter, letters⟩ := List.forall_mem_cons.1 letters
  have ends : ¬ isSeparator c = true := by simp [isSeparator_of_isAlphanum letter]
  refine ⟨tail, letters, fun rest => ?_⟩
  rw [separators?, List.dropWhile_append_of_pos separators, List.takeWhile_append_of_pos separators,
    List.cons_append, List.dropWhile_cons_of_neg ends, List.takeWhile_cons_of_neg ends,
    List.append_nil]
  rfl

/-- The rest of a word is taken, where something else follows. -/
theorem afterWord?_append
    (letters : ∀ c ∈ text, c.isAlphanum = true)
    (nonempty : rest ≠ [])
    (ends : ∀ c ∈ rest.head?, c.isAlphanum = false) :
    afterWord? (text ++ rest) = some rest := by
  obtain ⟨c, more, rfl⟩ := List.exists_cons_of_ne_nil nonempty
  have stops : ¬ c.isAlphanum = true := by simp [ends c rfl]
  rw [afterWord?, List.dropWhile_append_of_pos letters, List.dropWhile_cons_of_neg stops]

/-- A string and a mark after a word end it, if the string does not start like a word. -/
theorem afterWord?_mark
    (letters : ∀ c ∈ text, c.isAlphanum = true)
    (starts : ∀ c ∈ front.head?, c.isAlphanum = false)
    (mark : c.isAlphanum = false) :
    afterWord? (text ++ (front ++ c :: rest)) = some (front ++ c :: rest) := by
  refine afterWord?_append letters (by simp) fun d first => ?_
  cases front with
  | nil => exact Option.some.inj first ▸ mark
  | cons e others => exact starts d first

theorem ne_of_absent (absent : c ∉ text) : ∀ d ∈ text, (d != c) = true := by
  intro d listed
  rw [bne_iff_ne]
  rintro rfl
  exact absent listed

theorem takeWhile_ne_append (absent : c ∉ text) :
    (text ++ c :: rest).takeWhile (· != c) = text := by
  rw [List.takeWhile_append_of_pos (ne_of_absent absent), List.takeWhile_cons_of_neg (by simp),
    List.append_nil]

theorem dropWhile_ne_append (absent : c ∉ text) :
    (text ++ c :: rest).dropWhile (· != c) = c :: rest := by
  rw [List.dropWhile_append_of_pos (ne_of_absent absent), List.dropWhile_cons_of_neg (by simp)]

/-- The layout is read off the example that shows it. -/
theorem ofExample?_exampleWith
    {layout : Layout}
    (showable : layout.IsShowable)
    (spec name first second : Word) :
    ofExample? (layout.exampleWith spec name first second) = some layout := by
  obtain ⟨specTail, inSpec, readSpec⟩ := exists_separators? showable.specPrefix spec
  obtain ⟨nameTail, inName, readName⟩ := exists_separators? showable.declaratorPrefix name
  obtain ⟨firstTail, inFirst, readFirst⟩ := exists_separators? showable.firstParameterPrefix first
  obtain ⟨secondTail, inSecond, readSecond⟩ :=
    exists_separators? showable.middleParameterPrefix second
  have noComma : ',' ∉ firstTail := fun listed => absurd (inFirst ',' listed) (by decide)
  have nonempty (rest : List Char) : layout.declaratorPrefix.toList ++ rest ≠ [] := by
    simp [showable.declaratorPrefix_ne]
  have starts (rest : List Char) :
      ∀ c ∈ (layout.declaratorPrefix.toList ++ rest).head?, c.isAlphanum = false := by
    intro c isFirst
    obtain ⟨d, others, isPrefix⟩ := List.exists_cons_of_ne_nil
      (fun none => showable.declaratorPrefix_ne (String.toList_eq_nil_iff.1 none))
    have separators := showable.declaratorPrefix
    rw [isPrefix] at separators isFirst
    obtain rfl : d = c := Option.some.inj isFirst
    exact isAlphanum_of_isSeparator (separators d List.mem_cons_self)
  unfold ofExample? exampleWith
  rw [readSpec]
  simp only [Option.bind_eq_bind, Option.bind_some,
    afterWord?_append inSpec (nonempty _) (starts _), readName,
    afterWord?_mark inName showable.declaratorSuffix_head (c := '(') rfl,
    takeWhile_ne_append showable.declaratorSuffix, dropWhile_ne_append showable.declaratorSuffix,
    skipOne?, readFirst, dropWhile_ne_append noComma, readSecond,
    afterWord?_mark inSecond showable.lastParameterSuffix_head (c := ')') rfl,
    takeWhile_ne_append showable.lastParameterSuffix, String.ofList_toList]
  rfl

/-- A layout is read off every template that shows it. -/
theorem ofTemplate_templateWith
    {layout : Layout}
    (showable : layout.IsShowable)
    (spec name first second : Word) :
    ofTemplate (layout.templateWith spec name first second) = .ok layout := by
  rw [ofTemplate, templateWith, String.toList_ofList, unescape_escape,
    ofExample?_exampleWith showable]

/-- A layout with punctuation and escapes in its strings. -/
def punctuated : Layout where
  specPrefix := "(\t"
  declaratorPrefix := "\\(,"
  declaratorSuffix := ",) é\n"
  firstParameterPrefix := "),("
  middleParameterPrefix := "\n,("
  lastParameterSuffix := "(,\\"

theorem ofTemplate_templateWith_punctuated :
    punctuated.IsShowable ∧
      ofTemplate "(\\tint\\\\(,f,) é\\n(),(a,\\n,(b2(,\\\\)" = .ok punctuated := by
  have showable : punctuated.IsShowable :=
    { specPrefix := List.all_eq_true.1 rfl
      declaratorPrefix := List.all_eq_true.1 rfl
      declaratorPrefix_ne := by decide
      declaratorSuffix := by decide
      declaratorSuffix_head := by rintro c ⟨⟩; rfl
      firstParameterPrefix := List.all_eq_true.1 rfl
      middleParameterPrefix := List.all_eq_true.1 rfl
      lastParameterSuffix := by decide
      lastParameterSuffix_head := by rintro c ⟨⟩; rfl }
  let spec : Word := ⟨"int", by decide, List.all_eq_true.1 rfl⟩
  let name : Word := ⟨"f", by decide, List.all_eq_true.1 rfl⟩
  let first : Word := ⟨"a", by decide, List.all_eq_true.1 rfl⟩
  let second : Word := ⟨"b2", by decide, List.all_eq_true.1 rfl⟩
  have isLayout := ofTemplate_templateWith showable spec name first second
  have shown : punctuated.exampleWith spec name first second =
      "(\tint\\(,f,) é\n(),(a,\n,(b2(,\\)".toList := by
    simp [exampleWith, punctuated, spec, name, first, second]
  have written : escape "(\tint\\(,f,) é\n(),(a,\n,(b2(,\\)".toList =
      "(\\tint\\\\(,f,) é\\n(),(a,\\n,(b2(,\\\\)".toList := by
    decide
  rw [templateWith, shown, written, String.ofList_toList] at isLayout
  exact ⟨showable, isLayout⟩

end Layout
end DeclManual
