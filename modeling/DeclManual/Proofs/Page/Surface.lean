import DeclManual.Page.Prototype
import DeclManual.Proofs.Grammar.DeclaratorTree
import DeclManual.Proofs.Lists
import DeclManual.Proofs.Source.Spelling

/-!
# Declarators are written as they were declared

A declarator is built step by step: from a name or from nothing, by pointers, brackets
and parameter lists.  Beside what is built stands its surface, the text of these steps
in the order of a declaration.  Applying a parameter list leaves a template behind,
which later steps write around; writing the declarator fills the template in, and gives
the surface back wherever the construction is printable.
-/

namespace DeclManual
namespace Page

open Decl
open Markup

/-! ## Constructions -/

/-- A name without an underscore at its start. -/
structure PlainName where
  text : String
  noUnderscore : text.toList.head? ≠ some '_'

/-- A word of a pointer operator. -/
inductive PointerWord where
  | star
  | blank
  | qualifier (word : Grammar.Qualifier)

/-- The text of a word of a pointer operator. -/
def PointerWord.text : PointerWord -> String
  | .star => "*"
  | .blank => " "
  | .qualifier word => word.text

/-- The text of a pointer operator. -/
def pointerText (words : List PointerWord) : String :=
  String.ofList (words.flatMap fun word => word.text.toList)

/-- The specifier of a parameter that has a type. -/
structure TypedSpec where
  spec : Spec
  text : String
  isText : spec.text = some text

/-- How a declarator is built. -/
inductive Construction where
  | name (word : PlainName)
  | abstract
  | pointer (words : List PointerWord) (target : Construction)
  | parenthesized (inner : Construction)
  | array (element : Construction) (suffix : String)
  | function (inner : Construction) (parameters : List (TypedSpec × Construction))

namespace Construction

mutual

/-- The declarator that is built. -/
def build : Construction -> Declarator
  | .name word => .identifier word.text
  | .abstract => .abstract
  | .pointer words target => target.build.pointerTo (pointerText words)
  | .parenthesized inner => inner.build.parenthesized
  | .array element suffix => element.build.arrayOf suffix
  | .function inner parameters => inner.build.function (buildAll parameters)

/-- The parameters that are built. -/
def buildAll : List (TypedSpec × Construction) -> List Parameter
  | [] => []
  | (type, shape) :: rest => .ofParts type.spec shape.build :: buildAll rest

end

/-- Whether a construction is empty: nothing is written for it. -/
def isAbstract : Construction -> Bool
  | .abstract => true
  | _ => false

mutual

/-- The text of a construction in the order of a declaration. -/
def surface : Construction -> List Char
  | .name word => word.text.toList
  | .abstract => []
  | .pointer words target => (pointerText words).toList ++ target.surface
  | .parenthesized inner => '(' :: inner.surface ++ [')']
  | .array element suffix => element.surface ++ suffix.toList
  | .function inner parameters =>
    inner.surface ++ '(' ::
      (if parameters.isEmpty then "void".toList else [','].intercalate (surfaces parameters)) ++
        [')']

/-- The texts of parameters. -/
def surfaces : List (TypedSpec × Construction) -> List (List Char)
  | [] => []
  | (type, shape) :: rest =>
    (type.text.toList ++ if shape.isAbstract then [] else ' ' :: shape.surface) :: surfaces rest

end

/-- Whether a parameter list is applied in a construction. -/
def hasList : Construction -> Bool
  | .name _ | .abstract => false
  | .pointer _ inner | .parenthesized inner | .array inner _ => inner.hasList
  | .function _ _ => true

/-- Whether the first word of a text does not start in an underscore. -/
def startsPlainly (text : List Char) : Bool :=
  text.find? startsName != some '_'

mutual

/-- Whether the parameter lists of a construction are printable. -/
def hasPrintableLists : Construction -> Bool
  | .name _ | .abstract => true
  | .pointer _ inner | .parenthesized inner | .array inner _ => inner.hasPrintableLists
  | .function inner parameters =>
    (if inner.hasList then inner.build.isFunction
      else inner.build.name.all fun name => startsPlainly name.toList) &&
      inner.hasPrintableLists && arePrintable parameters

/-- Whether parameters are printable. -/
def arePrintable : List (TypedSpec × Construction) -> Bool
  | [] => true
  | (_, shape) :: rest =>
    (shape.hasList || startsPlainly shape.surface) && shape.hasPrintableLists && arePrintable rest

end

/-- Whether a construction is printable.  A parameter list can be applied to what has a
parameter list already only if that is a function, and no underscore starts the first word
of what is written without a template. -/
def isPrintable (construction : Construction) : Bool :=
  (construction.hasList || startsPlainly construction.surface) && construction.hasPrintableLists

end Construction

/-! ## Cuts of a template -/

/-- A template is cut at the mark for a name. -/
theorem splitAtWord?_mark
    {before : List Char}
    (noMark : '%' ∉ before)
    (after : List Char) :
    Text.splitAtWord? ['%', 's'] (before ++ '%' :: 's' :: after) = some (before, after) := by
  rw [Text.splitAtWord?_pair_eq_some_iff (by decide)]
  exact ⟨by simp, fun holds => noMark (holds.subset List.mem_cons_self)⟩

/-- An empty list is cut off where it starts. -/
theorem splitAtWord?_list (after : List Char) :
    Text.splitAtWord? ['(', ')'] ('(' :: ')' :: after) = some ([], after) := rfl

/-! ## Writing around a declarator -/

/-- The declarator with more text before and after it. -/
def around (before after : String) (declarator : Declarator) : Declarator :=
  { declarator with text := some (before ++ declarator.text.getD "" ++ after) }

/-- Texts that are put around a declarator one after another are put around it at once. -/
theorem around_around (before after first last : String) (declarator : Declarator) :
    around before after (around first last declarator) =
      around (before ++ first) (last ++ after) declarator := by
  simp [around, String.append_assoc]

/-- A pointer puts its stars in front. -/
theorem pointerTo_eq_around (pointer : String) (declarator : Declarator) :
    declarator.pointerTo pointer = around pointer "" declarator := by
  simp [Declarator.pointerTo, around]

/-- An array puts its brackets behind. -/
theorem arrayOf_eq_around (suffix : String) (declarator : Declarator) :
    declarator.arrayOf suffix = around "" suffix declarator := by
  simp [Declarator.arrayOf, around]

/-- Parentheses are put on both sides. -/
theorem parenthesized_eq_around (declarator : Declarator) :
    declarator.parenthesized = around "(" ")" declarator := rfl

/-- Nothing put around a declarator leaves it. -/
theorem around_empty {declarator : Declarator} (written : declarator.text.isSome = true) :
    around "" "" declarator = declarator := by
  obtain ⟨_, text, _⟩ := declarator
  cases text with
  | none => exact absurd written Bool.false_ne_true
  | some text => simp [around]

namespace Construction

/-- A declarator is nested just if its construction has a list. -/
theorem isSome_inner_build :
    (construction : Construction) -> construction.build.inner.isSome = construction.hasList
  | .name _ => rfl
  | .abstract => rfl
  | .pointer _ target => isSome_inner_build target
  | .parenthesized inner => isSome_inner_build inner
  | .array element _ => isSome_inner_build element
  | .function _ _ => rfl

/-- A declarator has a text just if its construction is not abstract. -/
theorem isSome_text_build (construction : Construction) :
    construction.build.text.isSome = !construction.isAbstract := by
  cases construction <;> rfl

/-- Nothing put around a construction leaves what it builds. -/
theorem around_build {construction : Construction} (hasList : construction.hasList = true) :
    around "" "" construction.build = construction.build := by
  refine around_empty ((isSome_text_build construction).trans ?_)
  cases construction with
  | abstract => exact hasList
  | _ => rfl

/-- Without a list a construction builds a simple declarator. -/
theorem kind_build :
    (construction : Construction) -> construction.hasList = false ->
      construction.build.kind = .simple
  | .name _, _ => rfl
  | .abstract, _ => rfl
  | .pointer _ target, noList => kind_build target noList
  | .parenthesized inner, noList => kind_build inner noList
  | .array element _, noList => kind_build element noList

/-- What is a function has a parameter list. -/
theorem hasList_of_isFunction
    {construction : Construction}
    (isFunction : construction.build.isFunction = true) :
    construction.hasList = true := by
  by_contra noList
  rw [Declarator.isFunction, kind_build _ (Bool.not_eq_true _ ▸ noList)] at isFunction
  contradiction

/-- Without a parameter list, the text of what is built is the surface. -/
theorem text_build :
    (construction : Construction) -> construction.hasList = false ->
      (construction.build.text.getD "").toList = construction.surface
  | .name _, _ => rfl
  | .abstract, _ => rfl
  | .pointer words target, noList => by
      rw [build, pointerTo_eq_around, surface, ← text_build target noList]
      simp [around]
  | .parenthesized inner, noList => by
      rw [build, parenthesized_eq_around, surface, ← text_build inner noList]
      simp [around]
  | .array element suffix, noList => by
      rw [build, arrayOf_eq_around, surface, ← text_build element noList]
      simp [around]

end Construction

/-! ## Drivers -/

/-- A driver that writes texts and characters as they are. -/
structure PlainDriver where
  write : Call -> List Char
  write_text : ∀ text, write (.text text) = text.toList
  write_character : ∀ c, write (.character c) = [c]

namespace PlainDriver

variable (driver : PlainDriver)

/-- The text of calls. -/
def writeAll (calls : List Call) : List Char :=
  calls.flatMap driver.write

@[simp] theorem writeAll_nil : driver.writeAll [] = [] := rfl

@[simp] theorem writeAll_append (first second : List Call) :
    driver.writeAll (first ++ second) = driver.writeAll first ++ driver.writeAll second :=
  List.flatMap_append

@[simp] theorem writeAll_text (text : String) (rest : List Call) :
    driver.writeAll (.text text :: rest) = text.toList ++ driver.writeAll rest := by
  rw [writeAll, List.flatMap_cons, write_text]
  rfl

@[simp] theorem writeAll_character (c : Char) (rest : List Call) :
    driver.writeAll (.character c :: rest) = c :: driver.writeAll rest := by
  rw [writeAll, List.flatMap_cons, write_character]
  rfl

/-- A text that is written by characters is written as it is. -/
@[simp] theorem writeAll_characters (text : List Char) :
    driver.writeAll (characters text) = text := by
  induction text with
  | nil => rfl
  | cons c rest hypothesis =>
      rw [characters, List.map_cons, writeAll_character]
      exact congrArg (c :: ·) hypothesis

/-- A text whose first word does not start in an underscore is written whole. -/
theorem writeAll_declaratorText
    {text : String}
    (plain : Construction.startsPlainly text.toList = true) :
    driver.writeAll (declaratorText text false) = text.toList := by
  have keeps (c : Char) (rest : List Char) (other : c ≠ '_') :
      dropUnderscores (c :: rest) = c :: rest := by
    unfold dropUnderscores
    split
    · rename_i same
      exact absurd (List.cons.inj same).1 other
    · rfl
  have whole : dropUnderscores (text.toList.dropWhile (!startsName ·)) =
      text.toList.dropWhile (!startsName ·) := by
    have first := List.find?_eq_head?_dropWhile_not startsName text.toList
    cases found : text.toList.dropWhile (!startsName ·) with
    | nil => rfl
    | cons c rest =>
        rw [found, List.head?_cons] at first
        refine keeps c rest fun same => ?_
        simp [Construction.startsPlainly, first, same] at plain
  unfold declaratorText
  simp only [Bool.false_eq_true, if_false, whole, writeAll_append, writeAll_characters,
    writeAll_text, writeAll_nil, String.toList_ofList, List.append_nil,
    List.takeWhile_append_dropWhile]

/-- What a parameter list applies to is written whole if it has no list of its own. -/
theorem writeAll_innerText
    (layout : Layout)
    {name : Option String}
    (plain : ∀ word, name = some word -> Construction.startsPlainly word.toList = true)
    (text : String) :
    driver.writeAll (innerText layout false name text) = text.toList := by
  unfold innerText
  split
  · rename_i word before after found
    cases name with
    | none => exact absurd found (by simp [splitAtName?])
    | some name =>
        simp only [splitAtName?] at found
        split at found
        · exact absurd found (by simp)
        obtain ⟨⟨first, last⟩, cut, same⟩ := Option.map_eq_some_iff.1 found
        obtain ⟨rfl, rfl, rfl⟩ := same
        rw [Text.eq_append_of_splitAtWord? cut]
        simp [writeAll_declaratorText driver (plain _ rfl)]
  · simp

/-- A template is filled in. -/
theorem writeAll_functionCalls
    (layout : Layout)
    {before : String}
    (noMark : '%' ∉ before.toList)
    (after : String)
    (inner : Declarator)
    (parameters : List Parameter) :
    driver.writeAll (functionCalls layout false (around before after (inner.function parameters))) =
      before.toList ++ driver.writeAll (innerCalls layout false inner.name (some inner)) ++ '(' ::
        (if takesParameters parameters then
          driver.writeAll (parametersCalls layout false true parameters)
        else "void".toList) ++ ')' :: after.toList := by
  have template : (before ++ "%s()" ++ after).toList =
      before.toList ++ '%' :: 's' :: '(' :: ')' :: after.toList := by
    simp
  rw [around, Declarator.function, functionCalls]
  simp only [Option.getD_some, template, splitAtWord?_mark noMark, splitAtWord?_list]
  split <;> simp

end PlainDriver

namespace Construction

variable (driver : PlainDriver)

/-- The text of pointer operators holds no percent sign. -/
theorem not_mem_pointerText (words : List PointerWord) : '%' ∉ (pointerText words).toList := by
  have each : ∀ word ∈ Grammar.qualifiers, '%' ∉ word.toList := by decide
  rw [pointerText, String.toList_ofList, List.mem_flatMap]
  rintro ⟨word, -, member⟩
  cases word with
  | star => exact absurd member (by decide)
  | blank => exact absurd member (by decide)
  | qualifier word => exact each word.text (List.contains_iff_mem.1 word.isQualifier) member

/-- A parameter is its type, followed by its declarator if it has one. -/
theorem parameterCalls_eq (layout : Layout) (type : TypedSpec) (shape : Construction) :
    parameterCalls layout (.ofParts type.spec shape.build) =
      .text type.text ::
        if shape.isAbstract then []
        else .character ' ' :: declaratorCalls layout false shape.build := by
  have written := isSome_text_build shape
  have applied := isSome_inner_build shape
  rw [ParameterOf.ofParts, parameterCalls, declaratorCalls]
  simp only [type.isText, applied]
  cases text : shape.build.text with
  | none =>
      have isAbstract : shape.isAbstract = true := by simpa [text] using written
      have noList : shape.hasList = false := by
        cases shape with
        | abstract => rfl
        | _ => exact absurd isAbstract Bool.false_ne_true
      simp [isAbstract, noList]
  | some text =>
      have noAbstract : shape.isAbstract = false := by simpa [text] using written
      cases hasList : shape.hasList <;> simp [noAbstract]

/-- A list that declares no parameters is written as one that is empty. -/
theorem surfaces_of_takesParameters
    {parameters : List (TypedSpec × Construction)}
    (nothing : takesParameters (buildAll parameters) = false) :
    parameters = [] ∨ surfaces parameters = ["void".toList] := by
  match parameters with
  | [] => exact .inl rfl
  | [(type, shape)] =>
      have isVoid : shape.build.text.isSome = false ∧ type.spec.text = some "void" := by
        simpa [buildAll, takesParameters, ParameterOf.ofParts] using nothing
      have isAbstract : shape.isAbstract = true := by
        simpa [isSome_text_build] using isVoid.1
      have text : type.text = "void" := Option.some.inj (type.isText.symm.trans isVoid.2)
      exact .inr (by simp [surfaces, isAbstract, text])
  | _ :: _ :: _ => exact absurd nothing Bool.true_eq_false.mp

/-- A printable construction is written as its surface, by induction on it. -/
theorem writeAll_declaratorCalls
    (layout : Layout)
    {construction : Construction}
    (plain : (construction.hasList || startsPlainly construction.surface) = true)
    (lists : construction.hasList = true ->
      driver.writeAll (functionCalls layout false construction.build) = construction.surface) :
    driver.writeAll (declaratorCalls layout false construction.build) = construction.surface := by
  rw [declaratorCalls, isSome_inner_build]
  cases hasList : construction.hasList with
  | true => exact lists hasList
  | false =>
      have whole := text_build construction hasList
      rw [hasList, Bool.false_or] at plain
      cases text : construction.build.text with
      | none => simpa [text] using whole
      | some text =>
          rw [text, Option.getD_some] at whole
          rw [← whole] at plain ⊢
          exact driver.writeAll_declaratorText plain

/-- Before the first parameter stands no comma. -/
theorem writeAll_parametersCalls
    (layout : Layout)
    (parameter : Parameter)
    (rest : List Parameter) :
    driver.writeAll (parametersCalls layout false false (parameter :: rest)) =
      ',' :: driver.writeAll (parametersCalls layout false true (parameter :: rest)) := by
  rw [parametersCalls, parametersCalls]
  simp

/-- What stands in the brackets of a parameter list. -/
theorem writeAll_list
    (layout : Layout)
    {parameters : List (TypedSpec × Construction)}
    (written : driver.writeAll (parametersCalls layout false false (buildAll parameters)) =
      (surfaces parameters).flatMap (',' :: ·)) :
    (if takesParameters (buildAll parameters) then
        driver.writeAll (parametersCalls layout false true (buildAll parameters))
      else "void".toList) =
      if parameters.isEmpty then "void".toList
      else [','].intercalate (surfaces parameters) := by
  cases takes : takesParameters (buildAll parameters) with
  | false =>
      rcases surfaces_of_takesParameters takes with rfl | isVoid
      · rfl
      · cases parameters with
        | nil => rfl
        | cons _ _ => simp [isVoid]
  | true =>
      match parameters with
      | [] => exact absurd takes Bool.false_ne_true
      | (type, shape) :: rest =>
          rw [buildAll, writeAll_parametersCalls, surfaces, List.flatMap_cons] at written
          rw [surfaces, intercalate_cons, buildAll]
          exact List.cons.inj written |>.2

mutual

/-- A construction with a parameter list is written from its template, which may have been
written around. -/
theorem writeAll_build (layout : Layout) :
    (construction : Construction) -> construction.hasList = true ->
      construction.hasPrintableLists = true -> (before after : String) ->
      '%' ∉ before.toList ->
        driver.writeAll (functionCalls layout false (around before after construction.build)) =
          before.toList ++ construction.surface ++ after.toList
  | .pointer words target, hasList, printable, before, after, noMark => by
      have noMarks : '%' ∉ (before ++ pointerText words).toList := by
        rw [String.toList_append, List.mem_append]
        exact not_or_intro noMark (not_mem_pointerText words)
      rw [build, pointerTo_eq_around, around_around,
        writeAll_build layout target hasList printable _ _ noMarks]
      simp [surface]
  | .parenthesized inner, hasList, printable, before, after, noMark => by
      have noMarks : '%' ∉ (before ++ "(").toList := by
        rw [String.toList_append, List.mem_append]
        exact not_or_intro noMark (by decide)
      rw [build, parenthesized_eq_around, around_around,
        writeAll_build layout inner hasList printable _ _ noMarks]
      simp [surface]
  | .array element suffix, hasList, printable, before, after, noMark => by
      rw [build, arrayOf_eq_around, around_around, String.append_empty,
        writeAll_build layout element hasList printable _ _ noMark]
      simp [surface]
  | .function inner parameters, _, printable, before, after, noMark => by
      simp only [hasPrintableLists, Bool.and_eq_true] at printable
      obtain ⟨⟨applicable, innerLists⟩, others⟩ := printable
      have innerWritten :
          driver.writeAll (innerCalls layout false inner.build.name (some inner.build)) =
            inner.surface := by
        rw [innerCalls]
        cases hasList : inner.hasList with
        | true =>
            have whole := writeAll_build layout inner hasList innerLists "" "" List.not_mem_nil
            rw [around_build hasList] at whole
            rw [hasList, if_pos rfl] at applicable
            rw [if_pos applicable, whole]
            simp
        | false =>
            have noFunction : ¬ inner.build.isFunction = true := fun isFunction =>
              Bool.false_ne_true (hasList.symm.trans (hasList_of_isFunction isFunction))
            rw [hasList, if_neg Bool.false_ne_true] at applicable
            rw [if_neg noFunction, ← text_build inner hasList]
            refine driver.writeAll_innerText layout (fun word named => ?_) _
            rwa [named] at applicable
      have listWritten := writeAll_buildAll layout parameters others
      rw [build, driver.writeAll_functionCalls layout noMark, innerWritten,
        writeAll_list driver layout listWritten]
      simp [surface]

/-- Printable parameters are written as their surfaces, each after a comma. -/
theorem writeAll_buildAll (layout : Layout) :
    (parameters : List (TypedSpec × Construction)) -> arePrintable parameters = true ->
      driver.writeAll (parametersCalls layout false false (buildAll parameters)) =
        (surfaces parameters).flatMap (',' :: ·)
  | [], _ => rfl
  | (type, shape) :: rest, printable => by
      simp only [arePrintable, Bool.and_eq_true] at printable
      obtain ⟨⟨plain, lists⟩, others⟩ := printable
      have whole := writeAll_declaratorCalls driver layout plain fun hasList => by
        have written := writeAll_build layout shape hasList lists "" "" List.not_mem_nil
        rw [around_build hasList] at written
        simpa using written
      rw [buildAll, parametersCalls, parameterCalls_eq, surfaces, List.flatMap_cons,
        PlainDriver.writeAll_append, PlainDriver.writeAll_append,
        writeAll_buildAll layout rest others]
      cases shape.isAbstract <;> simp [whole]

end

/-- A printable construction is written as it was declared. -/
theorem declaratorCalls_build
    (layout : Layout)
    (construction : Construction)
    (printable : construction.isPrintable = true) :
    driver.writeAll (declaratorCalls layout false construction.build) = construction.surface := by
  obtain ⟨plain, lists⟩ := Bool.and_eq_true_iff.1 printable
  refine writeAll_declaratorCalls driver layout plain fun hasList => ?_
  have written := writeAll_build driver layout construction hasList lists "" "" List.not_mem_nil
  rw [around_build hasList] at written
  simpa using written

/-- A driver that writes nothing but texts and characters. -/
def textDriver : PlainDriver where
  write
    | .text text => text.toList
    | .character c => [c]
    | _ => []
  write_text _ := rfl
  write_character _ := rfl

/-- A type that is one word. -/
def typed (word : String) : TypedSpec :=
  { spec := .ofText word {}, text := word, isText := rfl }

/-- A pointer to a function with given parameters. -/
def functionPointer (target : Construction) (parameters : List (TypedSpec × Construction)) :
    Construction :=
  .function (.parenthesized (.pointer [.star] target)) parameters

/-- The declarator `(*signal(int, void (*)(int)))(int)`. -/
def signal : Construction :=
  functionPointer
    (.function (.name ⟨"signal", by decide⟩)
      [(typed "int", .abstract),
        (typed "void", functionPointer .abstract [(typed "int", .abstract)])])
    [(typed "int", .abstract)]

/-- The declarator of `signal` is printable and written as its surface. -/
theorem declaratorCalls_build_signal :
    signal.isPrintable = true ∧
      textDriver.writeAll (declaratorCalls {} false signal.build) = signal.surface :=
  ⟨by decide, declaratorCalls_build textDriver {} signal (by decide)⟩

/-- The declarator `(*(*fp)(int))(char)`. -/
def returningPointer : Construction :=
  functionPointer (functionPointer (.name ⟨"fp", by decide⟩) [(typed "int", .abstract)])
    [(typed "char", .abstract)]

/-- A parameter list that is applied to a pointer to a function shows the template of that
pointer. -/
theorem declaratorCalls_returningPointer :
    returningPointer.surface = "(*(*fp)(int))(char)".toList ∧
      textDriver.writeAll (declaratorCalls {} false returningPointer.build) =
        "(*%s())(char)".toList := by
  decide

end Construction
end Page
end DeclManual
