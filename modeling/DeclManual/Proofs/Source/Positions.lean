import DeclManual.Proofs.Source.Renumbering
import Mathlib.Data.List.Basic

/-!
# Where tokens stand

The line, the file and the base file of every token are told by the line markers before
it and by the newlines since the last of them.
-/

namespace DeclManual
namespace Source

/-! ## What a line marker says -/

/-- A directive is a line marker: its number, which fits a word, and what follows it. -/
structure Lexeme.Marks (lexeme : Lexeme) (number : Nat) (tail : List Char) : Prop where
  parts : ∃ head digits, lexeme.kind = .directive (head ++ digits ++ tail) ∧ MarkerHead head ∧
    digits ≠ [] ∧ (∀ c ∈ digits, c.isDigit = true) ∧ (∀ c ∈ tail.head?, c.isDigit = false) ∧
    number = Text.ofDigits digits
  fits : number < Text.wordSize

/-- A text starts with a name in quotes, after blanks. -/
def Quotes (text : List Char) (name : String) : Prop :=
  ∃ gap rest, text = gap ++ '"' :: (name.toList ++ '"' :: rest) ∧
    (∀ c ∈ gap, Text.isBlank c = true) ∧ '"' ∉ name.toList

/-- A line marker names a file. -/
def Lexeme.Names (lexeme : Lexeme) (name : String) : Prop :=
  ∃ number tail, lexeme.Marks number tail ∧ Quotes tail name

/-- A directive keeps the mark that it starts with. -/
def Lexeme.Headed (lexeme : Lexeme) : Prop :=
  ∀ body, lexeme.kind = .directive body → ∃ more, body = '#' :: more

/-- The number of a line marker and what follows it. -/
def markerParts? (body : List Char) : Option (Nat × List Char) :=
  (markerNumber? body).map fun number => (number, (markerWords body).dropWhile Char.isDigit)

/-- The file that a lexeme names. -/
def Lexeme.named? (lexeme : Lexeme) : Option String :=
  match lexeme.kind with
  | .directive body => (markerParts? body).bind fun parts => LexState.markerFile? parts.2
  | _ => none

/-- Only a directive names a file. -/
theorem Lexeme.named?_of_not_isDirective
    {lexeme : Lexeme}
    (noDirective : lexeme.isDirective = false) :
    lexeme.named? = none := by
  unfold isDirective at noDirective
  unfold named?
  split at noDirective <;> simp_all

/-- A marker names the file that is quoted after its number. -/
theorem markerFile?_eq_some_iff
    {tail : List Char}
    {name : String} :
    LexState.markerFile? tail = some name ↔ Quotes tail name := by
  unfold LexState.markerFile?
  constructor
  · intro isName
    split at isName
    · rename_i quoted isQuoted
      obtain ⟨⟨before, rest⟩, found, rfl⟩ := Option.map_eq_some_iff.1 isName
      obtain ⟨rfl, absent⟩ := Text.splitFirst?_eq_some_iff.1 found
      refine ⟨tail.takeWhile Text.isBlank, rest, ?_, fun c => List.mem_takeWhile_imp, ?_⟩
      · rw [String.toList_ofList, ← isQuoted]
        exact List.takeWhile_append_dropWhile.symm
      · rwa [String.toList_ofList]
    · cases isName
  · rintro ⟨gap, rest, rfl, blank, absent⟩
    have trimmed : Text.trimStart (gap ++ '"' :: (name.toList ++ '"' :: rest)) =
        '"' :: (name.toList ++ '"' :: rest) :=
      dropWhile_eq blank (by simp; decide)
    rw [trimmed]
    change (Text.splitFirst? '"' (name.toList ++ '"' :: rest)).map _ = some name
    rw [Text.splitFirst?_eq_some_iff.2 ⟨rfl, absent⟩, Option.map_some, String.ofList_toList]

/-- What stands before the words of a line marker. -/
theorem exists_markerHead (more : List Char) :
    ∃ head, MarkerHead head ∧ '#' :: more = head ++ markerWords ('#' :: more) := by
  have cut (p : Char → Bool) (text : List Char) :
      text = text.takeWhile p ++ text.dropWhile p :=
    List.takeWhile_append_dropWhile.symm
  have marked : ('#' :: more).dropWhile (· == '#') = more.dropWhile (· == '#') := rfl
  unfold markerWords
  rw [marked]
  generalize isRest : more.dropWhile (· == '#') = rest
  generalize isWords : Text.trimStart rest = words
  have lead : ∃ word, (word = [] ∨ word = "line".toList) ∧
      words = word ++ dropLead "line".toList words := by
    unfold dropLead
    cases isPrefix : "line".toList.isPrefixOf? words with
    | none => exact ⟨[], .inl rfl, rfl⟩
    | some after =>
        exact ⟨_, .inr rfl, (List.isPrefixOf?_eq_some_iff_append_eq.1 isPrefix).symm⟩
  obtain ⟨word, isWord, isLead⟩ := lead
  generalize dropLead "line".toList words = after at isLead
  refine ⟨'#' :: more.takeWhile (· == '#') ++ rest.takeWhile Text.isBlank ++ word ++
    after.takeWhile Text.isBlank, ⟨_, _, _, _, rfl, ?_, ?_, isWord, ?_⟩, ?_⟩
  · intro c member
    simpa using List.mem_takeWhile_imp member
  · exact fun c member => List.mem_takeWhile_imp member
  · exact fun c member => List.mem_takeWhile_imp member
  · rw [List.append_assoc _ _ (Text.trimStart after), Text.trimStart, ← cut Text.isBlank after,
      List.append_assoc, ← isLead, ← isWords, List.append_assoc, Text.trimStart,
      ← cut Text.isBlank rest, ← isRest, List.cons_append, ← cut]

/-- The number of a marker is the digits that its words start with. -/
theorem markerNumber?_eq (body : List Char) :
    markerNumber? body = Text.word64? ((markerWords body).takeWhile Char.isDigit) := rfl

/-- Digits are a number if there is one of them and it fits a word. -/
theorem word64?_eq_some_iff
    {digits : List Char}
    {number : Nat} :
    Text.word64? digits = some number ↔
      digits ≠ [] ∧ (∀ c ∈ digits, c.isDigit = true) ∧ number = Text.ofDigits digits ∧
        number < Text.wordSize := by
  unfold Text.word64?
  split
  · rename_i noNumber
    simp only [Bool.or_eq_true, List.isEmpty_iff, Bool.not_eq_true', List.all_eq_false] at noNumber
    refine iff_of_false nofun ?_
    rintro ⟨nonempty, areDigits, -⟩
    rcases noNumber with empty | ⟨c, member, noDigit⟩
    · exact nonempty empty
    · exact noDigit (areDigits c member)
  · rename_i isNumber
    simp only [Bool.or_eq_true, not_or, List.isEmpty_iff, Bool.not_eq_true', Bool.not_eq_false,
      List.all_eq_true] at isNumber
    split
    · rename_i less
      rw [Option.some.injEq]
      exact ⟨fun same => ⟨isNumber.1, isNumber.2, same.symm, same ▸ less⟩,
        fun ⟨_, _, same, _⟩ => same.symm⟩
    · rename_i large
      refine iff_of_false nofun ?_
      rintro ⟨-, -, rfl, less⟩
      exact large less

/-- Line markers are read as they are written. -/
theorem Lexeme.Headed.marks_iff
    {lexeme : Lexeme}
    (headed : lexeme.Headed)
    {body : List Char}
    (isBody : lexeme.kind = .directive body)
    {number : Nat}
    {tail : List Char} :
    lexeme.Marks number tail ↔ markerParts? body = some (number, tail) := by
  unfold markerParts?
  rw [markerNumber?_eq, Option.map_eq_some_iff]
  constructor
  · rintro ⟨⟨head, digits, isKind, isHead, nonempty, areDigits, stops, isNumber⟩, less⟩
    rw [isBody] at isKind
    cases isKind
    have found : Text.word64? digits = some number :=
      word64?_eq_some_iff.2 ⟨nonempty, areDigits, isNumber, less⟩
    have fits : (Text.word64? digits).isSome = true := by rw [found]; rfl
    refine ⟨number, ?_, ?_⟩
    · rw [markerWords_of_head isHead fits, takeWhile_digits fits stops, found]
    · rw [markerWords_of_head isHead fits, dropWhile_eq areDigits stops]
  · rintro ⟨found, isNumber, isPair⟩
    cases isPair
    obtain ⟨nonempty, areDigits, isValue, less⟩ := word64?_eq_some_iff.1 isNumber
    obtain ⟨more, rfl⟩ := headed body isBody
    obtain ⟨head, isHead, whole⟩ := exists_markerHead more
    refine ⟨⟨head, _, ?_, isHead, nonempty, areDigits, ?_, isValue⟩, less⟩
    · rw [isBody, List.append_assoc, List.takeWhile_append_dropWhile, ← whole]
    · intro c starts
      have stops := List.head?_dropWhile_not Char.isDigit (markerWords ('#' :: more))
      rw [starts] at stops
      exact stops

/-- A directive marks a line just if the scan finds a number. -/
theorem Lexeme.Headed.exists_marks_iff
    {lexeme : Lexeme}
    (headed : lexeme.Headed)
    {number : Nat} :
    (∃ tail, lexeme.Marks number tail) ↔ lexeme.marker? = some number := by
  unfold Lexeme.marker?
  split
  · rename_i body isBody
    simp only [headed.marks_iff isBody, markerParts?, Option.map_eq_some_iff, Prod.mk.injEq]
    constructor
    · rintro ⟨tail, found, isNumber, rfl, -⟩
      exact isNumber
    · intro isNumber
      exact ⟨_, number, isNumber, rfl, rfl⟩
  · rename_i noDirective
    refine iff_of_false ?_ nofun
    rintro ⟨tail, ⟨head, digits, isKind, -⟩, -⟩
    exact noDirective _ isKind

/-- A lexeme counts as a line marker just if it has the form of one. -/
theorem Lexeme.Headed.isMarker_iff
    {lexeme : Lexeme}
    (headed : lexeme.Headed) :
    lexeme.isMarker = true ↔ ∃ number tail, lexeme.Marks number tail := by
  rw [Lexeme.isMarker, Option.isSome_iff_exists]
  exact exists_congr fun _ => headed.exists_marks_iff.symm

/-- A directive names a file just if the scan finds it. -/
theorem Lexeme.Headed.names_iff
    {lexeme : Lexeme}
    (headed : lexeme.Headed)
    {name : String} :
    lexeme.Names name ↔ lexeme.named? = some name := by
  unfold Lexeme.Names Lexeme.named?
  split
  · rename_i body isBody
    simp only [headed.marks_iff isBody, Option.bind_eq_some_iff, markerFile?_eq_some_iff,
      Prod.exists]
  · rename_i noDirective
    refine iff_of_false ?_ nofun
    rintro ⟨number, tail, ⟨⟨head, digits, isKind, -⟩, -⟩, -⟩
    exact noDirective _ isKind

/-- A line marker moves the line to its number and enters the file that it names. -/
theorem LexState.applyMarker_parts
    (state : LexState)
    (body : List Char) :
    state.applyMarker body = (markerParts? body).elim state fun parts =>
      { (LexState.markerFile? parts.2).elim state state.enterFile with
        line := parts.1 - 1, numbered := true } := by
  unfold markerParts?
  cases isNumber : markerNumber? body with
  | none => exact applyMarker_of_none state isNumber
  | some number => exact applyMarker_of_some state isNumber

/-- No marker among some lexemes names a file. -/
def Unnamed (front : List Lexeme) : Prop :=
  ∀ lexeme ∈ front, ∀ name, ¬ lexeme.Names name

/-- The first file that a marker among some lexemes names. -/
def FirstNamed (front : List Lexeme) (name : String) : Prop :=
  ∃ earlier marker later, front = earlier ++ marker :: later ∧ marker.Names name ∧
    Unnamed earlier

/-- The last file that a marker among some lexemes names. -/
def LastNamed (front : List Lexeme) (name : String) : Prop :=
  ∃ earlier marker later, front = earlier ++ marker :: later ∧ marker.Names name ∧
    Unnamed later

/-- The files that the markers among some lexemes name, in order. -/
def namesIn (front : List Lexeme) : List String :=
  front.filterMap Lexeme.named?

variable {front : List Lexeme} {name : String}

/-- No names are found just if no marker names a file. -/
theorem namesIn_eq_nil_iff (headed : ∀ lexeme ∈ front, lexeme.Headed) :
    namesIn front = [] ↔ Unnamed front := by
  rw [namesIn, List.filterMap_eq_nil_iff]
  refine forall₂_congr fun lexeme member => ?_
  rw [Option.eq_none_iff_forall_ne_some]
  exact forall_congr' fun name => not_congr (headed lexeme member).names_iff.symm

/-- The first name that is found is the first that a marker gives. -/
theorem head?_namesIn_iff (headed : ∀ lexeme ∈ front, lexeme.Headed) :
    (namesIn front).head? = some name ↔ FirstNamed front name := by
  rw [namesIn, List.head?_filterMap, List.findSome?_eq_some_iff]
  unfold FirstNamed
  refine exists_congr fun earlier => exists_congr fun marker => exists_congr fun later => ?_
  refine and_congr_right fun whole => ?_
  rw [whole] at headed
  have unnamed := namesIn_eq_nil_iff fun lexeme member =>
    headed lexeme (List.mem_append_left _ member)
  rw [(headed marker (by simp)).names_iff, ← unnamed, namesIn, List.filterMap_eq_nil_iff]

/-- The last name that is found is the last that a marker gives. -/
theorem getLast?_namesIn_iff (headed : ∀ lexeme ∈ front, lexeme.Headed) :
    (namesIn front).getLast? = some name ↔ LastNamed front name := by
  induction front using List.reverseRecOn with
  | nil => simp [namesIn, LastNamed]
  | append_singleton front last hypothesis =>
      have earlier := hypothesis fun lexeme member => headed lexeme (List.mem_append_left _ member)
      have isLast (name : String) : last.Names name ↔ last.named? = some name :=
        (headed last (by simp)).names_iff
      unfold LastNamed Unnamed
      rw [@exists_last_concat Lexeme (fun _ marker => marker.Names name)
        (fun marker => ∀ name, ¬ marker.Names name) front last]
      change _ ↔ _ ∨ _ ∧ LastNamed front name
      simp only [isLast, ← earlier, namesIn, List.filterMap_append]
      cases named : last.named? with
      | none => simp [named]
      | some other => simp [named]

/-! ## Lines -/

/-- The number of the line on which some lexemes end: counted from the start, or, as a word,
from the line before the one that the last marker numbers. -/
inductive EndsOn (front : List Lexeme) : Nat → Prop
  | unmarked :
      (∀ lexeme ∈ front, ∀ number tail, ¬ lexeme.Marks number tail) →
      EndsOn front (1 + (front.flatMap (·.text)).count '\n')
  | marked {earlier later : List Lexeme} {marker : Lexeme} {number : Nat} {tail : List Char} :
      front = earlier ++ marker :: later →
      marker.Marks number tail →
      (∀ lexeme ∈ later, ∀ number tail, ¬ lexeme.Marks number tail) →
      EndsOn front ((number - 1 + (later.flatMap (·.text)).count '\n') % Text.wordSize)

/-- Lexemes end on the line that is counted along them. -/
theorem endsOn_lineAfter (headed : ∀ lexeme ∈ front, lexeme.Headed) :
    EndsOn front (lineAfter front) := by
  have unmarked
      {lexeme : Lexeme}
      (member : lexeme ∈ front)
      (noMarker : lexeme.isMarker = false) :
      ∀ number tail, ¬ lexeme.Marks number tail := by
    intro number tail marks
    rw [(headed lexeme member).isMarker_iff.2 ⟨number, tail, marks⟩] at noMarker
    cases noMarker
  cases marked : front.any Lexeme.isMarker with
  | false =>
      have noMarker : ∀ lexeme ∈ front, lexeme.isMarker = false := by simpa using marked
      rw [lineAfter_of_not_isMarker noMarker]
      exact .unmarked fun lexeme member => unmarked member (noMarker lexeme member)
  | true =>
      obtain ⟨earlier, marker, later, rfl, isMarker, noMarker⟩ := exists_last marked
      obtain ⟨number, tail, marks⟩ := (headed marker (by simp)).isMarker_iff.1 isMarker
      have numbered : lineAfter (earlier ++ [marker]) = number - 1 := by
        rw [lineAfter_concat, Lexeme.lineAfter,
          (headed marker (by simp)).exists_marks_iff.1 ⟨tail, marks⟩]
      rw [List.append_cons, lineAfter_append_of_isMarker (by simp [isMarker]) noMarker, numbered]
      exact .marked (List.append_cons earlier marker later).symm marks fun lexeme member =>
        unmarked (by simp [member]) (noMarker lexeme member)

/-! ## Tokens -/

/-- Where something stands after some lexemes: its line, its file, and whether that is the
base file, which is the first file named if none is given. -/
structure Placed (base : Option String) (front : List Lexeme) (line : Nat)
    (file : Option String) (inBaseFile : Bool) : Prop where
  line : EndsOn front line
  file : ∀ name, file = some name ↔ LastNamed front name ∨ Unnamed front ∧ base = some name
  inBaseFile : inBaseFile = true ↔ Unnamed front ∨
    ∃ name, LastNamed front name ∧ (base = some name ∨ base = none ∧ FirstNamed front name)

/-- A token without its comments. -/
def Token.uncommented (token : Token) : Token :=
  { token with commentBefore := none, commentAfter := none }

/-- A comment moves nothing. -/
theorem LexState.addComment_places
    (state : LexState)
    (line : Nat)
    (comment : String) :
    (state.addComment line (some comment)).tokens.map Token.uncommented =
        state.tokens.map Token.uncommented ∧
      ∃ lastTokenLine pending firstComment reversed,
        state.addComment line (some comment) =
          { state with lastTokenLine, pending, firstComment, reversed } := by
  rw [addComment_eq]
  rcases attach_cases state line comment with ⟨older, newest, isTokens, -, -, attached⟩ |
    ⟨-, attached⟩
  · rw [attached]
    refine ⟨?_, _, _, _, _, rfl⟩
    rw [isTokens]
    simp [tokens, Token.uncommented]
  · rw [attached]
    exact ⟨rfl, _, _, _, _, rfl⟩

/-- A state after some lexemes knows where it stands, and every token where it stands. -/
structure Located (base : Option String) (front : List Lexeme) (state : LexState) : Prop where
  line : state.line = lineAfter front
  numbered : state.numbered = front.any Lexeme.isMarker
  baseFile : state.baseFile = base.or (namesIn front).head?
  file : state.file = (namesIn front).getLast?.or base
  inBaseFile : state.inBaseFile = true ↔
    namesIn front = [] ∨ base.or (namesIn front).head? = (namesIn front).getLast?
  count : state.tokens.length = front.countP Lexeme.isToken
  tokens : ∀ {earlier lexeme later}, front = earlier ++ lexeme :: later →
    lexeme.isToken = true →
    ∃ token, (state.tokens.map Token.uncommented)[earlier.countP Lexeme.isToken]? = some token ∧
      lexeme.shape? = some token.shape ∧
      Placed base earlier token.line token.file token.inBaseFile

namespace Located

variable {base : Option String}
variable {state next : LexState}
variable {lexeme : Lexeme}

/-- What stands after the lexemes is placed by them. -/
theorem placed
    (located : Located base front state)
    (headed : ∀ lexeme ∈ front, lexeme.Headed) :
    Placed base front state.line state.file state.inBaseFile where
  line := by
    rw [located.line]
    exact endsOn_lineAfter headed
  file name := by
    rw [located.file, Option.or_eq_some_iff, List.getLast?_eq_none_iff,
      getLast?_namesIn_iff headed, namesIn_eq_nil_iff headed]
  inBaseFile := by
    simp only [located.inBaseFile, ← namesIn_eq_nil_iff headed, ← getLast?_namesIn_iff headed,
      ← head?_namesIn_iff headed, ← Option.or_eq_some_iff]
    constructor
    · rintro (empty | same)
      · exact .inl empty
      · cases isLast : (namesIn front).getLast? with
        | none => exact .inl (List.getLast?_eq_none_iff.1 isLast)
        | some name => exact .inr ⟨name, rfl, same.trans isLast⟩
    · rintro (empty | ⟨name, isLast, isBase⟩)
      · exact .inl empty
      · exact .inr (isBase.trans isLast.symm)

/-- What stood somewhere before a lexeme that becomes no token still stands there. -/
theorem tokens_concat
    (located : Located base front state)
    (noToken : lexeme.isToken = false)
    (same : next.tokens.map Token.uncommented = state.tokens.map Token.uncommented)
    {earlier later : List Lexeme}
    {other : Lexeme}
    (whole : front ++ [lexeme] = earlier ++ other :: later)
    (isToken : other.isToken = true) :
    ∃ token, (next.tokens.map Token.uncommented)[earlier.countP Lexeme.isToken]? = some token ∧
      other.shape? = some token.shape ∧
      Placed base earlier token.line token.file token.inBaseFile := by
  rcases cut_of_concat whole with ⟨-, rfl, -⟩ | ⟨between, rfl, isFront⟩
  · rw [noToken] at isToken
    cases isToken
  · rw [same]
    exact located.tokens isFront isToken

theorem count_concat
    (located : Located base front state)
    (noToken : lexeme.isToken = false)
    (same : next.tokens.map Token.uncommented = state.tokens.map Token.uncommented) :
    next.tokens.length = (front ++ [lexeme]).countP Lexeme.isToken := by
  have lengths := congrArg List.length same
  rw [List.length_map, List.length_map] at lengths
  rw [lengths, located.count]
  simp [noToken]

/-- A lexeme that names no file leaves the files as they are. -/
theorem unnamed
    (located : Located base front state)
    (noToken : lexeme.isToken = false)
    (noName : lexeme.named? = none)
    (line : next.line = lineAfter (front ++ [lexeme]))
    (numbered : next.numbered = (front ++ [lexeme]).any Lexeme.isMarker)
    (baseFile : next.baseFile = state.baseFile)
    (file : next.file = state.file)
    (inBaseFile : next.inBaseFile = state.inBaseFile)
    (same : next.tokens.map Token.uncommented = state.tokens.map Token.uncommented) :
    Located base (front ++ [lexeme]) next := by
  have names : namesIn (front ++ [lexeme]) = namesIn front := by simp [namesIn, noName]
  refine ⟨line, numbered, ?_, ?_, ?_, located.count_concat noToken same,
    located.tokens_concat noToken same⟩
  · rw [names, baseFile, located.baseFile]
  · rw [names, file, located.file]
  · rw [names, inBaseFile, located.inBaseFile]

/-- A marker that names a file enters it. -/
theorem named
    (located : Located base front state)
    (noToken : lexeme.isToken = false)
    {name : String}
    (isName : lexeme.named? = some name)
    (line : next.line = lineAfter (front ++ [lexeme]))
    (numbered : next.numbered = (front ++ [lexeme]).any Lexeme.isMarker)
    (baseFile : next.baseFile = state.baseFile.or (some name))
    (file : next.file = some name)
    (inBaseFile : next.inBaseFile = (next.baseFile == some name))
    (same : next.tokens.map Token.uncommented = state.tokens.map Token.uncommented) :
    Located base (front ++ [lexeme]) next := by
  have names : namesIn (front ++ [lexeme]) = namesIn front ++ [name] := by simp [namesIn, isName]
  have base : next.baseFile = base.or (namesIn (front ++ [lexeme])).head? := by
    rw [baseFile, located.baseFile, names, List.head?_append, Option.or_assoc, List.head?_cons]
  refine ⟨line, numbered, base, ?_, ?_, located.count_concat noToken same,
    located.tokens_concat noToken same⟩
  · rw [names, file, List.getLast?_concat, Option.some_or]
  · rw [inBaseFile, ← base, names, List.getLast?_concat, beq_iff_eq]
    simp

/-- A token stands where the lexemes before it end. -/
theorem token
    (located : Located base front state)
    (headed : ∀ lexeme ∈ front, lexeme.Headed)
    {kind : Token.Kind}
    (isKind : lexeme.kind = .token kind)
    (isNext : next = (state.advance lexeme.text).push kind lexeme.text state.line)
    (line : next.line = lineAfter (front ++ [lexeme]))
    (numbered : next.numbered = (front ++ [lexeme]).any Lexeme.isMarker) :
    Located base (front ++ [lexeme]) next := by
  subst isNext
  have isToken : lexeme.isToken = true := by simp [Lexeme.isToken, Lexeme.shape?, isKind]
  have names : namesIn (front ++ [lexeme]) = namesIn front := by
    simp [namesIn, Lexeme.named?, isKind]
  refine ⟨line, numbered, ?_, ?_, ?_, ?_, ?_⟩
  · rw [names, ← located.baseFile]
    rfl
  · rw [names, ← located.file]
    rfl
  · rw [names, ← located.inBaseFile]
    rfl
  · rw [LexState.tokens_push, List.length_append, LexState.tokens_advance, located.count]
    simp [isToken]
  · intro earlier other later whole otherToken
    rw [LexState.tokens_push, List.map_append, LexState.tokens_advance]
    rcases cut_of_concat whole with ⟨rfl, rfl, -⟩ | ⟨between, rfl, isFront⟩
    · rw [← located.count, ← List.length_map (f := Token.uncommented)]
      refine ⟨_, List.getElem?_concat_length, ?_, located.placed headed⟩
      rw [Lexeme.shape?, isKind]
      rfl
    · obtain ⟨token, found, isShape, placed⟩ := located.tokens isFront otherToken
      refine ⟨token, ?_, isShape, placed⟩
      rw [List.getElem?_append_left (List.getElem?_eq_some_iff.1 found).1, found]

/-- A comment takes the scan on without a token. -/
theorem comment
    (located : Located base front state)
    {comment : String}
    (isComment : lexeme.comment? = some comment)
    (isNext : next = (state.advance lexeme.text).addComment state.line (some comment))
    (line : next.line = lineAfter (front ++ [lexeme]))
    (numbered : next.numbered = (front ++ [lexeme]).any Lexeme.isMarker) :
    Located base (front ++ [lexeme]) next := by
  subst isNext
  have noName := Lexeme.named?_of_not_isDirective (Lexeme.isDirective_of_comment? isComment)
  obtain ⟨sameTokens, _, _, _, _, moved⟩ :=
    (state.advance lexeme.text).addComment_places state.line comment
  refine located.unnamed (Lexeme.isToken_of_comment? isComment) noName line numbered ?_ ?_ ?_
    sameTokens
  all_goals
    rw [moved]
    rfl

/-- A directive is a line marker, or it is passed. -/
theorem directive
    (located : Located base front state)
    {body : List Char}
    (isBody : lexeme.kind = .directive body)
    (isNext : next = { state.advance lexeme.text with pending := none }.applyMarker body)
    (line : next.line = lineAfter (front ++ [lexeme]))
    (numbered : next.numbered = (front ++ [lexeme]).any Lexeme.isMarker) :
    Located base (front ++ [lexeme]) next := by
  have noToken : lexeme.isToken = false := by simp [Lexeme.isToken, Lexeme.shape?, isBody]
  have isName : lexeme.named? =
      (markerParts? body).bind fun parts => LexState.markerFile? parts.2 := by
    rw [Lexeme.named?, isBody]
  rw [LexState.applyMarker_parts] at isNext
  cases isParts : markerParts? body with
  | none =>
      rw [isParts] at isName isNext
      subst isNext
      exact located.unnamed noToken isName line numbered rfl rfl rfl rfl
  | some parts =>
      rw [isParts] at isName isNext
      rw [Option.elim_some] at isNext
      cases isFile : LexState.markerFile? parts.2 with
      | none =>
          rw [isFile] at isNext
          subst isNext
          exact located.unnamed noToken (isName.trans isFile) line numbered rfl rfl rfl rfl
      | some name =>
          rw [isFile] at isNext
          subst isNext
          exact located.named noToken (isName.trans isFile) line numbered rfl rfl rfl rfl

/-- One lexeme takes the scan on. -/
theorem step
    (located : Located base front state)
    (headed : ∀ lexeme ∈ front, lexeme.Headed)
    (stepped : state.step lexeme = .ok next) :
    Located base (front ++ [lexeme]) next := by
  obtain ⟨line, numbered⟩ := LexState.step_counts located.line located.numbered stepped
  rcases LexState.step_cases stepped with
    ⟨kind, isKind, isNext⟩ | ⟨comment, isComment, isNext⟩ | ⟨body, isBody, isNext⟩ |
      ⟨noToken, -, noDirective, rfl⟩
  · exact located.token headed isKind isNext line numbered
  · exact located.comment isComment isNext line numbered
  · exact located.directive isBody isNext line numbered
  · have noName := Lexeme.named?_of_not_isDirective noDirective
    exact located.unnamed noToken noName line numbered rfl rfl rfl rfl

end Located

end Source
end DeclManual
