import DeclManual.Prose.Returns
import DeclManual.Proofs.Prose.Slices
import DeclManual.Proofs.Text.Trim

/-!
# The returns paragraph of a description

The first line of a description that starts with the word "returns", in any case, cuts it in
two.  What is returned are the two parts without blanks at the cut and at the end: between them
stand the word, colons and blanks, and nothing else is lost.  The search runs over the bytes of
the description and cuts between two of its characters.
-/

namespace DeclManual

/-! ## Words in any case -/

namespace Text

variable {c : Char} {word text : List Char}

theorem startsIgnoringCase_cons (first : Char) (word : List Char) (rest : List Char) :
    startsIgnoringCase (first :: word) (c :: rest) =
      (first.toLower == c.toLower && startsIgnoringCase word rest) :=
  rfl

/-- A text starts with an ASCII word exactly if its bytes do. -/
theorem startsIgnoringCase_encoded
    (ascii : ∀ c ∈ word, c.toNat < 128)
    (text : List Char) :
    startsIgnoringCase word (encoded text) = startsIgnoringCase word text := by
  induction word generalizing text with
  | nil => rfl
  | cons first word hypothesis =>
      obtain ⟨isAscii, ascii⟩ := List.forall_mem_cons.1 ascii
      cases text with
      | nil => rfl
      | cons c rest =>
          rcases Nat.lt_or_ge c.toNat 128 with small | other
          · rw [encoded_cons_of_ascii small, startsIgnoringCase_cons, startsIgnoringCase_cons,
              hypothesis ascii]
          · -- neither the character nor its first byte is a letter of the word
            have differs {d : Char} (other : 128 ≤ d.toNat) :
                (first.toLower == d.toLower) = false := by
              rw [toLower_of_not_ascii other, beq_eq_false_iff_ne]
              rintro rfl
              exact absurd (ascii_toLower isAscii) (Nat.not_lt_of_le other)
            obtain ⟨b, bytes, isChar⟩ := List.exists_cons_of_ne_nil (encodedChar_ne_nil c)
            have isLarge := encodedChar_of_not_ascii other (isChar ▸ List.mem_cons_self)
            rw [encoded_cons, isChar, List.cons_append, startsIgnoringCase_cons,
              startsIgnoringCase_cons, differs other, differs isLarge, Bool.false_and,
              Bool.false_and]

/-- A text that starts with a word, in any case, is the word as it is written and a rest. -/
theorem exists_of_startsIgnoringCase (starts : startsIgnoringCase word text = true) :
    ∃ written rest, text = written ++ rest ∧ eqIgnoringCase written word = true := by
  have begins : word.map Char.toLower <+: text.map Char.toLower :=
    List.isPrefixOf_iff_prefix.1 starts
  obtain ⟨rest, parts⟩ := begins
  obtain ⟨written, after, rfl, isWord, -⟩ := List.map_eq_append_iff.1 parts.symm
  exact ⟨written, after, rfl, beq_iff_eq.2 isWord⟩

theorem length_of_eqIgnoringCase (same : eqIgnoringCase text word = true) :
    text.length = word.length := by
  have lengths := congrArg List.length (beq_iff_eq.1 same)
  rwa [List.length_map, List.length_map] at lengths

theorem ascii_of_eqIgnoringCase
    (ascii : ∀ c ∈ word, c.toNat < 128)
    (same : eqIgnoringCase text word = true) :
    ∀ c ∈ text, c.toNat < 128 := by
  intro c listed
  have lowered : c.toLower ∈ word.map Char.toLower :=
    beq_iff_eq.1 same ▸ List.mem_map_of_mem listed
  obtain ⟨letter, isLetter, isLowered⟩ := List.mem_map.1 lowered
  have small := ascii_toLower (ascii letter isLetter)
  rw [isLowered] at small
  by_contra other
  rw [toLower_of_not_ascii (Nat.le_of_not_lt other)] at small
  exact other small

/-! ## Lines of bytes -/

/-- The lines of the bytes of a text are the bytes of its lines. -/
theorem splitInclusive_encoded (text : List Char) :
    splitInclusive (encoded text) = (splitInclusive text).map encoded := by
  have noNewline {line : List Char} (oneLine : '\n' ∉ line) : '\n' ∉ encoded line :=
    fun listed => oneLine ((mem_encoded_of_ascii (by decide)).1 listed)
  induction text using lines_induction with
  | last line oneLine =>
      rw [splitInclusive_last oneLine, splitInclusive_last (noNewline oneLine),
        Prose.isEmpty_encoded]
      split <;> rfl
  | more line rest oneLine hypothesis =>
      rw [splitInclusive_more oneLine, encoded_append, encoded_cons_of_ascii (by decide),
        splitInclusive_more (noNewline oneLine), hypothesis, List.map_cons, encoded_append]
      rfl

theorem encoded_flatten (lines : List (List Char)) :
    encoded lines.flatten = (lines.map encoded).flatten := by
  induction lines with
  | nil => rfl
  | cons line rest hypothesis =>
      rw [List.flatten_cons, encoded_append, hypothesis]
      rfl

end Text

namespace Prose

variable {comment : List Char} {line : List Char} {lines before after : List (List Char)}

/-! ## The first line with the word -/

/-- Whether a line starts with the word that opens a returns paragraph. -/
def opensReturns (line : List Char) : Bool :=
  Text.startsIgnoringCase returnsWord line

/-- The offset of the first line that opens a returns paragraph, among lines that start at an
offset. -/
def returnsOffset? (offset : Nat) : List (List Char) → Option Nat
  | [] => none
  | line :: rest =>
    if opensReturns line then some offset else returnsOffset? (offset + line.length) rest

theorem splitAtReturns?_eq_none_iff :
    splitAtReturns? lines = none ↔ ∀ line ∈ lines, opensReturns line = false := by
  induction lines with
  | nil => simp [splitAtReturns?]
  | cons line rest hypothesis =>
      rw [splitAtReturns?, List.forall_mem_cons, ← hypothesis]
      cases opens : opensReturns line with
      | true => simp [show Text.startsIgnoringCase returnsWord line = true from opens]
      | false => simp [show Text.startsIgnoringCase returnsWord line = false from opens]

/-- Lines are cut at the first that opens a returns paragraph. -/
theorem of_splitAtReturns?_eq_some (split : splitAtReturns? lines = some (before, after)) :
    ∃ line rest, after = line :: rest ∧ lines = before ++ line :: rest ∧
      opensReturns line = true ∧ ∀ earlier ∈ before, opensReturns earlier = false := by
  induction lines generalizing before with
  | nil => cases split
  | cons first rest hypothesis =>
      rw [splitAtReturns?] at split
      split at split
      · rename_i opens
        cases split
        exact ⟨first, rest, rfl, rfl, opens, fun _ => nofun⟩
      · rename_i noStart
        obtain ⟨parts, isSplit, isCut⟩ := Option.map_eq_some_iff.1 split
        cases isCut
        obtain ⟨line, rest, isAfter, rfl, opens, earlier⟩ := hypothesis isSplit
        refine ⟨line, rest, isAfter, rfl, opens, List.forall_mem_cons.2 ⟨?_, earlier⟩⟩
        exact Bool.eq_false_iff.2 noStart

theorem splitAtReturns?_append
    (opens : opensReturns line = true)
    (earlier : ∀ earlier ∈ before, opensReturns earlier = false) :
    splitAtReturns? (before ++ line :: lines) = some (before, line :: lines) := by
  induction before with
  | nil =>
    rw [List.nil_append, splitAtReturns?]
    exact if_pos opens
  | cons first rest hypothesis =>
    obtain ⟨noStart, earlier⟩ := List.forall_mem_cons.1 earlier
    rw [List.cons_append, splitAtReturns?, hypothesis earlier]
    exact if_neg (Bool.eq_false_iff.1 noStart)

/-- The offset of the line is the length of what stands before it. -/
theorem returnsOffset?_eq (offset : Nat) (lines : List (List Char)) :
    returnsOffset? offset lines =
      (splitAtReturns? lines).map fun parts => offset + parts.1.flatten.length := by
  induction lines generalizing offset with
  | nil => rfl
  | cons line rest hypothesis =>
      rw [returnsOffset?, splitAtReturns?, hypothesis]
      unfold opensReturns
      split
      · rfl
      · rw [Option.map_map]
        congr 1
        funext parts
        simp [Nat.add_assoc]

theorem ascii_of_mem_returnsWord : ∀ c ∈ returnsWord, c.toNat < 128 := by
  intro c listed
  have all : returnsWord.all (fun c => c.toNat < 128) = true := by decide
  exact of_decide_eq_true (List.all_eq_true.1 all c listed)

theorem byteLength_of_isWord
    {word : List Char}
    (isWord : Text.eqIgnoringCase word returnsWord = true) :
    Text.byteLength word = returnsWord.length := by
  have ascii := Text.ascii_of_eqIgnoringCase ascii_of_mem_returnsWord isWord
  rw [← Text.length_encoded, Text.encoded_of_ascii ascii, Text.length_of_eqIgnoringCase isWord]

theorem splitAtReturns?_encoded (lines : List (List Char)) :
    splitAtReturns? (lines.map Text.encoded) =
      (splitAtReturns? lines).map fun parts =>
        (parts.1.map Text.encoded, parts.2.map Text.encoded) := by
  induction lines with
  | nil => rfl
  | cons line rest hypothesis =>
      rw [List.map_cons, splitAtReturns?, splitAtReturns?, hypothesis,
        Text.startsIgnoringCase_encoded ascii_of_mem_returnsWord]
      split
      · rfl
      · rw [Option.map_map, Option.map_map]
        rfl

/-- The line is found in the bytes of a comment, at the offset of its first byte. -/
theorem returnsOffset?_encoded (comment : List Char) :
    returnsOffset? 0 (Text.splitInclusive (Text.encoded comment)) =
      (splitAtReturns? (Text.splitInclusive comment)).map fun parts =>
        Text.byteLength parts.1.flatten := by
  rw [Text.splitInclusive_encoded, returnsOffset?_eq, splitAtReturns?_encoded, Option.map_map]
  congr 1
  funext parts
  rw [← Text.length_encoded, Text.encoded_flatten, Function.comp_apply, Nat.zero_add]

/-! ## The pieces of a comment -/

/-- The pieces of a comment around the word that opens its returns paragraph. -/
structure ReturnsPieces where
  description : List Char
  gap : List Char
  word : List Char
  separator : List Char
  text : List Char
  ending : List Char
deriving DecidableEq, Repr

/-- A colon or a blank, as between the word and what is returned. -/
def isReturnsSeparator (c : Char) : Bool :=
  c == ':' || Text.isAsciiBlank c

/-- Pieces make up a comment, with no more than blanks and colons left out around the
description and the text. -/
structure ReturnsPieces.MakeUp (pieces : ReturnsPieces) (comment : List Char) : Prop where
  whole :
    comment = pieces.description ++ pieces.gap ++ pieces.word ++ pieces.separator ++ pieces.text ++
      pieces.ending
  isWord : Text.eqIgnoringCase pieces.word returnsWord = true
  gap : ∀ c ∈ pieces.gap, Text.isBlank c = true
  separator : ∀ c ∈ pieces.separator, isReturnsSeparator c = true
  ending : ∀ c ∈ pieces.ending, Text.isBlank c = true
  /-- The description does not end with a blank. -/
  description : ∀ c ∈ pieces.description.getLast?, Text.isBlank c = false
  /-- The text starts with neither a colon nor a blank. -/
  starts : ∀ c ∈ pieces.text.head?, isReturnsSeparator c = false
  /-- The text does not end with a blank. -/
  ends : ∀ c ∈ pieces.text.getLast?, Text.isBlank c = false

/-- A comment is cut at the byte at which its first line that opens a returns paragraph starts.
The description and the gap are the slice before it, and everything behind the word is the other
slice that is taken. -/
structure ReturnsPieces.CutAt
    (pieces : ReturnsPieces)
    (comment : String)
    (offset : Nat) : Prop where
  firstLine :
    ∃ before line after, Text.splitInclusive comment.toList = before ++ line :: after ∧
      opensReturns line = true ∧ (∀ earlier ∈ before, opensReturns earlier = false) ∧
      before.flatten = pieces.description ++ pieces.gap
  found : returnsOffset? 0 (Text.splitInclusive (commentBytes comment)) = some offset
  front : IsSlice comment ⟨0, offset⟩
  isFront :
    comment.toUTF8.extract 0 offset = (String.ofList (pieces.description ++ pieces.gap)).toUTF8
  back : IsSlice comment ⟨offset + returnsWord.length, comment.utf8ByteSize⟩
  isBack :
    comment.toUTF8.extract (offset + returnsWord.length) comment.utf8ByteSize =
      (String.ofList (pieces.separator ++ pieces.text ++ pieces.ending)).toUTF8

/-- A part of a comment is the slice from the length of what stands before it on. -/
theorem slice_of_parts
    {comment : String}
    {part : List Char}
    (front back : List Char)
    (parts : comment.toList = front ++ (part ++ back)) :
    let range : Range := ⟨Text.byteLength front, Text.byteLength front + Text.byteLength part⟩
    IsSlice comment range ∧
    comment.toUTF8.extract range.start range.stop = (String.ofList part).toUTF8 := by
  have starts : Text.byteOffset comment.toList front.length = Text.byteLength front := by
    rw [parts, Text.byteOffset_length_append]
  have stops : Text.byteOffset comment.toList (front.length + part.length) =
      Text.byteLength front + Text.byteLength part := by
    rw [parts, ← List.append_assoc, ← List.length_append, Text.byteOffset_length_append,
      Text.byteLength_append]
  have order : front.length ≤ front.length + part.length := Nat.le_add_right _ _
  dsimp only
  rw [← stops, ← starts, Text.extract_byteOffset comment order, Nat.add_sub_cancel_left, parts,
    List.drop_left, List.take_left]
  refine ⟨⟨?_, ?_, ?_⟩, rfl⟩
  · exact parts ▸ Text.byteOffset_mono _ order
  · exact parts ▸ Text.isValid_byteOffset _ _
  · exact parts ▸ Text.isValid_byteOffset _ _

/-- A comment is made up of pieces, whatever stands before the word and behind it. -/
theorem exists_makeUp
    {word : List Char}
    (front tail : List Char)
    (isWord : Text.eqIgnoringCase word returnsWord = true) :
    ∃ pieces : ReturnsPieces, pieces.MakeUp (front ++ word ++ tail) ∧
      pieces.description = Text.trimEnd front ∧
      pieces.text = Text.trimEnd (tail.dropWhile isReturnsSeparator) ∧
      pieces.description ++ pieces.gap = front ∧
      pieces.separator ++ pieces.text ++ pieces.ending = tail := by
  obtain ⟨gap, isFront, blankGap⟩ := Text.exists_trimEnd front
  obtain ⟨ending, isBody, blankEnding⟩ :=
    Text.exists_trimEnd (tail.dropWhile isReturnsSeparator)
  have isTail : tail = tail.takeWhile isReturnsSeparator ++
      Text.trimEnd (tail.dropWhile isReturnsSeparator) ++ ending := by
    rw [List.append_assoc, ← isBody, List.takeWhile_append_dropWhile]
  have begins : Text.trimEnd (tail.dropWhile isReturnsSeparator) <+:
      tail.dropWhile isReturnsSeparator :=
    Text.dropEndWhile_begins Text.isBlank _
  refine ⟨{
    description := Text.trimEnd front
    gap
    word
    separator := tail.takeWhile isReturnsSeparator
    text := Text.trimEnd (tail.dropWhile isReturnsSeparator)
    ending }, ?_, rfl, rfl, isFront.symm, isTail.symm⟩
  exact {
    whole := by
      dsimp only
      rw [← isFront, List.append_assoc (front ++ word), List.append_assoc (front ++ word), ← isTail]
    isWord
    gap := blankGap
    separator := fun _ => List.mem_takeWhile_imp
    ending := blankEnding
    description := Text.getLast?_rdropWhile Text.isBlank front
    starts := Text.head?_of_prefix (Text.head?_dropWhile isReturnsSeparator tail) begins
    ends := Text.getLast?_rdropWhile Text.isBlank _ }

/-- The pieces around a word that opens a line are cut out between two characters. -/
theorem cutAt_of_lines
    {comment : String}
    {pieces : ReturnsPieces}
    {word rest : List Char}
    (lines : Text.splitInclusive comment.toList = before ++ (word ++ rest) :: after)
    (isWord : Text.eqIgnoringCase word returnsWord = true)
    (opens : opensReturns (word ++ rest) = true)
    (earlier : ∀ line ∈ before, opensReturns line = false)
    (isFront : pieces.description ++ pieces.gap = before.flatten)
    (isTail : pieces.separator ++ pieces.text ++ pieces.ending = rest ++ after.flatten) :
    pieces.CutAt comment (Text.byteLength before.flatten) := by
  have isSplit : splitAtReturns? (Text.splitInclusive comment.toList) =
      some (before, (word ++ rest) :: after) := by
    rw [lines, splitAtReturns?_append opens earlier]
  have isComment : comment.toList = before.flatten ++ (word ++ (rest ++ after.flatten)) := by
    rw [← Text.flatten_splitInclusive comment.toList, lines, List.flatten_append,
      List.flatten_cons, List.append_assoc]
  have inFront := slice_of_parts [] _ isComment
  have behind := slice_of_parts (before.flatten ++ word) []
    (by rw [isComment, List.append_nil, List.append_assoc])
  have offset : Text.byteLength (before.flatten ++ word) =
      Text.byteLength before.flatten + returnsWord.length := by
    rw [Text.byteLength_append, byteLength_of_isWord isWord]
  have size : Text.byteLength (before.flatten ++ word) + Text.byteLength (rest ++ after.flatten) =
      comment.utf8ByteSize := by
    rw [← Text.byteLength_append, List.append_assoc, ← isComment, ← Text.size_ofList,
      String.ofList_toList]
  have zero : Text.byteLength [] = 0 := rfl
  rw [zero, Nat.zero_add] at inFront
  rw [size, offset] at behind
  exact {
    firstLine := ⟨before, word ++ rest, after, lines, opens, earlier, isFront.symm⟩
    found := by
      rw [commentBytes, Text.toList_ofLatin1_toUTF8, returnsOffset?_encoded, isSplit,
        Option.map_some]
    front := inFront.1
    isFront := by
      rw [isFront]
      exact inFront.2
    back := behind.1
    isBack := by
      rw [isTail]
      exact behind.2 }

/-- A description has no returns paragraph exactly if none of its lines starts with the word.
Otherwise it is made up of what is returned, the word, and blanks and colons around them; the
first line that starts with the word begins where the description is cut, and both slices of
its bytes that are taken start and end between two characters. -/
theorem splitReturns_partitions (comment : String) :
    (splitReturns? comment = none ↔
      ∀ line ∈ Text.splitInclusive comment.toList, opensReturns line = false) ∧
    ∀ description text, splitReturns? comment = some (description, text) →
      ∃ (pieces : ReturnsPieces) (offset : Nat),
        description = nonEmpty? pieces.description ∧ text = nonEmpty? pieces.text ∧
        pieces.MakeUp comment.toList ∧ pieces.CutAt comment offset := by
  refine ⟨?_, fun description text split => ?_⟩
  · rw [splitReturns?, Option.map_eq_none_iff, splitAtReturns?_eq_none_iff]
  · obtain ⟨⟨before, after⟩, isSplit, isCut⟩ := Option.map_eq_some_iff.1 split
    obtain ⟨line, later, rfl, lines, opens, earlier⟩ := of_splitAtReturns?_eq_some isSplit
    obtain ⟨word, rest, rfl, isWord⟩ := Text.exists_of_startsIgnoringCase opens
    have isComment : comment.toList = before.flatten ++ word ++ (rest ++ later.flatten) := by
      rw [← Text.flatten_splitInclusive comment.toList, lines, List.flatten_append,
        List.flatten_cons, List.append_assoc, List.append_assoc]
    obtain ⟨pieces, makeUp, isDescription, isText, isFront, isTail⟩ :=
      exists_makeUp before.flatten (rest ++ later.flatten) isWord
    have dropped : ((word ++ rest) :: later).flatten.drop returnsWord.length =
        rest ++ later.flatten := by
      rw [List.flatten_cons, List.append_assoc, ← Text.length_of_eqIgnoringCase isWord,
        List.drop_left]
    obtain ⟨rfl, rfl⟩ := Prod.mk.inj isCut
    refine ⟨pieces, Text.byteLength before.flatten, congrArg nonEmpty? isDescription.symm, ?_,
      isComment ▸ makeUp, cutAt_of_lines lines isWord opens earlier isFront isTail⟩
    rw [dropped, isText]
    rfl

-- the characters before the line and behind the word take more than one byte
theorem splitReturns_partitions_accents :
    splitReturns? "Aé. \n\nReturns : ü\n" = some (some "Aé.", some "ü") ∧
    ∃ (pieces : ReturnsPieces) (offset : Nat),
      some "Aé." = nonEmpty? pieces.description ∧ some "ü" = nonEmpty? pieces.text ∧
      pieces.MakeUp "Aé. \n\nReturns : ü\n".toList ∧
      pieces.CutAt "Aé. \n\nReturns : ü\n" offset :=
  have split : splitReturns? "Aé. \n\nReturns : ü\n" = some (some "Aé.", some "ü") := by decide
  ⟨split, (splitReturns_partitions "Aé. \n\nReturns : ü\n").2 (some "Aé.") (some "ü") split⟩

end Prose
end DeclManual
