/-!
# Searching a text

Cutting a text at the first or last occurrence of a character, or at the first
occurrence of a word.  Each cut returns what stands before and after it.
-/

namespace DeclManual
namespace Text

/-- What stands before and after the first occurrence of a character. -/
def splitFirst? (mark : Char) : List Char -> Option (List Char × List Char)
  | [] => none
  | c :: rest =>
    if c = mark then some ([], rest)
    else (splitFirst? mark rest).map fun parts => (c :: parts.1, parts.2)

/-- What stands before and after the last occurrence of a character. -/
def splitLast? (mark : Char) (text : List Char) : Option (List Char × List Char) :=
  (splitFirst? mark text.reverse).map fun parts => (parts.2.reverse, parts.1.reverse)

/-- What stands before and after the first occurrence of a word. -/
def splitAtWord? (word : List Char) : List Char -> Option (List Char × List Char)
  | [] => if word.isEmpty then some ([], []) else none
  | c :: rest =>
    match word.isPrefixOf? (c :: rest) with
    | some after => some ([], after)
    | none => (splitAtWord? word rest).map fun parts => (c :: parts.1, parts.2)

/-- The part of a text after the last occurrence of a character, or all of it. -/
def afterLast (mark : Char) (text : List Char) : List Char :=
  match splitLast? mark text with
  | some (_, after) => after
  | none => text

/-- The part of a text before the last occurrence of a character, or all of it. -/
def beforeLast (mark : Char) (text : List Char) : List Char :=
  match splitLast? mark text with
  | some (before, _) => before
  | none => text

/-- The parts of the first cut make up the text. -/
theorem eq_append_of_splitFirst? {mark : Char} {text before after : List Char}
    (found : splitFirst? mark text = some (before, after)) :
    text = before ++ mark :: after := by
  induction text generalizing before with
  | nil => simp [splitFirst?] at found
  | cons c rest ih =>
    unfold splitFirst? at found
    split at found
    · simp_all
    · obtain ⟨⟨first, last⟩, inner, equal⟩ := Option.map_eq_some_iff.1 found
      simp only [Prod.mk.injEq] at equal
      obtain ⟨rfl, rfl⟩ := equal
      simp [ih inner]

end Text
end DeclManual
