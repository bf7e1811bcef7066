/-!
# Keywords

The words that cannot be the name of a declared object.
-/

namespace DeclManual
namespace Grammar

/-- The words of types without a marker of their own. -/
def typeKeywords : List String :=
  ["void", "int", "long", "signed", "unsigned", "double", "_Bool", "_Complex", "__signed__",
    "__int128"]

/-- The type qualifiers. -/
def qualifiers : List String :=
  ["const", "volatile", "restrict", "__restrict", "__restrict__", "__const", "__volatile__",
    "_Atomic"]

/-- The words that introduce an attribute. -/
def attributes : List String :=
  ["__attribute__", "__attribute", "__declspec", "__asm__", "__asm", "asm"]

/-- The spellings of `inline`. -/
def inlineWords : List String :=
  ["inline", "__inline", "__inline__"]

/-- The other keywords. -/
def otherKeywords : List String :=
  ["typedef", "extern", "static", "auto", "register", "char", "short", "float", "struct",
    "union", "enum", "__extension__"]

/-- Whether a word is a keyword. -/
def isKeyword (word : String) : Bool :=
  typeKeywords.contains word || qualifiers.contains word || attributes.contains word ||
    inlineWords.contains word || otherKeywords.contains word

end Grammar
end DeclManual
