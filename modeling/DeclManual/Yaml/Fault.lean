/-!
# Faults of a YAML file

The causes for which a file is refused: it is not well formed, or a value in it
does not have the shape that is asked for.
-/

namespace DeclManual
namespace Yaml

/-- Why a file is refused. -/
inductive Fault where
  | unreadable (cause : String)
  | notUnicode
  | forbiddenCharacter
  | missingColon
  | misplacedEntry
  | misplacedKey
  | misplacedValue
  | unexpectedCharacter
  | unexpectedColon
  | unexpectedEnd
  | unexpectedMarker
  | faultyDirective
  | incompatibleVersion
  | faultyAnchor
  | unknownAnchor (name : String)
  | faultyTag
  | unknownTagHandle (handle : String)
  | repeatedDirective
  | faultyBlockHeader
  | tabIndentation
  | unknownEscape
  | invalidCharacterCode
  | expectedNode
  | expectedEntry
  | expectedKey
  | expectedSeparator
  | expectedDocumentStart
  | severalDocuments
  | wrongShape (expected : String)
  | repeatedField (name : String)
  | unknownChoice (name : String)
deriving DecidableEq, Repr, Inhabited

/-- The wording of a fault. -/
def Fault.message : Fault -> String
  | .unreadable cause => cause
  | .notUnicode => "invalid UTF-8"
  | .forbiddenCharacter => "control characters are not allowed"
  | .missingColon => "could not find expected ':'"
  | .misplacedEntry => "block sequence entries are not allowed in this context"
  | .misplacedKey => "mapping keys are not allowed in this context"
  | .misplacedValue => "mapping values are not allowed in this context"
  | .unexpectedCharacter => "found character that cannot start any token"
  | .unexpectedColon => "found unexpected ':'"
  | .unexpectedEnd => "found unexpected end of stream"
  | .unexpectedMarker => "found unexpected document indicator"
  | .faultyDirective => "did not find a valid directive"
  | .incompatibleVersion => "found incompatible YAML document"
  | .faultyAnchor => "did not find expected alphabetic or numeric character"
  | .unknownAnchor name => "unknown anchor " ++ name
  | .faultyTag => "did not find a valid tag"
  | .unknownTagHandle handle => "found undefined tag handle " ++ handle
  | .repeatedDirective => "found duplicate directive"
  | .faultyBlockHeader => "did not find expected comment or line break"
  | .tabIndentation => "found a tab character that violates indentation"
  | .unknownEscape => "found unknown escape character"
  | .invalidCharacterCode => "found invalid Unicode character escape code"
  | .expectedNode => "did not find expected node content"
  | .expectedEntry => "did not find expected '-' indicator"
  | .expectedKey => "did not find expected key"
  | .expectedSeparator => "did not find expected ',' or closing bracket"
  | .expectedDocumentStart => "did not find expected <document start>"
  | .severalDocuments => "more than one document"
  | .wrongShape expected => "invalid type: expected " ++ expected
  | .repeatedField name => "duplicate field " ++ name
  | .unknownChoice name => "unknown variant " ++ name

end Yaml
end DeclManual
