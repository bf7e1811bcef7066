import DeclManual.CommandLine.Run
import DeclManual.Main
import DeclManual.Proofs.Source.Spelling
import DeclManual.Proofs.Source.Attachment
import DeclManual.Proofs.Source.CommentOwners
import DeclManual.Proofs.Source.Locality
import DeclManual.Proofs.Source.Renumbering
import DeclManual.Proofs.Grammar.Run
import DeclManual.Proofs.Grammar.Progress
import DeclManual.Proofs.Grammar.Completion
import DeclManual.Proofs.Grammar.DeclaratorReading
import DeclManual.Proofs.Grammar.InPlace
import DeclManual.Proofs.Grammar.DeclaratorInPlace
import DeclManual.Proofs.Grammar.Quiet
import DeclManual.Proofs.Grammar.NamedDeclarator
import DeclManual.Proofs.Grammar.WrittenParameter
import DeclManual.Proofs.Grammar.OldStyle
import DeclManual.Proofs.Page.Nesting
import DeclManual.Proofs.Page.Surface
import DeclManual.Proofs.Markup.Html
import DeclManual.Proofs.Files.Isolation
import DeclManual.Proofs.Files.Groups
import DeclManual.Proofs.Session.Reachable
import DeclManual.Proofs.Page.Hidden
import DeclManual.Proofs.Files.PagePaths
import DeclManual.Proofs.Files.Storing
import DeclManual.Proofs.Files.Grouping
import DeclManual.Proofs.Files.References
import DeclManual.Proofs.Grammar.Fork
import DeclManual.Proofs.Grammar.BlindDeclarations
import DeclManual.Proofs.Grammar.Bodies
import DeclManual.Proofs.Source.MarkerNumbers
import DeclManual.Proofs.Grammar.ListComments
import DeclManual.Proofs.Grammar.Attributes
import DeclManual.Proofs.Grammar.Gap
import DeclManual.Proofs.Grammar.FollowingDeclarators
import DeclManual.Proofs.Grammar.Prototypes
import DeclManual.Proofs.Page.ExactMarks
import DeclManual.Proofs.Symbol.Histories
import DeclManual.Proofs.Source.Positions
import DeclManual.Proofs.Source.CarriageReturns
import DeclManual.Proofs.Prose.Fixup
import DeclManual.Proofs.Prose.Lines
import DeclManual.Proofs.Prose.Dash
import DeclManual.Proofs.Prose.Passages
import DeclManual.Proofs.Prose.Ranges
import DeclManual.Proofs.Prose.Coverage
import DeclManual.Proofs.Text.Bytes
import DeclManual.Proofs.Prose.ScanBytes
import DeclManual.Proofs.Prose.Slices
import DeclManual.Proofs.Prose.Composition
import DeclManual.Proofs.Markup.Escaping
import DeclManual.Proofs.Prose.Returns
import DeclManual.Proofs.Page.NamedSections
import DeclManual.Proofs.Decl.Derivations
import DeclManual.Proofs.Session.Distribution
import DeclManual.Proofs.Session.ParameterConflicts
import DeclManual.Proofs.Source.CleanedComments
import DeclManual.Proofs.Prose.TerseLine
import DeclManual.Proofs.Options.Layout
import DeclManual.Proofs.Markup.WrappedReferences
import DeclManual.Proofs.Session.TypedefNames
import DeclManual.Proofs.Prose.ReturnsParagraph
import DeclManual.Proofs.Grammar.MatchingBrackets
import DeclManual.Proofs.Grammar.EnumeratorComments
