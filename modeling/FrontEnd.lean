import FrontEnd.Property.Session
import FrontEnd.Render.Recording
import FrontEnd.Files.Tree
import FrontEnd.Main
import FrontEnd.Proofs.TypingRuns
import FrontEnd.Proofs.Lineage
import FrontEnd.Proofs.TypingDerivations
import FrontEnd.Proofs.TypingSoundness
import FrontEnd.Proofs.ReadBack
import FrontEnd.Proofs.Lowering
import FrontEnd.Proofs.CarriedLocals
import FrontEnd.Proofs.RoundTrip
import FrontEnd.Proofs.Rereading
import FrontEnd.Proofs.ReferenceCounts
import FrontEnd.Proofs.LexerRuns
import FrontEnd.Proofs.Emission
import FrontEnd.Proofs.CommonSupertypes
import FrontEnd.Proofs.TypingCompleteness
import FrontEnd.Proofs.Typability
import FrontEnd.Proofs.HierarchyAcceptance
import FrontEnd.Proofs.TypingAgreement
import FrontEnd.Proofs.Heights
import FrontEnd.Proofs.StatementLines
import FrontEnd.Proofs.CaseRules
import FrontEnd.Proofs.Spellings
import FrontEnd.Proofs.References
import FrontEnd.Proofs.TokenConstants
import FrontEnd.Proofs.ArrayTypes
import FrontEnd.Proofs.DescribedRules
import FrontEnd.Proofs.Rendering
import FrontEnd.Proofs.Refusals
import FrontEnd.Proofs.TypeOrder
import FrontEnd.Proofs.DeclaredTypes
import FrontEnd.Proofs.SpecTexts
import FrontEnd.Proofs.LiteralIndex
import FrontEnd.Proofs.Resolution
import FrontEnd.Proofs.Rewinding
import FrontEnd.Proofs.Coverage
import FrontEnd.Proofs.InheritedFields
import FrontEnd.Proofs.Casings
import FrontEnd.Proofs.TypeTexts
import FrontEnd.Proofs.Spacing
import FrontEnd.Proofs.LocalNames
import FrontEnd.Proofs.ReadableTexts
import FrontEnd.Proofs.BoundedDescent
