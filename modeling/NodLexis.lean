import NodLexis.Tokenize
import NodLexis.Diagnostic
import NodLexis.Proofs.Defect
import NodLexis.Proofs.ScannerRuns
import NodLexis.Proofs.TokenRuns
import NodLexis.Proofs.LiteralRuns
import NodLexis.Proofs.Outcome
import NodLexis.Proofs.Segmentation
import NodLexis.Proofs.ScannerCalls
import NodLexis.Proofs.Coverage
import NodLexis.Proofs.FailureShape
import NodLexis.Proofs.LiteralDecoding
import NodLexis.Proofs.LiteralGrammar
import NodLexis.Proofs.Tracking
import NodLexis.Proofs.Concatenation
import NodLexis.Proofs.Locality
import NodLexis.Proofs.Resumption
import NodLexis.Proofs.Munch
import NodLexis.Proofs.LineTable
import NodLexis.Proofs.Caret
import NodLexis.Proofs.InBounds
import NodLexis.Proofs.Respacing
import NodLexis.Proofs.Restart
import NodLexis.Proofs.OffsetRestart
import NodLexis.Proofs.Termination
import NodLexis.Proofs.Transcript
import NodLexis.Proofs.PendingText
import NodLexis.Proofs.KindFamilies
import NodLexis.Proofs.TokenDisplay
import NodLexis.Proofs.CodePoints
