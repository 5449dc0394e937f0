import Verbatim.Processor.Tampered
import Verbatim.Proofs.AssemblyAcceptance
import Verbatim.Proofs.DocumentCharacters
import Verbatim.Proofs.DocumentLimits
import Verbatim.Proofs.DocumentRendering
import Verbatim.Proofs.MiniJavaConsuming
import Verbatim.Proofs.MiniJavaGroups
import Verbatim.Proofs.MiniJavaLexing
import Verbatim.Proofs.MiniJavaNesting
import Verbatim.Proofs.MiniJavaOperatorChains
import Verbatim.Proofs.MiniJavaOperatorTrees
import Verbatim.Proofs.MiniJavaTermination
import Verbatim.Proofs.PositionBytes
import Verbatim.Proofs.RegistryHistory
import Verbatim.Proofs.ToolOutput
import Verbatim.Proofs.TreeEquality
import Verbatim.Proofs.TreeRanges
import Verbatim.Proofs.TreeSpans
import Verbatim.Proofs.VerifyMismatches
import Verbatim.Proofs.VerifyPositions
import Verbatim.Words
