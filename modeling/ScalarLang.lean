import ScalarLang.Main
import ScalarLang.Proofs.Number.Nearest
import ScalarLang.Proofs.Number.Reading
import ScalarLang.Proofs.Number.Whole
import ScalarLang.Proofs.Number.Writing
import ScalarLang.Proofs.Number.Signed
import ScalarLang.Proofs.Number.Distance
import ScalarLang.Proofs.Number.NormalForm
import ScalarLang.Proofs.Syntax.Recovery
import ScalarLang.Proofs.Syntax.ViablePrefix
import ScalarLang.Proofs.Analysis.Expression
import ScalarLang.Proofs.Analysis.Signature
import ScalarLang.Proofs.Analysis.Violation
import ScalarLang.Proofs.Analysis.DeclaredType
import ScalarLang.Proofs.Analysis.Execution
import ScalarLang.Proofs.Analysis.Propagation
import ScalarLang.Proofs.Source.Fatal
import ScalarLang.Proofs.Source.Recompilation
import ScalarLang.Proofs.Source.Canonical
import ScalarLang.Proofs.Source.Diagnosis
import ScalarLang.Proofs.Source.Constants
import ScalarLang.Proofs.Text.Decoding
import ScalarLang.Proofs.Token.Placement
import ScalarLang.Proofs.Token.LongestMatch
import ScalarLang.Proofs.Analysis.Presence
import ScalarLang.Proofs.Analysis.Extension
import ScalarLang.Proofs.Source.Joining
import ScalarLang.Proofs.Source.Order
import ScalarLang.Proofs.Analysis.Relocation
import ScalarLang.Proofs.Source.Columns
import ScalarLang.Proofs.Source.Conversion
import ScalarLang.Proofs.Batch.Interleaving
import ScalarLang.Proofs.CommandLine.Concatenation
import ScalarLang.Proofs.Analysis.Conformance
import ScalarLang.Proofs.Analysis.Exchange
import ScalarLang.Proofs.Source.Range
import ScalarLang.Proofs.Analysis.Renaming
import ScalarLang.Proofs.Analysis.Parentheses
import ScalarLang.Proofs.Analysis.Conclusion
import ScalarLang.Proofs.Symbols.History
import ScalarLang.Proofs.Source.Supply
