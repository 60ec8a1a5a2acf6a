import PatternLowering.LogSettings
import PatternLowering.Main
import PatternLowering.Proofs.ByteSteps
import PatternLowering.Proofs.CallChains
import PatternLowering.Proofs.DottedNames
import PatternLowering.Proofs.Erasure
import PatternLowering.Proofs.EscapeArithmetic
import PatternLowering.Proofs.EvaluationOrder
import PatternLowering.Proofs.JsonOrigins
import PatternLowering.Proofs.LineBreaks
import PatternLowering.Proofs.Minting
import PatternLowering.Proofs.OperatorChains
import PatternLowering.Proofs.OutputPaths
import PatternLowering.Proofs.RelaxedJson
import PatternLowering.Proofs.Remainder
import PatternLowering.Proofs.Reuse
import PatternLowering.Proofs.ScopeNesting
import PatternLowering.Proofs.Snippets
import PatternLowering.Proofs.TempHistories
import PatternLowering.Proofs.WellFormedPatterns
