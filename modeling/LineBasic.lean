import LineBasic.Main
import LineBasic.Proofs.ArrayCells
import LineBasic.Proofs.BranchPlacement
import LineBasic.Proofs.Breaks
import LineBasic.Proofs.Cells
import LineBasic.Proofs.Characters
import LineBasic.Proofs.CommandOutcomes
import LineBasic.Proofs.CommandReadings
import LineBasic.Proofs.Continuing
import LineBasic.Proofs.ControlFlow
import LineBasic.Proofs.Conversions
import LineBasic.Proofs.DataReading
import LineBasic.Proofs.Effects
import LineBasic.Proofs.ErrorColumns
import LineBasic.Proofs.EvaluationFaults
import LineBasic.Proofs.EvaluationFrame
import LineBasic.Proofs.ExactNumbers
import LineBasic.Proofs.Execution
import LineBasic.Proofs.ExpressionReadings
import LineBasic.Proofs.FewestTokens
import LineBasic.Proofs.Flattening
import LineBasic.Proofs.FreshRuns
import LineBasic.Proofs.Lexed
import LineBasic.Proofs.Lexemes
import LineBasic.Proofs.LineNumber
import LineBasic.Proofs.LineTables
import LineBasic.Proofs.ListedLine
import LineBasic.Proofs.ListingChecksum
import LineBasic.Proofs.LoadOutcomes
import LineBasic.Proofs.LoopHistory
import LineBasic.Proofs.LoopVariables
import LineBasic.Proofs.ObservedEvaluation
import LineBasic.Proofs.Openings
import LineBasic.Proofs.Overwriting
import LineBasic.Proofs.ParserOutcomes
import LineBasic.Proofs.ParserRuns
import LineBasic.Proofs.PatchOverrides
import LineBasic.Proofs.PrintColumn
import LineBasic.Proofs.ProgramMap
import LineBasic.Proofs.QuotedText
import LineBasic.Proofs.RandomStates
import LineBasic.Proofs.ReadingBack
import LineBasic.Proofs.Redirecting
import LineBasic.Proofs.Relisting
import LineBasic.Proofs.Reloading
import LineBasic.Proofs.Renumbering
import LineBasic.Proofs.Replies
import LineBasic.Proofs.ReturnOrder
import LineBasic.Proofs.SaveThenLoad
import LineBasic.Proofs.SavedFiles
import LineBasic.Proofs.SavedPositions
import LineBasic.Proofs.Sessions
import LineBasic.Proofs.Setup
import LineBasic.Proofs.SilentCommands
import LineBasic.Proofs.Skeleton
import LineBasic.Proofs.SkippedLoops
import LineBasic.Proofs.StackBound
import LineBasic.Proofs.StatementReadings
import LineBasic.Proofs.SteadyExpressions
import LineBasic.Proofs.StoreInvariant
import LineBasic.Proofs.Storing
import LineBasic.Proofs.Subroutines
import LineBasic.Proofs.Swapping
import LineBasic.Proofs.Tables
import LineBasic.Proofs.Tiling
import LineBasic.Proofs.Trimming
import LineBasic.Proofs.Turns
import LineBasic.Proofs.TwoReadings
import LineBasic.Proofs.WholeLines
import LineBasic.Proofs.Words
import LineBasic.Proofs.WrittenData
import LineBasic.Proofs.WrittenExpressions
import LineBasic.Proofs.WrittenNumber
