import SheetFormula.Json.Print
import SheetFormula.Json.Read
import SheetFormula.Log.Journal
import SheetFormula.Log.Report
import SheetFormula.Log.Store
import SheetFormula.Main
import SheetFormula.Outcome
import SheetFormula.Parse
import SheetFormula.Proofs.Arguments
import SheetFormula.Proofs.Attribution
import SheetFormula.Proofs.BalancedStreams
import SheetFormula.Proofs.CommandRuns
import SheetFormula.Proofs.CompactFormulas
import SheetFormula.Proofs.Delimiters
import SheetFormula.Proofs.ErrorLiterals
import SheetFormula.Proofs.Grammar.Rendering
import SheetFormula.Proofs.Indentation
import SheetFormula.Proofs.Ledger
import SheetFormula.Proofs.LogLines
import SheetFormula.Proofs.Normalization
import SheetFormula.Proofs.OperatorPlacement
import SheetFormula.Proofs.OptionTerminator
import SheetFormula.Proofs.OutcomeRoundTrip
import SheetFormula.Proofs.PassesPointwise
import SheetFormula.Proofs.PendingText
import SheetFormula.Proofs.Reclassification
import SheetFormula.Proofs.RecoveryLog
import SheetFormula.Proofs.Segmentation
import SheetFormula.Proofs.StoredEvents
import SheetFormula.Proofs.StructureCheck
import SheetFormula.Proofs.TokenCursor
import SheetFormula.Proofs.TokenEvents
import SheetFormula.Scan.Result
import SheetFormula.Settings.Document
import SheetFormula.SortedMap
import SheetFormula.Text.Blank
import SheetFormula.Text.Decimal
import SheetFormula.Token.List
import SheetFormula.Token.ScopeStack
import SheetFormula.Toml.Document
