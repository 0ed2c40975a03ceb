import EventScript.Condition
import EventScript.Config
import EventScript.Context
import EventScript.Data
import EventScript.Dict
import EventScript.Engine.Basic
import EventScript.Engine.Execution
import EventScript.Engine.Pool
import EventScript.Expression
import EventScript.Host
import EventScript.Line
import EventScript.MainQueue
import EventScript.Number.Binary
import EventScript.Number.Format
import EventScript.Number.Reader
import EventScript.Number.Shortest
import EventScript.Outcome
import EventScript.Process
import EventScript.Proofs.AskedPermissions
import EventScript.Proofs.BracedNames
import EventScript.Proofs.BuiltScripts
import EventScript.Proofs.CallerLocals
import EventScript.Proofs.CancelFlags
import EventScript.Proofs.Cancellation
import EventScript.Proofs.CanonicalLines
import EventScript.Proofs.CanonicalRoundTrip
import EventScript.Proofs.CommandPermissions
import EventScript.Proofs.Company
import EventScript.Proofs.CompanyRuns
import EventScript.Proofs.ComparedValues
import EventScript.Proofs.ConditionForm
import EventScript.Proofs.Connectives
import EventScript.Proofs.ControlFlow
import EventScript.Proofs.Deadline
import EventScript.Proofs.ElseChains
import EventScript.Proofs.EngineOperations
import EventScript.Proofs.FirstError
import EventScript.Proofs.FirstReading
import EventScript.Proofs.FlagSteps
import EventScript.Proofs.FloatOrder
import EventScript.Proofs.FloatSums
import EventScript.Proofs.FormOrder
import EventScript.Proofs.HandlersApart
import EventScript.Proofs.HostEffects
import EventScript.Proofs.Invocations
import EventScript.Proofs.LineOrder
import EventScript.Proofs.LineParts
import EventScript.Proofs.ListIndexes
import EventScript.Proofs.ListSharing
import EventScript.Proofs.LoopPasses
import EventScript.Proofs.Machine
import EventScript.Proofs.MemorySteps
import EventScript.Proofs.Nesting
import EventScript.Proofs.OpenBlocks
import EventScript.Proofs.OperatorForm
import EventScript.Proofs.OrphanElse
import EventScript.Proofs.PaddedTerms
import EventScript.Proofs.PermissionChecks
import EventScript.Proofs.PhraseSeams
import EventScript.Proofs.QueueOrder
import EventScript.Proofs.QuoteSeams
import EventScript.Proofs.QuotedArguments
import EventScript.Proofs.ReadBack
import EventScript.Proofs.ReadingOn
import EventScript.Proofs.RealmRuns
import EventScript.Proofs.Realms
import EventScript.Proofs.Reaping
import EventScript.Proofs.ReferenceReads
import EventScript.Proofs.RefusedRequests
import EventScript.Proofs.Reloading
import EventScript.Proofs.Rereading
import EventScript.Proofs.RunResult
import EventScript.Proofs.RunSteps
import EventScript.Proofs.RunningStatements
import EventScript.Proofs.SayableClauses
import EventScript.Proofs.ScalarTexts
import EventScript.Proofs.ShiftedValues
import EventScript.Proofs.Shutdown
import EventScript.Proofs.SmallLetters
import EventScript.Proofs.SourceRoundTrip
import EventScript.Proofs.StatementTree
import EventScript.Proofs.StoreCells
import EventScript.Proofs.StoreFree
import EventScript.Proofs.StoredValues
import EventScript.Proofs.TaskLife
import EventScript.Proofs.TestedVariables
import EventScript.Proofs.TextLines
import EventScript.Proofs.UnquotedPieces
import EventScript.Proofs.WholeRuns
import EventScript.Proofs.WriteSet
import EventScript.Proofs.WrittenForms
import EventScript.Proofs.WrittenParts
import EventScript.Readings
import EventScript.Reference
import EventScript.Run
import EventScript.Scheduler
import EventScript.Script
import EventScript.Shape
import EventScript.Source
import EventScript.Statement
import EventScript.Statement.Export
import EventScript.Statement.Printer
import EventScript.Statement.Record
import EventScript.Store
import EventScript.Table
import EventScript.Text.Blank
import EventScript.Text.CodeRange
import EventScript.Text.Digit
import EventScript.Text.Lines
import EventScript.Text.Literal
import EventScript.Text.LowerCase
import EventScript.Text.Printable
import EventScript.Text.Quoted
import EventScript.Text.Search
import EventScript.Text.WordChar
import EventScript.Value
