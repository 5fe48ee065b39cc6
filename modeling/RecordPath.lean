import RecordPath.Admission
import RecordPath.Client.Batch
import RecordPath.Client.Guard
import RecordPath.Client.Item
import RecordPath.Client.ItemForm
import RecordPath.Client.Native
import RecordPath.Client.Single
import RecordPath.CommandLine.Invocation
import RecordPath.CommandLine.Run
import RecordPath.Config.Basic
import RecordPath.Config.Form
import RecordPath.Decimal.BinaryFormat
import RecordPath.Decimal.Layout
import RecordPath.Decimal.Shortest
import RecordPath.Error
import RecordPath.Filter.Fault
import RecordPath.Filter.Lexeme
import RecordPath.Filter.Parser
import RecordPath.Filter.Predicate
import RecordPath.Filter.Rendering
import RecordPath.Json.Comparison
import RecordPath.Json.Form
import RecordPath.Json.Location
import RecordPath.Json.Normalized
import RecordPath.Json.Numeral
import RecordPath.Json.Printer
import RecordPath.Json.Reader
import RecordPath.Json.Value
import RecordPath.Json.Written
import RecordPath.Main
import RecordPath.Members
import RecordPath.Operation
import RecordPath.Path.Compiled
import RecordPath.Path.Fault
import RecordPath.Path.Name
import RecordPath.Path.Token
import RecordPath.Path.Tokenizer
import RecordPath.Query.Aggregate
import RecordPath.Query.Edit
import RecordPath.Query.Expression
import RecordPath.Query.Reader
import RecordPath.Query.Rendering
import RecordPath.Query.Run
import RecordPath.Query.Selection
import RecordPath.Store.Action
import RecordPath.Store.Exchange
import RecordPath.Store.Fault
import RecordPath.Store.Interposed
import RecordPath.Store.Key
import RecordPath.Store.Memory
import RecordPath.Store.Record
import RecordPath.Text.Alphabetic
import RecordPath.Text.Alphanumeric
import RecordPath.Text.Blank
import RecordPath.Text.Hex
import RecordPath.Text.Natural
import RecordPath.Text.Numeric
import RecordPath.Text.Position
import RecordPath.Text.Quoted
import RecordPath.Text.Ranges
import RecordPath.Proofs.Admission
import RecordPath.Proofs.Json.NormalizedRoundTrip
import RecordPath.Proofs.Json.Regular
import RecordPath.Proofs.Outcomes
import RecordPath.Proofs.Client.Protocol
import RecordPath.Proofs.Query.Places
import RecordPath.Proofs.Json.Shell
import RecordPath.Proofs.Query.Replacement
import RecordPath.Proofs.Query.Growth
import RecordPath.Proofs.Store.Writes
import RecordPath.Proofs.Store.History
import RecordPath.Proofs.Client.Pool
import RecordPath.Proofs.Client.Serializability
import RecordPath.Proofs.Batch.Rounds
import RecordPath.Proofs.Store.WriteBack
import RecordPath.Proofs.Batch.Slots
import RecordPath.Proofs.Batch.Stages
import RecordPath.Proofs.Query.Faults
import RecordPath.Proofs.Batch.SingleItem
import RecordPath.Proofs.Path.Spelling
import RecordPath.Proofs.Path.Division
import RecordPath.Proofs.Path.Parts
import RecordPath.Proofs.Path.Suffix
import RecordPath.Proofs.Client.Atomicity
import RecordPath.Proofs.Client.Rewriting
import RecordPath.Proofs.Client.Deletion
import RecordPath.Proofs.Filter.Grammar
import RecordPath.Proofs.Filter.Parentheses
import RecordPath.Proofs.Filter.Trimming
import RecordPath.Proofs.Path.Printing
import RecordPath.Proofs.Query.Written
import RecordPath.Proofs.Query.Segments
import RecordPath.Proofs.Path.Selection
import RecordPath.Proofs.Client.Reading
import RecordPath.Proofs.Decimal.Nearest
import RecordPath.Proofs.Decimal.Doubles
import RecordPath.Proofs.Decimal.Integers
import RecordPath.Proofs.Json.Numerals
import RecordPath.Proofs.Query.Literals
import RecordPath.Proofs.Query.Conditions
import RecordPath.Proofs.Filter.Meaning
import RecordPath.Proofs.Json.Pruned
import RecordPath.Proofs.Query.Pruning
import RecordPath.Proofs.Store.ReadsInWrites
import RecordPath.Proofs.Store.Addressing
import RecordPath.Proofs.Store.Placement
import RecordPath.Proofs.Store.SingleOperation
import RecordPath.Proofs.Client.SingleField
import RecordPath.Proofs.Client.PutLaws
import RecordPath.Proofs.Client.InPlace
import RecordPath.Proofs.Client.Walk
import RecordPath.Proofs.Query.Entries
import RecordPath.Proofs.Query.Creation
import RecordPath.Proofs.Query.Extremes
import RecordPath.Proofs.Query.Completeness
import RecordPath.Proofs.Batch.Withheld
import RecordPath.Proofs.Batch.Endings
import RecordPath.Proofs.Batch.Chunking
import RecordPath.Proofs.Json.NormalizedForm
import RecordPath.Proofs.Json.Ordered
import RecordPath.Proofs.Client.ItemForm
import RecordPath.Proofs.Query.Junctions
import RecordPath.Proofs.Query.Nesting
import RecordPath.Proofs.Query.Acceptance
