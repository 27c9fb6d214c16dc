import AttemptLedger.Accuracy
import AttemptLedger.Archive.Discovery
import AttemptLedger.Channel
import AttemptLedger.Forest.Dot
import AttemptLedger.Timeout
import AttemptLedger.Proofs.Positions
import AttemptLedger.Proofs.Text.Utf8
import AttemptLedger.Proofs.Wire.Record
import AttemptLedger.Proofs.Wire.Written
import AttemptLedger.Proofs.Wire.RoundTrip
import AttemptLedger.Proofs.Wire.Canonicity
import AttemptLedger.Proofs.Wire.Truncation
import AttemptLedger.Proofs.Wire.Grammar
import AttemptLedger.Proofs.Wire.Layout
import AttemptLedger.Proofs.Forest.Assembly
import AttemptLedger.Proofs.Forest.Keys
import AttemptLedger.Proofs.Json.Lexing
import AttemptLedger.Proofs.Json.Reading
import AttemptLedger.Proofs.Json.RoundTrip
import AttemptLedger.Proofs.Json.Canonicity
import AttemptLedger.Proofs.Json.Closing
import AttemptLedger.Proofs.Json.Rendering
import AttemptLedger.Proofs.Json.Members
import AttemptLedger.Proofs.Json.Leniency
import AttemptLedger.Proofs.Interchange
import AttemptLedger.Proofs.Truncation
import AttemptLedger.Proofs.Archive.Places
import AttemptLedger.Proofs.Text.Order
import AttemptLedger.Proofs.Archive.Order
import AttemptLedger.Proofs.Archive.Discovery
import AttemptLedger.Proofs.Archive.Saving
import AttemptLedger.Proofs.Archive.Runs
import AttemptLedger.Proofs.Channel
import AttemptLedger.Proofs.Forest.Success
import AttemptLedger.Proofs.Csv
import AttemptLedger.Proofs.Export
import AttemptLedger.Proofs.Required
import AttemptLedger.Proofs.Wire.Omission
import AttemptLedger.Proofs.Json.Accepted
import AttemptLedger.Proofs.Json.Omission
import AttemptLedger.Proofs.Json.Printed
import AttemptLedger.Proofs.Refusal
import AttemptLedger.Proofs.Accuracy
import AttemptLedger.Proofs.Archive.Selection
import AttemptLedger.Proofs.Concatenation
import AttemptLedger.Proofs.Archive.Directories
import AttemptLedger.Proofs.Archive.Effect
import AttemptLedger.Proofs.Timeout
import AttemptLedger.Proofs.Requests
import AttemptLedger.Proofs.Mixing
import AttemptLedger.Proofs.Responses
import AttemptLedger.Proofs.Forest.Repetition
import AttemptLedger.Proofs.Forest.Reordering
import AttemptLedger.Proofs.Wire.FieldNumber
import AttemptLedger.Proofs.Columns
import AttemptLedger.Proofs.Wire.Submission
import AttemptLedger.Proofs.Flattening
import AttemptLedger.Proofs.Flags
import AttemptLedger.Proofs.TimedOut
import AttemptLedger.Proofs.Wire.Width
import AttemptLedger.Proofs.Dot
import AttemptLedger.Proofs.Forest.Drawing
import AttemptLedger.Proofs.Wire.Minimal
import AttemptLedger.Proofs.Settings
import AttemptLedger.Proofs.Wire.Words
import AttemptLedger.Proofs.Forest.Graph
