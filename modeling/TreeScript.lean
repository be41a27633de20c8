import TreeScript.Entries
import TreeScript.Decimal.Notation
import TreeScript.Decimal.Numeral
import TreeScript.Text.Blank
import TreeScript.Text.Quoted
import TreeScript.Text.Pieces
import TreeScript.Json.Printer
import TreeScript.Json.Skip
import TreeScript.Program.Basic
import TreeScript.Program.Tree
import TreeScript.Program.Reader
import TreeScript.Value.Operation
import TreeScript.Table
import TreeScript.Run.Interpreter
import TreeScript.Settings
import TreeScript.Main
import TreeScript.Proofs.Json.Text
import TreeScript.Proofs.Json.Value
import TreeScript.Proofs.Json.Skipping
import TreeScript.Proofs.Program.Loading
import TreeScript.Proofs.Program.SpelledLoading
import TreeScript.Proofs.Program.Damage
import TreeScript.Proofs.Program.Reloading
import TreeScript.Proofs.Run.Frames
import TreeScript.Proofs.Run.CallDepth
import TreeScript.Proofs.Run.Isolation
import TreeScript.Proofs.Run.Limits
import TreeScript.Proofs.Run.Counting
import TreeScript.Proofs.Run.DeadCode
import TreeScript.Proofs.Run.Shadowing
import TreeScript.Proofs.Run.Termination
import TreeScript.Proofs.Entries
import TreeScript.Proofs.Table.RoundTrip
import TreeScript.Proofs.Files
import TreeScript.Proofs.Table.Faithful
import TreeScript.Proofs.Run.Tables
import TreeScript.Proofs.Run.Faults
import TreeScript.Proofs.Run.ErrorSources
import TreeScript.Proofs.Value.Equality
import TreeScript.Proofs.Value.Closed
import TreeScript.Proofs.Run.Accord
import TreeScript.Proofs.Run.Parallel
import TreeScript.Proofs.Run.Bound
import TreeScript.Proofs.Run.Irrelevance
import TreeScript.Proofs.Run.Renaming
import TreeScript.Proofs.Table.Stable
import TreeScript.Proofs.Entries.History
import TreeScript.Proofs.Text.Endings
import TreeScript.Proofs.Table.Meaning
import TreeScript.Proofs.Table.Conventions
import TreeScript.Proofs.Run.Writing
import TreeScript.Proofs.Run.Effects
import TreeScript.Proofs.Run.Declared
import TreeScript.Proofs.Run.Registrations
import TreeScript.Proofs.Run.Blocks
import TreeScript.Proofs.Value.Indexing
import TreeScript.Proofs.Run.Duality
import TreeScript.Proofs.Text.Quoted
import TreeScript.Proofs.Value.Number
import TreeScript.Proofs.Value.Written
import TreeScript.Proofs.Value.Order
import TreeScript.Proofs.Run.Extrema
import TreeScript.Proofs.Run.Constructed
import TreeScript.Proofs.Run.CellWarnings
import TreeScript.Proofs.Decimal.Fewest
import TreeScript.Proofs.Decimal.Plain
import TreeScript.Proofs.Binary64.Difference
import TreeScript.Proofs.Value.Printing
