import PropertyText.Bytes
import PropertyText.Cli.Arguments
import PropertyText.Cli.Directory
import PropertyText.Cli.Plain
import PropertyText.Cli.Print
import PropertyText.Cli.Similarity
import PropertyText.Data
import PropertyText.Data.Flatten
import PropertyText.Data.Import
import PropertyText.Error
import PropertyText.Error.Conversion
import PropertyText.Event
import PropertyText.Fields
import PropertyText.Fields.Document
import PropertyText.Fields.Inline
import PropertyText.Fields.Load
import PropertyText.Fields.Lookup
import PropertyText.Input
import PropertyText.Main
import PropertyText.Number.Binary
import PropertyText.Number.Integer
import PropertyText.Number.Literal
import PropertyText.Number.Shortest
import PropertyText.Options
import PropertyText.Period
import PropertyText.ReadAhead
import PropertyText.Scalar
import PropertyText.Shape
import PropertyText.Shape.Parts
import PropertyText.Shape.Read
import PropertyText.Sink
import PropertyText.Sink.Scripted
import PropertyText.Source
import PropertyText.Source.Scripted
import PropertyText.Stream
import PropertyText.Stream.Call
import PropertyText.Stream.Property
import PropertyText.Stream.Walk
import PropertyText.Text.Bare
import PropertyText.Text.Shown
import PropertyText.Text.Utf8
import PropertyText.Text.Written
import PropertyText.Token
import PropertyText.Unicode.Extending
import PropertyText.Unicode.Invisible
import PropertyText.Writer
import PropertyText.Writer.Call
import PropertyText.Proofs.Input.View
import PropertyText.Proofs.Stream.View
import PropertyText.Proofs.Input.Unread
import PropertyText.Proofs.Source.Delivered
import PropertyText.Proofs.Source.Interrupted
import PropertyText.Proofs.Stream.Remaining
import PropertyText.Proofs.Stream.Cursor
import PropertyText.Proofs.Grammar.Lexeme
import PropertyText.Proofs.Grammar.Scan
import PropertyText.Proofs.Grammar.Document
import PropertyText.Proofs.Grammar.Load
import PropertyText.Proofs.Grammar.Comments
import PropertyText.Proofs.Fields.Events
import PropertyText.Proofs.Writer.Rendering
import PropertyText.Proofs.Grammar.Written
import PropertyText.Proofs.Grammar.Reading
import PropertyText.Proofs.Fields.RoundTrip
import PropertyText.Proofs.Writer.Stopped
import PropertyText.Proofs.Sink.Kept
import PropertyText.Proofs.Writer.Buffering
import PropertyText.Proofs.Writer.ReadBack
import PropertyText.Proofs.Stream.Schedule
import PropertyText.Proofs.Data.Tree
import PropertyText.Proofs.Data.Flattened
import PropertyText.Proofs.Data.Foreign
import PropertyText.Proofs.Fields.Grouped
import PropertyText.Proofs.Fields.Rearranged
import PropertyText.Proofs.Scalar
import PropertyText.Proofs.Number.Rounding
import PropertyText.Proofs.Number.Shortest
import PropertyText.Proofs.Number.Literal
import PropertyText.Proofs.Shape.Storable
import PropertyText.Proofs.Shape.RoundTrip
import PropertyText.Proofs.Shape.Keyed
import PropertyText.Proofs.Shape.Occurrences
import PropertyText.Proofs.Shape.Relevance
import PropertyText.Proofs.Data.Output
import PropertyText.Proofs.Stream.Problems
import PropertyText.Proofs.Source.Traced
import PropertyText.Proofs.Source.Window
import PropertyText.Proofs.Stream.Invariant
import PropertyText.Proofs.Stream.Demand
import PropertyText.Proofs.Stream.Lines
import PropertyText.Proofs.Grammar.Composition
import PropertyText.Proofs.Shape.Subtree
import PropertyText.Proofs.Stream.Readable
import PropertyText.Proofs.Stream.Midway
import PropertyText.Proofs.Writer.Recursive
import PropertyText.Proofs.Stream.Characters
import PropertyText.Proofs.Grammar.Quoting
import PropertyText.Proofs.Stream.OpenObjects
import PropertyText.Proofs.Stream.Bounds
import PropertyText.Proofs.Cli.Listing
