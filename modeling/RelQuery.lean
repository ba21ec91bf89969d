import RelQuery.Engine
import RelQuery.Statement
import RelQuery.Json.Reading
import RelQuery.Json.Writing
import RelQuery.Data.Codec
import RelQuery.Document.Codec
import RelQuery.Document.Yaml
import RelQuery.Yaml.Spot
import RelQuery.Yaml.Scalar
import RelQuery.Yaml.Tag
import RelQuery.Yaml.Token
import RelQuery.Yaml.Node
import RelQuery.Yaml.Plain
import RelQuery.Yaml.Reading
import RelQuery.Proofs.Except
import RelQuery.Proofs.Repetitions
import RelQuery.Proofs.Value.Order
import RelQuery.Proofs.Ieee.Widening
import RelQuery.Proofs.Ieee.Rounding
import RelQuery.Proofs.Value.Laws
import RelQuery.Proofs.Text.Search
import RelQuery.Proofs.Row.Conform
import RelQuery.Proofs.Row.Map
import RelQuery.Proofs.Row.Named
import RelQuery.Proofs.Row.Rename
import RelQuery.Proofs.Predicate.Typed
import RelQuery.Proofs.Predicate.Coherent
import RelQuery.Proofs.Predicate.Numeric
import RelQuery.Proofs.Predicate.Quoted
import RelQuery.Proofs.Predicate.Conjoined
import RelQuery.Proofs.Accumulator
import RelQuery.Proofs.Accumulator.InPlace
import RelQuery.Proofs.Accumulator.Summary
import RelQuery.Proofs.Accumulator.Sum
import RelQuery.Proofs.Relation.Items
import RelQuery.Proofs.Relation.Lookup
import RelQuery.Proofs.Join.Due
import RelQuery.Proofs.Join.Cursor
import RelQuery.Proofs.Join.Keys
import RelQuery.Proofs.Join.Nested
import RelQuery.Proofs.Join.Total
import RelQuery.Proofs.Join.Lookup
import RelQuery.Proofs.Join.Mirror
import RelQuery.Proofs.Grouping.GroupBy
import RelQuery.Proofs.Grouping.Arena
import RelQuery.Proofs.Grouping.Run
import RelQuery.Proofs.Grouping.Overflow
import RelQuery.Proofs.Grouping.Permuted
import RelQuery.Proofs.Pipeline.Built
import RelQuery.Proofs.Pipeline.Leaves
import RelQuery.Proofs.Pipeline.Run
import RelQuery.Proofs.Pipeline.Compile
import RelQuery.Proofs.Pipeline.Fusion
import RelQuery.Proofs.Pipeline.Variant
import RelQuery.Proofs.Pipeline.Answer
import RelQuery.Proofs.Pipeline.Sound
import RelQuery.Proofs.Pipeline.Shape
import RelQuery.Proofs.Pipeline.Conform
import RelQuery.Proofs.Pipeline.WellFormed
import RelQuery.Proofs.Pipeline.Mirror
import RelQuery.Proofs.Pipeline.Requests
import RelQuery.Proofs.Relation.Sort
import RelQuery.Proofs.Relation.Range
import RelQuery.Proofs.Engine.Present
import RelQuery.Proofs.Engine.Rebind
import RelQuery.Proofs.Json.RoundTrip
import RelQuery.Proofs.Data.Record
import RelQuery.Proofs.Document.RoundTrip
import RelQuery.Proofs.Document.Sound
import RelQuery.Proofs.Statement.Natural
import RelQuery.Proofs.Statement.Filters
import RelQuery.Proofs.Statement.Clauses
import RelQuery.Proofs.Session.SingleUse
import RelQuery.Proofs.Row.Draft
import RelQuery.Proofs.Relation.Preorder
import RelQuery.Proofs.Grouping.Typed
import RelQuery.Proofs.Text.Lines
import RelQuery.Proofs.Pipeline.Printed
