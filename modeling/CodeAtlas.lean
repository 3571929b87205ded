import CodeAtlas.CommandLine.Arguments
import CodeAtlas.CommandLine.Run
import CodeAtlas.Decimal.Binary
import CodeAtlas.Decimal.Read
import CodeAtlas.Decimal.Rounded
import CodeAtlas.Decimal.Shortest
import CodeAtlas.Embedding.Basic
import CodeAtlas.Embedding.File
import CodeAtlas.Embedding.Record
import CodeAtlas.Embedding.Similarity
import CodeAtlas.Embedding.Store
import CodeAtlas.Embedding.Upkeep
import CodeAtlas.Files.Basic
import CodeAtlas.Files.Tree
import CodeAtlas.Graph.Basic
import CodeAtlas.Graph.Build
import CodeAtlas.Graph.Query
import CodeAtlas.Graph.Navigator
import CodeAtlas.Index.Basic
import CodeAtlas.Index.Decode
import CodeAtlas.Index.Encode
import CodeAtlas.Index.Load
import CodeAtlas.Json.Number
import CodeAtlas.Json.Token
import CodeAtlas.Json.Value
import CodeAtlas.Main
import CodeAtlas.Ordered
import CodeAtlas.Outcome
import CodeAtlas.Proofs.Symbol.Legality
import CodeAtlas.Rank.Config
import CodeAtlas.Rank.Graph
import CodeAtlas.Rank.Ranking
import CodeAtlas.Rank.Transition
import CodeAtlas.Scalar
import CodeAtlas.Scalar.Signed
import CodeAtlas.Search.Engine
import CodeAtlas.Search.Query
import CodeAtlas.Settings.Basic
import CodeAtlas.Settings.Environment
import CodeAtlas.Settings.Extract
import CodeAtlas.Settings.File
import CodeAtlas.Settings.Layer
import CodeAtlas.Settings.Printer
import CodeAtlas.Source.Block
import CodeAtlas.Source.Range
import CodeAtlas.Source.Reference
import CodeAtlas.Source.Resolver
import CodeAtlas.Symbol.Basic
import CodeAtlas.Symbol.Error
import CodeAtlas.Symbol.Parser
import CodeAtlas.Symbol.Printer
import CodeAtlas.Text.Characters
import CodeAtlas.Text.Cased
import CodeAtlas.Text.Lines
import CodeAtlas.Text.Lower
import CodeAtlas.Text.Printable
import CodeAtlas.Toml.Number
import CodeAtlas.Toml.Reader
import CodeAtlas.Toml.Table
import CodeAtlas.Toml.Text
import CodeAtlas.Toml.Writer
import CodeAtlas.Wire.Field
import CodeAtlas.Wire.Varint
import CodeAtlas.Proofs.Symbol.Reading
import CodeAtlas.Proofs.Graph.Homes
import CodeAtlas.Proofs.Graph.Agreement
import CodeAtlas.Proofs.Scalar.Exact
import CodeAtlas.Proofs.Rank.Conservation
import CodeAtlas.Proofs.Rank.Convergence
import CodeAtlas.Proofs.Embedding.Keyed
import CodeAtlas.Proofs.Embedding.Upkeep
import CodeAtlas.Proofs.Embedding.Batch
import CodeAtlas.Proofs.Embedding.Interleaving
import CodeAtlas.Proofs.Embedding.Retrieval
import CodeAtlas.Proofs.Graph.Calls
import CodeAtlas.Proofs.Graph.Cleaning
import CodeAtlas.Proofs.Graph.Callees
import CodeAtlas.Proofs.Ordered
import CodeAtlas.Proofs.Graph.Known
import CodeAtlas.Proofs.Graph.Subgraph
import CodeAtlas.Proofs.Graph.Order
import CodeAtlas.Proofs.Embedding.Slots
import CodeAtlas.Proofs.Json.Scan
import CodeAtlas.Proofs.Json.RoundTrip
import CodeAtlas.Proofs.Files.Written
import CodeAtlas.Proofs.Embedding.Record
import CodeAtlas.Proofs.Embedding.Persistence
import CodeAtlas.Proofs.Search.Independence
import CodeAtlas.Proofs.Search.Isolation
import CodeAtlas.Proofs.Text.Bytes
import CodeAtlas.Proofs.Wire.Prefix
import CodeAtlas.Proofs.Wire.Grammar
import CodeAtlas.Proofs.Wire.RoundTrip
import CodeAtlas.Proofs.Index.RoundTrip
import CodeAtlas.Proofs.Index.Truncation
import CodeAtlas.Proofs.Index.Respelling
import CodeAtlas.Proofs.Graph.Outages
import CodeAtlas.Proofs.Scalar.Laws
import CodeAtlas.Proofs.Rank.Order
import CodeAtlas.Proofs.Rank.Personalization
import CodeAtlas.Proofs.Rank.Weight
import CodeAtlas.Proofs.Rank.Numbering
import CodeAtlas.Proofs.Embedding.Scores
import CodeAtlas.Proofs.Search.Relevance
import CodeAtlas.Proofs.Symbol.Canonical
import CodeAtlas.Proofs.Embedding.Documentation
import CodeAtlas.Proofs.Embedding.Failure
import CodeAtlas.Proofs.Embedding.Repetition
import CodeAtlas.Proofs.Graph.References
import CodeAtlas.Proofs.Graph.Scope
import CodeAtlas.Proofs.Graph.Census
import CodeAtlas.Proofs.Graph.Sequence
import CodeAtlas.Proofs.Graph.Rankable
import CodeAtlas.Proofs.Rank.Refusal
import CodeAtlas.Proofs.Rank.Relaxation
import CodeAtlas.Proofs.Rank.Matrix
import CodeAtlas.Proofs.Rank.Scale
import CodeAtlas.Proofs.Source.Block
import CodeAtlas.Proofs.Graph.Nesting
import CodeAtlas.Proofs.Symbol.Beginning
import CodeAtlas.Proofs.Symbol.Ancestors
import CodeAtlas.Proofs.Symbol.Faults
import CodeAtlas.Proofs.Text.Lines
import CodeAtlas.Proofs.Search.Exact
import CodeAtlas.Proofs.Source.Texts
import CodeAtlas.Proofs.Source.Lookup
import CodeAtlas.Proofs.Repetitions
import CodeAtlas.Proofs.Search.Command
import CodeAtlas.Proofs.Embedding.Best
import CodeAtlas.Proofs.Scalar.Curved
import CodeAtlas.Proofs.Embedding.Deviation
import CodeAtlas.Proofs.Search.Acceptance
import CodeAtlas.Proofs.Embedding.Normalized
import CodeAtlas.Proofs.Embedding.Shares
import CodeAtlas.Proofs.Graph.Arena
import CodeAtlas.Proofs.Graph.Lookups
import CodeAtlas.Proofs.Graph.Stages
