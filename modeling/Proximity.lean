import Proximity.Buffer
import Proximity.Bytes
import Proximity.Config
import Proximity.Config.File
import Proximity.Config.Text
import Proximity.Container.Layout
import Proximity.Container.Record
import Proximity.Embedding.Codec
import Proximity.Embedding.Distance
import Proximity.Embedding.Options
import Proximity.Embedding.Precision
import Proximity.Error
import Proximity.Field.Catalog
import Proximity.Field.Key
import Proximity.Field.Name
import Proximity.Field.Record
import Proximity.Graph.Beam
import Proximity.Graph.Candidate
import Proximity.Graph.Descent
import Proximity.Graph.FieldGraph
import Proximity.Graph.Insertion
import Proximity.Graph.Layer
import Proximity.Graph.Parent
import Proximity.Graph.Record
import Proximity.Graph.Selection
import Proximity.Identifier
import Proximity.MessagePack.Item
import Proximity.MessagePack.Reader
import Proximity.MessagePack.Storable
import Proximity.MessagePack.Writer
import Proximity.Proofs.Buffer
import Proximity.Proofs.Bytes
import Proximity.Proofs.Container
import Proximity.Proofs.Container.Layout
import Proximity.Proofs.Damage.Registering
import Proximity.Proofs.Damage.Searching
import Proximity.Proofs.Damage.Walking
import Proximity.Proofs.Embedding
import Proximity.Proofs.Embedding.Signs
import Proximity.Proofs.Embedding.Undefined
import Proximity.Proofs.Except
import Proximity.Proofs.Graph.BeamSearch
import Proximity.Proofs.Graph.BeamWidth
import Proximity.Proofs.Graph.Contents
import Proximity.Proofs.Graph.Diversity
import Proximity.Proofs.Graph.Failures
import Proximity.Proofs.Graph.Growth
import Proximity.Proofs.Graph.Insertion
import Proximity.Proofs.Graph.Likeness
import Proximity.Proofs.Graph.Linking
import Proximity.Proofs.Graph.Links
import Proximity.Proofs.Graph.LocalClosure
import Proximity.Proofs.Graph.Ordering
import Proximity.Proofs.Graph.Resemblance
import Proximity.Proofs.Graph.Rewiring
import Proximity.Proofs.Graph.Selection
import Proximity.Proofs.Graph.Shelves
import Proximity.Proofs.Graph.Storage
import Proximity.Proofs.Graph.Termination
import Proximity.Proofs.Graph.Walks
import Proximity.Proofs.Index
import Proximity.Proofs.Index.Catalog
import Proximity.Proofs.Index.Connectivity
import Proximity.Proofs.Index.Deeds
import Proximity.Proofs.Index.Finding
import Proximity.Proofs.Index.Founding
import Proximity.Proofs.Index.Lengths
import Proximity.Proofs.Index.Litter
import Proximity.Proofs.Index.Noninterference
import Proximity.Proofs.Index.Packing
import Proximity.Proofs.Index.Persistence
import Proximity.Proofs.Index.Retention
import Proximity.Proofs.Index.Safety
import Proximity.Proofs.Index.Searching
import Proximity.Proofs.Index.Sittings
import Proximity.Proofs.Index.Widening
import Proximity.Proofs.Keys
import Proximity.Proofs.MessagePack
import Proximity.Proofs.Query.Compaction
import Proximity.Proofs.Query.Denotation
import Proximity.Proofs.Query.Leaves
import Proximity.Proofs.Query.Lookup
import Proximity.Proofs.Query.Modes
import Proximity.Proofs.Query.Narrowing
import Proximity.Proofs.Query.Scores
import Proximity.Proofs.Records
import Proximity.Proofs.Records.Limits
import Proximity.Proofs.Registration
import Proximity.Proofs.Registration.Atomicity
import Proximity.Proofs.Registration.Calls
import Proximity.Proofs.Registration.Effects
import Proximity.Proofs.Registration.Refusals
import Proximity.Proofs.Registration.Resemblance
import Proximity.Proofs.Registration.Runs
import Proximity.Proofs.Registration.Seeds
import Proximity.Proofs.Registration.Twins
import Proximity.Proofs.Search
import Proximity.Proofs.Search.Streaming
import Proximity.Proofs.Session
import Proximity.Proofs.Single.Arithmetic
import Proximity.Proofs.Single.Order
import Proximity.Proofs.Single.Packing
import Proximity.Proofs.Single.Rounding
import Proximity.Proofs.Store.Allotments
import Proximity.Proofs.Store.Catalog
import Proximity.Proofs.Store.Chronicle
import Proximity.Proofs.Store.Fields
import Proximity.Proofs.Store.History
import Proximity.Proofs.Store.Resemblance
import Proximity.Proofs.Store.Scanning
import Proximity.Proofs.Store.Strays
import Proximity.Proofs.Store.View
import Proximity.Query
import Proximity.Query.Posting
import Proximity.Query.VectorClause
import Proximity.Random.ChaCha
import Proximity.Random.Level
import Proximity.Registration
import Proximity.Search.Nearest
import Proximity.Search.Stream
import Proximity.Single
import Proximity.Store
import Proximity.Store.Run
import Proximity.Store.Snapshot
import Proximity.Store.WriteTransaction
import Proximity.Text.Base64
import Proximity.Text.Quoted
import Proximity.Text.Unprintable
import Proximity.Toml.Document
import Proximity.Toml.Quotation
import Proximity.Toml.Reader
import Proximity.Toml.Scalar
import Proximity.Toml.Value
