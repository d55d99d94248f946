import SemanticStore.Backend.Memory
import SemanticStore.Backend.Tables
import SemanticStore.DocumentId
import SemanticStore.LogFilter
import SemanticStore.Settings.File
import SemanticStore.Store.Opening
import SemanticStore.Store.Operations
import SemanticStore.Proofs.Action
import SemanticStore.Proofs.Backend.Catalog
import SemanticStore.Proofs.Backend.Memory
import SemanticStore.Proofs.Backend.Orderly
import SemanticStore.Proofs.Backend.Chronicle
import SemanticStore.Proofs.Backend.Consistency
import SemanticStore.Proofs.Backend.Integrity
import SemanticStore.Proofs.Body
import SemanticStore.Proofs.Decimal.Digits
import SemanticStore.Proofs.Embedding.Blob
import SemanticStore.Proofs.Timestamp
import SemanticStore.Proofs.Backend.Tables
import SemanticStore.Proofs.Backend.Agreement
import SemanticStore.Proofs.Store.Requests
import SemanticStore.Proofs.Store.Simulation
import SemanticStore.Proofs.Store.Atomicity
import SemanticStore.Proofs.Store.Indexed
import SemanticStore.Proofs.Backend.Partitions
import SemanticStore.Proofs.Backend.Retimed
import SemanticStore.Proofs.Store.Isolation
import SemanticStore.Proofs.Json.Numeral
import SemanticStore.Proofs.Json.Value
import SemanticStore.Proofs.Json.Token
import SemanticStore.Proofs.Scalar.Rounding
import SemanticStore.Proofs.Scalar.Packing
import SemanticStore.Proofs.Scalar.Value
import SemanticStore.Proofs.Metric
import SemanticStore.Proofs.Ranking
import SemanticStore.Proofs.Scalar.Special
import SemanticStore.Proofs.NonFinite
import SemanticStore.Proofs.Store.Retrieval
import SemanticStore.Proofs.Clear
import SemanticStore.Proofs.Store.Legible
import SemanticStore.Proofs.Store.Illegible
import SemanticStore.Proofs.Store.Effects
import SemanticStore.Proofs.Store.Histories
import SemanticStore.Proofs.Store.Descriptor
import SemanticStore.Proofs.Store.Preparation
import SemanticStore.Proofs.SelfDistance
import SemanticStore.Proofs.Scalar.Binade
import SemanticStore.Proofs.Scalar.Magnitude
import SemanticStore.Proofs.Embedding.Normalize
import SemanticStore.Proofs.Store.SelfRetrieval
import SemanticStore.Proofs.Store.UpdateEach
import SemanticStore.Proofs.Store.Listing
import SemanticStore.Proofs.Store.Refusal
import SemanticStore.Proofs.Store.Embedded
import SemanticStore.Proofs.Store.Insertion
import SemanticStore.Proofs.Store.InsertEach
import SemanticStore.Proofs.Store.UpdateFrame
import SemanticStore.Proofs.Store.Provenance
import SemanticStore.Proofs.Store.Lifecycle
import SemanticStore.Proofs.Scalar.Order
import SemanticStore.Proofs.Thresholds
import SemanticStore.Proofs.Store.Batches
import SemanticStore.Proofs.Embedder.Remote
import SemanticStore.Proofs.DistanceLaws
import SemanticStore.Proofs.Store.Deletion
import SemanticStore.Proofs.Settings.Store
import SemanticStore.Proofs.Json.Grammar
import SemanticStore.Proofs.Json.Structure
import SemanticStore.Proofs.Json.Real
import SemanticStore.Proofs.Json.Denotation
import SemanticStore.Proofs.Body.Shape
import SemanticStore.Proofs.Decimal.Canonical
import SemanticStore.Proofs.Partition
import SemanticStore.Proofs.Locks
import SemanticStore.Proofs.Store.Locking
