import CodeIndex.Health.History
import CodeIndex.Main
import CodeIndex.Proofs.Chunk.Documented
import CodeIndex.Proofs.Chunk.Imported
import CodeIndex.Proofs.Chunk.Labels
import CodeIndex.Proofs.Chunk.Overlap
import CodeIndex.Proofs.Config.Accepted
import CodeIndex.Proofs.Embedding.Backoff
import CodeIndex.Proofs.Embedding.Query
import CodeIndex.Proofs.Embedding.Tokens
import CodeIndex.Proofs.Embedding.Tries
import CodeIndex.Proofs.Files.Identity
import CodeIndex.Proofs.Files.Repository
import CodeIndex.Proofs.Health.Adaptive
import CodeIndex.Proofs.Health.Lapsed
import CodeIndex.Proofs.Indexing.Discovery
import CodeIndex.Proofs.Indexing.Migration
import CodeIndex.Proofs.Indexing.Refill
import CodeIndex.Proofs.Indexing.Reindex
import CodeIndex.Proofs.Indexing.Scratch
import CodeIndex.Proofs.Indexing.Signatures
import CodeIndex.Proofs.Isolation
import CodeIndex.Proofs.Retrieval.Context
import CodeIndex.Proofs.Store.Best
import CodeIndex.Proofs.Store.Readback
import CodeIndex.Proofs.Watch.Rest
