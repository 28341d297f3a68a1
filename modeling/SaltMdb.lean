import SaltMdb.Library.Txn
import SaltMdb.Library.Bitemporal
import SaltMdb.Library.Succession
import SaltMdb.Library.Runs
import SaltMdb.Library.Refusal
import SaltMdb.Library.Batch
import SaltMdb.Library.Views
import SaltMdb.Library.Climb
import SaltMdb.Library.Walks
import SaltMdb.Library.Fusion
import SaltMdb.Library.Component
import SaltMdb.Library.Mirror
import SaltMdb.Store.Text
import SaltMdb.Store.Data
import SaltMdb.Store.RelationTable
import SaltMdb.Store.EntityTable
import SaltMdb.Store.TagTable
import SaltMdb.Store.Connection
import SaltMdb.Store.Frames
import SaltMdb.Schema.Fresh
import SaltMdb.Schema.Migration
import SaltMdb.Schema.Drift
import SaltMdb.Schema.Fts
import SaltMdb.Schema.Mirrors
import SaltMdb.Schema.Versions
import SaltMdb.Library.Separated
import SaltMdb.Schema.Backfill
import SaltMdb.Library.Paging
import SaltMdb.Embedding.Jobs
import SaltMdb.Embedding.Enqueue
import SaltMdb.Embedding.Workers
import SaltMdb.Embedding.System
import SaltMdb.Embedding.Generations
import SaltMdb.Embedding.Sealed
import SaltMdb.Embedding.Frames
import SaltMdb.Library.Traces
import SaltMdb.Embedding.Machine
import SaltMdb.Embedding.Memories
import SaltMdb.Embedding.Recovery
import SaltMdb.Embedding.Archived
import SaltMdb.Embedding.Fencing
import SaltMdb.Embedding.Readiness
import SaltMdb.Entity.Resolve
import SaltMdb.Entity.Visible
import SaltMdb.Relation.Vocabulary
import SaltMdb.Relation.Write
import SaltMdb.Relation.Effects
import SaltMdb.Relation.Batch
import SaltMdb.Relation.InOrder
import SaltMdb.Relation.Growth
import SaltMdb.Relation.Strong
import SaltMdb.Relation.Temporal
import SaltMdb.Core.Governance
import SaltMdb.Core.Reconcile
import SaltMdb.Tag.Resolve
import SaltMdb.Tag.Effects
import SaltMdb.Memory.Store
import SaltMdb.Memory.Replace
import SaltMdb.Memory.Consolidate
import SaltMdb.Memory.Archive
import SaltMdb.Memory.Merged
import SaltMdb.Memory.Metadata
import SaltMdb.Core.Review
import SaltMdb.Tag.Merge
import SaltMdb.Tag.Forest
import SaltMdb.Search.TagFilter
import SaltMdb.Tag.Names
import SaltMdb.Tag.Written
import SaltMdb.Tag.Stored
import SaltMdb.Tag.Kept
import SaltMdb.Memory.Effects
import SaltMdb.Relation.Fates
import SaltMdb.System.Calls
import SaltMdb.System.Kept
import SaltMdb.System.Atomicity
import SaltMdb.Lineage.Forest
import SaltMdb.Lineage.History
import SaltMdb.Lineage.Depth
import SaltMdb.Relation.Dependencies
import SaltMdb.Relation.Reachable
import SaltMdb.Relation.Mirrored
import SaltMdb.Lineage.Traversal
import SaltMdb.Lineage.Block
import SaltMdb.Lineage.Permanent
import SaltMdb.Memory.Repointed
import SaltMdb.Memory.Orphaned
import SaltMdb.Core.Declared
import SaltMdb.Core.Overdue
import SaltMdb.Search.Primitives
import SaltMdb.Search.Recall
import SaltMdb.Search.Supersession
import SaltMdb.Search.Channels
import SaltMdb.Search.Ranking
import SaltMdb.Search.Pool
import SaltMdb.Search.Gate
import SaltMdb.Search.Overfetch
import SaltMdb.Search.Families
import SaltMdb.Search.Collapse
import SaltMdb.Search.Pages
import SaltMdb.Daemon.Lifecycle
import SaltMdb.Library.Framing
import SaltMdb.Daemon.Protocol
import SaltMdb.Daemon.Drained
import SaltMdb.Daemon.Lanes
import SaltMdb.Daemon.Leases
import SaltMdb.Daemon.Client
import SaltMdb.Daemon.Coordinator
import SaltMdb.Daemon.Scheduling
import SaltMdb.Daemon.Settlement
import SaltMdb.Library.Arrivals
import SaltMdb.Library.Dictionary
import SaltMdb.Library.UnionFind
import SaltMdb.Trace.Capture
import SaltMdb.Trace.Kept
import SaltMdb.Library.Json
import SaltMdb.Corpus.Snapshot
import SaltMdb.Corpus.Pages
import SaltMdb.Context.Expansion
import SaltMdb.Context.Conflicts
import SaltMdb.Context.Orderless
import SaltMdb.Context.Anchored
import SaltMdb.Context.Lineage
import SaltMdb.Context.Orphans
import SaltMdb.Context.Budget
import SaltMdb.Context.Retrieve
import SaltMdb.Context.Exact
import SaltMdb.Context.Repeated
import SaltMdb.Library.Leading
import SaltMdb.Digest.Cohort
import SaltMdb.Library.Occurrences
import SaltMdb.Store.Markup
import SaltMdb.Core.Integrity
import SaltMdb.Core.BootstrapError
import SaltMdb.Community.Hierarchy
import SaltMdb.Search.Preview
import SaltMdb.Markdown.Scanners
import SaltMdb.Library.Rounds
import SaltMdb.Context.Lifecycle
import SaltMdb.Digest.Allocate
import SaltMdb.Embedding.Chunks
import SaltMdb.Tag.Conserved
import SaltMdb.Library.Tokens
import SaltMdb.Store.Redaction
import SaltMdb.Library.Loops
import SaltMdb.Store.Lines
import SaltMdb.Digest.Render
import SaltMdb.Digest.Fitted
import SaltMdb.Library.Keywords
import SaltMdb.Markdown.Format
import SaltMdb.Digest.Envelope
import SaltMdb.Library.Chains
import SaltMdb.Schema.Supersedes
import SaltMdb.Schema.Repair
import SaltMdb.Daemon.Sessions
import SaltMdb.Library.Decimal
import SaltMdb.Mcp.Cursor
import SaltMdb.Event.Ledger
import SaltMdb.Daemon.Discovery
import SaltMdb.Daemon.Election
import SaltMdb.Daemon.Ownership
