import Vmbolt.Lib.Prog
import Vmbolt.Lib.Fuel
import Vmbolt.Lib.Paths
import Vmbolt.Lib.Search
import Vmbolt.Lib.LittleEndian
import Vmbolt.Lib.SortedMap
import Vmbolt.Lib.Systems
import Vmbolt.Model.World
import Vmbolt.Model.Heap
import Vmbolt.Model.Node
import Vmbolt.Model.Cursor
import Vmbolt.Model.Bucket
import Vmbolt.Model.Tx
import Vmbolt.Model.Growing
import Vmbolt.Model.DB
import Vmbolt.Model.Snapshot
import Vmbolt.Model.Check
import Vmbolt.Isolation.Ownership
import Vmbolt.Isolation.Footprint
import Vmbolt.Isolation.Invariant
import Vmbolt.Isolation.Calls
import Vmbolt.Isolation.Commit
import Vmbolt.Isolation.Reads
import Vmbolt.Isolation.Runs
import Vmbolt.Isolation.Marking
import Vmbolt.Isolation.Context
import Vmbolt.Effect.Slices
import Vmbolt.Effect.Entries
import Vmbolt.Effect.Copies
import Vmbolt.Effect.Directory
import Vmbolt.Effect.Split
import Vmbolt.Effect.Spill
import Vmbolt.Effect.Lifecycle
import Vmbolt.Tree.Layout
import Vmbolt.Tree.Scan
import Vmbolt.Tree.Search
import Vmbolt.Tree.Reverse
import Vmbolt.Tree.View
import Vmbolt.Tree.Surgery
import Vmbolt.Tree.Handle
import Vmbolt.Tree.Path
import Vmbolt.Tree.Writing
import Vmbolt.Tree.Carry
import Vmbolt.Tree.Splice
import Vmbolt.Tree.Exact
import Vmbolt.Commit.Spilling
import Vmbolt.Commit.Finalize
import Vmbolt.Commit.Frame
import Vmbolt.Commit.Phases
import Vmbolt.Commit.Commit
import Vmbolt.Commit.Handles
import Vmbolt.Refinement.ReadYourWrites
import Vmbolt.Refinement.ArrayCursor
import Vmbolt.Refinement.ReverseScan
import Vmbolt.Refinement.LastKey
import Vmbolt.Refinement.DeleteWhile
import Vmbolt.Refinement.SpillTree
import Vmbolt.Refinement.CursorModes
import Vmbolt.Refinement.Traversals
import Vmbolt.Snapshot.WriteTo
import Vmbolt.Snapshot.Format
import Vmbolt.Snapshot.Restore
import Vmbolt.Isolation.Bounds
import Vmbolt.Snapshot.Total
import Vmbolt.Directory.Invariant
import Vmbolt.Directory.Views
import Vmbolt.Directory.Semantics
import Vmbolt.Snapshot.RoundTrip
import Vmbolt.Model.Open
import Vmbolt.Snapshot.Reopen
import Vmbolt.Batch.Machine
import Vmbolt.Batch.Invariant
import Vmbolt.Batch.Preservation
import Vmbolt.Batch.Writers
import Vmbolt.Batch.ExactlyOnce
import Vmbolt.Batch.Progress
import Vmbolt.Batch.Contract
import Vmbolt.Concurrent.Machine
import Vmbolt.Concurrent.Invariant
import Vmbolt.Concurrent.Preservation
import Vmbolt.Concurrent.Serial
import Vmbolt.Concurrent.History
import Vmbolt.Concurrent.Progress
import Vmbolt.Concurrent.Accounting
import Vmbolt.Concurrent.Engine
import Vmbolt.Concurrent.Simulation
import Vmbolt.Check.Worklist
import Vmbolt.Check.SearchTree
import Vmbolt.Rebalance.Calm
import Vmbolt.Rebalance.Loop
import Vmbolt.Rebalance.Commit
import Vmbolt.Updates.Transaction
import Vmbolt.Updates.Refinement
import Vmbolt.Updates.Sessions
