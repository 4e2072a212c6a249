import Mathlib.Data.List.AList
import Mathlib.Data.Finset.Basic
import Mathlib.Data.List.Lex
import Mathlib.Data.Rat.Floor
import Mathlib.Order.Fin.Basic
import Vmbolt.Lib.Prog
import Vmbolt.Lib.Search

/-!
# The state of the engine

The data model of `snapshot_node.go`, `bucket_state.go`, `bucket.go`, `tx.go` and `db.go`. Every Go
object that is reached through a pointer lives in one store, the `World`, and is addressed by its
identity: nodes, the backing arrays of their inode slices, bucket handles and transactions. A nil
pointer is `none`.

A `[]byte` whose being nil matters (a returned key or value, a stored value) is an `Option Bytes`; a
`[]byte` that is only measured and compared (an argument key, `node.key`) is a `Bytes`, with nil as
the empty list. Strings are byte strings, as in Go. The statistics counters, the logger, the clocks
and the flags of an inode (always zero) are left out: no result of the engine depends on them.
-/

namespace Vmbolt

/-- A Go `byte`. -/
abbrev Byte : Type := Fin 256

instance Byte.neZero : NeZero 256 := inferInstance

/-- A byte string; the order is that of `bytes.Compare`. -/
abbrev Bytes : Type := List Byte

instance Bytes.lawfulBEq : LawfulBEq Bytes := inferInstance

/-- The name of a top-level bucket. -/
abbrev Name : Type := Bytes

/-- The identity of a `*node`. -/
abbrev NodeId : Type := Nat

/-- The identity of the backing array of a `[]inode`. -/
abbrev ArrId : Type := Nat

/-- The identity of a `*Bucket`. -/
abbrev BucketId : Type := Nat

/-- The identity of a `*Tx`. -/
abbrev TxId : Type := Nat

/-- One entry of a B+tree node. -/
structure Inode where
  key : Bytes
  value : Option Bytes
  child : Option NodeId
  deriving DecidableEq, Repr

/-- The zero value `inode{}`. -/
instance : Inhabited Inode := ⟨⟨[], none, none⟩⟩

/-- A `[]inode`: every slice the engine builds starts at the first slot of its backing array. -/
structure Slice where
  arr : ArrId
  len : Nat
  deriving DecidableEq, Repr, Inhabited

/-- A `node`. -/
structure Node where
  bucket : Option BucketId
  isLeaf : Bool
  unbalanced : Bool
  spilled : Bool
  key : Bytes
  parent : Option NodeId
  inodes : Slice
  deriving DecidableEq, Repr, Inhabited

/-- A `float64`, as far as `FillPercent` goes: every finite one is a rational number. -/
inductive Float64 where
  | nan
  | negInf
  | posInf
  | fin (q : ℚ)
  deriving DecidableEq, Repr

/-- A `Bucket`: the handle of one transaction on one top-level tree. -/
structure Bucket where
  tx : TxId
  name : Name
  rootNode : Option NodeId
  dirty : Finset NodeId
  fillPercent : Float64
  deriving DecidableEq

/-- The published state of one bucket. -/
structure BucketState where
  root : Option NodeId
  deriving DecidableEq, Repr

/-- The published state of the database: `map[string]*bucketState`. -/
structure DbState where
  buckets : AList fun _ : Name => Option BucketState
  deriving DecidableEq

/-- A `Tx`. The field `db` says whether `tx.db` is non-nil, that is whether the transaction is
open. -/
structure Tx where
  writable : Bool
  managed : Bool
  db : Bool
  base : Option DbState
  bctx : AList fun _ : Name => BucketId
  created : Finset Name
  deleted : Finset Name
  deriving DecidableEq

/-- The part of `DB` that transactions go through. -/
structure DB where
  readOnly : Bool
  opened : Bool
  state : Option DbState
  rwlock : Bool
  deriving DecidableEq

/-- What Go leaves to its implementation: the spare capacity `append` adds when it moves a slice to
a new backing array, the value of `int(f)` for a NaN, and the longest slice `make` accepts. -/
structure Runtime where
  spare : Nat → Nat → Nat
  intOfNaN : Int
  maxSliceLen : Nat
  /-- A length read from a 32-bit field can be allocated. -/
  maxSliceLen_ge : 2 ^ 32 ≤ maxSliceLen
  /-- A slice length is an `int`. -/
  maxSliceLen_lt : maxSliceLen < 2 ^ 63

instance : Inhabited Runtime :=
  ⟨{ spare := fun _ _ => 0
     intOfNaN := 0
     maxSliceLen := 2 ^ 32
     maxSliceLen_ge := le_rfl
     maxSliceLen_lt := by decide }⟩

/-- The panics of the engine: those of the run-time system, the explicit ones and the failed
assertions. -/
inductive Panic where
  | indexOutOfRange
  | nilDereference
  | makesliceLenOutOfRange
  | childAtOnLeaf
  | putZeroLengthOldKey
  | putZeroLengthNewKey
  | putZeroLengthInodeKey
  | finalizeNoInodes
  | finalizeZeroLengthKey
  | finalizeZeroLengthNodeKey
  | parentMustHaveAtLeast2Children
  | cursorSearchNilNode
  | txClosed
  | zeroLengthCursorStack
  | expectedBranchNode
  | expectedLeafNode
  | managedTxCommit
  | managedTxRollback
  | unlockOfUnlockedMutex
  | cutOff
  | user
  deriving DecidableEq, Repr

/-- Everything the engine keeps in memory. The field `cut` counts the heap writes that are left
until a panic cuts the running call off (`none`: never). -/
structure World where
  rt : Runtime
  nodes : NodeId → Node
  nextNode : NodeId
  arrays : ArrId → List Inode
  nextArr : ArrId
  buckets : BucketId → Bucket
  nextBucket : BucketId
  txs : TxId → Tx
  nextTx : TxId
  db : DB
  cut : Option Nat

/-- Why a read from a stream came back short. -/
inductive ReadErr where
  | eof
  | unexpectedEOF
  deriving DecidableEq, Repr

/-- The errors of the engine: those of package `errors` and those of `DB.Restore`. The `user` error
stands for whatever a callback returns. -/
inductive Err where
  | databaseNotOpen
  | databaseReadOnly
  | txNotWritable
  | txClosed
  | bucketNotFound
  | bucketExists
  | bucketNameRequired
  | keyRequired
  | keyTooLarge
  | valueTooLarge
  | incompatibleValue
  | snapshotHeader (e : ReadErr)
  | notSnapshot (magic : Bytes)
  | unsupportedVersion (v : Nat)
  | snapshotBucketNameLen (e : ReadErr)
  | snapshotBucketName (e : ReadErr)
  | restoreBucket (name : Bytes) (e : Err)
  | snapshotKeyLen (e : ReadErr)
  | snapshotKey (e : ReadErr)
  | snapshotValLen (e : ReadErr)
  | snapshotVal (e : ReadErr)
  | restorePut (key : Bytes) (e : Err)
  | writer
  | user (code : Nat)
  deriving DecidableEq, Repr

/-- The programs of the engine. -/
abbrev Go : Type → Type := Prog Panic World

namespace World

/-- The inodes a node holds: the slots of its backing array that its slice covers. -/
def inodes (w : World) (n : NodeId) : List Inode :=
  (w.arrays (w.nodes n).inodes.arr).take (w.nodes n).inodes.len

/-- The backing array of a node. -/
def arr (w : World) (n : NodeId) : ArrId := (w.nodes n).inodes.arr

end World

end Vmbolt
