import Mathlib.Data.Finset.Sort
import Vmbolt.Model.Node

/-!
# Cursors

The functions of `cursor.go`. A cursor is a value: its stack of node references, top first, for the
tree mode, and a sorted list of names with a position for the directory mode. The functions that
move a cursor only read the heap, so they are functions of the `World`; `Cursor.node` and
`Cursor.delete` write to it.
-/

namespace Vmbolt

namespace Bucket

/-- `Bucket.baseState`. -/
def baseState (w : World) (b : BucketId) : Option BucketState :=
  match (w.txs (w.buckets b).tx).base with
  | none => none
  | some st => (st.buckets.lookup (w.buckets b).name).join

/-- `Bucket.rootView`. -/
def rootView (w : World) (b : BucketId) : Option NodeId :=
  match (w.buckets b).rootNode with
  | some n => some n
  | none =>
    match baseState w b with
    | some bs => bs.root
    | none => none

/-- `Bucket.writableRoot`. -/
def writableRoot (b : BucketId) : Go NodeId := do
  let bk ← bucketOf b
  match bk.rootNode with
  | some n => pure n
  | none => do
    let bs ← Prog.read fun w => baseState w b
    let root ← (match bs.bind BucketState.root with
      | some r => copyNode b r
      | none => do
        let s ← nilInodes
        newNode { bucket := some b, isLeaf := true, unbalanced := false, spilled := false,
                  key := [], parent := none, inodes := s })
    markDirty b root
    modifyBucket b fun bk => { bk with rootNode := some root }
    pure root

end Bucket

/-- An `elemRef`. The index is `-1` when `Last` enters an empty node. -/
structure ElemRef where
  node : NodeId
  index : Int
  deriving DecidableEq, Repr

/-- A `Cursor`; the stack has its top first, and `bucket` is `none` in directory mode. -/
structure Cursor where
  bucket : Option BucketId
  stack : List ElemRef
  dir : List Name
  dirIdx : Int
  deriving DecidableEq, Repr

/-- A key and a value as a cursor returns them; nil is `none`. -/
abbrev Item : Type := Option Bytes × Option Bytes

/-- `l[i]` for an index that may be negative. -/
def atIndex {α : Type} (l : List α) (i : Int) : Option α := if i < 0 then none else l[i.toNat]?

/-- A key slice: the stored keys are never empty, so an empty one is nil. -/
def keySlice (k : Bytes) : Option Bytes := if k = [] then none else some k

/-- `bytes.Equal` for a slice that may be nil. -/
def bytesEqual (key : Bytes) (k : Option Bytes) : Bool := k.getD [] = key

namespace Cursor

/-- `elemRef.count`. -/
def count (w : World) (r : ElemRef) : Nat := (w.inodes r.node).length

/-- `Cursor.keyValue`. -/
def keyValue (w : World) : List ElemRef → Outcome Panic Item
  | [] => .panic .indexOutOfRange
  | ref :: _ =>
    if count w ref = 0 ∨ (count w ref : Int) ≤ ref.index then .ok (none, none)
    else
      match atIndex (w.inodes ref.node) ref.index with
      | none => .panic .indexOutOfRange
      | some inode => .ok (keySlice inode.key, inode.value)

/-- `ref.node.inodes[ref.index].child`, for a child that is then looked at. -/
def childOf (w : World) (ref : ElemRef) : Outcome Panic NodeId :=
  match atIndex (w.inodes ref.node) ref.index with
  | none => .panic .indexOutOfRange
  | some inode =>
    match inode.child with
    | none => .panic .nilDereference
    | some n => .ok n

/-- `Cursor.goToFirstElementOnTheStack`. -/
def goToFirstElementOnTheStack : Nat → World → List ElemRef → Outcome Panic (List ElemRef)
  | 0, _, _ => .hang
  | _ + 1, _, [] => .panic .indexOutOfRange
  | fuel + 1, w, ref :: st =>
    if (w.nodes ref.node).isLeaf then .ok (ref :: st)
    else do
      let n ← childOf w ref
      goToFirstElementOnTheStack fuel w (⟨n, 0⟩ :: ref :: st)

/-- `Cursor.last`. -/
def last : Nat → World → List ElemRef → Outcome Panic (List ElemRef)
  | 0, _, _ => .hang
  | _ + 1, _, [] => .panic .indexOutOfRange
  | fuel + 1, w, ref :: st =>
    if (w.nodes ref.node).isLeaf then .ok (ref :: st)
    else do
      let n ← childOf w ref
      last fuel w (⟨n, (w.inodes n).length - 1⟩ :: ref :: st)

/-- The inner loop of `Cursor.next`: move over one element, dropping the nodes that are at their
end. -/
def moveOver (w : World) : List ElemRef → Option (List ElemRef)
  | [] => none
  | elem :: st =>
    if elem.index < (count w elem : Int) - 1 then some (⟨elem.node, elem.index + 1⟩ :: st)
    else moveOver w st

/-- Whether the node on top of the stack is empty. -/
def topEmpty (w : World) : List ElemRef → Bool
  | [] => true
  | ref :: _ => count w ref = 0

/-- `Cursor.next` on the stack. -/
def nextStack : Nat → World → List ElemRef → Outcome Panic (Item × List ElemRef)
  | 0, _, _ => .hang
  | fuel + 1, w, st =>
    match moveOver w st with
    | none => .ok ((none, none), st)
    | some st => do
      let st ← goToFirstElementOnTheStack fuel w st
      if topEmpty w st then nextStack fuel w st
      else do
        let kv ← keyValue w st
        pure (kv, st)

/-- `Cursor.first` on the stack of a cursor with the given root. -/
def firstStack (fuel : Nat) (w : World) (root : Option NodeId) :
    Outcome Panic (Item × List ElemRef) :=
  match root with
  | none => .panic .nilDereference
  | some n => do
    let st ← goToFirstElementOnTheStack fuel w [⟨n, 0⟩]
    let st ← (if topEmpty w st then do
        let r ← nextStack fuel w st
        pure r.2
      else pure st)
    let kv ← keyValue w st
    pure (kv, st)

/-- The loop of `Cursor.prev`: `none` when the beginning is hit. -/
def moveBack : List ElemRef → Option (List ElemRef)
  | [] => none
  | elem :: st => if 0 < elem.index then some (⟨elem.node, elem.index - 1⟩ :: st) else moveBack st

/-- `Cursor.prev` on the stack of a cursor with the given root. -/
def prevStack (fuel : Nat) (w : World) (root : Option NodeId) (st : List ElemRef) :
    Outcome Panic (Item × List ElemRef) :=
  match st with
  | [] => .ok ((none, none), [])
  | _ :: _ =>
    match moveBack st with
    | none => do
      let r ← firstStack fuel w root
      pure ((none, none), r.2)
    | some st => do
      let st ← last fuel w st
      let kv ← keyValue w st
      pure (kv, st)

/-- The loop of `Cursor.Last` that leaves empty nodes. -/
def lastLoop : Nat → World → Option NodeId → List ElemRef → Outcome Panic (List ElemRef)
  | 0, _, _, _ => .hang
  | fuel + 1, w, root, st =>
    if 1 < st.length ∧ topEmpty w st then do
      let r ← prevStack fuel w root st
      lastLoop fuel w root r.2
    else .ok st

/-- `Cursor.Last` on the stack of a cursor with the given root. -/
def lastStack (fuel : Nat) (w : World) (root : Option NodeId) :
    Outcome Panic (Item × List ElemRef) :=
  match root with
  | none => .panic .nilDereference
  | some n => do
    let st ← last fuel w [⟨n, (w.inodes n).length - 1⟩]
    let st ← lastLoop fuel w root st
    match st with
    | [] => .ok ((none, none), [])
    | _ :: _ => do
      let kv ← keyValue w st
      pure (kv, st)

/-- The index `Cursor.searchNode` takes: the flag `exact` is raised by a probe that meets the
key. -/
def searchIndex (ins : List Inode) (key : Bytes) : Nat :=
  let r := lowerBoundExact Inode.key ins key
  if r.2 = false ∧ 0 < r.1 then r.1 - 1 else r.1

/-- `Cursor.search` with `searchNode` and `nsearch`. -/
def search : Nat → World → Bytes → Option NodeId → List ElemRef → Outcome Panic (List ElemRef)
  | 0, _, _, _, _ => .hang
  | _ + 1, _, _, none, _ => .panic .cursorSearchNilNode
  | fuel + 1, w, key, some n, st =>
    let ins := w.inodes n
    if (w.nodes n).isLeaf then .ok (⟨n, Node.childIndex ins key⟩ :: st)
    else
      let index := searchIndex ins key
      match ins[index]? with
      | none => .panic .indexOutOfRange
      | some inode => search fuel w key inode.child (⟨n, index⟩ :: st)

/-- `Cursor.seek` on the stack of a cursor with the given root. -/
def seekStack (fuel : Nat) (w : World) (root : Option NodeId) (key : Bytes) :
    Outcome Panic (Item × List ElemRef) := do
  let st ← search fuel w key root []
  let kv ← keyValue w st
  pure (kv, st)

/-- Whether the top of the stack points behind the last element of its node. -/
def topAtEnd (w : World) : List ElemRef → Bool
  | [] => true
  | ref :: _ => (count w ref : Int) ≤ ref.index

/-- `Cursor.dirKeyValue`. -/
def dirKeyValue (c : Cursor) : Item :=
  match atIndex c.dir c.dirIdx with
  | none => (none, none)
  | some name => (some name, none)

/-- The assertion of the exported functions that the transaction is open. -/
def openRoot (w : World) (b : BucketId) : Outcome Panic (Option NodeId) :=
  if (w.txs (w.buckets b).tx).db then .ok (Bucket.rootView w b) else .panic .txClosed

/-- `Cursor.First`. -/
def First (fuel : Nat) (w : World) (c : Cursor) : Outcome Panic (Item × Cursor) :=
  match c.bucket with
  | none => let c := { c with dirIdx := 0 }; .ok (dirKeyValue c, c)
  | some b => do
    let root ← openRoot w b
    let r ← firstStack fuel w root
    pure (r.1, { c with stack := r.2 })

/-- `Cursor.Last`. -/
def Last (fuel : Nat) (w : World) (c : Cursor) : Outcome Panic (Item × Cursor) :=
  match c.bucket with
  | none =>
    if c.dir.length = 0 then .ok ((none, none), { c with dirIdx := 0 })
    else let c := { c with dirIdx := c.dir.length - 1 }; .ok (dirKeyValue c, c)
  | some b => do
    let root ← openRoot w b
    let r ← lastStack fuel w root
    pure (r.1, { c with stack := r.2 })

/-- `Cursor.Next`. -/
def Next (fuel : Nat) (w : World) (c : Cursor) : Outcome Panic (Item × Cursor) :=
  match c.bucket with
  | none => let c := { c with dirIdx := c.dirIdx + 1 }; .ok (dirKeyValue c, c)
  | some b => do
    let _ ← openRoot w b
    let r ← nextStack fuel w c.stack
    pure (r.1, { c with stack := r.2 })

/-- `Cursor.Prev`. -/
def Prev (fuel : Nat) (w : World) (c : Cursor) : Outcome Panic (Item × Cursor) :=
  match c.bucket with
  | none => let c := { c with dirIdx := c.dirIdx - 1 }; .ok (dirKeyValue c, c)
  | some b => do
    let root ← openRoot w b
    let r ← prevStack fuel w root c.stack
    pure (r.1, { c with stack := r.2 })

/-- `Cursor.Seek`. -/
def Seek (fuel : Nat) (w : World) (c : Cursor) (seek : Bytes) : Outcome Panic (Item × Cursor) :=
  match c.bucket with
  | none =>
    let c := { c with dirIdx := lowerBound id c.dir seek }
    .ok (dirKeyValue c, c)
  | some b => do
    let root ← openRoot w b
    let r ← seekStack fuel w root seek
    let r ← (if topAtEnd w r.2 then nextStack fuel w r.2 else pure r)
    pure (r.1, { c with stack := r.2 })

/-- The walk of `Cursor.node` from the root along the indices of the stack. -/
def walk (n : NodeId) : List ElemRef → Go NodeId
  | [] => pure n
  | ref :: refs => do
    let nd ← nodeOf n
    Prog.assert (nd.isLeaf = false) .expectedBranchNode
    let c ← (if ref.index < 0 then Prog.panic .indexOutOfRange
      else Node.childAt n ref.index.toNat)
    walk c refs

/-- `Cursor.node` for a cursor of the bucket `b`. -/
def node (b : BucketId) (st : List ElemRef) : Go NodeId := do
  Prog.assert (0 < st.length) .zeroLengthCursorStack
  let root ← Bucket.writableRoot b
  let n ← walk root st.tail.reverse
  let nd ← nodeOf n
  Prog.assert (nd.isLeaf = true) .expectedLeafNode
  pure n

/-- `Cursor.Delete`. -/
def delete (c : Cursor) : Go (Option Err) :=
  match c.bucket with
  | none => pure (some .incompatibleValue)
  | some b => do
    let tx ← Prog.read fun w => w.txs (w.buckets b).tx
    if tx.db = false then pure (some .txClosed)
    else if tx.writable = false then pure (some .txNotWritable)
    else do
      let kv ← Prog.query fun w => keyValue w c.stack
      let n ← node b c.stack
      Node.del n (kv.1.getD [])
      pure none

end Cursor

end Vmbolt
