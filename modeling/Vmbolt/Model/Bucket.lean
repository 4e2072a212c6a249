import Vmbolt.Model.Cursor

/-!
# Buckets

The remaining functions of `bucket.go`: the key/value operations, the loop over all pairs, the two
phases of a commit on one bucket, and the size of a bucket's view.
-/

namespace Vmbolt

/-- `MaxKeySize`. -/
def maxKeySize : Nat := 32768

/-- `MaxValueSize`. -/
def maxValueSize : Nat := 2 ^ 31 - 2

/-- `DefaultFillPercent`. -/
def defaultFillPercent : Float64 := .fin (1 / 2)

/-- `cloneBytes`: the copy is never nil. -/
def cloneBytes (v : Option Bytes) : Bytes := v.getD []

namespace Bucket

/-- `newBucket`. -/
def newBucket (t : TxId) (name : Name) : Go BucketId := do
  let b ← Prog.read World.nextBucket
  write fun w => { w.setBucket b { tx := t, name := name, rootNode := none, dirty := ∅,
                                   fillPercent := defaultFillPercent } with nextBucket := b + 1 }
  pure b

/-- `Bucket.Cursor`. -/
def cursor (b : BucketId) : Cursor := { bucket := some b, stack := [], dir := [], dirIdx := 0 }

/-- `Bucket.Get`. -/
def get (fuel : Nat) (w : World) (b : BucketId) (key : Bytes) : Outcome Panic (Option Bytes) := do
  let r ← Cursor.seekStack fuel w (rootView w b) key
  if bytesEqual key r.1.1 then pure r.1.2 else pure none

/-- The transaction of a bucket. -/
def txOf (b : BucketId) : Go Tx := Prog.read fun w => w.txs (w.buckets b).tx

/-- `Bucket.Put`. -/
def put (fuel : Nat) (b : BucketId) (key : Bytes) (value : Option Bytes) : Go (Option Err) := do
  let tx ← txOf b
  if tx.db = false then pure (some .txClosed)
  else if tx.writable = false then pure (some .txNotWritable)
  else if key.length = 0 then pure (some .keyRequired)
  else if maxKeySize < key.length then pure (some .keyTooLarge)
  else if maxValueSize < lenBytes value then pure (some .valueTooLarge)
  else do
    let r ← Prog.query fun w => Cursor.seekStack fuel w (rootView w b) key
    let n ← Cursor.node b r.2
    Node.put n key key (some (cloneBytes value)) none
    pure none

/-- `Bucket.Delete`. -/
def delete (fuel : Nat) (b : BucketId) (key : Bytes) : Go (Option Err) := do
  let tx ← txOf b
  if tx.db = false then pure (some .txClosed)
  else if tx.writable = false then pure (some .txNotWritable)
  else do
    let r ← Prog.query fun w => Cursor.seekStack fuel w (rootView w b) key
    if bytesEqual key r.1.1 then do
      let n ← Cursor.node b r.2
      Node.del n key
      pure none
    else pure none

/-- Set `Bucket.FillPercent`. -/
def setFillPercent (b : BucketId) (f : Float64) : Go Unit :=
  modifyBucket b fun bk => { bk with fillPercent := f }

/-- The loop of `Bucket.ForEach`, for a callback that threads a state `τ` of its own. -/
def forEachLoop {τ : Type} (fn : τ → Bytes → Option Bytes → Go (τ × Option Err)) :
    Nat → Cursor → Item → τ → Go (τ × Option Err)
  | 0, _, _, _ => Prog.hang
  | fuel + 1, c, (k, v), s =>
    match k with
    | none => pure (s, none)
    | some k => do
      let r ← fn s k v
      match r.2 with
      | some e => pure (r.1, some e)
      | none => do
        let nx ← Prog.query fun w => Cursor.Next fuel w c
        forEachLoop fn fuel nx.2 nx.1 r.1

/-- `Bucket.ForEach`. -/
def forEach {τ : Type} (fuel : Nat) (b : BucketId)
    (fn : τ → Bytes → Option Bytes → Go (τ × Option Err)) (s : τ) : Go (τ × Option Err) := do
  let tx ← txOf b
  if tx.db = false then pure (s, some .txClosed)
  else do
    let f ← Prog.query fun w => Cursor.First fuel w (cursor b)
    forEachLoop fn fuel f.2 f.1 s

/-- `Bucket.rebalance`. The list is an order in which the range over `b.dirty` may visit the nodes;
a node that is not in the map when its turn comes is not visited. -/
def rebalance (fuel : Nat) (b : BucketId) (order : List NodeId) : Go Unit :=
  Prog.each (fun n => do
    let bk ← bucketOf b
    if n ∈ bk.dirty then Node.rebalance fuel n else pure ()) order

/-- `node.root`. -/
def topOf : Nat → World → NodeId → Outcome Panic NodeId
  | 0, _, _ => .hang
  | fuel + 1, w, n =>
    match (w.nodes n).parent with
    | none => .ok n
    | some p => topOf fuel w p

/-- `Bucket.spill`. -/
def spill (fuel : Nat) (b : BucketId) : Go Unit := do
  let bk ← bucketOf b
  match bk.rootNode with
  | none => pure ()
  | some r => do
    Node.finalize fuel r
    let bk ← bucketOf b
    let r ← deref bk.rootNode
    let top ← Prog.query fun w => topOf fuel w r
    modifyBucket b fun bk => { bk with rootNode := some top }

/-- `Bucket.detachPublishedNodes`. The writes of its loop go to different nodes, so the order of the
range over `b.dirty` does not matter. -/
def detachPublishedNodes (b : BucketId) : Go Unit := do
  let bk ← bucketOf b
  write fun w => { w with nodes := fun n =>
    if n ∈ bk.dirty then { w.nodes n with bucket := none, parent := none } else w.nodes n }
  modifyBucket b fun bk => { bk with rootNode := none, dirty := ∅ }

/-- `Bucket.publishRoot`. -/
def publishRoot (b : BucketId) : Go (Option BucketState) := do
  let bk ← bucketOf b
  match bk.rootNode with
  | none => Prog.read fun w => baseState w b
  | some root => do
    detachPublishedNodes b
    pure (some ⟨some root⟩)

/-- The walk of `Bucket.size` over the nodes of a tree; a nil child panics. -/
def sizeWalk : Nat → World → Option NodeId → Outcome Panic Nat
  | 0, _, _ => .hang
  | _ + 1, _, none => .panic .nilDereference
  | fuel + 1, w, some n =>
    if (w.nodes n).isLeaf then .ok (Node.size (w.inodes n))
    else (w.inodes n).foldlM (fun sz i => do
      let c ← sizeWalk fuel w i.child
      pure (sz + c)) (Node.size (w.inodes n))

/-- `Bucket.size`. -/
def size (fuel : Nat) (w : World) (b : BucketId) : Outcome Panic Nat :=
  match rootView w b with
  | none => .ok 0
  | some r => sizeWalk fuel w (some r)

/-- `Bucket.forEachNodeDFS`, for a callback that threads a state `σ`; a nil child panics. -/
def forEachNodeDFS {σ : Type} (fn : World → NodeId → Nat → σ → σ) :
    Nat → World → Option NodeId → Nat → σ → Outcome Panic σ
  | 0, _, _, _, _ => .hang
  | _ + 1, _, none, _, _ => .panic .nilDereference
  | fuel + 1, w, some n, depth, s =>
    if (w.nodes n).isLeaf then .ok (fn w n depth s)
    else (w.inodes n).foldlM (fun s i => forEachNodeDFS fn fuel w i.child (depth + 1) s)
      (fn w n depth s)

/-- `Bucket.forEachNode`. -/
def forEachNode {σ : Type} (fn : World → NodeId → Nat → σ → σ) (fuel : Nat) (w : World)
    (b : BucketId) (s : σ) : Outcome Panic σ :=
  match rootView w b with
  | none => .ok s
  | some r => forEachNodeDFS fn fuel w (some r) 0 s

end Bucket

/-- `BucketStats`. -/
structure BucketStats where
  keyN : Nat
  depth : Nat
  branchInuse : Nat
  leafInuse : Nat
  deriving DecidableEq, Repr

/-- `BucketStructure`. -/
structure BucketStructure where
  name : Name
  keyN : Nat
  children : List BucketStructure

namespace Bucket

/-- What the callback of `Bucket.Stats` adds for a node: the values of the inodes count in a leaf
only. -/
def addStats (w : World) (n : NodeId) (depth : Nat) (s : BucketStats) : BucketStats :=
  let ins := w.inodes n
  let s :=
    if (w.nodes n).isLeaf then
      { s with
        keyN := s.keyN + ins.length
        leafInuse := s.leafInuse + ins.foldl (fun used i =>
          used + (nodeInodeOverheadBytes + i.key.length + lenBytes i.value))
            nodeHeaderOverheadBytes }
    else
      { s with
        branchInuse := s.branchInuse + ins.foldl (fun used i =>
          used + (nodeInodeOverheadBytes + i.key.length)) nodeHeaderOverheadBytes }
  if s.depth < depth + 1 then { s with depth := depth + 1 } else s

/-- `Bucket.Stats`. -/
def stats (fuel : Nat) (w : World) (b : BucketId) : Outcome Panic BucketStats :=
  forEachNode addStats fuel w b ⟨0, 0, 0, 0⟩

/-- The loop of `Bucket.recursivelyInspect`, which counts the keys. -/
def inspectLoop (fuel : Nat) (w : World) : Nat → Item → List ElemRef → Nat → Outcome Panic Nat
  | 0, _, _, _ => .hang
  | _ + 1, (none, _), _, keyN => .ok keyN
  | n + 1, (some _, _), st, keyN => do
    let r ← Cursor.nextStack fuel w st
    inspectLoop fuel w n r.1 r.2 (keyN + 1)

/-- `Bucket.Inspect`. -/
def inspect (fuel : Nat) (w : World) (b : BucketId) : Outcome Panic BucketStructure := do
  let r ← Cursor.firstStack fuel w (rootView w b)
  let keyN ← inspectLoop fuel w fuel r.1 r.2 0
  pure ⟨(w.buckets b).name, keyN, []⟩

end Bucket

end Vmbolt
