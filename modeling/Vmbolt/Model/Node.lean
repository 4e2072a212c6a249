import Vmbolt.Model.Heap

/-!
# Nodes

The functions of `node.go`, together with `copyNode` and `childForWrite` of `bucket.go`, which the
node functions call. The functions that only look at the inodes of a node are functions of the list
of inodes.
-/

namespace Vmbolt

/-- `defaultMaxNodeSizeBytes`. -/
def defaultMaxNodeSizeBytes : Nat := 128 * 1024

/-- `defaultMinNodeMergeBytes`. -/
def defaultMinNodeMergeBytes : Nat := defaultMaxNodeSizeBytes / 4

/-- `nodeHeaderOverheadBytes`. -/
def nodeHeaderOverheadBytes : Nat := 32

/-- `nodeInodeOverheadBytes`. -/
def nodeInodeOverheadBytes : Nat := 24

/-- `len` of a byte slice that may be nil. -/
def lenBytes (v : Option Bytes) : Nat := (v.getD []).length

/-- What one inode adds to the size of its node. -/
def Inode.size (i : Inode) : Nat := nodeInodeOverheadBytes + i.key.length + lenBytes i.value

namespace Node

/-- `node.minKeys`. -/
def minKeys (isLeaf : Bool) : Nat := if isLeaf then 1 else 2

/-- `node.size`. -/
def size (ins : List Inode) : Nat :=
  ins.foldl (fun sz item => sz + item.size) nodeHeaderOverheadBytes

/-- The loop of `node.sizeLessThan`. -/
def sizeLessThanLoop (v : Nat) : Nat → List Inode → Bool
  | _, [] => true
  | sz, item :: rest =>
    if v ≤ sz + item.size then false else sizeLessThanLoop v (sz + item.size) rest

/-- `node.sizeLessThan`. -/
def sizeLessThan (ins : List Inode) (v : Nat) : Bool :=
  sizeLessThanLoop v nodeHeaderOverheadBytes ins

/-- The index `sort.Search` gives for the first inode whose key is not below `key`; this is
`node.childIndex` for the key of a child. -/
def childIndex (ins : List Inode) (key : Bytes) : Nat := lowerBound Inode.key ins key

/-- The loop of `node.splitIndex` over the inodes in front of the last `minKeys` ones. -/
def splitIndexLoop (minKeys : Nat) (threshold : Int) : List Inode → Nat → Nat → Nat → Nat × Nat
  | [], _, index, sz => (index, sz)
  | inode :: rest, i, _, sz =>
    if minKeys ≤ i ∧ threshold < ((sz + inode.size : Nat) : Int) then (i, sz)
    else splitIndexLoop minKeys threshold rest (i + 1) i (sz + inode.size)

/-- `node.splitIndex`. -/
def splitIndex (isLeaf : Bool) (ins : List Inode) (threshold : Int) : Nat × Nat :=
  splitIndexLoop (minKeys isLeaf) threshold (ins.take (ins.length - minKeys isLeaf)) 0 0
    nodeHeaderOverheadBytes

/-- The guard of `node.splitTwo`: the node stays in one piece. -/
def fitsOneNode (isLeaf : Bool) (ins : List Inode) : Bool :=
  ins.length ≤ minKeys isLeaf * 2 || sizeLessThan ins defaultMaxNodeSizeBytes

end Node

/-- `minFillPercent`: the `float64` next to 0.1. -/
def minFillPercent : ℚ := 3602879701896397 / 2 ^ 55

/-- `maxFillPercent`. -/
def maxFillPercent : ℚ := 1

/-- `int(float64(defaultMaxNodeSizeBytes) * q)`: multiplying by a power of two is exact. -/
def scaleToNode (q : ℚ) : Int := ⌊(defaultMaxNodeSizeBytes : ℚ) * q⌋

/-- The threshold of `node.splitTwo`, with the fill percentage cut to
`[minFillPercent, maxFillPercent]`; both comparisons are false for a NaN. -/
def splitThreshold (rt : Runtime) : Float64 → Int
  | .nan => rt.intOfNaN
  | .negInf => scaleToNode minFillPercent
  | .posInf => scaleToNode maxFillPercent
  | .fin q =>
    if q < minFillPercent then scaleToNode minFillPercent
    else if maxFillPercent < q then scaleToNode maxFillPercent
    else scaleToNode q

namespace Bucket

/-- `Bucket.copyNode`. -/
def copyNode (b : BucketId) (orig : NodeId) : Go NodeId := do
  let o ← nodeOf orig
  let ins ← inodesOf orig
  let s ← cloneInodes ins
  newNode { bucket := some b, isLeaf := o.isLeaf, unbalanced := false, spilled := false,
            key := o.key, parent := none, inodes := s }

/-- `Bucket.childForWrite`. -/
def childForWrite (b : BucketId) (parent : NodeId) (idx : Nat) : Go NodeId := do
  let ins ← inodesOf parent
  match ins[idx]? with
  | none => Prog.panic .indexOutOfRange
  | some inode => do
    let bk ← bucketOf b
    match inode.child with
    | none => Prog.panic .nilDereference
    | some child =>
      if child ∈ bk.dirty then pure child
      else do
        let c ← copyNode b child
        modifyNode c fun nd => { nd with parent := some parent }
        markDirty b c
        modifyInode parent idx fun i => { i with child := some c }
        pure c

end Bucket

namespace Node

/-- `node.childAt`. -/
def childAt (n : NodeId) (index : Nat) : Go NodeId := do
  let nd ← nodeOf n
  if nd.isLeaf then Prog.panic .childAtOnLeaf
  else do
    let b ← deref nd.bucket
    Bucket.childForWrite b n index

/-- `node.nextSibling`. -/
def nextSibling (n : NodeId) : Go (Option NodeId) := do
  let nd ← nodeOf n
  match nd.parent with
  | none => pure none
  | some p => do
    let ins ← inodesOf p
    let index := childIndex ins nd.key
    if ins.length - 1 ≤ index then pure none
    else do
      let c ← childAt p (index + 1)
      pure (some c)

/-- `node.prevSibling`. -/
def prevSibling (n : NodeId) : Go (Option NodeId) := do
  let nd ← nodeOf n
  match nd.parent with
  | none => pure none
  | some p => do
    let ins ← inodesOf p
    let index := childIndex ins nd.key
    if index = 0 then pure none
    else do
      let c ← childAt p (index - 1)
      pure (some c)

/-- The part of `node.put` that adds capacity and shifts the inodes, unless there is an exact
match. -/
def makeRoom (n : NodeId) (oldKey : Bytes) (index : Nat) : Go Unit := do
  let ins ← inodesOf n
  if 0 < ins.length ∧ index < ins.length ∧ (ins.getD index default).key = oldKey then pure ()
  else do
    appendInodes n [default]
    copyInodes n (index + 1) index

/-- `node.put`. -/
def put (n : NodeId) (oldKey newKey : Bytes) (value : Option Bytes) (child : Option NodeId) :
    Go Unit :=
  if oldKey.length ≤ 0 then Prog.panic .putZeroLengthOldKey
  else if newKey.length ≤ 0 then Prog.panic .putZeroLengthNewKey
  else do
    let ins ← inodesOf n
    let index := childIndex ins oldKey
    makeRoom n oldKey index
    modifyInode n index fun _ => ⟨newKey, value, child⟩
    Prog.assert (0 < newKey.length) .putZeroLengthInodeKey

/-- `node.del`. -/
def del (n : NodeId) (key : Bytes) : Go Unit := do
  let ins ← inodesOf n
  let index := childIndex ins key
  if ins.length ≤ index ∨ (ins.getD index default).key ≠ key then pure ()
  else do
    copyInodes n index (index + 1)
    modifyInode n (ins.length - 1) fun _ => default
    resliceInodes n (ins.length - 1)
    modifyNode n fun nd => { nd with unbalanced := true }

/-- The parent `node.splitTwo` enters the second node into: a new one, if there is none. -/
def parentForSplit (b : BucketId) (n : NodeId) : Go NodeId := do
  let nd ← nodeOf n
  match nd.parent with
  | some p => pure p
  | none => do
    let s ← nilInodes
    let p ← newNode { bucket := some b, isLeaf := false, unbalanced := false, spilled := false,
                      key := [], parent := none, inodes := s }
    modifyNode n fun nd => { nd with parent := some p }
    markDirty b p
    pure p

/-- `node.splitTwo`: the second node, if the node was split. -/
def splitTwo (n : NodeId) : Go (Option NodeId) := do
  let nd ← nodeOf n
  let ins ← inodesOf n
  if fitsOneNode nd.isLeaf ins then pure none
  else do
    let b ← deref nd.bucket
    let bk ← bucketOf b
    let rt ← Prog.read World.rt
    let index := (splitIndex nd.isLeaf ins (splitThreshold rt bk.fillPercent)).1
    let parent ← parentForSplit b n
    let s ← nilInodes
    let next ← newNode { bucket := some b, isLeaf := nd.isLeaf, unbalanced := false,
                         spilled := false, key := [], parent := some parent, inodes := s }
    markDirty b next
    let left ← cloneInodes (ins.take index)
    let right ← cloneInodes (ins.drop index)
    clearInodes n
    modifyNode n fun nd => { nd with inodes := left }
    modifyNode next fun nd => { nd with inodes := right }
    pure (some next)

/-- `node.split`. -/
def split : Nat → NodeId → Go (List NodeId)
  | 0, _ => Prog.hang
  | fuel + 1, n => do
    let b ← splitTwo n
    match b with
    | none => pure [n]
    | some next => do
      let rest ← split fuel next
      pure (n :: rest)

/-- The body of the second loop of `node.finalize`: mark a piece as spilled and enter it into its
parent. -/
def finalizePiece (node : NodeId) : Go Unit := do
  modifyNode node fun nd => { nd with spilled := true }
  let nd ← nodeOf node
  match nd.parent with
  | none => pure ()
  | some p => do
    let ins ← inodesOf node
    if nd.key.length = 0 ∧ ins.length = 0 then Prog.panic .finalizeNoInodes
    else
      let key := if nd.key.length = 0 then (ins.getD 0 default).key else nd.key
      if key.length = 0 then Prog.panic .finalizeZeroLengthKey
      else if ins.length = 0 then Prog.panic .indexOutOfRange
      else do
        put p key (ins.getD 0 default).key none (some node)
        let ins ← inodesOf node
        if ins.length = 0 then Prog.panic .indexOutOfRange
        else do
          modifyNode node fun nd => { nd with key := (ins.getD 0 default).key }
          Prog.assert (0 < (ins.getD 0 default).key.length) .finalizeZeroLengthNodeKey

/-- The body of the first loop of `node.finalize`: `i` runs over the indices the slice had when the
loop was entered, the inodes are those of the moment. -/
def finalizeChild (finalize : NodeId → Go Unit) (n : NodeId) (i : Nat) : Go Unit := do
  let ins ← inodesOf n
  match ins[i]? with
  | none => Prog.panic .indexOutOfRange
  | some inode =>
    match inode.child with
    | none => pure ()
    | some c => do
      let nd ← nodeOf n
      let b ← deref nd.bucket
      let bk ← bucketOf b
      if c ∈ bk.dirty then finalize c else pure ()

/-- `node.finalize`. -/
def finalize : Nat → NodeId → Go Unit
  | 0, _ => Prog.hang
  | fuel + 1, n => do
    let nd ← nodeOf n
    let _ ← deref nd.bucket
    if nd.spilled then pure ()
    else do
      let ins ← inodesOf n
      Prog.each (finalizeChild (finalize fuel) n) (List.range ins.length)
      let nodes ← split fuel n
      Prog.each finalizePiece nodes
      let nd ← nodeOf n
      match nd.parent with
      | none => pure ()
      | some p => do
        let pd ← nodeOf p
        if pd.spilled then pure () else finalize fuel p

/-- The loops of `node.rebalance` over the inodes of `m`: their dirty children get the parent
`n`. -/
def reparent (m n : NodeId) (inode : Inode) : Go Unit :=
  match inode.child with
  | none => pure ()
  | some c => do
    let md ← nodeOf m
    let b ← deref md.bucket
    let bk ← bucketOf b
    if c ∈ bk.dirty then modifyNode c fun nd => { nd with parent := some n } else pure ()

/-- The parent of a node that has one. -/
def parentOf (n : NodeId) : Go NodeId := do
  let nd ← nodeOf n
  deref nd.parent

/-- The two siblings `node.rebalance` merges: the node and its right sibling if it is the first
child, the node and its left sibling otherwise. -/
def mergePair (n p : NodeId) : Go (NodeId × NodeId) := do
  let nd ← nodeOf n
  let pins ← inodesOf p
  if childIndex pins nd.key = 0 then do
    let next ← nextSibling n
    let right ← deref next
    pure (n, right)
  else do
    let prev ← prevSibling n
    let left ← deref prev
    pure (left, n)

/-- The part of `node.rebalance` that moves the only child of a root up. -/
def collapseRoot (n : NodeId) : Go Unit := do
  let child ← childAt n 0
  let cd ← nodeOf child
  modifyNode n fun nd => { nd with isLeaf := cd.isLeaf }
  modifyNode n fun nd => { nd with inodes := cd.inodes }
  let ins ← inodesOf n
  Prog.each (reparent n n) ins
  modifyNode child fun nd => { nd with parent := none }

/-- The part of `node.rebalance` that moves the inodes of the right sibling to the left one and
takes the right one out of the parent. -/
def mergeSiblings (n left right : NodeId) : Go Unit := do
  let rins ← inodesOf right
  Prog.each (reparent right left) rins
  let rins ← inodesOf right
  appendInodes left rins
  let p ← parentOf n
  let rd ← nodeOf right
  del p rd.key

/-- `node.rebalance`. -/
def rebalance : Nat → NodeId → Go Unit
  | 0, _ => Prog.hang
  | fuel + 1, n => do
    let nd ← nodeOf n
    if !nd.unbalanced then pure ()
    else do
      modifyNode n fun nd => { nd with unbalanced := false }
      let _ ← deref nd.bucket
      let ins ← inodesOf n
      if defaultMinNodeMergeBytes < size ins ∧ minKeys nd.isLeaf < ins.length then pure ()
      else
        match nd.parent with
        | none =>
          if nd.isLeaf = false ∧ ins.length = 1 then collapseRoot n else pure ()
        | some p =>
          if ins.length = 0 then do
            del p nd.key
            let p ← parentOf n
            rebalance fuel p
          else do
            let pins ← inodesOf p
            Prog.assert (1 < pins.length) .parentMustHaveAtLeast2Children
            let (left, right) ← mergePair n p
            mergeSiblings n left right
            let p ← parentOf n
            rebalance fuel p

end Node

end Vmbolt
