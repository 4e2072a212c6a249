import Vmbolt.Model.Bucket

/-!
# Transactions

The functions of `tx.go` on one transaction: the bucket directory, the directory cursor, `ForEach`,
`Size`, and the end of a transaction by `Commit` or `Rollback`.
-/

namespace Vmbolt

namespace Tx

/-- The names in the published state a transaction is based on. -/
def baseNames (tx : Tx) : List Name :=
  match tx.base with
  | none => []
  | some st => st.buckets.keys

/-- `tx.base.buckets[key]`. -/
def baseBucket (tx : Tx) (key : Name) : Option BucketState :=
  match tx.base with
  | none => none
  | some st => (st.buckets.lookup key).join

/-- `Tx.bucketExistsCommitted`. -/
def bucketExistsCommitted (tx : Tx) (key : Name) : Bool := key ∈ tx.baseNames

/-- Read a transaction. -/
def get (t : TxId) : Go Tx := Prog.read fun w => w.txs t

/-- Write fields of a transaction. -/
def modify (t : TxId) (f : Tx → Tx) : Go Unit := write fun w => w.setTx t (f (w.txs t))

/-- `Tx.putBctx`. -/
def putBctx (t : TxId) (key : Name) (b : BucketId) : Go Unit :=
  modify t fun tx => { tx with bctx := tx.bctx.insert key b }

/-- `Tx.Bucket`. -/
def bucket (t : TxId) (name : Name) : Go (Option BucketId) := do
  let tx ← get t
  if tx.db = false then pure none
  else
    match tx.bctx.lookup name with
    | some b => pure (some b)
    | none =>
      if name ∈ tx.deleted then pure none
      else
        match tx.baseBucket name with
        | none => pure none
        | some _ => do
          let b ← Bucket.newBucket t name
          putBctx t name b
          pure (some b)

/-- `Tx.CreateBucket`. -/
def createBucket (t : TxId) (name : Name) : Go (Except Err BucketId) := do
  let tx ← get t
  if tx.db = false then pure (.error .txClosed)
  else if tx.writable = false then pure (.error .txNotWritable)
  else if name.length = 0 then pure (.error .bucketNameRequired)
  else if name ∉ tx.deleted ∧ (name ∈ tx.created ∨ tx.bucketExistsCommitted name) then
    pure (.error .bucketExists)
  else do
    let b ← Bucket.newBucket t name
    let s ← nilInodes
    let root ← newNode { bucket := some b, isLeaf := true, unbalanced := false, spilled := false,
                         key := [], parent := none, inodes := s }
    modifyBucket b fun bk => { bk with rootNode := some root }
    markDirty b root
    modify t fun tx => { tx with created := insert name tx.created }
    modify t fun tx => { tx with deleted := tx.deleted.erase name }
    putBctx t name b
    pure (.ok b)

/-- `Tx.CreateBucketIfNotExists`. -/
def createBucketIfNotExists (t : TxId) (name : Name) : Go (Except Err BucketId) := do
  let tx ← get t
  if tx.db = false then pure (.error .txClosed)
  else if tx.writable = false then pure (.error .txNotWritable)
  else if name.length = 0 then pure (.error .bucketNameRequired)
  else do
    let b ← bucket t name
    match b with
    | some b => pure (.ok b)
    | none => createBucket t name

/-- `Tx.DeleteBucket`. -/
def deleteBucket (t : TxId) (name : Name) : Go (Option Err) := do
  let tx ← get t
  if tx.db = false then pure (some .txClosed)
  else if tx.writable = false then pure (some .txNotWritable)
  else if name ∈ tx.created then do
    modify t fun tx => { tx with created := tx.created.erase name }
    modify t fun tx => { tx with bctx := tx.bctx.erase name }
    pure none
  else if tx.bucketExistsCommitted name = false then pure (some .bucketNotFound)
  else do
    modify t fun tx => { tx with deleted := insert name tx.deleted }
    modify t fun tx => { tx with bctx := tx.bctx.erase name }
    pure none

/-- `Tx.Cursor`: the names are those of the base and the created ones without the deleted ones, in
sorted order. -/
def cursor (tx : Tx) : Cursor :=
  if tx.db = false then { bucket := none, stack := [], dir := [], dirIdx := 0 }
  else { bucket := none, stack := [], dirIdx := -1,
         dir := ((tx.baseNames.toFinset ∪ tx.created) \ tx.deleted).sort }

/-- The loop of `Tx.ForEach` over the sorted names, with the names seen so far and a callback that
threads a state `τ` of its own. -/
def forEachLoop {τ : Type} (t : TxId) (fn : τ → Name → Option BucketId → Go (τ × Option Err)) :
    List Name → Finset Name → τ → Go (τ × Option Err)
  | [], _, s => pure (s, none)
  | n :: names, seen, s =>
    if n ∈ seen then forEachLoop t fn names seen s
    else do
      let b ← bucket t n
      let r ← fn s n b
      match r.2 with
      | some e => pure (r.1, some e)
      | none => forEachLoop t fn names (insert n seen) r.1

/-- `Tx.ForEach`. The names are appended with the created ones last and then sorted. -/
def forEach {τ : Type} (t : TxId) (fn : τ → Name → Option BucketId → Go (τ × Option Err))
    (s : τ) : Go (τ × Option Err) := do
  let tx ← get t
  if tx.db = false then pure (s, some .txClosed)
  else
    let names := (tx.baseNames.filter (· ∉ tx.deleted) ++ tx.created.sort).mergeSort
    forEachLoop t fn names ∅ s

/-- The walk of `bucketStateSize`; a nil child counts nothing. -/
def stateSizeWalk : Nat → World → Option NodeId → Outcome Panic Nat
  | 0, _, _ => .hang
  | _ + 1, _, none => .ok 0
  | fuel + 1, w, some n =>
    if (w.nodes n).isLeaf then .ok (Node.size (w.inodes n))
    else (w.inodes n).foldlM (fun sz i => do
      let c ← stateSizeWalk fuel w i.child
      pure (sz + c)) (Node.size (w.inodes n))

/-- `bucketStateSize`. -/
def bucketStateSize (fuel : Nat) (w : World) (st : Option BucketState) : Outcome Panic Nat :=
  match st.bind BucketState.root with
  | none => .ok 0
  | some r => stateSizeWalk fuel w (some r)

/-- `Tx.Size`, which panics once the transaction is closed. Sums do not depend on the order of the
two ranges. -/
def size (fuel : Nat) (w : World) (t : TxId) : Outcome Panic Nat := do
  let tx := w.txs t
  let _ ← (if tx.base.isSome then pure () else .panic .nilDereference)
  let seen := tx.baseNames.filter (· ∉ tx.deleted)
  let sz ← seen.foldlM (fun sz name => do
    let c ← (match tx.bctx.lookup name with
      | some b => Bucket.size fuel w b
      | none => bucketStateSize fuel w (tx.baseBucket name))
    pure (sz + c)) 0
  (tx.bctx.keys.filter (· ∉ seen)).foldlM (fun sz name => do
    let c ← (match tx.bctx.lookup name with
      | some b => Bucket.size fuel w b
      | none => pure 0)
    pure (sz + c)) sz

/-- `db.rwlock.Unlock()`. -/
def unlock : Go Unit := do
  let db ← Prog.read World.db
  if db.rwlock then write fun w => { w with db := { w.db with rwlock := false } }
  else Prog.panic .unlockOfUnlockedMutex

/-- `Tx.close`. -/
def close (t : TxId) : Go Unit := do
  let tx ← get t
  if tx.db = false then pure ()
  else do
    if tx.writable then unlock else pure ()
    modify t fun tx => { tx with db := false }
    modify t fun tx => { tx with base := none }
    modify t fun tx => { tx with bctx := ∅ }
    modify t fun tx => { tx with created := ∅ }
    modify t fun tx => { tx with deleted := ∅ }

/-- `Tx.rollback`. -/
def rollback (t : TxId) : Go Unit := close t

/-- `Tx.Rollback`. -/
def Rollback (t : TxId) : Go (Option Err) := do
  let tx ← get t
  Prog.assert (tx.managed = false) .managedTxRollback
  if tx.db = false then pure (some .txClosed)
  else do
    rollback t
    pure none

/-- The orders in which a `Commit` ranges over its maps: over `tx.bctx` to rebalance (with the order
in which each bucket's dirty nodes are visited), to spill and to publish. -/
structure Order where
  rebalance : List (Name × List NodeId)
  spill : List Name
  publish : List Name

/-- The first loop of `Tx.Commit`. -/
def rebalanceAll (fuel : Nat) (t : TxId) (order : List (Name × List NodeId)) : Go Unit :=
  Prog.each (fun o => do
    let tx ← get t
    match tx.bctx.lookup o.1 with
    | none => pure ()
    | some b => Bucket.rebalance fuel b o.2) order

/-- The second loop of `Tx.Commit`. -/
def spillAll (fuel : Nat) (t : TxId) (order : List Name) : Go Unit :=
  Prog.each (fun name => do
    let tx ← get t
    match tx.bctx.lookup name with
    | none => pure ()
    | some b => Bucket.spill fuel b) order

/-- The last loop of `Tx.Commit`, over the map built so far. -/
def publishAll (t : TxId) : List Name → (AList fun _ : Name => Option BucketState) →
    Go (AList fun _ : Name => Option BucketState)
  | [], m => pure m
  | name :: names, m => do
    let tx ← get t
    match tx.bctx.lookup name with
    | none => publishAll t names m
    | some b =>
      if name ∈ tx.deleted then publishAll t names m
      else do
        let st ← Bucket.publishRoot b
        publishAll t names (m.insert name st)

/-- The map `Tx.Commit` starts from: that of the base without the deleted names. -/
def keptBuckets (tx : Tx) : AList fun _ : Name => Option BucketState :=
  match tx.base with
  | none => ∅
  | some st => tx.deleted.sort.foldl (fun m name => m.erase name) st.buckets

/-- The part of `Tx.Commit` up to the store: build the new state. -/
def build (fuel : Nat) (t : TxId) (order : Order) : Go DbState := do
  rebalanceAll fuel t order.rebalance
  spillAll fuel t order.spill
  let tx ← get t
  let m ← publishAll t order.publish tx.keptBuckets
  pure ⟨m⟩

/-- `tx.db.state.Store(st)`. -/
def store (st : DbState) : Go Unit :=
  write fun w => { w with db := { w.db with state := some st } }

/-- `Tx.Commit`. The spill of a bucket never returns an error. -/
def commit (fuel : Nat) (t : TxId) (order : Order) : Go (Option Err) := do
  let tx ← get t
  Prog.assert (tx.managed = false) .managedTxCommit
  if tx.db = false then pure (some .txClosed)
  else if tx.writable = false then pure (some .txNotWritable)
  else do
    let st ← build fuel t order
    store st
    close t
    pure none

end Tx

end Vmbolt
