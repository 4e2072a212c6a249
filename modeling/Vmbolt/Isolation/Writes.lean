import Vmbolt.Model.DB

/-!
# Properties of all functions on nodes

Most functions of `node.go`, `cursor.go` and `bucket.go` change the heap only through a few others.
`NodeWrites P` says that those few have the property `P`, which sequencing keeps, and the lemmas
here show that all others then have it. A child that is pulled up into the root brings a slice
header with it, so `collapseRoot` is one of the few; `TreeWrites P` adds it.
-/

namespace Vmbolt
open Prog

/-- The functions that change the heap on behalf of the others have the property. -/
structure NodeWrites (P : ∀ {α : Type}, Go α → Prop) : Prop extends Compositional P where
  modifyField : ∀ {n : NodeId} {f : Node → Node},
    (∀ nd, (f nd).inodes = nd.inodes ∧ (f nd).bucket = nd.bucket) → P (modifyNode n f)
  setRoot :
    ∀ {b : BucketId} {r : NodeId}, P (modifyBucket b fun bk => { bk with rootNode := some r })
  appendInodes : ∀ {n : NodeId} {l : List Inode}, P (appendInodes n l)
  copyInodes : ∀ {n : NodeId} {dst src : Nat}, P (copyInodes n dst src)
  modifyInode : ∀ {n : NodeId} {i : Nat} {f : Inode → Inode}, P (modifyInode n i f)
  del : ∀ {n : NodeId} {key : Bytes}, P (Node.del n key)
  childForWrite : ∀ {b : BucketId} {p : NodeId} {idx : Nat}, P (Bucket.childForWrite b p idx)
  splitTwo : ∀ {n : NodeId}, P (Node.splitTwo n)
  writableRoot : ∀ {b : BucketId}, P (Bucket.writableRoot b)

/-- So does the root that takes the place of its only child. -/
structure TreeWrites (P : ∀ {α : Type}, Go α → Prop) : Prop extends NodeWrites P where
  collapseRoot : ∀ {n : NodeId}, P (Node.collapseRoot n)

/-- The writes to the maps of a transaction have the property. -/
structure DirWrites (P : ∀ {α : Type}, Go α → Prop) : Prop extends Compositional P where
  newBucket : ∀ {t : TxId} {name : Name}, P (Bucket.newBucket t name)
  modify : ∀ {t : TxId} {f : Tx → Tx}, (∀ tx, (f tx).writable = tx.writable ∧
    (f tx).managed = tx.managed ∧ (f tx).db = tx.db ∧ (f tx).base = tx.base) → P (Tx.modify t f)

section
variable {P : ∀ {α : Type}, Go α → Prop} {n : NodeId} {b : BucketId} {fuel : Nat}

lemma Prog.Compositional.deref (h : Compositional P) {α : Type} {p : Option α} : P (deref p) := by
  cases p with
  | none => exact h.panic
  | some a => exact h.pure

namespace NodeWrites
variable (h : NodeWrites P)
include h

lemma childAt {idx : Nat} : P (Node.childAt n idx) :=
  h.read_bind fun _ => h.ite h.panic (h.bind h.deref fun _ => h.childForWrite)

lemma nextSibling : P (Node.nextSibling n) := by
  refine h.read_bind fun nd => ?_
  split
  · exact h.pure
  · exact h.read_bind fun _ => h.ite h.pure (h.bind h.childAt fun _ => h.pure)

lemma prevSibling : P (Node.prevSibling n) := by
  refine h.read_bind fun nd => ?_
  split
  · exact h.pure
  · exact h.read_bind fun _ => h.ite h.pure (h.bind h.childAt fun _ => h.pure)

/-! ## Putting -/

lemma makeRoom {key : Bytes} {i : Nat} : P (Node.makeRoom n key i) :=
  h.read_bind fun _ => h.ite h.pure (h.bind h.appendInodes fun _ => h.copyInodes)

lemma put {old new : Bytes} {v : Option Bytes} {child : Option NodeId} :
    P (Node.put n old new v child) :=
  h.ite h.panic (h.ite h.panic (h.read_bind fun _ => h.bind h.makeRoom fun _ =>
    h.bind h.modifyInode fun _ => h.assert))

/-! ## Splitting -/

lemma split : P (Node.split fuel n) := by
  induction fuel generalizing n with
  | zero => exact h.hang
  | succ fuel ih =>
    refine h.bind h.splitTwo fun c => ?_
    split
    · exact h.pure
    · exact h.bind ih fun _ => h.pure

lemma finalizePiece : P (Node.finalizePiece n) := by
  refine h.bind (h.modifyField fun _ => ⟨rfl, rfl⟩) fun _ => h.read_bind fun nd => ?_
  split
  · exact h.pure
  refine h.read_bind fun ins => ?_
  split
  · exact h.panic
  refine h.ite h.panic (h.ite h.panic (h.bind h.put fun _ => h.read_bind fun ins => ?_))
  split
  · exact h.panic
  · exact h.bind (h.modifyField fun _ => ⟨rfl, rfl⟩) fun _ => h.assert

lemma finalize : P (Node.finalize fuel n) := by
  induction fuel generalizing n with
  | zero => exact h.hang
  | succ fuel ih =>
    refine h.read_bind fun nd => h.bind h.deref fun _ => h.ite h.pure ?_
    refine h.read_bind fun ins => h.bind (h.each fun i _ => h.read_bind fun ins => ?_) fun _ => ?_
    · split
      · exact h.panic
      split
      · exact h.pure
      · exact h.read_bind fun nd => h.bind h.deref fun b => h.read_bind fun bk => h.ite ih h.pure
    · refine h.bind h.split fun nodes => h.bind (h.each fun _ _ => h.finalizePiece) fun _ => ?_
      refine h.read_bind fun nd => ?_
      split
      · exact h.pure
      · exact h.read_bind fun pd => h.ite h.pure ih

/-! ## Rebalancing -/

lemma reparent {m : NodeId} {i : Inode} : P (Node.reparent m n i) := by
  unfold Node.reparent
  split
  · exact h.pure
  · exact h.read_bind fun md => h.bind h.deref fun b => h.read_bind fun bk =>
      h.ite (h.modifyField fun _ => ⟨rfl, rfl⟩) h.pure

lemma parentOf : P (Node.parentOf n) := h.read_bind fun _ => h.deref

lemma mergePair {p : NodeId} : P (Node.mergePair n p) :=
  h.read_bind fun _ => h.read_bind fun _ => h.ite
    (h.bind h.nextSibling fun _ => h.bind h.deref fun _ => h.pure)
    (h.bind h.prevSibling fun _ => h.bind h.deref fun _ => h.pure)

lemma mergeSiblings {left right : NodeId} : P (Node.mergeSiblings n left right) :=
  h.read_bind fun _ => h.bind (h.each fun _ _ => h.reparent) fun _ => h.read_bind fun _ =>
    h.bind h.appendInodes fun _ => h.bind h.parentOf fun _ => h.read_bind fun _ => h.del

end NodeWrites

namespace TreeWrites
variable (h : TreeWrites P)
include h

lemma nodeRebalance : P (Node.rebalance fuel n) := by
  induction fuel generalizing n with
  | zero => exact h.hang
  | succ fuel ih =>
    refine h.read_bind fun nd =>
      h.ite h.pure (h.bind (h.modifyField fun _ => ⟨rfl, rfl⟩) fun _ => ?_)
    refine h.bind h.deref fun _ => h.read_bind fun ins => h.ite h.pure ?_
    split
    · exact h.ite h.collapseRoot h.pure
    · refine h.ite (h.bind h.del fun _ => h.bind h.parentOf fun _ => ih) ?_
      exact h.read_bind fun pins => h.bind h.assert fun _ => h.bind h.mergePair fun r =>
        h.bind h.mergeSiblings fun _ => h.bind h.parentOf fun _ => ih

/-! ## Buckets and cursors -/

lemma walk {st : List ElemRef} : P (Cursor.walk n st) := by
  induction st generalizing n with
  | nil => exact h.pure
  | cons ref st ih =>
    refine h.read_bind fun nd => h.bind h.assert fun _ => h.bind ?_ fun _ => ih
    split
    · exact h.panic
    · exact h.childAt

lemma node {st : List ElemRef} : P (Cursor.node b st) :=
  h.bind h.assert fun _ => h.bind h.writableRoot fun _ => h.bind h.walk fun _ =>
    h.read_bind fun _ => h.bind h.assert fun _ => h.pure

lemma cursorDelete {c : Cursor} : P (Cursor.delete c) := by
  unfold Cursor.delete
  split
  · exact h.pure
  refine h.read_bind fun tx => h.ite h.pure (h.ite h.pure ?_)
  exact h.bind h.query fun _ => h.bind h.node fun _ => h.bind h.del fun _ => h.pure

lemma bucketPut {key : Bytes} {v : Option Bytes} : P (Bucket.put fuel b key v) := by
  refine h.read_bind fun tx =>
    h.ite h.pure (h.ite h.pure (h.ite h.pure (h.ite h.pure (h.ite h.pure ?_))))
  exact h.bind h.query fun _ => h.bind h.node fun _ => h.bind h.put fun _ => h.pure

lemma bucketDelete {key : Bytes} : P (Bucket.delete fuel b key) := by
  refine h.read_bind fun tx => h.ite h.pure (h.ite h.pure (h.bind h.query fun r => ?_))
  exact h.ite (h.bind h.node fun _ => h.bind h.del fun _ => h.pure) h.pure

lemma bucketRebalance {order : List NodeId} : P (Bucket.rebalance fuel b order) :=
  h.each fun _ _ => h.read_bind fun _ => h.ite h.nodeRebalance h.pure

lemma spill : P (Bucket.spill fuel b) := by
  refine h.read_bind fun bk => ?_
  split
  · exact h.pure
  · exact h.bind h.finalize fun _ => h.read_bind fun bk => h.bind h.deref fun _ =>
      h.bind h.query fun _ => h.setRoot

/-- The first two loops of a commit. -/
lemma phases {t : TxId} {order : Tx.Order} : P (do
    Tx.rebalanceAll fuel t order.rebalance
    Tx.spillAll fuel t order.spill) := by
  refine h.bind (h.each fun o _ => h.read_bind fun tx => ?_) fun _ => h.each fun o _ =>
    h.read_bind fun tx => ?_
  · split
    · exact h.pure
    · exact h.bucketRebalance
  · split
    · exact h.pure
    · exact h.spill

end TreeWrites

/-! ## The directory -/

variable {t : TxId} {name : Name}

lemma DirWrites.bucket (h : DirWrites P) : P (Tx.bucket t name) := by
  refine h.read_bind fun tx => h.ite h.pure ?_
  split
  · exact h.pure
  refine h.ite h.pure ?_
  split
  · exact h.pure
  · exact h.bind h.newBucket fun _ => h.bind (h.modify fun _ => ⟨rfl, rfl, rfl, rfl⟩)
      fun _ => h.pure

lemma DirWrites.deleteBucket (h : DirWrites P) : P (Tx.deleteBucket t name) := by
  refine h.read_bind fun tx => h.ite h.pure (h.ite h.pure (h.ite ?_ (h.ite h.pure ?_))) <;>
    exact h.bind (h.modify fun _ => ⟨rfl, rfl, rfl, rfl⟩) fun _ =>
      h.bind (h.modify fun _ => ⟨rfl, rfl, rfl, rfl⟩) fun _ => h.pure

lemma Prog.Compositional.createBucketIfNotExists (h : Compositional P) (hb : P (Tx.bucket t name))
    (hc : P (Tx.createBucket t name)) : P (Tx.createBucketIfNotExists t name) := by
  refine h.read_bind fun tx => h.ite h.pure (h.ite h.pure (h.ite h.pure (h.bind hb fun b => ?_)))
  cases b with
  | some b => exact h.pure
  | none => exact hc

end

end Vmbolt
