import Vmbolt.Effect.Copies

/-!
# The effect of the directory functions

What `Tx.Bucket`, `Tx.CreateBucket` and `Tx.DeleteBucket` do to the state, in a call that is not cut
off: which handle they return and how they change the maps of the transaction.
-/

namespace Vmbolt

/-- From `w` to `w'` the transaction `t` became `tx`, and handles and nodes may have been added. -/
structure DirStep (w : World) (t : TxId) (tx : Tx) (w' : World) : Prop where
  rt : w'.rt = w.rt
  db : w'.db = w.db
  nextTx : w'.nextTx = w.nextTx
  tx : w'.txs t = tx
  txs : ∀ t', t' ≠ t → w'.txs t' = w.txs t'
  nextBucket : w.nextBucket ≤ w'.nextBucket
  buckets : ∀ b, b < w.nextBucket → w'.buckets b = w.buckets b
  nextNode : w.nextNode ≤ w'.nextNode
  nodes : ∀ n, n < w.nextNode → w'.nodes n = w.nodes n
  inodes : ∀ n, n < w.nextNode → w'.inodes n = w.inodes n
  sound : w'.Sound

/-- The handle `Tx.Bucket` makes for a committed bucket. -/
def Bucket.fresh (t : TxId) (name : Name) : Bucket :=
  { tx := t, name := name, rootNode := none, dirty := ∅, fillPercent := defaultFillPercent }

/-- The transaction after `Tx.Bucket` has made a handle. -/
def Tx.attach (tx : Tx) (name : Name) (b : BucketId) : Tx :=
  { tx with bctx := tx.bctx.insert name b }

/-- The transaction after a successful `Tx.CreateBucket`. -/
def Tx.addBucket (tx : Tx) (name : Name) (b : BucketId) : Tx :=
  { tx with created := insert name tx.created, deleted := tx.deleted.erase name,
            bctx := tx.bctx.insert name b }

/-- The name counts as taken for `Tx.CreateBucket`. -/
def Tx.Taken (tx : Tx) (name : Name) : Prop :=
  name ∉ tx.deleted ∧ (name ∈ tx.created ∨ tx.bucketExistsCommitted name)

instance (tx : Tx) (name : Name) : Decidable (tx.Taken name) := inferInstanceAs (Decidable (_ ∧ _))

/-- The handle and the root node of a new bucket. -/
structure NewBucket (w : World) (t : TxId) (name : Name) (w' : World) : Prop where
  step : DirStep w t ((w.txs t).addBucket name w.nextBucket) w'
  nextBucket : w'.nextBucket = w.nextBucket + 1
  nextNode : w'.nextNode = w.nextNode + 1
  bucket : w'.buckets w.nextBucket =
    { Bucket.fresh t name with rootNode := some w.nextNode, dirty := {w.nextNode} }
  root : w'.nodes w.nextNode =
    { bucket := some w.nextBucket, isLeaf := true, unbalanced := false, spilled := false, key := [],
      parent := none, inodes := (w'.nodes w.nextNode).inodes }
  empty : w'.inodes w.nextNode = []
  arr : w.nextArr ≤ w'.arr w.nextNode

section
variable {w w' w'' : World} {t : TxId} {tx tx' : Tx} {name : Name}

namespace DirStep

lemma trans (h1 : DirStep w t tx w') (h2 : DirStep w' t tx' w'') : DirStep w t tx' w'' where
  rt := h2.rt.trans h1.rt
  db := h2.db.trans h1.db
  nextTx := h2.nextTx.trans h1.nextTx
  tx := h2.tx
  txs t' ht := (h2.txs t' ht).trans (h1.txs t' ht)
  nextBucket := h1.nextBucket.trans h2.nextBucket
  buckets b hb := (h2.buckets b (hb.trans_le h1.nextBucket)).trans (h1.buckets b hb)
  nextNode := h1.nextNode.trans h2.nextNode
  nodes n hn := (h2.nodes n (hn.trans_le h1.nextNode)).trans (h1.nodes n hn)
  inodes n hn := (h2.inodes n (hn.trans_le h1.nextNode)).trans (h1.inodes n hn)
  sound := h2.sound

end DirStep

/-- Write fields of a transaction. -/
lemma txModify_eq {f : Tx → Tx} (hw : w.Sound) :
    Tx.modify t f w = (.ok (), w.setTx t (f (w.txs t))) ∧
      DirStep w t (f (w.txs t)) (w.setTx t (f (w.txs t))) := by
  refine ⟨write_eq hw.cut, rfl, rfl, rfl, by simp [World.setTx],
    fun t' ht => by simp [World.setTx, ht],
    le_rfl, fun _ _ => rfl, le_rfl, fun _ _ => rfl, fun _ _ => rfl, ⟨hw.cut, hw.arr_lt, hw.len_le⟩⟩

/-- `newBucket`. -/
lemma newBucket_eq (t : TxId) (name : Name) (hw : w.Sound) :
    ∃ w', Bucket.newBucket t name w = (.ok w.nextBucket, w') ∧ DirStep w t (w.txs t) w' ∧
      w'.nextBucket = w.nextBucket + 1 ∧ w'.buckets w.nextBucket = Bucket.fresh t name ∧
      w'.nextNode = w.nextNode ∧ w'.nextArr = w.nextArr := by
  refine ⟨{ w.setBucket w.nextBucket (Bucket.fresh t name) with nextBucket := w.nextBucket + 1 },
    Prog.bind_ok (write_eq hw.cut),
    ⟨rfl, rfl, rfl, rfl, fun _ _ => rfl, Nat.le_succ _, fun b hb => ?_,
      le_rfl, fun _ _ => rfl, fun _ _ => rfl, ⟨hw.cut, hw.arr_lt, hw.len_le⟩⟩, rfl, ?_, rfl, rfl⟩
  · simp [World.setBucket, hb.ne]
  · simp [World.setBucket]

/-- `Tx.Bucket` for a name that is in the working map. -/
lemma bucket_eq_of_lookup {b : BucketId} (ho : (w.txs t).db = true)
    (hb : (w.txs t).bctx.lookup name = some b) : Tx.bucket t name w = (.ok (some b), w) := by
  unfold Tx.bucket Tx.get
  rw [Prog.read_bind, if_neg (by simp [ho]), hb]
  rfl

/-- `Tx.Bucket` for a name that is not there. -/
lemma bucket_eq_none (hb : (w.txs t).bctx.lookup name = none)
    (hn : name ∈ (w.txs t).deleted ∨ (w.txs t).baseBucket name = none) :
    Tx.bucket t name w = (.ok none, w) := by
  unfold Tx.bucket Tx.get
  rw [Prog.read_bind, hb]
  dsimp only
  split
  · rfl
  · split
    · rfl
    next hd =>
      rw [hn.resolve_left hd]
      rfl

/-- `Tx.Bucket` for a committed bucket that has no handle yet. -/
lemma bucket_eq_new (hw : w.Sound) (ho : (w.txs t).db = true)
    (hb : (w.txs t).bctx.lookup name = none) (hd : name ∉ (w.txs t).deleted)
    (hn : ((w.txs t).baseBucket name).isSome) :
    ∃ w', Tx.bucket t name w = (.ok (some w.nextBucket), w') ∧
      DirStep w t ((w.txs t).attach name w.nextBucket) w' ∧ w'.nextBucket = w.nextBucket + 1 ∧
      w'.buckets w.nextBucket = Bucket.fresh t name ∧ w'.nextNode = w.nextNode := by
  obtain ⟨w1, e1, h1, n1, b1, m1, -⟩ := newBucket_eq t name hw
  obtain ⟨e2, h2⟩ := txModify_eq (t := t)
    (f := fun tx => { tx with bctx := tx.bctx.insert name w.nextBucket }) h1.sound
  obtain ⟨bs, hbs⟩ := Option.isSome_iff_exists.1 hn
  rw [h1.tx] at h2
  refine ⟨_, ?_, h1.trans h2, n1, b1, m1⟩
  unfold Tx.bucket Tx.get
  rw [Prog.read_bind, if_neg (by simp [ho]), hb]
  dsimp only
  rw [if_neg hd, hbs]
  dsimp only
  rw [Prog.bind_ok e1]
  unfold Tx.putBctx
  rw [Prog.bind_ok e2, h1.tx]
  rfl

/-- A step that only changes the heap. -/
lemma DirStep.of_grown {nd : Node} {ins : List Inode} (h : Grown w nd ins w') :
    DirStep w t (w.txs t) w' := by
  have e := h.rest
  refine ⟨by rw [e], by rw [e], by rw [e], by rw [e], fun _ _ => by rw [e], by rw [e],
    fun _ _ => by rw [e], by rw [e]; exact Nat.le_succ _, fun n hn => h.other n hn.ne,
    fun n hn => h.view n hn, h.sound⟩

/-- `Tx.CreateBucket` of the empty name. -/
lemma createBucket_eq_of_empty (ho : (w.txs t).db = true) (hw : (w.txs t).writable = true)
    (hname : name = []) : Tx.createBucket t name w = (.ok (.error .bucketNameRequired), w) := by
  unfold Tx.createBucket Tx.get
  rw [Prog.read_bind, if_neg (by simp [ho]), if_neg (by simp [hw]), if_pos (by simp [hname])]
  rfl

/-- `Tx.CreateBucketIfNotExists` of the empty name. -/
lemma createBucketIfNotExists_eq_of_empty (ho : (w.txs t).db = true)
    (hw : (w.txs t).writable = true) (hname : name = []) :
    Tx.createBucketIfNotExists t name w = (.ok (.error .bucketNameRequired), w) := by
  unfold Tx.createBucketIfNotExists Tx.get
  rw [Prog.read_bind, if_neg (by simp [ho]), if_neg (by simp [hw]), if_pos (by simp [hname])]
  rfl

/-- Past its checks, `Tx.CreateBucketIfNotExists` is `Tx.Bucket` with `Tx.CreateBucket` behind
it. -/
lemma createBucketIfNotExists_eq (ho : (w.txs t).db = true) (hw : (w.txs t).writable = true)
    (hname : name ≠ []) : Tx.createBucketIfNotExists t name w = (Tx.bucket t name >>= fun b =>
      b.elim (Tx.createBucket t name) fun b => pure (.ok b)) w := by
  unfold Tx.createBucketIfNotExists Tx.get
  rw [Prog.read_bind, if_neg (by simp [ho]), if_neg (by simp [hw]), if_neg (by simpa using hname)]
  refine congrFun (congrArg (Bind.bind _) (funext fun b => ?_)) w
  cases b <;> rfl

/-- `Tx.CreateBucket` of a name that is taken. -/
lemma createBucket_eq_of_taken (ho : (w.txs t).db = true) (hw : (w.txs t).writable = true)
    (hname : name ≠ []) (h : (w.txs t).Taken name) :
    Tx.createBucket t name w = (.ok (.error .bucketExists), w) := by
  unfold Tx.createBucket Tx.get
  rw [Prog.read_bind, if_neg (by simp [ho]), if_neg (by simp [hw]), if_neg (by simpa using hname),
    if_pos (show _ ∧ _ from h)]
  rfl

/-- `Tx.CreateBucket` of a name that is free. -/
lemma createBucket_eq (hs : w.Sound) (ho : (w.txs t).db = true) (hw : (w.txs t).writable = true)
    (hname : name ≠ []) (h : ¬ (w.txs t).Taken name) :
    ∃ w', Tx.createBucket t name w = (.ok (.ok w.nextBucket), w') ∧ NewBucket w t name w' := by
  obtain ⟨w1, e1, h1, n1, b1, m1, a1⟩ := newBucket_eq t name hs
  obtain ⟨w2, e2, h2⟩ := newNode_nil w.nextBucket true none h1.sound
  obtain ⟨w3, e3, s3, q3, r3, b3⟩ := modifyBucket_eq (b := w.nextBucket)
    (f := fun bk => { bk with rootNode := some w1.nextNode }) h2.sound rfl rfl rfl
  obtain ⟨w4, e4, s4, q4, r4, b4⟩ := markDirty_eq (b := w.nextBucket) (n := w1.nextNode) s3
  obtain ⟨e5, h5⟩ :=
    txModify_eq (t := t) (f := fun tx => { tx with created := insert name tx.created }) s4
  obtain ⟨e6, h6⟩ :=
    txModify_eq (t := t) (f := fun tx => { tx with deleted := tx.deleted.erase name }) h5.sound
  obtain ⟨e7, h7⟩ := txModify_eq (t := t)
    (f := fun tx => { tx with bctx := tx.bctx.insert name w.nextBucket }) h6.sound
  have h12 := h1.trans (DirStep.of_grown (t := t) h2)
  have h4 : DirStep w t (w.txs t) w4 := by
    refine ⟨?_, ?_, ?_, ?_, fun t' ht => ?_, ?_, fun b hb => ?_, ?_, fun n hn => ?_,
      fun n hn => ?_, s4⟩
    · rw [q4.rt, q3.rt, h12.rt]
    · rw [q4.db, q3.db, h12.db]
    · rw [q4.nextTx, q3.nextTx, h12.nextTx]
    · rw [q4.txs, q3.txs, h12.tx, h1.tx]
    · rw [q4.txs, q3.txs, h12.txs t' ht]
    · rw [q4.nextBucket, q3.nextBucket]
      exact h12.nextBucket
    · rw [q4.other b hb.ne, q3.other b hb.ne, h12.buckets b hb]
    · rw [r4, r3]
      exact h12.nextNode
    · rw [r4, r3]
      exact h12.nodes n hn
    · rw [r4, r3]
      exact h12.inodes n hn
  have h7' := ((h4.trans h5).trans h6).trans h7
  rw [h6.tx, h5.tx, h4.tx] at h7'
  refine ⟨_, ?_, h7', ?_, ?_, ?_, ?_, ?_, ?_⟩
  · unfold Tx.createBucket Tx.get Tx.putBctx
    rw [Prog.read_bind, if_neg (by simp [ho]), if_neg (by simp [hw]), if_neg (by simpa using hname),
      if_neg (show ¬ (_ ∧ _) from h), Prog.bind_ok e1, ← bind_assoc, Prog.bind_ok e2,
      Prog.bind_ok e3,
      Prog.bind_ok e4, Prog.bind_ok e5, Prog.bind_ok e6, Prog.bind_ok e7, h6.tx, h5.tx, h4.tx]
    rfl
  · change w4.nextBucket = _
    rw [q4.nextBucket, q3.nextBucket, h2.rest]
    exact n1
  · change w4.nextNode = _
    rw [r4, r3]
    exact h2.nextNode.trans (congrArg (· + 1) m1)
  · change w4.buckets _ = _
    rw [b4, b3, h2.buckets, b1, m1]
    rfl
  · change w4.nodes _ = _
    rw [r4, r3, ← m1]
    exact h2.self
  · change w4.inodes _ = _
    rw [r4, r3, ← m1]
    exact h2.inodes
  · change _ ≤ w4.arr _
    rw [r4, r3, ← m1, ← a1]
    exact h2.arr

/-- When `Tx.CreateBucket` succeeds, the transaction may write and the name was free. -/
lemma createBucket_ok {b : BucketId} (hs : w.Sound)
    (h : Tx.createBucket t name w = (.ok (.ok b), w')) :
    (w.txs t).db = true ∧ (w.txs t).writable = true ∧ b = w.nextBucket ∧ NewBucket w t name w' := by
  have hrun := h
  unfold Tx.createBucket Tx.get at hrun
  rw [Prog.read_bind] at hrun
  by_cases ho : (w.txs t).db = false
  · rw [if_pos ho] at hrun
    cases hrun
  by_cases hw : (w.txs t).writable = false
  · rw [if_neg ho, if_pos hw] at hrun
    cases hrun
  by_cases hname : name = []
  · rw [if_neg ho, if_neg hw, if_pos (by simp [hname])] at hrun
    cases hrun
  simp only [Bool.not_eq_false] at ho hw
  by_cases ht : (w.txs t).Taken name
  · rw [createBucket_eq_of_taken ho hw hname ht] at h
    cases h
  · obtain ⟨w'', e, hn⟩ := createBucket_eq hs ho hw hname ht
    rw [e] at h
    cases h
    exact ⟨ho, hw, rfl, hn⟩

/-! ## Deleting a bucket -/

/-- The transaction after `Tx.DeleteBucket` of a bucket it has created. -/
def Tx.dropCreated (tx : Tx) (name : Name) : Tx :=
  { tx with created := tx.created.erase name, bctx := tx.bctx.erase name }

/-- The transaction after `Tx.DeleteBucket` of a committed bucket. -/
def Tx.dropCommitted (tx : Tx) (name : Name) : Tx :=
  { tx with deleted := insert name tx.deleted, bctx := tx.bctx.erase name }

lemma deleteBucket_eq_created (hs : w.Sound) (ho : (w.txs t).db = true)
    (hw : (w.txs t).writable = true) (hc : name ∈ (w.txs t).created) :
    ∃ w', Tx.deleteBucket t name w = (.ok none, w') ∧
      DirStep w t ((w.txs t).dropCreated name) w' ∧ w'.nextBucket = w.nextBucket ∧
      w'.nextNode = w.nextNode := by
  obtain ⟨e1, h1⟩ := txModify_eq (t := t)
    (f := fun tx => { tx with created := tx.created.erase name }) hs
  obtain ⟨e2, h2⟩ :=
    txModify_eq (t := t) (f := fun tx => { tx with bctx := tx.bctx.erase name }) h1.sound
  have h := h1.trans h2
  rw [h1.tx] at h
  refine ⟨_, ?_, h, rfl, rfl⟩
  unfold Tx.deleteBucket Tx.get
  rw [Prog.read_bind, if_neg (by simp [ho]), if_neg (by simp [hw]), if_pos hc, Prog.bind_ok e1,
    Prog.bind_ok e2, h1.tx]
  rfl

lemma deleteBucket_eq_committed (hs : w.Sound) (ho : (w.txs t).db = true)
    (hw : (w.txs t).writable = true) (hc : name ∉ (w.txs t).created)
    (hb : (w.txs t).bucketExistsCommitted name = true) :
    ∃ w', Tx.deleteBucket t name w = (.ok none, w') ∧
      DirStep w t ((w.txs t).dropCommitted name) w' ∧ w'.nextBucket = w.nextBucket ∧
      w'.nextNode = w.nextNode := by
  obtain ⟨e1, h1⟩ := txModify_eq (t := t)
    (f := fun tx => { tx with deleted := insert name tx.deleted }) hs
  obtain ⟨e2, h2⟩ :=
    txModify_eq (t := t) (f := fun tx => { tx with bctx := tx.bctx.erase name }) h1.sound
  have h := h1.trans h2
  rw [h1.tx] at h
  refine ⟨_, ?_, h, rfl, rfl⟩
  unfold Tx.deleteBucket Tx.get
  rw [Prog.read_bind, if_neg (by simp [ho]), if_neg (by simp [hw]), if_neg hc,
    if_neg (by simp [hb]), Prog.bind_ok e1, Prog.bind_ok e2, h1.tx]
  rfl

lemma deleteBucket_eq_notFound (ho : (w.txs t).db = true) (hw : (w.txs t).writable = true)
    (hc : name ∉ (w.txs t).created) (hb : (w.txs t).bucketExistsCommitted name = false) :
    Tx.deleteBucket t name w = (.ok (some .bucketNotFound), w) := by
  unfold Tx.deleteBucket Tx.get
  rw [Prog.read_bind, if_neg (by simp [ho]), if_neg (by simp [hw]), if_neg hc, if_pos hb]
  rfl

end

end Vmbolt
