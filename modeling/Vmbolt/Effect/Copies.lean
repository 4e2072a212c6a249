import Vmbolt.Effect.Entries

/-!
# The effect of copying nodes

What the functions that allocate nodes do to the heap, in a call that is not cut off: a new node
with inodes of its own (`Grown`), and a child that is replaced by a copy in its parent (`Copied`).
-/

namespace Vmbolt

/-- Everything but the nodes, their arrays and the working set of the handle `b` is as before. -/
structure Quiet (b : BucketId) (w w' : World) : Prop where
  rt : w'.rt = w.rt
  txs : w'.txs = w.txs
  nextTx : w'.nextTx = w.nextTx
  db : w'.db = w.db
  nextBucket : w'.nextBucket = w.nextBucket
  other : ∀ b', b' ≠ b → w'.buckets b' = w.buckets b'
  tx : (w'.buckets b).tx = (w.buckets b).tx
  name : (w'.buckets b).name = (w.buckets b).name
  fillPercent : (w'.buckets b).fillPercent = (w.buckets b).fillPercent

/-- From `w` to `w'` one node with the fields `nd` and the inodes `ins` was allocated. -/
structure Grown (w : World) (nd : Node) (ins : List Inode) (w' : World) : Prop where
  rest : w' = { w with nodes := w'.nodes, arrays := w'.arrays, nextArr := w'.nextArr,
                       nextNode := w.nextNode + 1 }
  self : w'.nodes w.nextNode = { nd with inodes := (w'.nodes w.nextNode).inodes }
  other : ∀ m, m ≠ w.nextNode → w'.nodes m = w.nodes m
  inodes : w'.inodes w.nextNode = ins
  view : ∀ m, m < w.nextNode → w'.inodes m = w.inodes m
  arr : w.nextArr ≤ w'.arr w.nextNode
  nextArr : w.nextArr ≤ w'.nextArr
  sound : w'.Sound

/-- The child `c` of `p` was replaced by a copy with the identity `w.nextNode`. -/
structure Copied (w : World) (b : BucketId) (p c : NodeId) (idx : Nat) (w' : World) : Prop where
  quiet : Quiet b w w'
  nextNode : w'.nextNode = w.nextNode + 1
  bucket : w'.buckets b = { w.buckets b with dirty := insert w.nextNode (w.buckets b).dirty }
  copy : w'.nodes w.nextNode =
    { bucket := some b, isLeaf := (w.nodes c).isLeaf, unbalanced := false, spilled := false,
      key := (w.nodes c).key, parent := some p, inodes := (w'.nodes w.nextNode).inodes }
  inodes_copy : w'.inodes w.nextNode = w.inodes c
  arr_copy : w.nextArr ≤ w'.arr w.nextNode
  inodes_parent : w'.inodes p = (w.inodes p).modify idx fun i => { i with child := some w.nextNode }
  other : ∀ m, m < w.nextNode → w'.nodes m = w.nodes m
  view : ∀ m, m < w.nextNode → m ≠ p → w.arr m ≠ w.arr p → w'.inodes m = w.inodes m
  sound : w'.Sound

section
variable {w w' w'' : World} {b : BucketId} {n p c : NodeId}

namespace Quiet

lemma refl (b : BucketId) (w : World) : Quiet b w w :=
  ⟨rfl, rfl, rfl, rfl, rfl, fun _ _ => rfl, rfl, rfl, rfl⟩

lemma trans (h1 : Quiet b w w') (h2 : Quiet b w' w'') : Quiet b w w'' where
  rt := h2.rt.trans h1.rt
  txs := h2.txs.trans h1.txs
  nextTx := h2.nextTx.trans h1.nextTx
  db := h2.db.trans h1.db
  nextBucket := h2.nextBucket.trans h1.nextBucket
  other b' hb := (h2.other b' hb).trans (h1.other b' hb)
  tx := h2.tx.trans h1.tx
  name := h2.name.trans h1.name
  fillPercent := h2.fillPercent.trans h1.fillPercent

end Quiet

lemma Upd.quiet {f : Node → Node} {ins : List Inode} (h : Upd w n f ins w') : Quiet b w w' := by
  rw [h.rest]
  exact ⟨rfl, rfl, rfl, rfl, rfl, fun _ _ => rfl, rfl, rfl, rfl⟩

namespace Grown
variable {nd : Node} {ins : List Inode}

lemma nextNode (h : Grown w nd ins w') : w'.nextNode = w.nextNode + 1 := by rw [h.rest]

lemma buckets (h : Grown w nd ins w') : w'.buckets = w.buckets := by rw [h.rest]

lemma quiet (h : Grown w nd ins w') : Quiet b w w' := by
  rw [h.rest]
  exact ⟨rfl, rfl, rfl, rfl, rfl, fun _ _ => rfl, rfl, rfl, rfl⟩

lemma other_arr (h : Grown w nd ins w') {m : NodeId} (hm : m ≠ w.nextNode) :
    w'.arr m = w.arr m := by
  unfold World.arr
  rw [h.other m hm]

end Grown

/-- Allocate a node with a copy of some inodes. -/
lemma newNode_eq (ins : List Inode) (nd : Node) (hw : w.Sound) :
    ∃ w', (cloneInodes ins >>= fun s => newNode { nd with inodes := s }) w = (.ok w.nextNode, w') ∧
      Grown w nd ins w' := by
  refine ⟨{ w with
    nodes := Function.update w.nodes w.nextNode { nd with inodes := ⟨w.nextArr, ins.length⟩ }
    arrays := Function.update w.arrays w.nextArr
      (ins ++ List.replicate (if ins = [] then 0 else w.rt.spare 0 ins.length) default)
    nextArr := w.nextArr + 1
    nextNode := w.nextNode + 1 }, ?_, ?_⟩
  · unfold cloneInodes newArr newNode
    simp only [bind_assoc, pure_bind, Prog.read_bind]
    refine (Prog.bind_ok (write_eq hw.cut)).trans ((Prog.read_bind _ _ _).trans ?_)
    exact Prog.bind_ok (write_eq hw.cut)
  · refine ⟨rfl, by simp, fun m hm => by simp [hm], by simp [World.inodes], fun m hm => ?_,
      by simp [World.arr], Nat.le_succ _, hw.cut, fun m hm => ?_, fun m hm => ?_⟩
    · have h1 : (w.nodes m).inodes.arr ≠ w.nextArr := (hw.arr_lt m hm).ne
      simp [World.inodes, hm.ne, h1]
    · by_cases e : m = w.nextNode
      · simp [World.arr, e]
      · have hlt := hw.arr_lt m (lt_of_le_of_ne (Nat.lt_succ_iff.1 hm) e)
        simpa [World.arr, e] using hlt.trans (Nat.lt_succ_self _)
    · by_cases e : m = w.nextNode
      · simp [World.arr, e]
      · have hm' : m < w.nextNode := lt_of_le_of_ne (Nat.lt_succ_iff.1 hm) e
        have h1 : (w.nodes m).inodes.arr ≠ w.nextArr := (hw.arr_lt m hm').ne
        simpa [World.arr, e, h1] using hw.len_le m hm'

/-- A node as the code allocates it, with the slice `s`. -/
abbrev Node.allocated (b : BucketId) (leaf : Bool) (p : Option NodeId) (s : Slice) : Node :=
  { bucket := some b, isLeaf := leaf, unbalanced := false, spilled := false, key := [], parent := p,
    inodes := s }

/-- Allocate a node without inodes. -/
lemma newNode_nil (b : BucketId) (leaf : Bool) (p : Option NodeId) (hw : w.Sound) :
    ∃ w', (nilInodes >>= fun s => newNode (.allocated b leaf p s)) w = (.ok w.nextNode, w') ∧
      Grown w (.allocated b leaf p default) [] w' :=
  newNode_eq [] (.allocated b leaf p default) hw

/-- Writing fields of the handle. -/
lemma modifyBucket_eq {f : Bucket → Bucket} (hw : w.Sound)
    (htx : (f (w.buckets b)).tx = (w.buckets b).tx)
    (hname : (f (w.buckets b)).name = (w.buckets b).name)
    (hfill : (f (w.buckets b)).fillPercent = (w.buckets b).fillPercent) :
    ∃ w', modifyBucket b f w = (.ok (), w') ∧ w'.Sound ∧ Quiet b w w' ∧
      w' = { w with buckets := w'.buckets } ∧ w'.buckets b = f (w.buckets b) := by
  unfold modifyBucket
  refine ⟨w.setBucket b (f (w.buckets b)), write_eq hw.cut, ⟨hw.cut, hw.arr_lt, hw.len_le⟩,
    ⟨rfl, rfl, rfl, rfl, rfl, fun b' hb => ?_, ?_, ?_, ?_⟩, rfl, ?_⟩
  · simp [World.setBucket, hb]
  all_goals simp [World.setBucket, htx, hname, hfill]

/-- Putting a node into the working set of the handle. -/
lemma markDirty_eq (hw : w.Sound) : ∃ w', markDirty b n w = (.ok (), w') ∧ w'.Sound ∧ Quiet b w w' ∧
    w' = { w with buckets := w'.buckets } ∧
    w'.buckets b = { w.buckets b with dirty := insert n (w.buckets b).dirty } :=
  modifyBucket_eq hw rfl rfl rfl

/-- The fields of the copy of a node. -/
def Node.copyFor (nd : Node) (b : BucketId) : Node :=
  { bucket := some b, isLeaf := nd.isLeaf, unbalanced := false, spilled := false, key := nd.key,
    parent := none, inodes := default }

/-- `Bucket.copyNode`. -/
lemma copyNode_eq (hw : w.Sound) : ∃ w', Bucket.copyNode b c w = (.ok w.nextNode, w') ∧
    Grown w ((w.nodes c).copyFor b) (w.inodes c) w' :=
  newNode_eq _ ((w.nodes c).copyFor b) hw

/-- `Bucket.childForWrite` of a child that is not yet in the working set. -/
lemma childForWrite_eq {idx : Nat} {i : Inode} (hw : w.Sound) (hp : p < w.nextNode)
    (hi : (w.inodes p)[idx]? = some i) (hc : i.child = some c) (hd : c ∉ (w.buckets b).dirty) :
    ∃ w', Bucket.childForWrite b p idx w = (.ok w.nextNode, w') ∧ Copied w b p c idx w' := by
  obtain ⟨w1, e1, h1⟩ := copyNode_eq (b := b) (c := c) hw
  have hn1 : w.nextNode < w1.nextNode := by rw [h1.nextNode]; exact Nat.lt_succ_self _
  obtain ⟨w2, e2, h2⟩ :=
    modifyNode_eq (n := w.nextNode) (f := fun nd => { nd with parent := some p }) h1.sound hn1 rfl
  obtain ⟨w3, e3, s3, q3, r3, b3⟩ := markDirty_eq (b := b) (n := w.nextNode) h2.sound
  have hpn : p ≠ w.nextNode := hp.ne
  have hn3 : w3.nextNode = w.nextNode + 1 := by rw [r3]; exact h2.nextNode.trans h1.nextNode
  have lt3 : ∀ m, m < w.nextNode → m < w3.nextNode := fun m hm => by
    rw [hn3]
    exact Nat.lt_succ_of_lt hm
  have new3 : w.nextNode < w3.nextNode := by
    rw [hn3]
    exact Nat.lt_succ_self _
  have nodes3 : w3.nodes = w2.nodes := by rw [r3]
  have inodes3 : w3.inodes = w2.inodes := by rw [r3]; rfl
  have arr3 : w3.arr = w2.arr := by rw [r3]; rfl
  have node3 : ∀ m, m < w.nextNode → w3.nodes m = w.nodes m := fun m hm => by
    rw [nodes3, h2.other m hm.ne, h1.other m hm.ne]
  have view3 : ∀ m, m < w.nextNode → w3.inodes m = w.inodes m := fun m hm => by
    have ha : w1.arr m ≠ w1.arr w.nextNode := by
      rw [h1.other_arr hm.ne]
      exact ((hw.arr_lt m hm).trans_le h1.arr).ne
    rw [inodes3, h2.view m hm.ne (hm.trans hn1) ha, h1.view m hm]
  have hidx : idx < (w3.inodes p).length := by
    rw [view3 p hp]
    exact (List.getElem?_eq_some_iff.1 hi).1
  obtain ⟨w4, e4, h4⟩ := modifyInode_eq (n := p) (i := idx)
    (f := fun i => { i with child := some w.nextNode }) s3 (lt3 p hp) hidx
  have arr_copy : w.nextArr ≤ w3.arr w.nextNode := by
    rw [arr3]
    rcases h2.arr with e | e
    · rw [e]
      exact h1.arr
    · exact h1.nextArr.trans e
  have arr_ne : ∀ m, m < w.nextNode → w3.arr m = w.arr m := fun m hm => by
    unfold World.arr
    rw [node3 m hm]
  have nodes4 : w4.nodes = w3.nodes := by
    have := modifyInode_nodes (n := p) (i := idx)
      (f := fun i => { i with child := some w.nextNode }) s3
    rwa [e4] at this
  refine ⟨w4, ?_, ⟨?_, ?_, ?_, ?_, ?_, ?_, ?_, fun m hm => ?_, fun m hm hmp ha => ?_, h4.sound⟩⟩
  · unfold Bucket.childForWrite inodesOf bucketOf
    simp only [Prog.read_bind, hi, hc, if_neg hd]
    rw [Prog.bind_ok e1, Prog.bind_ok e2, Prog.bind_ok e3, Prog.bind_ok e4]
    rfl
  · exact ((h1.quiet.trans h2.quiet).trans q3).trans h4.quiet
  · rw [h4.nextNode, hn3]
  · rw [h4.buckets, b3, h2.buckets, h1.buckets]
  · rw [nodes4, nodes3, h2.self, h1.self]
    rfl
  · rw [h4.view _ hpn.symm new3, inodes3, h2.inodes, h1.inodes]
    rw [arr_ne p hp]
    exact ((hw.arr_lt p hp).trans_le arr_copy).ne'
  · rw [h4.other_arr hpn.symm]
    exact arr_copy
  · rw [h4.inodes, view3 p hp]
  · rw [nodes4, node3 m hm]
  · rw [h4.view m hmp (lt3 m hm), view3 m hm]
    rwa [arr_ne m hm, arr_ne p hp]

end

end Vmbolt
