import Vmbolt.Tree.Handle

/-!
# The path to a leaf that is written

`Cursor.node` walks from the root along the indices of a cursor's stack and replaces every node on
the way that is still shared by a copy. The leaf at the end is a copy too, with the inodes and the
range of the leaf the cursor stands on.
-/

namespace Vmbolt

/-- A tree as a commit leaves it: exact ranges, at least two children under a branch, and no empty
leaf but a root; the key of a node is that of its first inode. -/
structure Committed (w : World) (g : Layout) (r : NodeId) (H : Nat) : Prop where
  tree : TreeOK w g r H
  exact : Exact w g r
  two : ∀ n d, g.lvl n = some (d + 1) → 2 ≤ (w.inodes n).length
  first : ∀ n d, g.lvl n = some d → n ≠ r → FirstKey w n

/-- The handle has not written yet and answers from the tree under `r` of its base. -/
structure Untouched (w : World) (b : BucketId) (g : Layout) (r : NodeId) (H : Nat) : Prop where
  sound : w.Sound
  rootNode : (w.buckets b).rootNode = none
  dirty : (w.buckets b).dirty = ∅
  base : (Bucket.baseState w b).bind BucketState.root = some r
  tree : Committed w g r H

/-- The indices of `refs`, followed from the node `n` of level `d`, lead to the leaf `l`. -/
inductive Down (w : World) : Nat → NodeId → List ElemRef → NodeId → Prop
  | nil {l : NodeId} : Down w 0 l [] l
  | cons {d : Nat} {n m l : NodeId} {i : Nat} {x : Inode} {refs : List ElemRef} :
    (w.inodes n)[i]? = some x → Down w d x.kid refs l → Down w (d + 1) n (⟨m, i⟩ :: refs) l

/-- From `w` to `w'` no node of the working set of `b` was flagged as unbalanced. -/
def NoneFlagged (b : BucketId) (w w' : World) : Prop :=
  ∀ n ∈ (w'.buckets b).dirty, (w'.nodes n).unbalanced = true →
    n ∈ (w.buckets b).dirty ∧ (w.nodes n).unbalanced = true

/-- The leaf `l'` of the tree under `r'` has taken the place of the leaf `l` of the tree under `r`,
and it can be written. -/
structure Reached (w : World) (b : BucketId) (g : Layout) (r : NodeId) (H : Nat) (l : NodeId)
    (w' : World) (g' : Layout) (r' l' : NodeId) : Prop where
  handle : Handle w' b g' r' H
  quiet : Quiet b w w'
  exact : Exact w g r → Exact w' g' r'
  contents_eq : contents w' H r' = contents w H r
  dirty : l' ∈ (w'.buckets b).dirty
  lvl : g'.lvl l' = some 0
  lo : g'.lo l' = g.lo l
  hi : g'.hi l' = g.hi l
  inodes : w'.inodes l' = w.inodes l
  flags : NoneFlagged b w w'

section
variable {w w' : World} {b : BucketId} {g : Layout} {r n p l : NodeId} {H d idx : Nat} {i : Inode}
  {refs st : List ElemRef}

lemma NoneFlagged.refl (b : BucketId) (w : World) : NoneFlagged b w w := fun _ hn hf => ⟨hn, hf⟩

lemma NoneFlagged.trans {w'' : World} (h1 : NoneFlagged b w w') (h2 : NoneFlagged b w' w'') :
    NoneFlagged b w w'' := by
  intro n hn hf
  obtain ⟨hn', hf'⟩ := h2 n hn hf
  exact h1 n hn' hf'

/-- A copy is not flagged. -/
lemma Copied.noneFlagged {c : NodeId} (h : Copied w b p c idx w')
    (ha : ∀ n ∈ (w.buckets b).dirty, n < w.nextNode) : NoneFlagged b w w' := by
  intro n hn hf
  rw [h.bucket] at hn
  rcases Finset.mem_insert.1 hn with rfl | hn
  · rw [h.copy] at hf
    cases hf
  · rw [h.other n (ha n hn)] at hf
    exact ⟨hn, hf⟩

lemma Down.lvl (h : TreeOK w g r H) (hd : Down w d n refs l) (hn : g.lvl n = some d) :
    g.lvl l = some 0 := by
  induction hd with
  | nil => exact hn
  | cons hi _ ih => exact ih (h.kid hn (List.mem_of_getElem? hi))

/-- A path in the tree after `c` was replaced by a copy. -/
lemma Down.moved {c c' : NodeId} (h : TreeOK w g r H) (hr : Moved w g c c' w')
    (hd : Down w d n refs l) (hn : g.lvl n = some d) :
    Down w' d (subst c c' n) refs (subst c c' l) := by
  induction hd with
  | nil => exact .nil
  | @cons d n m l i x refs hi _ ih =>
    have hx := List.mem_of_getElem? hi
    refine .cons (x := Inode.redirect c c' x) ?_ ?_
    · rw [hr.inodes n _ hn, List.getElem?_map, hi]
      rfl
    · rw [(hr.redirects h hn x hx).1]
      exact ih (h.kid hn hx)

/-- The stack of a cursor, read from the root. -/
lemma Spine.down (hs : Spine w r H d n st) (hd : Down w d n refs l) :
    Down w H r (st.reverse ++ refs) l := by
  induction hs generalizing refs with
  | nil => exact hd
  | cons _ hi ih =>
    rw [List.reverse_cons, List.append_assoc]
    exact ih (.cons hi hd)

/-- `childForWrite` returns a dirty child as it is and replaces a clean one. -/
lemma Handle.childForWrite (h : Handle w b g r H) (hpl : g.lvl p = some (d + 1))
    (hi : (w.inodes p)[idx]? = some i) :
    (i.kid ∈ (w.buckets b).dirty ∧ Bucket.childForWrite b p idx w = (.ok i.kid, w)) ∨
      (i.kid ∉ (w.buckets b).dirty ∧ ∃ w', Bucket.childForWrite b p idx w = (.ok w.nextNode, w') ∧
        Copied w b p i.kid idx w') := by
  have hc := (h.tree.branch p d hpl).child i (List.mem_of_getElem? hi)
  by_cases hd : i.kid ∈ (w.buckets b).dirty
  · refine .inl ⟨hd, ?_⟩
    unfold Bucket.childForWrite inodesOf bucketOf
    simp only [Prog.read_bind, hi, hc, if_pos hd]
    rfl
  · exact .inr ⟨hd, childForWrite_eq h.sound (h.tree.alloc p _ hpl) hi hc hd⟩

/-- `childAt` on a branch of the handle. -/
lemma Handle.childAt_eq (h : Handle w b g r H) (hp : p ∈ (w.buckets b).dirty)
    (hpl : g.lvl p = some (d + 1)) (idx : Nat) :
    Node.childAt p idx w = Bucket.childForWrite b p idx w := by
  unfold Node.childAt nodeOf
  simp only [Prog.read_bind, h.tree.isLeaf_false hpl, Bool.false_eq_true, if_false,
    (h.dirty p hp).owned]
  rfl

/-- One step of the walk of `Cursor.node`. -/
lemma Handle.walk_cons {m c : NodeId} (h : Handle w b g r H) (hn : n ∈ (w.buckets b).dirty)
    (hl : g.lvl n = some (d + 1)) (e : Bucket.childForWrite b n idx w = (.ok c, w')) :
    Cursor.walk n (⟨m, (idx : Nat)⟩ :: refs) w = Cursor.walk c refs w' := by
  have hneg : ¬ ((idx : Int) < 0) := by omega
  rw [Cursor.walk]
  unfold nodeOf
  rw [Prog.read_bind, Prog.assert_pos (h.tree.isLeaf_false hl), pure_bind, if_neg hneg,
    Int.toNat_natCast, Prog.bind_ok ((h.childAt_eq hn hl idx).trans e)]

/-- The walk of `Cursor.node` reaches the leaf at the end of the path. -/
lemma Handle.walk (h : Handle w b g r H) (hn : n ∈ (w.buckets b).dirty) (hl : g.lvl n = some d)
    (hd : Down w d n refs l) :
    ∃ l' w' g', Cursor.walk n refs w = (.ok l', w') ∧ Reached w b g r H l w' g' r l' := by
  induction d generalizing w g n refs l with
  | zero =>
    cases hd
    exact ⟨n, w, g, rfl, h, .refl b w, id, rfl, hn, hl, rfl, rfl, rfl, .refl b w⟩
  | succ d ih =>
    rcases hd with _ | @⟨_, _, m, _, idx, x, refs, hx, hd⟩
    have hmem := List.mem_of_getElem? hx
    have hkid := h.tree.kid hl hmem
    rcases h.childForWrite hl hx with ⟨hk, e⟩ | ⟨hk, w1, e, hc⟩
    · obtain ⟨l', w', g', e', hr⟩ := ih h hk hkid hd
      exact ⟨l', w', g', (h.walk_cons hn hl e).trans e', hr⟩
    · have hm := h.moved hn hl hx hc
      have h1 := h.copied hn hl hx hk hc
      have hcopy : subst x.kid w.nextNode x.kid = w.nextNode := if_pos rfl
      have hroot : subst x.kid w.nextNode r = r :=
        if_neg fun (e : r = x.kid) => hk (e ▸ h.root_dirty)
      have hd1 := hd.moved h.tree hm hkid
      have hl1 := hm.lvl_subst hkid
      have hleaf := hd.lvl h.tree hkid
      rw [hcopy] at hd1 hl1
      have hmem1 : w.nextNode ∈ (w1.buckets b).dirty := by
        rw [hc.bucket]
        exact Finset.mem_insert_self _ _
      obtain ⟨l', w', g', e', hr⟩ := ih h1 hmem1 hl1 hd1
      refine ⟨l', w', g', (h.walk_cons hn hl e).trans e', hr.handle, hc.quiet.trans hr.quiet,
        fun hx => hr.exact (hroot ▸ hm.exact h.tree hx), ?_, hr.dirty, hr.lvl, ?_, ?_, ?_,
        (hc.noneFlagged fun n hn => (h.dirty n hn).alloc).trans hr.flags⟩
      · have := hm.contents_eq h.tree h.tree.lvl_root
        rw [hroot] at this
        rw [hr.contents_eq, this]
      · rw [hr.lo, hm.lo_subst hleaf]
      · rw [hr.hi, hm.hi_subst hleaf]
      · rw [hr.inodes, hm.inodes l 0 hleaf, map_redirect]
        exact fun i hi => by simp [((h.tree.leaf l hleaf).entry i hi).child]

/-! ## The root -/

/-- No node points to the root. -/
lemma TreeOK.child_ne_root (h : TreeOK w g r H) (hn : g.lvl n = some d) :
    ∀ i ∈ w.inodes n, i.child ≠ some r := by
  intro i hi e
  cases d with
  | zero =>
    rw [((h.leaf n hn).entry i hi).child] at e
    cases e
  | succ d =>
    have hb := h.branch n d hn
    rw [hb.child i hi] at e
    cases e
    exact h.ne_root (hb.lvl i hi) (h.le_height hn) rfl

/-- The effect of the first write on a bucket with a base: the root is copied. -/
lemma Untouched.writableRoot_eq (h : Untouched w b g r H) :
    ∃ w', Bucket.writableRoot b w = (.ok w.nextNode, w') ∧ w'.Sound ∧ Quiet b w w' ∧
      w'.nextNode = w.nextNode + 1 ∧
      w'.buckets b = { w.buckets b with rootNode := some w.nextNode, dirty := {w.nextNode} } ∧
      w'.nodes w.nextNode =
        { (w.nodes r).copyFor b with inodes := (w'.nodes w.nextNode).inodes } ∧
      w'.inodes w.nextNode = w.inodes r ∧ w.nextArr ≤ w'.arr w.nextNode ∧
      ∀ m, m < w.nextNode → w'.nodes m = w.nodes m ∧ w'.inodes m = w.inodes m := by
  obtain ⟨w1, e1, h1⟩ := copyNode_eq (b := b) (c := r) h.sound
  obtain ⟨w2, e2, s2, q2, r2, b2⟩ := markDirty_eq (b := b) (n := w.nextNode) h1.sound
  have hd : insert w.nextNode (w1.buckets b).dirty = {w.nextNode} := by
    rw [h1.buckets, h.dirty]
    rfl
  rw [hd] at b2
  obtain ⟨w3, e3, s3, q3, r3, b3⟩ := modifyBucket_eq (b := b)
    (f := fun bk => { bk with rootNode := some w.nextNode }) s2 rfl rfl rfl
  have hnodes : w3.nodes = w1.nodes := by rw [r3, r2]
  have hinodes : w3.inodes = w1.inodes := by rw [r3, r2]; rfl
  refine ⟨w3, ?_, s3, (h1.quiet.trans q2).trans q3, ?_, ?_, ?_, ?_, ?_, fun m hm => ?_⟩
  · unfold Bucket.writableRoot bucketOf
    simp only [Prog.read_bind, h.rootNode, h.base]
    rw [Prog.bind_ok e1, Prog.bind_ok e2, Prog.bind_ok e3]
    rfl
  · rw [r3, r2]
    exact h1.nextNode
  · rw [b3, b2, h1.buckets]
  · rw [hnodes]
    exact h1.self
  · rw [hinodes, h1.inodes]
  · unfold World.arr
    rw [hnodes]
    exact h1.arr
  · rw [hnodes, hinodes]
    exact ⟨h1.other m hm.ne, h1.view m hm⟩

/-- The first write turns the tree of the base into a tree of the handle. -/
lemma Untouched.writableRoot (h : Untouched w b g r H) :
    ∃ w', Bucket.writableRoot b w = (.ok w.nextNode, w') ∧ Quiet b w w' ∧
      Moved w g r w.nextNode w' ∧ Handle w' b (g.move r w.nextNode) w.nextNode H ∧
      NoneFlagged b w w' := by
  obtain ⟨w', e, hs, hq, hnext, hbk, hnode, hins, harr, hold⟩ := h.writableRoot_eq
  have ht := h.tree.tree
  have hcopy : subst r w.nextNode r = w.nextNode := if_pos rfl
  have hsub : ∀ m, m ≠ r → subst r w.nextNode m = m := fun m hm => if_neg hm
  have hm : Moved w g r w.nextNode w' := by
    refine ⟨by rw [hnext]; exact Nat.le_succ _, by rw [hnext]; exact Nat.lt_succ_self _, ?_,
      fun m k hm => ?_, fun m k hm i hi => ?_, fun m k hm => ?_⟩
    · rcases e : g.lvl w.nextNode with _ | k
      · rfl
      · exact absurd (ht.alloc _ k e) (lt_irrefl _)
    · by_cases e : m = r
      · rw [e, hcopy, hnode]
        rfl
      · rw [hsub m e, (hold m (ht.alloc m k hm)).1]
    · have hk := ht.kid hm hi
      rw [hsub i.kid (ht.ne_root hk (ht.le_height hm)), (hold i.kid (ht.alloc _ k hk)).1]
    · rw [map_redirect (ht.child_ne_root hm)]
      by_cases e : m = r
      · rw [e, hcopy, hins]
      · rw [hsub m e, (hold m (ht.alloc m k hm)).2]
  have hdirty : ∀ {n}, n ∈ (w'.buckets b).dirty ↔ n = w.nextNode := by
    intro n
    rw [hbk]
    exact Finset.mem_singleton
  have htree := hm.treeOK ht
  rw [hcopy] at htree
  have hunflagged : (w'.nodes w.nextNode).unbalanced = false := by
    rw [hnode]
    rfl
  have hroot : (w'.nodes w.nextNode).parent = none := by
    rw [hnode]
    rfl
  refine ⟨w', e, hq, hm, ⟨⟨hs, htree, by rw [hbk], hdirty.2 rfl, hroot,
    fun n hn => ?_, fun n hn k _ hne => absurd (hdirty.1 hn) hne, fun n hn k _ m j hj hne => ?_,
    fun n k hk hn => ?_, fun n k hk _ => ?_, fun n hk hne _ hemp => ?_, fun n hn _ hf => ?_,
    fun n hn q hq => ?_⟩, fun n hn => ⟨H, by rw [hdirty.1 hn]; exact htree.lvl_root⟩⟩,
    fun n hn hf => by rw [hdirty.1 hn, hunflagged] at hf; cases hf⟩
  · rw [hdirty.1 hn]
    refine ⟨hm.alloc, ?_, ?_⟩ <;> rw [hnode] <;> rfl
  · rw [hdirty.1 hn] at hne ⊢
    obtain ⟨m, hj', rfl⟩ := Moved.exists_subst hj
    have hmr : m ≠ r := fun e => hne (by rw [e, hcopy])
    have : w'.arr m = w.arr m := by
      unfold World.arr
      rw [(hold m (ht.alloc m j hj')).1]
    rw [hsub m hmr, this]
    exact ((h.sound.arr_lt m (ht.alloc m j hj')).trans_le harr).ne
  · obtain ⟨m, hm', rfl⟩ := Moved.exists_subst hk
    have hmr : m ≠ r := fun e => hn (hdirty.2 (by rw [e, hcopy]))
    obtain ⟨i, l, hi, hkey⟩ := h.tree.first m k hm' hmr
    obtain ⟨h1, h2⟩ := hold m (ht.alloc m k hm')
    rw [hsub m hmr]
    exact ⟨i, l, h2.trans hi, by rw [h1, hkey]⟩
  · obtain ⟨m, hm', rfl⟩ := Moved.exists_subst hk
    rw [hm.inodes m _ hm', List.length_map]
    exact h.tree.two m k hm'
  · obtain ⟨m, hm', rfl⟩ := Moved.exists_subst hk
    rw [hm.inodes m _ hm', List.map_eq_nil_iff] at hemp
    obtain ⟨i, l, hi, -⟩ := h.tree.first m 0 hm' fun e => hne (by rw [e, hcopy])
    rw [hemp] at hi
    cases hi
  · rw [hdirty.1 hn, hunflagged] at hf
    cases hf
  · rw [hdirty.1 hn, hroot] at hq
    cases hq

/-! ## The leaf under a cursor -/

lemma node_eq {root l : NodeId} {w1 w2 : World} {ref : ElemRef}
    (h1 : Bucket.writableRoot b w = (.ok root, w1))
    (h2 : Cursor.walk root st.reverse w1 = (.ok l, w2)) (hl : (w2.nodes l).isLeaf = true) :
    Cursor.node b (ref :: st) w = (.ok l, w2) := by
  unfold Cursor.node
  rw [Prog.assert_pos (by simp), pure_bind, Prog.bind_ok h1, List.tail_cons, Prog.bind_ok h2]
  unfold nodeOf
  rw [Prog.read_bind, Prog.assert_pos hl]
  rfl

lemma Handle.writableRoot_eq (h : Handle w b g r H) : Bucket.writableRoot b w = (.ok r, w) := by
  unfold Bucket.writableRoot bucketOf
  rw [Prog.read_bind, h.rootNode]
  rfl

/-- `Cursor.node` of a bucket that has written. -/
lemma Handle.node (h : Handle w b g r H) (hs : Spine w r H 0 l st) (ref : ElemRef) :
    ∃ l' w' g', Cursor.node b (ref :: st) w = (.ok l', w') ∧ Reached w b g r H l w' g' r l' := by
  have hd : Down w H r st.reverse l := by simpa using hs.down .nil
  obtain ⟨l', w', g', e, hr⟩ := h.walk h.root_dirty h.tree.lvl_root hd
  exact ⟨l', w', g', node_eq h.writableRoot_eq e (hr.handle.tree.isLeaf_true hr.lvl), hr⟩

/-- `Cursor.node` of a bucket that has not written. -/
lemma Untouched.node (h : Untouched w b g r H) (hs : Spine w r H 0 l st) (ref : ElemRef) :
    ∃ l' w' g', Cursor.node b (ref :: st) w = (.ok l', w') ∧
      Reached w b g r H l w' g' w.nextNode l' := by
  have ht := h.tree.tree
  obtain ⟨w1, e1, hq, hm, h1, hfl⟩ := h.writableRoot
  have hd : Down w H r st.reverse l := by simpa using hs.down .nil
  have hcopy : subst r w.nextNode r = w.nextNode := if_pos rfl
  have hleaf := hs.lvl ht
  have hd1 := hd.moved ht hm ht.lvl_root
  rw [hcopy] at hd1
  obtain ⟨l', w', g', e, hr⟩ := h1.walk h1.root_dirty h1.tree.lvl_root hd1
  have hexact := hm.exact ht h.tree.exact
  rw [hcopy] at hexact
  refine ⟨l', w', g', node_eq e1 e (hr.handle.tree.isLeaf_true hr.lvl), hr.handle,
    hq.trans hr.quiet, fun _ => hr.exact hexact, ?_, hr.dirty, hr.lvl, ?_, ?_, ?_,
    hfl.trans hr.flags⟩
  · rw [hr.contents_eq, ← hm.contents_eq ht ht.lvl_root, hcopy]
  · rw [hr.lo, hm.lo_subst hleaf]
  · rw [hr.hi, hm.hi_subst hleaf]
  · rw [hr.inodes, hm.inodes l 0 hleaf, map_redirect]
    exact fun i hi => by simp [((ht.leaf l hleaf).entry i hi).child]

end

end Vmbolt
