import Vmbolt.Check.Worklist
import Vmbolt.Refinement.ReverseScan

/-!
# Counting and measuring a bucket

`Bucket.Stats`, `Bucket.size`, `bucketStateSize` and `Bucket.Inspect` traverse the tree of a bucket
in their own ways. The first three go through the nodes in the order `preorder`, so what they return
is a sum over one list; `Inspect` and a scan step from key to key. On every tree a write transaction
can make by `Put` and `Delete`, with any number of empty leaves, the results agree.
-/

namespace Vmbolt
open Filter Prog

/-- The nodes under a node of level `d` with their depths, a branch before its children. -/
def preorder (w : World) : Nat → NodeId → Nat → List (NodeId × Nat)
  | 0, n, depth => [(n, depth)]
  | d + 1, n, depth => (n, depth) :: (w.inodes n).flatMap fun i => preorder w d i.kid (depth + 1)

/-- The number of inodes of a leaf. -/
def keysAt (w : World) (n : NodeId) : Nat := if (w.nodes n).isLeaf then (w.inodes n).length else 0

section
variable {w : World} {g : Layout} {root n : NodeId} {H d depth : Nat} {b : BucketId}

/-! ## The walks as sums over the nodes -/

/-- `forEachNodeDFS` calls back for the nodes in preorder. -/
lemma forEachNodeDFS_eq (h : TreeOK w g root H) (hn : g.lvl n = some d) {σ : Type}
    (fn : World → NodeId → Nat → σ → σ) (s : σ) {fuel : Nat} (hf : d < fuel) :
    Bucket.forEachNodeDFS fn fuel w (some n) depth s =
      .ok ((preorder w d n depth).foldl (fun s x => fn w x.1 x.2 s) s) := by
  induction d generalizing n depth s fuel with
  | zero =>
    obtain ⟨k, rfl⟩ : ∃ k, fuel = k + 1 := ⟨fuel - 1, by omega⟩
    rw [Bucket.forEachNodeDFS, if_pos (h.isLeaf_true hn)]
    rfl
  | succ d ih =>
    obtain ⟨k, rfl⟩ : ∃ k, fuel = k + 1 := ⟨fuel - 1, by omega⟩
    have hb := h.branch n d hn
    rw [Bucket.forEachNodeDFS, if_neg (by rw [h.isLeaf_false hn]; simp), preorder, List.foldl_cons]
    -- the loop over the children, by induction on those still to come
    have loop : ∀ (l : List Inode) (s : σ), (∀ i ∈ l, i ∈ w.inodes n) →
        l.foldlM (fun s i => Bucket.forEachNodeDFS fn k w i.child (depth + 1) s) s =
          .ok ((l.flatMap fun i => preorder w d i.kid (depth + 1)).foldl (fun s x => fn w x.1 x.2 s)
            s) := by
      intro l
      induction l with
      | nil => exact fun s _ => rfl
      | cons i l ihl =>
        intro s hl
        rw [List.foldlM_cons, hb.child i (hl i (by simp)),
          ih (hb.lvl i (hl i (by simp))) s (by omega), Outcome.ok_bind,
          ihl _ fun j hj => hl j (.tail _ hj), List.flatMap_cons, List.foldl_append]
    exact loop _ _ fun i hi => hi

/-- A loop that adds up what it gets for each element. -/
lemma foldlM_sum {ι : Type} {f : ι → Outcome Panic Nat} {v : ι → Nat} {l : List ι}
    (h : ∀ i ∈ l, f i = .ok (v i)) (s : Nat) :
    l.foldlM (fun s i => do
      let c ← f i
      pure (s + c)) s = .ok (s + (l.map v).sum) := by
  induction l generalizing s with
  | nil => rfl
  | cons i l ih =>
    rw [List.foldlM_cons, h i (by simp), Outcome.ok_bind, Outcome.pure_eq, Outcome.ok_bind,
      ih (fun j hj => h j (.tail _ hj)), List.map_cons, List.sum_cons, Nat.add_assoc]

lemma sum_flatMap {ι κ : Type} (l : List ι) (f : ι → List κ) (v : κ → Nat) :
    ((l.flatMap f).map v).sum = (l.map fun i => ((f i).map v).sum).sum := by
  induction l with
  | nil => rfl
  | cons i l ih => simp [List.flatMap_cons, ih]

/-- `Bucket.size` and `bucketStateSize` add up the sizes of the nodes. -/
lemma sizeWalk_eq (h : TreeOK w g root H) (hn : g.lvl n = some d) (depth : Nat) {fuel : Nat}
    (hf : d < fuel) :
    Bucket.sizeWalk fuel w (some n) =
        .ok ((preorder w d n depth).map fun x => Node.size (w.inodes x.1)).sum ∧
      Tx.stateSizeWalk fuel w (some n) =
        .ok ((preorder w d n depth).map fun x => Node.size (w.inodes x.1)).sum := by
  induction d generalizing n depth fuel with
  | zero =>
    obtain ⟨k, rfl⟩ : ∃ k, fuel = k + 1 := ⟨fuel - 1, by omega⟩
    simp [Bucket.sizeWalk, Tx.stateSizeWalk, h.isLeaf_true hn, preorder]
  | succ d ih =>
    obtain ⟨k, rfl⟩ : ∃ k, fuel = k + 1 := ⟨fuel - 1, by omega⟩
    have hb := h.branch n d hn
    have hkid : ∀ i ∈ w.inodes n,
        Bucket.sizeWalk k w i.child =
            .ok ((preorder w d i.kid (depth + 1)).map fun x => Node.size (w.inodes x.1)).sum ∧
          Tx.stateSizeWalk k w i.child =
            .ok ((preorder w d i.kid (depth + 1)).map fun x => Node.size (w.inodes x.1)).sum := by
      intro i hi
      rw [hb.child i hi]
      exact ih (hb.lvl i hi) (depth + 1) (by omega)
    simp only [Bucket.sizeWalk, Tx.stateSizeWalk, h.isLeaf_false hn, Bool.false_eq_true, if_false]
    rw [foldlM_sum fun i hi => (hkid i hi).1, foldlM_sum fun i hi => (hkid i hi).2, preorder,
      List.map_cons, List.sum_cons, sum_flatMap]
    exact ⟨rfl, rfl⟩

/-- The leaves hold the keys. -/
lemma sum_keysAt (h : TreeOK w g root H) (hn : g.lvl n = some d) :
    ((preorder w d n depth).map fun x => keysAt w x.1).sum = (contents w d n).length := by
  induction d generalizing n depth with
  | zero => simp [preorder, keysAt, h.isLeaf_true hn, contents]
  | succ d ih =>
    have hb := h.branch n d hn
    rw [preorder, List.map_cons, List.sum_cons, sum_flatMap, contents, List.length_flatMap]
    simp only [keysAt, h.isLeaf_false hn, Bool.false_eq_true, if_false, Nat.zero_add]
    exact congrArg List.sum (List.map_congr_left fun i hi => ih (hb.lvl i hi))

/-- The nodes of a tree lie no deeper than its leaves. -/
lemma le_of_mem_preorder {x : NodeId × Nat} (hx : x ∈ preorder w d n depth) : x.2 ≤ depth + d := by
  induction d generalizing n depth with
  | zero =>
    cases List.mem_singleton.1 hx
    exact le_rfl
  | succ d ih =>
    rcases List.mem_cons.1 hx with rfl | hx
    · exact Nat.le_add_right _ _
    · obtain ⟨i, -, hx⟩ := List.mem_flatMap.1 hx
      have := ih hx
      omega

/-- There is a leaf. -/
lemma exists_mem_preorder (h : TreeOK w g root H) (hn : g.lvl n = some d) (depth : Nat) :
    ∃ x ∈ preorder w d n depth, x.2 = depth + d := by
  induction d generalizing n depth with
  | zero => exact ⟨_, List.mem_singleton_self _, rfl⟩
  | succ d ih =>
    have hb := h.branch n d hn
    obtain ⟨i, l, hi⟩ := List.exists_cons_of_ne_nil hb.ne
    have hmem : i ∈ w.inodes n := by simp [hi]
    obtain ⟨x, hx, e⟩ := ih (hb.lvl i hmem) (depth + 1)
    exact ⟨x, .tail _ (List.mem_flatMap.2 ⟨i, hmem, hx⟩), by omega⟩

/-- Branch inodes have no value. -/
lemma value_of_mem_preorder (h : TreeOK w g root H) (hn : g.lvl n = some d) :
    ∀ x ∈ preorder w d n depth, (w.nodes x.1).isLeaf = false →
      ∀ i ∈ w.inodes x.1, i.value = none := by
  induction d generalizing n depth with
  | zero =>
    intro x hx hl
    cases List.mem_singleton.1 hx
    rw [h.isLeaf_true hn] at hl
    cases hl
  | succ d ih =>
    have hb := h.branch n d hn
    intro x hx hl
    rcases List.mem_cons.1 hx with rfl | hx
    · exact hb.value
    · obtain ⟨i, hi, hx⟩ := List.mem_flatMap.1 hx
      exact ih (hb.lvl i hi) x hx hl

/-! ## `Bucket.Stats` -/

/-- What `Stats` counts for a branch is its size, as its inodes have no values. -/
lemma branchBytes_eq {l : List Inode} (hl : ∀ i ∈ l, i.value = none) (s : Nat) :
    l.foldl (fun used i => used + (nodeInodeOverheadBytes + i.key.length)) s =
      l.foldl (fun sz i => sz + i.size) s := by
  induction l generalizing s with
  | nil => rfl
  | cons i l ih =>
    have hi : i.size = nodeInodeOverheadBytes + i.key.length := by
      simp [Inode.size, hl i (by simp), lenBytes]
    rw [List.foldl_cons, List.foldl_cons, hi, ih fun j hj => hl j (.tail _ hj)]

/-- One call of the callback. -/
lemma addStats_eq (hl : (w.nodes n).isLeaf = false → ∀ i ∈ w.inodes n, i.value = none) (depth : Nat)
    (s : BucketStats) :
    (Bucket.addStats w n depth s).keyN = s.keyN + keysAt w n ∧
      (Bucket.addStats w n depth s).leafInuse + (Bucket.addStats w n depth s).branchInuse =
        s.leafInuse + s.branchInuse + Node.size (w.inodes n) ∧
      (Bucket.addStats w n depth s).depth = max s.depth (depth + 1) := by
  cases hleaf : (w.nodes n).isLeaf with
  | true =>
    have hsz : (w.inodes n).foldl (fun used i => used + (nodeInodeOverheadBytes + i.key.length +
        lenBytes i.value)) nodeHeaderOverheadBytes = Node.size (w.inodes n) := rfl
    simp only [Bucket.addStats, keysAt, hleaf, if_true, hsz]
    split <;> dsimp only <;> omega
  | false =>
    have hsz := branchBytes_eq (hl hleaf) nodeHeaderOverheadBytes
    simp only [Bucket.addStats, keysAt, hleaf, Bool.false_eq_true, if_false, hsz]
    change _ ∧ _ = _ + (w.inodes n).foldl (fun sz i => sz + i.size) nodeHeaderOverheadBytes ∧ _
    split <;> dsimp only <;> omega

/-- The callback over a list of nodes. -/
lemma foldl_addStats {l : List (NodeId × Nat)}
    (hl : ∀ x ∈ l, (w.nodes x.1).isLeaf = false → ∀ i ∈ w.inodes x.1, i.value = none)
    (s : BucketStats) {t : BucketStats}
    (ht : t = l.foldl (fun s x => Bucket.addStats w x.1 x.2 s) s) :
    t.keyN = s.keyN + (l.map fun x => keysAt w x.1).sum ∧
      t.leafInuse + t.branchInuse =
        s.leafInuse + s.branchInuse + (l.map fun x => Node.size (w.inodes x.1)).sum ∧
      t.depth = l.foldl (fun m x => max m (x.2 + 1)) s.depth := by
  induction l generalizing s with
  | nil =>
    subst ht
    exact ⟨rfl, rfl, rfl⟩
  | cons x l ih =>
    obtain ⟨h1, h2, h3⟩ := addStats_eq (hl x (by simp)) x.2 s
    obtain ⟨i1, i2, i3⟩ := ih (fun y hy => hl y (.tail _ hy)) _ ht
    rw [h1] at i1
    rw [h2] at i2
    rw [h3] at i3
    simp only [List.map_cons, List.sum_cons, List.foldl_cons]
    exact ⟨by omega, by omega, i3⟩

lemma foldl_max_le {l : List (NodeId × Nat)} {m D : Nat} :
    l.foldl (fun m x => max m (x.2 + 1)) m ≤ D ↔ m ≤ D ∧ ∀ x ∈ l, x.2 + 1 ≤ D := by
  induction l generalizing m with
  | nil => simp
  | cons y l ih => simp only [List.foldl_cons, ih, max_le_iff, List.forall_mem_cons, and_assoc]

/-! ## `Bucket.Inspect` -/

/-- The loop of `Inspect` counts the keys that come next. -/
lemma inspectLoop_eq (h : TreeOK w g root H) {fuel : Nat}
    (hf : H + (leaves w H root).length + 2 ≤ fuel) (es : List (Bytes × Bytes)) (keyN : Nat)
    {l : NodeId} {i : Nat} {st : List ElemRef} (hpos : Pos w root H l i st es.tail) {k : Nat}
    (hk : es.length < k) :
    Bucket.inspectLoop fuel w k (itemOf es.head?) (⟨l, (i : Nat)⟩ :: st) keyN =
      .ok (keyN + es.length) := by
  induction es generalizing k l i st keyN with
  | nil =>
    obtain ⟨k, rfl⟩ : ∃ j, k = j + 1 := ⟨k - 1, by omega⟩
    rfl
  | cons e es ih =>
    obtain ⟨k, rfl⟩ : ∃ j, k = j + 1 := ⟨k - 1, by omega⟩
    obtain ⟨l', i', st', hnext, hpos', -⟩ := nextStack_eq h (i := i) hpos.spine rfl
    have hle := hpos.spine.length_leavesAbove h
    rw [hpos.after, List.tail_cons] at hpos' hnext
    have hitem : itemOf (e :: es).head? = (some e.1, some e.2) := rfl
    rw [hitem, Bucket.inspectLoop, hnext fuel (by omega), Outcome.ok_bind,
      ih (keyN + 1) hpos' (by simpa using hk), List.length_cons]
    congr 1
    omega

/-- `Inspect` counts the entries. -/
lemma inspect_eq (h : TreeOK w g root H) (hr : Bucket.rootView w b = some root) {fuel : Nat}
    (hf : H + (leaves w H root).length + 2 ≤ fuel) (hc : (contents w H root).length < fuel) :
    Bucket.inspect fuel w b = .ok ⟨(w.buckets b).name, (contents w H root).length, []⟩ := by
  obtain ⟨l, i, st, hgo, hpos, -⟩ := firstStack_eq h
  unfold Bucket.inspect
  rw [hr, hgo fuel hf, Outcome.ok_bind, inspectLoop_eq h hf _ 0 hpos hc, Outcome.ok_bind,
    Nat.zero_add]
  rfl

/-! ## Paths -/

/-- Every path to a leaf has the same length. -/
lemma length_of_follow (h : TreeOK w g root H) (hn : g.lvl n = some d) {p : List Nat} {l : NodeId}
    (hp : follow (kids w) n p = some l) (hl : (w.nodes l).isLeaf = true) : p.length = d := by
  induction d generalizing n p with
  | zero =>
    rcases p with _ | ⟨j, p⟩
    · rfl
    · rw [follow, kids, if_pos (h.isLeaf_true hn)] at hp
      cases hp
  | succ d ih =>
    have hleaf := h.isLeaf_false hn
    rcases p with _ | ⟨j, p⟩
    · cases hp
      rw [hleaf] at hl
      cases hl
    · have hb := h.branch n d hn
      rw [follow, kids, if_neg (by rw [hleaf]; simp), List.getElem?_map] at hp
      rcases hj : (w.inodes n)[j]? with _ | i
      · rw [hj] at hp
        cases hp
      · have hi : i ∈ w.inodes n := List.mem_of_getElem? hj
        rw [hj, Option.map_some, hb.child i hi] at hp
        rw [List.length_cons, ih (hb.lvl i hi) hp]

/-- What the traversals of a tree return. -/
lemma traversals_of_tree (h : TreeOK w g root H) (hr : Bucket.rootView w b = some root) :
    ∃ s : BucketStats, s.keyN = (contents w H root).length ∧ s.depth = H + 1 ∧
      ∀ᶠ fuel in atTop, Bucket.stats fuel w b = .ok s ∧
        Bucket.inspect fuel w b = .ok ⟨(w.buckets b).name, s.keyN, []⟩ ∧
        Bucket.size fuel w b = .ok (s.leafInuse + s.branchInuse) ∧
        Tx.stateSizeWalk fuel w (some root) = .ok (s.leafInuse + s.branchInuse) := by
  have hroot := h.lvl_root
  obtain ⟨h1, h2, h3⟩ := foldl_addStats (l := preorder w H root 0) (value_of_mem_preorder h hroot)
    ⟨0, 0, 0, 0⟩ rfl
  rw [sum_keysAt h hroot, Nat.zero_add] at h1
  rw [Nat.zero_add, Nat.zero_add] at h2
  obtain ⟨x, hx, ex⟩ := exists_mem_preorder h hroot 0
  have hdepth : (preorder w H root 0).foldl (fun m x => max m (x.2 + 1)) 0 = H + 1 := by
    refine le_antisymm (foldl_max_le.2 ⟨Nat.zero_le _, fun y hy => ?_⟩) ?_
    · have := le_of_mem_preorder hy
      omega
    · have := ((foldl_max_le (m := 0)).1 le_rfl).2 x hx
      omega
  refine ⟨_, h1, h3.trans hdepth, ?_⟩
  filter_upwards [eventually_ge_atTop (H + (leaves w H root).length + 2 +
    (contents w H root).length + 1)] with fuel hf
  obtain ⟨hsz, hst⟩ := sizeWalk_eq h hroot 0 (by omega : H < fuel)
  refine ⟨?_, ?_, ?_, ?_⟩
  · unfold Bucket.stats Bucket.forEachNode
    rw [hr]
    exact forEachNodeDFS_eq h hroot _ _ (by omega)
  · rw [h1]
    exact inspect_eq h hr (by omega) (by omega)
  · unfold Bucket.size
    rw [hr, h2]
    exact hsz
  · rw [h2]
    exact hst

variable {m : SortedMap Bytes Bytes}

/-- After any sequence of steps on a bucket, `Stats`, `Inspect` and a scan count the same keys, the
sizes `Stats` reports add up to `Bucket.size` and, for a bucket that was not written, to
`bucketStateSize`, and every path from the root to a leaf has `Stats().Depth` nodes. -/
theorem traversals_agree (h : StartsAs w b m) (hw : Writable w b) (ops : List BucketOp) :
    ∃ w' s root, Evals (fun fuel => BucketOp.runAll fuel b ops) w (ops.map BucketOp.result) w' ∧
      Bucket.rootView w' b = some root ∧
      (∀ᶠ fuel in atTop, Bucket.stats fuel w' b = .ok s ∧
        Bucket.inspect fuel w' b = .ok ⟨(w'.buckets b).name, s.keyN, []⟩ ∧
        (∃ l, Bucket.scan fuel w' b = .ok l ∧ l.length = s.keyN) ∧
        Bucket.size fuel w' b = .ok (s.leafInuse + s.branchInuse) ∧
        ((w'.buckets b).rootNode = none → Tx.bucketStateSize fuel w' (Bucket.baseState w' b) =
          .ok (s.leafInuse + s.branchInuse))) ∧
      ∀ p l, follow (kids w') root p = some l → (w'.nodes l).isLeaf = true →
        p.length + 1 = s.depth := by
  obtain ⟨w', e, hh, hq⟩ := BucketOp.runAll_eq h.holds hw ops
  obtain ⟨g, root, H, ht, -, hroot, hm, -⟩ := hh.reach
  obtain ⟨s, hkeys, hdepth, htrav⟩ := traversals_of_tree ht hroot
  refine ⟨w', s, root, e, hroot, ?_, fun p l hp hl => ?_⟩
  · filter_upwards [htrav, hh.answers (hq.opened hw.opened)] with fuel htrav hans
    obtain ⟨h1, h2, h3, h4⟩ := htrav
    refine ⟨h1, h2, ⟨_, hans.2.2, ?_⟩, h3, fun hnone => ?_⟩
    · rw [List.length_map, ← hm, hkeys]
    · have hbase : (Bucket.baseState w' b).bind BucketState.root = some root := by
        unfold Bucket.rootView at hroot
        rw [hnone] at hroot
        rcases hs : Bucket.baseState w' b with _ | bs
        · rw [hs] at hroot
          cases hroot
        · rw [hs] at hroot
          exact hroot
      unfold Tx.bucketStateSize
      rw [hbase]
      exact h4
  · rw [length_of_follow ht ht.lvl_root hp hl, hdepth]

end

/-- A tree of three leaves, after two deletions that empty the one in the middle. -/
theorem traversals_agree_middleEmpty :
    ∃ s root, Evals (fun fuel => BucketOp.runAll fuel 0 [.delete [3], .delete [4]]) threeLeaves
        [none, none] middleEmpty ∧
      Bucket.rootView middleEmpty 0 = some root ∧ s.keyN = 4 ∧
      (∀ᶠ fuel in atTop, Bucket.stats fuel middleEmpty 0 = .ok s ∧
        Bucket.inspect fuel middleEmpty 0 = .ok ⟨(middleEmpty.buckets 0).name, s.keyN, []⟩ ∧
        (∃ l, Bucket.scan fuel middleEmpty 0 = .ok l ∧ l.length = s.keyN) ∧
        Bucket.size fuel middleEmpty 0 = .ok (s.leafInuse + s.branchInuse)) ∧
      ∀ p l, follow (kids middleEmpty) root p = some l → (middleEmpty.nodes l).isLeaf = true →
        p.length + 1 = s.depth := by
  obtain ⟨w', s, root, e, hr, hs, hd⟩ := traversals_agree
    (.committed threeLeaves_untouched (m := threeLeaves_tree.map) rfl) ⟨rfl, rfl⟩
    [.delete [3], .delete [4]]
  have hrun : (BucketOp.runAll 10 0 [.delete [3], .delete [4]] threeLeaves).1 =
      .ok [none, none] := by
    decide +kernel
  have hw : w' = middleEmpty := (e.unique ((BucketOp.runAll_growing 0 _).evals_of_fst hrun)).2
  rw [hw] at e hr hs hd
  have hscan : Bucket.scan 10 middleEmpty 0 =
      .ok [([1], some []), ([2], some []), ([5], some []), ([6], some [])] := by decide +kernel
  obtain ⟨k, h1, h2⟩ := (hs.and ((Bucket.scan_growing middleEmpty 0).eventually_eq_ok hscan)).exists
  obtain ⟨l, hl, hlen⟩ := h1.2.2.1
  rw [h2] at hl
  cases hl
  exact ⟨s, root, e, hr, hlen.symm, hs.mono fun _ h => ⟨h.1, h.2.1, h.2.2.1, h.2.2.2.1⟩, hd⟩

end Vmbolt
