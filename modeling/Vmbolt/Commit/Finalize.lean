import Vmbolt.Commit.Spilling
import Vmbolt.Tree.Exact

/-!
# `node.finalize`

A call of `node.finalize` on a node that is still to be spilled spills the whole rest of the tree:
it descends to a node without children to be spilled, spills it and goes on with the parent, which
goes on with its other children. The calls that were interrupted on the way find everything spilled
when they continue, and write back what is there. The induction is on the number of nodes to be
spilled, and for the descent on the level of the node.

A call that continues does so on a branch that may have been cut in the meantime. It does no harm if
the indices it has not visited are still there, the branch is not cut again and its inode stands in
the node its parent pointer leads to. `spillFits` says so, in terms of the tree before the first
call.
-/

namespace Vmbolt
open Filter Prog

/-- The end of `node.finalize`: go on with the parent. -/
def Node.finalizeParent (fuel : Nat) (n : NodeId) : Go Unit := do
  let nd ← nodeOf n
  match nd.parent with
  | none => pure ()
  | some p => do
    let pd ← nodeOf p
    if pd.spilled then pure () else finalize fuel p

/-- The tree under `r` was spilled completely, and stands under `R` now, with the height `H'`. A
node that was spilled before keeps its inodes, and a branch that was not keeps its first piece. -/
structure Finalized (w : World) (b : BucketId) (g : Layout) (r : NodeId) (H : Nat) (K : Set NodeId)
    (w' : World) (g' : Layout) (R : NodeId) (H' : Nat) : Prop where
  state : Spilling w' b g' R H' K
  done : ∀ n d, g'.lvl n = some d → ¬ Unspilled w' b n
  contents : contents w' H' R = contents w H r
  quiet : Quiet b w w'
  rootNode : (w'.buckets b).rootNode = (w.buckets b).rootNode
  top : ∀ᶠ k in atTop, Bucket.topOf k w' r = .ok R
  keep : ∀ m d, g.lvl m = some d → ¬ Unspilled w b m → w'.inodes m = w.inodes m
  length : ∀ m d, g.lvl m = some (d + 1) → Unspilled w b m →
    (w'.inodes m).length = (firstPiece w b d m).length

/-- `Bucket.spill` has made a committed tree under `R` from the tree under `r`. -/
structure SpiltBucket (w : World) (b : BucketId) (r : NodeId) (H : Nat) (w' : World) (g' : Layout)
    (R : NodeId) (H' : Nat) : Prop where
  sound : w'.Sound
  rootNode : (w'.buckets b).rootNode = some R
  tree : Committed w' g' R H'
  contents : contents w' H' R = contents w H r
  quiet : Quiet b w w'

/-- The node of level `d` has a child to be spilled. -/
def hasUnspilled (w : World) (b : BucketId) : Nat → NodeId → Bool
  | 0, _ => false
  | _ + 1, n => (w.inodes n).any fun i => decide (Unspilled w b i.kid)

/-- The calls that are interrupted at the children of level `d` in the rest `l` of the inodes of a
branch can go on, if the branch keeps `c` inodes. When a call stands at a child, the children before
it have become `k` inodes. It has no index left to visit, or all of its indices are among those that
are kept. If the child itself has children to be spilled, then the call for the child enters it
again later, so it must be among those that are kept. -/
def loopsFit (w : World) (b : BucketId) (d c : Nat) : Nat → List Inode → Bool
  | _, [] => true
  | k, x :: l =>
    (!decide (Unspilled w b x.kid) || decide (k + 1 + l.length ≤ c) ||
      (l.isEmpty && !hasUnspilled w b d x.kid)) &&
        loopsFit w b d c (k + (spread w b d [x]).length) l

/-- In the tree under `n`, the calls of `node.finalize` that are interrupted by the spilling of a
child find what they need when they go on. -/
def spillFits (w : World) (b : BucketId) : Nat → NodeId → Bool
  | 0, _ => true
  | d + 1, n =>
    ((w.inodes n).all fun i => !decide (Unspilled w b i.kid) || spillFits w b d i.kid) &&
      (!hasUnspilled w b (d + 1) n || (Node.fitsOneNode false (firstPiece w b d n) &&
        loopsFit w b d (firstPiece w b d n).length 0 (w.inodes n)))

section
variable {w w' : World} {b : BucketId} {g g' : Layout} {r n p : NodeId} {H d k i : Nat}
  {K : Set NodeId} {x : Inode}

/-! ## What is spilled is left alone -/

lemma setNode_self (w : World) (n : NodeId) : w.setNode n (w.nodes n) = w := by
  simp [World.setNode]

lemma finalize_spilled (hb : (w.nodes n).bucket = some b) (hs : (w.nodes n).spilled = true) :
    Node.finalize (k + 1) n w = (.ok (), w) := by
  unfold Node.finalize nodeOf
  rw [Prog.read_bind, hb]
  change (if (w.nodes n).spilled = true then pure () else _ : Go Unit) w = _
  rw [if_pos hs]
  rfl

/-- `node.finalize` of a node that is to be spilled. -/
lemma finalize_unspilled (hb : (w.nodes n).bucket = some b) (hs : (w.nodes n).spilled = false) :
    Node.finalize (k + 1) n w =
      (Prog.each (Node.finalizeChild (Node.finalize k) n)
        (List.range (w.inodes n).length) >>= fun _ =>
        (Node.split k n >>= fun nodes => Prog.each Node.finalizePiece nodes) >>= fun _ =>
          Node.finalizeParent k n) w := by
  conv_lhs => unfold Node.finalize nodeOf
  rw [Prog.read_bind, hb]
  change (if (w.nodes n).spilled = true then pure () else _ : Go Unit) w = _
  rw [if_neg (by simp [hs])]
  simp only [bind_assoc]
  rfl

/-- The pass of the loop for a child. -/
lemma finalizeChild_eq (f : NodeId → Go Unit) (hb : (w.nodes n).bucket = some b)
    (hx : (w.inodes n)[i]? = some x) (hc : x.child = some p) :
    Node.finalizeChild f n i w =
      (if p ∈ (w.buckets b).dirty then f p else pure () : Go Unit) w := by
  obtain ⟨key, value, child⟩ := x
  subst hc
  unfold Node.finalizeChild inodesOf nodeOf bucketOf
  rw [Prog.read_bind, hx]
  dsimp only
  rw [Prog.read_bind, hb]
  rfl

/-- The pass for a child that is not to be spilled. -/
lemma finalizeChild_skip (hb : (w.nodes n).bucket = some b) (hx : (w.inodes n)[i]? = some x)
    (hc : ∀ c, x.child = some c → c ∈ (w.buckets b).dirty →
      (w.nodes c).bucket = some b ∧ (w.nodes c).spilled = true) :
    Node.finalizeChild (Node.finalize (k + 1)) n i w = (.ok (), w) := by
  rcases hch : x.child with _ | c
  · obtain ⟨key, value, child⟩ := x
    subst hch
    unfold Node.finalizeChild inodesOf
    rw [Prog.read_bind, hx]
    rfl
  · rw [finalizeChild_eq _ hb hx hch]
    split
    next hd =>
      obtain ⟨hcb, hcs⟩ := hc c hch hd
      exact finalize_spilled hcb hcs
    next => rfl

lemma split_of_fits (hf : Node.fitsOneNode (w.nodes n).isLeaf (w.inodes n) = true) :
    Node.split (k + 1) n w = (.ok [n], w) := by
  unfold Node.split
  rw [Prog.bind_ok (splitTwo_eq_none hf)]
  rfl

/-- Putting what is there. -/
lemma put_noop (hw : w.Sound) (hp : p < w.nextNode) {l1 l2 : List Inode} {y : Inode}
    (hins : w.inodes p = l1 ++ y :: l2)
    (hs : (w.inodes p).Pairwise fun i j => i.key < j.key) (hk : y.key ≠ []) :
    Node.put p y.key y.key y.value y.child w = (.ok (), w) := by
  have hlen := hw.length_inodes hp
  rw [hins, List.pairwise_append, List.pairwise_cons] at hs
  have hidx : Node.childIndex (w.inodes p) y.key = l1.length := by
    rw [hins]
    refine childIndex_append (fun j hj => hs.2.2 j hj y (by simp)) fun j hj => ?_
    rcases List.mem_cons.1 hj with rfl | hj
    · exact le_rfl
    · exact (hs.2.1.1 j hj).le
  have hpos : 0 < y.key.length := List.length_pos_iff.2 hk
  have hlt : l1.length < (w.inodes p).length := by simp [hins]
  have hget : (w.inodes p)[l1.length]? = some y := by simp [hins]
  have hroom : Node.makeRoom p y.key l1.length w = (.ok (), w) := by
    unfold Node.makeRoom inodesOf
    rw [Prog.read_bind, if_pos ⟨by omega, hlt, by simp [List.getD_eq_getElem?_getD, hget]⟩]
    rfl
  have hmod : modifyInode p l1.length (fun _ => ⟨y.key, y.value, y.child⟩) w = (.ok (), w) := by
    unfold modifyInode
    rw [Prog.read_bind, if_pos (by omega), write_eq hw.cut]
    have harr : (w.arrays (w.nodes p).inodes.arr)[l1.length]? = some y := by
      have := hget
      unfold World.inodes at this
      rwa [List.getElem?_take_of_lt (by omega)] at this
    have hm :
        (w.arrays (w.nodes p).inodes.arr).modify l1.length (fun _ => ⟨y.key, y.value, y.child⟩) =
        w.arrays (w.nodes p).inodes.arr := by
      refine List.ext_getElem? fun j => ?_
      rw [List.getElem?_modify]
      by_cases e : l1.length = j
      · subst e
        simp [harr]
      · simp [e]
    simp only [World.setArr, hm, Function.update_eq_self]
  unfold Node.put inodesOf
  rw [if_neg (by omega), if_neg (by omega), Prog.read_bind, hidx, Prog.bind_ok hroom,
    Prog.bind_ok hmod, Prog.assert_pos hpos]
  rfl

/-- Entering a spilled node again. -/
lemma finalizePiece_noop (hw : w.Sound) (hs : (w.nodes n).spilled = true)
    (hp : ∀ p, (w.nodes n).parent = some p → p < w.nextNode ∧ FirstKey w n ∧ (w.nodes n).key ≠ [] ∧
      (w.inodes p).Pairwise (fun i j => i.key < j.key) ∧
      ⟨(w.nodes n).key, none, some n⟩ ∈ w.inodes p) :
    Node.finalizePiece n w = (.ok (), w) := by
  have e1 : modifyNode n (fun nd => { nd with spilled := true }) w = (.ok (), w) := by
    unfold modifyNode
    rw [write_eq hw.cut]
    have hself : (fun nd : Node => { nd with spilled := true }) (w.nodes n) = w.nodes n := by
      dsimp only
      rw [← hs]
    rw [hself, setNode_self]
  unfold Node.finalizePiece nodeOf inodesOf
  rw [Prog.bind_ok e1, Prog.read_bind]
  rcases hpar : (w.nodes n).parent with _ | p
  · rfl
  · obtain ⟨hplt, ⟨j, l, hins, hkey⟩, hkne, hsort, hmem⟩ := hp p hpar
    obtain ⟨l1, l2, hpi⟩ := List.append_of_mem hmem
    have hput := put_noop hw hplt hpi hsort hkne
    have hpos : 0 < (w.nodes n).key.length := List.length_pos_iff.2 hkne
    have e2 : modifyNode n (fun nd => { nd with key := (w.nodes n).key }) w = (.ok (), w) := by
      unfold modifyNode
      rw [write_eq hw.cut, setNode_self]
    dsimp only
    rw [Prog.read_bind, hins, if_neg (by simp), if_neg (by omega : ¬ (w.nodes n).key.length = 0),
      if_neg (by omega), if_neg (by simp)]
    simp only [List.getD_cons_zero, ← hkey]
    rw [Prog.bind_ok hput, Prog.read_bind, hins, if_neg (by simp)]
    simp only [List.getD_cons_zero, ← hkey]
    have hpos' : 0 < ((j :: l).getD 0 default).key.length := by
      rw [List.getD_cons_zero, ← hkey]
      exact hpos
    rw [Prog.bind_ok e2, Prog.assert_pos hpos']
    rfl

namespace Spilling

/-- The children of a node that are not to be spilled are passed over. -/
lemma skip (h : Spilling w b g r H K) (hn : g.lvl n = some d) (hd : n ∈ (w.buckets b).dirty)
    (hx : (w.inodes n)[i]? = some x) (hk : ∀ e, d = e + 1 → ¬ Unspilled w b x.kid) :
    Node.finalizeChild (Node.finalize (k + 1)) n i w = (.ok (), w) := by
  refine finalizeChild_skip (h.owned n d hn hd) hx fun c hc hcd => ?_
  have hmem := List.mem_of_getElem? hx
  cases d with
  | zero =>
    rw [((h.tree.leaf n hn).entry x hmem).child] at hc
    cases hc
  | succ e =>
    have hb := h.tree.branch n e hn
    have hkid := hb.child x hmem
    rw [hkid] at hc
    cases hc
    refine ⟨h.owned _ e (hb.lvl x hmem) hcd, ?_⟩
    by_contra hs
    exact hk e rfl ⟨hcd, by simpa using hs⟩

/-- The loop over the children of a node none of which is to be spilled. -/
lemma skipAll (h : Spilling w b g r H K) (hn : g.lvl n = some d) (hd : n ∈ (w.buckets b).dirty)
    (hk : ∀ e, d = e + 1 → ∀ i ∈ w.inodes n, ¬ Unspilled w b i.kid) {l : List Nat}
    (hl : ∀ i ∈ l, i < (w.inodes n).length) :
    Prog.each (Node.finalizeChild (Node.finalize (k + 1)) n) l w = (.ok (), w) := by
  refine Prog.each_noop fun i hi => ?_
  have hx := List.getElem?_eq_getElem (hl i hi)
  exact h.skip hn hd hx fun e he => hk e he _ (List.getElem_mem _)

end Spilling

namespace Finalized
variable {R : NodeId} {H' : Nat}

/-- In a spilled tree, the rest of an interrupted call on a branch does nothing. -/
lemma resume (h : Finalized w b g r H K w' g' R H') (hK : n ∈ K) {l : List Nat}
    (hl : ∀ i ∈ l, i < (w'.inodes n).length) :
    (Prog.each (Node.finalizeChild (Node.finalize (k + 1)) n) l >>= fun _ =>
      (Node.split (k + 1) n >>= fun nodes => Prog.each Node.finalizePiece nodes) >>= fun _ =>
        Node.finalizeParent (k + 1) n) w' = (.ok (), w') := by
  obtain ⟨hd, e, hn⟩ := h.state.active_dirty n hK
  have hb := h.state.tree.branch n e hn
  have hkids : ∀ i ∈ w'.inodes n, ¬ Unspilled w' b i.kid := fun i hi => h.done _ e (hb.lvl i hi)
  have hspilled : ∀ m c, g'.lvl m = some c → m ∈ (w'.buckets b).dirty →
      (w'.nodes m).spilled = true := by
    intro m c hm hmd
    by_contra hs
    exact h.done m c hm ⟨hmd, by simpa using hs⟩
  have hpiece : Node.finalizePiece n w' = (.ok (), w') := by
    refine finalizePiece_noop h.state.sound (hspilled n _ hn hd) fun p hp => ?_
    have hnr : n ≠ R := by
      rintro rfl
      rw [h.state.root_parent] at hp
      cases hp
    rw [(h.state.active_parent n hK hnr).1] at hp
    cases hp
    obtain ⟨hpl, l1, j, l2, hins, hj⟩ := h.state.tree.place hn hnr
    have hbp := h.state.tree.branch _ _ hpl
    have hjm : j ∈ w'.inodes (g'.par n) := by simp [hins]
    have hkey := hbp.key j hjm
    rw [hj] at hkey
    refine ⟨h.state.tree.alloc _ _ hpl, h.state.first n _ hn (h.done n _ hn) hnr,
      hkey ▸ hbp.key_ne j hjm, hbp.sorted, ?_⟩
    have : j = ⟨(w'.nodes n).key, none, some n⟩ := by
      rw [hkey, ← hbp.value j hjm, ← hj, ← hbp.child j hjm]
    rwa [← this]
  rw [Prog.bind_ok (h.state.skipAll hn hd (fun _ _ => hkids) hl)]
  have hfits : Node.fitsOneNode (w'.nodes n).isLeaf (w'.inodes n) = true := by
    rw [h.state.tree.isLeaf_false hn]
    exact h.state.active_spilled n hK e hn (h.done n _ hn)
  have htwo : (Node.split (k + 1) n >>= fun nodes => Prog.each Node.finalizePiece nodes) w' =
      (.ok (), w') := by
    rw [Prog.bind_ok (split_of_fits hfits)]
    exact Prog.bind_ok hpiece
  rw [Prog.bind_ok htwo]
  unfold Node.finalizeParent nodeOf
  rw [Prog.read_bind]
  by_cases hnr : n = R
  · rw [hnr, h.state.root_parent]
    rfl
  · obtain ⟨hp, hpd⟩ := h.state.active_parent n hK hnr
    rw [hp]
    dsimp only
    rw [Prog.read_bind, if_pos (hspilled _ _ (h.state.tree.place hn hnr).1 hpd)]
    rfl

end Finalized

/-! ## The root -/

/-- Only the flags of the root have changed. -/
structure Flagged (w : World) (r : NodeId) (w' : World) : Prop where
  rest : w' = { w with nodes := w'.nodes }
  self : w'.nodes r = { w.nodes r with spilled := true }
  other : ∀ m, m ≠ r → w'.nodes m = w.nodes m
  sound : w'.Sound

lemma Flagged.inodes (h : Flagged w r w') (m : NodeId) : w'.inodes m = w.inodes m := by
  have harr : w'.arrays = w.arrays := by rw [h.rest]
  unfold World.inodes
  rw [harr]
  by_cases e : m = r
  · rw [e, h.self]
  · rw [h.other m e]

/-- Marking a root as spilled. -/
lemma finalizePiece_root (hw : w.Sound) (hr : r < w.nextNode) (hp : (w.nodes r).parent = none) :
    ∃ w', Node.finalizePiece r w = (.ok (), w') ∧ Flagged w r w' := by
  obtain ⟨e, s, -⟩ := setFields_eq (f := fun nd => { nd with spilled := true }) hw hr rfl
  refine ⟨_, ?_, rfl, by simp [World.setNode], fun m hm => by simp [World.setNode, hm], s⟩
  unfold Node.finalizePiece nodeOf
  rw [Prog.bind_ok e, Prog.read_bind]
  have hp' : ((w.setNode r { w.nodes r with spilled := true }).nodes r).parent = none := by
    simpa [World.setNode] using hp
  rw [hp']
  rfl

lemma topOf_root (h : (w.nodes r).parent = none) : ∀ᶠ k in atTop, Bucket.topOf k w r = .ok r :=
  eventually_succ (Eventually.of_forall fun _ => trivial) fun k _ => by
    unfold Bucket.topOf
    rw [h]

lemma topOf_parent (h : (w.nodes n).parent = some p)
    (hp : ∀ᶠ k in atTop, Bucket.topOf k w p = .ok r) : ∀ᶠ k in atTop, Bucket.topOf k w n = .ok r :=
  eventually_succ hp fun k hk => by
    unfold Bucket.topOf
    rw [h]
    exact hk

/-- The root is the last node to be spilled. -/
lemma Spilling.flag (h : Spilling w b g r H K) (hf : Flagged w r w')
    (hk : ∀ e, H = e + 1 → ∀ i ∈ w.inodes r, ¬ Unspilled w b i.kid)
    (hfit : Node.fitsOneNode (w.nodes r).isLeaf (w.inodes r) = true) :
    Finalized w b g r H K w' g r H := by
  have hbk : w'.buckets = w.buckets := by rw [hf.rest]
  have hnext : w'.nextNode = w.nextNode := by rw [hf.rest]
  have hbut : ∀ m, w'.nodes m = { w.nodes m with spilled := (w'.nodes m).spilled } := by
    intro m
    by_cases e : m = r
    · rw [e, hf.self]
    · rw [hf.other m e]
  have hs : SameBut g ∅ w w' :=
    ⟨hnext.ge, fun m _ _ _ => by rw [hbut m], fun m _ _ _ => by rw [hbut m],
    fun m _ _ _ => hf.inodes m⟩
  have hdone : ∀ n d, g.lvl n = some d → ¬ Unspilled w' b n := by
    intro n d hn hu
    by_cases e : n = r
    · rw [Unspilled, e, hf.self] at hu
      exact absurd hu.2 (by simp)
    · rw [Unspilled, hbk, hf.other n e] at hu
      exact h.only_root hk hn e hu
  refine ⟨⟨hf.sound, h.tree.same hs, by rw [hbk, hnext]; exact h.alloc, fun n d hn hd => ?_,
    by rw [hbk]; exact h.root_dirty, by rw [hbut r]; exact h.root_parent,
    fun n d hn hu => absurd hu (hdone n d hn), fun n d hn hu => absurd hu (hdone n d hn),
    fun n d hn _ hnr => ?_, fun n d hn => by rw [hf.inodes]; exact h.two n d hn,
    fun n hn hnr => by rw [hf.inodes]; exact h.leaf_ne n hn hnr,
    fun n d hn hu => absurd hu (hdone n _ hn), by rw [hbk]; exact h.active_dirty,
    fun n hK hnr => by rw [hbut n, hbk]; exact h.active_parent n hK hnr,
    fun n _ d hn hu => absurd hu (hdone n _ hn), fun n hK d hn _ => ?_,
    fun p d hp hu => absurd hu (hdone p _ hp), fun p d hp hu => absurd hu (hdone p _ hp)⟩, hdone,
    h.tree.contents_same hs h.tree.lvl_root, ?_, by rw [hbk],
    topOf_root (by rw [hbut r]; exact h.root_parent), fun m d hm _ => hf.inodes m,
    fun m d hm hu => ?_⟩
  · rw [hbut n]
    rw [hbk] at hd
    exact h.owned n d hn hd
  · obtain ⟨j, l, hins, hkey⟩ := h.first n d hn (h.only_root hk hn hnr) hnr
    exact ⟨j, l, by rw [hf.inodes, hins], by rw [hbut n]; exact hkey⟩
  · rw [hf.inodes]
    by_cases hnr : n = r
    · subst hnr
      rw [h.tree.isLeaf_false hn] at hfit
      exact hfit
    · exact h.active_spilled n hK d hn (h.only_root hk hn hnr)
  · rw [hf.rest]
    exact ⟨rfl, rfl, rfl, rfl, rfl, fun _ _ => rfl, rfl, rfl, rfl⟩
  · obtain rfl : m = r := by
      by_contra hmr
      exact h.only_root hk hm hmr hu
    have hkids := hk d (Option.some.inj (h.tree.lvl_root.symm.trans hm))
    rw [hf.inodes, h.firstPiece_eq hm hkids (Node.pieces_of_fits hfit).symm, List.length_map]

/-! ## New roots -/

/-- A root that is not cut is the end. -/
lemma Spilling.finish (h : Spilling w b g r H K) (hu : Unspilled w b r)
    (hk : ∀ e, H = e + 1 → ∀ i ∈ w.inodes r, ¬ Unspilled w b i.kid)
    (hf : Node.fitsOneNode (w.nodes r).isLeaf (w.inodes r) = true) :
    ∃ w', Evals (fun k => Node.finalize k r) w () w' ∧ Flagged w r w' := by
  obtain ⟨w', e, hfl⟩ := finalizePiece_root h.sound (h.tree.alloc r H h.tree.lvl_root) h.root_parent
  refine ⟨w', ?_, hfl⟩
  filter_upwards [eventually_ge_atTop 2] with k hk2
  obtain ⟨k, rfl⟩ := Nat.exists_eq_add_of_le' hk2
  have hpieces : (Node.split (k + 1) r >>= fun nodes => Prog.each Node.finalizePiece nodes) w =
      (.ok (), w') := by
    rw [Prog.bind_ok (split_of_fits hf)]
    exact Prog.bind_ok e
  rw [finalize_unspilled (h.owned r H h.tree.lvl_root hu.1) hu.2,
    Prog.bind_ok (h.skipAll h.tree.lvl_root hu.1 hk fun i hi => List.mem_range.1 hi),
    Prog.bind_ok hpieces]
  unfold Node.finalizeParent nodeOf
  rw [Prog.read_bind, hfl.self, h.root_parent]
  rfl

/-- The root `r` was cut into the pieces `x` and `qs`, which stand under the new root `w.nextNode`.
In `w1` the new root has been made. -/
structure RootSpilt (w : World) (b : BucketId) (g : Layout) (r : NodeId) (H : Nat) (K : Set NodeId)
    (w1 : World) (x : List Inode) (qs : List (NodeId × List Inode)) (w' : World) (g' : Layout) :
    Prop where
  before : Spilling w b g r H K
  unspilled : Unspilled w b r
  kids : ∀ e, H = e + 1 → ∀ i ∈ w.inodes r, ¬ Unspilled w b i.kid
  not_fits : Node.fitsOneNode (w.nodes r).isLeaf (w.inodes r) = false
  planted : Planted w b r w1
  spilt : Spilt w1 b r w.nextNode ((r, x) :: qs) w'
  pieces : x :: qs.map Prod.snd = Node.pieces (w.nodes r).isLeaf (w1.threshold b) (w.inodes r)
  parent : w'.inodes w.nextNode = ((r, x) :: qs).map stub
  tree : TreeOK w' g' w.nextNode (H + 1)
  lvl : ∀ m, g'.lvl m = if m = w.nextNode then some (H + 1) else if m ∈ qs.map Prod.fst then some H
    else g.lvl m

namespace RootSpilt
variable {w1 : World} {qs : List (NodeId × List Inode)} {y : List Inode}
variable (h : RootSpilt w b g r H K w1 y qs w' g')
include h

lemma two_le : 2 ≤ (w.inodes r).length := by
  have := Node.two_mul_lt_of_not_fits h.not_fits
  have := Node.minKeys_pos (w.nodes r).isLeaf
  omega

lemma mem_pieces {z : NodeId × List Inode} (hz : z ∈ (r, y) :: qs) :
    z.2 ∈ Node.pieces (w.nodes r).isLeaf (w1.threshold b) (w.inodes r) := by
  rw [← h.pieces, ← List.map_cons (f := Prod.snd) (a := (r, y))]
  exact List.mem_map_of_mem hz

lemma piece_ne {z : NodeId × List Inode} (hz : z ∈ (r, y) :: qs) : z.2 ≠ [] :=
  Node.ne_nil_of_mem_pieces (by rintro e; simpa [e] using h.two_le) z.2 (h.mem_pieces hz)

/-- A node of the new tree is the new root, a piece of the old root or another old node. -/
lemma lvl_cases {m : NodeId} {e : Nat} (hm : g'.lvl m = some e) :
    (m = w.nextNode ∧ e = H + 1) ∨ (∃ z ∈ (r, y) :: qs, m = z.1 ∧ e = H) ∨
      (g.lvl m = some e ∧ m ≠ r ∧ m ≠ w.nextNode) := by
  rw [h.lvl] at hm
  split at hm
  next e => exact .inl ⟨e, (Option.some.inj hm).symm⟩
  next hmP =>
    refine .inr ?_
    split at hm
    next hc =>
      obtain ⟨z, hz, rfl⟩ := List.mem_map.1 hc
      exact .inl ⟨z, .tail _ hz, rfl, (Option.some.inj hm).symm⟩
    next =>
      by_cases er : m = r
      · subst er
        rw [h.before.tree.lvl_root] at hm
        exact .inl ⟨(m, y), by simp, rfl, (Option.some.inj hm).symm⟩
      · exact .inr ⟨hm, er, hmP⟩

/-- The other nodes are as before. -/
lemma node_old {m : NodeId} (hm : m < w.nextNode) (hmr : m ≠ r) : w'.nodes m = w.nodes m := by
  rw [h.spilt.other m (by rw [h.planted.nextNode]; exact hm.trans (Nat.lt_succ_self _)) hmr hm.ne,
    h.planted.other m hm hmr]

lemma arr_planted {m : NodeId} (hm : m < w.nextNode) : w1.arr m = w.arr m := by
  unfold World.arr
  by_cases e : m = r
  · rw [e, h.planted.self]
  · rw [h.planted.other m hm e]

/-- The array of the new root is new. -/
lemma arr_ne {m : NodeId} (hm : m < w.nextNode) : w.arr m ≠ w'.arr w.nextNode := by
  rcases h.spilt.arr with e | e
  · rw [e]
    exact ((h.before.sound.arr_lt m hm).trans_le h.planted.arr).ne
  · rw [← h.arr_planted hm]
    refine ((h.planted.sound.arr_lt m ?_).trans_le e).ne
    rw [h.planted.nextNode]
    exact hm.trans (Nat.lt_succ_self _)

lemma inodes_old {m : NodeId} {e : Nat} (hm : g.lvl m = some e) (hmr : m ≠ r) :
    w'.inodes m = w.inodes m := by
  have hlt := h.before.tree.alloc m e hm
  have hr := h.before.tree.alloc r H h.before.tree.lvl_root
  have hsep := h.before.sep r H h.before.tree.lvl_root h.unspilled m e hm hmr
  rw [h.spilt.view m (by rw [h.planted.nextNode]; exact hlt.trans (Nat.lt_succ_self _)) hmr hlt.ne
    (by rw [h.arr_planted hlt, h.arr_planted hr]; exact hsep)
    (by
      rw [h.arr_planted hlt]
      exact ((h.before.sound.arr_lt m hlt).trans_le h.planted.arr).ne), h.planted.view m hlt]

/-- The dirty nodes. -/
lemma dirty (m : NodeId) :
    m ∈ (w'.buckets b).dirty ↔
      m ∈ (w.buckets b).dirty ∨ m = w.nextNode ∨ m ∈ qs.map Prod.fst := by
  rw [h.spilt.dirty, h.planted.bucket]
  simp only [Finset.mem_insert, List.tail_cons]
  tauto

/-- Only the new root is still to be spilled. -/
lemma not_unspilled {m : NodeId} {e : Nat} (hm : g'.lvl m = some e) (hmP : m ≠ w.nextNode) :
    ¬ Unspilled w' b m := by
  intro hu
  rcases h.lvl_cases hm with ⟨e, -⟩ | ⟨z, hz, rfl, -⟩ | ⟨hm, hmr, -⟩
  · exact hmP e
  · rw [Unspilled, (h.spilt.piece z hz).2.2.1] at hu
    exact absurd hu.2 (by simp)
  · have hlt := h.before.tree.alloc m _ hm
    rw [Unspilled, h.node_old hlt hmr, h.dirty] at hu
    have hd : m ∈ (w.buckets b).dirty := by
      refine hu.1.resolve_right fun hc => ?_
      rcases hc with rfl | hc
      · exact hmP rfl
      · obtain ⟨z, hz, rfl⟩ := List.mem_map.1 hc
        have := (h.spilt.new z hz).1
        rw [h.planted.nextNode] at this
        exact absurd (hlt.trans (Nat.lt_succ_self _)) (not_lt.2 this)
    exact h.before.only_root h.kids hm hmr ⟨hd, hu.2⟩

lemma length_parent : (w'.inodes w.nextNode).length =
    (Node.pieces (w.nodes r).isLeaf (w1.threshold b) (w.inodes r)).length := by
  rw [h.parent, ← h.pieces]
  simp

lemma threshold_eq : w1.threshold b = w.threshold b := by
  unfold World.threshold
  rw [h.planted.quiet.rt, h.planted.quiet.fillPercent]

/-- The old root keeps the piece that was expected. -/
lemma firstPiece_root (hr : g.lvl r = some (d + 1)) :
    firstPiece w b d r = y.map fun i => keyInode i.key := by
  have hpieces : y :: qs.map Prod.snd =
      Node.pieces (w.nodes r).isLeaf (w.threshold b) (w.inodes r) := by
    rw [h.pieces, h.threshold_eq]
  refine h.before.firstPiece_eq hr (h.kids d ?_) hpieces
  exact Option.some.inj (h.before.tree.lvl_root.symm.trans hr)

/-- Nodes of the old tree are in the new one. -/
lemma lvl_old {m : NodeId} {e : Nat} (hm : g.lvl m = some e) : g'.lvl m = some e := by
  have hlt := h.before.tree.alloc m e hm
  have hnew : m ∉ qs.map Prod.fst := by
    intro hc
    obtain ⟨z, hz, rfl⟩ := List.mem_map.1 hc
    have := (h.spilt.new z hz).1
    rw [h.planted.nextNode] at this
    exact absurd (hlt.trans (Nat.lt_succ_self _)) (not_lt.2 this)
  rw [h.lvl, if_neg hlt.ne, if_neg hnew, hm]

/-- The old root stands under the new one. -/
lemma par_root : g'.par r = w.nextNode :=
  (h.tree.branch _ H h.tree.lvl_root).par (stub (r, y)) (by rw [h.parent]; simp)

/-- A child on which `node.finalize` is active stays with its parent. -/
lemma par_active {m : NodeId} (hK : m ∈ K) (hmr : m ≠ r) : g'.par m = g.par m := by
  obtain ⟨-, e, he⟩ := h.before.active_dirty m hK
  obtain ⟨hpl, a, j, c, hins, hj⟩ := h.before.tree.place he hmr
  have hmem : j ∈ w'.inodes (g.par m) := by
    by_cases ec : g.par m = r
    · -- the root was cut, and its child is in the first piece
      rw [ec] at hpl hins ⊢
      have hH := Option.some.inj (h.before.tree.lvl_root.symm.trans hpl)
      have hlt := h.before.active_place r _ hpl h.unspilled a j c hins (hj ▸ hK)
      rw [spread_eq fun i hi => h.kids _ hH i (by simp [hins, hi]), h.firstPiece_root hpl,
        List.length_map, List.length_map] at hlt
      have hflat : w.inodes r = y ++ (qs.map Prod.snd).flatten := by
        rw [← List.flatten_cons, h.pieces, Node.flatten_pieces]
      rw [(h.spilt.piece (r, y) (by simp)).2.2.2.2.2]
      exact mem_of_append_eq (hflat.symm.trans hins) hlt
    · rw [h.inodes_old hpl ec, hins]
      simp
  have hpar := (h.tree.branch _ _ (h.lvl_old hpl)).par j hmem
  rwa [hj] at hpar

/-- The state with the new root. -/
lemma spilling : Spilling w' b g' w.nextNode (H + 1) K := by
  have ht := h.before.tree
  have hold : ∀ m e, g.lvl m = some e → m < w.nextNode := fun m e hm => ht.alloc m e hm
  have hP : w'.nodes w.nextNode =
      { w1.nodes w.nextNode with inodes := (w'.nodes w.nextNode).inodes } :=
    h.spilt.parent
  rw [h.planted.parent] at hP
  refine ⟨h.spilt.sound, h.tree, fun m hm => ?_, fun m e hm hd => ?_,
    (h.dirty _).2 (.inr (.inl rfl)), by rw [hP],
    fun m e hm hu hmP => absurd hu (h.not_unspilled hm hmP), fun m e hm hu m' e' hm' hne => ?_,
    fun m e hm _ hmP => ?_, fun m e hm => ?_, fun m hm hmP => ?_, fun m e hm hu hk => ?_,
    fun m hK => ?_, fun m hK hmP => ?_, fun m hK e hm hu => ?_, fun m hK e hm hu => ?_,
    fun p e hp hu a z c hz hK => ?_, fun p e hp hu a z c hz hzu => ?_⟩
  · have hle : w1.nextNode ≤ w'.nextNode := h.spilt.nextNode
    rw [h.planted.nextNode] at hle
    rcases (h.dirty m).1 hm with hm | rfl | hm
    · exact (h.before.alloc m hm).trans ((Nat.lt_succ_self _).trans_le hle)
    · exact hle
    · obtain ⟨z, hz, rfl⟩ := List.mem_map.1 hm
      exact (h.spilt.new z hz).2
  · rcases h.lvl_cases hm with ⟨rfl, -⟩ | ⟨z, hz, rfl, -⟩ | ⟨hm, hmr, hmP⟩
    · rw [hP]
    · exact (h.spilt.piece z hz).1
    · rw [h.node_old (hold m e hm) hmr]
      refine h.before.owned m e hm (((h.dirty m).1 hd).resolve_right ?_)
      rintro (e | hc)
      · exact hmP e
      · obtain ⟨z, hz, rfl⟩ := List.mem_map.1 hc
        have := (h.spilt.new z hz).1
        rw [h.planted.nextNode] at this
        exact absurd ((hold _ e hm).trans (Nat.lt_succ_self _)) (not_lt.2 this)
  · obtain rfl : m = w.nextNode := by
      by_contra hmP
      exact h.not_unspilled hm hmP hu
    rcases h.lvl_cases hm' with ⟨rfl, -⟩ | ⟨z, hz, rfl, -⟩ | ⟨hm', hmr', hmP'⟩
    · exact absurd rfl hne
    · exact h.spilt.arr_piece z hz
    · have := h.arr_ne (hold m' e' hm')
      unfold World.arr at this ⊢
      rwa [h.node_old (hold m' e' hm') hmr']
  · rcases h.lvl_cases hm with ⟨e, -⟩ | ⟨z, hz, rfl, -⟩ | ⟨hm, hmr, -⟩
    · exact absurd e hmP
    · obtain ⟨-, -, -, hkey, -, hins⟩ := h.spilt.piece z hz
      obtain ⟨j, l, e⟩ := List.exists_cons_of_ne_nil (h.piece_ne hz)
      exact ⟨j, l, hins.trans e, by rw [hkey, e]; rfl⟩
    · obtain ⟨j, l, hins, hkey⟩ := h.before.first m e hm
        (h.before.only_root h.kids hm hmr) hmr
      exact ⟨j, l, by rw [h.inodes_old hm hmr, hins], by rw [h.node_old (hold m e hm) hmr, hkey]⟩
  · rcases h.lvl_cases hm with ⟨rfl, -⟩ | ⟨z, hz, rfl, hd⟩ | ⟨hm, hmr, -⟩
    · rw [h.length_parent]
      exact Node.two_le_length_pieces h.not_fits
    · rw [(h.spilt.piece z hz).2.2.2.2.2]
      have hz2 := h.mem_pieces hz
      rw [ht.isLeaf_false (hd ▸ ht.lvl_root)] at hz2
      have htwo : Node.minKeys false ≤ (w.inodes r).length := h.two_le
      exact Node.length_le_of_mem_pieces htwo z.2 hz2
    · rw [h.inodes_old hm hmr]
      exact h.before.two m e hm
  · rcases h.lvl_cases hm with ⟨e, -⟩ | ⟨z, hz, rfl, -⟩ | ⟨hm, hmr, -⟩
    · exact absurd e hmP
    · rw [(h.spilt.piece z hz).2.2.2.2.2]
      exact h.piece_ne hz
    · rw [h.inodes_old hm hmr]
      exact h.before.leaf_ne m hm hmr
  · obtain ⟨i, hi, hui⟩ := hk
    have hkl := h.tree.kid hm hi
    refine absurd hui (h.not_unspilled hkl ?_)
    refine h.tree.ne_root hkl ?_
    have := h.tree.le_height hm
    omega
  · obtain ⟨hd, e, he⟩ := h.before.active_dirty m hK
    exact ⟨(h.dirty m).2 (.inl hd), e, h.lvl_old he⟩
  · obtain ⟨-, e, he⟩ := h.before.active_dirty m hK
    by_cases hmr : m = r
    · rw [hmr, h.par_root]
      exact ⟨(h.spilt.piece (r, y) (by simp)).2.2.2.2.1, (h.dirty _).2 (.inr (.inl rfl))⟩
    · obtain ⟨hmp, hpd⟩ := h.before.active_parent m hK hmr
      rw [h.par_active hK hmr, h.node_old (hold m _ he) hmr]
      exact ⟨hmp, (h.dirty _).2 (.inl hpd)⟩
  · -- the new root is not one of the old branches
    obtain ⟨-, e', he'⟩ := h.before.active_dirty m hK
    exact absurd hu (h.not_unspilled hm (hold m _ he').ne)
  · obtain ⟨-, e', he'⟩ := h.before.active_dirty m hK
    obtain rfl : e' = e := Nat.succ.inj (Option.some.inj ((h.lvl_old he').symm.trans hm))
    by_cases hmr : m = r
    · subst hmr
      have hfit := h.before.active_fits m hK e' he' h.unspilled
      rw [h.firstPiece_root he', h.before.fits_keys he'] at hfit
      · rw [(h.spilt.piece (m, y) (by simp)).2.2.2.2.2]
        exact hfit
      · intro j hj
        have hflat : (Node.pieces (w.nodes m).isLeaf (w1.threshold b) (w.inodes m)).flatten =
          w.inodes m := Node.flatten_pieces _
        rw [← hflat, ← h.pieces]
        exact List.mem_append_left _ hj
    · rw [h.inodes_old he' hmr]
      exact h.before.active_spilled m hK e' he' (h.before.only_root h.kids he' hmr)
  · obtain rfl : p = w.nextNode := by
      by_contra hmP
      exact h.not_unspilled hp hmP hu
    obtain rfl : e = H := Nat.succ.inj (Option.some.inj (hp.symm.trans h.tree.lvl_root))
    have hkids : ∀ i ∈ w'.inodes w.nextNode, ¬ Unspilled w' b i.kid := fun i hi =>
      h.not_unspilled (h.tree.kid hp hi) (h.tree.ne_root (h.tree.kid hp hi) (Nat.lt_succ_self _))
    -- the old root is the first child of the new one
    have ha : a = [] := by
      cases a with
      | nil => rfl
      | cons a0 a =>
        rw [h.parent, List.map_cons, List.cons_append, List.cons.injEq] at hz
        have hmem : z ∈ qs.map stub := by
          rw [hz.2]
          simp
        obtain ⟨q, hq, rfl⟩ := List.mem_map.1 hmem
        have hlt := h.before.alloc _ (h.before.active_dirty _ hK).1
        have hge := (h.spilt.new q hq).1
        rw [h.planted.nextNode] at hge
        exact absurd (hlt.trans (Nat.lt_succ_self _)) (not_lt.2 hge)
    obtain ⟨x, xs, hx⟩ :=
      List.exists_cons_of_ne_nil (Node.pieces_ne_nil (w'.nodes w.nextNode).isLeaf
      (w'.threshold b) (w'.inodes w.nextNode))
    have hins : w'.inodes w.nextNode ≠ [] := by
      rw [hz]
      simp
    have hne : x ≠ [] := Node.ne_nil_of_mem_pieces hins x (by rw [hx]; simp)
    have hfirst : firstPiece w' b e w.nextNode = x.map fun i => keyInode i.key := by
      unfold firstPiece
      rw [expand_eq hkids, Node.pieces_map fun i hi => size_keyInode
        ((h.tree.branch _ e hp).value i hi), ← h.tree.isLeaf_false hp, hx]
      rfl
    rw [ha, hfirst, List.length_map]
    exact List.length_pos_iff.2 hne
  · refine absurd hzu (h.not_unspilled (h.tree.kid hp (by simp [hz])) ?_)
    exact h.tree.ne_root (h.tree.kid hp (by simp [hz])) (h.tree.le_height hp)

lemma unspilled_root : Unspilled w' b w.nextNode :=
  ⟨(h.dirty _).2 (.inr (.inl rfl)), by rw [h.spilt.parent, h.planted.parent]⟩

end RootSpilt

/-- Cut a root that does not fit. -/
lemma Spilling.spillRoot (h : Spilling w b g r H K) (hu : Unspilled w b r)
    (hkids : ∀ e, H = e + 1 → ∀ i ∈ w.inodes r, ¬ Unspilled w b i.kid)
    (hf : Node.fitsOneNode (w.nodes r).isLeaf (w.inodes r) = false) :
    ∃ w1 y qs w' g', Evals (fun k => Node.split k r >>= fun nodes =>
        Prog.each Node.finalizePiece nodes) w () w' ∧
      RootSpilt w b g r H K w1 y qs w' g' ∧ contents w' (H + 1) w.nextNode = contents w H r := by
  have ht := h.tree
  have hr := ht.alloc r H ht.lvl_root
  have hbr := h.owned r H ht.lvl_root hu.1
  obtain ⟨w1, e1, h1⟩ := parentForSplit_root (b := b) h.sound hr h.root_parent
  have hnil : w.inodes r ≠ [] := by
    rintro e
    simpa [e] using Node.two_mul_lt_of_not_fits hf
  have hlt1 : w.nextNode < w1.nextNode := by
    rw [h1.nextNode]
    exact Nat.lt_succ_self _
  have hins1 := h1.view r hr
  have harr1 : w1.arr r = w.arr r := by
    unfold World.arr
    rw [h1.self]
  obtain ⟨y, qs, w', e2, hpieces, hs, hpi⟩ := splitAndEnter_eq [] [] h1.sound
    (hr.trans hlt1) hlt1 hr.ne (by rw [h1.self]; exact hbr) (by rw [h1.self])
    (by rw [harr1]; exact ((h.sound.arr_lt r hr).trans_le h1.arr).ne) (by rwa [hins1])
    (by rw [hins1]; exact ht.key_ne ht.lvl_root) (by rw [hins1]; exact ht.sorted ht.lvl_root)
    (fun y => by rw [h1.empty]; rfl) nofun nofun
  have hleaf1 : (w1.nodes r).isLeaf = (w.nodes r).isLeaf := by rw [h1.self]
  rw [hins1, hleaf1] at hpieces
  have hflat : w.inodes r = y ++ (qs.map Prod.snd).flatten := by
    rw [← List.flatten_cons, hpieces, Node.flatten_pieces]
  have hpne : ∀ z ∈ (r, y) :: qs, z.2 ≠ [] := fun z hz =>
    Node.ne_nil_of_mem_pieces hnil z.2 (by
      rw [← hpieces, ← List.map_cons (f := Prod.snd) (a := (r, y))]
      exact List.mem_map_of_mem hz)
  have hPnew : ∀ z ∈ qs, w.nextNode < z.1 := by
    intro z hz
    have := (hs.new z hz).1
    rw [h1.nextNode] at this
    exact this
  have hnew : ∀ m, w.nextNode ≤ m → g.lvl m = none := by
    intro m hm
    rcases hl : g.lvl m with _ | e
    · rfl
    · exact absurd (ht.alloc m e hl) (not_lt.2 hm)
  have hnode : ∀ m e, g.lvl m = some e → m ≠ r → w'.nodes m = w.nodes m := by
    intro m e hm hmr
    have hlt := ht.alloc m e hm
    rw [hs.other m (hlt.trans hlt1) hmr hlt.ne, h1.other m hlt hmr]
  have hnear : Near g w.nextNode r w w' := by
    refine ⟨hlt1.le.trans hs.nextNode, fun m e hm => ?_, fun m e hm hmr => by rw [hnode m e hm hmr],
      fun m e hm _ hmr => ?_⟩
    · by_cases emr : m = r
      · rw [emr, (hs.piece (r, y) (by simp)).2.1, hleaf1]
      · rw [hnode m e hm emr]
    · have hlt := ht.alloc m e hm
      have harr : w1.arr m = w.arr m := by
        unfold World.arr
        rw [h1.other m hlt hmr]
      rw [hs.view m (hlt.trans hlt1) hmr hlt.ne
        (by rw [harr, harr1]; exact h.sep r H ht.lvl_root hu m e hm hmr)
        (by rw [harr]; exact ((h.sound.arr_lt m hlt).trans_le h1.arr).ne), h1.view m hlt]
  obtain ⟨g', ht', hcont, hlvl⟩ := ht.grow w' (hnew _ le_rfl) (hlt1.trans_le hs.nextNode)
    (fun hc => by
      obtain ⟨z, hz, e⟩ := List.mem_map.1 hc
      exact absurd (hPnew z hz) (by rw [e]; exact lt_irrefl _)) hflat hnear
    (by rw [hs.parent, h1.parent])
    ⟨(List.nodup_cons.1 hs.nodup).2, fun z hz => hnew _ (hPnew z hz).le,
      fun z hz => (hs.new z hz).2,
      fun z hz => hpne z (.tail _ hz), fun z hz => (hs.piece z (.tail _ hz)).2.1.trans hleaf1,
      fun z hz => (hs.piece z (.tail _ hz)).2.2.2.1,
      fun z hz => (hs.piece z (.tail _ hz)).2.2.2.2.2,
      hpne (r, y) (by simp), (hs.piece (r, y) (by simp)).2.2.2.1,
      (hs.piece (r, y) (by simp)).2.2.2.2.2, hpi⟩
  refine ⟨w1, y, qs, w', g', ?_, ⟨h, hu, hkids, hf, h1, hs, hpieces, by rw [hpi]; simp, ht', hlvl⟩,
    hcont⟩
  filter_upwards [e2, eventually_ge_atTop 1] with k hk hk1
  obtain ⟨k, rfl⟩ := Nat.exists_eq_add_of_le' hk1
  rw [Prog.bind_apply, split_root hbr hf hr e1 h1, ← Prog.bind_apply]
  exact hk

/-- `node.finalize` of a root without children to be spilled. The root is cut, and then the new
root, which has fewer inodes, until one fits. -/
lemma Spilling.finalizeRoot (h : Spilling w b g r H K) (hu : Unspilled w b r)
    (hkids : ∀ e, H = e + 1 → ∀ i ∈ w.inodes r, ¬ Unspilled w b i.kid) :
    ∃ w' g' R H', Evals (fun k => Node.finalize k r) w () w' ∧ Finalized w b g r H K w' g' R H' ∧
      ∀ m, m < w.nextNode → m ≠ r → w'.nodes m = w.nodes m := by
  induction hl : (w.inodes r).length using Nat.strong_induction_on generalizing w g r H with
  | _ l ih =>
  rcases hf : Node.fitsOneNode (w.nodes r).isLeaf (w.inodes r) with _ | _
  · obtain ⟨w1, y, qs, w2, g2, e2, h2, hcont⟩ := h.spillRoot hu hkids hf
    have hrP : r ≠ w.nextNode := (h.tree.alloc r H h.tree.lvl_root).ne
    have hlt2 : ∀ m, m < w.nextNode → m < w2.nextNode := fun m hm =>
      hm.trans (h2.tree.alloc _ _ h2.tree.lvl_root)
    have hpar2 : (w2.nodes r).parent = some w.nextNode :=
      (h2.spilt.piece (r, y) (by simp)).2.2.2.2.1
    have hdone2 : ∀ m e, g.lvl m = some e → ¬ Unspilled w2 b m := fun m e hm =>
      h2.not_unspilled (h2.lvl_old hm) (h.tree.alloc m e hm).ne
    obtain ⟨w', g', R, H', e3, h3, ho3⟩ := ih (w2.inodes w.nextNode).length
      (by rw [h2.length_parent, ← hl]; exact Node.length_pieces h2.two_le) h2.spilling
      h2.unspilled_root (fun e he i hi => by
        have hkl := h2.tree.kid h2.tree.lvl_root hi
        exact h2.not_unspilled hkl (h2.tree.ne_root hkl (Nat.lt_succ_self _))) rfl
    have hr3 := ho3 r (hlt2 r (h.tree.alloc r H h.tree.lvl_root)) hrP
    refine ⟨w', g', R, H', ?_, ⟨h3.state, h3.done, h3.contents.trans hcont,
      (h2.planted.quiet.trans h2.spilt.quiet).trans h3.quiet, ?_, ?_, fun m e hm hmu => ?_,
      fun m e hm hmu => ?_⟩, fun m hm hmr => ?_⟩
    · refine eventually_succ ((e2.and e3).and (eventually_ge_atTop 1)) fun k hk => ?_
      obtain ⟨⟨e2, e3⟩, hk1⟩ := hk
      obtain ⟨k, rfl⟩ := Nat.exists_eq_add_of_le' hk1
      change Node.finalize (k + 1 + 1) r w = _
      rw [finalize_unspilled (h.owned r H h.tree.lvl_root hu.1) hu.2,
        Prog.bind_ok (h.skipAll h.tree.lvl_root hu.1 hkids fun i hi => List.mem_range.1 hi),
        Prog.bind_ok e2]
      unfold Node.finalizeParent nodeOf
      rw [Prog.read_bind, hpar2]
      dsimp only
      rw [Prog.read_bind, if_neg (by simp [h2.unspilled_root.2])]
      exact e3
    · rw [h3.rootNode, h2.spilt.rootNode, h2.planted.bucket]
    · exact topOf_parent (by rw [hr3]; exact hpar2) h3.top
    · have hmr : m ≠ r := by
        rintro rfl
        exact hmu hu
      rw [h3.keep m e (h2.lvl_old hm) (hdone2 m e hm), h2.inodes_old hm hmr]
    · obtain rfl : m = r := by
        by_contra hmr
        exact h.only_root hkids hm hmr hmu
      rw [h3.keep m _ (h2.lvl_old hm) (hdone2 m _ hm), (h2.spilt.piece (m, y) (by simp)).2.2.2.2.2,
        h2.firstPiece_root hm, List.length_map]
    · rw [ho3 m (hlt2 m hm) hm.ne, h2.node_old hm hmr]
  · obtain ⟨w', e, hfl⟩ := h.finish hu hkids hf
    exact ⟨w', g, r, H, e, h.flag hfl hkids hf, fun m _ hmr => hfl.other m hmr⟩

/-! ## The descent -/

/-- The first inode of a list for a child that is still to be spilled. -/
lemma exists_first_unspilled {l : List Inode} (h : ∃ i ∈ l, Unspilled w b i.kid) :
    ∃ l1 x l2, l = l1 ++ x :: l2 ∧ Unspilled w b x.kid ∧ ∀ i ∈ l1, ¬ Unspilled w b i.kid := by
  have hsome : (l.find? fun i => Unspilled w b i.kid).isSome := by
    simpa [List.find?_isSome] using h
  obtain ⟨x, hx⟩ := Option.isSome_iff_exists.1 hsome
  obtain ⟨hu, l1, l2, e, hl1⟩ := List.find?_eq_some_iff_append.1 hx
  exact ⟨l1, x, l2, e, by simpa using hu, fun i hi => by simpa using hl1 i hi⟩

/-- Everything from the first child to be spilled on. -/
lemma Spilling.descend {R : NodeId} {H' : Nat} (h : Spilling w b g r H K)
    (hn : g.lvl n = some (d + 1)) (hu : Unspilled w b n) {l1 l2 : List Inode}
    (hins : w.inodes n = l1 ++ x :: l2) (hx : Unspilled w b x.kid)
    (hl1 : ∀ i ∈ l1, ¬ Unspilled w b i.kid) (he : Node.finalize (k + 1) x.kid w = (.ok (), w'))
    (hf : Finalized w b g r H K w' g' R H') : Node.finalize (k + 2) n w = (.ok (), w') := by
  have hb := h.owned n _ hn hu.1
  have hmem : x ∈ w.inodes n := by simp [hins]
  have hK := h.active n d hn hu ⟨x, hmem, hx⟩
  have hrange : List.range (w.inodes n).length =
      List.range l1.length ++ l1.length :: (List.range l2.length).map (l1.length + 1 + ·) := by
    rw [hins, List.length_append, List.length_cons, Nat.add_comm l2.length, ← Nat.add_assoc,
      List.range_add, List.range_succ, List.append_assoc]
    rfl
  have hpass : Node.finalizeChild (Node.finalize (k + 1)) n l1.length w = (.ok (), w') := by
    rw [finalizeChild_eq _ hb (by simp [hins]) ((h.tree.branch n d hn).child x hmem), if_pos hx.1]
    exact he
  have hskip : Prog.each (Node.finalizeChild (Node.finalize (k + 1)) n) (List.range l1.length) w =
      (.ok (), w) := by
    refine Prog.each_noop fun i hi => ?_
    have hi := List.mem_range.1 hi
    exact h.skip hn hu.1 (by rw [hins, List.getElem?_append_left hi, List.getElem?_eq_getElem hi])
      fun _ _ => hl1 _ (List.getElem_mem hi)
  rw [finalize_unspilled hb hu.2, hrange, Prog.each_append, bind_assoc, Prog.bind_ok hskip,
    Prog.each, bind_assoc, Prog.bind_ok hpass]
  -- what is left of the loop is among the inodes that the branch has kept
  refine hf.resume hK fun i hi => ?_
  obtain ⟨j, hj, rfl⟩ := List.mem_map.1 hi
  have hj := List.mem_range.1 hj
  rcases h.loops n d hn hu l1 x l2 hins hx with rfl | hle
  · exact absurd hj (Nat.not_lt_zero j)
  · rw [spread_eq hl1, List.length_map, ← hf.length n d hn hu] at hle
    omega

/-- A node below the root is spilled, and the call goes on with the parent. -/
lemma Spilling.climb (h : Spilling w b g r H K) (hn : g.lvl n = some d) (hu : Unspilled w b n)
    (hnr : n ≠ r) (hpath : OnPath w b g r n)
    (hk : ∀ e, d = e + 1 → ∀ i ∈ w.inodes n, ¬ Unspilled w b i.kid)
    (hp : ∀ w1 g1, Spilling w1 b g1 r H K → (toSpill w1 b).card < (toSpill w b).card →
      OnPath w1 b g1 r (g.par n) → g1.lvl (g.par n) = some (d + 1) → Unspilled w1 b (g.par n) →
      ∃ w' g' R H', Evals (fun k => Node.finalize k (g.par n)) w1 () w' ∧
        Finalized w1 b g1 r H K w' g' R H') :
    ∃ w' g' R H', Evals (fun k => Node.finalize k n) w () w' ∧
      Finalized w b g r H K w' g' R H' := by
  obtain ⟨w1, g1, x, qs, l1, i, l2, e1, hs, hcont⟩ := h.spillNode hn hu hnr hpath hk
  obtain ⟨hpl, hpu, hpn⟩ := hs.par
  have hpu1 := (hs.unspilled_old (h.tree.alloc _ _ hpl) hpn).2 hpu
  have hpath1 := hs.onPath (h.path_parent hpath hnr hs.old_parent hs.kid).1 hpl (Nat.lt_succ_self d)
  obtain ⟨w', g', R, H', e2, hf⟩ := hp w1 g1 hs.spilling hs.card_lt hpath1 (hs.lvl_old hpl) hpu1
  refine ⟨w', g', R, H', ?_, hf.state, hf.done, hf.contents.trans hcont,
    hs.spilt.quiet.trans hf.quiet,
    hf.rootNode.trans hs.spilt.rootNode, hf.top, fun m e hm hmu => ?_, fun m e hm hmu => ?_⟩
  · refine eventually_succ ((e1.and e2).and (eventually_ge_atTop 1)) fun k hk' => ?_
    obtain ⟨⟨e1, e2⟩, hk1⟩ := hk'
    obtain ⟨k, rfl⟩ := Nat.exists_eq_add_of_le' hk1
    change Node.finalize (k + 1 + 1) n w = _
    rw [finalize_unspilled (h.owned n d hn hu.1) hu.2,
      Prog.bind_ok (h.skipAll hn hu.1 hk fun i hi => List.mem_range.1 hi), Prog.bind_ok e1]
    unfold Node.finalizeParent nodeOf
    rw [Prog.read_bind, (hs.spilt.piece (n, x) (by simp)).2.2.2.2.1]
    dsimp only
    rw [Prog.read_bind, if_neg (by simp [hpu1.2])]
    exact e2
  · have hmn : m ≠ n := by
      rintro rfl
      exact hmu hu
    have hmu1 : ¬ Unspilled w1 b m :=
      fun hc => hmu ((hs.unspilled_old (h.tree.alloc m e hm) hmn).1 hc)
    rw [hf.keep m e (hs.lvl_old hm) hmu1, hs.keep hm hmu]
  · by_cases hmn : m = n
    · -- the node has just got the piece it keeps
      subst hmn
      obtain rfl : d = e + 1 := Option.some.inj (hn.symm.trans hm)
      rw [hf.keep m _ (hs.lvl_old hm) (hs.not_unspilled (y := (m, x)) (by simp)),
        (hs.spilt.piece (m, x) (by simp)).2.2.2.2.2, h.firstPiece_eq hm (hk e rfl) hs.pieces,
        List.length_map]
    · rw [hf.length m e (hs.lvl_old hm) ((hs.unspilled_old (h.tree.alloc m _ hm) hmn).2 hmu),
        hs.firstPiece_old hm hmn]

/-- `node.finalize` of the next node to be spilled spills the tree. -/
lemma Spilling.finalize (h : Spilling w b g r H K) (hpath : OnPath w b g r n)
    (hn : g.lvl n = some d) (hu : Unspilled w b n) :
    ∃ w' g' R H', Evals (fun k => Node.finalize k n) w () w' ∧
      Finalized w b g r H K w' g' R H' := by
  induction hc : (toSpill w b).card using Nat.strong_induction_on generalizing w g n d with
  | _ c ih =>
  -- as long as the number of nodes to be spilled stays the same, the call descends
  induction d using Nat.strong_induction_on generalizing n with
  | _ d ihd =>
  by_cases hk : ∀ e, d = e + 1 → ∀ i ∈ w.inodes n, ¬ Unspilled w b i.kid
  · by_cases hnr : n = r
    · subst hnr
      obtain rfl : d = H := (Option.some.inj (h.tree.lvl_root.symm.trans hn)).symm
      obtain ⟨w', g', R, H', e, hf, -⟩ := h.finalizeRoot hu hk
      exact ⟨w', g', R, H', e, hf⟩
    · exact h.climb hn hu hnr hpath hk fun w1 g1 h1 hlt hp1 hl1 hu1 =>
        ih _ (hc ▸ hlt) h1 hp1 hl1 hu1 rfl
  · push Not at hk
    obtain ⟨e, rfl, hex⟩ := hk
    obtain ⟨l1, x, l2, hins, hx, hl1⟩ := exists_first_unspilled hex
    have hxl := (h.tree.branch n e hn).lvl x (by simp [hins])
    obtain ⟨w', g', R, H', e1, hf⟩ := ihd e (Nat.lt_succ_self e) (.kid hpath hn hins hl1) hxl hx
    refine ⟨w', g', R, H', ?_, hf⟩
    refine eventually_succ (e1.and (eventually_ge_atTop 1)) fun k hk' => ?_
    obtain ⟨k, rfl⟩ := Nat.exists_eq_add_of_le' hk'.2
    exact h.descend hn hu hins hx hl1 hk'.1 hf

/-! ## `Bucket.spill` -/

/-- A bucket that was not written has nothing to spill. -/
lemma spill_none (h : (w.buckets b).rootNode = none) (k : Nat) :
    Bucket.spill k b w = (.ok (), w) := by
  unfold Bucket.spill bucketOf
  rw [Prog.read_bind, h]
  rfl

/-- `Bucket.spill` from a state in which a tree can be spilled. -/
lemma Spilling.spill (h : Spilling w b g r H K) (hu : Unspilled w b r)
    (hroot : (w.buckets b).rootNode = some r) :
    ∃ w' g' R H', Evals (fun k => Bucket.spill k b) w () w' ∧ SpiltBucket w b r H w' g' R H' := by
  obtain ⟨w1, g1, R, H', e1, h1⟩ := h.finalize .root h.tree.lvl_root hu
  obtain ⟨w2, e2, s2, q2, r2, b2⟩ := modifyBucket_eq (b := b)
    (f := fun bk => { bk with rootNode := some R }) h1.state.sound rfl rfl rfl
  have hnodes : w2.nodes = w1.nodes := by rw [r2]
  have hnext : w2.nextNode = w1.nextNode := by rw [r2]
  have hins : ∀ n, w2.inodes n = w1.inodes n := fun n => by rw [r2]; rfl
  have hs : SameBut g1 ∅ w1 w2 :=
    ⟨hnext.ge, fun m _ _ _ => by rw [hnodes], fun m _ _ _ => by rw [hnodes], fun m _ _ _ => hins m⟩
  have ht := h1.state.tree.same hs
  refine ⟨w2, g1.exact w2 H', R, H', ?_, s2, by rw [b2], ht.committed (fun n d hn hnR => ?_)
    (fun n d hn => ?_), (h1.state.tree.contents_same hs h1.state.tree.lvl_root).trans h1.contents,
    h1.quiet.trans q2⟩
  · filter_upwards [e1, h1.top] with k hk htop
    unfold Bucket.spill bucketOf
    rw [Prog.read_bind, hroot]
    dsimp only
    rw [Prog.bind_ok hk, Prog.read_bind, h1.rootNode, hroot]
    change (Prog.query (fun w => Bucket.topOf k w r) >>= _) w1 = _
    rw [Prog.query_bind (f := fun w => Bucket.topOf k w r) htop]
    exact e2
  · obtain ⟨i, l, hi, hkey⟩ := h1.state.first n d hn (h1.done n d hn) hnR
    exact ⟨i, l, (hins n).trans hi, by rw [hnodes]; exact hkey⟩
  · rw [hins]
    exact h1.state.two n d hn

/-- The branches that have a child to be spilled. -/
def activeBranches (w : World) (b : BucketId) (g : Layout) : Set NodeId :=
  {n | ∃ d, g.lvl n = some (d + 1) ∧ Unspilled w b n ∧ ∃ i ∈ w.inodes n, Unspilled w b i.kid}

/-- In the tree of a handle, the nodes to be spilled are the dirty ones. -/
lemma HandleBut.unspilled_iff {x : Option NodeId} (h : HandleBut w b g r H x) :
    Unspilled w b n ↔ n ∈ (w.buckets b).dirty :=
  ⟨And.left, fun hd => ⟨hd, (h.dirty n hd).unspilled⟩⟩

lemma HandleBut.par_unspilled {x : Option NodeId} (h : HandleBut w b g r H x)
    (hn : g.lvl n = some d) (hu : Unspilled w b n) (hnr : n ≠ r) :
    (w.nodes n).parent = some (g.par n) ∧ Unspilled w b (g.par n) := by
  obtain ⟨hp, hd⟩ := h.parent n hu.1 d hn hnr
  exact ⟨hp, h.unspilled_iff.2 hd⟩

/-- The condition on the branches of the tree. -/
lemma HandleBut.fits {x : Option NodeId} (h : HandleBut w b g r H x) (hf : spillFits w b H r = true)
    (hn : g.lvl n = some d) (hu : Unspilled w b n) : spillFits w b d n = true := by
  refine h.tree.down_induction
    (P := fun n => ∀ d, g.lvl n = some d → Unspilled w b n → spillFits w b d n = true)
    (fun d hr _ => ?_) (fun n d hn ih i hi e hl hu => ?_) hn d hn hu
  · rw [h.tree.lvl_root] at hr
    cases hr
    exact hf
  · have hkl := h.tree.kid hn hi
    have hkr := h.tree.ne_root hkl (h.tree.le_height hn)
    obtain ⟨-, hpu⟩ := h.par_unspilled hkl hu hkr
    rw [(h.tree.branch n d hn).par i hi] at hpu
    rw [hkl] at hl
    cases hl
    have := ih (d + 1) hn hpu
    rw [spillFits, Bool.and_eq_true, List.all_eq_true] at this
    have := this.1 i hi
    simpa [hu] using this

/-- What `loopsFit` says about a child. -/
lemma loopsFit_at {c m : Nat} {l1 l2 : List Inode} (h : loopsFit w b d c m (l1 ++ x :: l2) = true)
    (hx : Unspilled w b x.kid) : m + (spread w b d l1).length + 1 + l2.length ≤ c ∨
      (l2 = [] ∧ hasUnspilled w b d x.kid = false) := by
  induction l1 generalizing m with
  | nil =>
    rw [List.nil_append, loopsFit, Bool.and_eq_true] at h
    simpa [hx, spread] using h.1
  | cons i l1 ih =>
    rw [List.cons_append, loopsFit, Bool.and_eq_true] at h
    have hrec := ih h.2
    have hlen : (spread w b d (i :: l1)).length =
        (spread w b d [i]).length + (spread w b d l1).length := by
      rw [← List.singleton_append, spread_append, List.length_append]
    rw [hlen, ← Nat.add_assoc]
    exact hrec

/-- What `spillFits` says about a branch with a child to be spilled. -/
lemma HandleBut.loops {x : Option NodeId} (h : HandleBut w b g r H x)
    (hf : spillFits w b H r = true) (hn : g.lvl n = some (d + 1)) (hu : Unspilled w b n) {i : Inode}
    (hi : i ∈ w.inodes n) (hui : Unspilled w b i.kid) :
    Node.fitsOneNode false (firstPiece w b d n) = true ∧
      loopsFit w b d (firstPiece w b d n).length 0 (w.inodes n) = true := by
  have hfit := h.fits hf hn hu
  rw [spillFits, Bool.and_eq_true, Bool.or_eq_true, Bool.and_eq_true] at hfit
  refine hfit.2.resolve_left fun hc => ?_
  have hany : hasUnspilled w b (d + 1) n = true := List.any_eq_true.2 ⟨i, hi, by simpa using hui⟩
  rw [hany] at hc
  cases hc

/-- The tree of a handle can be spilled, if it has no empty leaf and the interrupted calls can go
on. -/
lemma HandleBut.spilling (h : HandleBut w b g r H none)
    (hne : ∀ n, g.lvl n = some 0 → n ≠ r → w.inodes n ≠ []) (hf : spillFits w b H r = true) :
    Spilling w b g r H (activeBranches w b g) := by
  refine ⟨h.sound, h.tree, fun n hn => (h.dirty n hn).alloc, fun n _ _ hd => (h.dirty n hd).owned,
    h.root_dirty, h.root_parent, fun n d hn hu hnr => h.par_unspilled hn hu hnr,
    fun n d hn hu m e hm hne => h.sep n hu.1 d hn m e hm hne,
    fun n d hn hu _ => h.first n d hn (mt h.unspilled_iff.2 hu),
    fun n d hn => h.two n d hn nofun, hne,
    fun n d hn hu hk => ⟨d, hn, hu, hk⟩, fun n hK => ?_, fun n hK hnr => ?_, fun n hK d hn hu => ?_,
    fun n hK d hn hu => ?_, fun p d hp hu l1 y l2 hins hK => ?_,
    fun p d hp hu l1 y l2 hins hyu => ?_⟩
  · obtain ⟨d, hn, hu, -⟩ := hK
    exact ⟨hu.1, d, hn⟩
  · obtain ⟨d, hn, hu, -⟩ := hK
    obtain ⟨hp, hpu⟩ := h.par_unspilled hn hu hnr
    exact ⟨hp, hpu.1⟩
  · obtain ⟨-, -, -, i, hi, hui⟩ := hK
    exact (h.loops hf hn hu hi hui).1
  · obtain ⟨-, -, hu', -⟩ := hK
    exact absurd hu' hu
  · obtain ⟨e, hyl, hyu, i, hi, hui⟩ := hK
    have hloop := (h.loops hf hp hu (i := y) (by simp [hins]) hyu).2
    rw [hins] at hloop
    have hd : d = e + 1 := Option.some.inj ((h.tree.kid hp (by simp [hins])).symm.trans hyl)
    rcases loopsFit_at hloop hyu with hle | ⟨-, hno⟩
    · omega
    · have hany : hasUnspilled w b d y.kid = true := by
        rw [hd]
        exact List.any_eq_true.2 ⟨i, hi, by simpa using hui⟩
      rw [hany] at hno
      cases hno
  · have hloop := (h.loops hf hp hu (i := y) (by simp [hins]) hyu).2
    rw [hins] at hloop
    rcases loopsFit_at hloop hyu with hle | ⟨hnil, -⟩
    · exact .inr (by omega)
    · exact .inl hnil

/-- `Bucket.spill` of a handle whose tree has no empty leaf and on which the interrupted calls can
go on. -/
lemma HandleBut.spill (h : HandleBut w b g r H none)
    (hne : ∀ n, g.lvl n = some 0 → n ≠ r → w.inodes n ≠ []) (hf : spillFits w b H r = true) :
    ∃ w' g' R H', Evals (fun k => Bucket.spill k b) w () w' ∧ SpiltBucket w b r H w' g' R H' :=
  (h.spilling hne hf).spill (h.unspilled_iff.2 h.root_dirty) h.rootNode

end

end Vmbolt
