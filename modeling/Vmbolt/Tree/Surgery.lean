import Mathlib.Logic.Function.Iterate
import Vmbolt.Tree.View

/-!
# Changing a tree in one place

How a tree follows a change of the heap that touches one of its nodes: the rest of its contents
stays around the contents of that node, a leaf may get other inodes, and a child may be replaced by
a copy of itself.
-/

namespace Vmbolt

section
variable {w w' : World} {g : Layout} {root n p : NodeId} {H d e : Nat}

namespace TreeOK

lemma le_height (h : TreeOK w g root H) (hn : g.lvl n = some d) : d ≤ H := by
  by_cases e : n = root
  · subst e
    rw [h.lvl_root] at hn
    cases hn
    exact le_rfl
  · exact (h.up n d hn e).1.le

/-- Only the root is on the highest level. -/
lemma eq_root (h : TreeOK w g root H) (hn : g.lvl n = some H) : n = root := by
  by_contra hc
  exact absurd (h.up n H hn hc).1 (lt_irrefl H)

lemma ne_root (h : TreeOK w g root H) (hn : g.lvl n = some d) (hd : d < H) : n ≠ root := by
  rintro rfl
  rw [h.lvl_root] at hn
  cases hn
  exact lt_irrefl H hd

/-- The ancestors of a node. -/
lemma lvl_iterate (h : TreeOK w g root H) (hn : g.lvl n = some d) (k : Nat) (hk : d + k ≤ H) :
    g.lvl (g.par^[k] n) = some (d + k) := by
  induction k with
  | zero => exact hn
  | succ k ih =>
    rw [Function.iterate_succ_apply']
    have hk' := ih (by omega)
    exact (h.up _ _ hk' (h.ne_root hk' (by omega))).2.1

/-- The only child of a node with the identity of `i`. -/
lemma kid_ne (h : TreeOK w g root H) (hn : g.lvl n = some (d + 1)) {l1 l2 : List Inode} {i : Inode}
    (hins : w.inodes n = l1 ++ i :: l2) : ∀ j ∈ l1 ++ l2, j.kid ≠ i.kid := by
  intro j hj hk
  have hnd : (w.inodes n).Nodup := (h.branch n d hn).sorted.imp fun hlt heq => by
    rw [heq] at hlt
    exact lt_irrefl _ hlt
  have hj' : j ∈ w.inodes n := by
    rw [hins]
    simp only [List.mem_append, List.mem_cons] at hj ⊢
    tauto
  have : j = i := h.kid_inj hn hj' (by simp [hins]) hk
  subst this
  rw [hins, List.nodup_middle, List.nodup_cons] at hnd
  exact hnd.1 hj

end TreeOK

/-- A change under a node `p` does not reach the nodes on the levels above that are not its
ancestors. -/
lemma TreeOK.contents_outside (h : TreeOK w g root H) {k : Nat}
    (hsame : ∀ m d, g.lvl m = some d → (d ≤ e → g.par^[e - d] m ≠ p) → w'.inodes m = w.inodes m)
    (hn : g.lvl n = some (e + k)) (hne : n ≠ g.par^[k] p) :
    contents w' (e + k) n = contents w (e + k) n := by
  refine contents_congr (fun d m => g.lvl m = some d ∧ d ≤ e + k ∧
    g.par^[e + k - d] m ≠ g.par^[k] p) ?_ ?_ (e + k) n ⟨hn, le_rfl, by simpa using hne⟩
  · rintro d m ⟨hm, hd, hne⟩ i hi
    refine ⟨h.kid hm hi, by omega, ?_⟩
    rw [show e + k - d = (e + k - (d + 1)) + 1 by omega, Function.iterate_succ_apply,
      (h.branch m d hm).par i hi]
    exact hne
  · rintro d m ⟨hm, -, hne⟩
    refine hsame m d hm fun hd hc => hne ?_
    rw [show e + k - d = k + (e - d) by omega, Function.iterate_add_apply, hc]

/-- The contents of a tree are those of a node `p` with something before and something behind. A
change that leaves the inodes of all nodes alone that are not under `p` keeps what is around it. -/
lemma TreeOK.contents_around (h : TreeOK w g root H) (w' : World) (hp : g.lvl p = some e)
    (hsame : ∀ m d, g.lvl m = some d → (d ≤ e → g.par^[e - d] m ≠ p) → w'.inodes m = w.inodes m) :
    ∃ pre post, contents w H root = pre ++ contents w e p ++ post ∧
      contents w' H root = pre ++ contents w' e p ++ post ∧
      (∀ x ∈ pre, x.1 < g.lo p) ∧ ∀ x ∈ post, g.hi p ≤ (x.1 : WithTop Bytes) := by
  -- climb from `p` to the root
  have climb : ∀ k, e + k ≤ H → ∃ pre post,
      contents w (e + k) (g.par^[k] p) = pre ++ contents w e p ++ post ∧
      contents w' (e + k) (g.par^[k] p) = pre ++ contents w' e p ++ post ∧
      (∀ x ∈ pre, x.1 < g.lo p) ∧ (∀ x ∈ post, g.hi p ≤ (x.1 : WithTop Bytes)) ∧
      g.lo (g.par^[k] p) ≤ g.lo p ∧ g.hi p ≤ g.hi (g.par^[k] p) := by
    intro k hk
    induction k with
    | zero => exact ⟨[], [], by simp, by simp, by simp, by simp, le_rfl, le_rfl⟩
    | succ k ih =>
      obtain ⟨pre, post, h1, h2, hlt, hgt, hlo, hhi⟩ := ih (by omega)
      have hq := h.lvl_iterate hp k (by omega)
      obtain ⟨-, hn, i, hi, hik⟩ := h.up _ _ hq (h.ne_root hq (by omega))
      rw [← Function.iterate_succ_apply' g.par k p] at hn hi
      have hb := h.branch _ _ hn
      obtain ⟨l1, l2, hins⟩ := List.append_of_mem hi
      obtain ⟨hleft, hright⟩ := h.contents_beside hn hins
      rw [hik] at hleft hright
      have hself : w'.inodes (g.par^[k + 1] p) = w.inodes (g.par^[k + 1] p) :=
        hsame _ _ hn fun hd => by omega
      have hsib : ∀ j ∈ l1 ++ l2, contents w' (e + k) j.kid = contents w (e + k) j.kid := by
        intro j hj
        refine h.contents_outside hsame (hb.lvl j ?_) (hik ▸ h.kid_ne hn hins j hj)
        rw [hins]
        simp only [List.mem_append, List.mem_cons] at hj ⊢
        tauto
      refine ⟨(l1.flatMap fun j => contents w (e + k) j.kid) ++ pre,
        post ++ l2.flatMap fun j => contents w (e + k) j.kid, ?_, ?_, ?_, ?_, ?_, ?_⟩
      · change (w.inodes (g.par^[k + 1] p)).flatMap (fun i => contents w (e + k) i.kid) = _
        rw [hins]
        simp [hik, h1]
      · change (w'.inodes (g.par^[k + 1] p)).flatMap (fun i => contents w' (e + k) i.kid) = _
        rw [hself, hins, List.flatMap_append, List.flatMap_cons, hik, h2,
          List.flatMap_congr fun j hj => hsib j (List.mem_append_left l2 hj),
          List.flatMap_congr fun j hj => hsib j (List.mem_append_right l1 hj)]
        simp
      · intro x hx
        rcases List.mem_append.1 hx with hx | hx
        · exact (hleft x hx).trans_le hlo
        · exact hlt x hx
      · intro x hx
        rcases List.mem_append.1 hx with hx | hx
        · exact hgt x hx
        · exact hhi.trans (hright x hx)
      · exact (hik ▸ hb.lo_le hi).trans hlo
      · exact hhi.trans (hik ▸ hb.hi_kid i hi)
  have heH := h.le_height hp
  obtain ⟨pre, post, h1, h2, hlt, hgt, -⟩ := climb (H - e) (by omega)
  have hk : e + (H - e) = H := by omega
  have hroot : g.par^[H - e] p = root := h.eq_root (by
    rw [h.lvl_iterate hp (H - e) (by omega), hk])
  rw [hroot, hk] at h1 h2
  exact ⟨pre, post, h1, h2, hlt, hgt⟩

/-! ## Changes outside a set of nodes -/

/-- The nodes of a tree that are not in `S` have kept what matters for the tree. -/
structure SameBut (g : Layout) (S : Set NodeId) (w w' : World) : Prop where
  nextNode : w.nextNode ≤ w'.nextNode
  isLeaf : ∀ m d, g.lvl m = some d → m ∉ S → (w'.nodes m).isLeaf = (w.nodes m).isLeaf
  key : ∀ m d, g.lvl m = some d → m ∉ S → (w'.nodes m).key = (w.nodes m).key
  inodes : ∀ m d, g.lvl m = some d → m ∉ S → w'.inodes m = w.inodes m

/-- A leaf gets other inodes. -/
lemma TreeOK.setLeaf (h : TreeOK w g root H) {l : NodeId} (hs : SameBut g {l} w w')
    (hl : g.lvl l = some 0) (hleaf : (w'.nodes l).isLeaf = true)
    (hkey : (w'.nodes l).key = (w.nodes l).key) (hok : LeafOK g l (w'.inodes l)) :
    TreeOK w' g root H := by
  have hk : ∀ m d, g.lvl m = some d → (w'.nodes m).key = (w.nodes m).key := by
    intro m d hm
    by_cases e : m = l
    · rw [e, hkey]
    · exact hs.key m d hm e
  have hb : ∀ m d, g.lvl m = some (d + 1) → m ≠ l := by
    rintro m d hm rfl
    rw [hl] at hm
    cases hm
  refine ⟨h.lvl_root, fun m d hm => (h.alloc m d hm).trans_le hs.nextNode, fun m d hm => ?_,
    fun m hm => ?_, fun m d hm => ?_, fun m d hm hne => ?_⟩
  · by_cases e : m = l
    · subst e
      rw [hl] at hm
      cases hm
      simp [hleaf]
    · rw [hs.isLeaf m d hm e]
      exact h.isLeaf m d hm
  · by_cases e : m = l
    · rwa [e]
    · rw [hs.inodes m 0 hm e]
      exact h.leaf m hm
  · rw [hs.inodes m _ hm (hb m d hm)]
    have hbr := h.branch m d hm
    exact hbr.congr rfl rfl (fun _ _ => rfl) hbr.par (fun _ _ => rfl) (fun _ _ => rfl)
      fun i hi => hk _ _ (hbr.lvl i hi)
  · obtain ⟨hd, hp, hi⟩ := h.up m d hm hne
    rw [hs.inodes _ _ hp (hb _ _ hp)]
    exact ⟨hd, hp, hi⟩

lemma Exact.setLeaf (hx : Exact w g root) {l : NodeId} (hs : SameBut g {l} w w')
    (hl : g.lvl l = some 0) : Exact w' g root := by
  refine ⟨hx.lo_root, hx.hi_root, fun m d hm => ?_⟩
  have hne : m ≠ l := by
    rintro rfl
    rw [hl] at hm
    cases hm
  rw [hs.inodes m _ hm hne]
  exact hx.node m d hm

/-- The contents of a tree around a node that gets other inodes. -/
lemma TreeOK.contents_setNode (h : TreeOK w g root H) (hs : SameBut g {p} w w')
    (hp : g.lvl p = some e) :
    ∃ pre post, contents w H root = pre ++ contents w e p ++ post ∧
      contents w' H root = pre ++ contents w' e p ++ post ∧
      (∀ x ∈ pre, x.1 < g.lo p) ∧ ∀ x ∈ post, g.hi p ≤ (x.1 : WithTop Bytes) := by
  refine h.contents_around _ hp fun m d hm hne => hs.inodes m d hm ?_
  rintro rfl
  rw [hp] at hm
  cases hm
  exact hne le_rfl (by simp)

/-- The tree is left as it is. -/
lemma TreeOK.same (h : TreeOK w g root H) (hs : SameBut g ∅ w w') : TreeOK w' g root H := by
  have hno : ∀ m, m ∉ (∅ : Set NodeId) := fun m hm => hm
  refine ⟨h.lvl_root, fun m d hm => (h.alloc m d hm).trans_le hs.nextNode, fun m d hm => ?_,
    fun m hm => ?_, fun m d hm => ?_, fun m d hm hne => ?_⟩
  · rw [hs.isLeaf m d hm (hno m)]
    exact h.isLeaf m d hm
  · rw [hs.inodes m 0 hm (hno m)]
    exact h.leaf m hm
  · rw [hs.inodes m _ hm (hno m)]
    have hbr := h.branch m d hm
    exact hbr.congr rfl rfl (fun _ _ => rfl) hbr.par (fun _ _ => rfl) (fun _ _ => rfl)
      fun i hi => hs.key _ _ (hbr.lvl i hi) (hno _)
  · obtain ⟨hd, hp, hi⟩ := h.up m d hm hne
    rw [hs.inodes _ _ hp (hno _)]
    exact ⟨hd, hp, hi⟩

lemma Exact.same (hx : Exact w g root) (hs : SameBut g ∅ w w') : Exact w' g root := by
  refine ⟨hx.lo_root, hx.hi_root, fun m d hm => ?_⟩
  rw [hs.inodes m _ hm (fun h => h)]
  exact hx.node m d hm

lemma TreeOK.contents_same (h : TreeOK w g root H) (hs : SameBut g ∅ w w') (hn : g.lvl n = some d) :
    contents w' d n = contents w d n :=
  contents_congr (fun d m => g.lvl m = some d) (fun _ _ hm _ hi => h.kid hm hi)
    (fun d m hm => hs.inodes m d hm fun h => h) d n hn

/-! ## Replacing a node by a copy -/

/-- The new identity of a node when `c` is replaced by `c'`. -/
def subst (c c' n : NodeId) : NodeId := if n = c then c' else n

/-- The copy `c'` takes the place of `c`. -/
def Layout.move (g : Layout) (c c' : NodeId) : Layout where
  lvl m := if m = c then none else g.lvl (subst c' c m)
  par m := subst c c' (g.par (subst c' c m))
  lo m := g.lo (subst c' c m)
  hi m := g.hi (subst c' c m)

/-- The inode after its child has been replaced. -/
def Inode.redirect (c c' : NodeId) (i : Inode) : Inode :=
  { i with child := i.child.map (subst c c') }

/-- Inodes that do not point to `c` stay. -/
lemma map_redirect {c c' : NodeId} {l : List Inode} (h : ∀ i ∈ l, i.child ≠ some c) :
    l.map (Inode.redirect c c') = l := by
  refine (List.map_congr_left fun i hi => ?_).trans (List.map_id l)
  rcases i with ⟨k, v, _ | m⟩
  · rfl
  · have : m ≠ c := fun e => h _ hi (congrArg some e)
    simp [Inode.redirect, subst, this]

/-- The node `c` of a tree was replaced by a copy `c'`, and every node points to the copy. -/
structure Moved (w : World) (g : Layout) (c c' : NodeId) (w' : World) : Prop where
  nextNode : w.nextNode ≤ w'.nextNode
  alloc : c' < w'.nextNode
  new : g.lvl c' = none
  isLeaf : ∀ m d, g.lvl m = some d → (w'.nodes (subst c c' m)).isLeaf = (w.nodes m).isLeaf
  key : ∀ m d, g.lvl m = some (d + 1) → ∀ i ∈ w.inodes m,
    (w'.nodes (subst c c' i.kid)).key = (w.nodes i.kid).key
  inodes : ∀ m d, g.lvl m = some d →
    w'.inodes (subst c c' m) = (w.inodes m).map (Inode.redirect c c')

namespace Moved
variable {c c' m : NodeId} {k : Nat}

section
variable (hr : Moved w g c c' w')
include hr

/-- A node of the old tree is not the copy. -/
lemma ne_copy (hm : g.lvl m = some k) : m ≠ c' := by
  rintro rfl
  rw [hr.new] at hm
  cases hm

lemma subst_subst (hm : g.lvl m = some k) : subst c' c (subst c c' m) = m := by
  have := hr.ne_copy hm
  unfold subst
  by_cases e : m = c <;> simp [e, this]

/-- The new layout gives to the new identity of a node what the old one gave to the node. -/
lemma lvl_subst (hm : g.lvl m = some k) : (g.move c c').lvl (subst c c' m) = some k := by
  have h1 : subst c c' m ≠ c := by
    unfold subst
    split
    next e => exact fun h => hr.ne_copy hm (e.trans h.symm)
    next e => exact e
  simp only [Layout.move, if_neg h1, hr.subst_subst hm, hm]

lemma par_subst (hm : g.lvl m = some k) :
    (g.move c c').par (subst c c' m) = subst c c' (g.par m) := by
  simp only [Layout.move, hr.subst_subst hm]

lemma lo_subst (hm : g.lvl m = some k) : (g.move c c').lo (subst c c' m) = g.lo m := by
  simp only [Layout.move, hr.subst_subst hm]

lemma hi_subst (hm : g.lvl m = some k) : (g.move c c').hi (subst c c' m) = g.hi m := by
  simp only [Layout.move, hr.subst_subst hm]

end

/-- Every node of the new tree comes from one of the old tree. -/
lemma exists_subst (hm : (g.move c c').lvl m = some k) :
    ∃ n, g.lvl n = some k ∧ subst c c' n = m := by
  simp only [Layout.move] at hm
  split at hm
  · cases hm
  next hmc =>
    refine ⟨_, hm, ?_⟩
    unfold subst
    by_cases e : m = c' <;> simp [e, hmc]

/-- The inodes of a branch point to nodes with the same place in the tree. -/
lemma redirects (h : TreeOK w g root H) (hr : Moved w g c c' w') (hm : g.lvl m = some (k + 1)) :
    ∀ i ∈ w.inodes m, (Inode.redirect c c' i).kid = subst c c' i.kid ∧
      Redirects w w' g (g.move c c') (Inode.redirect c c') i := by
  intro i hi
  have hb := h.branch m k hm
  have hl := hb.lvl i hi
  have hk : (Inode.redirect c c' i).kid = subst c c' i.kid := by
    simp only [Inode.redirect, Inode.kid]
    rw [hb.child i hi]
    rfl
  refine ⟨hk, rfl, rfl, ?_, ?_, ?_, ?_, ?_⟩
  · rw [hk]
    simp only [Inode.redirect, hb.child i hi, Option.map_some]
  · rw [hk, hr.lvl_subst hl, hl]
  · rw [hk, hr.lo_subst hl]
  · rw [hk, hr.hi_subst hl]
  · rw [hk, hr.key m k hm i hi]

/-- The tree with the copy in place of the original. -/
lemma treeOK (h : TreeOK w g root H) (hr : Moved w g c c' w') :
    TreeOK w' (g.move c c') (subst c c' root) H := by
  refine ⟨hr.lvl_subst h.lvl_root, fun m k hm => ?_, fun m k hm => ?_, fun m hm => ?_,
    fun m k hm => ?_, fun m k hm hne => ?_⟩ <;> obtain ⟨n, hn, rfl⟩ := exists_subst hm
  · unfold subst
    split
    · exact hr.alloc
    · exact (h.alloc n k hn).trans_le hr.nextNode
  · rw [hr.isLeaf n k hn]
    exact h.isLeaf n k hn
  · have hleaf := h.leaf n hn
    have hid : (w.inodes n).map (Inode.redirect c c') = w.inodes n :=
      map_redirect fun i hi => by simp [(hleaf.entry i hi).child]
    rw [hr.inodes n 0 hn, hid]
    exact hleaf.congr (hr.lo_subst hn) (hr.hi_subst hn)
  · have hb := h.branch n k hn
    rw [hr.inodes n _ hn]
    refine hb.map (fun i hi => (hr.redirects h hn i hi).2) (hr.lo_subst hn) (hr.hi_subst hn)
      fun i hi => ?_
    rw [(hr.redirects h hn i hi).1, hr.par_subst (hb.lvl i hi), hb.par i hi]
  · have hne' : n ≠ root := fun e => hne (by rw [e])
    obtain ⟨hk, hp, i, hi, hin⟩ := h.up n k hn hne'
    rw [hr.par_subst hn, hr.inodes _ _ hp]
    refine ⟨hk, hr.lvl_subst hp, _, List.mem_map_of_mem hi, ?_⟩
    rw [(hr.redirects h hp i hi).1, hin]

/-- The ranges stay exact. -/
lemma exact (h : TreeOK w g root H) (hx : Exact w g root) (hr : Moved w g c c' w') :
    Exact w' (g.move c c') (subst c c' root) := by
  refine ⟨by rw [hr.lo_subst h.lvl_root, hx.lo_root], by rw [hr.hi_subst h.lvl_root, hx.hi_root],
    fun m k hm => ?_⟩
  obtain ⟨n, hn, rfl⟩ := exists_subst hm
  rw [hr.inodes n _ hn]
  exact (hx.node n k hn).map (fun i hi => (hr.redirects h hn i hi).2) (hr.lo_subst hn)
    (hr.hi_subst hn)

/-- The contents stay. -/
lemma contents_eq (h : TreeOK w g root H) (hr : Moved w g c c' w') (hn : g.lvl n = some d) :
    contents w' d (subst c c' n) = contents w d n := by
  induction d generalizing n with
  | zero =>
    simp only [contents, hr.inodes n 0 hn, List.map_map]
    rfl
  | succ d ih =>
    simp only [contents, hr.inodes n _ hn, List.flatMap_map]
    refine List.flatMap_congr fun i hi => ?_
    rw [(hr.redirects h hn i hi).1, ih (h.kid hn hi)]

end Moved

end

end Vmbolt
