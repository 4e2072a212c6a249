import Vmbolt.Rebalance.Handle

/-!
# Nodes that have left the tree

A node that is merged into its left sibling, or whose place the root takes, stays in the working set
of the handle, so `Bucket.rebalance` may still come to it. `Harmless` says when the visit to such a
node does nothing: it has no parent, it is large, or it is empty and its key is nowhere its old
parent could find it. The last condition has to be kept while the parent is merged, dropped or
collapsed itself, and while other nodes are written that share its backing array (`Absent`).
-/

namespace Vmbolt
open Prog

/-- The node `q` does not have the key `k`, and it is not going to get it. -/
structure Absent (w : World) (g : Layout) (q : NodeId) (k : Bytes) : Prop where
  ne : k ≠ []
  self : k ∉ w.keys q
  low : ∀ m d, g.lvl m = some d → d ≤ 1 → k ∉ w.keys m
  high : ∀ m d, g.lvl m = some d → 2 ≤ d → w.arr m ≠ w.arr q

/-- A visit to the node `n`, which is not in the tree, does nothing. -/
def Harmless (w : World) (g : Layout) (n : NodeId) : Prop :=
  (w.nodes n).parent = none ∨
    ((∀ m d, g.lvl m = some d → w.arr m ≠ w.arr n) ∧ (Large w n ∨ (w.inodes n = [] ∧
      ∀ q, (w.nodes n).parent = some q → Absent w g q (w.nodes n).key)))

/-- The handle `b` holds the tree with the root `r`, and the flagged nodes that have left the tree
are harmless. -/
structure Rebalancing (w : World) (b : BucketId) (g : Layout) (r : NodeId) (H : Nat)
    (x : Option NodeId) : Prop extends HandleBut w b g r H x where
  stale : ∀ n ∈ (w.buckets b).dirty, g.lvl n = none → (w.nodes n).unbalanced = true → Harmless w g n

section
variable {w w' : World} {b : BucketId} {g g' : Layout} {r n p q m c : NodeId} {H d e idx : Nat}
  {i j : Inode} {l1 l2 : List Inode} {x : Option NodeId} {k : Bytes}

/-- At the start no node has left the tree. -/
lemma Handle.rebalancing (h : Handle w b g r H) : Rebalancing w b g r H none := by
  refine ⟨h.toHandleBut, fun n hn hl _ => ?_⟩
  obtain ⟨d, hd⟩ := h.inTree n hn
  rw [hl] at hd
  cases hd

/-- A harmless node stays harmless in a step that does not touch it. -/
lemma Harmless.step (h : Harmless w g n) (hnode : w'.nodes n = w.nodes n)
    (hsep : (∀ m d, g.lvl m = some d → w.arr m ≠ w.arr n) →
      (∀ m d, g'.lvl m = some d → w'.arr m ≠ w'.arr n) ∧ w'.inodes n = w.inodes n)
    (habs : ∀ q k, (w.nodes n).parent = some q → Absent w g q k → Absent w' g' q k) :
    Harmless w' g' n := by
  unfold Harmless
  rw [hnode]
  rcases h with h | ⟨h1, h2⟩
  · exact .inl h
  · obtain ⟨h1', hins⟩ := hsep h1
    refine .inr ⟨h1', ?_⟩
    rcases h2 with h2 | ⟨h2, h3⟩
    · exact .inl ((Large.congr (by rw [hnode]) hins).2 h2)
    · exact .inr ⟨by rw [hins, h2], fun q hq => habs q _ hq (h3 q hq)⟩

/-- A key under which an empty leaf stands is in its parent only. -/
lemma TreeOK.key_not_mem (h : TreeOK w g r H) (hp : g.lvl p = some 1)
    (hins : w.inodes p = l1 ++ j :: l2) (hempty : w.inodes j.kid = []) (hm : g.lvl m = some e)
    (he : e ≤ 1) (hmp : m ≠ p) : j.key ∉ w.keys m := by
  have hb := h.branch p 0 hp
  have hj : j ∈ w.inodes p := by rw [hins]; simp
  have hjlo := hb.lo j hj
  have hjhi := hb.hi j hj
  -- a node whose range is not that of `p`
  have hout : ∀ {q}, (g.hi q ≤ (g.lo p : WithTop Bytes) ∨ g.hi p ≤ (g.lo q : WithTop Bytes)) →
      ∀ k : Bytes, g.lo q ≤ k → (k : WithTop Bytes) < g.hi q → k ≠ j.key := by
    rintro q (hr | hr) k h1 h2 rfl
    · exact absurd (WithTop.coe_lt_coe.1 (h2.trans_le hr)) (not_lt.2 hjlo)
    · exact absurd (WithTop.coe_lt_coe.1 (hjhi.trans_le hr)) (not_lt.2 h1)
  intro hmem
  obtain ⟨y, hy, hkey⟩ := List.mem_map.1 hmem
  obtain rfl | rfl : e = 0 ∨ e = 1 := by omega
  · have hleaf := h.leaf m hm
    have hroot : m ≠ r := h.ne_root hm (by have := h.le_height hp; omega)
    obtain ⟨-, hq, x, hx, rfl⟩ := h.up m 0 hm hroot
    by_cases hqp : g.par x.kid = p
    · rw [hqp, hins] at hx
      simp only [List.mem_append, List.mem_cons] at hx
      rcases hx with hx | rfl | hx
      · have hn := hb.hi_next
        rw [hins, List.pairwise_append] at hn
        have := (hleaf.hi y hy).trans_le (hn.2.2 x hx j (by simp))
        rw [hkey] at this
        exact lt_irrefl _ this
      · rw [hempty] at hy
        cases hy
      · have hs := hb.sorted
        rw [hins, List.pairwise_append, List.pairwise_cons] at hs
        have htail : x ∈ (w.inodes p).tail := by
          rw [hins]
          cases l1 <;> simp [hx]
        have := ((hs.2.1.1 x hx).trans_le (hb.lo_tail x htail)).trans_le (hleaf.lo y hy)
        rw [hkey] at this
        exact lt_irrefl _ this
    · have hbq := h.branch _ 0 hq
      refine hout (h.ranges hq hp hqp) y.key ?_ ?_ hkey
      · exact (hbq.lo_le hx).trans (hleaf.lo y hy)
      · exact (hleaf.hi y hy).trans_le (hbq.hi_kid x hx)
  · have hbm := h.branch m 0 hm
    exact hout (h.ranges hm hp hmp) y.key (hbm.lo y hy) (hbm.hi y hy) hkey

/-! ## The exception and the flags -/

namespace Rebalancing

lemma except (h : Rebalancing w b g r H none) (n : NodeId) : Rebalancing w b g r H (some n) :=
  ⟨h.toHandleBut.except n, h.stale⟩

lemma settle (h : Rebalancing w b g r H (some n)) (hf : (w.nodes n).unbalanced = false)
    (htwo : ∀ d, g.lvl n = some (d + 1) → 2 ≤ (w.inodes n).length)
    (hne : g.lvl n = some 0 → n ≠ r → w.inodes n ≠ []) : Rebalancing w b g r H none :=
  ⟨h.toHandleBut.settle hf htwo hne, h.stale⟩

lemma unflag (h : Rebalancing w b g r H (some n)) : Rebalancing (w.unflag n) b g r H (some n) := by
  refine ⟨h.toHandleBut.unflag, fun m hm hl hf => ?_⟩
  obtain ⟨hmn, hf⟩ := World.of_unflag_flagged hf
  have hkeys : ∀ q, (w.unflag n).keys q = w.keys q := by
    intro q
    unfold World.keys
    rw [World.unflag_inodes]
  refine (h.stale m hm hl hf).step (World.unflag_other hmn) (fun hsep => ⟨fun q e hq => ?_, ?_⟩)
    fun q k _ ha => ⟨ha.ne, ?_, fun m d hm hd => ?_, fun m d hm hd => ?_⟩
  · rw [World.unflag_arr, World.unflag_arr]
    exact hsep q e hq
  · exact World.unflag_inodes m
  · rw [hkeys]
    exact ha.self
  · rw [hkeys]
    exact ha.low m d hm hd
  · rw [World.unflag_arr, World.unflag_arr]
    exact ha.high m d hm hd

/-- The old parent of a stale node is allocated. -/
lemma parent_alloc (h : Rebalancing w b g r H x) (hm : m ∈ (w.buckets b).dirty)
    (hq : (w.nodes m).parent = some q) : q < w.nextNode :=
  (h.dirty q (h.calm m hm q hq).1).alloc

end Rebalancing

/-! ## Copying a sibling -/

lemma Absent.copied (ha : Absent w g q k) (h : HandleBut w b g r H x) (hp : p ∈ (w.buckets b).dirty)
    (hpl : g.lvl p = some (d + 1)) (hi : (w.inodes p)[idx]? = some i)
    (hc : Copied w b p i.kid idx w') (he : Bucket.childForWrite b p idx w = (.ok n, w'))
    (hq : q < w.nextNode) : Absent w' (g.move i.kid w.nextNode) q k := by
  have hmoved := h.moved hp hpl hi hc
  have hkeys : ∀ {m}, m < w.nextNode → w'.keys m = w.keys m := fun hm => hc.keys_eq he h.sound hm
  have hkid := h.tree.kid hpl (List.mem_of_getElem? hi)
  have hcopy : w'.keys w.nextNode = w.keys i.kid := by
    unfold World.keys
    rw [hc.inodes_copy]
  have harr : ∀ {m}, m < w.nextNode → w'.arr m = w.arr m := fun hm => by
    unfold World.arr
    rw [hc.other _ hm]
  refine ⟨ha.ne, ?_, fun m e hm he => ?_, fun m e hm he => ?_⟩
  · rw [hkeys hq]
    exact ha.self
  · obtain ⟨n0, hn0, rfl⟩ := Moved.exists_subst hm
    unfold subst
    split
    next heq =>
      subst heq
      rw [hcopy]
      exact ha.low _ e hn0 he
    next =>
      rw [hkeys (h.tree.alloc _ _ hn0)]
      exact ha.low _ e hn0 he
  · obtain ⟨n0, hn0, rfl⟩ := Moved.exists_subst hm
    rw [harr hq]
    unfold subst
    split
    next =>
      exact ((h.sound.arr_lt q hq).trans_le hc.arr_copy).ne'
    next =>
      rw [harr (h.tree.alloc _ _ hn0)]
      exact ha.high _ e hn0 he

/-- A clean child is replaced by its copy. -/
lemma Rebalancing.copied (h : Rebalancing w b g r H x)
    (hx : ∀ m, x = some m → m ∈ (w.buckets b).dirty) (hp : p ∈ (w.buckets b).dirty)
    (hpl : g.lvl p = some (d + 1)) (hi : (w.inodes p)[idx]? = some i)
    (hclean : i.kid ∉ (w.buckets b).dirty) (hc : Copied w b p i.kid idx w')
    (he : Bucket.childForWrite b p idx w = (.ok n, w')) :
    Rebalancing w' b (g.move i.kid w.nextNode) r H x := by
  have hmoved := h.moved hp hpl hi hc
  refine ⟨h.toHandleBut.copied hx hp hpl hi hclean hc, fun m hm hl hf => ?_⟩
  rw [hc.bucket] at hm
  rcases Finset.mem_insert.1 hm with rfl | hm
  · -- the copy is not flagged
    rw [hc.copy] at hf
    cases hf
  have hlt := (h.dirty m hm).alloc
  have hnode := hc.other m hlt
  rw [hnode] at hf
  have hl0 : g.lvl m = none := by
    rcases hl0 : g.lvl m with _ | e
    · rfl
    · have := hmoved.lvl_subst hl0
      rw [show subst i.kid w.nextNode m = m from if_neg fun (heq : m = i.kid) => hclean (heq ▸ hm),
        hl] at this
      cases this
  refine (h.stale m hm hl0 hf).step hnode (fun hsep => ⟨fun q e hq => ?_, ?_⟩) fun q k hq ha => ?_
  · have harr : w'.arr m = w.arr m := by
      unfold World.arr
      rw [hnode]
    rw [harr]
    obtain ⟨n0, hn0, rfl⟩ := Moved.exists_subst hq
    unfold subst
    split
    next => exact ((h.sound.arr_lt m hlt).trans_le hc.arr_copy).ne'
    next =>
      have : w'.arr n0 = w.arr n0 := by
        unfold World.arr
        rw [hc.other n0 (h.tree.alloc _ _ hn0)]
      rw [this]
      exact hsep n0 e hn0
  · refine hc.view m hlt ?_ (hsep p _ hpl).symm
    rintro rfl
    rw [hpl] at hl0
    cases hl0
  · exact ha.copied h.toHandleBut hp hpl hi hc he (h.parent_alloc hm hq)

/-! ## Dropping a leaf -/

lemma Absent.dropped (ha : Absent w g q k) (h : Hollow w b g r H p l1 i l2)
    (hu : Upd w p (fun nd => { nd with unbalanced := true }) (l1 ++ l2) w')
    (hk : KeysFrom p [] w w') (hq : q < w.nextNode) : Absent w' (g.drop i.kid) q k := by
  have hparent : ∀ k ∈ w'.keys p, k ∈ w.keys p := by
    intro k hk
    unfold World.keys at hk ⊢
    rw [hu.inodes] at hk
    rw [h.inodes]
    simp only [List.map_append, List.map_cons, List.mem_append, List.mem_cons] at hk ⊢
    tauto
  have hlow := ha.low p 1 h.lvl le_rfl
  refine ⟨ha.ne, fun hmem => ?_, fun m e hm he hmem => ?_, fun m e hm he => ?_⟩
  · rcases hk q hq k hmem with hmem | ⟨-, hmem | hmem | hmem⟩
    · exact ha.self hmem
    · exact ha.ne hmem
    · cases hmem
    · exact hlow hmem
  · have hm := (Layout.drop_lvl.1 hm).2
    by_cases hmp : m = p
    · subst hmp
      exact hlow (hparent k hmem)
    · unfold World.keys at hmem
      rw [h.view hu hm hmp] at hmem
      exact ha.low m e hm he hmem
  · have hm := (Layout.drop_lvl.1 hm).2
    exact hu.keepsApart h.handle.sound m q (h.handle.tree.alloc _ _ hm) hq (ha.high m e hm he)

/-- An empty leaf is dropped. -/
lemma Rebalancing.dropped (hr : Rebalancing w b g r H (some i.kid)) (h : Hollow w b g r H p l1 i l2)
    (hu : Upd w p (fun nd => { nd with unbalanced := true }) (l1 ++ l2) w')
    (hk : KeysFrom p [] w w') : Rebalancing w' b (g.drop i.kid) r H (some p) := by
  refine ⟨h.handleBut hu, fun m hm hl hf => ?_⟩
  rw [hu.buckets] at hm
  have hmp : m ≠ p := by
    rintro rfl
    rw [Layout.drop_lvl.2 ⟨h.ne_parent.symm, h.lvl⟩] at hl
    cases hl
  have hnode := hu.other m hmp
  rw [hnode] at hf
  have hmi : m ≠ i.kid := by
    rintro rfl
    rw [h.unflagged] at hf
    cases hf
  have hl0 : g.lvl m = none := by
    rcases hl0 : g.lvl m with _ | e
    · rfl
    · rw [Layout.drop_lvl.2 ⟨hmi, hl0⟩] at hl
      cases hl
  have hlt := (hr.dirty m hm).alloc
  refine (hr.stale m hm hl0 hf).step hnode (fun hsep => ⟨fun q e hq => ?_, ?_⟩) fun q k hq ha => ?_
  · have hq := (Layout.drop_lvl.1 hq).2
    exact hu.keepsApart hr.sound q m (hr.tree.alloc _ _ hq) hlt (hsep q e hq)
  · exact hu.view m hmp hlt (hsep p 1 h.lvl).symm
  · exact ha.dropped h hu hk (hr.parent_alloc hm hq)

/-! ## Joining two siblings -/

lemma Absent.merged (ha : Absent w g q k) (h : Beside w b g r H n p d l1 i j l2)
    (hm : Merged w b p i.kid j.kid (l1 ++ i :: l2) w') (hq : q < w.nextNode) :
    Absent w' (g.join i.kid j.kid) q k := by
  have hh := h.handle
  have ht := hh.tree
  have hparent : ∀ k ∈ w'.keys p, k ∈ w.keys p := by
    intro k hk
    unfold World.keys at hk ⊢
    rw [hm.inodes_parent] at hk
    rw [h.inodes]
    simp only [List.map_append, List.map_cons, List.mem_append, List.mem_cons] at hk ⊢
    tauto
  have hleft : ∀ k ∈ w'.keys i.kid, k ∈ w.keys i.kid ∨ k ∈ w.keys j.kid := by
    intro k hk
    unfold World.keys at hk ⊢
    rw [hm.inodes_left, List.map_append, List.mem_append] at hk
    exact hk
  -- a node whose array the old parent shares is on a low level
  have hlow : ∀ m e, g.lvl m = some e → w.arr q = w.arr m → e ≤ 1 := by
    intro m e hl harr
    by_contra he
    exact ha.high m e hl (by omega) harr.symm
  refine ⟨ha.ne, fun hmem => ?_, fun m e hl he hmem => ?_, fun m e hl he => ?_⟩
  · by_cases hqp : q = p
    · subst hqp
      exact ha.self (hparent k hmem)
    by_cases hqi : q = i.kid
    · subst hqi
      rcases hleft k hmem with hmem | hmem
      · exact ha.self hmem
      · exact ha.low _ d h.right_lvl (hlow _ d h.left_lvl rfl) hmem
    rcases hm.keys q hqp hqi hq k hmem with hmem | ⟨harr, hmem⟩ | ⟨harr, hmem⟩
    · exact ha.self hmem
    · rcases hmem with hmem | hmem
      · exact ha.ne hmem
      · exact ha.low p _ h.lvl (hlow p _ h.lvl harr) hmem
    · have hd := hlow _ d h.left_lvl harr
      rcases hmem with hmem | hmem | hmem
      · exact ha.ne hmem
      · exact ha.low _ d h.right_lvl hd hmem
      · exact ha.low _ d h.left_lvl hd hmem
  · obtain ⟨-, hl⟩ := Layout.join_lvl.1 hl
    by_cases hmp : m = p
    · subst hmp
      exact ha.low m e hl he (hparent k hmem)
    by_cases hmi : m = i.kid
    · subst hmi
      have hd : d = e := by
        have := h.left_lvl
        rw [hl] at this
        simpa using this.symm
      subst hd
      rcases hleft k hmem with hmem | hmem
      · exact ha.low _ d h.left_lvl he hmem
      · exact ha.low _ d h.right_lvl he hmem
    · unfold World.keys at hmem
      rw [h.view hm hl hmp hmi] at hmem
      exact ha.low m e hl he hmem
  · obtain ⟨-, hl⟩ := Layout.join_lvl.1 hl
    exact hm.apart m q (ht.alloc _ _ hl) hq (ha.high m e hl he)

/-- The key of an empty leaf that was merged into its left sibling is nowhere to be found. -/
lemma Beside.absent (h : Beside w b g r H n p d l1 i j l2)
    (hm : Merged w b p i.kid j.kid (l1 ++ i :: l2) w') (hempty : w.inodes j.kid = []) :
    Absent w' (g.join i.kid j.kid) p j.key := by
  have ht := h.handle.tree
  have hb := ht.branch p d h.lvl
  obtain rfl : d = 0 := by
    cases d with
    | zero => rfl
    | succ d => exact absurd hempty (ht.branch _ d h.right_lvl).ne
  have hcut : w.inodes p = (l1 ++ [i]) ++ j :: l2 := by rw [h.inodes]; simp
  have hself : j.key ∉ w'.keys p := by
    have hs := hb.sorted
    rw [hcut, List.pairwise_append, List.pairwise_cons] at hs
    unfold World.keys
    rw [hm.inodes_parent]
    intro hmem
    obtain ⟨y, hy, hkey⟩ := List.mem_map.1 hmem
    have hy' : y ∈ l1 ++ [i] ∨ y ∈ l2 := by
      simp only [List.mem_append, List.mem_cons, List.not_mem_nil, or_false] at hy ⊢
      tauto
    rcases hy' with hy | hy
    · exact (hs.2.2 y hy j (by simp)).ne hkey
    · exact (hs.2.1.1 y hy).ne' hkey
  refine ⟨hb.key_ne j h.mem.2, hself, fun m e hl he hmem => ?_, fun m e hl he => ?_⟩
  · obtain ⟨-, hl⟩ := Layout.join_lvl.1 hl
    by_cases hmp : m = p
    · subst hmp
      exact hself hmem
    refine ht.key_not_mem h.lvl hcut hempty hl he hmp ?_
    unfold World.keys at hmem ⊢
    by_cases hmi : m = i.kid
    · subst hmi
      rwa [hm.inodes_left, hempty, List.append_nil] at hmem
    · rwa [h.view hm hl hmp hmi] at hmem
  · obtain ⟨-, hl⟩ := Layout.join_lvl.1 hl
    have hmp : m ≠ p := by
      rintro rfl
      rw [h.lvl] at hl
      cases hl
      omega
    exact hm.apart m p (ht.alloc _ _ hl) (ht.alloc _ _ h.lvl)
      (h.handle.sep p h.parent_dirty _ h.lvl m e hl hmp)

/-- Two siblings are joined; the right one is not going to be merged any more. -/
lemma Rebalancing.merged (hr : Rebalancing w b g r H (some n))
    (h : Beside w b g r H n p d l1 i j l2) (hm : Merged w b p i.kid j.kid (l1 ++ i :: l2) w')
    (hright : (w.nodes j.kid).unbalanced = true → Large w j.kid ∨ w.inodes j.kid = []) :
    Rebalancing w' b (g.join i.kid j.kid) r H (some p) := by
  have ht := hr.tree
  refine ⟨h.handleBut hm, fun m hmem hl hf => ?_⟩
  rw [hm.buckets] at hmem
  have hmp : m ≠ p := by
    rintro rfl
    rw [Layout.join_lvl.2 ⟨(h.ne_parent h.right_lvl).symm, h.lvl⟩] at hl
    cases hl
  have hmi : m ≠ i.kid := by
    rintro rfl
    rw [Layout.join_lvl.2 ⟨h.left_ne_right, h.left_lvl⟩] at hl
    cases hl
  have hlt := (hr.dirty m hmem).alloc
  rw [hm.flag hmp] at hf
  by_cases hmj : m = j.kid
  · -- the right sibling has just left the tree
    subst hmj
    have hsep : ∀ q e, (g.join i.kid j.kid).lvl q = some e → w'.arr q ≠ w'.arr j.kid := by
      intro q e hq
      obtain ⟨hqj, hq⟩ := Layout.join_lvl.1 hq
      exact hm.apart q j.kid (ht.alloc _ _ hq) hlt
        (hr.sep j.kid h.right_dirty d h.right_lvl q e hq hqj)
    have hins : w'.inodes j.kid = w.inodes j.kid := h.view hm h.right_lvl hmp hmi
    refine .inr ⟨hsep, ?_⟩
    rcases hright hf with hlarge | hempty
    · exact .inl ((Large.congr (hm.fields j.kid).2.1 hins).2 hlarge)
    · refine .inr ⟨by rw [hins, hempty], fun q hq => ?_⟩
      have hb := ht.branch p d h.lvl
      have hnk : some j.kid ∉ (w.inodes j.kid).map Inode.child := by
        rw [hempty]
        simp
      rw [hm.parent_eq fun _ => hnk, (hr.parent j.kid hmem d h.right_lvl (h.ne_root h.right_lvl)).1,
        hb.par j h.mem.2] at hq
      cases hq
      rw [(hm.fields j.kid).2.2.2, hb.key j h.mem.2]
      exact h.absent hm hempty
  · have hl0 : g.lvl m = none := by
      rcases hl0 : g.lvl m with _ | e
      · rfl
      · rw [Layout.join_lvl.2 ⟨hmj, hl0⟩] at hl
        cases hl
    have hnode := hm.other m hmp hmi fun _ => ht.not_mem_children h.right_lvl hl0
    refine (hr.stale m hmem hl0 hf).step hnode (fun hsep => ⟨fun q e hq => ?_, ?_⟩)
      fun q k hq ha => ?_
    · obtain ⟨-, hq⟩ := Layout.join_lvl.1 hq
      exact hm.apart q m (ht.alloc _ _ hq) hlt (hsep q e hq)
    · exact hm.view m hmp hmi hlt (hsep p _ h.lvl).symm (hsep _ d h.left_lvl).symm
    · exact ha.merged h hm (hr.parent_alloc hmem hq)

/-! ## Collapsing the root -/

lemma Absent.collapsed (ha : Absent w g q k) (h : Lone w b g r d i)
    (hc : Collapsed w b r i.kid w') :
    Absent w' (g.collapse r i.kid d) q k := by
  have ht := h.handle.tree
  have hlvl : ∀ {m e}, (g.collapse r i.kid d).lvl m = some e →
      (m = r ∧ e = d) ∨ (m ≠ r ∧ m ≠ i.kid ∧ g.lvl m = some e) :=
    (Layout.collapse_lvl h.child_ne_root.symm).1
  have hroot : w'.keys r = w.keys i.kid := by
    unfold World.keys
    rw [hc.inodes_root]
  have hother : ∀ {m}, m ≠ r → w'.keys m = w.keys m := fun hm => by
    unfold World.keys
    rw [hc.inodes_eq hm]
  -- if the old parent is the root, then the tree had two levels
  have hd : q = r → d = 0 := by
    intro hqr
    by_contra hd
    exact ha.high r (d + 1) ht.lvl_root (by omega) (by rw [hqr])
  refine ⟨ha.ne, ?_, fun m e hl he => ?_, fun m e hl he => ?_⟩
  · by_cases hqr : q = r
    · rw [hqr, hroot]
      exact ha.low _ d h.child_lvl (by rw [hd hqr]; omega)
    · rw [hother hqr]
      exact ha.self
  · rcases hlvl hl with ⟨rfl, rfl⟩ | ⟨hmr, -, hl⟩
    · rw [hroot]
      exact ha.low _ e h.child_lvl he
    · rw [hother hmr]
      exact ha.low m e hl he
  · have hqr : q ≠ r := by
      intro hqr
      have := hd hqr
      rcases hlvl hl with ⟨-, rfl⟩ | ⟨-, -, hl⟩
      · omega
      · have := ht.le_height hl
        omega
    rw [hc.arr_eq hqr]
    rcases hlvl hl with ⟨rfl, rfl⟩ | ⟨hmr, -, hl⟩
    · rw [hc.arr_root]
      exact ha.high _ e h.child_lvl he
    · rw [hc.arr_eq hmr]
      exact ha.high m e hl he

/-- The root is collapsed. -/
lemma Rebalancing.collapsed (hr : Rebalancing w b g r (d + 1) (some r)) (h : Lone w b g r d i)
    (hc : Collapsed w b r i.kid w') : Rebalancing w' b (g.collapse r i.kid d) r d none := by
  have ht := hr.tree
  have hlvl : ∀ {m e}, (g.collapse r i.kid d).lvl m = some e ↔
      (m = r ∧ e = d) ∨ (m ≠ r ∧ m ≠ i.kid ∧ g.lvl m = some e) :=
    Layout.collapse_lvl h.child_ne_root.symm
  refine ⟨h.handleBut hc, fun m hmem hl hf => ?_⟩
  rw [hc.buckets] at hmem
  have hmr : m ≠ r := by
    rintro rfl
    rw [hlvl.2 (.inl ⟨rfl, rfl⟩)] at hl
    cases hl
  by_cases hmc : m = i.kid
  · rw [hmc]
    refine .inl ?_
    rw [hc.child]
  · have hl0 : g.lvl m = none := by
      rcases hl0 : g.lvl m with _ | e
      · rfl
      · rw [hlvl.2 (.inr ⟨hmr, hmc, hl0⟩)] at hl
        cases hl
    have hnode := hc.other m hmr hmc fun _ => ht.not_mem_children h.child_lvl hl0
    rw [hnode] at hf
    refine (hr.stale m hmem hl0 hf).step hnode (fun hsep => ⟨fun q e hq => ?_, hc.inodes_eq hmr⟩)
      fun q k _ ha => ha.collapsed h hc
    rw [hc.arr_eq hmr]
    rcases hlvl.1 hq with ⟨rfl, -⟩ | ⟨hqr, -, hq⟩
    · rw [hc.arr_root]
      exact hsep _ d h.child_lvl
    · rw [hc.arr_eq hqr]
      exact hsep q e hq

end

end Vmbolt
