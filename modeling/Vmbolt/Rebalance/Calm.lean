import Vmbolt.Rebalance.Stale

/-!
# The leaves during the rebalancing

How the steps of `node.rebalance` move the underfull leaves and those that are not. Clearing a flag,
copying a sibling, dropping an empty leaf, joining two branches and collapsing the root make the
tree `Calmer`. When two leaves are joined, the comparison is with the state in front of the visit,
in which the leaf that is being rebalanced was underfull.
-/

namespace Vmbolt
open Prog

/-- The leaf `n` was underfull in `w0`, and from there to `w` its visit has begun. -/
structure Begun (b : BucketId) (r n : NodeId) (H : Nat) (w0 : World) (g0 : Layout) (w : World)
    (g : Layout) : Prop where
  tree : TreeOK w0 g0 r H
  lvl : g0.lvl n = some 0
  underfull : Underfull w0 b n
  inodes : w.inodes n = w0.inodes n
  leads : Leads w g n → Leads w0 g0 n
  calmer : Calmer b w0 g0 w g

section
variable {w w' w0 : World} {b : BucketId} {g g' g0 : Layout} {r n p m c : NodeId} {H d e idx : Nat}
  {i j : Inode} {l1 l2 : List Inode} {x : Option NodeId}

/-- Two ways to cut a list at one of its elements. -/
lemma append_cons_cases {α : Type} {l1 l2 a1 a2 : List α} {x y : α}
    (h : l1 ++ x :: l2 = a1 ++ y :: a2) :
    (∃ t, l1 = a1 ++ y :: t ∧ a2 = t ++ x :: l2) ∨ (l1 = a1 ∧ x = y ∧ l2 = a2) ∨
      ∃ t, a1 = l1 ++ x :: t ∧ l2 = t ++ y :: a2 := by
  rcases List.append_eq_append_iff.1 h with ⟨t, h1, h2⟩ | ⟨t, h1, h2⟩
  · cases t with
    | nil =>
      simp only [List.nil_append, List.cons.injEq] at h2
      exact .inr (.inl ⟨by simpa using h1.symm, h2.1, h2.2⟩)
    | cons z t =>
      simp only [List.cons_append, List.cons.injEq] at h2
      obtain ⟨rfl, h2⟩ := h2
      exact .inr (.inr ⟨t, h1, h2⟩)
  · cases t with
    | nil =>
      simp only [List.nil_append, List.cons.injEq] at h2
      exact .inr (.inl ⟨by simpa using h1, h2.1.symm, h2.2.symm⟩)
    | cons z t =>
      simp only [List.cons_append, List.cons.injEq] at h2
      obtain ⟨rfl, h2⟩ := h2
      exact .inl ⟨t, h1, h2⟩

/-- Different leaves have different first keys. -/
lemma TreeOK.firstKey_inj (h : TreeOK w g r H) (hm : g.lvl m = some 0) (hn : g.lvl n = some 0)
    (hm_ne : w.inodes m ≠ []) (hn_ne : w.inodes n ≠ [])
    (he : firstKey (w.inodes m) = firstKey (w.inodes n)) : m = n := by
  by_contra hmn
  obtain ⟨m1, m2, -⟩ := h.firstKey_range hm hm_ne
  obtain ⟨n1, n2, -⟩ := h.firstKey_range hn hn_ne
  rcases h.ranges hm hn hmn with hr | hr
  · exact ((WithTop.coe_lt_coe.1 (m2.trans_le hr)).trans_le n1).ne he
  · exact ((WithTop.coe_lt_coe.1 (n2.trans_le hr)).trans_le m1).ne' he

/-- Being underfull depends on the flag, the size and the working set. -/
lemma Underfull.of_eq (h : Underfull w' b m)
    (hd : m ∈ (w'.buckets b).dirty → n ∈ (w.buckets b).dirty)
    (hf : (w'.nodes m).unbalanced = (w.nodes n).unbalanced)
    (hl : (w'.nodes m).isLeaf = (w.nodes n).isLeaf) (hi : w'.inodes m = w.inodes n) :
    Underfull w b n :=
  ⟨hd h.1, hf ▸ h.2.1, fun hlarge => h.2.2 ((Large.congr hl hi).2 hlarge)⟩

/-! ## Steps that make the tree calmer -/

lemma Leads.unflag (h : Leads (w.unflag n) g m) : Leads w g m := by
  obtain ⟨p, l1, i, l2, hp, hins, hk, hall⟩ := h
  rw [World.unflag_inodes] at hins
  refine ⟨p, l1, i, l2, hp, hins, hk, fun j hj => ?_⟩
  have := hall j hj
  rwa [World.unflag_inodes] at this

lemma Calmer.unflag : Calmer b w g (w.unflag n) g := by
  have hof : ∀ {m}, Underfull (w.unflag n) b m → Underfull w b m := by
    intro m hu
    obtain ⟨hmn, -⟩ := World.of_unflag_flagged hu.2.1
    exact hu.of_eq id (by rw [World.unflag_other hmn]) (by rw [World.unflag_other hmn])
      (World.unflag_inodes m)
  refine .of_leaves
    (fun m hm _ => ⟨m, hm, (World.unflag_inodes m).symm, fun hu => ⟨hof hu, Leads.unflag⟩⟩)
    fun m hm hne hu => ⟨m, hm, ?_, ?_, fun hu' => hu (hof hu')⟩
  · rwa [World.unflag_inodes]
  · rw [World.unflag_inodes]

section Copy
variable (h : HandleBut w b g r H x) (hp : p ∈ (w.buckets b).dirty) (hpl : g.lvl p = some (d + 1))
  (hi : (w.inodes p)[idx]? = some i) (hc : Copied w b p i.kid idx w')
include h hp hpl hi hc

/-- The copy of a leaf has its inodes, and the other leaves have kept theirs. -/
lemma copied_leaf (hm : g.lvl m = some 0) : w'.inodes (subst i.kid w.nextNode m) = w.inodes m := by
  rw [(h.moved hp hpl hi hc).inodes m 0 hm, map_redirect]
  intro y hy
  rw [((h.tree.leaf m hm).entry y hy).child]
  simp

lemma Leads.copied (hm : g.lvl m = some 0)
    (hl : Leads w' (g.move i.kid w.nextNode) (subst i.kid w.nextNode m)) : Leads w g m := by
  have hmoved := h.moved hp hpl hi hc
  obtain ⟨p', l1, y, l2, hp', hins, hk, hall⟩ := hl
  obtain ⟨q, hq, rfl⟩ := Moved.exists_subst hp'
  rw [hmoved.inodes q 1 hq] at hins
  obtain ⟨xs, ys, hqi, hxs, hys⟩ := List.map_eq_append_iff.1 hins
  obtain ⟨z, zs, rfl, rfl, -⟩ := List.map_eq_cons_iff.1 hys
  have hred : ∀ z ∈ w.inodes q, (Inode.redirect i.kid w.nextNode z).kid =
      subst i.kid w.nextNode z.kid ∧
      g.lvl z.kid = some 0 := fun z hz => ⟨(hmoved.redirects h.tree hq z hz).1, h.tree.kid hq hz⟩
  refine ⟨q, xs, z, zs, hq, hqi, ?_, fun z' hz' => ?_⟩
  · have hz : z ∈ w.inodes q := by rw [hqi]; simp
    rw [(hred z hz).1] at hk
    rw [← hmoved.subst_subst (hred z hz).2, hk, hmoved.subst_subst hm]
  · have hz : z' ∈ w.inodes q := by
      rw [hqi]
      exact List.mem_append_left _ hz'
    have := hall _ (hxs ▸ List.mem_map_of_mem hz')
    rwa [(hred z' hz).1, copied_leaf h hp hpl hi hc (hred z' hz).2] at this

lemma Calmer.copied : Calmer b w g w' (g.move i.kid w.nextNode) := by
  have hmoved := h.moved hp hpl hi hc
  have hleaf : ∀ {m}, g.lvl m = some 0 → w'.inodes (subst i.kid w.nextNode m) = w.inodes m :=
    fun hm => copied_leaf h hp hpl hi hc hm
  have hof : ∀ {m}, g.lvl m = some 0 → Underfull w' b (subst i.kid w.nextNode m) →
      Underfull w b m := by
    intro m hm hu
    by_cases hmi : m = i.kid
    · -- the copy is not flagged
      have hf := hu.2.1
      rw [show subst i.kid w.nextNode m = w.nextNode from if_pos hmi, hc.copy] at hf
      cases hf
    · have hsub : subst i.kid w.nextNode m = m := if_neg hmi
      have hnode := hc.other m (h.tree.alloc m 0 hm)
      have hins := hleaf hm
      rw [hsub] at hu hins
      refine hu.of_eq (fun hd => ?_) (by rw [hnode]) (by rw [hnode]) hins
      rw [hc.bucket] at hd
      exact (Finset.mem_insert.1 hd).resolve_left (hmoved.ne_copy hm)
  refine .of_leaves (fun m' hm' _ => ?_) fun m hm hne hu =>
    ⟨_, hmoved.lvl_subst hm, by rwa [hleaf hm], by rw [hleaf hm], fun hu' => hu (hof hm hu')⟩
  obtain ⟨m, hm, rfl⟩ := Moved.exists_subst hm'
  exact ⟨m, hm, (hleaf hm).symm, fun hu => ⟨hof hm hu, Leads.copied h hp hpl hi hc hm⟩⟩

end Copy

/-- An empty leaf was dropped. -/
lemma Calmer.dropped (h : Hollow w b g r H p l1 i l2)
    (hu : Upd w p (fun nd => { nd with unbalanced := true }) (l1 ++ l2) w') :
    Calmer b w g w' (g.drop i.kid) := by
  have hnp : ∀ {m}, g.lvl m = some 0 → m ≠ p := by
    rintro m hm rfl
    rw [h.lvl] at hm
    cases hm
  have hins : ∀ {m}, g.lvl m = some 0 → w'.inodes m = w.inodes m := fun hm => h.view hu hm (hnp hm)
  have hiff : ∀ {m}, g.lvl m = some 0 → (Underfull w' b m ↔ Underfull w b m) := by
    intro m hm
    unfold Underfull
    rw [hu.buckets, hu.other m (hnp hm), Large.congr (by rw [hu.other m (hnp hm)]) (hins hm)]
  have hkids : ∀ {q y}, g.lvl q = some 1 → y ∈ w.inodes q → w'.inodes y.kid = [] →
      w.inodes y.kid = [] := by
    intro q y hq hy hemp
    rwa [hins (h.handle.tree.kid hq hy)] at hemp
  have hleads : ∀ {m}, Leads w' (g.drop i.kid) m → Leads w g m := by
    rintro m ⟨q, a1, y, a2, hq, hqi, hk, hall⟩
    have hq := (Layout.drop_lvl.1 hq).2
    by_cases hqp : q = p
    · subst hqp
      rw [hu.inodes] at hqi
      -- the leaf in front of which the empty one stood, or behind which
      have hmem : ∀ z ∈ l1 ++ l2, z ∈ w.inodes q := by
        intro z hz
        rw [h.inodes]
        simp only [List.mem_append, List.mem_cons] at hz ⊢
        tauto
      have hemp : ∀ z ∈ a1, w.inodes z.kid = [] := fun z hz =>
        hkids hq (hmem z (by rw [hqi]; exact List.mem_append_left _ hz)) (hall z hz)
      rcases List.append_eq_append_iff.1 hqi with ⟨t, rfl, rfl⟩ | ⟨t, rfl, ht⟩
      · refine ⟨q, l1 ++ i :: t, y, a2, hq, by rw [h.inodes]; simp, hk, fun z hz => ?_⟩
        simp only [List.mem_append, List.mem_cons] at hz hemp
        rcases hz with hz | rfl | hz
        · exact hemp z (.inl hz)
        · exact h.empty
        · exact hemp z (.inr hz)
      · cases t with
        | nil =>
          simp only [List.nil_append] at ht
          refine ⟨q, a1 ++ [i], y, a2, hq, by rw [h.inodes, ← ht]; simp, hk, fun z hz => ?_⟩
          simp only [List.mem_append, List.mem_singleton] at hz
          rcases hz with hz | rfl
          · exact hemp z hz
          · exact h.empty
        | cons z t =>
          simp only [List.cons_append, List.cons.injEq] at ht
          obtain ⟨rfl, rfl⟩ := ht
          exact ⟨q, a1, y, t ++ i :: l2, hq, by rw [h.inodes]; simp, hk, hemp⟩
    · rw [h.view hu hq hqp] at hqi
      refine ⟨q, a1, y, a2, hq, hqi, hk, fun z hz => hkids hq ?_ (hall z hz)⟩
      rw [hqi]
      exact List.mem_append_left _ hz
  refine .of_leaves (fun m hm _ => ?_) fun m hm hne hun => ?_
  · obtain ⟨-, hm⟩ := Layout.drop_lvl.1 hm
    exact ⟨m, hm, (hins hm).symm, fun hun => ⟨(hiff hm).1 hun, hleads⟩⟩
  · have hmi : m ≠ i.kid := by
      rintro rfl
      exact hne h.empty
    exact ⟨m, Layout.drop_lvl.2 ⟨hmi, hm⟩, by rwa [hins hm], by rw [hins hm],
      fun hun' => hun ((hiff hm).1 hun')⟩

/-- Two branches were joined. -/
lemma Calmer.merged (h : Beside w b g r H n p (d + 1) l1 i j l2)
    (hm : Merged w b p i.kid j.kid (l1 ++ i :: l2) w') : Calmer b w g w' (g.join i.kid j.kid) := by
  have ht := h.handle.tree
  have hne : ∀ {m}, g.lvl m = some 0 → m ≠ p ∧ m ≠ i.kid ∧ m ≠ j.kid := by
    intro m hl
    refine ⟨?_, ?_, ?_⟩ <;> rintro rfl
    · rw [h.lvl] at hl
      cases hl
    · rw [h.left_lvl] at hl
      cases hl
    · rw [h.right_lvl] at hl
      cases hl
  have hins : ∀ {m}, g.lvl m = some 0 → w'.inodes m = w.inodes m :=
    fun hl => h.view hm hl (hne hl).1 (hne hl).2.1
  have hiff : ∀ {m}, g.lvl m = some 0 → (Underfull w' b m ↔ Underfull w b m) := by
    intro m hl
    unfold Underfull
    rw [hm.buckets, hm.flag (hne hl).1, Large.congr (hm.fields m).2.1 (hins hl)]
  have hkids : ∀ {q y}, g.lvl q = some 1 → y ∈ w.inodes q → w'.inodes y.kid = [] →
      w.inodes y.kid = [] := by
    intro q y hq hy hemp
    rwa [hins (ht.kid hq hy)] at hemp
  have hleads : ∀ {m}, Leads w' (g.join i.kid j.kid) m → Leads w g m := by
    rintro m ⟨q, a1, y, a2, hq, hqi, hk, hall⟩
    have hq := (Layout.join_lvl.1 hq).2
    have hqp : q ≠ p := by
      rintro rfl
      rw [h.lvl] at hq
      simp at hq
    by_cases hqi' : q = i.kid
    · -- the children of the right branch stand behind those of the left one
      subst hqi'
      obtain rfl : d = 0 := by
        have := h.left_lvl
        rw [hq] at this
        simpa using this.symm
      rw [hm.inodes_left] at hqi
      rcases List.append_eq_append_iff.1 hqi with ⟨t, rfl, hj⟩ | ⟨t, hi, ht'⟩
      · refine ⟨j.kid, t, y, a2, h.right_lvl, hj, hk, fun z hz => hkids h.right_lvl ?_ (hall z ?_)⟩
        · rw [hj]
          exact List.mem_append_left _ hz
        · exact List.mem_append_right _ hz
      · cases t with
        | nil =>
          simp only [List.nil_append] at ht'
          exact ⟨j.kid, [], y, a2, h.right_lvl, ht'.symm, hk, by simp⟩
        | cons z t =>
          simp only [List.cons_append, List.cons.injEq] at ht'
          obtain ⟨rfl, -⟩ := ht'
          refine ⟨i.kid, a1, y, t, hq, hi, hk, fun z hz => hkids hq ?_ (hall z hz)⟩
          rw [hi]
          exact List.mem_append_left _ hz
    · rw [h.view hm hq hqp hqi'] at hqi
      refine ⟨q, a1, y, a2, hq, hqi, hk, fun z hz => hkids hq ?_ (hall z hz)⟩
      rw [hqi]
      exact List.mem_append_left _ hz
  refine .of_leaves (fun m hl _ => ?_) fun m hl hne' hun => ?_
  · obtain ⟨-, hl⟩ := Layout.join_lvl.1 hl
    exact ⟨m, hl, (hins hl).symm, fun hun => ⟨(hiff hl).1 hun, hleads⟩⟩
  · exact ⟨m, Layout.join_lvl.2 ⟨(hne hl).2.2, hl⟩, by rwa [hins hl], by rw [hins hl],
      fun hun' => hun ((hiff hl).1 hun')⟩

/-- The root was collapsed. -/
lemma Calmer.collapsed (h : Lone w b g r d i) (hc : Collapsed w b r i.kid w') :
    Calmer b w g w' (g.collapse r i.kid d) := by
  have ht := h.handle.tree
  have hlvl : ∀ {m e}, (g.collapse r i.kid d).lvl m = some e ↔
      (m = r ∧ e = d) ∨ (m ≠ r ∧ m ≠ i.kid ∧ g.lvl m = some e) :=
    Layout.collapse_lvl h.child_ne_root.symm
  have hnr : ∀ {m}, g.lvl m = some 0 → m ≠ r := fun hm => ht.ne_root hm (Nat.succ_pos d)
  have hroot : ¬ Underfull w' b r := by
    refine not_underfull_of_unflagged ?_
    rw [(hc.fields r).2.2.2]
    exact h.unflagged
  have hiff : ∀ {m}, m ≠ r → (Underfull w' b m ↔ Underfull w b m) := by
    intro m hm
    unfold Underfull
    rw [hc.buckets, (hc.fields m).2.2.2, Large.congr (hc.slice hm).1 (hc.inodes_eq hm)]
  have hkids : ∀ {q y}, g.lvl q = some 1 → y ∈ w.inodes q → w'.inodes y.kid = [] →
      w.inodes y.kid = [] := by
    intro q y hq hy hemp
    rwa [hc.inodes_eq (hnr (ht.kid hq hy))] at hemp
  have hleads : ∀ {m}, Leads w' (g.collapse r i.kid d) m → Leads w g m := by
    rintro m ⟨q, a1, y, a2, hq, hqi, hk, hall⟩
    have hmem : ∀ {l : List Inode}, l = a1 ++ y :: a2 → ∀ z ∈ a1, z ∈ l := by
      rintro l rfl z hz
      exact List.mem_append_left _ hz
    rcases hlvl.1 hq with ⟨rfl, rfl⟩ | ⟨hqr, -, hq⟩
    · rw [hc.inodes_root] at hqi
      exact ⟨i.kid, a1, y, a2, h.child_lvl, hqi, hk,
        fun z hz => hkids h.child_lvl (hmem hqi z hz) (hall z hz)⟩
    · rw [hc.inodes_eq hqr] at hqi
      exact ⟨q, a1, y, a2, hq, hqi, hk, fun z hz => hkids hq (hmem hqi z hz) (hall z hz)⟩
  refine .of_leaves (fun m hm _ => ?_) fun m hm hne hun => ?_
  · rcases hlvl.1 hm with ⟨rfl, hd⟩ | ⟨hmr, -, hm⟩
    · exact ⟨i.kid, hd ▸ h.child_lvl, hc.inodes_root.symm, fun hun => absurd hun hroot⟩
    · exact ⟨m, hm, (hc.inodes_eq hmr).symm, fun hun => ⟨(hiff hmr).1 hun, hleads⟩⟩
  · by_cases hmc : m = i.kid
    · subst hmc
      have hd : d = 0 := by
        have := h.child_lvl
        rw [hm] at this
        simpa using this.symm
      refine ⟨r, hlvl.2 (.inl ⟨rfl, hd.symm⟩), ?_, ?_, hroot⟩ <;> rw [hc.inodes_root]
      exact hne
    · have hmr := hnr hm
      exact ⟨m, hlvl.2 (.inr ⟨hmr, hmc, hm⟩), by rwa [hc.inodes_eq hmr], by rw [hc.inodes_eq hmr],
        fun hun' => hun ((hiff hmr).1 hun')⟩

/-! ## Joining two leaves -/

namespace Begun

/-- The flag of the leaf was cleared. -/
lemma start (ht : TreeOK w g r H) (hn : g.lvl n = some 0) (hu : Underfull w b n) :
    Begun b r n H w g (w.unflag n) g :=
  ⟨ht, hn, hu, World.unflag_inodes n, Leads.unflag, .unflag⟩

/-- A sibling was copied. -/
lemma copied (hs : Begun b r n H w0 g0 w g) (h : HandleBut w b g r H x) (hn : g.lvl n = some 0)
    (hnd : n ∈ (w.buckets b).dirty) (hp : p ∈ (w.buckets b).dirty) (hpl : g.lvl p = some (d + 1))
    (hi : (w.inodes p)[idx]? = some i) (hclean : i.kid ∉ (w.buckets b).dirty)
    (hc : Copied w b p i.kid idx w') : Begun b r n H w0 g0 w' (g.move i.kid w.nextNode) := by
  have hsub : subst i.kid w.nextNode n = n := if_neg fun (he : n = i.kid) => hclean (he ▸ hnd)
  refine ⟨hs.tree, hs.lvl, hs.underfull, ?_, fun hl => hs.leads ?_,
    hs.calmer.trans (Calmer.copied h hp hpl hi hc)⟩
  · have := copied_leaf h hp hpl hi hc hn
    rw [hsub] at this
    rw [this, hs.inodes]
  · exact Leads.copied h hp hpl hi hc hn (by rwa [hsub])

/-- The first key of the leaf is that of no other leaf. -/
lemma not_steady (hs : Begun b r n H w0 g0 w g) (hne : w.inodes n ≠ []) :
    firstKey (w.inodes n) ∉ leafKeys w0 g0 fun m => ¬ Underfull w0 b m := by
  rintro ⟨m, hm, hm_ne, hu, hkey⟩
  rw [hs.inodes] at hne hkey
  have := hs.tree.firstKey_inj hm hs.lvl hm_ne hne hkey
  subst this
  exact hu hs.underfull

end Begun

namespace Beside
variable (h : Beside w b g r H n p 0 l1 i j l2) (hm : Merged w b p i.kid j.kid (l1 ++ i :: l2) w')
include h hm

/-- The leaves other than the two. -/
lemma leaf_other (hl : g.lvl m = some 0) (hmi : m ≠ i.kid) :
    w'.inodes m = w.inodes m ∧ (Underfull w' b m ↔ Underfull w b m) := by
  have hmp := h.ne_parent hl
  have hins := h.view hm hl hmp hmi
  refine ⟨hins, ?_⟩
  unfold Underfull
  rw [hm.buckets, hm.flag hmp, Large.congr (hm.fields m).2.1 hins]

/-- A leaf that has become larger is not underfull if it was not before. -/
lemma underfull_left (hu : Underfull w' b i.kid) : Underfull w b i.kid := by
  obtain ⟨h1, h2, h3⟩ := hu
  rw [hm.buckets] at h1
  rw [hm.flag (h.ne_parent h.left_lvl)] at h2
  exact ⟨h1, h2, fun hlarge => h3 (hlarge.append (hm.fields i.kid).2.1 hm.inodes_left)⟩

/-- The leaves in front of a leaf were empty before if they are empty now. -/
lemma leads_of (hl : Leads w' (g.join i.kid j.kid) m) :
    Leads w g m ∧ (m = i.kid → w.inodes i.kid = [] → Leads w g j.kid) := by
  have ht := h.handle.tree
  obtain ⟨q, a1, y, a2, hq, hqi, hk, hall⟩ := hl
  have hq := (Layout.join_lvl.1 hq).2
  -- a leaf that is empty now was empty before
  have hemp : ∀ {z}, z ∈ w.inodes q → w'.inodes z.kid = [] → w.inodes z.kid = [] := by
    intro z hz hz'
    by_cases hzi : z.kid = i.kid
    · rw [hzi, hm.inodes_left, List.append_eq_nil_iff] at hz'
      rw [hzi]
      exact hz'.1
    · rwa [(h.leaf_other hm (ht.kid hq hz) hzi).1] at hz'
  have hy : y ∈ w'.inodes q := by
    rw [hqi]
    simp
  by_cases hqp : q = p
  · subst hqp
    rw [hm.inodes_parent] at hqi hy
    have hins := h.inodes
    have hmem : ∀ z ∈ l1 ++ i :: l2, z ∈ w.inodes q := by
      intro z hz
      rw [hins]
      simp only [List.mem_append, List.mem_cons] at hz ⊢
      tauto
    have hfront : ∀ z ∈ a1, w.inodes z.kid = [] := fun z hz =>
      hemp (hmem z (by rw [hqi]; exact List.mem_append_left _ hz)) (hall z hz)
    -- the left one stands only once in the parent
    have honce : ∀ z ∈ l1 ++ l2, z.kid ≠ i.kid := by
      intro z hz
      refine ht.kid_ne hq hins z ?_
      simp only [List.mem_append, List.mem_cons] at hz ⊢
      tauto
    rcases append_cons_cases hqi with ⟨t, rfl, rfl⟩ | ⟨rfl, rfl, rfl⟩ | ⟨t, rfl, rfl⟩
    · refine ⟨⟨q, a1, y, t ++ i :: j :: l2, hq, by rw [hins]; simp, hk, hfront⟩, fun hmi _ => ?_⟩
      exact absurd (hk.trans hmi) (honce y (by simp))
    · refine ⟨⟨q, l1, i, j :: l2, hq, hins, hk, hfront⟩, fun _ hi => ?_⟩
      refine ⟨q, l1 ++ [i], j, l2, hq, by rw [hins]; simp, rfl, fun z hz => ?_⟩
      simp only [List.mem_append, List.mem_singleton] at hz
      rcases hz with hz | rfl
      · exact hfront z hz
      · exact hi
    · have hij : w.inodes i.kid = [] ∧ w.inodes j.kid = [] := by
        have := hall i (by simp)
        rwa [hm.inodes_left, List.append_eq_nil_iff] at this
      refine ⟨⟨q, l1 ++ i :: j :: t, y, a2, hq, by rw [hins]; simp, hk, fun z hz => ?_⟩,
        fun hmi _ => ?_⟩
      · simp only [List.mem_append, List.mem_cons] at hz hfront
        rcases hz with hz | rfl | rfl | hz
        · exact hfront z (.inl hz)
        · exact hij.1
        · exact hij.2
        · exact hfront z (.inr (.inr hz))
      · exact absurd (hk.trans hmi) (honce y (by simp))
  · have hqi' : q ≠ i.kid := by
      rintro rfl
      rw [h.left_lvl] at hq
      cases hq
    have hview := h.view hm hq hqp hqi'
    rw [hview] at hqi hy
    refine ⟨⟨q, a1, y, a2, hq, hqi, hk, fun z hz => hemp ?_ (hall z hz)⟩, fun hmi _ => ?_⟩
    · rw [hqi]
      exact List.mem_append_left _ hz
    · have h1 := (ht.branch q 0 hq).par y hy
      rw [hk, hmi, (ht.branch p 0 h.lvl).par i h.mem.1] at h1
      exact absurd h1.symm hqp

/-- The leaf that is being rebalanced was joined to the one on its left. -/
lemma calmer_left (hn : n = j.kid) (hs : Begun b r n H w0 g0 w g) :
    Calmer b w0 g0 w' (g.join i.kid j.kid) := by
  have hfirst : w.inodes i.kid = [] → w'.inodes i.kid = w.inodes n := by
    intro hi
    rw [hm.inodes_left, hi, hn, List.nil_append]
  have hkey : w.inodes i.kid ≠ [] → firstKey (w'.inodes i.kid) = firstKey (w.inodes i.kid) := by
    intro hi
    rw [hm.inodes_left, firstKey_append hi]
  have hne0 : w0.inodes n ≠ [] := by
    rw [← hs.inodes]
    exact h.nonempty
  constructor
  case leading =>
    rintro k ⟨m, hl, hne, ⟨hu, hlead⟩, rfl⟩
    obtain ⟨hmj, hl⟩ := Layout.join_lvl.1 hl
    obtain ⟨h1, h2⟩ := h.leads_of hm hlead
    by_cases hmi : m = i.kid
    · subst hmi
      by_cases hi : w.inodes i.kid = []
      · refine ⟨n, hs.lvl, hne0, ⟨hs.underfull, hs.leads ?_⟩, by rw [hfirst hi, hs.inodes]⟩
        rw [hn]
        exact h2 rfl hi
      · exact hs.calmer.leading ⟨_, hl, hi, ⟨h.underfull_left hm hu, h1⟩, (hkey hi).symm⟩
    · obtain ⟨h3, h4⟩ := h.leaf_other hm hl hmi
      exact hs.calmer.leading ⟨m, hl, by rwa [← h3], ⟨h4.1 hu, h1⟩, by rw [h3]⟩
  case underfull =>
    rintro k ⟨m, hl, hne, hu, rfl⟩
    obtain ⟨hmj, hl⟩ := Layout.join_lvl.1 hl
    by_cases hmi : m = i.kid
    · subst hmi
      by_cases hi : w.inodes i.kid = []
      · exact ⟨n, hs.lvl, hne0, hs.underfull, by rw [hfirst hi, hs.inodes]⟩
      · exact hs.calmer.underfull ⟨_, hl, hi, h.underfull_left hm hu, (hkey hi).symm⟩
    · obtain ⟨h3, h4⟩ := h.leaf_other hm hl hmi
      exact hs.calmer.underfull ⟨m, hl, by rwa [← h3], h4.1 hu, by rw [h3]⟩
  case steady =>
    intro k hk
    have hne : k ≠ firstKey (w.inodes n) := by
      rintro rfl
      exact hs.not_steady h.nonempty hk
    obtain ⟨m, hl, hm_ne, hu, rfl⟩ := hs.calmer.steady hk
    have hmj : m ≠ j.kid := by
      rintro rfl
      exact hne (by rw [hn])
    by_cases hmi : m = i.kid
    · subst hmi
      refine ⟨i.kid, Layout.join_lvl.2 ⟨hmj, hl⟩, ?_, fun hu' => hu (h.underfull_left hm hu'),
        hkey hm_ne⟩
      rw [hm.inodes_left]
      simp [hm_ne]
    · obtain ⟨h3, h4⟩ := h.leaf_other hm hl hmi
      exact ⟨m, Layout.join_lvl.2 ⟨hmj, hl⟩, by rwa [h3], fun hu' => hu (h4.1 hu'), by rw [h3]⟩

/-- The leaf that is being rebalanced took over the one on its right. -/
lemma spaced_right (hn : n = i.kid) (hs : Begun b r n H w0 g0 w g) (hsp : Spaced w0 b g0) :
    Spaced w' b (g.join i.kid j.kid) := by
  have ht := h.handle.tree
  have hi_ne : w.inodes i.kid ≠ [] := hn ▸ h.nonempty
  have hkey : firstKey (w'.inodes i.kid) = firstKey (w.inodes i.kid) := by
    rw [hm.inodes_left, firstKey_append hi_ne]
  have hsteady : ¬ Underfull w' b i.kid := by
    refine not_underfull_of_unflagged ?_
    rw [hm.flag (h.ne_parent h.left_lvl), ← hn]
    exact h.unflagged
  have hleft : firstKey (w.inodes i.kid) ∈
      leafKeys w' (g.join i.kid j.kid) fun m => ¬ Underfull w' b m := by
    refine ⟨i.kid, Layout.join_lvl.2 ⟨h.left_ne_right, h.left_lvl⟩, ?_, hsteady, hkey⟩
    rw [hm.inodes_left]
    simp [hi_ne]
  rintro k ⟨m, hl, hne, ⟨hu, hlead⟩, rfl⟩ k' ⟨m', hl', hne', hu', rfl⟩ hlt
  obtain ⟨hmj, hl⟩ := Layout.join_lvl.1 hl
  obtain ⟨hmj', hl'⟩ := Layout.join_lvl.1 hl'
  have hmi : m ≠ i.kid := by
    rintro rfl
    exact hsteady hu
  have hmi' : m' ≠ i.kid := by
    rintro rfl
    exact hsteady hu'
  obtain ⟨h1, h2⟩ := h.leaf_other hm hl hmi
  obtain ⟨h1', h2'⟩ := h.leaf_other hm hl' hmi'
  rw [h1] at hlt hne ⊢
  rw [h1'] at hlt hne' ⊢
  obtain ⟨s, hs', hlt1, hlt2⟩ :=
    hsp _ (hs.calmer.leading ⟨m, hl, hne, ⟨h2.1 hu, (h.leads_of hm hlead).1⟩, rfl⟩)
    _ (hs.calmer.underfull ⟨m', hl', hne', h2'.1 hu', rfl⟩) hlt
  obtain ⟨t, ht', ht_ne, htu, rfl⟩ := hs.calmer.steady hs'
  by_cases hti : t = i.kid
  · subst hti
    exact ⟨_, hleft, hlt1, hlt2⟩
  by_cases htj : t = j.kid
  · -- the right one is gone, but the left one is between the two as well
    subst htj
    have hmi_lt := ht.firstKey_lt_left h.lvl h.inodes hi_ne ht_ne hl hne hmi hlt1
    exact ⟨_, hleft, hmi_lt, (ht.firstKey_lt h.lvl h.inodes hi_ne ht_ne).trans hlt2⟩
  · obtain ⟨h3, h4⟩ := h.leaf_other hm ht' hti
    exact ⟨_, ⟨t, Layout.join_lvl.2 ⟨htj, ht'⟩, by rwa [h3], fun hu => htu (h4.1 hu), by rw [h3]⟩,
      hlt1, hlt2⟩

end Beside

end

end Vmbolt
