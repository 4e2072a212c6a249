import Vmbolt.Tree.Splice

/-!
# Taking nodes out of a tree

What `node.rebalance` does to the shape of a tree. An empty leaf is dropped, the inodes of a node
move to its left neighbour, and the only child of the root moves up into the root. The layout
follows, and the contents of the tree stay.
-/

namespace Vmbolt

/-- The node `c` is taken out. -/
def Layout.drop (g : Layout) (c : NodeId) : Layout := { g with lvl := Function.update g.lvl c none }

/-- The children of `c` come under `a`, which becomes responsible for both ranges. -/
def Layout.join (g : Layout) (a c : NodeId) : Layout where
  lvl := Function.update g.lvl c none
  par m := if g.par m = c then a else g.par m
  lo := Function.update g.lo a (min (g.lo a) (g.lo c))
  hi := Function.update g.hi a (max (g.hi a) (g.hi c))

/-- The root `r` takes the place of its only child `c` of level `d`. -/
def Layout.collapse (g : Layout) (r c : NodeId) (d : Nat) : Layout where
  lvl := Function.update (Function.update g.lvl c none) r (some d)
  par m := if g.par m = c then r else g.par m
  lo := g.lo
  hi := g.hi

section
variable {w w' : World} {g g' : Layout} {r p n c a : NodeId} {H d e : Nat} {l1 l2 : List Inode}
  {i j : Inode}

/-! ## One branch -/

/-- A branch some of whose children are taken out. -/
lemma BranchOK.sublist {ins ins' : List Inode} (h : BranchOK w g n d ins) (hsub : ins'.Sublist ins)
    (hne : ins' ≠ []) : BranchOK w g n d ins' where
  ne := hne
  sorted := h.sorted.sublist hsub
  key_ne i hi := h.key_ne i (hsub.mem hi)
  value i hi := h.value i (hsub.mem hi)
  child i hi := h.child i (hsub.mem hi)
  lvl i hi := h.lvl i (hsub.mem hi)
  par i hi := h.par i (hsub.mem hi)
  key i hi := h.key i (hsub.mem hi)
  lo i hi := h.lo i (hsub.mem hi)
  hi i hi := h.hi i (hsub.mem hi)
  hi_kid i hi := h.hi_kid i (hsub.mem hi)
  hi_next := h.hi_next.sublist hsub
  lo_tail i hi := h.lo_tail i (hsub.tail.mem hi)
  lo_all hlo i hi := h.lo_all hlo i (hsub.mem hi)

/-- What two neighbours under a branch have to do with each other: `i` comes in front of `j`. -/
lemma BranchOK.neighbours (h : BranchOK w g p d (l1 ++ i :: j :: l2)) :
    i.key < j.key ∧ g.hi i.kid ≤ (j.key : WithTop Bytes) ∧ j.key ≤ g.lo j.kid := by
  have hsub : [i, j].Sublist (l1 ++ i :: j :: l2) := by simp
  have hs := h.sorted.sublist hsub
  have hn := h.hi_next.sublist hsub
  simp only [List.pairwise_cons, List.mem_singleton, forall_eq] at hs hn
  refine ⟨hs.1, hn.1, h.lo_tail j ?_⟩
  cases l1 <;> simp

/-- A branch in which the child of `i` takes over the range of its right neighbour. -/
lemma BranchOK.widen (h : BranchOK w g p d (l1 ++ i :: j :: l2)) (hlo : g'.lo p = g.lo p)
    (hhi : g'.hi p = g.hi p) (hilvl : g'.lvl i.kid = g.lvl i.kid)
    (hipar : g'.par i.kid = g.par i.kid) (hikey : (w'.nodes i.kid).key = (w.nodes i.kid).key)
    (hilo : g'.lo i.kid = min (g.lo i.kid) (g.lo j.kid))
    (hihi : g'.hi i.kid = max (g.hi i.kid) (g.hi j.kid))
    (hrest : ∀ k ∈ l1 ++ l2, SameKid w w' g g' k.kid) : BranchOK w' g' p d (l1 ++ i :: l2) := by
  obtain ⟨hij, -, hj⟩ := h.neighbours
  have hsub : (l1 ++ i :: l2).Sublist (l1 ++ i :: j :: l2) := by simp
  have hb := h.sublist hsub (by simp)
  have hi : i ∈ l1 ++ i :: l2 := by simp
  have hjm : j ∈ l1 ++ i :: j :: l2 := by simp
  -- a condition on the inodes holds for `i` and for the others
  have hall : ∀ {P : Inode → Prop}, P i → (∀ k ∈ l1 ++ l2, P k) → ∀ k ∈ l1 ++ i :: l2, P k := by
    intro P h1 h2 k hk
    simp only [List.mem_append, List.mem_cons] at hk h2
    rcases hk with hk | rfl | hk
    · exact h2 k (.inl hk)
    · exact h1
    · exact h2 k (.inr hk)
  have hmem : ∀ {k}, k ∈ l1 ++ l2 → k ∈ l1 ++ i :: l2 := by
    intro k hk
    simp only [List.mem_append, List.mem_cons] at hk ⊢
    tauto
  have hlo_i : i.key ≤ g.lo i.kid → i.key ≤ g'.lo i.kid := by
    intro hle
    rw [hilo]
    exact le_min hle (hij.le.trans hj)
  constructor
  case ne => simp
  case sorted => exact hb.sorted
  case key_ne => exact hb.key_ne
  case value => exact hb.value
  case child => exact hb.child
  case lvl =>
    exact hall (hilvl.trans (hb.lvl i hi)) fun k hk => (hrest k hk).lvl.trans (hb.lvl k (hmem hk))
  case par =>
    exact hall (hipar.trans (hb.par i hi)) fun k hk => (hrest k hk).par.trans (hb.par k (hmem hk))
  case key =>
    exact hall (hikey.trans (hb.key i hi)) fun k hk => (hrest k hk).key.trans (hb.key k (hmem hk))
  case lo =>
    intro k hk
    rw [hlo]
    exact hb.lo k hk
  case hi =>
    intro k hk
    rw [hhi]
    exact hb.hi k hk
  case hi_kid =>
    rw [hhi]
    refine hall ?_ fun k hk => (hrest k hk).hi.trans_le (hb.hi_kid k (hmem hk))
    rw [hihi]
    exact max_le (hb.hi_kid i hi) (h.hi_kid j hjm)
  case hi_next =>
    have hn := h.hi_next
    rw [List.pairwise_append, List.pairwise_cons, List.pairwise_cons] at hn
    rw [List.pairwise_append, List.pairwise_cons]
    obtain ⟨hn1, ⟨hni, hnj, hn2⟩, hn12⟩ := hn
    refine ⟨hn1.imp_of_mem fun ha _ hab => ?_, ⟨fun k hk => ?_, hn2.imp_of_mem fun ha _ hab => ?_⟩,
      fun k hk k' hk' => ?_⟩
    · rw [(hrest _ (List.mem_append_left _ ha)).hi]
      exact hab
    · rw [hihi]
      exact max_le (hni k (.tail _ hk)) (hnj k hk)
    · rw [(hrest _ (List.mem_append_right _ ha)).hi]
      exact hab
    · rw [(hrest k (List.mem_append_left _ hk)).hi]
      refine hn12 k hk k' ?_
      simp only [List.mem_cons] at hk' ⊢
      tauto
  case lo_tail =>
    intro k hk
    have hle := hb.lo_tail k hk
    by_cases hki : k = i
    · subst hki
      exact hlo_i hle
    · have hk' : k ∈ l1 ++ l2 := by
        have := List.mem_of_mem_tail hk
        simp only [List.mem_append, List.mem_cons] at this ⊢
        tauto
      rw [(hrest k hk').lo]
      exact hle
  case lo_all =>
    intro hne
    rw [hlo] at hne
    have hle := hb.lo_all hne
    refine hall (hlo_i (hle i hi)) fun k hk => ?_
    rw [(hrest k hk).lo]
    exact hle k (hmem hk)

/-- Two neighbouring leaves in one. -/
lemma LeafOK.append {ins ins' : List Inode} (h : LeafOK g a ins) (h' : LeafOK g c ins') {k : Bytes}
    (hhi : g.hi a ≤ (k : WithTop Bytes)) (hlo : k ≤ g.lo c) (hlo' : g'.lo a = min (g.lo a) (g.lo c))
    (hhi' : g'.hi a = max (g.hi a) (g.hi c)) : LeafOK g' a (ins ++ ins') where
  sorted := List.pairwise_append.2 ⟨h.sorted, h'.sorted, fun x hx y hy =>
    (WithTop.coe_lt_coe.1 ((h.hi x hx).trans_le hhi)).trans_le (hlo.trans (h'.lo y hy))⟩
  entry i hi := (List.mem_append.1 hi).elim (h.entry i) (h'.entry i)
  lo i hi := by
    rw [hlo']
    rcases List.mem_append.1 hi with hi | hi
    · exact (min_le_left _ _).trans (h.lo i hi)
    · exact (min_le_right _ _).trans (h'.lo i hi)
  hi i hi := by
    rw [hhi']
    rcases List.mem_append.1 hi with hi | hi
    · exact (h.hi i hi).trans_le (le_max_left _ _)
    · exact (h'.hi i hi).trans_le (le_max_right _ _)

/-- Two neighbouring branches in one. -/
lemma BranchOK.append {ins ins' : List Inode} (h : BranchOK w g a d ins)
    (h' : BranchOK w g c d ins') {k : Bytes} (hk : k ≠ []) (hhi : g.hi a ≤ (k : WithTop Bytes))
    (hlo : k ≤ g.lo c) (hlo' : g'.lo a = min (g.lo a) (g.lo c))
    (hhi' : g'.hi a = max (g.hi a) (g.hi c)) (hpar : ∀ x ∈ ins ++ ins', g'.par x.kid = a)
    (hkids : ∀ x ∈ ins ++ ins', g'.lvl x.kid = g.lvl x.kid ∧ g'.lo x.kid = g.lo x.kid ∧
      g'.hi x.kid = g.hi x.kid ∧ (w'.nodes x.kid).key = (w.nodes x.kid).key) :
    BranchOK w' g' a d (ins ++ ins') := by
  have hall : ∀ {P : Inode → Prop}, (∀ x ∈ ins, P x) → (∀ x ∈ ins', P x) → ∀ x ∈ ins ++ ins', P x :=
    fun h1 h2 x hx => (List.mem_append.1 hx).elim (h1 x) (h2 x)
  have hlt : ∀ x ∈ ins, ∀ y ∈ ins', x.key < y.key := fun x hx y hy =>
    (WithTop.coe_lt_coe.1 ((h.hi x hx).trans_le hhi)).trans_le (hlo.trans (h'.lo y hy))
  have hne : g.lo c ≠ [] := by
    intro hc
    rw [hc] at hlo
    exact hk (le_antisymm hlo (nil_le_bytes _))
  constructor
  case ne => simp [h.ne]
  case sorted => exact List.pairwise_append.2 ⟨h.sorted, h'.sorted, hlt⟩
  case key_ne => exact hall h.key_ne h'.key_ne
  case value => exact hall h.value h'.value
  case child => exact hall h.child h'.child
  case lvl =>
    intro x hx
    rw [(hkids x hx).1]
    exact hall h.lvl h'.lvl x hx
  case par => exact hpar
  case key =>
    intro x hx
    rw [(hkids x hx).2.2.2]
    exact hall h.key h'.key x hx
  case lo =>
    rw [hlo']
    exact hall (fun x hx => (min_le_left _ _).trans (h.lo x hx))
      fun x hx => (min_le_right _ _).trans (h'.lo x hx)
  case hi =>
    rw [hhi']
    exact hall (fun x hx => (h.hi x hx).trans_le (le_max_left _ _))
      fun x hx => (h'.hi x hx).trans_le (le_max_right _ _)
  case hi_kid =>
    intro x hx
    rw [hhi', (hkids x hx).2.2.1]
    exact hall (P := fun x => g.hi x.kid ≤ max (g.hi a) (g.hi c))
      (fun x hx => (h.hi_kid x hx).trans (le_max_left _ _))
      (fun x hx => (h'.hi_kid x hx).trans (le_max_right _ _)) x hx
  case hi_next =>
    have hn : (ins ++ ins').Pairwise fun x y => g.hi x.kid ≤ (y.key : WithTop Bytes) := by
      refine List.pairwise_append.2 ⟨h.hi_next, h'.hi_next, fun x hx y hy => ?_⟩
      exact (h.hi_kid x hx).trans (hhi.trans (WithTop.coe_le_coe.2 (hlo.trans (h'.lo y hy))))
    exact hn.imp_of_mem fun hx _ hxy => ((hkids _ hx).2.2.1).trans_le hxy
  case lo_tail =>
    intro x hx
    rw [(hkids x (List.mem_of_mem_tail hx)).2.1]
    rw [List.tail_append_of_ne_nil h.ne] at hx
    rcases List.mem_append.1 hx with hx | hx
    · exact h.lo_tail x hx
    · exact h'.lo_all hne x hx
  case lo_all =>
    intro hlo_ne x hx
    have hane : g.lo a ≠ [] := by
      intro ha
      rw [hlo', ha] at hlo_ne
      exact hlo_ne (min_eq_left (nil_le_bytes _))
    rw [(hkids x hx).2.1]
    exact hall (h.lo_all hane) (h'.lo_all hne) x hx

/-! ## Ranges -/

/-- The children of a branch are responsible for different keys. -/
lemma BranchOK.ranges {ins : List Inode} (h : BranchOK w g n d ins) :
    ins.Pairwise fun x y => g.hi x.kid ≤ (g.lo y.kid : WithTop Bytes) := by
  have hlo : ins.Pairwise fun _ y => y.key ≤ g.lo y.kid := by
    cases ins with
    | nil => exact List.Pairwise.nil
    | cons x l =>
      have htail : ∀ y ∈ l, y.key ≤ g.lo y.kid := fun y hy => h.lo_tail y hy
      refine List.pairwise_cons.2 ⟨htail, ?_⟩
      exact List.pairwise_of_forall_mem_list fun _ _ y hy => htail y hy
  exact (h.hi_next.and hlo).imp fun hxy => hxy.1.trans (WithTop.coe_le_coe.2 hxy.2)

/-- Two nodes of one level are responsible for different keys. -/
lemma TreeOK.ranges (h : TreeOK w g r H) {m : NodeId} (hm : g.lvl m = some d)
    (hn : g.lvl n = some d) (hmn : m ≠ n) :
    g.hi m ≤ (g.lo n : WithTop Bytes) ∨ g.hi n ≤ (g.lo m : WithTop Bytes) := by
  have hd := h.le_height hm
  -- climb to the root, where there is only one node
  obtain ⟨k, hk⟩ : ∃ k, d + k = H := ⟨H - d, by omega⟩
  induction k generalizing d m n with
  | zero =>
    obtain rfl : d = H := by omega
    exact absurd ((h.eq_root hm).trans (h.eq_root hn).symm) hmn
  | succ k ih =>
    have hlt : d < H := by omega
    obtain ⟨-, hpm, x, hx, hxm⟩ := h.up m d hm (h.ne_root hm hlt)
    obtain ⟨-, hpn, y, hy, hyn⟩ := h.up n d hn (h.ne_root hn hlt)
    by_cases hp : g.par m = g.par n
    · have hb := (h.branch _ d hpm).ranges
      rw [hp] at hb hx
      have hne : x ≠ y := by
        rintro rfl
        exact hmn (hxm.symm.trans hyn)
      let R : Inode → Inode → Prop := fun x y =>
        g.hi x.kid ≤ (g.lo y.kid : WithTop Bytes) ∨ g.hi y.kid ≤ (g.lo x.kid : WithTop Bytes)
      have hsymm : Std.Symm R := ⟨fun _ _ => Or.symm⟩
      have hR : (w.inodes (g.par n)).Pairwise R := hb.imp .inl
      have hxy : R x y := hR.forall hx hy hne
      simpa only [R, hxm, hyn] using hxy
    · have hbm := h.branch _ d hpm
      have hbn := h.branch _ d hpn
      have hm' := hbm.hi_kid x hx
      have hn' := hbn.hi_kid y hy
      have hlm := hbm.lo_le hx
      have hln := hbn.lo_le hy
      rw [hxm] at hm' hlm
      rw [hyn] at hn' hln
      rcases ih hpm hpn hp (by omega) (by omega) with hr | hr
      · exact .inl (hm'.trans (hr.trans (WithTop.coe_le_coe.2 hln)))
      · exact .inr (hn'.trans (hr.trans (WithTop.coe_le_coe.2 hlm)))

/-! ## Dropping a leaf -/

lemma Layout.drop_lvl : (g.drop c).lvl n = some e ↔ n ≠ c ∧ g.lvl n = some e := by
  unfold Layout.drop
  dsimp only
  by_cases h : n = c
  · simp [h]
  · simp [h]

/-- The leaf `i.kid` was taken out of its parent `p`. -/
structure Drops (g : Layout) (p : NodeId) (l1 : List Inode) (i : Inode) (l2 : List Inode)
    (w w' : World) : Prop where
  inodes : w.inodes p = l1 ++ i :: l2
  ne : l1 ++ l2 ≠ []
  same : SameBut g {p, i.kid} w w'
  parent_isLeaf : (w'.nodes p).isLeaf = (w.nodes p).isLeaf
  parent_key : (w'.nodes p).key = (w.nodes p).key
  parent_inodes : w'.inodes p = l1 ++ l2

lemma Drops.treeOK (h : TreeOK w g r H) (hp : g.lvl p = some 1) (hd : Drops g p l1 i l2 w w') :
    TreeOK w' (g.drop i.kid) r H := by
  obtain ⟨hins, hne, hs, hleaf, hkey, hins'⟩ := hd
  have hi : i ∈ w.inodes p := by rw [hins]; simp
  have hc : g.lvl i.kid = some 0 := h.kid hp hi
  have hcp : i.kid ≠ p := by
    intro he
    rw [he, hp] at hc
    cases hc
  have hcr : i.kid ≠ r := h.ne_root hc (by have := h.le_height hp; omega)
  have hnot : ∀ {m}, m ≠ p → m ≠ i.kid → m ∉ ({p, i.kid} : Set NodeId) := by
    intro m h1 h2
    simp [h1, h2]
  have hkeys : ∀ m k, g.lvl m = some k → m ≠ i.kid → (w'.nodes m).key = (w.nodes m).key := by
    intro m k hm hmc
    by_cases hmp : m = p
    · rw [hmp, hkey]
    · exact hs.key m k hm (hnot hmp hmc)
  -- the children that are left
  have hkid : ∀ m k, g.lvl m = some (k + 1) → ∀ x ∈ w'.inodes m, x ∈ w.inodes m ∧
      x.kid ≠ i.kid := by
    intro m k hm x hx
    by_cases hmp : m = p
    · subst hmp
      rw [hins'] at hx
      refine ⟨?_, h.kid_ne hp hins x hx⟩
      rw [hins]
      simp only [List.mem_append, List.mem_cons] at hx ⊢
      tauto
    · have hmc : m ≠ i.kid := by
        rintro rfl
        rw [hc] at hm
        cases hm
      rw [hs.inodes m _ hm (hnot hmp hmc)] at hx
      refine ⟨hx, h.kid_ne_of_par hm ?_ hx⟩
      rw [(h.branch p 0 hp).par i hi]
      exact hmp
  constructor
  case lvl_root => exact Layout.drop_lvl.2 ⟨hcr.symm, h.lvl_root⟩
  case alloc =>
    intro m k hm
    exact (h.alloc m k (Layout.drop_lvl.1 hm).2).trans_le hs.nextNode
  case isLeaf =>
    intro m k hm
    obtain ⟨hmc, hm⟩ := Layout.drop_lvl.1 hm
    by_cases hmp : m = p
    · subst hmp
      rw [hleaf]
      exact h.isLeaf m k hm
    · rw [hs.isLeaf m k hm (hnot hmp hmc)]
      exact h.isLeaf m k hm
  case leaf =>
    intro m hm
    obtain ⟨hmc, hm⟩ := Layout.drop_lvl.1 hm
    have hmp : m ≠ p := by
      rintro rfl
      rw [hp] at hm
      cases hm
    rw [hs.inodes m 0 hm (hnot hmp hmc)]
    exact (h.leaf m hm).congr rfl rfl
  case branch =>
    intro m k hm
    obtain ⟨hmc, hm⟩ := Layout.drop_lvl.1 hm
    have hsub : (w'.inodes m).Sublist (w.inodes m) ∧ w'.inodes m ≠ [] := by
      by_cases hmp : m = p
      · subst hmp
        rw [hins', hins]
        exact ⟨List.Sublist.append_left (List.sublist_cons_self _ _) _, hne⟩
      · rw [hs.inodes m _ hm (hnot hmp hmc)]
        exact ⟨.refl _, (h.branch m k hm).ne⟩
    have hb := (h.branch m k hm).sublist hsub.1 hsub.2
    refine hb.congr rfl rfl (fun x hx => ?_) hb.par (fun _ _ => rfl) (fun _ _ => rfl) fun x hx => ?_
    · have hx' := (hkid m k hm x hx).2
      rw [Layout.drop]
      exact Function.update_of_ne hx' _ _
    · exact hkeys _ k (hb.lvl x hx) (hkid m k hm x hx).2
  case up =>
    intro m k hm hmr
    obtain ⟨hmc, hm⟩ := Layout.drop_lvl.1 hm
    obtain ⟨hk, hq, x, hx, hxm⟩ := h.up m k hm hmr
    have hqc : g.par m ≠ i.kid := by
      intro hq'
      rw [hq', hc] at hq
      cases hq
    refine ⟨hk, Layout.drop_lvl.2 ⟨hqc, hq⟩, x, ?_, hxm⟩
    change x ∈ w'.inodes (g.par m)
    by_cases hqp : g.par m = p
    · rw [hqp, hins] at hx
      rw [hqp, hins']
      simp only [List.mem_append, List.mem_cons] at hx ⊢
      rcases hx with hx | rfl | hx
      · exact .inl hx
      · exact absurd hxm.symm hmc
      · exact .inr hx
    · rw [hs.inodes _ _ hq (hnot hqp hqc)]
      exact hx

/-- The contents around a node of level `d + 1` some of whose children were changed. -/
lemma TreeOK.contents_kids (h : TreeOK w g r H) (hp : g.lvl p = some (d + 1)) {S : Set NodeId}
    (hS : ∀ m ∈ S, g.lvl m = some d ∧ g.par m = p)
    (hsame : ∀ m k, g.lvl m = some k → m ≠ p → m ∉ S → w'.inodes m = w.inodes m)
    (hcon : contents w' (d + 1) p = contents w (d + 1) p) : contents w' H r = contents w H r := by
  obtain ⟨pre, post, h1, h2, -⟩ := h.contents_around w' hp fun m k hm hne => by
    refine hsame m k hm (fun hmp => ?_) fun hmS => ?_
    · rw [hmp, hp] at hm
      cases hm
      exact hne le_rfl (by rw [hmp, Nat.sub_self]; rfl)
    · obtain ⟨hml, hmpar⟩ := hS m hmS
      rw [hml] at hm
      cases hm
      refine hne (Nat.le_succ _) ?_
      rw [Nat.add_sub_cancel_left]
      exact hmpar
  rw [h1, h2, hcon]

/-- The contents under a node that is not changed and lies below the changed ones. -/
lemma TreeOK.contents_below (h : TreeOK w g r H) {S : Set NodeId}
    (hS : ∀ m ∈ S, ∃ k, g.lvl m = some k ∧ d ≤ k)
    (hsame : ∀ m k, g.lvl m = some k → m ∉ S → w'.inodes m = w.inodes m) (hn : g.lvl n = some d)
    (hnS : n ∉ S) : contents w' d n = contents w d n := by
  refine contents_congr (fun k m => g.lvl m = some k ∧ k ≤ d ∧ m ∉ S) ?_ ?_ d n ⟨hn, le_rfl, hnS⟩
  · rintro k m ⟨hm, hk, -⟩ x hx
    refine ⟨h.kid hm hx, by omega, fun hxS => ?_⟩
    obtain ⟨k', hk', hle⟩ := hS _ hxS
    rw [h.kid hm hx] at hk'
    cases hk'
    omega
  · rintro k m ⟨hm, -, hmS⟩
    exact hsame m k hm hmS

/-- Dropping an empty leaf keeps the contents. -/
lemma Drops.contents_eq (h : TreeOK w g r H) (hp : g.lvl p = some 1) (hd : Drops g p l1 i l2 w w')
    (hempty : w.inodes i.kid = []) : contents w' H r = contents w H r := by
  obtain ⟨hins, -, hs, -, -, hins'⟩ := hd
  have hi : i ∈ w.inodes p := by rw [hins]; simp
  have hb := h.branch p 0 hp
  refine h.contents_kids (S := {i.kid}) hp (fun m hm => ?_) (fun m k hm hmp hmS => ?_) ?_
  · rw [Set.mem_singleton_iff] at hm
    subst hm
    exact ⟨hb.lvl i hi, hb.par i hi⟩
  · exact hs.inodes m k hm (by simpa [hmp] using hmS)
  · have hkids : ∀ x ∈ l1 ++ l2, contents w' 0 x.kid = contents w 0 x.kid := by
      intro x hx
      have hx' : x ∈ w.inodes p := by
        rw [hins]
        simp only [List.mem_append, List.mem_cons] at hx ⊢
        tauto
      have hxp : x.kid ≠ p := by
        intro he
        have := hb.lvl x hx'
        rw [he, hp] at this
        cases this
      unfold contents
      rw [hs.inodes x.kid 0 (hb.lvl x hx') (by simp [hxp, h.kid_ne hp hins x hx])]
    have hzero : contents w 0 i.kid = [] := by
      unfold contents
      rw [hempty]
      rfl
    change (w'.inodes p).flatMap _ = (w.inodes p).flatMap _
    rw [hins', hins, List.flatMap_congr hkids]
    simp [hzero]

/-! ## Joining two neighbours -/

lemma Layout.join_lvl : (g.join a c).lvl n = some e ↔ n ≠ c ∧ g.lvl n = some e := Layout.drop_lvl

lemma Layout.join_par (h : g.par n ≠ c) : (g.join a c).par n = g.par n := if_neg h

lemma Layout.join_lo (h : n ≠ a) : (g.join a c).lo n = g.lo n := Function.update_of_ne h _ _

lemma Layout.join_hi (h : n ≠ a) : (g.join a c).hi n = g.hi n := Function.update_of_ne h _ _

/-- The right neighbour `j.kid` of `i.kid` under `p` was joined to `i.kid`. -/
structure Joins (g : Layout) (p : NodeId) (l1 : List Inode) (i j : Inode) (l2 : List Inode)
    (w w' : World) : Prop where
  inodes : w.inodes p = l1 ++ i :: j :: l2
  same : SameBut g {p, i.kid, j.kid} w w'
  parent_isLeaf : (w'.nodes p).isLeaf = (w.nodes p).isLeaf
  parent_key : (w'.nodes p).key = (w.nodes p).key
  parent_inodes : w'.inodes p = l1 ++ i :: l2
  isLeaf : (w'.nodes i.kid).isLeaf = (w.nodes i.kid).isLeaf
  key : (w'.nodes i.kid).key = (w.nodes i.kid).key
  left_inodes : w'.inodes i.kid = w.inodes i.kid ++ w.inodes j.kid

namespace Joins

lemma left_mem (hj : Joins g p l1 i j l2 w w') : i ∈ w.inodes p := by rw [hj.inodes]; simp

lemma right_mem (hj : Joins g p l1 i j l2 w w') : j ∈ w.inodes p := by rw [hj.inodes]; simp

/-- A node other than the three has kept its fields and its inodes. -/
lemma other (hj : Joins g p l1 i j l2 w w') {m : NodeId} {k : Nat} (hm : g.lvl m = some k)
    (h1 : m ≠ p) (h2 : m ≠ i.kid) (h3 : m ≠ j.kid) : (w'.nodes m).isLeaf = (w.nodes m).isLeaf ∧
      (w'.nodes m).key = (w.nodes m).key ∧ w'.inodes m = w.inodes m := by
  have hnot : m ∉ ({p, i.kid, j.kid} : Set NodeId) := by simp [h1, h2, h3]
  exact ⟨hj.same.isLeaf m k hm hnot, hj.same.key m k hm hnot, hj.same.inodes m k hm hnot⟩

/-- The keys of the nodes that are left stay. -/
lemma key_eq (hj : Joins g p l1 i j l2 w w') {m : NodeId} {k : Nat} (hm : g.lvl m = some k)
    (hmc : m ≠ j.kid) :
    (w'.nodes m).key = (w.nodes m).key := by
  by_cases h1 : m = p
  · rw [h1, hj.parent_key]
  by_cases h2 : m = i.kid
  · rw [h2, hj.key]
  · exact (hj.other hm h1 h2 hmc).2.1

lemma isLeaf_eq (hj : Joins g p l1 i j l2 w w') {m : NodeId} {k : Nat} (hm : g.lvl m = some k)
    (hmc : m ≠ j.kid) :
    (w'.nodes m).isLeaf = (w.nodes m).isLeaf := by
  by_cases h1 : m = p
  · rw [h1, hj.parent_isLeaf]
  by_cases h2 : m = i.kid
  · rw [h2, hj.isLeaf]
  · exact (hj.other hm h1 h2 hmc).1

variable (h : TreeOK w g r H) (hp : g.lvl p = some (d + 1)) (hj : Joins g p l1 i j l2 w w')
include h hp hj

lemma left_lvl : g.lvl i.kid = some d := h.kid hp hj.left_mem

lemma right_lvl : g.lvl j.kid = some d := h.kid hp hj.right_mem

lemma left_ne_right : i.kid ≠ j.kid := by
  intro he
  have hij := h.kid_inj hp hj.left_mem hj.right_mem he
  have hb := h.branch p d hp
  rw [hj.inodes] at hb
  have hlt := hb.neighbours.1
  rw [hij] at hlt
  exact lt_irrefl _ hlt

lemma left_ne_parent : i.kid ≠ p := by
  intro he
  have hl := hj.left_lvl h hp
  rw [he, hp] at hl
  simp at hl

lemma right_ne_parent : j.kid ≠ p := by
  intro he
  have hl := hj.right_lvl h hp
  rw [he, hp] at hl
  simp at hl

lemma right_ne_root : j.kid ≠ r := by
  have hle := h.le_height hp
  exact h.ne_root (hj.right_lvl h hp) (by omega)

/-- The other children of `p`. -/
lemma rest_ne {x : Inode} (hx : x ∈ l1 ++ l2) :
    x ∈ w.inodes p ∧ x.kid ≠ i.kid ∧ x.kid ≠ j.kid := by
  have hins := hj.inodes
  have hx' : x ∈ l1 ++ j :: l2 ∧ x ∈ (l1 ++ [i]) ++ l2 := by
    simp only [List.mem_append, List.mem_cons] at hx ⊢
    tauto
  have hins' : w.inodes p = (l1 ++ [i]) ++ j :: l2 := by simp [hins]
  refine ⟨?_, h.kid_ne hp hins x hx'.1, h.kid_ne hp hins' x hx'.2⟩
  rw [hins]
  simp only [List.mem_append, List.mem_cons] at hx ⊢
  tauto

/-- The tree with the two neighbours in one. -/
lemma treeOK : TreeOK w' (g.join i.kid j.kid) r H := by
  have hb := h.branch p d hp
  have hil := hj.left_lvl h hp
  have hjl := hj.right_lvl h hp
  have hij := hj.left_ne_right h hp
  have hip := hj.left_ne_parent h hp
  have hjp := hj.right_ne_parent h hp
  have hipar : g.par i.kid = p := hb.par i hj.left_mem
  have hjpar : g.par j.kid = p := hb.par j hj.right_mem
  rw [hj.inodes] at hb
  obtain ⟨-, hnhi, hnlo⟩ := hb.neighbours
  have hjkey : j.key ≠ [] := hb.key_ne j (by simp)
  -- the children of a node other than `p` are neither of the two
  have hkid : ∀ m k, g.lvl m = some (k + 1) → m ≠ p → ∀ x ∈ w.inodes m,
      x.kid ≠ i.kid ∧ x.kid ≠ j.kid := by
    intro m k hm hmp x hx
    exact ⟨h.kid_ne_of_par hm (by rw [hipar]; exact hmp) hx,
      h.kid_ne_of_par hm (by rw [hjpar]; exact hmp) hx⟩
  have hlvl : ∀ {m}, m ≠ j.kid → (g.join i.kid j.kid).lvl m = g.lvl m :=
    fun hm => Function.update_of_ne hm _ _
  constructor
  case lvl_root => exact Layout.join_lvl.2 ⟨(hj.right_ne_root h hp).symm, h.lvl_root⟩
  case alloc =>
    intro m k hm
    exact (h.alloc m k (Layout.join_lvl.1 hm).2).trans_le hj.same.nextNode
  case isLeaf =>
    intro m k hm
    obtain ⟨hmc, hm⟩ := Layout.join_lvl.1 hm
    rw [hj.isLeaf_eq hm hmc]
    exact h.isLeaf m k hm
  case leaf =>
    intro m hm
    obtain ⟨hmc, hm⟩ := Layout.join_lvl.1 hm
    have hmp : m ≠ p := by
      rintro rfl
      rw [hp] at hm
      cases hm
    by_cases hmi : m = i.kid
    · subst hmi
      rw [hil] at hm
      cases hm
      rw [hj.left_inodes]
      exact (h.leaf _ hil).append (h.leaf _ hjl) hnhi hnlo (Function.update_self ..)
        (Function.update_self ..)
    · rw [(hj.other hm hmp hmi hmc).2.2]
      exact (h.leaf m hm).congr (Layout.join_lo hmi) (Layout.join_hi hmi)
  case branch =>
    intro m k hm
    obtain ⟨hmc, hm⟩ := Layout.join_lvl.1 hm
    by_cases hmp : m = p
    · subst hmp
      rw [hp] at hm
      cases hm
      rw [hj.parent_inodes]
      refine hb.widen (Layout.join_lo hip.symm) (Layout.join_hi hip.symm) (hlvl hij)
        (Layout.join_par ?_) hj.key (Function.update_self ..) (Function.update_self ..)
        fun x hx => ?_
      · rw [hipar]
        exact hjp.symm
      · obtain ⟨hx, hxi, hxj⟩ := hj.rest_ne h hp hx
        have hxl := h.kid hp hx
        refine ⟨hlvl hxj, Layout.join_par ?_, Layout.join_lo hxi, Layout.join_hi hxi,
          hj.key_eq hxl hxj⟩
        rw [(h.branch m d hp).par x hx]
        exact hjp.symm
    by_cases hmi : m = i.kid
    · subst hmi
      rw [hil] at hm
      cases hm
      rw [hj.left_inodes]
      have hbi := h.branch _ k hil
      have hbj := h.branch _ k hjl
      have hx' : ∀ x ∈ w.inodes i.kid ++ w.inodes j.kid, x.kid ≠ i.kid ∧ x.kid ≠ j.kid ∧
          g.lvl x.kid = some k := by
        intro x hx
        rcases List.mem_append.1 hx with hx | hx
        · exact ⟨(hkid _ k hil hip x hx).1, (hkid _ k hil hip x hx).2, hbi.lvl x hx⟩
        · exact ⟨(hkid _ k hjl hjp x hx).1, (hkid _ k hjl hjp x hx).2, hbj.lvl x hx⟩
      refine hbi.append hbj hjkey hnhi hnlo (Function.update_self ..) (Function.update_self ..)
        (fun x hx => ?_) fun x hx => ?_
      · rcases List.mem_append.1 hx with hx | hx
        · rw [Layout.join_par (by rw [hbi.par x hx]; exact hij), hbi.par x hx]
        · exact if_pos (hbj.par x hx)
      · obtain ⟨hxi, hxj, hxl⟩ := hx' x hx
        exact ⟨hlvl hxj, Layout.join_lo hxi, Layout.join_hi hxi, hj.key_eq hxl hxj⟩
    · rw [(hj.other hm hmp hmi hmc).2.2]
      have hbm := h.branch m k hm
      refine hbm.sameKids (Layout.join_lo hmi) (Layout.join_hi hmi) fun x hx => ?_
      obtain ⟨hxi, hxj⟩ := hkid m k hm hmp x hx
      refine ⟨hlvl hxj, Layout.join_par ?_, Layout.join_lo hxi, Layout.join_hi hxi,
        hj.key_eq (hbm.lvl x hx) hxj⟩
      rw [hbm.par x hx]
      exact hmc
  case up =>
    intro m k hm hmr
    obtain ⟨hmc, hm⟩ := Layout.join_lvl.1 hm
    obtain ⟨hk, hq, x, hx, hxm⟩ := h.up m k hm hmr
    refine ⟨hk, ?_⟩
    by_cases hqc : g.par m = j.kid
    · -- a child of the right one is now under the left one
      rw [hqc, hjl] at hq
      cases hq
      rw [show (g.join i.kid j.kid).par m = i.kid from if_pos hqc]
      refine ⟨Layout.join_lvl.2 ⟨hij, hil⟩, x, ?_, hxm⟩
      rw [hj.left_inodes]
      exact List.mem_append_right _ (hqc ▸ hx)
    · rw [Layout.join_par hqc]
      refine ⟨Layout.join_lvl.2 ⟨hqc, hq⟩, x, ?_, hxm⟩
      by_cases hqp : g.par m = p
      · rw [hqp, hj.inodes] at hx
        rw [hqp, hj.parent_inodes]
        simp only [List.mem_append, List.mem_cons] at hx ⊢
        rcases hx with hx | rfl | rfl | hx
        · exact .inl hx
        · exact .inr (.inl rfl)
        · exact absurd hxm.symm hmc
        · exact .inr (.inr hx)
      by_cases hqi : g.par m = i.kid
      · rw [hqi, hj.left_inodes]
        exact List.mem_append_left _ (hqi ▸ hx)
      · rw [(hj.other hq hqp hqi hqc).2.2]
        exact hx

/-- Joining two neighbours keeps the contents. -/
lemma contents_eq : contents w' H r = contents w H r := by
  have hb := h.branch p d hp
  have hil := hj.left_lvl h hp
  have hjl := hj.right_lvl h hp
  have hS : ∀ m ∈ ({p, i.kid, j.kid} : Set NodeId), ∃ k, g.lvl m = some k ∧ d ≤ k := by
    rintro m (rfl | rfl | rfl)
    · exact ⟨d + 1, hp, Nat.le_succ d⟩
    · exact ⟨d, hil, le_rfl⟩
    · exact ⟨d, hjl, le_rfl⟩
  refine h.contents_kids (S := {i.kid, j.kid}) hp ?_ (fun m k hm hmp hmS => ?_) ?_
  · rintro m (rfl | rfl)
    · exact ⟨hil, hb.par i hj.left_mem⟩
    · exact ⟨hjl, hb.par j hj.right_mem⟩
  · simp only [Set.mem_insert_iff, Set.mem_singleton_iff, not_or] at hmS
    exact (hj.other hm hmp hmS.1 hmS.2).2.2
  · have hrest : ∀ x ∈ l1 ++ l2, contents w' d x.kid = contents w d x.kid := by
      intro x hx
      obtain ⟨hx, hxi, hxj⟩ := hj.rest_ne h hp hx
      have hxl := h.kid hp hx
      have hxp : x.kid ≠ p := by
        intro he
        rw [he, hp] at hxl
        simp at hxl
      exact h.contents_below hS hj.same.inodes hxl (by simp [hxi, hxj, hxp])
    have hleft : contents w' d i.kid = contents w d i.kid ++ contents w d j.kid := by
      cases d with
      | zero => simp only [contents, hj.left_inodes, List.map_append]
      | succ k =>
        simp only [contents, hj.left_inodes, List.flatMap_append]
        have hbelow : ∀ m, g.lvl m = some (k + 1) → ∀ x ∈ w.inodes m,
            contents w' k x.kid = contents w k x.kid := by
          intro m hm x hx
          have hxl := h.kid hm hx
          refine h.contents_below (fun y hy => ?_) hj.same.inodes hxl fun hxS => ?_
          · obtain ⟨k', hk', hle⟩ := hS y hy
            exact ⟨k', hk', by omega⟩
          · obtain ⟨k', hk', hle⟩ := hS _ hxS
            rw [hxl] at hk'
            cases hk'
            omega
        rw [List.flatMap_congr (hbelow _ hil), List.flatMap_congr (hbelow _ hjl)]
    change (w'.inodes p).flatMap _ = (w.inodes p).flatMap _
    rw [hj.parent_inodes, hj.inodes]
    simp only [List.flatMap_append, List.flatMap_cons, hleft]
    rw [List.flatMap_congr fun x hx => hrest x (List.mem_append_left _ hx),
      List.flatMap_congr fun x hx => hrest x (List.mem_append_right _ hx)]
    simp

end Joins

/-! ## Collapsing the root -/

lemma Layout.collapse_lvl (hrc : r ≠ c) : (g.collapse r c d).lvl n = some e ↔
    (n = r ∧ e = d) ∨ (n ≠ r ∧ n ≠ c ∧ g.lvl n = some e) := by
  unfold Layout.collapse
  dsimp only
  by_cases h : n = r
  · subst h
    simp [eq_comm]
  · by_cases hc : n = c
    · subst hc
      simp [h]
    · simp [h, hc]

/-- The root `r` of height `d + 1` took over the inodes of its only child `i.kid`. -/
structure Collapses (g : Layout) (r : NodeId) (i : Inode) (w w' : World) : Prop where
  inodes : w.inodes r = [i]
  same : SameBut g {r, i.kid} w w'
  isLeaf : (w'.nodes r).isLeaf = (w.nodes i.kid).isLeaf
  root_inodes : w'.inodes r = w.inodes i.kid

namespace Collapses

lemma mem (hc : Collapses g r i w w') : i ∈ w.inodes r := by rw [hc.inodes]; simp

lemma other (hc : Collapses g r i w w') {m : NodeId} {k : Nat} (hm : g.lvl m = some k) (hmr : m ≠ r)
    (hmc : m ≠ i.kid) :
    (w'.nodes m).isLeaf = (w.nodes m).isLeaf ∧ (w'.nodes m).key = (w.nodes m).key ∧
      w'.inodes m = w.inodes m := by
  have hnot : m ∉ ({r, i.kid} : Set NodeId) := by simp [hmr, hmc]
  exact ⟨hc.same.isLeaf m k hm hnot, hc.same.key m k hm hnot, hc.same.inodes m k hm hnot⟩

variable (h : TreeOK w g r (d + 1)) (hc : Collapses g r i w w')
include h hc

lemma child_lvl : g.lvl i.kid = some d := h.kid h.lvl_root hc.mem

lemma child_ne_root : i.kid ≠ r := h.ne_root (hc.child_lvl h) (Nat.lt_succ_self d)

/-- The other nodes stand below the child. -/
lemma lvl_lt {m : NodeId} {k : Nat} (hm : g.lvl m = some k) (hmr : m ≠ r) (hmc : m ≠ i.kid) :
    k < d := by
  obtain ⟨hk, hq, x, hx, hxm⟩ := h.up m k hm hmr
  by_contra hd
  obtain rfl : k = d := by omega
  have hroot := h.eq_root hq
  rw [hroot, hc.inodes, List.mem_singleton] at hx
  rw [hx] at hxm
  exact hmc hxm.symm

/-- The children of the nodes that are left, below the root. -/
lemma kid_ne {m : NodeId} {k : Nat} (hm : g.lvl m = some (k + 1)) (hmr : m ≠ r) {x : Inode}
    (hx : x ∈ w.inodes m) : x.kid ≠ r ∧ x.kid ≠ i.kid := by
  refine ⟨h.ne_root (h.kid hm hx) (by have := h.le_height hm; omega), ?_⟩
  refine h.kid_ne_of_par hm ?_ hx
  rw [(h.branch r d h.lvl_root).par i hc.mem]
  exact hmr

/-- The tree without the old root. -/
lemma treeOK : TreeOK w' (g.collapse r i.kid d) r d := by
  have hcl := hc.child_lvl h
  have hcr := hc.child_ne_root h
  have hb := h.branch r d h.lvl_root
  have hlo := hb.lo_le hc.mem
  have hhi := hb.hi_kid i hc.mem
  have hiff : ∀ {m k}, (g.collapse r i.kid d).lvl m = some k ↔ _ := Layout.collapse_lvl hcr.symm
  have hlvl : ∀ {m}, m ≠ r → m ≠ i.kid → (g.collapse r i.kid d).lvl m = g.lvl m := by
    intro m h1 h2
    unfold Layout.collapse
    dsimp only
    rw [Function.update_of_ne h1, Function.update_of_ne h2]
  constructor
  case lvl_root => exact hiff.2 (.inl ⟨rfl, rfl⟩)
  case alloc =>
    intro m k hm
    rcases hiff.1 hm with ⟨rfl, -⟩ | ⟨-, -, hm⟩
    · exact (h.alloc m _ h.lvl_root).trans_le hc.same.nextNode
    · exact (h.alloc m k hm).trans_le hc.same.nextNode
  case isLeaf =>
    intro m k hm
    rcases hiff.1 hm with ⟨rfl, rfl⟩ | ⟨hmr, hmc, hm⟩
    · rw [hc.isLeaf]
      exact h.isLeaf _ _ hcl
    · rw [(hc.other hm hmr hmc).1]
      exact h.isLeaf m k hm
  case leaf =>
    intro m hm
    rcases hiff.1 hm with ⟨rfl, hd⟩ | ⟨hmr, hmc, hm⟩
    · subst hd
      rw [hc.root_inodes]
      have hl := h.leaf _ hcl
      exact ⟨hl.sorted, hl.entry, fun x hx => hlo.trans (hl.lo x hx),
        fun x hx => (hl.hi x hx).trans_le hhi⟩
    · rw [(hc.other hm hmr hmc).2.2]
      exact (h.leaf m hm).congr rfl rfl
  case branch =>
    intro m k hm
    rcases hiff.1 hm with ⟨rfl, hd⟩ | ⟨hmr, hmc, hm⟩
    · subst hd
      rw [hc.root_inodes]
      have hbc := h.branch _ k hcl
      have hx' := fun x hx => hc.kid_ne h hcl hcr (x := x) hx
      constructor
      case ne => exact hbc.ne
      case sorted => exact hbc.sorted
      case key_ne => exact hbc.key_ne
      case value => exact hbc.value
      case child => exact hbc.child
      case lvl => exact fun x hx => (hlvl (hx' x hx).1 (hx' x hx).2).trans (hbc.lvl x hx)
      case par => exact fun x hx => if_pos (hbc.par x hx)
      case key =>
        intro x hx
        rw [(hc.other (hbc.lvl x hx) (hx' x hx).1 (hx' x hx).2).2.1]
        exact hbc.key x hx
      case lo => exact fun x hx => hlo.trans (hbc.lo x hx)
      case hi => exact fun x hx => (hbc.hi x hx).trans_le hhi
      case hi_kid => exact fun x hx => (hbc.hi_kid x hx).trans hhi
      case hi_next => exact hbc.hi_next
      case lo_tail => exact hbc.lo_tail
      case lo_all =>
        intro hne x hx
        refine hbc.lo_all (fun he => hne ?_) x hx
        rw [he] at hlo
        exact le_antisymm hlo (nil_le_bytes _)
    · rw [(hc.other hm hmr hmc).2.2]
      have hbm := h.branch m k hm
      refine hbm.sameKids rfl rfl fun x hx => ?_
      obtain ⟨hxr, hxc⟩ := hc.kid_ne h hm hmr hx
      refine ⟨hlvl hxr hxc, if_neg ?_, rfl, rfl, (hc.other (hbm.lvl x hx) hxr hxc).2.1⟩
      rw [hbm.par x hx]
      exact hmc
  case up =>
    intro m k hm hmr
    rcases hiff.1 hm with ⟨he, -⟩ | ⟨-, hmc, hm⟩
    · exact absurd he hmr
    · obtain ⟨-, hq, x, hx, hxm⟩ := h.up m k hm hmr
      have hk := hc.lvl_lt h hm hmr hmc
      refine ⟨hk, ?_⟩
      by_cases hqc : g.par m = i.kid
      · rw [show (g.collapse r i.kid d).par m = r from if_pos hqc]
        rw [hqc, hcl] at hq
        cases hq
        refine ⟨hiff.2 (.inl ⟨rfl, rfl⟩), x, ?_, hxm⟩
        rw [hc.root_inodes]
        exact hqc ▸ hx
      · rw [show (g.collapse r i.kid d).par m = g.par m from if_neg hqc]
        have hqr : g.par m ≠ r := by
          intro he
          rw [he, h.lvl_root] at hq
          cases hq
          exact lt_irrefl _ hk
        refine ⟨hiff.2 (.inr ⟨hqr, hqc, hq⟩), x, ?_, hxm⟩
        rw [(hc.other hq hqr hqc).2.2]
        exact hx

/-- Collapsing the root keeps the contents. -/
lemma contents_eq : contents w' d r = contents w (d + 1) r := by
  have hcl := hc.child_lvl h
  have hstep : contents w (d + 1) r = contents w d i.kid := by
    change (w.inodes r).flatMap _ = _
    rw [hc.inodes]
    simp
  rw [hstep]
  cases d with
  | zero => simp only [contents, hc.root_inodes]
  | succ k =>
    simp only [contents, hc.root_inodes]
    refine List.flatMap_congr fun x hx => ?_
    have hxl := h.kid hcl hx
    refine h.contents_below (S := {r, i.kid}) ?_ hc.same.inodes hxl ?_
    · rintro m (rfl | rfl)
      · exact ⟨k + 2, h.lvl_root, by omega⟩
      · exact ⟨k + 1, hcl, by omega⟩
    · have := hc.kid_ne h hcl (hc.child_ne_root h) hx
      simp [this.1, this.2]

end Collapses

end

end Vmbolt
