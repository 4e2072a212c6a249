import Vmbolt.Effect.Spill
import Vmbolt.Tree.Surgery

/-!
# Cutting a node of a tree

How a tree follows a spill: a node is entered into its parent under its first key (`TreeOK.rekey`),
it gives the rear part of its inodes to a new node next to it (`TreeOK.cut`), and a root gets a
parent (`TreeOK.plant`). A node that is cut into several pieces is cut again and again at its last
piece (`TreeOK.splice`); the trees in between exist only in the proof.
-/

namespace Vmbolt

/-- From `w` to `w'` only the node `c` and the inodes of its parent `p` changed. -/
structure Near (g : Layout) (p c : NodeId) (w w' : World) : Prop where
  nextNode : w.nextNode ≤ w'.nextNode
  isLeaf : ∀ m d, g.lvl m = some d → (w'.nodes m).isLeaf = (w.nodes m).isLeaf
  key : ∀ m d, g.lvl m = some d → m ≠ c → (w'.nodes m).key = (w.nodes m).key
  inodes : ∀ m d, g.lvl m = some d → m ≠ p → m ≠ c → w'.inodes m = w.inodes m

/-- The inodes `mid` of the branch `p` take the place of the inode of the child `c`: they share its
range. -/
structure Middle (w' : World) (g g' : Layout) (p : NodeId) (d : Nat) (c : NodeId)
    (mid : List Inode) :
    Prop where
  ne : mid ≠ []
  sorted : mid.Pairwise fun i j => i.key < j.key
  key_ne : ∀ i ∈ mid, i.key ≠ []
  value : ∀ i ∈ mid, i.value = none
  child : ∀ i ∈ mid, i.child = some i.kid
  lvl : ∀ i ∈ mid, g'.lvl i.kid = some d
  par : ∀ i ∈ mid, g'.par i.kid = p
  key : ∀ i ∈ mid, (w'.nodes i.kid).key = i.key
  lo : ∀ i ∈ mid, g.lo c ≤ i.key
  hi : ∀ i ∈ mid, (i.key : WithTop Bytes) < g.hi c
  hi_kid : ∀ i ∈ mid, g'.hi i.kid ≤ g.hi c
  hi_next : mid.Pairwise fun i j => g'.hi i.kid ≤ j.key
  lo_tail : ∀ i ∈ mid.tail, i.key ≤ g'.lo i.kid
  lo_all : g.lo c ≠ [] → ∀ i ∈ mid, i.key ≤ g'.lo i.kid

/-- What is assigned to a node has not changed. -/
structure SameKid (w w' : World) (g g' : Layout) (n : NodeId) : Prop where
  lvl : g'.lvl n = g.lvl n
  par : g'.par n = g.par n
  lo : g'.lo n = g.lo n
  hi : g'.hi n = g.hi n
  key : (w'.nodes n).key = (w.nodes n).key

/-- The node `c` is responsible for keys from `k` on. -/
def Layout.setLo (g : Layout) (c : NodeId) (k : Bytes) : Layout :=
  { g with lo := fun m => if m = c then k else g.lo m }

/-- The new node `c'` takes over the inodes `y` of `c`. -/
def Layout.cut (g : Layout) (c c' : NodeId) (y : List Inode) : Layout where
  lvl m := if m = c' then g.lvl c else g.lvl m
  par m := if m = c' then g.par c else if g.par m = c ∧ ∃ j ∈ y, j.child = some m then c'
    else g.par m
  lo m := if m = c' then firstKey y else g.lo m
  hi m := if m = c' then g.hi c else if m = c then (firstKey y : WithTop Bytes) else g.hi m

/-- The new node `p` stands above the root `r` of level `H`. -/
def Layout.plant (g : Layout) (r p : NodeId) (H : Nat) : Layout where
  lvl m := if m = p then some (H + 1) else g.lvl m
  par m := if m = r then p else g.par m
  lo m := if m = p ∨ m = r then [] else g.lo m
  hi m := if m = p then ⊤ else g.hi m

section
variable {w w' : World} {g g' : Layout} {r c c' p : NodeId} {H d : Nat} {i : Inode}
  {l1 l2 x y mid : List Inode}

/-- The first key of a list of inodes that is not empty. -/
lemma exists_firstKey (hx : x ≠ []) : ∃ j ∈ x, j.key = firstKey x := by
  cases x with
  | nil => exact absurd rfl hx
  | cons j x => exact ⟨j, by simp, rfl⟩

/-- The first key is the least one. -/
lemma firstKey_le (hs : x.Pairwise fun i j => i.key < j.key) {j : Inode} (hj : j ∈ x) :
    firstKey x ≤ j.key := by
  cases x with
  | nil => cases hj
  | cons k x =>
    rcases List.mem_cons.1 hj with rfl | hj
    · exact le_rfl
    · exact ((List.pairwise_cons.1 hs).1 j hj).le

/-- A condition on the inodes of a branch where the inode `i` has been replaced. -/
lemma forall_mem_middle {P Q : Inode → Prop} (hQ : ∀ j ∈ l1 ++ i :: l2, Q j)
    (h : ∀ j ∈ l1 ++ l2, Q j → P j) (hmid : ∀ j ∈ mid, P j) : ∀ j ∈ l1 ++ mid ++ l2, P j := by
  intro j hj
  simp only [List.mem_append, List.mem_cons] at hj hQ h
  rcases hj with (hj | hj) | hj
  · exact h j (.inl hj) (hQ j (.inl hj))
  · exact hmid j hj
  · exact h j (.inr hj) (hQ j (.inr (.inr hj)))

/-- An order on the inodes of a branch where the inode `i` has been replaced. -/
lemma pairwise_middle {R S : Inode → Inode → Prop} (hR : (l1 ++ i :: l2).Pairwise R)
    (h : ∀ j ∈ l1 ++ l2, ∀ k ∈ l1 ++ l2, R j k → S j k) (hmid : mid.Pairwise S)
    (hl : ∀ j ∈ l1, R j i → ∀ k ∈ mid, S j k) (hr : ∀ k ∈ l2, R i k → ∀ j ∈ mid, S j k) :
    (l1 ++ mid ++ l2).Pairwise S := by
  rw [List.pairwise_append, List.pairwise_cons] at hR
  obtain ⟨h1, ⟨hi2, h2⟩, h12⟩ := hR
  rw [List.append_assoc, List.pairwise_append, List.pairwise_append]
  refine ⟨h1.imp_of_mem fun ha hb => h _ (List.mem_append_left _ ha) _ (List.mem_append_left _ hb),
    ⟨hmid, h2.imp_of_mem fun ha hb =>
      h _ (List.mem_append_right _ ha) _ (List.mem_append_right _ hb),
      fun j hj k hk => hr k hk (hi2 k hk) j hj⟩, fun j hj k hk => ?_⟩
  rcases List.mem_append.1 hk with hk | hk
  · exact hl j hj (h12 j hj i (by simp)) k hk
  · exact h j (by simp [hj]) k (by simp [hk]) (h12 j hj k (by simp [hk]))

/-- The conditions on a branch survive if inodes take the place of a child. -/
lemma BranchOK.replace (hb : BranchOK w g p d (l1 ++ i :: l2)) (hm : Middle w' g g' p d i.kid mid)
    (hlo : g'.lo p = g.lo p) (hhi : g'.hi p = g.hi p)
    (hrest : ∀ j ∈ l1 ++ l2, SameKid w w' g g' j.kid) : BranchOK w' g' p d (l1 ++ mid ++ l2) := by
  have hmem : i ∈ l1 ++ i :: l2 := by simp
  have hleft : ∀ j ∈ l1, i.key ≤ g.lo i.kid := by
    intro j hj
    obtain ⟨a, l, rfl⟩ := List.exists_cons_of_ne_nil (List.ne_nil_of_mem hj)
    exact hb.lo_tail i (by simp)
  refine ⟨by simp [hm.ne], ?_, forall_mem_middle hb.key_ne (fun _ _ h => h) hm.key_ne,
    forall_mem_middle hb.value (fun _ _ h => h) hm.value,
    forall_mem_middle hb.child (fun _ _ h => h) hm.child,
    forall_mem_middle hb.lvl (fun j hj h => (hrest j hj).lvl.trans h) hm.lvl,
    forall_mem_middle hb.par (fun j hj h => (hrest j hj).par.trans h) hm.par,
    forall_mem_middle hb.key (fun j hj h => (hrest j hj).key.trans h) hm.key,
    forall_mem_middle hb.lo (fun j _ h => hlo.trans_le h) fun j hj => ?_,
    forall_mem_middle hb.hi (fun j _ h => h.trans_eq hhi.symm) fun j hj => ?_,
    forall_mem_middle hb.hi_kid (fun j hj h => ?_) fun j hj => ?_, ?_, fun j hj => ?_,
    fun hne => ?_⟩
  · refine pairwise_middle hb.sorted (fun _ _ _ _ h => h) hm.sorted (fun j hj hji k hk => ?_)
      fun k hk _ j hj => ?_
    · exact hji.trans_le ((hleft j hj).trans (hm.lo k hk))
    · have := List.pairwise_cons.1 (List.pairwise_append.1 hb.hi_next).2.1
      exact WithTop.coe_lt_coe.1 ((hm.hi j hj).trans_le (this.1 k hk))
  · exact hlo.trans_le ((hb.lo_le hmem).trans (hm.lo j hj))
  · exact (hm.hi j hj).trans_le ((hb.hi_kid i hmem).trans_eq hhi.symm)
  · rw [(hrest j hj).hi, hhi]
    exact h
  · exact (hm.hi_kid j hj).trans ((hb.hi_kid i hmem).trans_eq hhi.symm)
  · refine pairwise_middle hb.hi_next (fun j hj k _ h => (hrest j hj).hi.trans_le h) hm.hi_next
      (fun j hj hji k hk => ?_) fun k _ hik j hj => (hm.hi_kid j hj).trans hik
    rw [(hrest j (by simp [hj])).hi]
    exact hji.trans (WithTop.coe_le_coe.2 ((hleft j hj).trans (hm.lo k hk)))
  · have hr : ∀ j ∈ l1.tail ++ l2, j ∈ (l1 ++ i :: l2).tail → j.key ≤ g'.lo j.kid := by
      intro j hj ht
      have hj' : j ∈ l1 ++ l2 := by
        rcases List.mem_append.1 hj with hj | hj
        · exact List.mem_append_left _ (List.mem_of_mem_tail hj)
        · exact List.mem_append_right _ hj
      rw [(hrest j hj').lo]
      exact hb.lo_tail j ht
    cases l1 with
    | nil =>
      obtain ⟨a, ms, rfl⟩ := List.exists_cons_of_ne_nil hm.ne
      simp only [List.nil_append, List.cons_append, List.tail_cons, List.mem_append] at hj
      rcases hj with hj | hj
      · exact hm.lo_tail j (by simpa using hj)
      · exact hr j (by simpa using hj) (by simpa using hj)
    | cons a l1 =>
      simp only [List.cons_append, List.tail_cons, List.mem_append] at hj
      rcases hj with (hj | hj) | hj
      · exact hr j (by simp [hj]) (by simp [hj])
      · refine hm.lo_all (fun e => hb.key_ne i hmem ?_) j hj
        have := hleft a (by simp)
        rw [e] at this
        exact le_antisymm this (nil_le_bytes _)
      · exact hr j (by simp [hj]) (by simp [hj])
  · rw [hlo] at hne
    refine forall_mem_middle (hb.lo_all hne) (fun j hj h => (hrest j hj).lo.symm ▸ h) ?_
    refine hm.lo_all fun e => hb.key_ne i hmem ?_
    have := hb.lo_all hne i hmem
    rw [e] at this
    exact le_antisymm this (nil_le_bytes _)

/-- The conditions on a branch whose children have kept what is assigned to them. -/
lemma BranchOK.sameKids {n : NodeId} (hb : BranchOK w g n d x) (hlo : g'.lo n = g.lo n)
    (hhi : g'.hi n = g.hi n) (hk : ∀ j ∈ x, SameKid w w' g g' j.kid) : BranchOK w' g' n d x :=
  hb.congr hlo hhi (fun j hj => (hk j hj).lvl) (fun j hj => (hk j hj).par.trans (hb.par j hj))
    (fun j hj => (hk j hj).lo) (fun j hj => (hk j hj).hi) fun j hj => (hk j hj).key

namespace TreeOK

section
variable (h : TreeOK w g r H)
include h

/-- The first key of a node lies in the range of the node. -/
lemma firstKey_range (hc : g.lvl c = some d) (hx : w.inodes c ≠ []) :
    g.lo c ≤ firstKey (w.inodes c) ∧ (firstKey (w.inodes c) : WithTop Bytes) < g.hi c ∧
      firstKey (w.inodes c) ≠ [] := by
  obtain ⟨j, hj, e⟩ := exists_firstKey hx
  rw [← e]
  refine ⟨?_, ?_, h.key_ne hc j hj⟩
  · cases d with
    | zero => exact (h.leaf c hc).lo j hj
    | succ d => exact (h.branch c d hc).lo j hj
  · cases d with
    | zero => exact (h.leaf c hc).hi j hj
    | succ d => exact (h.branch c d hc).hi j hj

/-- The place of a node in its parent. -/
lemma place (hc : g.lvl c = some d) (hcr : c ≠ r) :
    g.lvl (g.par c) = some (d + 1) ∧ ∃ l1 i l2, w.inodes (g.par c) = l1 ++ i :: l2 ∧ i.kid = c := by
  obtain ⟨-, hp, i, hi, hk⟩ := h.up c d hc hcr
  obtain ⟨l1, l2, e⟩ := List.append_of_mem hi
  exact ⟨hp, l1, i, l2, e, hk⟩

/-- The children of a node other than the parent of `c`. -/
lemma kid_ne_of_par {m : NodeId} {e : Nat} (hm : g.lvl m = some (e + 1)) (hne : m ≠ g.par c)
    {j : Inode} (hj : j ∈ w.inodes m) : j.kid ≠ c := by
  rintro rfl
  exact hne ((h.branch m e hm).par j hj).symm

/-- A node is not its own parent. -/
lemma par_ne (hc : g.lvl c = some d) (hcr : c ≠ r) : g.par c ≠ c := by
  intro e
  have := (h.place hc hcr).1
  rw [e, hc] at this
  simp at this

/-- Around the node `c` and its parent the contents stay. -/
lemma contents_near (hc : g.lvl c = some d) (hcr : c ≠ r) (hn : Near g (g.par c) c w w')
    (hp : contents w' (d + 1) (g.par c) = contents w (d + 1) (g.par c)) :
    contents w' H r = contents w H r := by
  have hpl := (h.place hc hcr).1
  obtain ⟨pre, post, h1, h2, -⟩ := h.contents_around w' hpl fun m e hm hne => by
    refine hn.inodes m e hm (fun em => ?_) fun em => ?_
    · rw [em, hpl] at hm
      cases hm
      exact hne le_rfl (by rw [em, Nat.sub_self]; rfl)
    · rw [em, hc] at hm
      cases hm
      refine hne (Nat.le_succ _) ?_
      rw [em, Nat.add_sub_cancel_left]
      rfl
  rw [h1, h2, hp]

/-- The contents of the nodes beside and below `c` stay. -/
lemma contents_beside_near (hc : g.lvl c = some d) (hcr : c ≠ r) (hn : Near g (g.par c) c w w')
    {m : NodeId} {e : Nat} (hm : g.lvl m = some e) (he : e ≤ d) (hmc : m ≠ c) :
    contents w' e m = contents w e m := by
  have hpl := (h.place hc hcr).1
  refine contents_congr (fun k m => g.lvl m = some k ∧ k ≤ d ∧ m ≠ c) ?_ ?_ e m ⟨hm, he, hmc⟩
  · rintro k m ⟨hm, hk, -⟩ j hj
    refine ⟨h.kid hm hj, by omega, fun e => ?_⟩
    have := h.kid hm hj
    rw [e, hc] at this
    cases this
    omega
  · rintro k m ⟨hm, hk, hmc⟩
    refine hn.inodes m k hm (fun e => ?_) hmc
    rw [e, hpl] at hm
    cases hm
    omega

end

end TreeOK

/-! ## The first key as the separator -/

/-- Only the separator of `c` changes: it becomes the first key of `c`. -/
lemma TreeOK.rekey (h : TreeOK w g r H) (w' : World) (hc : g.lvl c = some d) (hcr : c ≠ r)
    (hins : w.inodes (g.par c) = l1 ++ i :: l2) (hi : i.kid = c) (hx : w.inodes c ≠ [])
    (hn : Near g (g.par c) c w w') (hck : (w'.nodes c).key = firstKey (w.inodes c))
    (hci : w'.inodes c = w.inodes c)
    (hpi : w'.inodes (g.par c) = l1 ++ [stub (c, w.inodes c)] ++ l2) :
    TreeOK w' (g.setLo c (if g.lo c = [] then [] else firstKey (w.inodes c))) r H ∧
      contents w' H r = contents w H r := by
  obtain ⟨hp, -⟩ := h.place hc hcr
  set k := firstKey (w.inodes c) with hk
  set g' := g.setLo c (if g.lo c = [] then [] else k) with hg
  obtain ⟨hlok, hkhi, hkne⟩ := h.firstKey_range hc hx
  have hpc := h.par_ne hc hcr
  have hinodes : ∀ m e, g.lvl m = some e → m ≠ g.par c → w'.inodes m = w.inodes m := by
    intro m e hm hmp
    by_cases em : m = c
    · rw [em, hci]
    · exact hn.inodes m e hm hmp em
  have hlo' : g'.lo c = if g.lo c = [] then [] else k := by simp [hg, Layout.setLo]
  have hlo : ∀ m, m ≠ c → g'.lo m = g.lo m := fun m hm => by simp [hg, Layout.setLo, hm]
  have hsame : ∀ m e, g.lvl m = some e → m ≠ c → SameKid w w' g g' m := fun m e hm hmc =>
    ⟨rfl, rfl, hlo m hmc, rfl, hn.key m e hm hmc⟩
  have hklo' : g'.lo c ≤ k := by
    rw [hlo']
    split
    · exact nil_le_bytes _
    · exact le_rfl
  refine ⟨⟨h.lvl_root, fun m e hm => (h.alloc m e hm).trans_le hn.nextNode, fun m e hm => ?_,
    fun m hm => ?_, fun m e hm => ?_, fun m e hm hmr => ?_⟩, h.contents_near hc hcr hn ?_⟩
  · rw [hn.isLeaf m e hm]
    exact h.isLeaf m e hm
  · have hmp : m ≠ g.par c := fun e => by
      have hm' : g.lvl m = some 0 := hm
      rw [e, hp] at hm'
      cases hm'
    rw [hinodes m 0 hm hmp]
    have hl := h.leaf m hm
    refine ⟨hl.sorted, hl.entry, fun j hj => ?_, hl.hi⟩
    by_cases em : m = c
    · subst em
      exact hklo'.trans (firstKey_le hl.sorted hj)
    · rw [hlo m em]
      exact hl.lo j hj
  · have hm : g.lvl m = some (e + 1) := hm
    by_cases emp : m = g.par c
    · obtain rfl : e = d := by
        rw [emp, hp] at hm
        cases hm
        rfl
      rw [emp, hpi]
      have hb := h.branch _ e hp
      rw [hins] at hb
      refine hb.replace ?_ (hlo _ hpc) rfl fun j hj => ?_
      · rw [hi]
        refine ⟨by simp, by simp, by simpa [stub] using hkne, by simp [stub],
          by simp [stub, Inode.kid], ?_, ?_, ?_, ?_, ?_, ?_, by simp, by simp, fun hne => ?_⟩
        all_goals
          intro j hj
          rw [List.mem_singleton.1 hj]
        · exact hc
        · rfl
        · exact hck
        · exact hlok
        · exact hkhi
        · exact le_rfl
        · change k ≤ g'.lo c
          rw [hlo', if_neg hne]
      · refine hsame _ e (hb.lvl j ?_) (hi ▸ h.kid_ne hp hins j hj)
        simp only [List.mem_append, List.mem_cons] at hj ⊢
        tauto
    · rw [hinodes m _ hm emp]
      have hm' := h.branch m e hm
      have hkid : ∀ j ∈ w.inodes m, SameKid w w' g g' j.kid := fun j hj =>
        hsame _ e (hm'.lvl j hj) (h.kid_ne_of_par hm emp hj)
      by_cases em : m = c
      · subst em
        refine ⟨hm'.ne, hm'.sorted, hm'.key_ne, hm'.value, hm'.child, hm'.lvl, hm'.par,
          fun j hj => (hkid j hj).key.trans (hm'.key j hj),
          fun j hj => hklo'.trans (firstKey_le hm'.sorted hj), hm'.hi, hm'.hi_kid, hm'.hi_next,
          fun j hj => ?_, fun hne j hj => ?_⟩
        · rw [(hkid j (List.mem_of_mem_tail hj)).lo]
          exact hm'.lo_tail j hj
        · rw [(hkid j hj).lo]
          refine hm'.lo_all (fun e => hne ?_) j hj
          rw [hlo', if_pos e]
      · exact hm'.sameKids (hlo m em) rfl hkid
  · obtain ⟨hd, hpm, j, hj, hjk⟩ := h.up m e hm hmr
    refine ⟨hd, hpm, ?_⟩
    change ∃ i ∈ w'.inodes (g.par m), i.kid = m
    by_cases emp : g.par m = g.par c
    · rw [emp, hpi]
      rw [emp, hins] at hj
      simp only [List.mem_append, List.mem_cons] at hj
      rcases hj with hj | rfl | hj
      · exact ⟨j, by simp [hj], hjk⟩
      · exact ⟨stub (c, w.inodes c), by simp, hi.symm.trans hjk⟩
      · exact ⟨j, by simp [hj], hjk⟩
    · rw [hinodes _ _ hpm emp]
      exact ⟨j, hj, hjk⟩
  · have hcont : ∀ m, g.lvl m = some d → contents w' d m = contents w d m := by
      intro m hm
      by_cases em : m = c
      · subst em
        cases d with
        | zero => simp [contents, hci]
        | succ d =>
          simp only [contents, hci]
          exact List.flatMap_congr fun j hj => h.contents_beside_near hc hcr hn (h.kid hc hj)
            (Nat.le_succ d) fun e => by
              have := h.kid hc hj
              rw [e, hc] at this
              simp at this
      · exact h.contents_beside_near hc hcr hn hm le_rfl em
    have hb := h.branch _ d hp
    have hstub : (stub (c, w.inodes c)).kid = i.kid := hi.symm
    simp only [contents, hpi, hins, List.append_assoc, List.flatMap_append, List.flatMap_cons,
      List.flatMap_nil, List.append_nil, hstub]
    rw [hins] at hb
    rw [hcont _ (hb.lvl i (by simp)), List.flatMap_congr fun j hj =>
      hcont _ (hb.lvl j (by simp [hj])),
      List.flatMap_congr fun j (hj : j ∈ l2) => hcont _ (hb.lvl j (by simp [hj]))]

/-! ## A node in two parts -/

/-- The new node `c'` gets the rear part of the inodes of `c` and stands next to it. -/
lemma TreeOK.cut (h : TreeOK w g r H) (w' : World) (hc : g.lvl c = some d) (hcr : c ≠ r)
    (hins : w.inodes (g.par c) = l1 ++ stub (c, x) :: l2) (hxy : w.inodes c = x ++ y) (hx : x ≠ [])
    (hy : y ≠ []) (hnew : g.lvl c' = none) (hlt : c' < w'.nextNode) (hn : Near g (g.par c) c w w')
    (hck : (w'.nodes c).key = (w.nodes c).key) (hci : w'.inodes c = x)
    (hleaf' : (w'.nodes c').isLeaf = (w.nodes c).isLeaf) (hck' : (w'.nodes c').key = firstKey y)
    (hci' : w'.inodes c' = y)
    (hpi : w'.inodes (g.par c) = l1 ++ [stub (c, x), stub (c', y)] ++ l2)
    (hclo : g.lo c = [] ∨ g.lo c = firstKey x) :
    TreeOK w' (g.cut c c' y) r H ∧ contents w' H r = contents w H r := by
  obtain ⟨hp, -⟩ := h.place hc hcr
  have hpc := h.par_ne hc hcr
  have hb := h.branch _ d hp
  rw [hins] at hb
  set k := firstKey y with hk
  set g' := g.cut c c' y with hg
  have hne' : ∀ m e, g.lvl m = some e → m ≠ c' := by
    rintro m e hm rfl
    rw [hnew] at hm
    cases hm
  have hcc' := hne' c d hc
  -- what the new layout assigns
  have hlvl' : g'.lvl c' = some d := by simp [hg, Layout.cut, hc]
  have hlvl : ∀ m, m ≠ c' → g'.lvl m = g.lvl m := fun m hm => by simp [hg, Layout.cut, hm]
  have hlo' : g'.lo c' = k := by simp [hg, Layout.cut, hk]
  have hlo : ∀ m, m ≠ c' → g'.lo m = g.lo m := fun m hm => by simp [hg, Layout.cut, hm]
  have hhi' : g'.hi c' = g.hi c := by simp [hg, Layout.cut]
  have hhic : g'.hi c = (k : WithTop Bytes) := by simp [hg, Layout.cut, hcc', hk]
  have hhi : ∀ m, m ≠ c' → m ≠ c → g'.hi m = g.hi m := fun m hm hmc => by
    simp [hg, Layout.cut, hm, hmc]
  have hpar' : g'.par c' = g.par c := by simp [hg, Layout.cut]
  have hpar : ∀ m, m ≠ c' → g.par m ≠ c → g'.par m = g.par m := fun m hm hmc => by
    simp [hg, Layout.cut, hm, hmc]
  have hsame : ∀ m e, g.lvl m = some e → m ≠ c → g.par m ≠ c → SameKid w w' g g' m :=
    fun m e hm hmc hpm => ⟨hlvl m (hne' m e hm), hpar m (hne' m e hm) hpm, hlo m (hne' m e hm),
      hhi m (hne' m e hm) hmc, hn.key m e hm hmc⟩
  -- the order of the two parts
  have hsort := h.sorted hc
  rw [hxy, List.pairwise_append] at hsort
  obtain ⟨hsx, hsy, hsxy⟩ := hsort
  obtain ⟨jk, hjk, ejk⟩ := exists_firstKey hy
  rw [← hk] at ejk
  have hxk : ∀ j ∈ x, j.key < k := fun j hj => ejk ▸ hsxy j hj jk hjk
  have hky : ∀ j ∈ y, k ≤ j.key := fun j hj => firstKey_le hsy hj
  obtain ⟨hlox, hhix, hxne⟩ := h.firstKey_range hc (by simp [hxy, hx])
  have hfx : firstKey (w.inodes c) = firstKey x := by
    rw [hxy]
    cases x with
    | nil => exact absurd rfl hx
    | cons a x => rfl
  rw [hfx] at hlox hhix hxne
  have hrange : ∀ j ∈ w.inodes c, g.lo c ≤ j.key ∧ (j.key : WithTop Bytes) < g.hi c := by
    intro j hj
    cases d with
    | zero => exact ⟨(h.leaf c hc).lo j hj, (h.leaf c hc).hi j hj⟩
    | succ d => exact ⟨(h.branch c d hc).lo j hj, (h.branch c d hc).hi j hj⟩
  have hkhi : (k : WithTop Bytes) < g.hi c := ejk ▸ (hrange jk (by simp [hxy, hjk])).2
  have hkne : k ≠ [] := ejk ▸ h.key_ne hc jk (by simp [hxy, hjk])
  have hxlt : firstKey x < k := by
    obtain ⟨j, hj, e⟩ := exists_firstKey hx
    exact e ▸ hxk j hj
  have hmid : Middle w' g g' (g.par c) d c [stub (c, x), stub (c', y)] := by
    refine ⟨by simp, by simpa [stub] using hxlt, ?_, ?_, ?_, ?_, ?_, ?_, ?_, ?_, ?_, ?_, ?_,
      fun hne => ?_⟩
    case refine_10 =>
      refine List.pairwise_cons.2 ⟨fun j hj => ?_, List.pairwise_singleton _ _⟩
      rw [List.mem_singleton.1 hj]
      exact hhic.le
    all_goals
      intro j hj
    case refine_11 =>
      rw [List.mem_singleton.1 hj]
      exact hlo'.ge
    all_goals
      simp only [List.mem_cons, List.not_mem_nil, or_false] at hj
      rcases hj with rfl | rfl
    · exact hxne
    · exact hkne
    · rfl
    · rfl
    · rfl
    · rfl
    · exact (hlvl c hcc').trans hc
    · exact hlvl'
    · exact (hpar c hcc' hpc).trans rfl
    · exact hpar'
    · have := hb.key (stub (c, x)) (by simp)
      exact hck.trans this
    · exact hck'
    · exact hlox
    · exact hlox.trans hxlt.le
    · exact hhix
    · exact hkhi
    · exact hhic.le.trans hkhi.le
    · exact hhi'.le
    · exact (hclo.resolve_left hne).ge.trans (hlo c hcc').ge
    · exact hlo'.ge
  have hcb : ∀ e, d = e + 1 → BranchOK w' g' c e x ∧ BranchOK w' g' c' e y := by
    rintro e rfl
    have hbc := h.branch c e hc
    rw [hxy] at hbc
    have hlvlk : ∀ j ∈ x ++ y, g.lvl j.kid = some e := hbc.lvl
    have hkc : ∀ j ∈ x ++ y, j.kid ≠ c := fun j hj ej => by
      have := hlvlk j hj
      rw [ej, hc] at this
      simp at this
    have hk' : ∀ j ∈ x ++ y, j.kid ≠ c' := fun j hj => hne' _ e (hlvlk j hj)
    have hkey : ∀ j ∈ x ++ y, (w'.nodes j.kid).key = j.key := fun j hj =>
      (hn.key _ e (hlvlk j hj) (hkc j hj)).trans (hbc.key j hj)
    have hlvl'' : ∀ j ∈ x ++ y, g'.lvl j.kid = some e := fun j hj =>
      (hlvl _ (hk' j hj)).trans (hlvlk j hj)
    have hhik : ∀ j ∈ x ++ y, g'.hi j.kid = g.hi j.kid := fun j hj => hhi _ (hk' j hj) (hkc j hj)
    have hlok : ∀ j ∈ x ++ y, g'.lo j.kid = g.lo j.kid := fun j hj => hlo _ (hk' j hj)
    have hparx : ∀ j ∈ x, g'.par j.kid = c := by
      intro j hj
      have hno : ¬ ∃ j' ∈ y, j'.child = some j.kid := by
        rintro ⟨j', hj', ej⟩
        have e1 : j'.kid = j.kid := by simp [Inode.kid, ej]
        have := h.kid_inj hc (by simp [hxy, hj']) (by simp [hxy, hj]) e1
        subst this
        exact lt_irrefl _ (hsxy j' hj j' hj')
      simp [hg, Layout.cut, hk' j (by simp [hj]), hno, hbc.par j (by simp [hj])]
    have hpary : ∀ j ∈ y, g'.par j.kid = c' := by
      intro j hj
      have : ∃ j' ∈ y, j'.child = some j.kid := ⟨j, hj, hbc.child j (by simp [hj])⟩
      simp [hg, Layout.cut, hk' j (by simp [hj]), this, hbc.par j (by simp [hj])]
    obtain ⟨hnx, hny, hnxy⟩ := List.pairwise_append.1 hbc.hi_next
    have hxl : ∀ {P : Inode → Prop}, (∀ j ∈ x ++ y, P j) → ∀ j ∈ x, P j :=
      fun hP j hj => hP j (List.mem_append_left _ hj)
    have hyr : ∀ {P : Inode → Prop}, (∀ j ∈ x ++ y, P j) → ∀ j ∈ y, P j :=
      fun hP j hj => hP j (List.mem_append_right _ hj)
    have hytail : ∀ j ∈ y, j ∈ (x ++ y).tail := by
      intro j hj
      obtain ⟨a, x', rfl⟩ := List.exists_cons_of_ne_nil hx
      simp [hj]
    constructor
    · refine ⟨hx, hsx, hxl hbc.key_ne, hxl hbc.value, hxl hbc.child, hxl hlvl'', hparx, hxl hkey,
        fun j hj => ?_, fun j hj => ?_, fun j hj => ?_, ?_, fun j hj => ?_, fun hne j hj => ?_⟩
      · rw [hlo c hcc']
        exact hbc.lo j (by simp [hj])
      · rw [hhic]
        exact WithTop.coe_lt_coe.2 (hxk j hj)
      · rw [hhik j (by simp [hj]), hhic, ← ejk]
        exact hnxy j hj jk hjk
      · exact hnx.imp_of_mem fun ha _ hab => (hhik _ (by simp [ha])).trans_le hab
      · have hj' := List.mem_of_mem_tail hj
        rw [hlok j (by simp [hj'])]
        refine hbc.lo_tail j ?_
        obtain ⟨a, x', rfl⟩ := List.exists_cons_of_ne_nil hx
        simp only [List.tail_cons] at hj
        simp [hj]
      · rw [hlo c hcc'] at hne
        rw [hlok j (by simp [hj])]
        exact hbc.lo_all hne j (by simp [hj])
    · refine ⟨hy, hsy, hyr hbc.key_ne, hyr hbc.value, hyr hbc.child, hyr hlvl'', hpary, hyr hkey,
        fun j hj => hlo'.trans_le (hky j hj), fun j hj => ?_, fun j hj => ?_, ?_, fun j hj => ?_,
        fun _ j hj => ?_⟩
      · rw [hhi']
        exact hbc.hi j (by simp [hj])
      · rw [hhik j (by simp [hj]), hhi']
        exact hbc.hi_kid j (by simp [hj])
      · exact hny.imp_of_mem fun ha _ hab => (hhik _ (by simp [ha])).trans_le hab
      · have hj' := List.mem_of_mem_tail hj
        rw [hlok j (by simp [hj'])]
        exact hbc.lo_tail j (hytail j hj')
      · rw [hlok j (by simp [hj])]
        exact hbc.lo_tail j (hytail j hj)
  have hpnot : ∀ m, g.lvl m = some d → m ≠ g.par c := by
    intro m hm e
    rw [e, hp] at hm
    simp at hm
  refine ⟨⟨(hlvl r (hne' r H h.lvl_root)).trans h.lvl_root, fun m e hm => ?_, fun m e hm => ?_,
    fun m hm => ?_, fun m e hm => ?_, fun m e hm hmr => ?_⟩, h.contents_near hc hcr hn ?_⟩
  · by_cases em : m = c'
    · rw [em]
      exact hlt
    · rw [hlvl m em] at hm
      exact (h.alloc m e hm).trans_le hn.nextNode
  · by_cases em : m = c'
    · rw [em, hlvl'] at hm
      cases hm
      rw [em, hleaf']
      exact h.isLeaf c d hc
    · rw [hlvl m em] at hm
      rw [hn.isLeaf m e hm]
      exact h.isLeaf m e hm
  · by_cases em : m = c'
    · rw [em, hlvl'] at hm
      cases hm
      have hl := h.leaf c hc
      rw [em, hci']
      refine ⟨hsy, fun j hj => hl.entry j (by simp [hxy, hj]), fun j hj => hlo'.trans_le (hky j hj),
        fun j hj => ?_⟩
      rw [hhi']
      exact hl.hi j (by simp [hxy, hj])
    · rw [hlvl m em] at hm
      have hl := h.leaf m hm
      by_cases emc : m = c
      · subst emc
        rw [hc] at hm
        cases hm
        rw [hci]
        refine ⟨hsx, fun j hj => hl.entry j (by simp [hxy, hj]), fun j hj => ?_, fun j hj => ?_⟩
        · rw [hlo m em]
          exact hl.lo j (by simp [hxy, hj])
        · rw [hhic]
          exact WithTop.coe_lt_coe.2 (hxk j hj)
      · have hmp : m ≠ g.par c := fun e => by
          rw [e, hp] at hm
          cases hm
        rw [hn.inodes m 0 hm hmp emc]
        exact hl.congr (hlo m em) (hhi m em emc)
  · by_cases em : m = c'
    · rw [em, hlvl'] at hm
      rw [em, hci']
      exact (hcb e (Option.some.inj hm)).2
    · rw [hlvl m em] at hm
      by_cases emc : m = c
      · rw [emc, hc] at hm
        rw [emc, hci]
        exact (hcb e (Option.some.inj hm)).1
      · by_cases emp : m = g.par c
        · obtain rfl : e = d := by
            rw [emp, hp] at hm
            cases hm
            rfl
          rw [emp] at em ⊢
          rw [hpi]
          refine hb.replace hmid (hlo _ em) (hhi _ em hpc) fun j hj => ?_
          have hj' : j ∈ l1 ++ stub (c, x) :: l2 := by
            simp only [List.mem_append, List.mem_cons] at hj ⊢
            tauto
          exact hsame _ e (hb.lvl j hj') (h.kid_ne hp hins j hj) (by rw [hb.par j hj']; exact hpc)
        · have hm' := h.branch m e hm
          rw [hn.inodes m _ hm emp emc]
          exact hm'.sameKids (hlo m em) (hhi m em emc) fun j hj =>
            hsame _ e (hm'.lvl j hj) (h.kid_ne_of_par hm emp hj) (by rw [hm'.par j hj]; exact emc)
  · by_cases em : m = c'
    · rw [em, hlvl'] at hm
      cases hm
      rw [em, hpar', hlvl _ (hne' _ _ hp), hpi]
      exact ⟨(h.up c d hc hcr).1, hp, stub (c', y), by simp, rfl⟩
    · rw [hlvl m em] at hm
      obtain ⟨hd, hpm, j, hj, hjk'⟩ := h.up m e hm hmr
      refine ⟨hd, ?_⟩
      by_cases ec : g.par m = c
      · rw [ec, hc] at hpm
        cases hpm
        rw [ec, hxy] at hj
        have hjc : j.child = some m := by
          rw [← hjk']
          exact (h.branch c e hc).child j (by rw [hxy]; exact hj)
        by_cases hmv : ∃ j ∈ y, j.child = some m
        · have e1 : g'.par m = c' := by simp [hg, Layout.cut, em, ec, hmv]
          obtain ⟨j', hj', ej'⟩ := hmv
          rw [e1, hci']
          exact ⟨hlvl', j', hj', by simp [Inode.kid, ej']⟩
        · have e1 : g'.par m = c := by simp [hg, Layout.cut, em, ec, hmv]
          rw [e1, hci]
          refine ⟨(hlvl c hcc').trans hc, j, ?_, hjk'⟩
          exact (List.mem_append.1 hj).resolve_right fun hy' => hmv ⟨j, hy', hjc⟩
      · rw [hpar m em ec, hlvl _ (hne' _ _ hpm)]
        refine ⟨hpm, ?_⟩
        by_cases emp : g.par m = g.par c
        · rw [emp, hpi]
          rw [emp, hins] at hj
          refine ⟨j, ?_, hjk'⟩
          simp only [List.mem_append, List.mem_cons, List.not_mem_nil, or_false] at hj ⊢
          tauto
        · rw [hn.inodes _ _ hpm emp ec]
          exact ⟨j, hj, hjk'⟩
  · have hside : ∀ j ∈ l1 ++ l2, contents w' d j.kid = contents w d j.kid := by
      intro j hj
      refine h.contents_beside_near hc hcr hn (hb.lvl j ?_) le_rfl (h.kid_ne hp hins j hj)
      simp only [List.mem_append, List.mem_cons] at hj ⊢
      tauto
    have htwo : contents w' d c ++ contents w' d c' = contents w d c := by
      cases d with
      | zero => simp [contents, hci, hci', hxy]
      | succ d =>
        have hkid : ∀ j ∈ x ++ y, contents w' d j.kid = contents w d j.kid := by
          intro j hj
          rw [← hxy] at hj
          refine h.contents_beside_near hc hcr hn (h.kid hc hj) (Nat.le_succ d) fun e => ?_
          have := h.kid hc hj
          rw [e, hc] at this
          simp at this
        simp only [contents, hci, hci', hxy, List.flatMap_append]
        rw [List.flatMap_congr fun j hj => hkid j (List.mem_append_left _ hj),
          List.flatMap_congr fun j hj => hkid j (List.mem_append_right _ hj)]
    have ekc : (stub (c, x)).kid = c := rfl
    have ekc' : (stub (c', y)).kid = c' := rfl
    simp only [contents, hpi, hins, List.append_assoc, List.flatMap_append, List.flatMap_cons,
      List.flatMap_nil, List.append_nil, ekc, ekc']
    rw [← htwo, List.flatMap_congr fun j hj => hside j (List.mem_append_left _ hj),
      List.flatMap_congr fun j (hj : j ∈ l2) => hside j (List.mem_append_right _ hj),
      List.append_assoc]

/-! ## A new root -/

/-- The root gets a parent. -/
lemma TreeOK.plant (h : TreeOK w g r H) (w' : World) (hnew : g.lvl p = none) (hlt : p < w'.nextNode)
    (hx : w.inodes r ≠ []) (hn : Near g p r w w') (hri : w'.inodes r = w.inodes r)
    (hrk : (w'.nodes r).key = firstKey (w.inodes r)) (hpl : (w'.nodes p).isLeaf = false)
    (hpi : w'.inodes p = [stub (r, w.inodes r)]) :
    TreeOK w' (g.plant r p H) p (H + 1) ∧ contents w' (H + 1) p = contents w H r := by
  set g' := g.plant r p H with hg
  have hnep : ∀ m e, g.lvl m = some e → m ≠ p := by
    rintro m e hm rfl
    rw [hnew] at hm
    cases hm
  have hrp := hnep r H h.lvl_root
  have hinodes : ∀ m e, g.lvl m = some e → w'.inodes m = w.inodes m := by
    intro m e hm
    by_cases em : m = r
    · rw [em, hri]
    · exact hn.inodes m e hm (hnep m e hm) em
  have hlvl : ∀ m, m ≠ p → g'.lvl m = g.lvl m := fun m hm => by simp [hg, Layout.plant, hm]
  have hlo : ∀ m, m ≠ p → m ≠ r → g'.lo m = g.lo m := fun m hm hmr => by
    simp [hg, Layout.plant, hm, hmr]
  have hlor : g'.lo r = [] := by simp [hg, Layout.plant]
  have hhi : ∀ m, m ≠ p → g'.hi m = g.hi m := fun m hm => by simp [hg, Layout.plant, hm]
  have hpar : ∀ m, m ≠ r → g'.par m = g.par m := fun m hm => by simp [hg, Layout.plant, hm]
  have hnr : ∀ m e, g.lvl m = some e → e < H → m ≠ r := fun m e hm he => h.ne_root hm he
  obtain ⟨-, -, hkne⟩ := h.firstKey_range h.lvl_root hx
  refine ⟨⟨by simp [hg, Layout.plant], fun m e hm => ?_, fun m e hm => ?_, fun m hm => ?_,
    fun m e hm => ?_, fun m e hm hmp => ?_⟩, ?_⟩
  · by_cases em : m = p
    · rw [em]
      exact hlt
    · rw [hlvl m em] at hm
      exact (h.alloc m e hm).trans_le hn.nextNode
  · by_cases em : m = p
    · obtain rfl : e = H + 1 := by simpa [em, hg, Layout.plant] using hm.symm
      rw [em, hpl]
      simp
    · rw [hlvl m em] at hm
      rw [hn.isLeaf m e hm]
      exact h.isLeaf m e hm
  · have em : m ≠ p := by
      rintro rfl
      simp [hg, Layout.plant] at hm
    rw [hlvl m em] at hm
    have hl := h.leaf m hm
    rw [hinodes m 0 hm]
    refine ⟨hl.sorted, hl.entry, fun j hj => ?_, fun j hj => (hl.hi j hj).trans_eq (hhi m em).symm⟩
    by_cases emr : m = r
    · rw [emr, hlor]
      exact nil_le_bytes _
    · rw [hlo m em emr]
      exact hl.lo j hj
  · by_cases em : m = p
    · obtain rfl : e = H := by simpa [em, hg, Layout.plant] using hm.symm
      rw [em, hpi]
      have hkid : (stub (r, w.inodes r)).kid = r := rfl
      refine ⟨by simp, by simp, ?_, ?_, ?_, ?_, ?_, ?_, ?_, ?_, ?_, by simp, by simp, fun hne => ?_⟩
      case refine_10 => exact absurd (by simp [hg, Layout.plant]) hne
      all_goals
        intro j hj
        rw [List.mem_singleton.1 hj]
      · exact hkne
      · rfl
      · rfl
      · rw [hkid, hlvl r hrp, h.lvl_root]
      · rw [hkid]
        simp [hg, Layout.plant]
      · exact hrk
      · simp only [hg, Layout.plant, true_or, if_true]
        exact nil_le_bytes _
      · simp [hg, Layout.plant, stub]
      · simp [hg, Layout.plant]
    · rw [hlvl m em] at hm
      have hb := h.branch m e hm
      rw [hinodes m _ hm]
      have hkid : ∀ j ∈ w.inodes m, SameKid w w' g g' j.kid := by
        intro j hj
        have hjl := hb.lvl j hj
        have hle := h.le_height hm
        have hjr := hnr _ e hjl (by omega)
        have hjp := hnep _ e hjl
        exact ⟨hlvl _ hjp, hpar _ hjr, hlo _ hjp hjr, hhi _ hjp, hn.key _ e hjl hjr⟩
      by_cases emr : m = r
      · subst emr
        refine ⟨hb.ne, hb.sorted, hb.key_ne, hb.value, hb.child,
          fun j hj => (hkid j hj).lvl.trans (hb.lvl j hj),
          fun j hj => (hkid j hj).par.trans (hb.par j hj),
          fun j hj => (hkid j hj).key.trans (hb.key j hj),
          fun j _ => hlor.trans_le (nil_le_bytes _),
          fun j hj => (hb.hi j hj).trans_eq (hhi m em).symm, fun j hj => ?_,
          hb.hi_next.imp_of_mem fun ha _ hab => (hkid _ ha).hi.trans_le hab, fun j hj => ?_,
          fun hne => absurd hlor hne⟩
        · rw [(hkid j hj).hi, hhi m em]
          exact hb.hi_kid j hj
        · rw [(hkid j (List.mem_of_mem_tail hj)).lo]
          exact hb.lo_tail j hj
      · exact hb.sameKids (hlo m em emr) (hhi m em) hkid
  · rw [hlvl m hmp] at hm
    by_cases emr : m = r
    · rw [emr, h.lvl_root] at hm
      cases hm
      have e1 : g'.par m = p := by simp [hg, Layout.plant, emr]
      rw [e1, hpi, emr]
      exact ⟨Nat.lt_succ_self _, by simp [hg, Layout.plant], stub (r, w.inodes r), by simp, rfl⟩
    · obtain ⟨hd, hpm, hj⟩ := h.up m e hm emr
      rw [hpar m emr, hlvl _ (hnep _ _ hpm), hinodes _ _ hpm]
      exact ⟨hd.trans (Nat.lt_succ_self _), hpm, hj⟩
  · have hcont : contents w' H r = contents w H r :=
      contents_congr (fun k m => g.lvl m = some k) (fun _ _ hm _ hi => h.kid hm hi)
        (fun k m hm => hinodes m k hm) H r h.lvl_root
    have hkid : (stub (r, w.inodes r)).kid = r := rfl
    simp [contents, hpi, hkid, hcont]

/-! ## A node in several pieces -/

/-- A state with the same nodes and other inodes. It only serves as a state between two steps. -/
def World.withInodes (w : World) (f : NodeId → List Inode) : World :=
  { w with nodes := fun n => { w.nodes n with inodes := ⟨n, (f n).length⟩ }, arrays := f }

lemma withInodes_inodes (w : World) (f : NodeId → List Inode) (n : NodeId) :
    (w.withInodes f).inodes n = f n := by
  simp [World.withInodes, World.inodes]

/-- In `w'` the node `c` holds the inodes `x` and the new nodes of `qs` hold theirs; all stand one
behind the other in `p`, between `l1` and `l2`. -/
structure Pieced (w' : World) (g : Layout) (p c : NodeId) (leaf : Bool) (x : List Inode)
    (qs : List (NodeId × List Inode)) (l1 l2 : List Inode) : Prop where
  nodup : (qs.map Prod.fst).Nodup
  new : ∀ y ∈ qs, g.lvl y.1 = none
  lt : ∀ y ∈ qs, y.1 < w'.nextNode
  ne : ∀ y ∈ qs, y.2 ≠ []
  isLeaf : ∀ y ∈ qs, (w'.nodes y.1).isLeaf = leaf
  key : ∀ y ∈ qs, (w'.nodes y.1).key = firstKey y.2
  inodes : ∀ y ∈ qs, w'.inodes y.1 = y.2
  head_ne : x ≠ []
  head_key : (w'.nodes c).key = firstKey x
  head : w'.inodes c = x
  parent : w'.inodes p = l1 ++ (stub (c, x) :: qs.map stub) ++ l2

/-- The layout `g'` is `g` with new nodes of level `d` under `p`, which have taken children of
`c`. -/
structure Recut (g g' : Layout) (r p c : NodeId) (d : Nat) (new : List NodeId) : Prop where
  lvl : ∀ m, g'.lvl m = if m ∈ new then some d else g.lvl m
  par_new : ∀ m ∈ new, g'.par m = p
  par : ∀ m e, g.lvl m = some e → m ≠ r → g.par m ≠ c → g'.par m = g.par m
  par_kid : ∀ m e, g.lvl m = some e → m ≠ r → g.par m = c → g'.par m ∈ c :: new

variable {qs : List (NodeId × List Inode)}

lemma firstKey_append (hx : x ≠ []) : firstKey (x ++ y) = firstKey x := by
  cases x with
  | nil => exact absurd rfl hx
  | cons j x => rfl

/-- A node that stands in its parent under its first key gives its pieces away, one after the
other. -/
lemma TreeOK.cuts (h : TreeOK w g r H) (w' : World) (x : List Inode)
    (qs : List (NodeId × List Inode)) (l1 l2 : List Inode) (hc : g.lvl c = some d) (hcr : c ≠ r)
    (hins : w.inodes (g.par c) = l1 ++ stub (c, x) :: l2)
    (hxy : w.inodes c = x ++ (qs.map Prod.snd).flatten) (hn : Near g (g.par c) c w w')
    (hclo : g.lo c = [] ∨ g.lo c = firstKey x)
    (hps : Pieced w' g (g.par c) c (w.nodes c).isLeaf x qs l1 l2) :
    ∃ g', TreeOK w' g' r H ∧ contents w' H r = contents w H r ∧
      Recut g g' r (g.par c) c d (qs.map Prod.fst) := by
  have hp := (h.place hc hcr).1
  have hpc := h.par_ne hc hcr
  have hkey : (w.nodes c).key = firstKey x := (h.branch _ d hp).key (stub (c, x)) (by simp [hins])
  induction qs generalizing w g c x l1 with
  | nil =>
    have hxc : w.inodes c = x := by simpa using hxy
    have hpi : w'.inodes (g.par c) = w.inodes (g.par c) := by
      rw [hps.parent, hins]
      simp
    have hs : SameBut g ∅ w w' := by
      refine ⟨hn.nextNode, fun m e hm _ => hn.isLeaf m e hm, fun m e hm _ => ?_, fun m e hm _ => ?_⟩
      · by_cases em : m = c
        · rw [em, hps.head_key, hkey]
        · exact hn.key m e hm em
      · by_cases em : m = c
        · rw [em, hps.head, hxc]
        · by_cases emp : m = g.par c
          · rw [emp, hpi]
          · exact hn.inodes m e hm emp em
    exact ⟨g, h.same hs, h.contents_same hs h.lvl_root, by simp, by simp, fun _ _ _ _ _ => rfl,
      fun m e _ _ hm => by simp [hm]⟩
  | cons y qs ih =>
    obtain ⟨c1, y⟩ := y
    have hy : y ≠ [] := hps.ne (c1, y) (by simp)
    have hnd : c1 ∉ qs.map Prod.fst ∧ (qs.map Prod.fst).Nodup := List.nodup_cons.1 hps.nodup
    have hnew1 : g.lvl c1 = none := hps.new (c1, y) (by simp)
    have hne1 : ∀ m e, g.lvl m = some e → m ≠ c1 := by
      rintro m e hm rfl
      rw [hnew1] at hm
      cases hm
    have hcc1 := hne1 c d hc
    have hpc1 := hne1 _ _ hp
    have hfk : firstKey (y ++ (qs.map Prod.snd).flatten) = firstKey y := firstKey_append hy
    -- the state in which only the first cut has been made
    let f : NodeId → List Inode := fun n =>
      if n = c1 then y ++ (qs.map Prod.snd).flatten
      else if n = g.par c then l1 ++ [stub (c, x), stub (c1, y)] ++ l2 else w'.inodes n
    have hf : ∀ n, (w'.withInodes f).inodes n = f n := withInodes_inodes w' f
    have hf1 : f c1 = y ++ (qs.map Prod.snd).flatten := if_pos rfl
    have hfp : f (g.par c) = l1 ++ [stub (c, x), stub (c1, y)] ++ l2 := by
      simp only [f, if_neg hpc1, if_true]
    have hfo : ∀ n, n ≠ c1 → n ≠ g.par c → f n = w'.inodes n := fun n h1 h2 => by
      simp only [f, if_neg h1, if_neg h2]
    have hstub : stub (c1, y ++ (qs.map Prod.snd).flatten) = stub (c1, y) := by
      simp [stub, hfk]
    obtain ⟨h1, hcont1⟩ := h.cut (w'.withInodes f) hc hcr hins
      (y := y ++ (qs.map Prod.snd).flatten) (by simpa using hxy) hps.head_ne (by simp [hy]) hnew1
      (hps.lt (c1, y) (by simp))
      ⟨hn.nextNode, hn.isLeaf, hn.key, fun m e hm hmp hmc => by
        rw [hf, hfo m (hne1 m e hm) hmp]
        exact hn.inodes m e hm hmp hmc⟩
      (hps.head_key.trans hkey.symm) (by rw [hf, hfo c hcc1 hpc.symm]; exact hps.head)
      (hps.isLeaf (c1, y) (by simp)) (by rw [hfk]; exact hps.key (c1, y) (by simp))
      (by rw [hf, hf1]) (by rw [hf, hfp, hstub]) hclo
    set g1 := g.cut c c1 (y ++ (qs.map Prod.snd).flatten) with hg1
    have hlvl1 : ∀ m, g1.lvl m = if m = c1 then g.lvl c else g.lvl m := fun m => rfl
    have hpar1 : g1.par c1 = g.par c := by simp [hg1, Layout.cut]
    have hlo1 : g1.lo c1 = firstKey y := by simp [hg1, Layout.cut, hfk]
    have hc1 : g1.lvl c1 = some d := by rw [hlvl1, if_pos rfl, hc]
    have hparo : ∀ m e, g.lvl m = some e → g.par m ≠ c → g1.par m = g.par m := fun m e hm hmc => by
      simp [hg1, Layout.cut, hne1 m e hm, hmc]
    -- the other cuts are made at the new node
    obtain ⟨g', h2, hcont2, hrec⟩ := ih h1 y (l1 ++ [stub (c, x)]) hc1 (hne1 r H h.lvl_root).symm
      (by rw [hpar1, hf, hfp]; simp) (by rw [hf, hf1])
      ⟨le_rfl, fun _ _ _ => rfl, fun _ _ _ _ => rfl, fun m e hm hmp hmc => by
        rw [hpar1] at hmp
        rw [hf, hfo m hmc hmp]⟩
      (.inr hlo1)
      ⟨hnd.2, fun z hz => by
          have hne : z.1 ≠ c1 := fun e => hnd.1 (e ▸ List.mem_map_of_mem (f := Prod.fst) hz)
          rw [hlvl1, if_neg hne]
          exact hps.new z (.tail _ hz),
        fun z hz => hps.lt z (.tail _ hz), fun z hz => hps.ne z (.tail _ hz),
        fun z hz => (hps.isLeaf z (.tail _ hz)).trans (hps.isLeaf (c1, y) (by simp)).symm,
        fun z hz => hps.key z (.tail _ hz), fun z hz => hps.inodes z (.tail _ hz), hy,
        hps.key (c1, y) (by simp), hps.inodes (c1, y) (by simp), by
          rw [hpar1, hps.parent]
          simp⟩
      (by rw [hpar1, hlvl1, if_neg hpc1]; exact hp) (by rw [hpar1]; exact hpc1)
      (hps.key (c1, y) (by simp))
    rw [hpar1] at hrec
    refine ⟨g', h2, hcont2.trans hcont1, fun m => ?_, fun m hm => ?_, fun m e hm hmr hmc => ?_,
      fun m e hm hmr hmc => ?_⟩
    · rw [hrec.lvl, hlvl1, hc, List.map_cons]
      by_cases em : m = c1
      · subst em
        simp
      · simp only [em, List.mem_cons, false_or, if_false]
    · rcases List.mem_cons.1 hm with hm | hm
      · rw [hm]
        exact (hrec.par c1 d hc1 (hne1 r H h.lvl_root).symm (by rw [hpar1]; exact hpc1)).trans hpar1
      · exact hrec.par_new m hm
    · have e1 := hparo m e hm hmc
      have hpm := (h.up m e hm hmr).2.1
      rw [← e1]
      refine hrec.par m e ?_ hmr ?_
      · rw [hlvl1, if_neg (hne1 m e hm)]
        exact hm
      · rw [e1]
        exact hne1 _ _ hpm
    · have hm1 : g1.lvl m = some e := by rw [hlvl1, if_neg (hne1 m e hm), hm]
      have e1 : g1.par m = c ∨ g1.par m = c1 := by
        simp only [hg1, Layout.cut, if_neg (hne1 m e hm), hmc]
        split
        · exact .inr rfl
        · exact .inl rfl
      rcases e1 with e1 | e1
      · rw [hrec.par m e hm1 hmr (by rw [e1]; exact hcc1), e1]
        simp
      · exact List.mem_cons_of_mem _ (hrec.par_kid m e hm1 hmr e1)

/-- The pieces of a node take its place in its parent. -/
lemma TreeOK.splice (h : TreeOK w g r H) (w' : World) (hc : g.lvl c = some d) (hcr : c ≠ r)
    (hins : w.inodes (g.par c) = l1 ++ i :: l2) (hi : i.kid = c)
    (hxy : w.inodes c = x ++ (qs.map Prod.snd).flatten) (hn : Near g (g.par c) c w w')
    (hps : Pieced w' g (g.par c) c (w.nodes c).isLeaf x qs l1 l2) :
    ∃ g', TreeOK w' g' r H ∧ contents w' H r = contents w H r ∧
      Recut g g' r (g.par c) c d (qs.map Prod.fst) := by
  have hpc := h.par_ne hc hcr
  have hfk : firstKey (w.inodes c) = firstKey x := by rw [hxy, firstKey_append hps.head_ne]
  have hstub : stub (c, w.inodes c) = stub (c, x) := by simp [stub, hfk]
  let f : NodeId → List Inode := fun n =>
    if n = c then w.inodes c
    else if n = g.par c then l1 ++ [stub (c, w.inodes c)] ++ l2 else w'.inodes n
  have hf : ∀ n, (w'.withInodes f).inodes n = f n := withInodes_inodes w' f
  have hfc : f c = w.inodes c := if_pos rfl
  have hfp : f (g.par c) = l1 ++ [stub (c, w.inodes c)] ++ l2 := by
    simp only [f, if_neg hpc, if_true]
  have hfo : ∀ n, n ≠ c → n ≠ g.par c → f n = w'.inodes n := fun n h1 h2 => by
    simp only [f, if_neg h1, if_neg h2]
  obtain ⟨h1, hcont1⟩ := h.rekey (w'.withInodes f) hc hcr hins hi (by simp [hxy, hps.head_ne])
    ⟨hn.nextNode, hn.isLeaf, hn.key, fun m e hm hmp hmc => by
      rw [hf, hfo m hmc hmp]
      exact hn.inodes m e hm hmp hmc⟩
    (by rw [hfk]; exact hps.head_key) (by rw [hf, hfc]) (by rw [hf, hfp])
  obtain ⟨g', h2, hcont2, hrec⟩ := h1.cuts w' x qs l1 l2 hc hcr
    (by
      change (w'.withInodes f).inodes (g.par c) = _
      rw [hf, hfp, hstub]
      simp) (by rw [hf, hfc, hxy])
    ⟨le_rfl, fun _ _ _ => rfl, fun _ _ _ _ => rfl, fun m e _ hmp hmc => by rw [hf, hfo m hmc hmp]⟩
    (by
      simp only [Layout.setLo, if_true]
      split
      · exact .inl rfl
      · exact .inr hfk)
    ⟨hps.nodup, hps.new, hps.lt, hps.ne,
      fun y hy => (hps.isLeaf y hy).trans (hn.isLeaf c d hc).symm, hps.key, hps.inodes, hps.head_ne,
      hps.head_key, hps.head, hps.parent⟩
  exact ⟨g', h2, hcont2.trans hcont1, hrec.lvl, hrec.par_new, hrec.par, hrec.par_kid⟩

/-- The pieces of a root stand under a new root. -/
lemma TreeOK.grow (h : TreeOK w g r H) (w' : World) (hnew : g.lvl p = none) (hlt : p < w'.nextNode)
    (hqs : p ∉ qs.map Prod.fst) (hxy : w.inodes r = x ++ (qs.map Prod.snd).flatten)
    (hn : Near g p r w w') (hpl : (w'.nodes p).isLeaf = false)
    (hps : Pieced w' g p r (w.nodes r).isLeaf x qs [] []) :
    ∃ g', TreeOK w' g' p (H + 1) ∧ contents w' (H + 1) p = contents w H r ∧
      (∀ m, g'.lvl m = if m = p then some (H + 1) else if m ∈ qs.map Prod.fst then some H
        else g.lvl m) := by
  have hfk : firstKey (w.inodes r) = firstKey x := by rw [hxy, firstKey_append hps.head_ne]
  have hstub : stub (r, w.inodes r) = stub (r, x) := by simp [stub, hfk]
  have hrp : r ≠ p := by
    rintro rfl
    rw [h.lvl_root] at hnew
    cases hnew
  let f : NodeId → List Inode := fun n =>
    if n = r then w.inodes r else if n = p then [stub (r, w.inodes r)] else w'.inodes n
  have hf : ∀ n, (w'.withInodes f).inodes n = f n := withInodes_inodes w' f
  have hfr : f r = w.inodes r := if_pos rfl
  have hfp : f p = [stub (r, w.inodes r)] := by simp only [f, if_neg hrp.symm, if_true]
  have hfo : ∀ n, n ≠ r → n ≠ p → f n = w'.inodes n := fun n h1 h2 => by
    simp only [f, if_neg h1, if_neg h2]
  obtain ⟨h1, hcont1⟩ := h.plant (w'.withInodes f) hnew hlt (by simp [hxy, hps.head_ne])
    ⟨hn.nextNode, hn.isLeaf, hn.key, fun m e hm hmp hmr => by
      rw [hf, hfo m hmr hmp]
      exact hn.inodes m e hm hmp hmr⟩
    (by rw [hf, hfr]) (by rw [hfk]; exact hps.head_key) hpl (by rw [hf, hfp])
  have hparr : (g.plant r p H).par r = p := if_pos rfl
  have hlvl : ∀ m, m ≠ p → (g.plant r p H).lvl m = g.lvl m := fun m hm => if_neg hm
  obtain ⟨g', h2, hcont2, hrec⟩ := h1.cuts w' x qs [] [] (c := r) (d := H)
    (by rw [hlvl r hrp, h.lvl_root]) hrp (by rw [hparr, hf, hfp, hstub]; rfl)
    (by rw [hf, hfr, hxy])
    ⟨le_rfl, fun _ _ _ => rfl, fun _ _ _ _ => rfl, fun m e _ hmp hmc => by
      rw [hparr] at hmp
      rw [hf, hfo m hmc hmp]⟩
    (.inl (by simp [Layout.plant]))
    ⟨hps.nodup, fun y hy => by
        rw [hlvl _ fun e => hqs (e ▸ List.mem_map_of_mem hy)]
        exact hps.new y hy,
      hps.lt, hps.ne,
      fun y hy => (hps.isLeaf y hy).trans (hn.isLeaf r H h.lvl_root).symm, hps.key, hps.inodes,
      hps.head_ne, hps.head_key, hps.head, by rw [hparr]; exact hps.parent⟩
  refine ⟨g', h2, hcont2.trans hcont1, fun m => ?_⟩
  rw [hrec.lvl]
  by_cases em : m = p
  · rw [if_neg (by rw [em]; exact hqs), if_pos em, em]
    exact if_pos rfl
  · rw [if_neg em, hlvl m em]

end

end Vmbolt
