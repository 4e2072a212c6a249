import Vmbolt.Rebalance.Effect
import Vmbolt.Rebalance.Underfull

/-!
# The handle while it is rebalanced

Each step of `node.rebalance` takes the tree of the handle to another tree of the handle. The node
that is being rebalanced is excepted from the conditions on flags and sizes. When it is merged with
a sibling or dropped, its parent takes over the exception, with its flag set, and `node.rebalance`
goes on there.
-/

namespace Vmbolt
open Prog

/-- The node is no longer flagged. -/
def World.unflag (w : World) (n : NodeId) : World :=
  w.setNode n { w.nodes n with unbalanced := false }

/-- The children of `i` and `j` stand beside each other under `p`, both are the handle's own, and
one of them is the node `n` that is being rebalanced. -/
structure Beside (w : World) (b : BucketId) (g : Layout) (r : NodeId) (H : Nat) (n p : NodeId)
    (d : Nat) (l1 : List Inode) (i j : Inode) (l2 : List Inode) : Prop where
  handle : HandleBut w b g r H (some n)
  lvl : g.lvl p = some (d + 1)
  parent_dirty : p ∈ (w.buckets b).dirty
  inodes : w.inodes p = l1 ++ i :: j :: l2
  left_dirty : i.kid ∈ (w.buckets b).dirty
  right_dirty : j.kid ∈ (w.buckets b).dirty
  one : n = i.kid ∨ n = j.kid
  unflagged : (w.nodes n).unbalanced = false
  nonempty : w.inodes n ≠ []

/-- The child of `i` under `p` is an empty leaf that is being rebalanced. -/
structure Hollow (w : World) (b : BucketId) (g : Layout) (r : NodeId) (H : Nat) (p : NodeId)
    (l1 : List Inode) (i : Inode) (l2 : List Inode) : Prop where
  handle : HandleBut w b g r H (some i.kid)
  lvl : g.lvl p = some 1
  parent_dirty : p ∈ (w.buckets b).dirty
  inodes : w.inodes p = l1 ++ i :: l2
  unflagged : (w.nodes i.kid).unbalanced = false
  empty : w.inodes i.kid = []

/-- The root of height `d + 1` is being rebalanced and has the child of `i` only, which is the
handle's own. -/
structure Lone (w : World) (b : BucketId) (g : Layout) (r : NodeId) (d : Nat) (i : Inode) :
    Prop where
  handle : HandleBut w b g r (d + 1) (some r)
  inodes : w.inodes r = [i]
  unflagged : (w.nodes r).unbalanced = false
  child_dirty : i.kid ∈ (w.buckets b).dirty

section
variable {w w' : World} {b : BucketId} {g : Layout} {r n p a c m : NodeId} {H d e : Nat}
  {i j : Inode} {l1 l2 l : List Inode} {x : Option NodeId}

/-! ## Flags -/

lemma World.unflag_self : ((w.unflag n).nodes n).unbalanced = false := by
  unfold World.unflag World.setNode
  simp

lemma World.unflag_other (h : m ≠ n) : (w.unflag n).nodes m = w.nodes m := by
  unfold World.unflag World.setNode
  simp [h]

/-- Only the flag is written. -/
lemma World.unflag_fields (m : NodeId) : (w.unflag n).nodes m =
    { w.nodes m with unbalanced := ((w.unflag n).nodes m).unbalanced } := by
  by_cases h : m = n
  · subst h
    unfold World.unflag World.setNode
    simp
  · rw [World.unflag_other h]

lemma World.unflag_inodes (m : NodeId) : (w.unflag n).inodes m = w.inodes m := by
  unfold World.inodes
  rw [World.unflag_fields]
  rfl

lemma World.unflag_arr (m : NodeId) : (w.unflag n).arr m = w.arr m := by
  unfold World.arr
  rw [World.unflag_fields]

/-- A node that is flagged afterwards was flagged before. -/
lemma World.of_unflag_flagged (h : ((w.unflag n).nodes m).unbalanced = true) :
    m ≠ n ∧ (w.nodes m).unbalanced = true := by
  by_cases hm : m = n
  · subst hm
    rw [World.unflag_self] at h
    cases h
  · rw [World.unflag_other hm] at h
    exact ⟨hm, h⟩

lemma World.Sound.unflag (hw : w.Sound) : (w.unflag n).Sound := by
  refine ⟨hw.cut, fun m hm => ?_, fun m hm => ?_⟩
  · rw [World.unflag_arr]
    exact hw.arr_lt m hm
  · rw [World.unflag_arr, World.unflag_fields]
    exact hw.len_le m hm

lemma Quiet.unflag : Quiet b w (w.unflag n) :=
  ⟨rfl, rfl, rfl, rfl, rfl, fun _ _ => rfl, rfl, rfl, rfl⟩

lemma unflag_sameBut : SameBut g ∅ w (w.unflag n) :=
  ⟨le_rfl, fun m d _ _ => by rw [World.unflag_fields], fun m d _ _ => by rw [World.unflag_fields],
    fun m d _ _ => World.unflag_inodes m⟩

/-! ## The exception -/

namespace HandleBut

/-- Any node may be excepted. -/
lemma except (h : HandleBut w b g r H none) (n : NodeId) : HandleBut w b g r H (some n) where
  sound := h.sound
  tree := h.tree
  rootNode := h.rootNode
  root_dirty := h.root_dirty
  root_parent := h.root_parent
  dirty := h.dirty
  parent := h.parent
  sep := h.sep
  first := h.first
  two m d hm _ := h.two m d hm (by rintro ⟨⟩)
  empty m hm hr _ := h.empty m hm hr (by rintro ⟨⟩)
  flagged m hm _ := h.flagged m hm (by rintro ⟨⟩)
  calm m hm q hq := ⟨(h.calm m hm q hq).1, fun _ => (h.calm m hm q hq).2 (by rintro ⟨⟩)⟩

/-- A node that is in order needs no exception. -/
lemma settle (h : HandleBut w b g r H (some n)) (hf : (w.nodes n).unbalanced = false)
    (htwo : ∀ d, g.lvl n = some (d + 1) → 2 ≤ (w.inodes n).length)
    (hne : g.lvl n = some 0 → n ≠ r → w.inodes n ≠ []) : HandleBut w b g r H none where
  sound := h.sound
  tree := h.tree
  rootNode := h.rootNode
  root_dirty := h.root_dirty
  root_parent := h.root_parent
  dirty := h.dirty
  parent := h.parent
  sep := h.sep
  first := h.first
  two m d hm _ := by
    by_cases hmn : m = n
    · subst hmn
      exact htwo d hm
    · exact h.two m d hm fun he => hmn (Option.some.inj he).symm
  empty m hm hr _ hemp := by
    by_cases hmn : m = n
    · subst hmn
      exact absurd hemp (hne hm hr)
    · exact h.empty m hm hr (fun he => hmn (Option.some.inj he).symm) hemp
  flagged m hm _ hfl := by
    refine h.flagged m hm ?_ hfl
    rintro he
    cases he
    rw [hf] at hfl
    cases hfl
  calm m hm q hq := by
    refine ⟨(h.calm m hm q hq).1, fun _ => ?_⟩
    by_cases hqn : q = n
    · rw [hqn, hf]
    · exact (h.calm m hm q hq).2 fun he => hqn (Option.some.inj he).symm

/-- The flag of the node that is being rebalanced is cleared. -/
lemma unflag (h : HandleBut w b g r H (some n)) : HandleBut (w.unflag n) b g r H (some n) where
  sound := h.sound.unflag
  tree := h.tree.same unflag_sameBut
  rootNode := h.rootNode
  root_dirty := h.root_dirty
  root_parent := by
    rw [World.unflag_fields]
    exact h.root_parent
  dirty m hm := by
    obtain ⟨h1, h2, h3⟩ := h.dirty m hm
    refine ⟨h1, ?_, ?_⟩ <;> rw [World.unflag_fields] <;> assumption
  parent m hm d hl hr := by
    rw [World.unflag_fields]
    exact h.parent m hm d hl hr
  sep m hm d hl m' e hl' hne := by
    rw [World.unflag_arr, World.unflag_arr]
    exact h.sep m hm d hl m' e hl' hne
  first m d hl hm := by
    obtain ⟨i, l, h1, h2⟩ := h.first m d hl hm
    exact ⟨i, l, by rw [World.unflag_inodes, h1], by rw [World.unflag_fields]; exact h2⟩
  two m d hl hx := by
    rw [World.unflag_inodes]
    exact h.two m d hl hx
  empty m hl hr hx hemp := by
    rw [World.unflag_inodes] at hemp
    rw [World.unflag_other fun he => hx (by rw [he])]
    exact h.empty m hl hr hx hemp
  flagged m hm hx hf := by
    rw [World.unflag_fields]
    exact h.flagged m hm hx (World.of_unflag_flagged hf).2
  calm m hm q hq := by
    rw [World.unflag_fields] at hq
    obtain ⟨h1, h2⟩ := h.calm m hm q hq
    refine ⟨h1, fun hx => ?_⟩
    rw [World.unflag_other fun he => hx (by rw [he])]
    exact h2 hx

end HandleBut

/-! ## Children -/

/-- The children of a node `c` are those that hang under it. -/
lemma TreeOK.mem_children (h : TreeOK w g r H) (hc : g.lvl c = some d) (hm : g.lvl m = some e) :
    some m ∈ (w.inodes c).map Inode.child ↔ m ≠ r ∧ g.par m = c := by
  constructor
  · intro hmem
    obtain ⟨i, hi, hchild⟩ := List.mem_map.1 hmem
    refine ⟨?_, ?_⟩
    · rintro rfl
      exact h.child_ne_root hc i hi hchild
    · by_contra hpar
      exact h.child_ne hc hpar i hi hchild
  · rintro ⟨hmr, rfl⟩
    obtain ⟨-, hq, i, hi, rfl⟩ := h.up m e hm hmr
    exact List.mem_map.2 ⟨i, hi, (h.branch _ e hq).child i hi⟩

/-- A node that is not in the tree is nobody's child. -/
lemma TreeOK.not_mem_children (h : TreeOK w g r H) (hc : g.lvl c = some d) (hm : g.lvl m = none) :
    some m ∉ (w.inodes c).map Inode.child := by
  intro hmem
  obtain ⟨i, hi, hchild⟩ := List.mem_map.1 hmem
  cases d with
  | zero =>
    rw [((h.leaf c hc).entry i hi).child] at hchild
    cases hchild
  | succ d =>
    have hb := h.branch c d hc
    rw [hb.child i hi] at hchild
    cases hchild
    rw [hb.lvl i hi] at hm
    cases hm

/-! ## Merging -/

namespace Merged
variable (hm : Merged w b p a c l w')
include hm

/-- The fields that a merge leaves alone. -/
lemma fields (m : NodeId) :
    (w'.nodes m).bucket = (w.nodes m).bucket ∧ (w'.nodes m).isLeaf = (w.nodes m).isLeaf ∧
      (w'.nodes m).spilled = (w.nodes m).spilled ∧ (w'.nodes m).key = (w.nodes m).key := by
  by_cases h1 : m = p
  · subst h1
    rw [hm.parent]
    simp
  by_cases h2 : m = a
  · subst h2
    rw [hm.left]
    simp
  by_cases h3 : m ∈ (w.buckets b).dirty ∧ some m ∈ (w.inodes c).map Inode.child
  · rw [hm.kid m h3.1 h3.2]
    simp
  · rw [hm.other m h1 h2 fun h4 h5 => h3 ⟨h4, h5⟩]
    simp

/-- Only the parent is flagged. -/
lemma flag (h1 : m ≠ p) : (w'.nodes m).unbalanced = (w.nodes m).unbalanced := by
  by_cases h2 : m = a
  · subst h2
    rw [hm.left]
  by_cases h3 : m ∈ (w.buckets b).dirty ∧ some m ∈ (w.inodes c).map Inode.child
  · rw [hm.kid m h3.1 h3.2]
  · rw [hm.other m h1 h2 fun h4 h5 => h3 ⟨h4, h5⟩]

/-- The parents of the nodes that were not moved. -/
lemma parent_eq (hk : m ∈ (w.buckets b).dirty → some m ∉ (w.inodes c).map Inode.child) :
    (w'.nodes m).parent = (w.nodes m).parent := by
  by_cases h1 : m = p
  · subst h1
    rw [hm.parent]
  by_cases h2 : m = a
  · subst h2
    rw [hm.left]
  · rw [hm.other m h1 h2 hk]

lemma buckets : w'.buckets = w.buckets := by rw [hm.rest]

lemma nextNode : w'.nextNode = w.nextNode := by rw [hm.rest]

lemma quiet : Quiet b w w' := by
  rw [hm.rest]
  exact ⟨rfl, rfl, rfl, rfl, rfl, fun _ _ => rfl, rfl, rfl, rfl⟩

end Merged

namespace Beside
variable (h : Beside w b g r H n p d l1 i j l2)
include h

lemma mem : i ∈ w.inodes p ∧ j ∈ w.inodes p := by
  rw [h.inodes]
  simp

lemma left_lvl : g.lvl i.kid = some d :=
  h.handle.tree.kid h.lvl h.mem.1

lemma right_lvl : g.lvl j.kid = some d :=
  h.handle.tree.kid h.lvl h.mem.2

lemma left_ne_right : i.kid ≠ j.kid := by
  intro he
  have hij := h.handle.tree.kid_inj h.lvl h.mem.1 h.mem.2 he
  have hb := h.handle.tree.branch p d h.lvl
  rw [h.inodes] at hb
  have hlt := hb.neighbours.1
  rw [hij] at hlt
  exact lt_irrefl _ hlt

lemma ne_parent (hm : g.lvl m = some d) : m ≠ p := by
  rintro rfl
  rw [h.lvl] at hm
  simp at hm

lemma ne_root (hm : g.lvl m = some d) : m ≠ r := by
  have hle := h.handle.tree.le_height h.lvl
  exact h.handle.tree.ne_root hm (by omega)

/-- The node that is being rebalanced is on the level of the two. -/
lemma one_lvl : g.lvl n = some d := by
  rcases h.one with rfl | rfl
  · exact h.left_lvl
  · exact h.right_lvl

lemma one_dirty : n ∈ (w.buckets b).dirty := by
  rcases h.one with rfl | rfl
  · exact h.left_dirty
  · exact h.right_dirty

/-- The merge of the two siblings returns. -/
lemma merge :
    ∃ w', Node.mergeSiblings n i.kid j.kid w = (.ok (), w') ∧
      Merged w b p i.kid j.kid (l1 ++ i :: l2) w' := by
  have hh := h.handle
  have ht := hh.tree
  have hb := ht.branch p d h.lvl
  have hlvl := h.one_lvl
  have hpar : (w.nodes n).parent = some p := by
    obtain ⟨h1, -⟩ := hh.parent n h.one_dirty d hlvl (h.ne_root hlvl)
    rcases h.one with rfl | rfl
    · rwa [hb.par i h.mem.1] at h1
    · rwa [hb.par j h.mem.2] at h1
  have hkids : ∀ m, m = p ∨ m = i.kid ∨ m = j.kid → some m ∉ (w.inodes j.kid).map Inode.child := by
    intro m hm hmem
    have hup : ∀ {e}, g.lvl m = some e → d ≤ e → False := by
      intro e he hle
      obtain ⟨hmr, hmp⟩ := (ht.mem_children h.right_lvl he).1 hmem
      have := (ht.up m e he hmr).2.1
      rw [hmp, h.right_lvl] at this
      cases this
      omega
    rcases hm with rfl | rfl | rfl
    · exact hup h.lvl (Nat.le_succ d)
    · exact hup h.left_lvl le_rfl
    · exact hup h.right_lvl le_rfl
  have hkey : (w.nodes j.kid).key = j.key := hb.key j h.mem.2
  -- the key of the right one is found in the parent
  have hcut : w.inodes p = (l1 ++ [i]) ++ j :: l2 := by rw [h.inodes]; simp
  have hsorted := hb.sorted
  rw [hcut, List.pairwise_append, List.pairwise_cons] at hsorted
  have hdel := delInodes_append (k := j.key) (y := j) (fun x hx => hsorted.2.2 x hx j (by simp))
    (fun x hx => (hsorted.2.1.1 x hx).le) rfl
  rw [← hcut] at hdel
  have hsep : w.arr p ≠ w.arr i.kid :=
    hh.sep i.kid h.left_dirty d h.left_lvl p (d + 1) h.lvl (h.ne_parent h.left_lvl).symm
  obtain ⟨w', he, hm⟩ :=
    mergeSiblings_eq (b := b) hh.sound (ht.alloc p _ h.lvl) (ht.alloc _ d h.left_lvl)
    (hh.dirty _ h.right_dirty).owned h.one hpar (h.ne_parent h.left_lvl) (h.ne_parent h.right_lvl)
    h.left_ne_right hkids hsep (by rw [hkey]; exact hdel.1)
  refine ⟨w', he, ?_⟩
  rw [hkey, hdel.2] at hm
  simpa using hm

variable (hm : Merged w b p i.kid j.kid (l1 ++ i :: l2) w')
include hm

/-- A node of the tree other than the three has kept its inodes. -/
lemma view (hl : g.lvl m = some e) (h1 : m ≠ p) (h2 : m ≠ i.kid) : w'.inodes m = w.inodes m :=
  hm.view m h1 h2 (h.handle.tree.alloc m e hl) (h.handle.sep p h.parent_dirty _ h.lvl m e hl h1)
    (h.handle.sep i.kid h.left_dirty d h.left_lvl m e hl h2)

/-- The merge as a step on the tree. -/
lemma joins : Joins g p l1 i j l2 w w' where
  inodes := h.inodes
  same := by
    refine ⟨hm.nextNode.ge, fun m e hl hS => (hm.fields m).2.1,
      fun m e hl hS => (hm.fields m).2.2.2, fun m e hl hS => ?_⟩
    simp only [Set.mem_insert_iff, Set.mem_singleton_iff, not_or] at hS
    exact h.view hm hl hS.1 hS.2.1
  parent_isLeaf := (hm.fields p).2.1
  parent_key := (hm.fields p).2.2.2
  parent_inodes := hm.inodes_parent
  isLeaf := (hm.fields i.kid).2.1
  key := (hm.fields i.kid).2.2.2
  left_inodes := hm.inodes_left

/-- After the merge the parent is excepted. -/
lemma handleBut : HandleBut w' b (g.join i.kid j.kid) r H (some p) := by
  have hh := h.handle
  have ht := hh.tree
  have hnp : ∀ {q}, q ≠ p → (w.nodes q).unbalanced = false → (w'.nodes q).unbalanced = false := by
    intro q hq hf
    rw [hm.flag hq]
    exact hf
  constructor
  case sound => exact hm.sound
  case tree => exact (h.joins hm).treeOK ht h.lvl
  case rootNode =>
    rw [hm.buckets]
    exact hh.rootNode
  case root_dirty =>
    rw [hm.buckets]
    exact hh.root_dirty
  case root_parent =>
    rw [hm.parent_eq fun _ hk => ((ht.mem_children h.right_lvl ht.lvl_root).1 hk).1 rfl]
    exact hh.root_parent
  case dirty =>
    intro m hmem
    rw [hm.buckets] at hmem
    obtain ⟨h1, h2, h3⟩ := hh.dirty m hmem
    obtain ⟨f1, -, f3, -⟩ := hm.fields m
    exact ⟨by rwa [hm.nextNode], by rwa [f1], by rwa [f3]⟩
  case parent =>
    intro m hmem e hl hr
    rw [hm.buckets] at hmem ⊢
    obtain ⟨hmj, hl⟩ := Layout.join_lvl.1 hl
    obtain ⟨h1, h2⟩ := hh.parent m hmem e hl hr
    have hiff := ht.mem_children h.right_lvl hl
    by_cases hpar : g.par m = j.kid
    · rw [show (g.join i.kid j.kid).par m = i.kid from if_pos hpar,
        hm.kid m hmem (hiff.2 ⟨hr, hpar⟩)]
      exact ⟨rfl, h.left_dirty⟩
    · rw [Layout.join_par hpar, hm.parent_eq fun _ hk => hpar (hiff.1 hk).2]
      exact ⟨h1, h2⟩
  case sep =>
    intro m hmem e hl m' e' hl' hne
    rw [hm.buckets] at hmem
    have hl := (Layout.join_lvl.1 hl).2
    have hl' := (Layout.join_lvl.1 hl').2
    exact hm.apart m' m (ht.alloc _ _ hl') (ht.alloc _ _ hl) (hh.sep m hmem e hl m' e' hl' hne)
  case first =>
    intro m e hl hmem
    rw [hm.buckets] at hmem
    obtain ⟨-, hl⟩ := Layout.join_lvl.1 hl
    obtain ⟨x, t, h1, h2⟩ := hh.first m e hl hmem
    have hmp : m ≠ p := fun he => hmem (he ▸ h.parent_dirty)
    have hmi : m ≠ i.kid := fun he => hmem (he ▸ h.left_dirty)
    exact ⟨x, t, by rw [h.view hm hl hmp hmi, h1], by rw [(hm.fields m).2.2.2, h2]⟩
  case two =>
    intro m e hl hx
    obtain ⟨hmj, hl⟩ := Layout.join_lvl.1 hl
    have hmp : m ≠ p := fun he => hx (by rw [he])
    by_cases hmi : m = i.kid
    · subst hmi
      have hd : d = e + 1 := by
        have := h.left_lvl
        rw [hl] at this
        simpa using this.symm
      subst hd
      have h1 := List.length_pos_iff.2 (ht.branch _ e h.left_lvl).ne
      have h2 := List.length_pos_iff.2 (ht.branch _ e h.right_lvl).ne
      rw [hm.inodes_left, List.length_append]
      omega
    · rw [h.view hm hl hmp hmi]
      refine hh.two m e hl fun he => ?_
      cases he
      rcases h.one with h1 | h1
      · exact hmi h1
      · exact hmj h1
  case empty =>
    intro m hl hr hx hemp
    obtain ⟨hmj, hl⟩ := Layout.join_lvl.1 hl
    have hmp : m ≠ p := fun he => hx (by rw [he])
    by_cases hmi : m = i.kid
    · subst hmi
      rw [hm.inodes_left, List.append_eq_nil_iff] at hemp
      have := h.nonempty
      rcases h.one with h1 | h1 <;> rw [h1] at this
      · exact absurd hemp.1 this
      · exact absurd hemp.2 this
    · rw [h.view hm hl hmp hmi] at hemp
      rw [hm.flag hmp]
      refine hh.empty m hl hr (fun he => ?_) hemp
      cases he
      rcases h.one with h1 | h1
      · exact hmi h1
      · exact hmj h1
  case flagged =>
    intro m hmem hx hf
    rw [hm.buckets] at hmem
    rw [hm.flag fun he => hx (by rw [he])] at hf
    rw [(hm.fields m).2.1]
    refine hh.flagged m hmem (fun he => ?_) hf
    cases he
    rw [h.unflagged] at hf
    cases hf
  case calm =>
    intro m hmem q hq
    rw [hm.buckets] at hmem ⊢
    -- a node that is flagged is a leaf, unless it is the one that was rebalanced
    have hcalm : ∀ q, q ∈ (w.buckets b).dirty → (some n ≠ some q → (w.nodes q).unbalanced = false) →
        q ∈ (w.buckets b).dirty ∧ (some p ≠ some q → (w'.nodes q).unbalanced = false) := by
      intro q h1 h2
      refine ⟨h1, fun hx => hnp (fun he => hx (by rw [he])) ?_⟩
      by_cases hqn : q = n
      · rw [hqn]
        exact h.unflagged
      · exact h2 fun he => hqn (Option.some.inj he).symm
    by_cases hk : some m ∈ (w.inodes j.kid).map Inode.child
    · rw [hm.kid m hmem hk] at hq
      cases hq
      refine hcalm _ h.left_dirty fun hx => ?_
      obtain ⟨x, hx', hchild⟩ := List.mem_map.1 hk
      cases d with
      | zero =>
        rw [((ht.leaf _ h.right_lvl).entry x hx').child] at hchild
        cases hchild
      | succ d => exact hh.unflagged h.left_dirty h.left_lvl hx
    · rw [hm.parent_eq fun _ => hk] at hq
      obtain ⟨h1, h2⟩ := hh.calm m hmem q hq
      exact hcalm q h1 h2

end Beside

/-! ## Dropping -/

namespace Hollow
variable (h : Hollow w b g r H p l1 i l2)
include h

lemma mem : i ∈ w.inodes p := by
  rw [h.inodes]
  simp

lemma leaf_lvl : g.lvl i.kid = some 0 := h.handle.tree.kid h.lvl h.mem

lemma ne_parent : i.kid ≠ p := by
  intro he
  have hl := h.leaf_lvl
  rw [he, h.lvl] at hl
  cases hl

/-- The leaf has siblings. -/
lemma rest_ne : l1 ++ l2 ≠ [] := by
  have hlen := h.handle.two p 0 h.lvl fun he => h.ne_parent (Option.some.inj he)
  rw [h.inodes] at hlen
  intro hnil
  rw [List.append_eq_nil_iff] at hnil
  rw [hnil.1, hnil.2] at hlen
  simp at hlen

/-- The leaf is taken out of its parent. -/
lemma del :
    ∃ w', Node.del p (w.nodes i.kid).key w = (.ok (), w') ∧
      Upd w p (fun nd => { nd with unbalanced := true }) (l1 ++ l2) w' ∧ KeysFrom p [] w w' := by
  have hb := h.handle.tree.branch p 0 h.lvl
  have hsorted := hb.sorted
  rw [h.inodes, List.pairwise_append, List.pairwise_cons] at hsorted
  have hdel := delInodes_append (k := i.key) (y := i) (fun x hx => hsorted.2.2 x hx i (by simp))
    (fun x hx => (hsorted.2.1.1 x hx).le) rfl
  rw [← h.inodes] at hdel
  obtain ⟨w', he, hu, hk⟩ := del_keys h.handle.sound (h.handle.tree.alloc p 1 h.lvl) hdel.1
  refine ⟨w', ?_, ?_, hk⟩
  · rw [hb.key i h.mem]
    exact he
  · rwa [hdel.2] at hu

variable (hu : Upd w p (fun nd => { nd with unbalanced := true }) (l1 ++ l2) w')
include hu

lemma view (hl : g.lvl m = some e) (hmp : m ≠ p) : w'.inodes m = w.inodes m :=
  hu.view m hmp (h.handle.tree.alloc m e hl) (h.handle.sep p h.parent_dirty _ h.lvl m e hl hmp)

/-- Taking the leaf out as a step on the tree. -/
lemma drops : Drops g p l1 i l2 w w' where
  inodes := h.inodes
  ne := h.rest_ne
  same := by
    have hp : ∀ {m}, m ∉ ({p, i.kid} : Set NodeId) → m ≠ p := fun hS he => hS (by simp [he])
    exact ⟨hu.nextNode.ge, fun m e _ hS => by rw [hu.other m (hp hS)],
      fun m e _ hS => by rw [hu.other m (hp hS)], fun m e hl hS => h.view hu hl (hp hS)⟩
  parent_isLeaf := by rw [hu.self]
  parent_key := by rw [hu.self]
  parent_inodes := hu.inodes

/-- After a leaf was dropped, its parent is excepted. -/
lemma handleBut : HandleBut w' b (g.drop i.kid) r H (some p) := by
  have hh := h.handle
  have ht := hh.tree
  -- only the inodes and the flag of the parent have changed
  have hfields : ∀ m, (w'.nodes m).bucket = (w.nodes m).bucket ∧
      (w'.nodes m).isLeaf = (w.nodes m).isLeaf ∧ (w'.nodes m).spilled = (w.nodes m).spilled ∧
      (w'.nodes m).key = (w.nodes m).key ∧ (w'.nodes m).parent = (w.nodes m).parent := by
    intro m
    by_cases hmp : m = p
    · subst hmp
      rw [hu.self]
      simp
    · rw [hu.other m hmp]
      simp
  have hex : ∀ {q}, some p ≠ some q → q ≠ p := fun hx he => hx (by rw [he])
  constructor
  case sound => exact hu.sound
  case tree => exact Drops.treeOK ht h.lvl (h.drops hu)
  case rootNode =>
    rw [hu.buckets]
    exact hh.rootNode
  case root_dirty =>
    rw [hu.buckets]
    exact hh.root_dirty
  case root_parent =>
    rw [(hfields r).2.2.2.2]
    exact hh.root_parent
  case dirty =>
    intro m hmem
    rw [hu.buckets] at hmem
    obtain ⟨h1, h2, h3⟩ := hh.dirty m hmem
    obtain ⟨f1, -, f3, -, -⟩ := hfields m
    exact ⟨by rwa [hu.nextNode], by rwa [f1], by rwa [f3]⟩
  case parent =>
    intro m hmem e hl hr
    rw [hu.buckets] at hmem ⊢
    rw [(hfields m).2.2.2.2]
    exact hh.parent m hmem e (Layout.drop_lvl.1 hl).2 hr
  case sep =>
    intro m hmem e hl m' e' hl' hne
    rw [hu.buckets] at hmem
    have hl := (Layout.drop_lvl.1 hl).2
    have hl' := (Layout.drop_lvl.1 hl').2
    exact hu.keepsApart hh.sound m' m (ht.alloc _ _ hl') (ht.alloc _ _ hl)
      (hh.sep m hmem e hl m' e' hl' hne)
  case first =>
    intro m e hl hmem
    rw [hu.buckets] at hmem
    have hl := (Layout.drop_lvl.1 hl).2
    obtain ⟨x, t, h1, h2⟩ := hh.first m e hl hmem
    have hmp : m ≠ p := fun he => hmem (he ▸ h.parent_dirty)
    exact ⟨x, t, by rw [h.view hu hl hmp, h1], by rw [(hfields m).2.2.2.1, h2]⟩
  case two =>
    intro m e hl hx
    obtain ⟨hmi, hl⟩ := Layout.drop_lvl.1 hl
    rw [h.view hu hl (hex hx)]
    exact hh.two m e hl fun he => hmi (Option.some.inj he).symm
  case empty =>
    intro m hl hr hx hemp
    obtain ⟨hmi, hl⟩ := Layout.drop_lvl.1 hl
    rw [h.view hu hl (hex hx)] at hemp
    rw [hu.other m (hex hx)]
    exact hh.empty m hl hr (fun he => hmi (Option.some.inj he).symm) hemp
  case flagged =>
    intro m hmem hx hf
    rw [hu.buckets] at hmem
    rw [hu.other m (hex hx)] at hf ⊢
    refine hh.flagged m hmem (fun he => ?_) hf
    cases he
    rw [h.unflagged] at hf
    cases hf
  case calm =>
    intro m hmem q hq
    rw [hu.buckets] at hmem ⊢
    rw [(hfields m).2.2.2.2] at hq
    obtain ⟨h1, h2⟩ := hh.calm m hmem q hq
    refine ⟨h1, fun hx => ?_⟩
    rw [hu.other q (hex hx)]
    by_cases hqi : q = i.kid
    · rw [hqi]
      exact h.unflagged
    · exact h2 fun he => hqi (Option.some.inj he).symm

end Hollow

/-! ## Collapsing -/

namespace Collapsed
variable (hc : Collapsed w b r c w')
include hc

lemma buckets : w'.buckets = w.buckets := by rw [hc.rest]

lemma nextNode : w'.nextNode = w.nextNode := by rw [hc.rest]

lemma quiet : Quiet b w w' := by
  rw [hc.rest]
  exact ⟨rfl, rfl, rfl, rfl, rfl, fun _ _ => rfl, rfl, rfl, rfl⟩

/-- The fields that a collapse leaves alone. -/
lemma fields (m : NodeId) :
    (w'.nodes m).bucket = (w.nodes m).bucket ∧ (w'.nodes m).spilled = (w.nodes m).spilled ∧
      (w'.nodes m).key = (w.nodes m).key ∧ (w'.nodes m).unbalanced = (w.nodes m).unbalanced := by
  by_cases h1 : m = r
  · subst h1
    rw [hc.root]
    simp
  by_cases h2 : m = c
  · subst h2
    rw [hc.child]
    simp
  by_cases h3 : m ∈ (w.buckets b).dirty ∧ some m ∈ (w.inodes c).map Inode.child
  · rw [hc.kid m h3.1 h3.2]
    simp
  · rw [hc.other m h1 h2 fun h4 h5 => h3 ⟨h4, h5⟩]
    simp

/-- The nodes other than the root keep their leaf flag and their slice. -/
lemma slice (h1 : m ≠ r) :
    (w'.nodes m).isLeaf = (w.nodes m).isLeaf ∧ (w'.nodes m).inodes = (w.nodes m).inodes := by
  by_cases h2 : m = c
  · subst h2
    rw [hc.child]
    simp
  by_cases h3 : m ∈ (w.buckets b).dirty ∧ some m ∈ (w.inodes c).map Inode.child
  · rw [hc.kid m h3.1 h3.2]
    simp
  · rw [hc.other m h1 h2 fun h4 h5 => h3 ⟨h4, h5⟩]
    simp

lemma arr_eq (h1 : m ≠ r) : w'.arr m = w.arr m := by
  unfold World.arr
  rw [(hc.slice h1).2]

lemma arr_root : w'.arr r = w.arr c := by
  unfold World.arr
  rw [hc.root]

lemma inodes_eq (h1 : m ≠ r) : w'.inodes m = w.inodes m := by
  have ha : w'.arrays = w.arrays := by rw [hc.rest]
  unfold World.inodes
  rw [(hc.slice h1).2, ha]

lemma inodes_root : w'.inodes r = w.inodes c := by
  have ha : w'.arrays = w.arrays := by rw [hc.rest]
  unfold World.inodes
  rw [hc.root, ha]

/-- The parents of the nodes that were not moved. -/
lemma parent_eq (h2 : m ≠ c)
    (hk : m ∈ (w.buckets b).dirty → some m ∉ (w.inodes c).map Inode.child) :
    (w'.nodes m).parent = (w.nodes m).parent := by
  by_cases h1 : m = r
  · subst h1
    rw [hc.root]
  · rw [hc.other m h1 h2 hk]

end Collapsed

namespace Lone

lemma mem (h : Lone w b g r d i) : i ∈ w.inodes r := by
  rw [h.inodes]
  simp

lemma child_lvl (h : Lone w b g r d i) : g.lvl i.kid = some d :=
  h.handle.tree.kid h.handle.tree.lvl_root h.mem

lemma child_ne_root (h : Lone w b g r d i) : i.kid ≠ r :=
  h.handle.tree.ne_root h.child_lvl (Nat.lt_succ_self d)

variable (h : Lone w b g r d i) (hc : Collapsed w b r i.kid w')
include h hc

/-- The collapse as a step on the tree. -/
lemma collapses : Collapses g r i w w' where
  inodes := h.inodes
  same := by
    have hr : ∀ {m}, m ∉ ({r, i.kid} : Set NodeId) → m ≠ r := fun hS he => hS (by simp [he])
    exact ⟨hc.nextNode.ge, fun m e _ hS => (hc.slice (hr hS)).1, fun m e _ _ => (hc.fields m).2.2.1,
      fun m e _ hS => hc.inodes_eq (hr hS)⟩
  isLeaf := by rw [hc.root]
  root_inodes := hc.inodes_root

/-- After the root was collapsed, nothing is excepted. -/
lemma handleBut : HandleBut w' b (g.collapse r i.kid d) r d none := by
  have hh := h.handle
  have ht := hh.tree
  have hcr := h.child_ne_root
  have hlvl : ∀ {m e}, (g.collapse r i.kid d).lvl m = some e →
      (m = r ∧ e = d) ∨ (m ≠ r ∧ m ≠ i.kid ∧ g.lvl m = some e) := (Layout.collapse_lvl hcr.symm).1
  have hunflagged : ∀ q, (some r ≠ some q → (w.nodes q).unbalanced = false) →
      (w'.nodes q).unbalanced = false := by
    intro q hq
    rw [(hc.fields q).2.2.2]
    by_cases hqr : q = r
    · rw [hqr]
      exact h.unflagged
    · exact hq fun he => hqr (Option.some.inj he).symm
  constructor
  case sound => exact hc.sound
  case tree => exact (h.collapses hc).treeOK ht
  case rootNode =>
    rw [hc.buckets]
    exact hh.rootNode
  case root_dirty =>
    rw [hc.buckets]
    exact hh.root_dirty
  case root_parent =>
    rw [hc.root]
    exact hh.root_parent
  case dirty =>
    intro m hmem
    rw [hc.buckets] at hmem
    obtain ⟨h1, h2, h3⟩ := hh.dirty m hmem
    obtain ⟨f1, f2, -, -⟩ := hc.fields m
    exact ⟨by rwa [hc.nextNode], by rwa [f1], by rwa [f2]⟩
  case parent =>
    intro m hmem e hl hr
    rw [hc.buckets] at hmem ⊢
    rcases hlvl hl with ⟨he, -⟩ | ⟨-, hmc, hl⟩
    · exact absurd he hr
    · obtain ⟨h1, h2⟩ := hh.parent m hmem e hl hr
      have hiff := ht.mem_children h.child_lvl hl
      by_cases hpar : g.par m = i.kid
      · rw [show (g.collapse r i.kid d).par m = r from if_pos hpar,
          hc.kid m hmem (hiff.2 ⟨hr, hpar⟩)]
        exact ⟨rfl, hh.root_dirty⟩
      · rw [show (g.collapse r i.kid d).par m = g.par m from if_neg hpar,
          hc.parent_eq hmc fun _ hk => hpar (hiff.1 hk).2]
        exact ⟨h1, h2⟩
  case sep =>
    intro m hmem e hl m' e' hl' hne
    rw [hc.buckets] at hmem
    -- the root has the array of its child, which is no longer in the tree
    rcases hlvl hl with ⟨hmr, -⟩ | ⟨hmr, hmc, hm⟩ <;>
      rcases hlvl hl' with ⟨hmr', -⟩ | ⟨hmr', hmc', hm'⟩
    · exact absurd (hmr'.trans hmr.symm) hne
    · rw [hmr, hc.arr_root, hc.arr_eq hmr']
      exact hh.sep _ h.child_dirty d h.child_lvl m' e' hm' hmc'
    · rw [hmr', hc.arr_root, hc.arr_eq hmr]
      exact (hh.sep _ h.child_dirty d h.child_lvl m e hm hmc).symm
    · rw [hc.arr_eq hmr, hc.arr_eq hmr']
      exact hh.sep m hmem e hm m' e' hm' hne
  case first =>
    intro m e hl hmem
    rw [hc.buckets] at hmem
    rcases hlvl hl with ⟨rfl, -⟩ | ⟨hmr, -, hl⟩
    · exact absurd hh.root_dirty hmem
    · obtain ⟨x, t, h1, h2⟩ := hh.first m e hl hmem
      exact ⟨x, t, by rw [hc.inodes_eq hmr, h1], by rw [(hc.fields m).2.2.1, h2]⟩
  case two =>
    intro m e hl _
    rcases hlvl hl with ⟨rfl, he⟩ | ⟨hmr, -, hl⟩
    · subst he
      rw [hc.inodes_root]
      exact hh.two _ e h.child_lvl fun he => hcr (Option.some.inj he).symm
    · rw [hc.inodes_eq hmr]
      exact hh.two m e hl fun he => hmr (Option.some.inj he).symm
  case empty =>
    intro m hl hr _ hemp
    rcases hlvl hl with ⟨he, -⟩ | ⟨-, -, hl⟩
    · exact absurd he hr
    · rw [hc.inodes_eq hr] at hemp
      rw [(hc.fields m).2.2.2]
      exact hh.empty m hl hr (fun he => hr (Option.some.inj he).symm) hemp
  case flagged =>
    intro m hmem _ hf
    rw [hc.buckets] at hmem
    have hmr : m ≠ r := by
      rintro rfl
      rw [(hc.fields m).2.2.2, h.unflagged] at hf
      cases hf
    rw [(hc.fields m).2.2.2] at hf
    rw [(hc.slice hmr).1]
    exact hh.flagged m hmem (fun he => hmr (Option.some.inj he).symm) hf
  case calm =>
    intro m hmem q hq
    rw [hc.buckets] at hmem ⊢
    by_cases hmc : m = i.kid
    · rw [hmc, hc.child] at hq
      cases hq
    by_cases hk : some m ∈ (w.inodes i.kid).map Inode.child
    · rw [hc.kid m hmem hk] at hq
      cases hq
      exact ⟨hh.root_dirty, fun _ => hunflagged r fun hx => absurd rfl hx⟩
    · rw [hc.parent_eq hmc fun _ => hk] at hq
      obtain ⟨h1, h2⟩ := hh.calm m hmem q hq
      exact ⟨h1, fun _ => hunflagged q h2⟩

end Lone

end

end Vmbolt
