import Vmbolt.Effect.Copies
import Vmbolt.Tree.Surgery

/-!
# The tree of a bucket handle

A handle that has written holds a tree whose upper part is its own: the dirty nodes of the tree are
closed under parents, belong to the handle, point to their parents and share no backing array with
another node of the tree. The clean nodes are those of a committed tree. `HandleBut` states this
from the first write of a transaction to the end of the rebalancing; while a node is being
rebalanced, it is excepted from the conditions on flags and sizes. A node that has left the tree may
stay dirty. `Handle` is the state while the transaction writes, where every dirty node is in the
tree.
-/

namespace Vmbolt

/-- The conditions on the fields of a dirty node, in the tree or not. -/
structure DirtyOK (w : World) (b : BucketId) (n : NodeId) : Prop where
  alloc : n < w.nextNode
  owned : (w.nodes n).bucket = some b
  unspilled : (w.nodes n).spilled = false

/-- The key of a node is that of its first inode. -/
def FirstKey (w : World) (n : NodeId) : Prop := ∃ i l, w.inodes n = i :: l ∧ (w.nodes n).key = i.key

/-- The handle `b` holds the tree with the root `r`; the node `x` is excepted from some
conditions. -/
structure HandleBut (w : World) (b : BucketId) (g : Layout) (r : NodeId) (H : Nat)
    (x : Option NodeId) : Prop where
  sound : w.Sound
  tree : TreeOK w g r H
  rootNode : (w.buckets b).rootNode = some r
  root_dirty : r ∈ (w.buckets b).dirty
  root_parent : (w.nodes r).parent = none
  dirty : ∀ n ∈ (w.buckets b).dirty, DirtyOK w b n
  parent : ∀ n ∈ (w.buckets b).dirty, ∀ d, g.lvl n = some d → n ≠ r →
    (w.nodes n).parent = some (g.par n) ∧ g.par n ∈ (w.buckets b).dirty
  sep : ∀ n ∈ (w.buckets b).dirty, ∀ d, g.lvl n = some d →
    ∀ m e, g.lvl m = some e → m ≠ n → w.arr m ≠ w.arr n
  first : ∀ n d, g.lvl n = some d → n ∉ (w.buckets b).dirty → FirstKey w n
  two : ∀ n d, g.lvl n = some (d + 1) → x ≠ some n → 2 ≤ (w.inodes n).length
  empty : ∀ n, g.lvl n = some 0 → n ≠ r → x ≠ some n → w.inodes n = [] →
    (w.nodes n).unbalanced = true
  flagged : ∀ n ∈ (w.buckets b).dirty, x ≠ some n → (w.nodes n).unbalanced = true →
    (w.nodes n).isLeaf = true
  calm : ∀ n ∈ (w.buckets b).dirty, ∀ p, (w.nodes n).parent = some p →
    p ∈ (w.buckets b).dirty ∧ (x ≠ some p → (w.nodes p).unbalanced = false)

/-- The handle `b` of a transaction that writes holds the tree with the root `r`. -/
structure Handle (w : World) (b : BucketId) (g : Layout) (r : NodeId) (H : Nat) : Prop
    extends HandleBut w b g r H none where
  inTree : ∀ n ∈ (w.buckets b).dirty, ∃ d, g.lvl n = some d

section
variable {w w' : World} {b : BucketId} {g : Layout} {r n p c : NodeId} {H d idx : Nat} {i : Inode}
  {x : Option NodeId}

lemma DirtyOK.of_eq (h : DirtyOK w b n) (hle : w.nextNode ≤ w'.nextNode)
    (he : w'.nodes n = w.nodes n) : DirtyOK w' b n :=
  ⟨h.alloc.trans_le hle, by rw [he]; exact h.owned, by rw [he]; exact h.unspilled⟩

/-- Replacing the child at an index is replacing it wherever it stands. -/
lemma TreeOK.modify_eq_map (h : TreeOK w g r H) (hp : g.lvl p = some (d + 1))
    (hi : (w.inodes p)[idx]? = some i) (c' : NodeId) :
    ((w.inodes p).modify idx fun i => { i with child := some c' }) =
      (w.inodes p).map (Inode.redirect i.kid c') := by
  obtain ⟨hlt, hx⟩ := List.getElem?_eq_some_iff.1 hi
  have hb := h.branch p d hp
  have e : w.inodes p = (w.inodes p).take idx ++ i :: (w.inodes p).drop (idx + 1) := by
    rw [← hx, List.getElem_cons_drop, List.take_append_drop]
  have hne : ∀ j ∈ (w.inodes p).take idx ++ (w.inodes p).drop (idx + 1), j.child ≠ some i.kid := by
    intro j hj hc
    refine h.kid_ne hp e j hj ?_
    simp [Inode.kid, hc]
  have hi' : Inode.redirect i.kid c' i = { i with child := some c' } := by
    rw [Inode.redirect, hb.child i (List.mem_of_getElem? hi)]
    simp [subst]
  conv_rhs => rw [e]
  rw [List.map_append, List.map_cons, map_redirect fun j hj => hne j (List.mem_append_left _ hj),
    map_redirect fun j hj => hne j (List.mem_append_right _ hj), hi',
    List.modify_eq_take_cons_drop hlt, hx]

/-- The nodes other than its parent do not point to a node. -/
lemma TreeOK.child_ne (h : TreeOK w g r H) {m : NodeId} {k : Nat} (hm : g.lvl m = some k)
    (hc : g.par c ≠ m) : ∀ j ∈ w.inodes m, j.child ≠ some c := by
  intro j hj e
  cases k with
  | zero =>
    rw [((h.leaf m hm).entry j hj).child] at e
    cases e
  | succ k =>
    have hb := h.branch m k hm
    rw [hb.child j hj] at e
    cases e
    exact hc (hb.par j hj)

namespace HandleBut

/-- A branch of the handle is not flagged. -/
lemma unflagged (h : HandleBut w b g r H x) (hp : p ∈ (w.buckets b).dirty)
    (hpl : g.lvl p = some (d + 1)) (hx : x ≠ some p) : (w.nodes p).unbalanced = false := by
  by_contra hc
  have := h.flagged p hp hx (by simpa using hc)
  rw [h.tree.isLeaf_false hpl] at this
  cases this

/-- The copy of a clean child takes its place. -/
lemma moved (h : HandleBut w b g r H x) (hp : p ∈ (w.buckets b).dirty)
    (hpl : g.lvl p = some (d + 1)) (hi : (w.inodes p)[idx]? = some i)
    (hc : Copied w b p i.kid idx w') : Moved w g i.kid w.nextNode w' := by
  have hmem := List.mem_of_getElem? hi
  have hb := h.tree.branch p d hpl
  have hnew : g.lvl w.nextNode = none := by
    rcases e : g.lvl w.nextNode with _ | k
    · rfl
    · exact absurd (h.tree.alloc _ k e) (lt_irrefl _)
  have hnode : ∀ m k, g.lvl m = some k → m ≠ i.kid → subst i.kid w.nextNode m = m ∧
      w'.nodes m = w.nodes m :=
    fun m k hm hne => ⟨if_neg hne, hc.other m (h.tree.alloc m k hm)⟩
  have hcopy : subst i.kid w.nextNode i.kid = w.nextNode := if_pos rfl
  refine ⟨?_, ?_, hnew, fun m k hm => ?_, fun m k hm j hj => ?_, fun m k hm => ?_⟩
  · rw [hc.nextNode]
    exact Nat.le_succ _
  · rw [hc.nextNode]
    exact Nat.lt_succ_self _
  · by_cases e : m = i.kid
    · rw [e, hcopy, hc.copy]
    · rw [(hnode m k hm e).1, (hnode m k hm e).2]
  · have hjl := h.tree.kid hm hj
    by_cases e : j.kid = i.kid
    · rw [e, hcopy, hc.copy]
    · rw [(hnode _ k hjl e).1, (hnode _ k hjl e).2]
  · have hpar : g.par i.kid = p := hb.par i hmem
    by_cases e : m = i.kid
    · have hne : g.par i.kid ≠ m := by
        intro e'
        rw [← hpar, e', e, hb.lvl i hmem] at hpl
        simp at hpl
      rw [map_redirect (h.tree.child_ne hm hne), e, hcopy, hc.inodes_copy]
    · rw [(hnode m k hm e).1]
      by_cases ep : m = p
      · rw [ep, hc.inodes_parent, h.tree.modify_eq_map hpl hi]
      · rw [map_redirect (h.tree.child_ne hm (by rw [hpar]; exact Ne.symm ep))]
        exact hc.view m (h.tree.alloc m k hm) ep (h.sep p hp _ hpl m k hm ep)

/-- The handle after a clean child was replaced by its copy. -/
lemma copied (h : HandleBut w b g r H x) (hx : ∀ m, x = some m → m ∈ (w.buckets b).dirty)
    (hp : p ∈ (w.buckets b).dirty) (hpl : g.lvl p = some (d + 1))
    (hi : (w.inodes p)[idx]? = some i) (hclean : i.kid ∉ (w.buckets b).dirty)
    (hc : Copied w b p i.kid idx w') : HandleBut w' b (g.move i.kid w.nextNode) r H x := by
  have hr := h.moved hp hpl hi hc
  have hroot : subst i.kid w.nextNode r = r :=
    if_neg fun (e : r = i.kid) => hclean (e ▸ h.root_dirty)
  have hcopy : subst i.kid w.nextNode i.kid = w.nextNode := if_pos rfl
  have hkid := h.tree.kid hpl (List.mem_of_getElem? hi)
  have hpar := (h.tree.branch p d hpl).par i (List.mem_of_getElem? hi)
  have hmem : ∀ {m}, m ∈ (w'.buckets b).dirty ↔ m = w.nextNode ∨ m ∈ (w.buckets b).dirty := by
    intro m
    rw [hc.bucket]
    exact Finset.mem_insert
  have hnode : ∀ m ∈ (w.buckets b).dirty, w'.nodes m = w.nodes m :=
    fun m hm => hc.other m (h.dirty m hm).alloc
  -- a node of the new tree is the copy, or a node of the old tree with its old fields
  have hold : ∀ n k, g.lvl n = some k → n ≠ i.kid → subst i.kid w.nextNode n = n ∧
      w'.nodes n = w.nodes n ∧ n ≠ w.nextNode :=
    fun n k hn hne => ⟨if_neg hne, hc.other n (h.tree.alloc n k hn), hr.ne_copy hn⟩
  have harr : ∀ n k, g.lvl n = some k → n ≠ i.kid → w'.arr n = w.arr n := fun n k hn hne => by
    unfold World.arr
    rw [(hold n k hn hne).2.1]
  have hfresh : ∀ n k, g.lvl n = some k → n ≠ i.kid → w'.arr n ≠ w'.arr w.nextNode := by
    intro n k hn hne
    rw [harr n k hn hne]
    exact ((h.sound.arr_lt n (h.tree.alloc n k hn)).trans_le hc.arr_copy).ne
  refine ⟨hc.sound, hroot ▸ hr.treeOK h.tree, by rw [hc.bucket]; exact h.rootNode,
    hmem.2 (.inr h.root_dirty), ?_, fun n hn => ?_, fun n hn k hk hne => ?_,
    fun n hn k hk m e hm hne => ?_, fun n k hk hn => ?_, fun n k hk hn => ?_,
    fun n hk hne hn hemp => ?_, fun n hn hxn hf => ?_, fun n hn q hq => ?_⟩
  · rw [hc.other r (h.tree.alloc r H h.tree.lvl_root)]
    exact h.root_parent
  · rcases hmem.1 hn with rfl | hn
    · refine ⟨hr.alloc, ?_, ?_⟩ <;> rw [hc.copy]
    · exact (h.dirty n hn).of_eq hr.nextNode (hnode n hn)
  · obtain ⟨m, hm, rfl⟩ := Moved.exists_subst hk
    rw [hr.par_subst hm]
    by_cases e : m = i.kid
    · subst e
      have hpp : subst i.kid w.nextNode p = p := if_neg fun (e : p = i.kid) => hclean (e ▸ hp)
      rw [hcopy, hpar, hpp, hc.copy]
      exact ⟨rfl, hmem.2 (.inr hp)⟩
    · obtain ⟨h1, h2, h3⟩ := hold m k hm e
      rw [h1] at hn hne ⊢
      obtain ⟨h4, h5⟩ := h.parent m ((hmem.1 hn).resolve_left h3) k hm hne
      have hpp : subst i.kid w.nextNode (g.par m) = g.par m :=
        if_neg fun (e : g.par m = i.kid) => hclean (e ▸ h5)
      rw [hpp, h2]
      exact ⟨h4, hmem.2 (.inr h5)⟩
  · obtain ⟨n, hn', rfl⟩ := Moved.exists_subst hk
    obtain ⟨m, hm', rfl⟩ := Moved.exists_subst hm
    by_cases en : n = i.kid <;> by_cases em : m = i.kid
    · exact absurd (by rw [en, em]) hne
    · rw [en, hcopy, (hold m e hm' em).1]
      exact hfresh m e hm' em
    · rw [em, hcopy, (hold n k hn' en).1]
      exact (hfresh n k hn' en).symm
    · rw [(hold m e hm' em).1, (hold n k hn' en).1] at *
      rw [harr m e hm' em, harr n k hn' en]
      exact h.sep n ((hmem.1 hn).resolve_left (hold n k hn' en).2.2) k hn' m e hm' hne
  · -- a clean node of the new tree was clean before, and its children are clean too
    obtain ⟨m, hm, rfl⟩ := Moved.exists_subst hk
    by_cases e : m = i.kid
    · rw [e, hcopy] at hn
      exact absurd (hmem.2 (.inl rfl)) hn
    · obtain ⟨h1, h2, -⟩ := hold m k hm e
      rw [h1] at hn
      obtain ⟨j, l, hj, hkey⟩ := h.first m k hm fun hd => hn (hmem.2 (.inr hd))
      refine ⟨Inode.redirect i.kid w.nextNode j, l.map (Inode.redirect i.kid w.nextNode), ?_, ?_⟩
      · rw [hr.inodes m k hm, hj]
        rfl
      · rw [h1, h2, hkey]
        rfl
  · obtain ⟨m, hm, rfl⟩ := Moved.exists_subst hk
    rw [hr.inodes m _ hm, List.length_map]
    by_cases e : m = i.kid
    · exact h.two m k hm fun hxm => hclean (e ▸ hx m hxm)
    · rw [(hold m _ hm e).1] at hn
      exact h.two m k hm hn
  · obtain ⟨m, hm, rfl⟩ := Moved.exists_subst hk
    rw [hr.inodes m _ hm, List.map_eq_nil_iff] at hemp
    by_cases e : m = i.kid
    · subst e
      obtain ⟨j, l, hj, -⟩ := h.first _ 0 hm hclean
      rw [hemp] at hj
      cases hj
    · obtain ⟨h1, h2, -⟩ := hold m 0 hm e
      rw [h1] at hne hn ⊢
      rw [h2]
      exact h.empty m hm hne hn hemp
  · rcases hmem.1 hn with rfl | hn
    · rw [hc.copy] at hf
      cases hf
    · rw [hnode n hn] at hf ⊢
      exact h.flagged n hn hxn hf
  · rcases hmem.1 hn with rfl | hn
    · rw [hc.copy] at hq
      cases hq
      refine ⟨hmem.2 (.inr hp), fun hxp => ?_⟩
      rw [hnode p hp]
      exact h.unflagged hp hpl hxp
    · rw [hnode n hn] at hq
      obtain ⟨h1, h2⟩ := h.calm n hn q hq
      rw [hnode q h1]
      exact ⟨hmem.2 (.inr h1), h2⟩

end HandleBut

/-- The handle of a transaction that writes, after a clean child was replaced by its copy. -/
lemma Handle.copied (h : Handle w b g r H) (hp : p ∈ (w.buckets b).dirty)
    (hpl : g.lvl p = some (d + 1)) (hi : (w.inodes p)[idx]? = some i)
    (hclean : i.kid ∉ (w.buckets b).dirty) (hc : Copied w b p i.kid idx w') :
    Handle w' b (g.move i.kid w.nextNode) r H := by
  have hr := h.moved hp hpl hi hc
  refine ⟨h.toHandleBut.copied nofun hp hpl hi hclean hc, fun n hn => ?_⟩
  rw [hc.bucket] at hn
  rcases Finset.mem_insert.1 hn with rfl | hn
  · have := hr.lvl_subst (h.tree.kid hpl (List.mem_of_getElem? hi))
    rw [show subst i.kid w.nextNode i.kid = w.nextNode from if_pos rfl] at this
    exact ⟨d, this⟩
  · obtain ⟨k, hk⟩ := h.inTree n hn
    have := hr.lvl_subst hk
    rw [show subst i.kid w.nextNode n = n from if_neg fun (e : n = i.kid) =>
      hclean (e ▸ hn)] at this
    exact ⟨k, this⟩

end

end Vmbolt
