import Vmbolt.Tree.Path
import Vmbolt.Tree.Splice

/-!
# A tree while it is spilled

`node.finalize` cuts the dirty nodes of a tree into pieces of the right size, from the leaves up,
and enters the pieces into their parents. `Spilling` is the state between two such steps: the nodes
that are still to be spilled are closed under parents, and a node that has been spilled stands in
its parent under its first key.

While the children of a branch are being spilled, `node.finalize` is active on the branch, and it
goes on with the branch when everything has been spilled; `K` is the set of these branches. What a
branch is going to hold when its children have been replaced by their pieces is known beforehand
(`expand`), and so is the piece of it that it is going to keep (`firstPiece`). `Spilling` requires
of this piece what the calls need that go on later: the indices they have not visited are in it
(`loops`), it is not cut once more (`active_fits`), and the children on which a call goes on are in
it (`active_place`).
-/

namespace Vmbolt
open Filter Prog

/-- The node is dirty and still to be spilled. -/
def Unspilled (w : World) (b : BucketId) (n : NodeId) : Prop :=
  n ∈ (w.buckets b).dirty ∧ (w.nodes n).spilled = false

instance (w : World) (b : BucketId) (n : NodeId) : Decidable (Unspilled w b n) :=
  inferInstanceAs (Decidable (_ ∧ _))

/-- The nodes that are still to be spilled. -/
def toSpill (w : World) (b : BucketId) : Finset NodeId :=
  (w.buckets b).dirty.filter fun n => (w.nodes n).spilled = false

/-- The size at which `node.splitTwo` cuts the nodes of the handle. -/
def World.threshold (w : World) (b : BucketId) : Int :=
  splitThreshold w.rt (w.buckets b).fillPercent

/-- What the size of an inode of a branch depends on. -/
def keyInode (k : Bytes) : Inode := ⟨k, none, none⟩

/-- The first keys of the pieces into which a node of level `d` is going to be cut. -/
def pieceKeys (w : World) (b : BucketId) : Nat → NodeId → List Bytes
  | 0, n => (Node.pieces true (w.threshold b) (w.inodes n)).map firstKey
  | d + 1, n => (Node.pieces false (w.threshold b) ((w.inodes n).flatMap fun i =>
      if Unspilled w b i.kid then (pieceKeys w b d i.kid).map keyInode else [keyInode i.key])).map
        firstKey

/-- The inodes a branch with children of level `d` is going to have when its children have been
spilled. -/
def expand (w : World) (b : BucketId) (d : Nat) (n : NodeId) : List Inode :=
  (w.inodes n).flatMap fun i =>
    if Unspilled w b i.kid then (pieceKeys w b d i.kid).map keyInode else [keyInode i.key]

/-- What becomes of the inodes `l` of such a branch. -/
def spread (w : World) (b : BucketId) (d : Nat) (l : List Inode) : List Inode :=
  l.flatMap fun i =>
    if Unspilled w b i.kid then (pieceKeys w b d i.kid).map keyInode else [keyInode i.key]

/-- The piece that stays in the branch when it is cut after that. -/
def firstPiece (w : World) (b : BucketId) (d : Nat) (n : NodeId) : List Inode :=
  (Node.pieces false (w.threshold b) (expand w b d n)).headD []

/-- The tree under `r` is being spilled; `node.finalize` may be active on the nodes of `K`. -/
structure Spilling (w : World) (b : BucketId) (g : Layout) (r : NodeId) (H : Nat) (K : Set NodeId) :
    Prop where
  sound : w.Sound
  tree : TreeOK w g r H
  alloc : ∀ n ∈ (w.buckets b).dirty, n < w.nextNode
  owned : ∀ n d, g.lvl n = some d → n ∈ (w.buckets b).dirty → (w.nodes n).bucket = some b
  root_dirty : r ∈ (w.buckets b).dirty
  root_parent : (w.nodes r).parent = none
  parent : ∀ n d, g.lvl n = some d → Unspilled w b n → n ≠ r →
    (w.nodes n).parent = some (g.par n) ∧ Unspilled w b (g.par n)
  sep : ∀ n d, g.lvl n = some d → Unspilled w b n → ∀ m e, g.lvl m = some e → m ≠ n →
    w.arr m ≠ w.arr n
  first : ∀ n d, g.lvl n = some d → ¬ Unspilled w b n → n ≠ r → FirstKey w n
  two : ∀ n d, g.lvl n = some (d + 1) → 2 ≤ (w.inodes n).length
  leaf_ne : ∀ n, g.lvl n = some 0 → n ≠ r → w.inodes n ≠ []
  active : ∀ n d, g.lvl n = some (d + 1) → Unspilled w b n →
    (∃ i ∈ w.inodes n, Unspilled w b i.kid) → n ∈ K
  active_dirty : ∀ n ∈ K, n ∈ (w.buckets b).dirty ∧ ∃ d, g.lvl n = some (d + 1)
  active_parent : ∀ n ∈ K, n ≠ r →
    (w.nodes n).parent = some (g.par n) ∧ g.par n ∈ (w.buckets b).dirty
  active_fits : ∀ n ∈ K, ∀ d, g.lvl n = some (d + 1) → Unspilled w b n →
    Node.fitsOneNode false (firstPiece w b d n) = true
  active_spilled : ∀ n ∈ K, ∀ d, g.lvl n = some (d + 1) → ¬ Unspilled w b n →
    Node.fitsOneNode false (w.inodes n) = true
  active_place : ∀ p d, g.lvl p = some (d + 1) → Unspilled w b p → ∀ l1 x l2,
    w.inodes p = l1 ++ x :: l2 → x.kid ∈ K →
      (spread w b d l1).length < (firstPiece w b d p).length
  loops : ∀ p d, g.lvl p = some (d + 1) → Unspilled w b p → ∀ l1 x l2,
    w.inodes p = l1 ++ x :: l2 → Unspilled w b x.kid →
      l2 = [] ∨ (spread w b d l1).length + 1 + l2.length ≤ (firstPiece w b d p).length

/-- The node is the first one to be spilled among the children of its parent, and so are its
ancestors. -/
inductive OnPath (w : World) (b : BucketId) (g : Layout) (r : NodeId) : NodeId → Prop
  | root : OnPath w b g r r
  | kid {p d l1 x l2} : OnPath w b g r p → g.lvl p = some (d + 1) → w.inodes p = l1 ++ x :: l2 →
      (∀ j ∈ l1, ¬ Unspilled w b j.kid) → OnPath w b g r x.kid

/-- The node `n` of level `d`, whose children had been spilled, was spilled: from `w` to `w'` it was
cut into the pieces `x` and `qs`, which stand in its parent in place of the inode `i`. -/
structure NodeSpilt (w : World) (b : BucketId) (g : Layout) (r : NodeId) (H : Nat) (K : Set NodeId)
    (n : NodeId) (d : Nat) (x : List Inode) (qs : List (NodeId × List Inode)) (l1 : List Inode)
    (i : Inode) (l2 : List Inode) (w' : World) (g' : Layout) : Prop where
  before : Spilling w b g r H K
  lvl : g.lvl n = some d
  unspilled : Unspilled w b n
  ne_root : n ≠ r
  kids : ∀ e, d = e + 1 → ∀ i ∈ w.inodes n, ¬ Unspilled w b i.kid
  spilt : Spilt w b n (g.par n) ((n, x) :: qs) w'
  pieces : x :: qs.map Prod.snd =
    Node.pieces (w.nodes n).isLeaf (w.threshold b) (w.inodes n)
  old_parent : w.inodes (g.par n) = l1 ++ i :: l2
  kid : i.kid = n
  left : ∀ j ∈ l1, ¬ Unspilled w b j.kid
  new_parent : w'.inodes (g.par n) = l1 ++ ((n, x) :: qs).map stub ++ l2
  tree : TreeOK w' g' r H
  recut : Recut g g' r (g.par n) n d (qs.map Prod.fst)

section
variable {w w' : World} {b : BucketId} {g g' : Layout} {r n p : NodeId} {H d : Nat} {K : Set NodeId}

lemma mem_toSpill : n ∈ toSpill w b ↔ Unspilled w b n := Finset.mem_filter

/-- The size of an inode of a branch depends on its key only. -/
lemma size_keyInode {i : Inode} (h : i.value = none) : (keyInode i.key).size = i.size := by
  simp [Inode.size, keyInode, h]

lemma firstKey_map_keyInode (x : List Inode) :
    firstKey (x.map fun i => keyInode i.key) = firstKey x := by
  cases x <;> rfl

/-- A branch none of whose children is to be spilled. -/
lemma expand_eq (h : ∀ i ∈ w.inodes n, ¬ Unspilled w b i.kid) :
    expand w b d n = (w.inodes n).map fun i => keyInode i.key := by
  unfold expand
  rw [List.map_eq_flatMap]
  exact List.flatMap_congr fun i hi => if_neg (h i hi)

lemma spread_eq {l : List Inode} (h : ∀ i ∈ l, ¬ Unspilled w b i.kid) :
    spread w b d l = l.map fun i => keyInode i.key := by
  unfold spread
  rw [List.map_eq_flatMap]
  exact List.flatMap_congr fun i hi => if_neg (h i hi)

lemma spread_append (l1 l2 : List Inode) :
    spread w b d (l1 ++ l2) = spread w b d l1 ++ spread w b d l2 := List.flatMap_append

lemma spread_cons (i : Inode) (l : List Inode) : spread w b d (i :: l) =
    (if Unspilled w b i.kid then (pieceKeys w b d i.kid).map keyInode else [keyInode i.key]) ++
      spread w b d l := List.flatMap_cons

/-- An element that stands in front of the place of a cut. -/
lemma mem_of_append_eq {α : Type} {x l a c : List α} {j : α} (h : x ++ l = a ++ j :: c)
    (hlt : a.length < x.length) : j ∈ x := by
  have hget : (x ++ l)[a.length]? = some j := by simp [h]
  rw [List.getElem?_append_left hlt] at hget
  exact List.mem_of_getElem? hget

/-- Where a member of a list with three parts is. -/
lemma append_append_cons_cases {α : Type} {l1 m l2 a c : List α} {y : α}
    (h : l1 ++ m ++ l2 = a ++ y :: c) :
    (∃ t, l1 = a ++ y :: t) ∨ (∃ s t, m = s ++ y :: t ∧ a = l1 ++ s) ∨
      ∃ s, l2 = s ++ y :: c ∧ a = l1 ++ m ++ s := by
  rcases List.append_eq_append_iff.1 h with ⟨s, ha, hl2⟩ | ⟨s, h1, hs⟩
  · exact .inr (.inr ⟨s, hl2, ha⟩)
  · rcases List.append_eq_append_iff.1 h1 with ⟨t, ha, hm⟩ | ⟨t, hl1, ht⟩
    · cases s with
      | nil =>
        rw [List.append_nil] at hm
        exact .inr (.inr ⟨[], by simpa using hs.symm, by rw [ha, hm, List.append_nil]⟩)
      | cons z s =>
        cases hs
        exact .inr (.inl ⟨t, s, hm, ha⟩)
    · cases t with
      | nil =>
        rw [List.append_nil] at hl1
        cases m with
        | nil =>
          rw [List.nil_append] at ht
          rw [ht] at hs
          exact .inr (.inr ⟨[], by simpa using hs.symm, by simp [hl1]⟩)
        | cons z m =>
          rw [List.nil_append] at ht
          rw [ht] at hs
          cases hs
          exact .inr (.inl ⟨[], m, rfl, by simp [hl1]⟩)
      | cons z t =>
        rw [ht] at hs
        cases hs
        exact .inl ⟨t, hl1⟩

lemma pieceKeys_succ : pieceKeys w b (d + 1) n =
    (Node.pieces false (w.threshold b) (expand w b d n)).map firstKey := rfl

namespace Spilling

/-- The inodes of a node that is not the root. -/
lemma inodes_ne (h : Spilling w b g r H K) (hn : g.lvl n = some d) (hr : n ≠ r) :
    w.inodes n ≠ [] := by
  cases d with
  | zero => exact h.leaf_ne n hn hr
  | succ d => exact (h.tree.branch n d hn).ne

/-- The piece that stays in a branch whose children have been spilled. -/
lemma firstPiece_eq (h : Spilling w b g r H K) (hn : g.lvl n = some (d + 1))
    (hkids : ∀ i ∈ w.inodes n, ¬ Unspilled w b i.kid) {x : List Inode} {xs : List (List Inode)}
    (hx : x :: xs = Node.pieces (w.nodes n).isLeaf (w.threshold b) (w.inodes n)) :
    firstPiece w b d n = x.map fun i => keyInode i.key := by
  have hsize : ∀ i ∈ w.inodes n, (keyInode i.key).size = i.size := fun i hi =>
    size_keyInode ((h.tree.branch n d hn).value i hi)
  unfold firstPiece
  rw [expand_eq hkids, Node.pieces_map hsize, ← h.tree.isLeaf_false hn, ← hx]
  rfl

/-- A piece of a branch fits if and only if it fits by its keys. -/
lemma fits_keys (h : Spilling w b g r H K) (hn : g.lvl n = some (d + 1)) {x : List Inode}
    (hx : ∀ i ∈ x, i ∈ w.inodes n) :
    Node.fitsOneNode false (x.map fun i => keyInode i.key) = Node.fitsOneNode false x :=
  Node.fitsOneNode_map fun i hi => size_keyInode ((h.tree.branch n d hn).value i (hx i hi))

/-- The keys of the pieces of a node whose children have been spilled. -/
lemma pieceKeys_eq (h : Spilling w b g r H K) (hn : g.lvl n = some d)
    (hkids : ∀ e, d = e + 1 → ∀ i ∈ w.inodes n, ¬ Unspilled w b i.kid) :
    pieceKeys w b d n =
      (Node.pieces (w.nodes n).isLeaf (w.threshold b) (w.inodes n)).map firstKey := by
  cases d with
  | zero =>
    rw [h.tree.isLeaf_true hn]
    rfl
  | succ e =>
    rw [pieceKeys_succ, expand_eq (hkids e rfl), h.tree.isLeaf_false hn,
      Node.pieces_map fun i hi => size_keyInode ((h.tree.branch n e hn).value i hi), List.map_map]
    exact List.map_congr_left fun x _ => firstKey_map_keyInode x

/-- If no child of the root is to be spilled, then no node under it is. -/
lemma only_root (h : Spilling w b g r H K)
    (hr : ∀ e, H = e + 1 → ∀ i ∈ w.inodes r, ¬ Unspilled w b i.kid) (hn : g.lvl n = some d)
    (hne : n ≠ r) : ¬ Unspilled w b n := by
  intro hu
  obtain ⟨hd, hpl, i, hi, hik⟩ := h.tree.up n d hn hne
  -- climb to the child of the root above `n`
  induction k : H - d generalizing n d i with
  | zero => omega
  | succ k ih =>
    obtain ⟨-, hpu⟩ := h.parent n d hn hu hne
    by_cases e : g.par n = r
    · rw [e, h.tree.lvl_root] at hpl
      rw [e] at hi
      exact hr d (Option.some.inj hpl) i hi (hik ▸ hu)
    · obtain ⟨hd', hpl', i', hi', hik'⟩ := h.tree.up _ _ hpl e
      exact ih hpl e hpu hd' hpl' i' hi' hik' (by omega)

end Spilling

namespace NodeSpilt
variable {x : List Inode} {qs : List (NodeId × List Inode)} {l1 l2 : List Inode} {i : Inode}
variable (h : NodeSpilt w b g r H K n d x qs l1 i l2 w' g')
include h

/-- The parent of the node. -/
lemma par : g.lvl (g.par n) = some (d + 1) ∧ Unspilled w b (g.par n) ∧ g.par n ≠ n :=
  ⟨(h.before.tree.place h.lvl h.ne_root).1, (h.before.parent n d h.lvl h.unspilled h.ne_root).2,
    h.before.tree.par_ne h.lvl h.ne_root⟩

/-- The pieces other than the first one are new. -/
lemma new_ge {m : NodeId} (hm : m ∈ qs.map Prod.fst) : w.nextNode ≤ m := by
  obtain ⟨y, hy, rfl⟩ := List.mem_map.1 hm
  exact (h.spilt.new y hy).1

/-- A node that was allocated before is not a new one. -/
lemma not_new {m : NodeId} (hm : m < w.nextNode) : m ∉ qs.map Prod.fst :=
  fun hc => absurd hm (not_lt.2 (h.new_ge hc))

/-- A node of the new tree is one of the old tree or a new piece. -/
lemma lvl_cases {m : NodeId} {e : Nat} (hm : g'.lvl m = some e) :
    (∃ y ∈ (n, x) :: qs, m = y.1 ∧ e = d) ∨ (g.lvl m = some e ∧ m ≠ n) := by
  rw [h.recut.lvl] at hm
  split at hm
  next hc =>
    cases hm
    obtain ⟨y, hy, rfl⟩ := List.mem_map.1 hc
    exact .inl ⟨y, .tail _ hy, rfl, rfl⟩
  next =>
    by_cases e : m = n
    · subst e
      rw [h.lvl] at hm
      cases hm
      exact .inl ⟨(m, x), by simp, rfl, rfl⟩
    · exact .inr ⟨hm, e⟩

lemma lvl_old {m : NodeId} {e : Nat} (hm : g.lvl m = some e) : g'.lvl m = some e := by
  rw [h.recut.lvl, if_neg (h.not_new (h.before.tree.alloc m e hm)), hm]

/-- The fields of the other nodes. -/
lemma node_old {m : NodeId} (hm : m < w.nextNode) (hmn : m ≠ n) :
    w'.nodes m = { w.nodes m with inodes := (w'.nodes m).inodes } := by
  by_cases e : m = g.par n
  · rw [e]
    exact h.spilt.parent
  · rw [h.spilt.other m hm hmn e]

lemma inodes_old {m : NodeId} {e : Nat} (hm : g.lvl m = some e) (hmn : m ≠ n) (hmp : m ≠ g.par n) :
    w'.inodes m = w.inodes m := by
  obtain ⟨hpl, hpu, -⟩ := h.par
  exact h.spilt.view m (h.before.tree.alloc m e hm) hmn hmp
    (h.before.sep n d h.lvl h.unspilled m e hm hmn) (h.before.sep _ _ hpl hpu m e hm hmp)

lemma dirty_old {m : NodeId} (hm : m < w.nextNode) :
    m ∈ (w'.buckets b).dirty ↔ m ∈ (w.buckets b).dirty := by
  rw [h.spilt.dirty]
  exact ⟨fun hc => hc.resolve_right (h.not_new hm), .inl⟩

lemma unspilled_old {m : NodeId} (hm : m < w.nextNode) (hmn : m ≠ n) :
    Unspilled w' b m ↔ Unspilled w b m := by
  unfold Unspilled
  rw [h.dirty_old hm, h.node_old hm hmn]

/-- The pieces are spilled. -/
lemma not_unspilled {y : NodeId × List Inode} (hy : y ∈ (n, x) :: qs) : ¬ Unspilled w' b y.1 := by
  intro hu
  rw [Unspilled, (h.spilt.piece y hy).2.2.1] at hu
  exact absurd hu.2 (by simp)

/-- A node that is still to be spilled was so before. -/
lemma unspilled_cases {m : NodeId} {e : Nat} (hm : g'.lvl m = some e) (hu : Unspilled w' b m) :
    g.lvl m = some e ∧ m ≠ n ∧ Unspilled w b m := by
  rcases h.lvl_cases hm with ⟨y, hy, rfl, -⟩ | ⟨hm, hmn⟩
  · exact absurd hu (h.not_unspilled hy)
  · exact ⟨hm, hmn, (h.unspilled_old (h.before.tree.alloc m e hm) hmn).1 hu⟩

/-- A node that was to be spilled does not hang under the spilt node. -/
lemma par_ne_of_unspilled {m : NodeId} {e : Nat} (hm : g.lvl m = some e) (hu : Unspilled w b m)
    (hmr : m ≠ r) : g.par m ≠ n := by
  intro ep
  obtain ⟨-, hpl, j, hj, rfl⟩ := h.before.tree.up m e hm hmr
  rw [ep, h.lvl] at hpl
  rw [ep] at hj
  exact h.kids e (Option.some.inj hpl) j hj hu

lemma mem_pieces {y : NodeId × List Inode} (hy : y ∈ (n, x) :: qs) :
    y.2 ∈ Node.pieces (w.nodes n).isLeaf (w.threshold b) (w.inodes n) := by
  rw [← h.pieces, ← List.map_cons (f := Prod.snd) (a := (n, x))]
  exact List.mem_map_of_mem hy

/-- The pieces are not empty. -/
lemma piece_ne {y : NodeId × List Inode} (hy : y ∈ (n, x) :: qs) : y.2 ≠ [] :=
  Node.ne_nil_of_mem_pieces (h.before.inodes_ne h.lvl h.ne_root) y.2 (h.mem_pieces hy)

lemma arr_old {m : NodeId} (hm : m < w.nextNode) (hmn : m ≠ n) (hmp : m ≠ g.par n) :
    w'.arr m = w.arr m := by
  unfold World.arr
  rw [h.spilt.other m hm hmn hmp]

lemma first_piece {y : NodeId × List Inode} (hy : y ∈ (n, x) :: qs) : FirstKey w' y.1 := by
  obtain ⟨-, -, -, hkey, -, hins⟩ := h.spilt.piece y hy
  obtain ⟨j, l, e⟩ := List.exists_cons_of_ne_nil (h.piece_ne hy)
  refine ⟨j, l, hins.trans e, ?_⟩
  rw [hkey, e]
  rfl

/-- The nodes that are still to be spilled have backing arrays of their own. -/
lemma sep {m m' : NodeId} {e e' : Nat} (hm : g'.lvl m = some e) (hu : Unspilled w' b m)
    (hm' : g'.lvl m' = some e') (hne : m' ≠ m) : w'.arr m' ≠ w'.arr m := by
  obtain ⟨hpl, hpu, hpn⟩ := h.par
  obtain ⟨hm, hmn, hu⟩ := h.unspilled_cases hm hu
  have hlt := h.before.tree.alloc m e hm
  have harrp : ∀ k, k < w.nextNode → w.arr k ≠ w.arr (g.par n) → w.arr k ≠ w'.arr (g.par n) := by
    intro k hk hne
    rcases h.spilt.arr with ea | ea
    · rwa [ea]
    · exact ((h.before.sound.arr_lt k hk).trans_le ea).ne
  rcases h.lvl_cases hm' with ⟨y, hy, rfl, -⟩ | ⟨hm', hmn'⟩
  · by_cases emp : m = g.par n
    · rw [emp]
      exact h.spilt.arr_piece y hy
    · rw [h.arr_old hlt hmn emp]
      rcases h.spilt.arr_new y hy with ea | ea
      · rw [ea]
        exact h.before.sep m e hm hu n d h.lvl hmn.symm
      · exact ((h.before.sound.arr_lt m hlt).trans_le ea).ne'
  · have hlt' := h.before.tree.alloc m' e' hm'
    by_cases emp : m = g.par n
    · rw [emp] at hne ⊢
      rw [h.arr_old hlt' hmn' hne]
      exact harrp m' hlt' (h.before.sep _ _ hpl hpu m' e' hm' hne)
    · rw [h.arr_old hlt hmn emp]
      by_cases emp' : m' = g.par n
      · rw [emp']
        exact (harrp m hlt (h.before.sep _ _ hpl hpu m e hm emp)).symm
      · rw [h.arr_old hlt' hmn' emp']
        exact h.before.sep m e hm hu m' e' hm' hne

/-! ### The keys of the pieces -/

lemma threshold_eq : w'.threshold b = w.threshold b := by
  unfold World.threshold
  rw [h.spilt.quiet.rt, h.spilt.quiet.fillPercent]

/-- What the nodes are going to be cut into has not changed, and neither has what a branch is going
to hold. -/
lemma expand_eq (e : Nat) :
    (∀ m, g.lvl m = some e → m ≠ n → pieceKeys w' b e m = pieceKeys w b e m) ∧
      ∀ m, g.lvl m = some (e + 1) → m ≠ n → expand w' b e m = expand w b e m := by
  obtain ⟨hpl, hpu, hpn⟩ := h.par
  -- the inodes of a branch, given that its children are cut as before
  have hstep : ∀ e, (∀ m, g.lvl m = some e → m ≠ n → pieceKeys w' b e m = pieceKeys w b e m) →
      ∀ m, g.lvl m = some (e + 1) → m ≠ n → expand w' b e m = expand w b e m := by
    intro e ih m hm hmn
    have hb := h.before.tree.branch m e hm
    have hold : ∀ j ∈ w.inodes m, j.kid ≠ n →
        (if Unspilled w' b j.kid then (pieceKeys w' b e j.kid).map keyInode else [keyInode j.key]) =
          if Unspilled w b j.kid then (pieceKeys w b e j.kid).map keyInode
          else [keyInode j.key] := by
      intro j hj hjn
      rw [ih _ (hb.lvl j hj) hjn]
      exact if_congr (h.unspilled_old (h.before.tree.alloc _ e (hb.lvl j hj)) hjn) rfl rfl
    unfold expand
    by_cases emp : m = g.par n
    · obtain rfl : e = d := by
        rw [emp, hpl] at hm
        exact (Nat.succ.inj (Option.some.inj hm)).symm
      have hkid := h.before.tree.kid_ne hpl h.old_parent
      rw [h.kid] at hkid
      rw [emp] at hold ⊢
      rw [h.new_parent, h.old_parent]
      rw [h.old_parent] at hold
      have hnew : (((n, x) :: qs).map stub).flatMap (fun j =>
          if Unspilled w' b j.kid then (pieceKeys w' b e j.kid).map keyInode
            else [keyInode j.key]) =
          (pieceKeys w b e n).map keyInode := by
        rw [h.before.pieceKeys_eq h.lvl h.kids, ← h.pieces,
          ← List.map_cons (f := Prod.snd) (a := (n, x)),
          List.map_map, List.map_map, List.flatMap_map, List.map_eq_flatMap]
        exact List.flatMap_congr fun y hy => if_neg (h.not_unspilled hy)
      rw [List.flatMap_append, List.flatMap_append, hnew, List.flatMap_append,
        List.flatMap_cons, h.kid, if_pos h.unspilled,
        List.flatMap_congr fun j hj => hold j (by simp [hj]) (hkid j (by simp [hj])),
        List.flatMap_congr fun j (hj : j ∈ l2) => hold j (by simp [hj]) (hkid j (by simp [hj])),
        List.append_assoc]
    · rw [h.inodes_old hm hmn emp]
      exact List.flatMap_congr fun j hj => hold j hj (h.before.tree.kid_ne_of_par hm emp hj)
  have hkeys : ∀ e m, g.lvl m = some e → m ≠ n → pieceKeys w' b e m = pieceKeys w b e m := by
    intro e
    induction e with
    | zero =>
      intro m hm hmn
      have hmp : m ≠ g.par n := by
        rintro rfl
        rw [hpl] at hm
        cases hm
      simp only [pieceKeys, h.inodes_old hm hmn hmp, h.threshold_eq]
    | succ e ih =>
      intro m hm hmn
      rw [pieceKeys_succ, pieceKeys_succ, hstep e ih m hm hmn, h.threshold_eq]
  exact ⟨hkeys e, hstep e (hkeys e)⟩

/-- What becomes of other inodes has not changed. -/
lemma spread_old {e : Nat} {l : List Inode} (hl : ∀ j ∈ l, g.lvl j.kid = some e ∧ j.kid ≠ n) :
    spread w' b e l = spread w b e l := by
  unfold spread
  refine List.flatMap_congr fun j hj => ?_
  obtain ⟨hjl, hjn⟩ := hl j hj
  rw [(h.expand_eq e).1 _ hjl hjn]
  exact if_congr (h.unspilled_old (h.before.tree.alloc _ e hjl) hjn) rfl rfl

/-- The pieces of the node are what was to become of it. -/
lemma spread_stubs : spread w' b d (((n, x) :: qs).map stub) = spread w b d [i] := by
  have hi : spread w b d [i] = (pieceKeys w b d n).map keyInode := by
    rw [spread_cons, h.kid, if_pos h.unspilled]
    exact List.append_nil _
  have hnone : ∀ j ∈ ((n, x) :: qs).map stub, ¬ Unspilled w' b j.kid := by
    intro j hj
    obtain ⟨y, hy, rfl⟩ := List.mem_map.1 hj
    exact h.not_unspilled hy
  rw [hi, h.before.pieceKeys_eq h.lvl h.kids, ← h.pieces, spread_eq hnone,
    ← List.map_cons (f := Prod.snd) (a := (n, x)), List.map_map, List.map_map, List.map_map]
  rfl

lemma firstPiece_old {m : NodeId} {e : Nat} (hm : g.lvl m = some (e + 1)) (hmn : m ≠ n) :
    firstPiece w' b e m = firstPiece w b e m := by
  unfold firstPiece
  rw [(h.expand_eq e).2 m hm hmn, h.threshold_eq]

/-- The other children of the parent. -/
lemma siblings {j : Inode} (hj : j ∈ l1 ++ l2) : g.lvl j.kid = some d ∧ j.kid ≠ n := by
  have hkid := h.before.tree.kid_ne h.par.1 h.old_parent j hj
  rw [h.kid] at hkid
  refine ⟨h.before.tree.kid h.par.1 ?_, hkid⟩
  rw [h.old_parent]
  simp only [List.mem_append, List.mem_cons] at hj ⊢
  tauto

/-- A place in the new parent. The part before it is made of what was before the same place in the
old parent. -/
lemma place_cases {a c : List Inode} {y : Inode} (hy : w'.inodes (g.par n) = a ++ y :: c) :
    (∃ t, l1 = a ++ y :: t ∧ spread w' b d a = spread w b d a) ∨ (∃ q ∈ qs, y = stub q) ∨
      (y = stub (n, x) ∧ a = l1 ∧ spread w' b d a = spread w b d l1) ∨
      ∃ s, l2 = s ++ y :: c ∧ spread w' b d a = spread w b d (l1 ++ i :: s) := by
  have hl1 : ∀ l, l ⊆ l1 → spread w' b d l = spread w b d l := fun l hl =>
    h.spread_old fun j hj => h.siblings (List.mem_append_left _ (hl hj))
  rw [h.new_parent] at hy
  rcases append_append_cons_cases hy with ⟨t, ht⟩ | ⟨s, t, hst, ha⟩ | ⟨s, hs, ha⟩
  · exact .inl ⟨t, ht, hl1 a (by rw [ht]; exact List.subset_append_left _ _)⟩
  · cases s with
    | nil =>
      rw [List.map_cons, List.nil_append, List.cons.injEq] at hst
      rw [List.append_nil] at ha
      exact .inr (.inr (.inl ⟨hst.1.symm, ha, by rw [ha]; exact hl1 l1 (List.Subset.refl _)⟩))
    | cons z s =>
      rw [List.map_cons, List.cons_append, List.cons.injEq] at hst
      have hmem : y ∈ qs.map stub := by
        rw [hst.2]
        simp
      obtain ⟨q, hq, e⟩ := List.mem_map.1 hmem
      exact .inr (.inl ⟨q, hq, e.symm⟩)
  · have hs2 : spread w' b d s = spread w b d s := h.spread_old fun j hj =>
      h.siblings (List.mem_append_right _ (by rw [hs]; exact List.mem_append_left _ hj))
    have hi : l1 ++ i :: s = l1 ++ [i] ++ s := by simp
    refine .inr (.inr (.inr ⟨s, hs, ?_⟩))
    rw [ha, hi, spread_append, spread_append, h.spread_stubs, hl1 l1 (List.Subset.refl _), hs2,
      spread_append, spread_append]

/-- Other branches have kept their inodes, and what becomes of them. -/
lemma spread_other {p : NodeId} {e : Nat} (hp : g.lvl p = some (e + 1)) (hpn : p ≠ n)
    (hpp : p ≠ g.par n) {a c : List Inode} {y : Inode} (hy : w'.inodes p = a ++ y :: c) :
    w.inodes p = a ++ y :: c ∧ y.kid ≠ n ∧ g.lvl y.kid = some e ∧
      spread w' b e a = spread w b e a := by
  rw [h.inodes_old hp hpn hpp] at hy
  have hkid : ∀ j ∈ w.inodes p, g.lvl j.kid = some e ∧ j.kid ≠ n := fun j hj =>
    ⟨h.before.tree.kid hp hj, h.before.tree.kid_ne_of_par hp hpp hj⟩
  have hy' := hkid y (by simp [hy])
  exact ⟨hy, hy'.2, hy'.1, h.spread_old fun j hj => hkid j (by simp [hy, hj])⟩

/-- A new node is not one on which `node.finalize` is active. -/
lemma not_active {q : NodeId × List Inode} (hq : q ∈ qs) : q.1 ∉ K := by
  intro hK
  exact absurd (h.before.alloc _ (h.before.active_dirty _ hK).1) (not_lt.2 (h.spilt.new q hq).1)

/-- The children on which `node.finalize` is active stay in the first pieces. -/
lemma active_place {p : NodeId} {e : Nat} (hp : g'.lvl p = some (e + 1)) (hu : Unspilled w' b p)
    {a c : List Inode} {y : Inode} (hy : w'.inodes p = a ++ y :: c) (hK : y.kid ∈ K) :
    (spread w' b e a).length < (firstPiece w' b e p).length := by
  obtain ⟨hp, hpn, hu⟩ := h.unspilled_cases hp hu
  rw [h.firstPiece_old hp hpn]
  by_cases hpp : p = g.par n
  · subst hpp
    obtain rfl : e = d := Nat.succ.inj (Option.some.inj (hp.symm.trans h.par.1))
    rcases h.place_cases hy with ⟨t, ht, hs⟩ | ⟨q, hq, rfl⟩ | ⟨rfl, ha, hs⟩ | ⟨s, hs2, hs⟩
    · rw [hs]
      exact h.before.active_place _ e hp hu a y (t ++ i :: l2) (by simp [h.old_parent, ht]) hK
    · exact absurd hK (h.not_active hq)
    · rw [hs]
      exact h.before.active_place _ e hp hu l1 i l2 h.old_parent (by rw [h.kid]; exact hK)
    · rw [hs]
      exact h.before.active_place _ e hp hu (l1 ++ i :: s) y c (by simp [h.old_parent, hs2]) hK
  · obtain ⟨hy, -, -, hs⟩ := h.spread_other hp hpn hpp hy
    rw [hs]
    exact h.before.active_place p e hp hu a y c hy hK

/-- The indices that are to be visited later stay in the first pieces. Nothing before the node is
still to be spilled, so only places behind it count. -/
lemma loops {p : NodeId} {e : Nat} (hp : g'.lvl p = some (e + 1)) (hu : Unspilled w' b p)
    {a c : List Inode} {y : Inode} (hy : w'.inodes p = a ++ y :: c) (hyu : Unspilled w' b y.kid) :
    c = [] ∨ (spread w' b e a).length + 1 + c.length ≤ (firstPiece w' b e p).length := by
  obtain ⟨hp, hpn, hu⟩ := h.unspilled_cases hp hu
  rw [h.firstPiece_old hp hpn]
  by_cases hpp : p = g.par n
  · subst hpp
    obtain rfl : e = d := Nat.succ.inj (Option.some.inj (hp.symm.trans h.par.1))
    rcases h.place_cases hy with ⟨t, ht, -⟩ | ⟨q, hq, rfl⟩ | ⟨rfl, -, -⟩ | ⟨s, hs2, hs⟩
    · have hmem : y ∈ l1 := by simp [ht]
      obtain ⟨hyl, hyn⟩ := h.siblings (List.mem_append_left l2 hmem)
      exact absurd ((h.unspilled_old (h.before.tree.alloc _ e hyl) hyn).1 hyu) (h.left y hmem)
    · exact absurd hyu (h.not_unspilled (.tail _ hq))
    · exact absurd hyu (h.not_unspilled (y := (n, x)) (by simp))
    · obtain ⟨hyl, hyn⟩ := h.siblings (j := y) (List.mem_append_right _ (by simp [hs2]))
      rw [hs]
      exact h.before.loops _ e hp hu (l1 ++ i :: s) y c (by simp [h.old_parent, hs2])
        ((h.unspilled_old (h.before.tree.alloc _ e hyl) hyn).1 hyu)
  · obtain ⟨hy, hyn, hyl, hs⟩ := h.spread_other hp hpn hpp hy
    rw [hs]
    exact h.before.loops p e hp hu a y c hy
      ((h.unspilled_old (h.before.tree.alloc _ e hyl) hyn).1 hyu)

/-- A child on which `node.finalize` is active stays with its parent. -/
lemma par_active {m : NodeId} (hK : m ∈ K) (hmr : m ≠ r) : g'.par m = g.par m := by
  obtain ⟨-, e, he⟩ := h.before.active_dirty m hK
  by_cases ec : g.par m = n
  · -- the node was cut, and its child is in the first piece
    obtain ⟨hpl, a, j, c, hins, hj⟩ := h.before.tree.place he hmr
    rw [ec] at hpl hins
    obtain rfl : d = e + 1 + 1 := Option.some.inj (h.lvl.symm.trans hpl)
    have hkids := h.kids (e + 1) rfl
    have hlt := h.before.active_place n _ hpl h.unspilled a j c hins (hj ▸ hK)
    rw [spread_eq fun i hi => hkids i (by simp [hins, hi]),
      h.before.firstPiece_eq hpl hkids h.pieces, List.length_map, List.length_map] at hlt
    have hflat : w.inodes n = x ++ (qs.map Prod.snd).flatten := by
      rw [← List.flatten_cons, h.pieces, Node.flatten_pieces]
    have hmem : j ∈ w'.inodes n := by
      rw [(h.spilt.piece (n, x) (by simp)).2.2.2.2.2]
      exact mem_of_append_eq (hflat.symm.trans hins) hlt
    rw [ec, ← hj]
    exact (h.tree.branch n _ (h.lvl_old hpl)).par j hmem
  · exact h.recut.par m _ he hmr ec

/-- The state after the step. -/
lemma spilling : Spilling w' b g' r H K := by
  obtain ⟨hpl, hpu, hpn⟩ := h.par
  have ht := h.before.tree
  have hold : ∀ m e, g.lvl m = some e → m < w.nextNode := fun m e hm => ht.alloc m e hm
  have hr := hold r H ht.lvl_root
  refine ⟨h.spilt.sound, h.tree, fun m hm => ?_, fun m e hm hd => ?_, ?_, ?_,
    fun m e hm hu hmr => ?_,
    fun m e hm hu m' e' hm' hne => h.sep hm hu hm' hne, fun m e hm hu hmr => ?_, fun m e hm => ?_,
    fun m hm hmr => ?_, fun m e hm hu hk => ?_, fun m hK => ?_, fun m hK hmr => ?_,
    fun m hK e hm hu => ?_, fun m hK e hm hu => ?_, fun p e hp hu a y c hy hK =>
      h.active_place hp hu hy hK,
    fun p e hp hu a y c hy hyu => h.loops hp hu hy hyu⟩
  · rcases (h.spilt.dirty m).1 hm with hm | hm
    · exact (h.before.alloc m hm).trans_le h.spilt.nextNode
    · obtain ⟨y, hy, rfl⟩ := List.mem_map.1 hm
      exact (h.spilt.new y hy).2
  · rcases h.lvl_cases hm with ⟨y, hy, rfl, -⟩ | ⟨hm, hmn⟩
    · exact (h.spilt.piece y hy).1
    · rw [h.node_old (hold m e hm) hmn]
      exact h.before.owned m e hm ((h.dirty_old (hold m e hm)).1 hd)
  · exact (h.dirty_old hr).2 h.before.root_dirty
  · rw [h.node_old hr h.ne_root.symm]
    exact h.before.root_parent
  · obtain ⟨hm, hmn, hu⟩ := h.unspilled_cases hm hu
    obtain ⟨hmp, hpu'⟩ := h.before.parent m e hm hu hmr
    have hne := h.par_ne_of_unspilled hm hu hmr
    have hpar := h.recut.par m e hm hmr hne
    rw [hpar, h.node_old (hold m e hm) hmn]
    refine ⟨hmp, ?_⟩
    exact (h.unspilled_old (hold _ _ (ht.up m e hm hmr).2.1) hne).2 hpu'
  · rcases h.lvl_cases hm with ⟨y, hy, rfl, -⟩ | ⟨hm, hmn⟩
    · exact h.first_piece hy
    · have hu' : ¬ Unspilled w b m := fun hc => hu ((h.unspilled_old (hold m e hm) hmn).2 hc)
      have hmp : m ≠ g.par n := by
        rintro rfl
        exact hu' hpu
      obtain ⟨j, l, hins, hkey⟩ := h.before.first m e hm hu' hmr
      refine ⟨j, l, by rw [h.inodes_old hm hmn hmp, hins], ?_⟩
      rw [h.node_old (hold m e hm) hmn]
      exact hkey
  · rcases h.lvl_cases hm with ⟨y, hy, rfl, rfl⟩ | ⟨hm, hmn⟩
    · rw [(h.spilt.piece y hy).2.2.2.2.2]
      have hy2 := h.mem_pieces hy
      rw [ht.isLeaf_false h.lvl] at hy2
      have htwo : Node.minKeys false ≤ (w.inodes n).length := h.before.two n e h.lvl
      exact Node.length_le_of_mem_pieces htwo y.2 hy2
    · by_cases emp : m = g.par n
      · have := h.before.two m e hm
        rw [emp, h.old_parent] at this
        rw [emp, h.new_parent]
        simp only [List.length_append, List.length_cons, List.length_map] at this ⊢
        omega
      · rw [h.inodes_old hm hmn emp]
        exact h.before.two m e hm
  · rcases h.lvl_cases hm with ⟨y, hy, rfl, -⟩ | ⟨hm, hmn⟩
    · rw [(h.spilt.piece y hy).2.2.2.2.2]
      exact h.piece_ne hy
    · have hmp : m ≠ g.par n := by
        rintro rfl
        rw [hpl] at hm
        cases hm
      rw [h.inodes_old hm hmn hmp]
      exact h.before.leaf_ne m hm hmr
  · obtain ⟨hm', hmn, hu'⟩ := h.unspilled_cases hm hu
    by_cases emp : m = g.par n
    · rw [emp]
      exact h.before.active _ d hpl hpu
        ⟨i, by simp [h.old_parent], by rw [h.kid]; exact h.unspilled⟩
    · obtain ⟨j, hj, hju⟩ := hk
      rw [h.inodes_old hm' hmn emp] at hj
      have hjl := (ht.branch m e hm').lvl j hj
      exact h.before.active m e hm' hu' ⟨j, hj,
        (h.unspilled_old (hold _ e hjl) (ht.kid_ne_of_par hm' emp hj)).1 hju⟩
  · obtain ⟨hd, e, he⟩ := h.before.active_dirty m hK
    exact ⟨(h.dirty_old (hold m _ he)).2 hd, e, h.lvl_old he⟩
  · obtain ⟨-, e, he⟩ := h.before.active_dirty m hK
    obtain ⟨hmp, hpd⟩ := h.before.active_parent m hK hmr
    have hplt := h.before.alloc _ hpd
    rw [h.par_active hK hmr]
    refine ⟨?_, (h.dirty_old hplt).2 hpd⟩
    by_cases emn : m = n
    · rw [emn]
      exact (h.spilt.piece (n, x) (by simp)).2.2.2.2.1
    · rw [h.node_old (hold m _ he) emn]
      exact hmp
  · obtain ⟨hm, hmn, hu⟩ := h.unspilled_cases hm hu
    rw [h.firstPiece_old hm hmn]
    exact h.before.active_fits m hK e hm hu
  · obtain ⟨-, e', he'⟩ := h.before.active_dirty m hK
    obtain rfl : e' = e := Nat.succ.inj (Option.some.inj ((h.lvl_old he').symm.trans hm))
    by_cases emn : m = n
    · -- the node keeps its first piece
      subst emn
      obtain rfl : d = e' + 1 := Option.some.inj (h.lvl.symm.trans he')
      have hfit := h.before.active_fits m hK e' he' h.unspilled
      rw [h.before.firstPiece_eq he' (h.kids e' rfl) h.pieces, h.before.fits_keys he'] at hfit
      · rw [(h.spilt.piece (m, x) (by simp)).2.2.2.2.2]
        exact hfit
      · intro j hj
        have hflat : (Node.pieces (w.nodes m).isLeaf (w.threshold b) (w.inodes m)).flatten =
          w.inodes m := Node.flatten_pieces _
        rw [← hflat, ← h.pieces]
        exact List.mem_append_left _ hj
    · have hu' : ¬ Unspilled w b m := fun hc => hu ((h.unspilled_old (hold m _ he') emn).2 hc)
      have hmp : m ≠ g.par n := by
        rintro rfl
        exact hu' hpu
      rw [h.inodes_old he' emn hmp]
      exact h.before.active_spilled m hK e' he' hu'

/-- A branch that is spilled keeps its inodes. -/
lemma keep {m : NodeId} {e : Nat} (hm : g.lvl m = some e) (hu : ¬ Unspilled w b m) :
    w'.inodes m = w.inodes m := by
  refine h.inodes_old hm ?_ ?_
  · rintro rfl
    exact hu h.unspilled
  · rintro rfl
    exact hu h.par.2.1

/-- The ancestors of the parent are as they were. -/
lemma onPath {m : NodeId} {e : Nat} (hm : OnPath w b g r m) (hme : g.lvl m = some e) (hlt : d < e) :
    OnPath w' b g' r m := by
  induction hm generalizing e with
  | root => exact .root
  | @kid p d' a y c _ hp hins hl ih =>
    obtain rfl : e = d' := by
      have := h.before.tree.kid hp (i := y) (by simp [hins])
      exact Option.some.inj (hme.symm.trans this)
    have hpn : p ≠ n := by
      rintro rfl
      have := Option.some.inj (hp.symm.trans h.lvl)
      omega
    have hpp : p ≠ g.par n := by
      rintro rfl
      have := Option.some.inj (hp.symm.trans h.par.1)
      omega
    refine .kid (ih hp (by omega)) (h.lvl_old hp) ((h.inodes_old hp hpn hpp).trans hins)
      fun j hj hju => ?_
    have hjm : j ∈ w.inodes p := by simp [hins, hj]
    exact hl j hj ((h.unspilled_old (h.before.tree.alloc _ _ (h.before.tree.kid hp hjm))
      (h.before.tree.kid_ne_of_par hp hpp hjm)).1 hju)

/-- One node less is to be spilled. -/
lemma card_lt : (toSpill w' b).card < (toSpill w b).card := by
  refine Finset.card_lt_card (Finset.ssubset_iff_of_subset (fun m hm => ?_) |>.2
    ⟨n, mem_toSpill.2 h.unspilled,
      fun hc => h.not_unspilled (y := (n, x)) (by simp) (mem_toSpill.1 hc)⟩)
  have hu := mem_toSpill.1 hm
  rw [mem_toSpill]
  rcases (h.spilt.dirty m).1 hu.1 with hd | hd
  · have hmn : m ≠ n := by
      rintro rfl
      exact h.not_unspilled (y := (m, x)) (by simp) hu
    exact (h.unspilled_old (h.before.alloc m hd) hmn).1 hu
  · obtain ⟨y, hy, rfl⟩ := List.mem_map.1 hd
    exact absurd hu (h.not_unspilled (.tail _ hy))

end NodeSpilt

/-- The parent of the next node to be spilled, and what stands before the node. -/
lemma Spilling.path_parent (h : Spilling w b g r H K) (hp : OnPath w b g r n) (hnr : n ≠ r)
    {l1 l2 : List Inode} {i : Inode} (hins : w.inodes (g.par n) = l1 ++ i :: l2) (hi : i.kid = n) :
    OnPath w b g r (g.par n) ∧ ∀ j ∈ l1, ¬ Unspilled w b j.kid := by
  cases hp with
  | root => exact absurd rfl hnr
  | @kid p d' a y c hp hpl hy hl =>
    have hmem : y ∈ w.inodes p := by simp [hy]
    have hpar := (h.tree.branch p d' hpl).par y hmem
    rw [hpar] at hins ⊢
    refine ⟨hp, ?_⟩
    -- the child stands in one place only
    obtain rfl := h.tree.kid_inj hpl (by simp [hins]) hmem hi
    have hnodup : (w.inodes p).Nodup := (h.tree.branch p d' hpl).sorted.imp fun {j k} hlt e => by
      rw [e] at hlt
      exact lt_irrefl _ hlt
    have heq : l1 = a := by
      rw [hins, List.nodup_middle, List.nodup_cons, List.mem_append, not_or] at hnodup
      exact ((List.append_cons_inj_of_notMem hnodup.1.1 hnodup.1.2).1 (hins.symm.trans hy)).1
    rw [heq]
    exact hl

/-- Spill a node whose children have been spilled. -/
lemma Spilling.spillNode (h : Spilling w b g r H K) (hn : g.lvl n = some d) (hu : Unspilled w b n)
    (hnr : n ≠ r) (hp : OnPath w b g r n)
    (hkids : ∀ e, d = e + 1 → ∀ i ∈ w.inodes n, ¬ Unspilled w b i.kid) :
    ∃ w' g' x qs l1 i l2, Evals (fun k => Node.split k n >>= fun nodes =>
        Prog.each Node.finalizePiece nodes) w () w' ∧
      NodeSpilt w b g r H K n d x qs l1 i l2 w' g' ∧ contents w' H r = contents w H r := by
  have ht := h.tree
  obtain ⟨hpl, l1, i, l2, hins, hi⟩ := ht.place hn hnr
  obtain ⟨hpar, hpu⟩ := h.parent n d hn hu hnr
  have hpn := ht.par_ne hn hnr
  have hb := ht.branch _ d hpl
  have hmem : i ∈ w.inodes (g.par n) := by simp [hins]
  have hkey : (w.nodes n).key = i.key := by
    have := hb.key i hmem
    rwa [hi] at this
  have hkne := hb.key_ne i hmem
  rw [hins] at hb
  have hne := h.inodes_ne hn hnr
  obtain ⟨-, ⟨hs2, -⟩, hs1⟩ := List.pairwise_append.1 hb.sorted |>.imp_right
    (And.imp_left List.pairwise_cons.1)
  have hhi2 := (List.pairwise_cons.1 (List.pairwise_append.1 hb.hi_next).2.1).1
  rw [hi] at hhi2
  have hrange : ∀ a ∈ w.inodes n, g.lo n ≤ a.key ∧ (a.key : WithTop Bytes) < g.hi n := by
    intro a ha
    cases d with
    | zero => exact ⟨(ht.leaf n hn).lo a ha, (ht.leaf n hn).hi a ha⟩
    | succ d => exact ⟨(ht.branch n d hn).lo a ha, (ht.branch n d hn).hi a ha⟩
  obtain ⟨x, qs, w', hev, hpieces, hspilt, hpi⟩ := splitAndEnter_eq l1 l2 h.sound
    (ht.alloc n d hn) (ht.alloc _ _ hpl) hpn.symm (h.owned n d hn hu.1) hpar
    (h.sep _ _ hpl hpu n d hn hpn.symm) hne (ht.key_ne hn) (ht.sorted hn)
    (fun y => by
      rw [hkey, if_neg hkne, hins]
      exact putInodes_replace (fun j hj => hs1 j hj i (by simp)) (fun j hj => (hs2 j hj).le) rfl)
    (fun a ha j hj => by
      have hl : i.key ≤ g.lo n := by
        obtain ⟨c, l, rfl⟩ := List.exists_cons_of_ne_nil (List.ne_nil_of_mem hj)
        have := hb.lo_tail i (by simp)
        rwa [hi] at this
      exact (hs1 j hj i (by simp)).trans_le (hl.trans (hrange a ha).1))
    (fun a ha j hj => WithTop.coe_lt_coe.1 ((hrange a ha).2.trans_le (hhi2 j hj)))
  have hflat : w.inodes n = x ++ (qs.map Prod.snd).flatten := by
    rw [← List.flatten_cons, hpieces, Node.flatten_pieces]
  have hpne : ∀ y ∈ (n, x) :: qs, y.2 ≠ [] := fun y hy =>
    Node.ne_nil_of_mem_pieces hne y.2 (by
      rw [← hpieces, ← List.map_cons (f := Prod.snd) (a := (n, x))]
      exact List.mem_map_of_mem hy)
  have hlt : ∀ m e, g.lvl m = some e → m < w.nextNode := fun m e hm => ht.alloc m e hm
  have hnear : Near g (g.par n) n w w' := by
    refine ⟨hspilt.nextNode, fun m e hm => ?_, fun m e hm hmn => ?_, fun m e hm hmp hmn => ?_⟩
    · by_cases emn : m = n
      · rw [emn]
        exact (hspilt.piece (n, x) (by simp)).2.1
      · by_cases emp : m = g.par n
        · rw [emp, hspilt.parent]
        · rw [hspilt.other m (hlt m e hm) emn emp]
    · by_cases emp : m = g.par n
      · rw [emp, hspilt.parent]
      · rw [hspilt.other m (hlt m e hm) hmn emp]
    · exact hspilt.view m (hlt m e hm) hmn hmp (h.sep n d hn hu m e hm hmn)
        (h.sep _ _ hpl hpu m e hm hmp)
  have hnew : ∀ y ∈ qs, g.lvl y.1 = none := by
    intro y hy
    rcases hl : g.lvl y.1 with _ | e
    · rfl
    · exact absurd (hlt _ e hl) (not_lt.2 (hspilt.new y hy).1)
  obtain ⟨g', ht', hcont, hrec⟩ := ht.splice w' hn hnr hins hi hflat hnear
    ⟨(List.nodup_cons.1 hspilt.nodup).2, hnew, fun y hy => (hspilt.new y hy).2,
      fun y hy => hpne y (.tail _ hy), fun y hy => (hspilt.piece y (.tail _ hy)).2.1,
      fun y hy => (hspilt.piece y (.tail _ hy)).2.2.2.1,
      fun y hy => (hspilt.piece y (.tail _ hy)).2.2.2.2.2, hpne (n, x) (by simp),
      (hspilt.piece (n, x) (by simp)).2.2.2.1, (hspilt.piece (n, x) (by simp)).2.2.2.2.2, by
        rw [hpi]
        rfl⟩
  exact ⟨w', g', x, qs, l1, i, l2, hev,
    ⟨h, hn, hu, hnr, hkids, hspilt, hpieces, hins, hi, (h.path_parent hp hnr hins hi).2, hpi, ht',
    hrec⟩,
    hcont⟩

end

end Vmbolt
