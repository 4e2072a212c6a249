import Mathlib.Data.List.Nodup
import Mathlib.Data.List.Pairwise
import Mathlib.Order.WithBot
import Vmbolt.Model.Snapshot

/-!
# Trees in the heap

A `Layout` assigns to the nodes of one tree what the heap does not store: the level of a node
(leaves have level 0), the node it hangs under, and the half-open range of keys it is responsible
for. With it the shape and the order of a tree are conditions on single nodes and their children
(`TreeOK`), so a change of the heap has to be checked only where it happens.

The lower bound `[]` marks the nodes along the left edge. The bounds of `TreeOK` only have to be
sound: they allow for a commit that takes children away. `Exact` adds that the ranges of the
children fill the range of their parent, which is what a search needs.
-/

namespace Vmbolt

/-- The empty byte string is the least one. -/
lemma nil_le_bytes (x : Bytes) : [] ≤ x := not_lt.1 nofun

/-- The child of an inode of a branch. -/
def Inode.kid (i : Inode) : NodeId := i.child.getD 0

/-- The entry of an inode of a leaf. -/
def Inode.entry (i : Inode) : Bytes × Bytes := (i.key, i.value.getD [])

/-- A leaf inode as `Bucket.Put` makes them: sizes within the limits and a value that is not nil. -/
structure Inode.Admitted (i : Inode) : Prop where
  child : i.child = none
  key_ne : i.key ≠ []
  key_le : i.key.length ≤ maxKeySize
  value : i.value.isSome
  value_le : lenBytes i.value ≤ maxValueSize

/-- What the heap does not store about the nodes of a tree. -/
structure Layout where
  lvl : NodeId → Option Nat
  par : NodeId → NodeId
  lo : NodeId → Bytes
  hi : NodeId → WithTop Bytes

/-- The conditions on the inodes of a leaf. -/
structure LeafOK (g : Layout) (n : NodeId) (ins : List Inode) : Prop where
  sorted : ins.Pairwise fun i j => i.key < j.key
  entry : ∀ i ∈ ins, i.Admitted
  lo : ∀ i ∈ ins, g.lo n ≤ i.key
  hi : ∀ i ∈ ins, (i.key : WithTop Bytes) < g.hi n

/-- The conditions on the inodes of a branch with children of level `d`. -/
structure BranchOK (w : World) (g : Layout) (n : NodeId) (d : Nat) (ins : List Inode) : Prop where
  ne : ins ≠ []
  sorted : ins.Pairwise fun i j => i.key < j.key
  key_ne : ∀ i ∈ ins, i.key ≠ []
  value : ∀ i ∈ ins, i.value = none
  child : ∀ i ∈ ins, i.child = some i.kid
  lvl : ∀ i ∈ ins, g.lvl i.kid = some d
  par : ∀ i ∈ ins, g.par i.kid = n
  key : ∀ i ∈ ins, (w.nodes i.kid).key = i.key
  lo : ∀ i ∈ ins, g.lo n ≤ i.key
  hi : ∀ i ∈ ins, (i.key : WithTop Bytes) < g.hi n
  hi_kid : ∀ i ∈ ins, g.hi i.kid ≤ g.hi n
  hi_next : ins.Pairwise fun i j => g.hi i.kid ≤ j.key
  lo_tail : ∀ i ∈ ins.tail, i.key ≤ g.lo i.kid
  lo_all : g.lo n ≠ [] → ∀ i ∈ ins, i.key ≤ g.lo i.kid

/-- The nodes of the layout form a tree of height `H` under `root`. -/
structure TreeOK (w : World) (g : Layout) (root : NodeId) (H : Nat) : Prop where
  lvl_root : g.lvl root = some H
  alloc : ∀ n d, g.lvl n = some d → n < w.nextNode
  isLeaf : ∀ n d, g.lvl n = some d → ((w.nodes n).isLeaf = true ↔ d = 0)
  leaf : ∀ n, g.lvl n = some 0 → LeafOK g n (w.inodes n)
  branch : ∀ n d, g.lvl n = some (d + 1) → BranchOK w g n d (w.inodes n)
  up : ∀ n d, g.lvl n = some d → n ≠ root →
    d < H ∧ g.lvl (g.par n) = some (d + 1) ∧ ∃ i ∈ w.inodes (g.par n), i.kid = n

/-- The ranges of the children fill the range of the branch. -/
structure ExactAt (g : Layout) (n : NodeId) (ins : List Inode) : Prop where
  lo_first : ∀ i l, ins = i :: l → g.lo i.kid = g.lo n
  lo_next : ∀ i ∈ ins.tail, g.lo i.kid = i.key
  hi_last : ∀ i l, ins = l ++ [i] → g.hi i.kid = g.hi n
  hi_next : ∀ i j l1 l2, ins = l1 ++ i :: j :: l2 → g.hi i.kid = j.key

/-- The ranges of a tree are exact: the root is responsible for all keys, and the children of a node
share its range. -/
structure Exact (w : World) (g : Layout) (root : NodeId) : Prop where
  lo_root : g.lo root = []
  hi_root : g.hi root = ⊤
  node : ∀ n d, g.lvl n = some (d + 1) → ExactAt g n (w.inodes n)

/-- The entries of a node of level `d`, in order. -/
def contents (w : World) : Nat → NodeId → List (Bytes × Bytes)
  | 0, n => (w.inodes n).map Inode.entry
  | d + 1, n => (w.inodes n).flatMap fun i => contents w d i.kid

section
variable {w w' : World} {g g' : Layout} {root n : NodeId} {H d : Nat}

/-- The conditions on a leaf depend only on its inodes and its range. -/
lemma LeafOK.congr {n' : NodeId} {ins : List Inode} (h : LeafOK g n ins) (hlo : g'.lo n' = g.lo n)
    (hhi : g'.hi n' = g.hi n) : LeafOK g' n' ins :=
  ⟨h.sorted, h.entry, by rw [hlo]; exact h.lo, by rw [hhi]; exact h.hi⟩

/-- `f` changes the child of an inode `i` of a branch, and the new child takes the place of the old
one. -/
structure Redirects (w w' : World) (g g' : Layout) (f : Inode → Inode) (i : Inode) : Prop where
  inode_key : (f i).key = i.key
  value : (f i).value = i.value
  child : (f i).child = some (f i).kid
  lvl : g'.lvl (f i).kid = g.lvl i.kid
  lo : g'.lo (f i).kid = g.lo i.kid
  hi : g'.hi (f i).kid = g.hi i.kid
  key : (w'.nodes (f i).kid).key = (w.nodes i.kid).key

/-- The conditions on a branch survive if its children are replaced one by one. -/
lemma BranchOK.map {n' : NodeId} {ins : List Inode} {f : Inode → Inode} (h : BranchOK w g n d ins)
    (hf : ∀ i ∈ ins, Redirects w w' g g' f i) (hlo : g'.lo n' = g.lo n) (hhi : g'.hi n' = g.hi n)
    (hpar : ∀ i ∈ ins, g'.par (f i).kid = n') : BranchOK w' g' n' d (ins.map f) := by
  have hmem : ∀ {P : Inode → Prop}, (∀ i ∈ ins, P (f i)) → ∀ i ∈ ins.map f, P i := by
    intro P hP i hi
    obtain ⟨j, hj, rfl⟩ := List.mem_map.1 hi
    exact hP j hj
  refine ⟨by simpa using h.ne, ?_, hmem fun i hi => ?_, hmem fun i hi => ?_,
    hmem fun i hi => (hf i hi).child, hmem fun i hi => ?_, hmem fun i hi => hpar i hi,
    hmem fun i hi => ?_, hmem fun i hi => ?_, hmem fun i hi => ?_, hmem fun i hi => ?_, ?_, ?_,
    fun hn => hmem fun i hi => ?_⟩
  · rw [List.pairwise_map]
    refine h.sorted.imp_of_mem fun hi hj hij => ?_
    rwa [(hf _ hi).inode_key, (hf _ hj).inode_key]
  · rw [(hf i hi).inode_key]
    exact h.key_ne i hi
  · rw [(hf i hi).value, h.value i hi]
  · rw [(hf i hi).lvl, h.lvl i hi]
  · rw [(hf i hi).key, (hf i hi).inode_key, h.key i hi]
  · rw [(hf i hi).inode_key, hlo]
    exact h.lo i hi
  · rw [(hf i hi).inode_key, hhi]
    exact h.hi i hi
  · rw [(hf i hi).hi, hhi]
    exact h.hi_kid i hi
  · rw [List.pairwise_map]
    refine h.hi_next.imp_of_mem fun hi hj hij => ?_
    rwa [(hf _ hi).hi, (hf _ hj).inode_key]
  · intro i hi
    rw [← List.map_tail] at hi
    obtain ⟨j, hj, rfl⟩ := List.mem_map.1 hi
    have hj' := hf j (List.mem_of_mem_tail hj)
    rw [hj'.inode_key, hj'.lo]
    exact h.lo_tail j hj
  · rw [hlo] at hn
    rw [(hf i hi).inode_key, (hf i hi).lo]
    exact h.lo_all hn i hi

/-- The conditions on a branch depend only on its inodes, its range and what is assigned to its
children. -/
lemma BranchOK.congr {ins : List Inode} (h : BranchOK w g n d ins) (hlo : g'.lo n = g.lo n)
    (hhi : g'.hi n = g.hi n) (hlvl : ∀ i ∈ ins, g'.lvl i.kid = g.lvl i.kid)
    (hpar : ∀ i ∈ ins, g'.par i.kid = n) (hklo : ∀ i ∈ ins, g'.lo i.kid = g.lo i.kid)
    (hkhi : ∀ i ∈ ins, g'.hi i.kid = g.hi i.kid)
    (hkey : ∀ i ∈ ins, (w'.nodes i.kid).key = (w.nodes i.kid).key) : BranchOK w' g' n d ins := by
  have hmap : BranchOK w' g' n d (ins.map id) :=
    h.map (fun i hi => ⟨rfl, rfl, h.child i hi, hlvl i hi, hklo i hi, hkhi i hi, hkey i hi⟩)
      hlo hhi hpar
  rwa [List.map_id] at hmap

/-- Exact ranges survive if the children of the branch are replaced one by one. -/
lemma ExactAt.map {n' : NodeId} {ins : List Inode} {f : Inode → Inode} (h : ExactAt g n ins)
    (hf : ∀ i ∈ ins, Redirects w w' g g' f i) (hlo : g'.lo n' = g.lo n) (hhi : g'.hi n' = g.hi n) :
    ExactAt g' n' (ins.map f) := by
  refine ⟨fun i l e => ?_, fun i hi => ?_, fun i l e => ?_, fun i j l1 l2 e => ?_⟩
  · obtain ⟨x, xs, rfl, rfl, -⟩ := List.map_eq_cons_iff.1 e
    rw [(hf x (by simp)).lo, hlo, h.lo_first x xs rfl]
  · rw [← List.map_tail] at hi
    obtain ⟨x, hx, rfl⟩ := List.mem_map.1 hi
    have hx' := hf x (List.mem_of_mem_tail hx)
    rw [hx'.lo, hx'.inode_key, h.lo_next x hx]
  · obtain ⟨xs, ys, rfl, -, hy⟩ := List.map_eq_append_iff.1 e
    obtain ⟨x, zs, rfl, rfl, hz⟩ := List.map_eq_cons_iff.1 hy
    obtain rfl := List.map_eq_nil_iff.1 hz
    rw [(hf x (by simp)).hi, hhi, h.hi_last x xs rfl]
  · obtain ⟨xs, ys, rfl, -, hy⟩ := List.map_eq_append_iff.1 e
    obtain ⟨x, zs, rfl, rfl, hz⟩ := List.map_eq_cons_iff.1 hy
    obtain ⟨y, us, rfl, rfl, -⟩ := List.map_eq_cons_iff.1 hz
    rw [(hf x (by simp)).hi, (hf y (by simp)).inode_key, h.hi_next x y xs us rfl]

namespace TreeOK

section
variable (h : TreeOK w g root H)
include h

/-- A child of a node of the tree. -/
lemma kid (hn : g.lvl n = some (d + 1)) {i : Inode} (hi : i ∈ w.inodes n) : g.lvl i.kid = some d := (h.branch n d hn).lvl i hi

/-- A node with a level above 0 is a branch. -/
lemma isLeaf_false (hn : g.lvl n = some (d + 1)) : (w.nodes n).isLeaf = false := by
  by_contra hc
  have := (h.isLeaf n _ hn).1 (by simpa using hc)
  omega

lemma isLeaf_true (hn : g.lvl n = some 0) : (w.nodes n).isLeaf = true :=
  (h.isLeaf n 0 hn).2 rfl

/-- A root that is a leaf stands on level zero. -/
lemma height_zero (hleaf : (w.nodes root).isLeaf = true) : H = 0 :=
  (h.isLeaf root H h.lvl_root).1 hleaf

/-- A root that is a branch over a leaf stands on level one. -/
lemma height_one {i : Inode} (hbranch : (w.nodes root).isLeaf = false) (hi : i ∈ w.inodes root)
    (hleaf : (w.nodes i.kid).isLeaf = true) : H = 1 := by
  cases H with
  | zero =>
    rw [h.isLeaf_true h.lvl_root] at hbranch
    cases hbranch
  | succ d => rw [(h.isLeaf i.kid d (h.kid h.lvl_root hi)).1 hleaf]

/-- The inodes of a node of the tree are sorted. -/
lemma sorted (hn : g.lvl n = some d) : (w.inodes n).Pairwise fun i j => i.key < j.key := by
  cases d with
  | zero => exact (h.leaf n hn).sorted
  | succ d => exact (h.branch n d hn).sorted

/-- The keys of a node of the tree are not empty. -/
lemma key_ne (hn : g.lvl n = some d) : ∀ i ∈ w.inodes n, i.key ≠ [] := by
  cases d with
  | zero => exact fun i hi => ((h.leaf n hn).entry i hi).key_ne
  | succ d => exact (h.branch n d hn).key_ne

/-- The children of a node are different nodes. -/
lemma kid_inj (hn : g.lvl n = some (d + 1)) {i j : Inode} (hi : i ∈ w.inodes n)
    (hj : j ∈ w.inodes n) (e : i.kid = j.kid) : i = j := by
  have hb := h.branch n d hn
  have hk : i.key = j.key := by rw [← hb.key i hi, ← hb.key j hj, e]
  have hnd : ((w.inodes n).map Inode.key).Nodup :=
    List.pairwise_map.2 (hb.sorted.imp fun hlt => hlt.ne)
  exact List.inj_on_of_nodup_map hnd hi hj hk

end

end TreeOK

/-! ## Contents -/

/-- The contents of a node depend only on the inodes of the nodes under it. -/
lemma contents_congr (P : Nat → NodeId → Prop)
    (hkid : ∀ d n, P (d + 1) n → ∀ i ∈ w.inodes n, P d i.kid)
    (heq : ∀ d n, P d n → w'.inodes n = w.inodes n) :
    ∀ d n, P d n → contents w' d n = contents w d n := by
  intro d
  induction d with
  | zero =>
    intro n hn
    simp only [contents, heq 0 n hn]
  | succ d ih =>
    intro n hn
    simp only [contents, heq (d + 1) n hn]
    exact List.flatMap_congr fun i hi => ih _ (hkid d n hn i hi)

/-- A child is not responsible for keys below its parent's range. -/
lemma BranchOK.lo_le {ins : List Inode} (h : BranchOK w g n d ins) {i : Inode} (hi : i ∈ ins) :
    g.lo n ≤ g.lo i.kid := by
  by_cases e : g.lo n = []
  · rw [e]
    exact nil_le_bytes _
  · exact (h.lo i hi).trans (h.lo_all e i hi)

/-- The entries under a node have sizes that `Bucket.Put` admits. -/
lemma TreeOK.contents_admitted (h : TreeOK w g root H) (hn : g.lvl n = some d) :
    ∀ x ∈ contents w d n, x.1 ≠ [] ∧ x.1.length ≤ maxKeySize ∧ x.2.length ≤ maxValueSize := by
  induction d generalizing n with
  | zero =>
    intro x hx
    obtain ⟨i, hi, rfl⟩ := List.mem_map.1 hx
    have ha := (h.leaf n hn).entry i hi
    refine ⟨ha.key_ne, ha.key_le, ?_⟩
    have := ha.value_le
    unfold lenBytes at this
    exact this
  | succ d ih =>
    intro x hx
    obtain ⟨i, hi, hx⟩ := List.mem_flatMap.1 hx
    exact ih (h.kid hn hi) x hx

/-- The contents of a node stay within its range. -/
lemma TreeOK.contents_range (h : TreeOK w g root H) (hn : g.lvl n = some d) :
    ∀ x ∈ contents w d n, g.lo n ≤ x.1 ∧ (x.1 : WithTop Bytes) < g.hi n := by
  induction d generalizing n with
  | zero =>
    intro x hx
    obtain ⟨i, hi, rfl⟩ := List.mem_map.1 hx
    exact ⟨(h.leaf n hn).lo i hi, (h.leaf n hn).hi i hi⟩
  | succ d ih =>
    intro x hx
    obtain ⟨i, hi, hx⟩ := List.mem_flatMap.1 hx
    have hb := h.branch n d hn
    obtain ⟨h1, h2⟩ := ih (hb.lvl i hi) x hx
    exact ⟨(hb.lo_le hi).trans h1, h2.trans_le (hb.hi_kid i hi)⟩

/-- The contents of the children before a child are below its range, those of the children behind it
above. -/
lemma TreeOK.contents_beside (h : TreeOK w g root H) (hn : g.lvl n = some (d + 1))
    {l1 l2 : List Inode} {i : Inode} (hins : w.inodes n = l1 ++ i :: l2) :
    (∀ x ∈ l1.flatMap fun j => contents w d j.kid, x.1 < g.lo i.kid) ∧
      ∀ x ∈ l2.flatMap fun j => contents w d j.kid, g.hi i.kid ≤ (x.1 : WithTop Bytes) := by
  have hb := h.branch n d hn
  have hnext := hb.hi_next
  rw [hins, List.pairwise_append, List.pairwise_cons] at hnext
  obtain ⟨-, ⟨hright, -⟩, hleft⟩ := hnext
  have hrange : ∀ j ∈ w.inodes n, ∀ x ∈ contents w d j.kid,
      g.lo j.kid ≤ x.1 ∧ (x.1 : WithTop Bytes) < g.hi j.kid :=
    fun j hj => h.contents_range (hb.lvl j hj)
  refine ⟨fun x hx => ?_, fun x hx => ?_⟩ <;> obtain ⟨j, hj, hx⟩ := List.mem_flatMap.1 hx
  · have hlt := (hrange j (by simp [hins, hj]) x hx).2.trans_le (hleft j hj i (by simp))
    have htail : i ∈ (w.inodes n).tail := by
      rw [hins]
      cases l1 with
      | nil => cases hj
      | cons z zs => simp
    exact (WithTop.coe_lt_coe.1 hlt).trans_le (hb.lo_tail i htail)
  · have htail : j ∈ (w.inodes n).tail := by
      rw [hins]
      cases l1 <;> simp [hj]
    exact (hright j hj).trans
      (WithTop.coe_le_coe.2 ((hb.lo_tail j htail).trans (hrange j (by simp [hins, hj]) x hx).1))

/-- The contents of a node are sorted. -/
lemma TreeOK.contents_sorted (h : TreeOK w g root H) (hn : g.lvl n = some d) :
    (contents w d n).Pairwise fun x y => x.1 < y.1 := by
  induction d generalizing n with
  | zero =>
    simp only [contents, List.pairwise_map]
    exact (h.leaf n hn).sorted
  | succ d ih =>
    have hb := h.branch n d hn
    simp only [contents]
    rw [List.pairwise_flatMap]
    refine ⟨fun i hi => ih (hb.lvl i hi), ?_⟩
    -- a later child is not the first one, so its lower bound is at its key
    have hlo : (w.inodes n).Pairwise fun i j => j.key ≤ g.lo j.kid := by
      cases hins : w.inodes n with
      | nil => exact List.Pairwise.nil
      | cons i l =>
        have htail : ∀ j ∈ l, j.key ≤ g.lo j.kid := fun j hj =>
          hb.lo_tail j (by rw [hins]; exact hj)
        refine List.pairwise_cons.2 ⟨htail, ?_⟩
        exact List.pairwise_of_forall_mem_list fun _ _ j hj => htail j hj
    refine (hb.hi_next.and hlo).imp_of_mem fun {i j} hi hj hij x hx y hy => ?_
    have hx2 := (h.contents_range (hb.lvl i hi) x hx).2
    have hy1 := (h.contents_range (hb.lvl j hj) y hy).1
    have : (x.1 : WithTop Bytes) < (j.key : WithTop Bytes) := hx2.trans_le hij.1
    exact (WithTop.coe_lt_coe.1 this).trans_le (hij.2.trans hy1)

end

end Vmbolt
