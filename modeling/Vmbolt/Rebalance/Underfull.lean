import Vmbolt.Rebalance.Surgery
import Vmbolt.Tree.Path

/-!
# Underfull leaves

A delete flags its leaf, and `node.rebalance` merges a flagged leaf that has become too small with a
neighbour. When it takes the right neighbour of a first child, the neighbour leaves the tree with
its flag set, and a later visit to it works on a parent that no longer knows it. `Spaced` is the
condition under which this does no harm: between a first child that is underfull and the next
underfull leaf stands one that is not. Empty leaves do not count, they are dropped. Every step of
the rebalancing keeps the condition, because it moves the leaves that are left along `Calmer`.
-/

namespace Vmbolt

/-- `node.rebalance` leaves the node alone: it is above the threshold and has enough keys. -/
def Large (w : World) (n : NodeId) : Prop :=
  defaultMinNodeMergeBytes < Node.size (w.inodes n) ∧
    Node.minKeys (w.nodes n).isLeaf < (w.inodes n).length

instance (w : World) (n : NodeId) : Decidable (Large w n) := inferInstanceAs (Decidable (_ ∧ _))

/-- The next visit to the node is going to merge or drop it. -/
def Underfull (w : World) (b : BucketId) (n : NodeId) : Prop :=
  n ∈ (w.buckets b).dirty ∧ (w.nodes n).unbalanced = true ∧ ¬ Large w n

instance (w : World) (b : BucketId) (n : NodeId) : Decidable (Underfull w b n) :=
  inferInstanceAs (Decidable (_ ∧ _ ∧ _))

/-- The node that a visit to `n` appends to `n`: the right sibling of a first child. -/
def Node.takenOver (w : World) (n : NodeId) : Option NodeId := do
  let p ← (w.nodes n).parent
  if Node.childIndex (w.inodes p) (w.nodes n).key = 0 then
    let i ← (w.inodes p)[1]?
    i.child
  else none

/-- The visit to `n` does not append the entries of a leaf that is still going to be merged itself:
that leaf stays in the working set with its entries and its flag. -/
def VisitFits (w : World) (b : BucketId) (n : NodeId) : Prop :=
  Underfull w b n → w.inodes n ≠ [] → ∀ m ∈ Node.takenOver w n, Underfull w b m → w.inodes m = []

instance (w : World) (b : BucketId) (n : NodeId) : Decidable (VisitFits w b n) :=
  inferInstanceAs (Decidable (_ → _ → ∀ m ∈ Node.takenOver w n, _ → _))

/-- The leaf is the first one under its parent that is not empty, or all in front of it are
empty. -/
def Leads (w : World) (g : Layout) (n : NodeId) : Prop :=
  ∃ p l1 i l2, g.lvl p = some 1 ∧ w.inodes p = l1 ++ i :: l2 ∧ i.kid = n ∧
    ∀ j ∈ l1, w.inodes j.kid = []

/-- The first keys of the leaves that satisfy `P` and are not empty. -/
def leafKeys (w : World) (g : Layout) (P : NodeId → Prop) : Set Bytes :=
  {k | ∃ n, g.lvl n = some 0 ∧ w.inodes n ≠ [] ∧ P n ∧ firstKey (w.inodes n) = k}

/-- Between a first child that is underfull and the next underfull leaf stands one that is not. -/
def Spaced (w : World) (b : BucketId) (g : Layout) : Prop :=
  ∀ k ∈ leafKeys w g fun n => Underfull w b n ∧ Leads w g n,
    ∀ k' ∈ leafKeys w g (Underfull w b), k < k' →
    ∃ s ∈ leafKeys w g fun n => ¬ Underfull w b n, k < s ∧ s < k'

/-- No leaf has become underfull or the first of its parent, and those that were not underfull are
still there. -/
structure Calmer (b : BucketId) (w : World) (g : Layout) (w' : World) (g' : Layout) : Prop where
  leading : leafKeys w' g' (fun n => Underfull w' b n ∧ Leads w' g' n) ⊆
    leafKeys w g fun n => Underfull w b n ∧ Leads w g n
  underfull : leafKeys w' g' (Underfull w' b) ⊆ leafKeys w g (Underfull w b)
  steady : leafKeys w g (fun n => ¬ Underfull w b n) ⊆ leafKeys w' g' fun n => ¬ Underfull w' b n

section
variable {w w' w'' : World} {b : BucketId} {g g' g'' : Layout} {r n p m c : NodeId} {H d idx : Nat}
  {i j : Inode} {l1 l2 : List Inode}

lemma size_le_append (x y : List Inode) : Node.size x ≤ Node.size (x ++ y) := by
  have hfold : ∀ (l : List Inode) (sz : Nat), sz ≤ l.foldl (fun sz item => sz + item.size) sz := by
    intro l
    induction l with
    | nil => exact fun _ => le_rfl
    | cons i l ih => exact fun sz => (Nat.le_add_right _ _).trans (ih _)
  unfold Node.size
  rw [List.foldl_append]
  exact hfold y _

/-- A node that gets more inodes stays large. -/
lemma Large.append {x : List Inode} (h : Large w n)
    (hleaf : (w'.nodes n).isLeaf = (w.nodes n).isLeaf) (hins : w'.inodes n = w.inodes n ++ x) :
    Large w' n := by
  unfold Large
  rw [hleaf, hins, List.length_append]
  exact ⟨h.1.trans_le (size_le_append _ _), h.2.trans_le (Nat.le_add_right _ _)⟩

lemma Large.congr (hleaf : (w'.nodes m).isLeaf = (w.nodes n).isLeaf)
    (hins : w'.inodes m = w.inodes n) : Large w' m ↔ Large w n := by
  unfold Large
  rw [hleaf, hins]

lemma not_underfull_of_unflagged (h : (w.nodes n).unbalanced = false) : ¬ Underfull w b n := by
  rintro ⟨-, hf, -⟩
  rw [h] at hf
  cases hf

/-! ## Keys of neighbours -/

lemma TreeOK.firstKey_lt (h : TreeOK w g r H) (hp : g.lvl p = some 1)
    (hins : w.inodes p = l1 ++ i :: j :: l2) (hi : w.inodes i.kid ≠ []) (hj : w.inodes j.kid ≠ []) :
    firstKey (w.inodes i.kid) < firstKey (w.inodes j.kid) := by
  have hr := (h.branch p 0 hp).ranges
  rw [hins, List.pairwise_append, List.pairwise_cons] at hr
  obtain ⟨-, h1, -⟩ := h.firstKey_range (h.kid hp (by rw [hins]; simp)) hi
  obtain ⟨h2, -, -⟩ := h.firstKey_range (h.kid hp (by rw [hins]; simp)) hj
  exact (WithTop.coe_lt_coe.1 (h1.trans_le (hr.2.1.1 j (by simp)))).trans_le h2

/-- No leaf stands between two neighbours. -/
lemma TreeOK.firstKey_lt_left (h : TreeOK w g r H) (hp : g.lvl p = some 1)
    (hins : w.inodes p = l1 ++ i :: j :: l2) (hi : w.inodes i.kid ≠ []) (hj : w.inodes j.kid ≠ [])
    (hm : g.lvl m = some 0) (hm_ne : w.inodes m ≠ []) (hmi : m ≠ i.kid)
    (hlt : firstKey (w.inodes m) < firstKey (w.inodes j.kid)) :
    firstKey (w.inodes m) < firstKey (w.inodes i.kid) := by
  have hb := h.branch p 0 hp
  have hij : i ∈ w.inodes p ∧ j ∈ w.inodes p := by simp [hins]
  obtain ⟨hi1, -, -⟩ := h.firstKey_range (hb.lvl i hij.1) hi
  obtain ⟨-, hj2, -⟩ := h.firstKey_range (hb.lvl j hij.2) hj
  obtain ⟨hm1, hm2, -⟩ := h.firstKey_range hm hm_ne
  -- a leaf in front of the left one, and one behind the right one
  have hfront : g.hi m ≤ (g.lo i.kid : WithTop Bytes) →
      firstKey (w.inodes m) < firstKey (w.inodes i.kid) := by
    intro hle
    exact (WithTop.coe_lt_coe.1 (hm2.trans_le hle)).trans_le hi1
  have hbehind : ¬ g.hi j.kid ≤ (g.lo m : WithTop Bytes) := by
    intro hle
    have := (WithTop.coe_lt_coe.1 (hj2.trans_le hle)).trans_le hm1
    exact lt_asymm hlt this
  have hroot : m ≠ r := h.ne_root hm (by have := h.le_height hp; omega)
  obtain ⟨-, hq, x, hx, rfl⟩ := h.up m 0 hm hroot
  by_cases hqp : g.par x.kid = p
  · have hr := hb.ranges
    rw [hqp, hins] at hx
    rw [hins, List.pairwise_append, List.pairwise_cons, List.pairwise_cons] at hr
    obtain ⟨-, ⟨-, hr2, -⟩, hr3⟩ := hr
    simp only [List.mem_append, List.mem_cons] at hx
    rcases hx with hx | rfl | rfl | hx
    · exact hfront (hr3 x hx i (by simp))
    · exact absurd rfl hmi
    · exact absurd hlt (lt_irrefl _)
    · exact absurd (hr2 x hx) hbehind
  · have hbq := h.branch _ 0 hq
    rcases h.ranges hq hp hqp with hle | hle
    · exact hfront ((hbq.hi_kid x hx).trans (hle.trans (WithTop.coe_le_coe.2 (hb.lo_le hij.1))))
    · exact absurd
        ((hb.hi_kid j hij.2).trans (hle.trans (WithTop.coe_le_coe.2 (hbq.lo_le hx)))) hbehind

/-! ## Calmer trees -/

lemma Calmer.refl (b : BucketId) (w : World) (g : Layout) : Calmer b w g w g :=
  ⟨subset_rfl, subset_rfl, subset_rfl⟩

lemma Calmer.trans (h1 : Calmer b w g w' g') (h2 : Calmer b w' g' w'' g'') : Calmer b w g w'' g'' :=
  ⟨h2.leading.trans h1.leading, h2.underfull.trans h1.underfull, h1.steady.trans h2.steady⟩

lemma Calmer.spaced (h : Calmer b w g w' g') (hs : Spaced w b g) : Spaced w' b g' := by
  intro k hk k' hk' hlt
  obtain ⟨s, hs, h1, h2⟩ := hs k (h.leading hk) k' (h.underfull hk') hlt
  exact ⟨s, h.steady hs, h1, h2⟩

/-- It is enough to find the old leaf for every new one, and the new one for every old leaf that was
not underfull. -/
lemma Calmer.of_leaves
    (hnew : ∀ n, g'.lvl n = some 0 → w'.inodes n ≠ [] → ∃ m, g.lvl m = some 0 ∧ w.inodes m =
      w'.inodes n ∧ (Underfull w' b n → Underfull w b m ∧ (Leads w' g' n → Leads w g m)))
    (hold : ∀ m, g.lvl m = some 0 → w.inodes m ≠ [] → ¬ Underfull w b m →
      ∃ n, g'.lvl n = some 0 ∧ w'.inodes n ≠ [] ∧ firstKey (w'.inodes n) = firstKey (w.inodes m) ∧
        ¬ Underfull w' b n) : Calmer b w g w' g' where
  leading := by
    rintro k ⟨n, hn, hne, ⟨hu, hl⟩, rfl⟩
    obtain ⟨m, hm, he, h1⟩ := hnew n hn hne
    exact ⟨m, hm, by rwa [he], ⟨(h1 hu).1, (h1 hu).2 hl⟩, by rw [he]⟩
  underfull := by
    rintro k ⟨n, hn, hne, hu, rfl⟩
    obtain ⟨m, hm, he, h1⟩ := hnew n hn hne
    exact ⟨m, hm, by rwa [he], (h1 hu).1, by rw [he]⟩
  steady := by
    rintro k ⟨m, hm, hne, hu, rfl⟩
    obtain ⟨n, hn, h1, h2, h3⟩ := hold m hm hne hu
    exact ⟨n, hn, h1, h3, h2⟩

end

end Vmbolt
