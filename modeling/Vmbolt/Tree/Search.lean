import Vmbolt.Lib.SortedMap
import Vmbolt.Tree.Scan

/-!
# Searching a tree

In a tree with exact ranges the search for a key ends in the leaf that is responsible for it: the
entries of the leaves before it are smaller, those of the leaves behind it are larger. From this
follow the answers of `Bucket.Get` and `Cursor.Seek`.
-/

namespace Vmbolt

section Lists

/-- The index `searchNode` takes cuts the inodes of a branch: what follows is above the key, and the
inode itself is not above it, unless it is the first one. -/
lemma searchIndex_split {ins : List Inode} (hs : ins.Pairwise fun i j => i.key < j.key)
    (hne : ins ≠ []) (k : Bytes) :
    ∃ l1 i l2, ins = l1 ++ i :: l2 ∧ Cursor.searchIndex ins k = l1.length ∧
      (∀ j ∈ l2, k < j.key) ∧ (l1 ≠ [] → i.key ≤ k) := by
  obtain ⟨l1, l2, rfl, h1, h2⟩ := sorted_split hs k
  have hs2 : l2.Pairwise fun i j => i.key < j.key := (List.pairwise_append.1 hs).2.1
  have hr := lowerBoundExact_append h1 h2 hs2
  unfold Cursor.searchIndex
  simp only [hr]
  -- without the key the search steps back to the last smaller one, if there is one
  have back : (∀ j ∈ l2, k < j.key) → l1 ≠ [] → ∃ l1' i l2', l1 ++ l2 = l1' ++ i :: l2' ∧
      l1.length - 1 = l1'.length ∧ (∀ j ∈ l2', k < j.key) ∧ (l1' ≠ [] → i.key ≤ k) := by
    intro hgt hl1
    refine ⟨l1.dropLast, l1.getLast hl1, l2, ?_, by simp, hgt, fun _ => ?_⟩
    · rw [List.append_cons, List.dropLast_append_getLast]
    · exact (h1 _ (List.getLast_mem hl1)).le
  cases l2 with
  | nil =>
    have hl1 : l1 ≠ [] := by simpa using hne
    have hpos : 0 < l1.length := List.length_pos_iff.2 hl1
    simpa [hpos] using back (by simp) hl1
  | cons x l2 =>
    obtain ⟨hx, -⟩ := List.pairwise_cons.1 hs2
    by_cases hk : x.key = k
    · refine ⟨l1, x, l2, rfl, by simp [hk], fun j hj => ?_, fun _ => hk.le⟩
      rw [← hk]
      exact hx j hj
    · have hkx : k < x.key := lt_of_le_of_ne (h2 x (by simp)) (Ne.symm hk)
      have hgt : ∀ j ∈ x :: l2, k < j.key := by
        intro j hj
        rcases List.mem_cons.1 hj with rfl | hj
        · exact hkx
        · exact hkx.trans (hx j hj)
      by_cases hl1 : l1 = []
      · subst hl1
        exact ⟨[], x, l2, rfl, by simp, fun j hj => hgt j (by simp [hj]), nofun⟩
      · have hpos : 0 < l1.length := List.length_pos_iff.2 hl1
        simpa [hpos, hk] using back hgt hl1

end Lists

section
variable {w : World} {g : Layout} {root n l : NodeId} {H d : Nat} {st : List ElemRef}

/-- The leaves to the left of a path hold keys below the range of its end, those to the right hold
keys above it. -/
lemma Spine.split (h : TreeOK w g root H) (hs : Spine w root H d n st) :
    ∃ pre, leaves w H root = pre ++ leaves w d n ++ leavesAbove w (d + 1) st ∧
      (∀ x ∈ pre.flatMap (contents w 0), x.1 < g.lo n) ∧
      ∀ x ∈ (leavesAbove w (d + 1) st).flatMap (contents w 0), g.hi n ≤ (x.1 : WithTop Bytes) := by
  induction hs with
  | nil => exact ⟨[], by simp [leavesAbove], by simp, by simp [leavesAbove]⟩
  | @cons d n st i x hs hi ih =>
    obtain ⟨pre, hp, hlt, hgt⟩ := ih
    have hb := h.branch n d (hs.lvl h)
    obtain ⟨hil, hx⟩ := List.getElem?_eq_some_iff.1 hi
    have e : w.inodes n = (w.inodes n).take i ++ x :: (w.inodes n).drop (i + 1) := by
      rw [← hx, List.getElem_cons_drop, List.take_append_drop]
    have hmem : x ∈ w.inodes n := List.mem_of_getElem? hi
    obtain ⟨hleft, hright⟩ := h.contents_beside (hs.lvl h) e
    refine ⟨pre ++ ((w.inodes n).take i).flatMap (fun i => leaves w d i.kid), ?_, ?_, ?_⟩
    · rw [hp, leaves]
      nth_rewrite 1 [e]
      simp [leavesAbove, List.flatMap_append]
    · simp only [List.flatMap_append, List.mem_append, List.flatMap_assoc, ← contents_eq_leaves]
      rintro y (hy | hy)
      · exact (hlt y hy).trans_le (hb.lo_le hmem)
      · exact hleft y hy
    · simp only [leavesAbove, Int.toNat_natCast, Nat.add_sub_cancel, List.flatMap_append,
        List.mem_append, List.flatMap_assoc, ← contents_eq_leaves]
      rintro y (hy | hy)
      · exact hright y hy
      · exact (hb.hi_kid x hmem).trans (hgt y hy)

lemma Spine.length_leavesAbove (h : TreeOK w g root H) (hs : Spine w root H 0 l st) :
    (leavesAbove w 1 st).length ≤ (leaves w H root).length := by
  obtain ⟨pre, hp, -, -⟩ := hs.split h
  rw [hp, List.length_append]
  exact Nat.le_add_left _ _

/-! ## Search -/

/-- The search goes down to the leaf that is responsible for the key. -/
lemma search_eq (h : TreeOK w g root H) (hx : Exact w g root) {k : Bytes}
    (hs : Spine w root H d n st) (hlo : g.lo n ≤ k) (hhi : (k : WithTop Bytes) < g.hi n) :
    ∃ l st', (∀ fuel, d < fuel → Cursor.search fuel w k (some n) st =
        .ok (⟨l, (Node.childIndex (w.inodes l) k : Nat)⟩ :: st')) ∧
      Spine w root H 0 l st' ∧ g.lo l ≤ k ∧ (k : WithTop Bytes) < g.hi l := by
  induction d generalizing n st with
  | zero =>
    refine ⟨n, st, fun fuel hf => ?_, hs, hlo, hhi⟩
    obtain ⟨j, rfl⟩ : ∃ j, fuel = j + 1 := ⟨fuel - 1, by omega⟩
    simp [Cursor.search, h.isLeaf_true (hs.lvl h)]
  | succ d ih =>
    have hn := hs.lvl h
    have hb := h.branch n d hn
    obtain ⟨l1, i, l2, hins, hidx, hgt, hle⟩ := searchIndex_split hb.sorted hb.ne k
    have hi : i ∈ w.inodes n := by simp [hins]
    have hget : (w.inodes n)[l1.length]? = some i := by simp [hins]
    have hlo' : g.lo i.kid ≤ k := by
      cases l1 with
      | nil => rwa [(hx.node n d hn).lo_first i l2 hins]
      | cons j l1 =>
        rw [(hx.node n d hn).lo_next i (by simp [hins])]
        exact hle (by simp)
    have hhi' : (k : WithTop Bytes) < g.hi i.kid := by
      cases l2 with
      | nil => rwa [(hx.node n d hn).hi_last i l1 hins]
      | cons j l2 =>
        rw [(hx.node n d hn).hi_next i j l1 l2 hins]
        exact WithTop.coe_lt_coe.2 (hgt j (by simp))
    obtain ⟨l, st', hgo, hl⟩ := ih (hs.cons hget) hlo' hhi'
    refine ⟨l, st', fun fuel hf => ?_, hl⟩
    obtain ⟨j, rfl⟩ : ∃ j, fuel = j + 1 := ⟨fuel - 1, by omega⟩
    unfold Cursor.search
    simp only [h.isLeaf_false hn, Bool.false_eq_true, if_false, hidx, hget, hb.child i hi]
    exact hgo j (by omega)

/-- Where the search for `k` ends: in the leaf `l` at the end of the path `st`, which holds the
inodes `l1` below `k` and the inodes `l2` from `k` on. -/
structure Found (w : World) (g : Layout) (root : NodeId) (H : Nat) (k : Bytes) (l : NodeId)
    (st : List ElemRef) (l1 l2 : List Inode) : Prop where
  spine : Spine w root H 0 l st
  lo : g.lo l ≤ k
  hi : (k : WithTop Bytes) < g.hi l
  inodes : w.inodes l = l1 ++ l2
  lt : ∀ i ∈ l1, i.key < k
  le : ∀ i ∈ l2, k ≤ i.key

/-- The search from the root. -/
lemma search_root (h : TreeOK w g root H) (hx : Exact w g root) (k : Bytes) :
    ∃ l st l1 l2, Found w g root H k l st l1 l2 ∧ ∀ fuel, H < fuel →
      Cursor.search fuel w k (some root) [] = .ok (⟨l, (l1.length : Nat)⟩ :: st) := by
  obtain ⟨l, st, hgo, hs, hlo, hhi⟩ := search_eq (k := k) h hx
    (.nil : Spine w root H H root []) (by rw [hx.lo_root]; exact nil_le_bytes k)
    (by rw [hx.hi_root]; exact WithTop.coe_lt_top k)
  obtain ⟨l1, l2, hins, hlt, hle⟩ := sorted_split (h.sorted (hs.lvl h)) k
  refine ⟨l, st, l1, l2, ⟨hs, hlo, hhi, hins, hlt, hle⟩, fun fuel hf => ?_⟩
  have hidx : Node.childIndex (w.inodes l) k = l1.length := by
    rw [hins]
    exact lowerBound_append hlt hle
  rw [hgo fuel hf, hidx]

namespace Found
variable {k : Bytes} {l1 l2 : List Inode}

/-- The entries before and behind the leaf. -/
lemma contents_eq (h : TreeOK w g root H) (hf : Found w g root H k l st l1 l2) :
    ∃ pre, contents w H root = pre ++ (l1.map Inode.entry ++ l2.map Inode.entry) ++
        (leavesAbove w 1 st).flatMap (contents w 0) ∧
      (∀ x ∈ pre, x.1 < k) ∧ ∀ x ∈ (leavesAbove w 1 st).flatMap (contents w 0), k < x.1 := by
  obtain ⟨pre, hp, hlt, hgt⟩ := hf.spine.split h
  refine ⟨pre.flatMap (contents w 0), ?_, fun x hx => (hlt x hx).trans_le hf.lo, fun x hx => ?_⟩
  · rw [contents_eq_leaves, hp]
    simp [leaves, contents, hf.inodes]
  · exact WithTop.coe_lt_coe.1 (hf.hi.trans_le (hgt x hx))

/-- The entry of the key, if it is there, is the one the search stands on. -/
lemma findEntry_eq (h : TreeOK w g root H) (hf : Found w g root H k l st l1 l2) :
    findEntry k (contents w H root) =
      (l2.head?.filter fun i => i.key = k).map fun i => i.value.getD [] := by
  obtain ⟨pre, hc, hlt, hgt⟩ := hf.contents_eq h
  rw [hc, findEntry_mid (fun x hx => (hlt x hx).ne) fun x hx => (hgt x hx).ne',
    findEntry_append_left]
  · cases l2 with
    | nil => rfl
    | cons i l2 =>
      have hs := h.sorted (hf.spine.lvl h)
      rw [hf.inodes, List.pairwise_append, List.pairwise_cons] at hs
      by_cases hi : i.key = k
      · simp [findEntry, Inode.entry, hi]
      · -- a smaller key would have come before
        have hgt' : ∀ j ∈ l2, j.key ≠ k := fun j hj =>
          ((lt_of_le_of_ne (hf.le i (by simp)) (Ne.symm hi)).trans (hs.2.1.1 j hj)).ne'
        simp only [List.head?_cons, Option.filter, hi, decide_false, Bool.false_eq_true, if_false,
          Option.map_none, findEntry, Option.map_eq_none_iff, List.find?_eq_none, List.mem_map]
        rintro x ⟨j, hj, rfl⟩
        rcases List.mem_cons.1 hj with rfl | hj
        · simp [Inode.entry, hi]
        · simp [Inode.entry, hgt' j hj]
  · intro x hx
    obtain ⟨i, hi, rfl⟩ := List.mem_map.1 hx
    exact (hf.lt i hi).ne

/-- The first entry from the key on. -/
lemma seekEntry_eq (h : TreeOK w g root H) (hf : Found w g root H k l st l1 l2) :
    seekEntry k (contents w H root) =
      (l2.map Inode.entry ++ (leavesAbove w 1 st).flatMap (contents w 0)).head? := by
  obtain ⟨pre, hc, hlt, hgt⟩ := hf.contents_eq h
  have hpre : ∀ x ∈ pre ++ l1.map Inode.entry, ¬ k ≤ x.1 := by
    intro x hx
    rcases List.mem_append.1 hx with hx | hx
    · exact not_le.2 (hlt x hx)
    · obtain ⟨i, hi, rfl⟩ := List.mem_map.1 hx
      exact not_le.2 (hf.lt i hi)
  have hpost : ∀ x ∈ l2.map Inode.entry ++ (leavesAbove w 1 st).flatMap (contents w 0),
      k ≤ x.1 := by
    intro x hx
    rcases List.mem_append.1 hx with hx | hx
    · obtain ⟨i, hi, rfl⟩ := List.mem_map.1 hx
      exact hf.le i hi
    · exact (hgt x hx).le
  have hnone : (pre ++ l1.map Inode.entry).find? (fun x => decide (k ≤ x.1)) = none := by
    rw [List.find?_eq_none]
    exact fun x hx => by simpa using hpre x hx
  rw [seekEntry, hc, List.append_assoc, List.append_assoc, ← List.append_assoc, List.find?_append,
    hnone, Option.none_or]
  cases hl : l2.map Inode.entry ++ (leavesAbove w 1 st).flatMap (contents w 0) with
  | nil => rfl
  | cons x xs =>
    have := hpost x (by simp [hl])
    simp [this]

end Found

/-- `seek` stands on the first entry of the responsible leaf from the key on. -/
lemma seekStack_eq (h : TreeOK w g root H) (hx : Exact w g root) (k : Bytes) :
    ∃ l st l1 l2, Found w g root H k l st l1 l2 ∧ ∀ fuel, H < fuel →
      Cursor.seekStack fuel w (some root) k =
        .ok (itemOf (l2.map Inode.entry).head?, ⟨l, (l1.length : Nat)⟩ :: st) := by
  obtain ⟨l, st, l1, l2, hf, hgo⟩ := search_root h hx k
  refine ⟨l, st, l1, l2, hf, fun fuel hfuel => ?_⟩
  have hget : (contents w 0 l)[l1.length]? = (l2.map Inode.entry).head? := by
    cases l2 <;> simp [contents, hf.inodes]
  unfold Cursor.seekStack
  rw [hgo fuel hfuel, Outcome.ok_bind, keyValue_eq h (hf.spine.lvl h), hget]
  rfl

end

end Vmbolt
