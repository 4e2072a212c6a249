import Vmbolt.Tree.Path

/-!
# Exact ranges for a spilled tree

The ranges of a layout only have to be sound while a commit is at work. When every node stands under
its first key again, the tree has a layout with exact ranges: a child starts at its key, but the
first child of a branch starts where the branch does, and it ends where the next one starts or where
the branch ends.
-/

namespace Vmbolt

/-- The key behind the inode for `n`. -/
def nextKey : List Inode → NodeId → Option Bytes
  | i :: j :: l, n => if i.kid = n then some j.key else nextKey (j :: l) n
  | _, _ => none

/-- Where the range of a node starts that stands `k` levels below the root. -/
def exactLo (w : World) (g : Layout) : Nat → NodeId → Bytes
  | 0, _ => []
  | k + 1, n =>
    if (w.inodes (g.par n)).head?.map Inode.kid = some n then exactLo w g k (g.par n)
      else (w.nodes n).key

/-- Where the range of a node ends that stands `k` levels below the root. -/
def exactHi (w : World) (g : Layout) : Nat → NodeId → WithTop Bytes
  | 0, _ => ⊤
  | k + 1, n =>
    match nextKey (w.inodes (g.par n)) n with
    | some key => key
    | none => exactHi w g k (g.par n)

/-- The layout with exact ranges for a tree of height `H`. -/
def Layout.exact (g : Layout) (w : World) (H : Nat) : Layout :=
  { g with
    lo := fun n => exactLo w g (H - (g.lvl n).getD 0) n
    hi := fun n => exactHi w g (H - (g.lvl n).getD 0) n }

section
variable {w : World} {g : Layout} {r n p : NodeId} {H d : Nat} {i j : Inode} {l l1 l2 : List Inode}

lemma nextKey_append (h : ∀ a ∈ l1, a.kid ≠ i.kid) :
    nextKey (l1 ++ i :: j :: l2) i.kid = some j.key := by
  induction l1 with
  | nil => simp [nextKey]
  | cons a l1 ih =>
    have ha : a.kid ≠ i.kid := h a (by simp)
    have ih := ih fun b hb => h b (by simp [hb])
    cases l1 with
    | nil => simp [nextKey, ha]
    | cons b l1 => simpa [nextKey, ha] using ih

lemma nextKey_last (h : ∀ a ∈ l1, a.kid ≠ i.kid) : nextKey (l1 ++ [i]) i.kid = none := by
  induction l1 with
  | nil => rfl
  | cons a l1 ih =>
    have ha : a.kid ≠ i.kid := h a (by simp)
    have ih := ih fun b hb => h b (by simp [hb])
    cases l1 with
    | nil => simp [nextKey, ha]
    | cons b l1 => simpa [nextKey, ha] using ih

namespace TreeOK
variable (h : TreeOK w g r H)
include h

/-- The children are distinct. -/
lemma kid_before (hn : g.lvl n = some (d + 1)) (hins : w.inodes n = l1 ++ i :: l2) :
    ∀ a ∈ l1, a.kid ≠ i.kid :=
  fun a ha => h.kid_ne hn hins a (by simp [ha])

lemma exact_lo_root : (g.exact w H).lo r = [] := by
  simp [Layout.exact, h.lvl_root, exactLo]

lemma exact_hi_root : (g.exact w H).hi r = ⊤ := by
  simp [Layout.exact, h.lvl_root, exactHi]

section
variable (hn : g.lvl n = some (d + 1))
include hn

/-- The fuel for a child. -/
lemma sub_kid : H - d = H - (d + 1) + 1 := by
  have := h.le_height hn
  omega

/-- The first child starts where the branch does. -/
lemma exact_lo_head (hins : w.inodes n = i :: l) : (g.exact w H).lo i.kid = (g.exact w H).lo n := by
  have hi : i ∈ w.inodes n := by simp [hins]
  have hb := h.branch n d hn
  simp only [Layout.exact, hb.lvl i hi, hn, Option.getD_some]
  rw [h.sub_kid hn, exactLo, hb.par i hi, hins]
  simp

/-- The other children start at their keys. -/
lemma exact_lo_tail (hins : w.inodes n = j :: l) (hi : i ∈ l) : (g.exact w H).lo i.kid = i.key := by
  have him : i ∈ w.inodes n := by simp [hins, hi]
  have hb := h.branch n d hn
  have hne : j.kid ≠ i.kid := by
    obtain ⟨l1, l2, rfl⟩ := List.append_of_mem hi
    exact h.kid_before hn (show w.inodes n = (j :: l1) ++ i :: l2 from hins) j (by simp)
  simp only [Layout.exact, hb.lvl i him, Option.getD_some]
  rw [h.sub_kid hn, exactLo, hb.par i him, hins, if_neg (by simpa using hne), hb.key i him]

/-- A child ends where the next one starts. -/
lemma exact_hi_next (hins : w.inodes n = l1 ++ i :: j :: l2) : (g.exact w H).hi i.kid = j.key := by
  have him : i ∈ w.inodes n := by simp [hins]
  have hb := h.branch n d hn
  simp only [Layout.exact, hb.lvl i him, Option.getD_some]
  rw [h.sub_kid hn, exactHi, hb.par i him, hins, nextKey_append (h.kid_before hn hins)]

/-- The last child ends where the branch does. -/
lemma exact_hi_last (hins : w.inodes n = l1 ++ [i]) :
    (g.exact w H).hi i.kid = (g.exact w H).hi n := by
  have him : i ∈ w.inodes n := by simp [hins]
  have hb := h.branch n d hn
  simp only [Layout.exact, hb.lvl i him, hn, Option.getD_some]
  rw [h.sub_kid hn, exactHi, hb.par i him, hins, nextKey_last (h.kid_before hn hins)]

end

/-- A property of the nodes that passes from a branch to its children holds in the whole tree. -/
lemma down_induction {P : NodeId → Prop} (hr : P r)
    (hstep : ∀ n d, g.lvl n = some (d + 1) → P n → ∀ i ∈ w.inodes n, P i.kid)
    (hn : g.lvl n = some d) : P n := by
  induction k : H - d generalizing n d with
  | zero =>
    have := h.le_height hn
    obtain rfl : d = H := by omega
    rw [h.eq_root hn]
    exact hr
  | succ k ih =>
    have hnr : n ≠ r := h.ne_root hn (by omega)
    obtain ⟨-, hpl, i, hi, rfl⟩ := h.up n d hn hnr
    exact hstep _ d hpl (ih hpl (by omega)) i hi

/-- The exact ranges contain the given ones. -/
lemma exact_range (hn : g.lvl n = some d) :
    (g.exact w H).lo n ≤ g.lo n ∧ g.hi n ≤ (g.exact w H).hi n := by
  refine h.down_induction (P := fun n => (g.exact w H).lo n ≤ g.lo n ∧ g.hi n ≤ (g.exact w H).hi n)
    ⟨by rw [h.exact_lo_root]; exact nil_le_bytes _, by rw [h.exact_hi_root]; exact le_top⟩
    (fun n d hn hP i hi => ?_) hn
  have hb := h.branch n d hn
  obtain ⟨j, l, hjl⟩ := List.exists_cons_of_ne_nil hb.ne
  obtain ⟨l1, l2, hl⟩ := List.append_of_mem hi
  constructor
  · rcases List.mem_cons.1 (hjl ▸ hi) with rfl | hil
    · rw [h.exact_lo_head hn hjl]
      by_cases e : g.lo n = []
      · rw [e] at hP
        exact hP.1.trans (nil_le_bytes _)
      · exact hP.1.trans ((hb.lo i hi).trans (hb.lo_all e i hi))
    · rw [h.exact_lo_tail hn hjl hil]
      exact hb.lo_tail i (by rw [hjl]; exact hil)
  · cases l2 with
    | nil =>
      rw [h.exact_hi_last hn hl]
      exact (hb.hi_kid i hi).trans hP.2
    | cons a l2 =>
      rw [h.exact_hi_next hn hl]
      have := hb.hi_next
      rw [hl, List.pairwise_append, List.pairwise_cons] at this
      exact this.2.1.1 a (by simp)

/-- A node that does not stand at the left edge starts at its key. -/
lemma exact_lo_cases (hf : ∀ n d, g.lvl n = some d → n ≠ r → FirstKey w n) (hn : g.lvl n = some d) :
    (g.exact w H).lo n = [] ∨ (g.exact w H).lo n = (w.nodes n).key := by
  refine h.down_induction
    (P := fun n => (g.exact w H).lo n = [] ∨ (g.exact w H).lo n = (w.nodes n).key)
    (.inl h.exact_lo_root) (fun n d hn hP i hi => ?_) hn
  have hb := h.branch n d hn
  obtain ⟨j, l, hjl⟩ := List.exists_cons_of_ne_nil hb.ne
  rcases List.mem_cons.1 (hjl ▸ hi) with rfl | hil
  · rw [h.exact_lo_head hn hjl]
    rcases hP with e | e
    · exact .inl e
    · by_cases hnr : n = r
      · rw [hnr, h.exact_lo_root]
        exact .inl rfl
      · obtain ⟨a, l', hal, hkey⟩ := hf n _ hn hnr
        rw [hjl] at hal
        cases hal
        exact .inr (e.trans (hkey.trans (hb.key i hi).symm))
  · exact .inr ((h.exact_lo_tail hn hjl hil).trans (hb.key i hi).symm)

/-- A child ends before all later ones start. -/
lemma exact_hi_pairwise (hn : g.lvl n = some (d + 1)) (hins : w.inodes n = l1 ++ l2) :
    l2.Pairwise fun i j => (g.exact w H).hi i.kid ≤ j.key := by
  have hs := (List.pairwise_append.1 (hins ▸ (h.branch n d hn).sorted)).2.1
  induction l2 generalizing l1 with
  | nil => exact .nil
  | cons a l2 ih =>
    refine List.pairwise_cons.2
      ⟨fun c hc => ?_, ih (show w.inodes n = (l1 ++ [a]) ++ l2 by simp [hins])
      (List.pairwise_cons.1 hs).2⟩
    cases l2 with
    | nil => cases hc
    | cons b l2 =>
      rw [h.exact_hi_next hn hins, WithTop.coe_le_coe]
      rcases List.mem_cons.1 hc with rfl | hc
      · exact le_rfl
      · exact ((List.pairwise_cons.1 (List.pairwise_cons.1 hs).2).1 c hc).le

/-- The exact ranges are sound. -/
lemma exact (hf : ∀ n d, g.lvl n = some d → n ≠ r → FirstKey w n) : TreeOK w (g.exact w H) r H := by
  refine ⟨h.lvl_root, h.alloc, h.isLeaf, fun n hn => ?_, fun n d hn => ?_, h.up⟩
  · have hl := h.leaf n hn
    obtain ⟨hlo, hhi⟩ := h.exact_range hn
    exact ⟨hl.sorted, hl.entry, fun i hi => hlo.trans (hl.lo i hi),
      fun i hi => (hl.hi i hi).trans_le hhi⟩
  · have hb := h.branch n d hn
    obtain ⟨hlo, hhi⟩ := h.exact_range (n := n) hn
    have hlt : ∀ i ∈ w.inodes n, (i.key : WithTop Bytes) < (g.exact w H).hi n :=
      fun i hi => (hb.hi i hi).trans_le hhi
    obtain ⟨j, l, hjl⟩ := List.exists_cons_of_ne_nil hb.ne
    refine ⟨hb.ne, hb.sorted, hb.key_ne, hb.value, hb.child, hb.lvl, hb.par, hb.key,
      fun i hi => hlo.trans (hb.lo i hi), hlt, fun i hi => ?_, ?_, fun i hi => ?_,
      fun hne i hi => ?_⟩
    · obtain ⟨l1, l2, hl⟩ := List.append_of_mem hi
      cases l2 with
      | nil => exact (h.exact_hi_last hn hl).le
      | cons a l2 =>
        rw [h.exact_hi_next hn hl]
        exact (hlt a (by simp [hl])).le
    · exact h.exact_hi_pairwise hn (List.nil_append _).symm
    · rw [hjl] at hi
      exact (h.exact_lo_tail hn hjl hi).ge
    · rcases List.mem_cons.1 (hjl ▸ hi) with rfl | hil
      · rw [h.exact_lo_head hn hjl]
        have hnr : n ≠ r := by
          rintro rfl
          exact hne h.exact_lo_root
        obtain ⟨a, l', hal, hkey⟩ := hf n _ hn hnr
        rw [hjl] at hal
        cases hal
        rw [((h.exact_lo_cases hf hn).resolve_left hne), hkey]
      · exact (h.exact_lo_tail hn hjl hil).ge

/-- A tree in which every node stands under its first key is as a commit leaves it. -/
lemma committed (hf : ∀ n d, g.lvl n = some d → n ≠ r → FirstKey w n)
    (htwo : ∀ n d, g.lvl n = some (d + 1) → 2 ≤ (w.inodes n).length) :
    Committed w (g.exact w H) r H := by
  refine ⟨h.exact hf,
    ⟨h.exact_lo_root, h.exact_hi_root, fun n d hn => ⟨fun i l e => ?_, fun i hi => ?_,
    fun i l e => ?_, fun i j l1 l2 e => ?_⟩⟩, htwo, hf⟩
  · exact h.exact_lo_head hn e
  · obtain ⟨j, l, hjl⟩ := List.exists_cons_of_ne_nil (h.branch n d hn).ne
    rw [hjl] at hi
    exact h.exact_lo_tail hn hjl hi
  · exact h.exact_hi_last hn e
  · exact h.exact_hi_next hn e

end TreeOK

end

end Vmbolt
