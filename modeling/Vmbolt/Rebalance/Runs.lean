import Vmbolt.Rebalance.Visit
import Vmbolt.Tree.Carry

/-!
# Runs of leaves

The condition on a tree under which rebalancing is safe, as a test that can be run: the leaves that
are not empty are listed from left to right, one list for each parent, and the first one of a list
must not be underfull together with the leaf that comes next, in the same list or in a later one. A
tree that passes is `Spaced`, whatever its ranges are.
-/

namespace Vmbolt

/-- The leaves that are not empty, in order, one list for each of their parents. -/
def leafRuns (w : World) : Nat → NodeId → List (List NodeId)
  | 0, _ => []
  | 1, n => [((w.inodes n).map Inode.kid).filter fun m => !(w.inodes m).isEmpty]
  | d + 2, n => (w.inodes n).flatMap fun i => leafRuns w (d + 1) i.kid

/-- No list starts with an underfull leaf before another one. -/
def runsFit (w : World) (b : BucketId) : List (List NodeId) → Bool
  | [] => true
  | [] :: rs => runsFit w b rs
  | (n :: l) :: rs =>
    (!decide (Underfull w b n) || (l ++ rs.flatten).head?.all fun m => !decide (Underfull w b m)) &&
      runsFit w b rs

/-- No first child under `r` is underfull together with the leaf that comes next. -/
def rebalanceFits (w : World) (b : BucketId) (H : Nat) (r : NodeId) : Bool :=
  runsFit w b (leafRuns w H r)

section
variable {w : World} {b : BucketId} {g : Layout} {r n p m : NodeId} {H d e : Nat} {i : Inode}
  {l l1 l2 : List Inode}

/-- What the children hand up to their parents reaches the root. -/
lemma TreeOK.up_induction (h : TreeOK w g r H) {P : Nat → NodeId → Prop}
    (hup : ∀ n d, g.lvl n = some (d + 1) → ∀ i ∈ w.inodes n, e ≤ d → P d i.kid → P (d + 1) n)
    (hn : g.lvl n = some e) (hP : P e n) : P H r := by
  have hclimb : ∀ k d n, d + k = H → e ≤ d → g.lvl n = some d → P d n → P H r := by
    intro k
    induction k with
    | zero =>
      rintro d n rfl - hn hP
      rwa [← h.eq_root hn]
    | succ k ih =>
      intro d n hd hle hn hP
      obtain ⟨-, hp, i, hi, rfl⟩ := h.up n d hn (h.ne_root hn (by omega))
      exact ih (d + 1) _ (by omega) (by omega) hp (hup _ d hp i hi hle hP)
  have hle := h.le_height hn
  exact hclimb (H - e) e n (by omega) le_rfl hn hP

/-- Every leaf of the tree is found from the root. -/
lemma TreeOK.mem_leaves (h : TreeOK w g r H) (hn : g.lvl n = some 0) : n ∈ leaves w H r := by
  refine h.up_induction (P := fun d m => n ∈ leaves w d m) (fun p d _ i hi _ hmem => ?_) hn
    List.mem_cons_self
  exact List.mem_flatMap.2 ⟨i, hi, hmem⟩

/-- The run of every parent of leaves is found from the root. -/
lemma TreeOK.run_mem (h : TreeOK w g r H) (hp : g.lvl p = some 1) :
    ((w.inodes p).map Inode.kid).filter (fun m => !(w.inodes m).isEmpty) ∈ leafRuns w H r := by
  refine h.up_induction
    (P := fun d m => ((w.inodes p).map Inode.kid).filter (fun m => !(w.inodes m).isEmpty) ∈
    leafRuns w d m) (fun q d _ i hi hle hmem => ?_) hp List.mem_cons_self
  obtain ⟨d, rfl⟩ : ∃ d', d = d' + 1 := ⟨d - 1, by omega⟩
  exact List.mem_flatMap.2 ⟨i, hi, hmem⟩

/-- Together the runs are the leaves that are not empty. -/
lemma flatten_leafRuns (w : World) (d : Nat) (n : NodeId) :
    (leafRuns w (d + 1) n).flatten = (leaves w (d + 1) n).filter fun m =>
      !(w.inodes m).isEmpty := by
  induction d generalizing n with
  | zero =>
    simp only [leafRuns, leaves, List.flatten_cons, List.flatten_nil, List.append_nil,
      List.map_eq_flatMap]
  | succ d ih =>
    have hflat : ∀ l : List Inode, (l.flatMap fun i => leafRuns w (d + 1) i.kid).flatten =
        (l.flatMap fun i => leaves w (d + 1) i.kid).filter fun m => !(w.inodes m).isEmpty := by
      intro l
      induction l with
      | nil => rfl
      | cons i l ihl =>
        rw [List.flatMap_cons, List.flatten_append, List.flatMap_cons, List.filter_append, ih, ihl]
    exact hflat _

/-- The leaves that are not empty are sorted by their first keys. -/
lemma TreeOK.runs_sorted (h : TreeOK w g r (H + 1)) :
    (leafRuns w (H + 1) r).flatten.Pairwise fun n m =>
      firstKey (w.inodes n) < firstKey (w.inodes m) := by
  have hs := h.contents_sorted h.lvl_root
  rw [contents_eq_leaves, List.pairwise_flatMap] at hs
  rw [flatten_leafRuns, List.pairwise_filter]
  refine hs.2.imp fun hnm hn hm => ?_
  obtain ⟨i, hi, hkey⟩ := exists_firstKey (x := w.inodes _) (by simpa using hn)
  obtain ⟨j, hj, hkey'⟩ := exists_firstKey (x := w.inodes _) (by simpa using hm)
  rw [← hkey, ← hkey']
  exact hnm i.entry (List.mem_map_of_mem hi) j.entry (List.mem_map_of_mem hj)

lemma TreeOK.mem_runs (h : TreeOK w g r (H + 1)) :
    n ∈ (leafRuns w (H + 1) r).flatten ↔ g.lvl n = some 0 ∧ w.inodes n ≠ [] := by
  rw [flatten_leafRuns, List.mem_filter]
  refine ⟨fun ⟨h1, h2⟩ => ⟨h.lvl_of_mem_leaves h.lvl_root h1, by simpa using h2⟩, fun ⟨h1, h2⟩ =>
    ⟨h.mem_leaves h1, by simpa using h2⟩⟩

/-- A leaf that leads stands at the front of its run. -/
lemma TreeOK.leads_run (h : TreeOK w g r H) (hl : Leads w g n) (hne : w.inodes n ≠ []) :
    ∃ l, n :: l ∈ leafRuns w H r := by
  obtain ⟨p, l1, i, l2, hp, hins, rfl, hempty⟩ := hl
  have hmem := h.run_mem hp
  have hfront : (l1.map Inode.kid).filter (fun m => !(w.inodes m).isEmpty) = [] := by
    rw [List.filter_eq_nil_iff]
    intro m hm
    obtain ⟨j, hj, rfl⟩ := List.mem_map.1 hm
    simp [hempty j hj]
  rw [hins, List.map_append, List.map_cons, List.filter_append, hfront, List.nil_append,
    List.filter_cons_of_pos (by simpa using hne)] at hmem
  exact ⟨_, hmem⟩

/-- The leaf behind an underfull one that stands at the front. -/
lemma next_of_runsFit {rs1 rs2 : List (List NodeId)} {t : List NodeId}
    (h : runsFit w b (rs1 ++ (n :: t) :: rs2) = true) (hn : Underfull w b n)
    (hm : m ∈ (t ++ rs2.flatten).head?) : ¬ Underfull w b m := by
  induction rs1 with
  | nil =>
    rw [List.nil_append, runsFit, Bool.and_eq_true, Bool.or_eq_true] at h
    have := h.1.resolve_left (by simpa using hn)
    rw [Option.mem_def.1 hm] at this
    simpa using this
  | cons x rs1 ih =>
    cases x with
    | nil => exact ih h
    | cons y x =>
      rw [List.cons_append, runsFit, Bool.and_eq_true] at h
      exact ih h.2

/-- A tree that passes the test is spaced. -/
lemma TreeOK.spaced (h : TreeOK w g r H) (hf : rebalanceFits w b H r = true) : Spaced w b g := by
  rintro k ⟨n, hn, hne, ⟨hu, hl⟩, rfl⟩ k' ⟨n', hn', hne', hu', rfl⟩ hlt
  obtain ⟨t, hrun⟩ := h.leads_run hl hne
  cases H with
  | zero => cases hrun
  | succ H =>
  obtain ⟨rs1, rs2, hrs⟩ := List.append_of_mem hrun
  have hsort := h.runs_sorted
  have hmem := h.mem_runs.2 ⟨hn', hne'⟩
  rw [hrs, List.flatten_append, List.flatten_cons, List.cons_append] at hsort hmem
  rw [List.pairwise_append, List.pairwise_cons] at hsort
  obtain ⟨-, ⟨hbehind, hsort⟩, hfront⟩ := hsort
  -- the other leaf comes later
  have hlater : n' ∈ t ++ rs2.flatten := by
    rcases List.mem_append.1 hmem with h1 | h1
    · exact absurd hlt (lt_asymm (hfront n' h1 n List.mem_cons_self))
    · rcases List.mem_cons.1 h1 with rfl | h1
      · exact absurd hlt (lt_irrefl _)
      · exact h1
  obtain ⟨m, rest, hrest⟩ := List.exists_cons_of_ne_nil (List.ne_nil_of_mem hlater)
  have hum : ¬ Underfull w b m := by
    unfold rebalanceFits at hf
    rw [hrs] at hf
    exact next_of_runsFit hf hu (by rw [hrest]; rfl)
  have hm : g.lvl m = some 0 ∧ w.inodes m ≠ [] := by
    refine h.mem_runs.1 ?_
    rw [hrs, List.flatten_append, List.flatten_cons, List.cons_append, hrest]
    simp
  rw [hrest] at hlater hbehind hsort
  refine ⟨_, ⟨m, hm.1, hm.2, hum, rfl⟩, hbehind m List.mem_cons_self, ?_⟩
  rcases List.mem_cons.1 hlater with rfl | hlater
  · exact absurd hu' hum
  · exact (List.pairwise_cons.1 hsort).1 n' hlater

end

end Vmbolt
