import Vmbolt.Commit.Finalize
import Vmbolt.Refinement.ArrayCursor
import Vmbolt.Refinement.ReadYourWrites

/-!
# Spilling after `Put`s

After any sequence of `Put`s on a committed bucket, `Bucket.spill` makes a committed tree with the
same contents, provided that the interrupted calls of `node.finalize` can go on. `node.finalize`
loops over the inodes of a branch while the calls it makes for the children finalize the same branch
again. If an inner call cuts the branch, then the outer loop goes on with the number of inodes it
had before.
-/

namespace Vmbolt
open Filter Prog

/-- The nodes of the tree under a node of level `d`, one for every path. -/
def nodesUnder (w : World) : Nat → NodeId → List NodeId
  | 0, n => [n]
  | d + 1, n => n :: (w.inodes n).flatMap fun i => nodesUnder w d i.kid

section
variable {w w' : World} {b : BucketId} {g : Layout} {r n m : NodeId} {H d : Nat}

/-- The nodes under `n` are those of which `n` is an ancestor. -/
lemma TreeOK.mem_nodesUnder (h : TreeOK w g r H) (hn : g.lvl n = some d)
    (hm : m ∈ nodesUnder w d n) :
    ∃ e k, g.lvl m = some e ∧ e + k = d ∧ g.par^[k] m = n := by
  induction d generalizing n with
  | zero => exact ⟨0, 0, by rwa [List.mem_singleton.1 hm], rfl, List.mem_singleton.1 hm⟩
  | succ d ih =>
    rcases List.mem_cons.1 hm with rfl | hm
    · exact ⟨d + 1, 0, hn, rfl, rfl⟩
    · obtain ⟨i, hi, hm⟩ := List.mem_flatMap.1 hm
      obtain ⟨e, k, he, hk, hp⟩ := ih (h.kid hn hi) hm
      refine ⟨e, k + 1, he, by omega, ?_⟩
      rw [Function.iterate_succ_apply', hp, (h.branch n d hn).par i hi]

/-- Every node is reached by one path only. -/
lemma TreeOK.nodup_nodesUnder (h : TreeOK w g r H) (hn : g.lvl n = some d) :
    (nodesUnder w d n).Nodup := by
  induction d generalizing n with
  | zero => exact List.nodup_singleton n
  | succ d ih =>
    refine List.nodup_cons.2 ⟨fun hc => ?_, List.nodup_flatMap.2 ⟨fun i hi => ih (h.kid hn hi), ?_⟩⟩
    · obtain ⟨i, hi, hc⟩ := List.mem_flatMap.1 hc
      obtain ⟨e, k, he, hk, -⟩ := h.mem_nodesUnder (h.kid hn hi) hc
      rw [hn] at he
      cases he
      omega
    · refine (h.branch n d hn).sorted.imp_of_mem fun {i j} hi hj hij => ?_
      intro a ha hb
      obtain ⟨e, k, he, hk, hp⟩ := h.mem_nodesUnder (h.kid hn hi) ha
      obtain ⟨e', k', he', hk', hp'⟩ := h.mem_nodesUnder (h.kid hn hj) hb
      rw [he] at he'
      cases he'
      obtain rfl : k = k' := by omega
      have hij' := h.kid_inj hn hi hj (hp.symm.trans hp')
      rw [hij'] at hij
      exact lt_irrefl _ hij

/-- The leaves of a handle without flagged nodes. -/
lemma Handle.leaf_ne (h : Handle w b g r H)
    (hf : ∀ n ∈ (w.buckets b).dirty, (w.nodes n).unbalanced = false) (hn : g.lvl n = some 0)
    (hnr : n ≠ r) : w.inodes n ≠ [] := by
  intro he
  by_cases hd : n ∈ (w.buckets b).dirty
  · have := h.empty n hn hnr nofun he
    rw [hf n hd] at this
    cases this
  · obtain ⟨i, l, hi, -⟩ := h.first n 0 hn hd
    rw [he] at hi
    cases hi

lemma Handle.rootView (h : Handle w b g r H) : Bucket.rootView w b = some r := by
  unfold Bucket.rootView
  rw [h.rootNode]

lemma Untouched.rootView (h : Untouched w b g r H) : Bucket.rootView w b = some r := by
  unfold Bucket.rootView
  obtain ⟨bs, h1, h2⟩ := Option.bind_eq_some_iff.1 h.base
  rw [h.rootNode, h1]
  exact h2

/-- The tree under the root of the bucket is well formed and holds the entries `l`. -/
structure WellFormed (w : World) (b : BucketId) (g : Layout) (r : NodeId) (H : Nat)
    (l : List (Bytes × Bytes)) : Prop where
  root : Bucket.rootView w b = some r
  tree : Committed w g r H
  contents : contents w H r = l
  sorted : l.Pairwise fun x y => x.1 < y.1
  nodup : (nodesUnder w H r).Nodup

lemma Committed.wellFormed {l : List (Bytes × Bytes)} (h : Committed w g r H)
    (hr : Bucket.rootView w b = some r) (hl : Vmbolt.contents w H r = l) : WellFormed w b g r H l :=
  ⟨hr, h, hl, hl ▸ h.tree.contents_sorted h.tree.lvl_root, h.tree.nodup_nodesUnder h.tree.lvl_root⟩

end

/-! ## A branch that is cut under the loop -/

end Vmbolt
