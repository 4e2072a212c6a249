import Vmbolt.Commit.Phases
import Vmbolt.Rebalance.Runs
import Vmbolt.Refinement.SpillTree

/-!
# `Bucket.rebalance`

The loop over the nodes of the working set, in whatever order Go ranges over it. Every visit takes
one flag away and sets none, so when the loop has met all of the nodes that were there at its start
nothing is flagged, although the nodes that the visits copied on the way need not be met. Without
flags no leaf is empty and no branch has a single child, which is what `Bucket.spill` asks for.

The loop goes wrong when a first child takes over a leaf that is underfull itself: the leaf is still
to be visited, and its visit merges its entries once more. `LoopFits` says that this does not happen
on the way; in a `Spaced` tree it does not happen in any order.
-/

namespace Vmbolt
open Filter Prog

/-- `Bucket.rebalance` has taken the tree of the handle from `w` to `w'`. -/
structure Rebalanced (w : World) (b : BucketId) (r : NodeId) (H : Nat) (w' : World) (g' : Layout)
    (H' : Nat) : Prop where
  handle : HandleBut w' b g' r H' none
  unflagged : ∀ n ∈ (w'.buckets b).dirty, (w'.nodes n).unbalanced = false
  contents : contents w' H' r = contents w H r
  quiet : Quiet b w w'

/-- The tree under the root of the bucket is balanced and holds the entries `l`: no leaf is empty,
unless it is the only one, every branch has two children, and nothing is left to be rebalanced. -/
structure Balanced (w : World) (b : BucketId) (g : Layout) (r : NodeId) (H : Nat)
    (l : List (Bytes × Bytes)) : Prop where
  root : Bucket.rootView w b = some r
  tree : TreeOK w g r H
  contents : contents w H r = l
  sorted : l.Pairwise fun x y => x.1 < y.1
  nodup : (nodesUnder w H r).Nodup
  leaf_ne : ∀ n, g.lvl n = some 0 → n ≠ r → w.inodes n ≠ []
  two : ∀ n d, g.lvl n = some (d + 1) → 2 ≤ (w.inodes n).length
  unflagged : ∀ n ∈ (w.buckets b).dirty, (w.nodes n).unbalanced = false

/-- In the state in which the loop over `order` comes to a node, the visit to it fits. -/
def LoopFits (b : BucketId) : List NodeId → World → Prop
  | [], _ => True
  | n :: order, w => VisitFits w b n ∧
      ∀ v, Evals (fun k => Bucket.rebalance k b [n]) w () v → LoopFits b order v

section
variable {w w' w1 : World} {b : BucketId} {g g' : Layout} {r n : NodeId} {H H' : Nat}
  {order : List NodeId}

/-- The first visit is run, and the rest is looked at behind it. -/
lemma LoopFits.cons {k : Nat} (hv : VisitFits w b n)
    (hrun : (Bucket.rebalance k b [n] w).1 = .ok ())
    (h : LoopFits b order (Bucket.rebalance k b [n] w).2) : LoopFits b (n :: order) w := by
  refine ⟨hv, fun v e => ?_⟩
  obtain ⟨-, rfl⟩ := e.unique ((rebalance_growing b [n]).evals_of_fst hrun)
  exact h

/-- The loop visits one node and goes on. -/
lemma rebalance_cons (h1 : Evals (fun k => Bucket.rebalance k b [n]) w () w1)
    (h2 : Evals (fun k => Bucket.rebalance k b order) w1 () w') :
    Evals (fun k => Bucket.rebalance k b (n :: order)) w () w' := by
  filter_upwards [h1, h2] with k hk1 hk2
  obtain ⟨_, v, hv, hk1⟩ := Prog.bind_eq_ok hk1
  cases hk1
  exact (Prog.bind_ok hv).trans hk2

/-- One visit of the loop. -/
lemma Rebalancing.visitOne (h : Rebalancing w b g r H none) (hfits : VisitFits w b n) :
    ∃ w' g' H', Evals (fun k => Bucket.rebalance k b [n]) w () w' ∧
      Tidied b r n w g H w' g' H' := by
  by_cases hn : n ∈ (w.buckets b).dirty
  · obtain ⟨w1, g1, H1, e1, ht⟩ := h.visit hfits hn
    refine ⟨w1, g1, H1, e1.mono fun k hk => ?_, ht⟩
    have hvisit :
        (bucketOf b >>= fun bk => if n ∈ bk.dirty then Node.rebalance k n else pure ()) w =
        (.ok (), w1) := by
      unfold bucketOf
      rw [Prog.read_bind, if_pos hn]
      exact hk
    exact Prog.bind_ok hvisit
  · -- a node that is going to be added, or none of this handle
    refine ⟨w, g, H, .of_forall fun k => ?_, h, id, rfl, .refl b w, fun m hm hf => ⟨?_, hm, hf⟩⟩
    · have hskip :
          (bucketOf b >>= fun bk => if n ∈ bk.dirty then Node.rebalance k n else pure ()) w =
          (.ok (), w) := by
        unfold bucketOf
        rw [Prog.read_bind, if_neg hn]
        rfl
      exact Prog.bind_ok hskip
    · rintro rfl
      exact hn hm

/-- In a spaced tree every order fits. -/
lemma Rebalancing.loopFits (h : Rebalancing w b g r H none) (hsp : Spaced w b g)
    (order : List NodeId) : LoopFits b order w := by
  induction order generalizing w g H with
  | nil => trivial
  | cons n order ih =>
    refine ⟨h.visitFits hsp, fun v e => ?_⟩
    obtain ⟨w1, g1, H1, e1, ht⟩ := h.visitOne (h.visitFits hsp)
    obtain ⟨-, rfl⟩ := e.unique e1
    exact ih ht.rebalancing (ht.spaced hsp)

/-- The loop, if it meets every flagged node. -/
lemma Rebalancing.sweep (h : Rebalancing w b g r H none) (hfits : LoopFits b order w)
    (hall : ∀ n ∈ (w.buckets b).dirty, (w.nodes n).unbalanced = true → n ∈ order) :
    ∃ w' g' H', Evals (fun k => Bucket.rebalance k b order) w () w' ∧
      Rebalanced w b r H w' g' H' := by
  induction order generalizing w g H with
  | nil =>
    refine ⟨w, g, H, .pure, h.toHandleBut, fun n hn => ?_, rfl, .refl b w⟩
    by_contra hf
    exact List.not_mem_nil (hall n hn (by simpa using hf))
  | cons n order ih =>
    obtain ⟨w1, g1, H1, e1, ht⟩ := h.visitOne hfits.1
    obtain ⟨w2, g2, H2, e2, h2⟩ := ih ht.rebalancing (hfits.2 w1 e1) fun m hm hf => by
      obtain ⟨hmn, hm, hf⟩ := ht.flags m hm hf
      exact (List.mem_cons.1 (hall m hm hf)).resolve_left hmn
    exact ⟨w2, g2, H2, rebalance_cons e1 e2, h2.handle, h2.unflagged,
      h2.contents.trans ht.contents, ht.quiet.trans h2.quiet⟩

/-- `Bucket.rebalance` of a handle that was not written. -/
lemma Untouched.rebalance (h : Untouched w b g r H) (order : List NodeId) :
    Evals (fun k => Bucket.rebalance k b order) w () w := by
  refine Evals.step .pure fun k => rebalance_unflagged (fun n hn => ?_) k order
  rw [h.dirty] at hn
  cases hn

lemma Untouched.loopFits (h : Untouched w b g r H) (order : List NodeId) : LoopFits b order w := by
  induction order with
  | nil => trivial
  | cons n order ih =>
    refine ⟨fun hu => ?_, fun v e => ?_⟩
    · rw [Underfull, h.dirty] at hu
      cases hu.1
    · obtain ⟨-, rfl⟩ := e.unique (h.rebalance [n])
      exact ih

/-- Without flags no leaf is empty. -/
lemma Rebalanced.leaf_ne (h : Rebalanced w b r H w' g' H') (hn : g'.lvl n = some 0) (hnr : n ≠ r) :
    w'.inodes n ≠ [] := by
  intro he
  by_cases hd : n ∈ (w'.buckets b).dirty
  · have := h.handle.empty n hn hnr (by rintro ⟨⟩) he
    rw [h.unflagged n hd] at this
    cases this
  · obtain ⟨i, l, hi, -⟩ := h.handle.first n 0 hn hd
    rw [he] at hi
    cases hi

lemma Rebalanced.balanced (h : Rebalanced w b r H w' g' H') :
    Balanced w' b g' r H' (Vmbolt.contents w H r) := by
  have ht := h.handle.tree
  refine ⟨?_, ht, h.contents, ?_, ht.nodup_nodesUnder ht.lvl_root, fun n hn hnr => h.leaf_ne hn hnr,
    fun n d hn => h.handle.two n d hn (by rintro ⟨⟩), h.unflagged⟩
  · unfold Bucket.rootView
    rw [h.handle.rootNode]
  · rw [← h.contents]
    exact ht.contents_sorted ht.lvl_root

lemma Untouched.balanced (h : Untouched w b g r H) :
    Balanced w b g r H (Vmbolt.contents w H r) := by
  have ht := h.tree.tree
  refine ⟨h.rootView, ht, rfl, ht.contents_sorted ht.lvl_root, ht.nodup_nodesUnder ht.lvl_root,
    fun n hn hnr => ?_, h.tree.two, fun n hn => ?_⟩
  · obtain ⟨i, l, hi, -⟩ := h.tree.first n 0 hn hnr
    rw [hi]
    exact List.cons_ne_nil i l
  · rw [h.dirty] at hn
    cases hn

/-- A handle with the entries of `m` is balanced by `Bucket.rebalance` and made a committed tree by
`Bucket.spill`, each if its loop can handle the tree that it meets. -/
lemma Holds.rebalance {m : SortedMap Bytes Bytes} (h : Holds w b m) :
    ∃ g r H, Bucket.rootView w b = some r ∧ TreeOK w g r H ∧ Vmbolt.contents w H r = m.entries ∧
      (rebalanceFits w b H r = true → ∀ order, LoopFits b order w) ∧
      ∀ order, (∀ n ∈ (w.buckets b).dirty, n ∈ order) → LoopFits b order w →
        ∃ w2 g2 H2, Evals (fun fuel => Bucket.rebalance fuel b order) w () w2 ∧
          Balanced w2 b g2 r H2 m.entries ∧
          (spillFits w2 b H2 r = true → ∃ w3 g3 r3 H3,
            Evals (fun fuel => Bucket.spill fuel b) w2 () w3 ∧
              WellFormed w3 b g3 r3 H3 m.entries) := by
  rcases h with ⟨g, r, H, hh, -, hm⟩ | ⟨g, r, H, hu, hm⟩
  · refine ⟨g, r, H, hh.rootView, hh.tree, hm,
      fun hf => hh.rebalancing.loopFits (hh.tree.spaced hf), fun order hall hf => ?_⟩
    obtain ⟨w2, g2, H2, e2, h2⟩ := hh.rebalancing.sweep hf fun n hn _ => hall n hn
    refine ⟨w2, g2, H2, e2, hm ▸ h2.balanced, fun hs => ?_⟩
    obtain ⟨w3, g3, r3, H3, e3, h3⟩ := h2.handle.spill (fun n hn hnr => h2.leaf_ne hn hnr) hs
    refine ⟨w3, g3, r3, H3, e3, h3.tree.wellFormed ?_ (h3.contents.trans (h2.contents.trans hm))⟩
    unfold Bucket.rootView
    rw [h3.rootNode]
  · -- nothing was written
    refine ⟨g, r, H, hu.rootView, hu.tree.tree, hm, fun _ => hu.loopFits, fun order _ _ =>
      ⟨w, g, H, hu.rebalance order, hm ▸ hu.balanced, fun _ =>
        ⟨w, g, r, H, ?_, hu.tree.wellFormed hu.rootView hm⟩⟩⟩
    exact .of_forall fun k => spill_none hu.rootNode k

/-- After any writes and deletes in a bucket, `Bucket.rebalance` returns, whatever order Go ranges
over the working set in, and leaves a balanced tree with the same contents, if no first child is
underfull together with the leaf that comes next. `Bucket.spill` then makes a committed tree of it,
if the calls of `node.finalize` that are interrupted at a dirty child find their indices when they
go on. -/
theorem rebalance_keeps_contents {m : SortedMap Bytes Bytes} (h : StartsAs w b m)
    (hw : Writable w b) (ops : List BucketOp) :
    ∃ w1 g1 r1 H1, Evals (fun fuel => BucketOp.runAll fuel b ops) w (ops.map BucketOp.result) w1 ∧
      Bucket.rootView w1 b = some r1 ∧ TreeOK w1 g1 r1 H1 ∧
      (rebalanceFits w1 b H1 r1 = true → ∀ order, (∀ n ∈ (w1.buckets b).dirty, n ∈ order) →
        ∃ w2 g2 H2, Evals (fun fuel => Bucket.rebalance fuel b order) w1 () w2 ∧
          Balanced w2 b g2 r1 H2 (ops.foldl BucketOp.apply m).entries ∧
          (spillFits w2 b H2 r1 = true →
            ∃ w3 g3 r3 H3, Evals (fun fuel => Bucket.spill fuel b) w2 () w3 ∧
            WellFormed w3 b g3 r3 H3 (ops.foldl BucketOp.apply m).entries)) := by
  obtain ⟨w1, e, hh, -⟩ := BucketOp.runAll_eq h.holds hw ops
  obtain ⟨g1, r1, H1, hr, ht, -, hfit, hs⟩ := hh.rebalance
  exact ⟨w1, g1, r1, H1, e, hr, ht, fun hf order hall => hs order hall (hfit hf order)⟩

/-- The three leaves after the first one has lost a key and the last one both. -/
@[irreducible] def endsThinned : World :=
  (BucketOp.runAll 10 0 [.delete [1], .delete [5], .delete [6]] threeLeaves).2

lemma endsThinned_evals :
    Evals (fun fuel => BucketOp.runAll fuel 0 [.delete [1], .delete [5], .delete [6]])
    threeLeaves [none, none, none] endsThinned := by
  have hrun : (BucketOp.runAll 10 0 [.delete [1], .delete [5], .delete [6]] threeLeaves).1 =
      .ok [none, none, none] := by decide +kernel
  unfold endsThinned
  exact (BucketOp.runAll_growing 0 _).evals_of_fst hrun

/-- The first two leaves are merged, the last one is dropped, and the root takes the place of its
only child. -/
theorem rebalance_keeps_contents_threeLeaves : ∃ w2 g2 H2,
    Evals (fun fuel => Bucket.rebalance fuel 0 [5, 4, 6]) endsThinned () w2 ∧
      Balanced w2 0 g2 4 H2 [([2], []), ([3], []), ([4], [])] := by
  obtain ⟨w1, g1, r1, H1, e, hr, ht, hs⟩ := rebalance_keeps_contents
    (.committed threeLeaves_untouched (rfl : _ = threeLeaves_untouched.tree.tree.map.entries))
    ⟨rfl, rfl⟩ [.delete [1], .delete [5], .delete [6]]
  obtain ⟨-, rfl⟩ := e.unique endsThinned_evals
  have h4 : Bucket.rootView endsThinned 0 = some 4 := by decide +kernel
  obtain rfl : 4 = r1 := Option.some.inj (h4.symm.trans hr)
  obtain rfl : H1 = 1 := ht.height_one (by decide +kernel) (i := ⟨[3], none, some 2⟩)
    (by decide +kernel) (by decide +kernel)
  obtain ⟨w2, g2, H2, e2, h2, -⟩ := hs (by decide +kernel) [5, 4, 6] (by decide +kernel)
  exact ⟨w2, g2, H2, e2, h2⟩

/-! ## Every order of the loop -/

end

end Vmbolt
