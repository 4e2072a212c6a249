import Vmbolt.Commit.Handles
import Vmbolt.Rebalance.Loop

/-!
# A commit that rebalances

The first loop of `Tx.Commit` for handles in which keys were deleted. What a handle holds is local to
its tree, so the handles can be rebalanced one after the other in any order. Afterwards nothing is
flagged, and the rest of the commit is that of a transaction with nothing to rebalance.
-/

namespace Vmbolt
open Filter Prog

/-- The tree of the handle holds `m` and was rebalanced. -/
def Tidy (m : SortedMap Bytes Bytes) (w : World) (b : BucketId) : Prop :=
  Unflagged w b ∧ ∃ g r H, contents w H r = m.entries ∧ (Untouched w b g r H ∨
    (HandleBut w b g r H none ∧ ∀ n, g.lvl n = some 0 → n ≠ r → w.inodes n ≠ []))

/-- In the state in which the first loop of a commit comes to a handle, the visits to its nodes
fit. -/
def RebalancesFit (t : TxId) : List (Name × List NodeId) → World → Prop
  | [], _ => True
  | x :: order, w => (∀ b, (w.txs t).bctx.lookup x.1 = some b → LoopFits b x.2 w) ∧
      ∀ v, Evals (fun k => Tx.rebalanceAll k t [x]) w () v → RebalancesFit t order v

/-- A commit of `t` in the order `o` meets no tree that the two loops cannot handle: in the first
one no first child takes over a leaf that is still to be merged itself, and in the second one the
calls of `node.finalize` that are interrupted at a dirty child find their indices when they go
on. -/
structure CommitFits (w : World) (t : TxId) (o : Tx.Order) : Prop where
  valid : o.Valid w t
  rebalance : RebalancesFit t o.rebalance w
  spill : ∀ w1, Evals (fun k => Tx.rebalanceAll k t o.rebalance) w () w1 → ∀ name b g r H,
    (w.txs t).bctx.lookup name = some b → Bucket.rootView w1 b = some r → TreeOK w1 g r H →
      spillFits w1 b H r = true

section
variable {w w' w1 : World} {b : BucketId} {g : Layout} {r : NodeId} {H : Nat} {dead : Finset TxId}
  {F : Set NodeId} {t : TxId} {name : Name} {m : SortedMap Bytes Bytes} {l : List NodeId}
  {o : Tx.Order}

/-! ## Local statements -/

lemma Holds.local (m : SortedMap Bytes Bytes) : Local fun w b => Holds w b m := by
  rintro dead F w w' b hi hb hs (⟨g, r, H, h⟩ | ⟨g, r, H, h⟩)
  · exact (HoldsAt.local H m hi hb hs (.inl ⟨g, r, h⟩)).holds
  · exact (HoldsAt.local H m hi hb hs (.inr ⟨g, r, h⟩)).holds

lemma Tidy.local (m : SortedMap Bytes Bytes) : Local (Tidy m) := by
  rintro dead F w w' b hi hb hs ⟨hf, g, r, H, hm, hu | ⟨hh, hne⟩⟩
  · obtain ⟨h1, hc⟩ := hu.spared hi hb hs
    exact ⟨Unflagged.local hi hb hs hf, g, r, H, hc.trans hm, .inl h1⟩
  · obtain ⟨h1, hc⟩ := hh.spared hi hb hs
    refine ⟨Unflagged.local hi hb hs hf, g, r, H, hc.trans hm, .inr ⟨h1, fun n hn hnr => ?_⟩⟩
    rw [(hs.node (hi.mem_tree hb hh.tree (.inl ((hi.handle b hb).dirty r hh.root_dirty)) hn)).2]
    exact hne n hn hnr

/-! ## One handle -/

/-- What a handle holds is rebalanced. -/
lemma Holds.tidy (h : Holds w b m) (hl : ∀ n ∈ (w.buckets b).dirty, n ∈ l)
    (hf : LoopFits b l w) :
    ∃ w', Evals (fun k => Bucket.rebalance k b l) w () w' ∧ w'.Sound ∧ Tidy m w' b := by
  rcases h with ⟨g, r, H, hh, -, hm⟩ | ⟨g, r, H, hu, hm⟩
  · obtain ⟨w', g', H', e, h'⟩ := hh.rebalancing.sweep hf fun n hn _ => hl n hn
    exact ⟨w', e, h'.handle.sound, h'.unflagged, g', r, H', h'.contents.trans hm,
      .inr ⟨h'.handle, fun n hn hnr => h'.leaf_ne hn hnr⟩⟩
  · refine ⟨w, hu.rebalance l, hu.sound, fun n hn => ?_, g, r, H, hm, .inl hu⟩
    rw [hu.dirty] at hn
    cases hn

/-- What was rebalanced, with the second test passed. -/
lemma Tidy.ready (h : Tidy m w b)
    (hf : ∀ g r H, Bucket.rootView w b = some r → TreeOK w g r H → spillFits w b H r = true) :
    Ready m w b := by
  obtain ⟨-, g, r, H, hm, hu | ⟨hh, hne⟩⟩ := h
  · exact ⟨g, r, H, hm, .inl hu⟩
  · refine ⟨g, r, H, hm, .inr ⟨hh, hne, hf g r H ?_ hh.tree⟩⟩
    unfold Bucket.rootView
    rw [hh.rootNode]

/-! ## The commit -/

/-- Without flags the first loop does nothing. -/
lemma rebalanceAll_unflagged (h : ∀ name b, (w.txs t).bctx.lookup name = some b → Unflagged w b)
    (order : List (Name × List NodeId)) : Evals (fun k => Tx.rebalanceAll k t order) w () w := by
  refine Evals.step .pure fun k => Prog.each_noop fun x _ => ?_
  rcases hb : (w.txs t).bctx.lookup x.1 with _ | b
  · exact onHandle_none hb _
  · exact (onHandle_some hb _).trans (rebalance_unflagged (h x.1 b hb) k x.2)

/-- A commit goes on from the state in which its first loop is done. -/
lemma commit_of_rebalanced {o' : Tx.Order} {e : Option Err} (htxs : w1.txs = w.txs)
    (h1 : Evals (fun k => Tx.rebalanceAll k t o.rebalance) w () w1)
    (h1' : Evals (fun k => Tx.rebalanceAll k t o'.rebalance) w1 () w1) (hspill : o'.spill = o.spill)
    (hpublish : o'.publish = o.publish) (hm : (w.txs t).managed = false) (ho : (w.txs t).db = true)
    (hw : (w.txs t).writable = true) (h : Evals (fun k => Tx.commit k t o') w1 e w') :
    Evals (fun k => Tx.commit k t o) w e w' := by
  filter_upwards [h1, h1', h] with k hk1 hk1' hk
  have hbuild : Tx.build k t o w = Tx.build k t o' w1 := by
    unfold Tx.build
    rw [Prog.bind_ok hk1, Prog.bind_ok hk1', hspill, hpublish]
  have hrun : ∀ {v : World} {p : Tx.Order}, v.txs = w.txs → Tx.commit k t p v =
      (Tx.build k t p >>= fun st => Tx.store st >>= fun _ => Tx.close t >>= fun _ =>
        pure none) v := by
    intro v p hv
    unfold Tx.commit Tx.get
    rw [Prog.read_bind, hv, Prog.assert_pos hm, Prog.pure_bind_apply, if_neg (by simp [ho]),
      if_neg (by simp [hw])]
  rw [hrun rfl, Prog.bind_apply, hbuild, ← Prog.bind_apply, ← hrun htxs]
  exact hk

/-- Both tests for a transaction with one bucket. -/
lemma CommitFits.one (hkeys : (w.txs t).bctx.keys = [name])
    (hb : (w.txs t).bctx.lookup name = some b) (hl : l.Nodup)
    (hdirty : ∀ n ∈ (w.buckets b).dirty, n ∈ l)
    (hrebalance : LoopFits b l w)
    (hspill : ∀ w1, Evals (fun k => Tx.rebalanceAll k t [(name, l)]) w () w1 → ∀ g r H,
      Bucket.rootView w1 b = some r → TreeOK w1 g r H → spillFits w1 b H r = true) :
    CommitFits w t ⟨[(name, l)], [name], [name]⟩ := by
  have hlook : ∀ {name' b'}, (w.txs t).bctx.lookup name' = some b' → b' = b := by
    intro name' b' hb'
    have hname := mem_keys_of_lookup hb'
    rw [hkeys, List.mem_singleton] at hname
    rw [hname, hb] at hb'
    exact (Option.some.inj hb').symm
  refine ⟨.one hkeys hb hl hdirty, ⟨fun b' hb' => ?_, fun _ _ => trivial⟩,
    fun w1 e name' b' g r H hb' hr ht => ?_⟩
  · obtain rfl := hlook hb'
    exact hrebalance
  · obtain rfl := hlook hb'
    exact hspill w1 e g r H hr ht

/-- `Tx.Commit`, if both tests are passed. -/
lemma Handles.commit_fits {M : SortedMap Name (SortedMap Bytes Bytes)}
    (h : Handles (fun _ m w b => Holds w b m) dead F w t M) (hm : (w.txs t).managed = false)
    (hl : w.db.rwlock = true) (hf : CommitFits w t o) :
    ∃ st w', Evals (fun k => Tx.commit k t o) w none w' ∧
      Commits dead F w t (fun name => (M.get name).getD .empty) st w' := by
  let V : Name → SortedMap Bytes Bytes := fun name => (M.get name).getD .empty
  have hhold : ∀ name b, (w.txs t).bctx.lookup name = some b → Holds w b (V name) := by
    intro name b hb
    obtain ⟨m, hm, hh⟩ := h.handle name b hb
    simp only [V, hm]
    exact hh
  -- the first loop
  obtain ⟨w1, e1, h1, q1⟩ := h.toTxRun.rebalanceAll
    (P := fun name w b => Holds w b (V name) ∧
      ∀ x ∈ o.rebalance, x.1 = name → ∀ n ∈ (w.buckets b).dirty, n ∈ x.2)
    (Q := fun name => Tidy (V name)) (C := RebalancesFit t)
    (fun name _ _ _ _ _ hi hb hs hp =>
      ⟨Holds.local _ hi hb hs hp.1, by rw [hs.bucket]; exact hp.2⟩)
    (fun name => Tidy.local _) (fun x l w hc => hc.2)
    (fun x hx l w b hc hb _ hp => hp.1.tidy (hp.2 x hx rfl) (hc.1 b hb))
    (hf.valid.rebalance.nodup_iff.2 (AList.keys_nodup _)) hf.rebalance
    (fun name b hb => hf.valid.rebalance.mem_iff.2 (mem_keys_of_lookup hb))
    (by
      refine fun name b hb => ⟨hhold name b hb, ?_⟩
      rintro x hx rfl
      exact (hf.valid.dirty x hx b hb).2)
  have htxs := h1.works.txs
  have hready : ∀ name b, (w1.txs t).bctx.lookup name = some b → Ready (V name) w1 b ∧
      Unflagged w1 b := by
    intro name b hb
    rw [htxs] at hb
    exact ⟨(q1 name b hb).ready fun g r H => hf.spill w1 e1 name b g r H hb, (q1 name b hb).1⟩
  -- the rest, from the state that it leaves
  let o' : Tx.Order := ⟨(Tx.Order.sorted w1 t).rebalance, o.spill, o.publish⟩
  have hv' : o'.Valid w1 t :=
    ⟨(Tx.Order.sorted_valid w1 t).rebalance, (Tx.Order.sorted_valid w1 t).dirty,
    by rw [htxs]; exact hf.valid.spill, by rw [htxs]; exact hf.valid.publish⟩
  obtain ⟨st, w', e, hc⟩ := h1.run.commit (o := o') (M := V)
    (P := fun name w b => Ready (V name) w b ∧ Unflagged w b) (by rw [htxs]; exact hm)
    (by rw [h1.works.db]; exact hl) hv'
    (fun name _ _ _ _ _ hi hb hs hp =>
      ⟨Ready.local _ hi hb hs hp.1, Unflagged.local hi hb hs hp.2⟩) hready
    fun x _ w b hs hp => ⟨w, Evals.step .pure fun k => rebalance_unflagged hp.2 k x.2, hs, hp.1⟩
  have hdone : Evals (fun k => Tx.rebalanceAll k t o'.rebalance) w1 () w1 :=
    rebalanceAll_unflagged (fun name b hb => (hready name b hb).2) _
  refine ⟨st, w', commit_of_rebalanced htxs e1 hdone rfl rfl hm h.opened h.writable e, hc.sound,
    hc.rt.trans h1.rt, ?_, hc.closed,
    h1.works.toFrozen.trans hc.frozen, h1.nextNode.trans hc.nextNode, hc.iso,
    fun name b hb hdel => ?_, fun name hb => ?_⟩
  · rw [hc.db, h1.works.db]
  · exact hc.handle name b (by rw [htxs]; exact hb) (by rw [htxs]; exact hdel)
  · rw [hc.kept name (by rw [htxs]; exact hb), htxs]

end

end Vmbolt
