import Vmbolt.Commit.Phases
import Vmbolt.Effect.Lifecycle

/-!
# A commit

`Tx.Commit` rebalances and spills the handles of its transaction, collects their roots, stores the
new state and closes the transaction. If every handle satisfies a local statement that lets it be
rebalanced, then the commit returns nil, whatever order it meets the handles in. `Commits` says what
it leaves: a committed tree for every name with a handle, and what the base has for the other names.
-/

namespace Vmbolt
open Filter Prog

/-- The order is one in which Go may range over the maps of the transaction. Nodes that are added to
a set of dirty nodes during the loop may be visited or not. -/
structure Tx.Order.Valid (o : Tx.Order) (w : World) (t : TxId) : Prop where
  rebalance : (o.rebalance.map Prod.fst).Perm (w.txs t).bctx.keys
  dirty : ∀ x ∈ o.rebalance, ∀ b, (w.txs t).bctx.lookup x.1 = some b →
    x.2.Nodup ∧ ∀ n ∈ (w.buckets b).dirty, n ∈ x.2
  spill : o.spill.Perm (w.txs t).bctx.keys
  publish : o.publish.Perm (w.txs t).bctx.keys

/-- One such order: the names as the working map has them, and the dirty nodes by their identity. -/
def Tx.Order.sorted (w : World) (t : TxId) : Tx.Order where
  rebalance := (w.txs t).bctx.keys.map fun name => (name,
    match (w.txs t).bctx.lookup name with
    | none => []
    | some b => (w.buckets b).dirty.sort)
  spill := (w.txs t).bctx.keys
  publish := (w.txs t).bctx.keys

section
variable {w w' w1 : World} {b : BucketId} {dead : Finset TxId} {F : Set NodeId} {t : TxId}
  {name : Name} {m : SortedMap Bytes Bytes}

lemma mem_keys_of_lookup (h : (w.txs t).bctx.lookup name = some b) : name ∈ (w.txs t).bctx.keys :=
  AList.mem_keys.2 (AList.lookup_isSome.1 (by rw [h]; rfl))

lemma Tx.Order.sorted_valid (w : World) (t : TxId) : (Tx.Order.sorted w t).Valid w t := by
  refine ⟨?_, fun x hx b hb => ?_, .refl _, .refl _⟩
  · unfold Tx.Order.sorted
    rw [List.map_map]
    exact List.Perm.of_eq (List.map_id _)
  · obtain ⟨name, -, rfl⟩ := List.mem_map.1 hx
    dsimp only at hb ⊢
    rw [hb]
    exact ⟨Finset.sort_nodup _ _, fun n hn => (Finset.mem_sort _).2 hn⟩

/-- The order of a transaction with one bucket. -/
lemma Tx.Order.Valid.one {l : List NodeId} (hkeys : (w.txs t).bctx.keys = [name])
    (hb : (w.txs t).bctx.lookup name = some b) (hl : l.Nodup)
    (hdirty : ∀ n ∈ (w.buckets b).dirty, n ∈ l) :
    Tx.Order.Valid ⟨[(name, l)], [name], [name]⟩ w t := by
  refine ⟨by rw [hkeys]; rfl, fun x hx b' hb' => ?_, by rw [hkeys], by rw [hkeys]⟩
  obtain rfl := List.mem_singleton.1 hx
  rw [hb] at hb'
  cases hb'
  exact ⟨hl, hdirty⟩

/-- The map a commit starts from. -/
lemma lookup_keptBuckets_eq {tx : Tx} {st : DbState} (h : tx.base = some st) (name : Name) :
    tx.keptBuckets.lookup name = if name ∈ tx.deleted then none else st.buckets.lookup name := by
  have herase : ∀ (l : List Name) (m : AList fun _ : Name => Option BucketState),
      (l.foldl (fun m name => m.erase name) m).lookup name =
        if name ∈ l then none else m.lookup name := by
    intro l
    induction l with
    | nil => simp
    | cons x l ih =>
      intro m
      rw [List.foldl_cons, ih]
      by_cases e : name = x
      · subst e
        simp [AList.lookup_erase]
      · simp [e, AList.lookup_erase_ne e]
  unfold Tx.keptBuckets
  rw [h]
  dsimp only
  rw [herase]
  simp

/-- The trees of published states are not touched. -/
lemma StateHolds.frozen {bs : Option BucketState} (h : StateHolds w bs m) (hi : Iso dead F w)
    (hr : ∀ st r, bs = some st → st.root = some r → r ∈ F) (hnext : w.nextNode ≤ w'.nextNode)
    (hf : Frozen F w w') : StateHolds w' bs m :=
  h.same (fun _ _ _ _ h1 h2 ht _ _ hn => hi.mem_published ht (hr _ _ h1 h2) hn) hnext fun n hn => by
    rw [hf.node n hn]
    exact ⟨rfl, rfl, hf.inodes n hn⟩

/-- Detaching changes nothing that a tree shows. -/
lemma StateHolds.detached {bs : Option BucketState} (h : StateHolds w1 bs m)
    (hd : Detached dead t w1 w) : StateHolds w bs m := by
  refine h.same (S := Set.univ) (fun _ _ _ _ _ _ _ _ _ _ => trivial) (by rw [hd.rest]) fun n _ => ?_
  rcases hd.node n with e | ⟨-, e⟩ <;> rw [e] <;> exact ⟨rfl, rfl, hd.inodes_eq⟩

/-! ## Building the new state -/

/-- `Tx.Commit` up to the store. Rebalancing takes the handles from `P` to `Q`, spilling from `Q` to
`R`. -/
lemma TxRun.build {o : Tx.Order} {P Q R : Name → World → BucketId → Prop} (h : TxRun dead F w t)
    (hv : o.Valid w t) (hP : ∀ name, Local (P name)) (hQ : ∀ name, Local (Q name))
    (hR : ∀ name, Local (R name))
    (hpre : ∀ name b, (w.txs t).bctx.lookup name = some b → P name w b)
    (hreb : ∀ x ∈ o.rebalance, ∀ w b, w.Sound → P x.1 w b →
      ∃ w', Evals (fun k => Bucket.rebalance k b x.2) w () w' ∧ w'.Sound ∧ Q x.1 w' b)
    (hspill : ∀ name w b, w.Sound → Q name w b →
      ∃ w', Evals (fun k => Bucket.spill k b) w () w' ∧ w'.Sound ∧ R name w' b) :
    ∃ st w1 w', Evals (fun k => Tx.build k t o) w st w' ∧ w'.Sound ∧ Passed dead F t w w1 ∧
      Detached dead t w1 w' ∧ RootsIn (F ∪ TxOwn w1 dead t) st ∧
      (∀ name b, (w.txs t).bctx.lookup name = some b → R name w1 b) ∧
      ∀ name, st.buckets.lookup name = Tx.published w1 t o.publish (w1.txs t).keptBuckets name := by
  have hmem : ∀ {l : List Name}, l.Perm (w.txs t).bctx.keys → ∀ name b,
      (w.txs t).bctx.lookup name = some b → name ∈ l :=
    fun hp name b hb => hp.mem_iff.2 (mem_keys_of_lookup hb)
  have hnd : ∀ {l : List Name}, l.Perm (w.txs t).bctx.keys → l.Nodup :=
    fun hp => hp.nodup_iff.2 (AList.keys_nodup _)
  -- rebalance
  obtain ⟨w1, e1, h1, q1⟩ := h.rebalanceAll (C := fun _ _ => True) hP hQ
    (fun _ _ _ _ _ _ => trivial) (fun x hx _ w b _ _ => hreb x hx w b) (hnd hv.rebalance) trivial
    (hmem hv.rebalance) hpre
  -- spill
  obtain ⟨w2, e2, h2, q2⟩ := h1.run.spillAll o.spill hQ hR hspill (hnd hv.spill)
    (by rw [h1.works.txs]; exact hmem hv.spill) (by rw [h1.works.txs]; exact q1)
  have h12 : Passed dead F t w w2 := ⟨h2.run, Track.trans h1.works h2.works, h2.rt.trans h1.rt,
    h1.nextNode.trans h2.nextNode⟩
  -- publish
  obtain ⟨m', w3, e3, s3, -, hm'⟩ := h2.run.publishAll o.publish (m := (w2.txs t).keptBuckets)
    (hnd hv.publish) h2.run.sound rfl fun _ _ _ _ => rfl
  have hkept : RootsIn (F ∪ TxOwn w2 dead t) ⟨(w2.txs t).keptBuckets⟩ := by
    intro name bs r hl hr
    obtain ⟨base, hb, hl⟩ := lookup_keptBuckets hl
    exact .inl (h2.run.iso.base t base hb name bs r hl hr)
  have hdet := h2.run.iso.publishAll o.publish h2.run.opened h2.run.writable h2.run.alive
    (.refl w2) hkept
  unfold Stays at hdet
  rw [e3] at hdet
  refine ⟨⟨m'⟩, w2, w3, ?_, s3, h12, hdet.1, hdet.2 m' rfl, fun name b hb => q2 name b ?_, hm'⟩
  · filter_upwards [e1, e2] with k hk1 hk2
    unfold Tx.build
    rw [Prog.bind_ok hk1, Prog.bind_ok hk2]
    unfold Tx.get
    rw [Prog.read_bind, Prog.bind_ok e3]
    rfl
  · rw [h1.works.txs]
    exact hb

/-! ## The whole commit -/

/-- What a commit of the transaction `t` leaves, if it stores `st` and has taken the handles to `w1`
before it detached their nodes. -/
structure Stored (dead : Finset TxId) (F : Set NodeId) (w : World) (t : TxId) (st : DbState)
    (w1 w' : World) : Prop where
  sound : w'.Sound
  rt : w'.rt = w.rt
  db : w'.db = { w.db with state := some st, rwlock := false }
  closed : (w'.txs t).db = false
  frozen : Frozen F w w'
  nextNode : w.nextNode ≤ w'.nextNode
  iso : ∃ F', F ⊆ F' ∧ Iso dead F' w'
  passed : Passed dead F t w w1
  holds : ∀ bs m, StateHolds w1 bs m → StateHolds w' bs m
  handle : ∀ name b, (w.txs t).bctx.lookup name = some b → name ∉ (w.txs t).deleted →
    st.buckets.lookup name = some (Bucket.toPublish w1 b)
  kept : ∀ name, (w.txs t).bctx.lookup name = none →
    st.buckets.lookup name = (w.txs t).keptBuckets.lookup name

/-- What a commit of the transaction `t` leaves, if it stores `st` and the handle for a name holds
`M name`. -/
structure Commits (dead : Finset TxId) (F : Set NodeId) (w : World) (t : TxId)
    (M : Name → SortedMap Bytes Bytes) (st : DbState) (w' : World) : Prop where
  sound : w'.Sound
  rt : w'.rt = w.rt
  db : w'.db = { w.db with state := some st, rwlock := false }
  closed : (w'.txs t).db = false
  frozen : Frozen F w w'
  nextNode : w.nextNode ≤ w'.nextNode
  iso : ∃ F', F ⊆ F' ∧ Iso dead F' w'
  handle : ∀ name b, (w.txs t).bctx.lookup name = some b → name ∉ (w.txs t).deleted →
    ∃ bs, st.buckets.lookup name = some bs ∧ StateHolds w' bs (M name)
  kept : ∀ name, (w.txs t).bctx.lookup name = none →
    st.buckets.lookup name = (w.txs t).keptBuckets.lookup name

/-- A transaction that is closed need not be given up. -/
lemma Iso.revive (h : Iso (insert t dead) F w) (hc : (w.txs t).db = false) : Iso dead F w := by
  have hlive : ∀ b, Live w dead b → Live w (insert t dead) b := fun b hb => by
    refine ⟨hb.alloc, hb.opened, hb.writable, fun hm => ?_⟩
    rcases Finset.mem_insert.1 hm with e | hm
    · have := hb.opened
      rw [e, hc] at this
      cases this
    · exact hb.alive hm
  exact { h with
    handle := fun b hb => h.handle b (hlive b hb)
    sep := fun b b' hne hb hb' => h.sep b b' hne (hlive b hb) (hlive b' hb') }

/-- `Tx.Commit`, if rebalancing and spilling take the handles from `P` to `Q` and to `R`. -/
lemma TxRun.store {o : Tx.Order} {P Q R : Name → World → BucketId → Prop} (h : TxRun dead F w t)
    (hm : (w.txs t).managed = false) (hl : w.db.rwlock = true) (hv : o.Valid w t)
    (hP : ∀ name, Local (P name)) (hQ : ∀ name, Local (Q name)) (hR : ∀ name, Local (R name))
    (hpre : ∀ name b, (w.txs t).bctx.lookup name = some b → P name w b)
    (hreb : ∀ x ∈ o.rebalance, ∀ w b, w.Sound → P x.1 w b →
      ∃ w', Evals (fun k => Bucket.rebalance k b x.2) w () w' ∧ w'.Sound ∧ Q x.1 w' b)
    (hspill : ∀ name w b, w.Sound → Q name w b →
      ∃ w', Evals (fun k => Bucket.spill k b) w () w' ∧ w'.Sound ∧ R name w' b) :
    ∃ st w1 w', Evals (fun k => Tx.commit k t o) w none w' ∧ Stored dead F w t st w1 w' ∧
      ∀ name b, (w.txs t).bctx.lookup name = some b → R name w1 b := by
  obtain ⟨st, w1, w2, e, s2, h1, hd, hroots, hset, hst⟩ := h.build hv hP hQ hR hpre hreb hspill
  have htxs1 := h1.works.txs
  have htxs2 : w2.txs = w.txs := by rw [hd.rest, ← htxs1]
  have hdb2 : w2.db = w.db := by rw [hd.rest, ← h1.works.db]
  -- the store and the close
  let w3 : World := { w2 with db := { w2.db with state := some st } }
  have hi2 := h1.run.iso.detached hd
  have hk3 : Keeps (insert t dead) (F ∪ TxOwn w1 dead t) w2 w3 := hi2.store hroots
  have hclose : Tx.close t w3 = (.ok (), w3.closeTx t) := by
    refine close_eq s2.cut ?_ fun _ => ?_
    · change (w2.txs t).db = true
      rw [htxs2]
      exact h.opened
    · change w2.db.rwlock = true
      rw [hdb2]
      exact hl
  have hk4 : Keeps (insert t dead) (F ∪ TxOwn w1 dead t) w3 (w3.closeTx t) := by
    have := (hk3.iso.close (t := t)).1
    rwa [hclose] at this
  have hclosed : ((w3.closeTx t).txs t).db = false := by simp [Tx.closed]
  refine ⟨st, w1, w3.closeTx t, ?_, ⟨⟨s2.cut, s2.arr_lt, s2.len_le⟩, ?_, ?_, hclosed, ?_, ?_,
    ⟨_, Set.subset_union_left, hk4.iso.revive hclosed⟩, h1, fun bs m hbs => ?_,
    fun name b hb hdel => ?_, fun name hb => ?_⟩, hset⟩
  · filter_upwards [e] with k hk
    unfold Tx.commit Tx.get
    rw [Prog.read_bind, Prog.assert_pos hm, Prog.pure_bind_apply, if_neg (by simp [h.opened]),
      if_neg (by simp [h.writable]), Prog.bind_ok hk]
    unfold Tx.store
    rw [Prog.bind_ok (write_eq s2.cut)]
    exact Prog.bind_ok hclose
  · change w2.rt = w.rt
    rw [hd.rest, ← h1.rt]
  · have hw : (w3.txs t).writable = true := by
      change (w2.txs t).writable = true
      rw [htxs2]
      exact h.writable
    unfold World.closeTx
    dsimp only
    rw [hw, Bool.not_true, Bool.and_false]
    change { w2.db with state := some st, rwlock := false } = _
    rw [hdb2]
  · exact (h1.works.toFrozen.trans (hd.ends h1.run.iso).1).trans
      ((hk3.toFrozen.trans hk4.toFrozen).mono Set.subset_union_left)
  · change w.nextNode ≤ w2.nextNode
    rw [hd.rest]
    exact h1.nextNode
  · exact (hbs.detached hd).same (S := Set.univ) (fun _ _ _ _ _ _ _ _ _ _ => trivial) le_rfl
      fun _ _ => ⟨rfl, rfl, rfl⟩
  · rw [hst]
    unfold Tx.published
    rw [htxs1, hb]
    exact if_pos ⟨hv.publish.mem_iff.2 (mem_keys_of_lookup hb), hdel⟩
  · rw [hst]
    unfold Tx.published
    rw [htxs1, hb]

/-- `Tx.Commit`, for handles that satisfy `P` and can be rebalanced. -/
lemma TxRun.commit {o : Tx.Order} {P : Name → World → BucketId → Prop}
    {M : Name → SortedMap Bytes Bytes} (h : TxRun dead F w t) (hm : (w.txs t).managed = false)
    (hl : w.db.rwlock = true) (hv : o.Valid w t) (hP : ∀ name, Local (P name))
    (hpre : ∀ name b, (w.txs t).bctx.lookup name = some b → P name w b)
    (hreb : ∀ x ∈ o.rebalance, ∀ w b, w.Sound → P x.1 w b →
      ∃ w', Evals (fun k => Bucket.rebalance k b x.2) w () w' ∧ w'.Sound ∧ Ready (M x.1) w' b) :
    ∃ st w', Evals (fun k => Tx.commit k t o) w none w' ∧ Commits dead F w t M st w' := by
  obtain ⟨st, w1, w', e, hs, hset⟩ := h.store (Q := fun name => Ready (M name))
    (R := fun name => Settled (M name)) hm hl hv hP (fun name => Ready.local _)
    (fun name => Settled.local _) hpre hreb fun name w b hw hr => hr.spill hw
  exact ⟨st, w', e, hs.sound, hs.rt, hs.db, hs.closed, hs.frozen, hs.nextNode, hs.iso,
    fun name b hb hdel => ⟨_, hs.handle name b hb hdel, hs.holds _ _ (hset name b hb)⟩, hs.kept⟩

end

end Vmbolt
