import Vmbolt.Directory.Views

/-!
# What the calls of the engine do to the transactions

A call on the buckets of a transaction begins and ends no transaction, publishes nothing and leaves
the lock alone (`SameTxs`), also if it panics. `Tx.Commit` does so up to its store, and the
directory that it then stores differs from its base in no name but those that the transaction has
opened, created or deleted (`Iso.build_kept`).
-/

namespace Vmbolt
open Prog

/-- Two states of a transaction that differ in its buckets only. -/
structure SameTx (tx tx' : Tx) : Prop where
  writable : tx'.writable = tx.writable
  managed : tx'.managed = tx.managed
  db : tx'.db = tx.db
  base : tx'.base = tx.base

/-- From `w` to `w'` no transaction has begun or ended, and nothing was published. -/
structure SameTxs (w w' : World) : Prop where
  db : w'.db = w.db
  tx : ∀ t, SameTx (w.txs t) (w'.txs t)

section
variable {w w' : World} {b : BucketId} {dead : Finset TxId} {F : Set NodeId} {t : TxId}
  {name : Name} {fuel : Nat}

lemma SameTx.refl (tx : Tx) : SameTx tx tx := ⟨rfl, rfl, rfl, rfl⟩

lemma SameTxs.refl (w : World) : SameTxs w w := ⟨rfl, fun _ => .refl _⟩

instance : Track SameTxs where
  trans h1 h2 := ⟨h2.db.trans h1.db, fun t =>
    ⟨(h2.tx t).writable.trans (h1.tx t).writable, (h2.tx t).managed.trans (h1.tx t).managed,
      (h2.tx t).db.trans (h1.tx t).db, (h2.tx t).base.trans (h1.tx t).base⟩⟩
  refl_right _ := .refl _

lemma SameTxs.of_eq (hdb : w'.db = w.db) (htxs : w'.txs = w.txs) : SameTxs w w' :=
  ⟨hdb, fun _ => htxs ▸ .refl _⟩

lemma sameTxs_write {f : World → World} (hf : ∀ w, SameTxs w (f w)) : Tracks SameTxs (write f) :=
  fun w _ => stays_write_of (.of_eq rfl rfl) fun c =>
    ⟨Track.trans (.of_eq rfl rfl : SameTxs w { w with cut := c }) (hf _), trivial⟩

/-- A write to the heap or to a handle. -/
lemma sameTxs_heap {f : World → World} (hf : ∀ w, (f w).db = w.db ∧ (f w).txs = w.txs) :
    Tracks SameTxs (write f) :=
  sameTxs_write fun w => .of_eq (hf w).1 (hf w).2

lemma sameTxs_modify {f : Tx → Tx} (hf : ∀ tx, SameTx tx (f tx)) : Tracks SameTxs (Tx.modify t f) :=
  sameTxs_write fun w => ⟨rfl, fun t' => by
    by_cases e : t' = t
    · subst e
      simpa [World.setTx] using hf (w.txs t')
    · simpa [World.setTx, e] using .refl _⟩

/-- A call of a live handle. -/
lemma Within.sameTxs (h : Within w b F w') : SameTxs w w' := .of_eq h.db h.txs

lemma compositional_sameTxs : Compositional (ε := Panic) (Tracks SameTxs) := Tracks.compositional

lemma dirWrites_sameTxs : DirWrites (Tracks SameTxs) where
  toCompositional := compositional_sameTxs
  newBucket := compositional_sameTxs.read_bind fun _ =>
    compositional_sameTxs.bind (sameTxs_heap fun _ => ⟨rfl, rfl⟩) fun _ =>
      compositional_sameTxs.pure
  modify hf := sameTxs_modify fun tx => ⟨(hf tx).1, (hf tx).2.1, (hf tx).2.2.1, (hf tx).2.2.2⟩

lemma sameTxs_createBucket : Tracks SameTxs (Tx.createBucket t name) := by
  have c := dirWrites_sameTxs
  have hnew : ∀ {α : Type} {a : α} {f : World → World}, (∀ w, (f w).db = w.db ∧ (f w).txs = w.txs) →
      Tracks SameTxs (write f >>= fun _ => pure a) := fun hf =>
    c.bind (sameTxs_heap hf) fun _ => c.pure
  refine c.read_bind fun tx => c.ite c.pure (c.ite c.pure (c.ite c.pure (c.ite c.pure ?_)))
  refine c.bind c.newBucket fun b => c.bind (c.read_bind fun rt => c.bind (c.read_bind fun a =>
    hnew fun _ => ⟨rfl, rfl⟩) fun _ => c.pure) fun s => ?_
  refine c.bind (c.read_bind fun n => hnew fun _ => ⟨rfl, rfl⟩) fun root => ?_
  refine c.bind (sameTxs_heap fun _ => ⟨rfl, rfl⟩) fun _ =>
    c.bind (sameTxs_heap fun _ => ⟨rfl, rfl⟩)
    fun _ => c.bind (c.modify fun _ => ⟨rfl, rfl, rfl, rfl⟩) fun _ => ?_
  exact c.bind (c.modify fun _ => ⟨rfl, rfl, rfl, rfl⟩) fun _ =>
    c.bind (c.modify fun _ => ⟨rfl, rfl, rfl, rfl⟩) fun _ => c.pure

lemma Iso.call_sameTxs {α : Type} {m : Go α} (h : Iso dead F w) (hm : HandleCall b m)
    (hb : b < w.nextBucket) (ht : (w.buckets b).tx ∉ dead) : Stays SameTxs w m fun _ _ => True :=
  hm.stays h hb ht (.refl w) (fun _ => trivial) fun _ ha =>
    ⟨ha.1.within.sameTxs, fun _ _ => trivial⟩

/-! ## `Tx.Commit` up to the store -/

/-- From `w` to `w'` the database and the transactions with their maps stayed as they are. -/
structure TxsStay (w w' : World) : Prop where
  db : w'.db = w.db
  txs : w'.txs = w.txs

instance : Track TxsStay where
  trans h1 h2 := ⟨h2.db.trans h1.db, h2.txs.trans h1.txs⟩
  refl_right _ := ⟨rfl, rfl⟩

lemma txsStay_publishRoot : Stays TxsStay w (Bucket.publishRoot b) fun _ _ => True := by
  refine .read_bind ?_
  split
  · exact .query ⟨rfl, rfl⟩ fun _ _ => trivial
  · refine .bind (P := fun _ _ => True) (.read_bind ?_) fun _ w1 _ _ => .pure ⟨rfl, rfl⟩ trivial
    refine .bind (P := fun _ _ => True) ?_ fun _ w1 _ _ => ?_
    · exact stays_write_of ⟨rfl, rfl⟩ fun _ => ⟨⟨rfl, rfl⟩, trivial⟩
    · exact stays_write_of ⟨rfl, rfl⟩ fun _ => ⟨⟨rfl, rfl⟩, trivial⟩

/-- The publishing loop enters the names that the transaction has a handle for. -/
lemma publishAll_kept (names : List Name) (m : AList fun _ : Name => Option BucketState) :
    Stays TxsStay w (Tx.publishAll t names m) fun m' _ => ∀ name,
      (w.txs t).bctx.lookup name = none ∨ name ∈ (w.txs t).deleted →
        m'.lookup name = m.lookup name := by
  induction names generalizing w m with
  | nil => exact .pure ⟨rfl, rfl⟩ fun _ _ => rfl
  | cons n names ih =>
    refine .read_bind ?_
    split
    · exact ih m
    next b hb =>
    split
    · exact ih m
    next hdel =>
    refine .bind txsStay_publishRoot fun st w1 h1 _ => (ih (m.insert n st)).mono ?_
    intro m' _ _ hm' name hname
    have hne : name ≠ n := by
      rintro rfl
      rcases hname with hnone | hmem
      · rw [hb] at hnone
        cases hnone
      · exact hdel hmem
    rw [hm' name (by rw [h1.txs]; exact hname), AList.lookup_insert_ne hne]

/-- The directory that a commit builds differs from its base in the names that the transaction has
opened, created or deleted only. -/
lemma Iso.build_kept (h : Iso dead F w) (fuel : Nat) (order : Tx.Order) (ho : (w.txs t).db = true)
    (hw : (w.txs t).writable = true) (ht : t ∉ dead) :
    Stays TxsStay w (Tx.build fuel t order) fun st _ => ∀ name,
      (w.txs t).bctx.lookup name = none ∨ name ∈ (w.txs t).deleted →
        st.buckets.lookup name = (w.txs t).keptBuckets.lookup name := by
  have hphases : Stays TxsStay w (do
      Tx.rebalanceAll fuel t order.rebalance
      Tx.spillAll fuel t order.spill) fun _ _ => True :=
    ⟨⟨(h.phases fuel order ho hw ht).1.db, (h.phases fuel order ho hw ht).1.txs⟩,
      fun _ _ => trivial⟩
  unfold Tx.build
  rw [← bind_assoc]
  refine hphases.bind fun _ w1 h1 _ => .read_bind ?_
  refine .bind (publishAll_kept order.publish _) fun m w2 h2 hm => .pure ⟨rfl, rfl⟩
    fun name hname => ?_
  rw [h1.txs] at hm
  exact hm name hname

/-- A commit of a transaction that is closed or read-only is refused. -/
lemma publish_refused (fuel : Nat) (order : Tx.Order)
    (h : ¬ ((w.txs t).db = true ∧ (w.txs t).writable = true)) :
    ∃ o, Tx.publish fuel t order w = (o, w) ∧ o ≠ .ok none := by
  unfold Tx.publish Tx.get
  rw [Prog.read_bind]
  by_cases hm : (w.txs t).managed = false
  · rw [Prog.assert_pos hm, Prog.pure_bind_apply]
    split
    · exact ⟨_, rfl, by simp⟩
    next ho =>
    have hw : (w.txs t).writable = false := by
      rw [← Bool.not_eq_true]
      exact fun hw => h ⟨by simpa using ho, hw⟩
    rw [if_pos hw]
    exact ⟨_, rfl, by simp⟩
  · rw [Prog.assert_neg hm]
    exact ⟨_, rfl, by simp⟩

/-- A commit that is not refused publishes a new directory, or panics and leaves everything as it
is. -/
lemma Iso.publish_cases (h : Iso dead F w) {order : Tx.Order} (ho : (w.txs t).db = true)
    (hw : (w.txs t).writable = true) (hm : (w.txs t).managed = false) (ht : t ∉ dead)
    (hne : (Tx.publish fuel t order w).1 ≠ .hang) :
    (∃ st w', Tx.publish fuel t order w = (.ok none, w') ∧ w'.txs = w.txs ∧
      w'.db = { w.db with state := some st } ∧ ∀ name,
        (w.txs t).bctx.lookup name = none ∨ name ∈ (w.txs t).deleted →
          st.buckets.lookup name = (w.txs t).keptBuckets.lookup name) ∨
      ∃ e w', Tx.publish fuel t order w = (.panic e, w') ∧ TxsStay w w' := by
  have hrun : Tx.publish fuel t order w = (do
      let st ← Tx.build fuel t order
      Tx.store st
      pure none : Go (Option Err)) w := by
    unfold Tx.publish Tx.get
    rw [Prog.read_bind, Prog.assert_pos hm, Prog.pure_bind_apply, if_neg (by simp [ho]),
      if_neg (by simp [hw])]
  rw [hrun] at hne ⊢
  obtain ⟨hstay, hkept⟩ := h.build_kept fuel order ho hw ht
  rcases hb : Tx.build fuel t order w with ⟨o, w1⟩
  rw [hb] at hstay hkept
  cases o with
  | ok st =>
    rw [Prog.bind_ok hb] at hne ⊢
    rcases hcut : w1.cut with _ | _ | j
    · left
      refine ⟨st, _, Prog.bind_ok (write_eq hcut), hstay.txs, ?_, hkept st rfl⟩
      change { w1.db with state := some st } = _
      rw [hstay.db]
    · right
      refine ⟨.cutOff, { w1 with cut := none }, ?_, ⟨hstay.db, hstay.txs⟩⟩
      apply Prog.bind_panic
      unfold Tx.store write
      rw [hcut]
    · left
      have hstore : Tx.store st w1 = (.ok (), { w1 with
          cut := some j, db := { w1.db with state := some st } }) := by
        unfold Tx.store write
        rw [hcut]
      refine ⟨st, _, Prog.bind_ok hstore, hstay.txs, ?_, hkept st rfl⟩
      change { w1.db with state := some st } = _
      rw [hstay.db]
  | panic e => exact .inr ⟨e, w1, Prog.bind_panic hb, hstay⟩
  | hang =>
    rw [Prog.bind_apply, hb] at hne
    exact absurd rfl hne

end

end Vmbolt
