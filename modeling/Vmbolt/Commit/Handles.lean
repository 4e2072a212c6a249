import Vmbolt.Commit.Commit

/-!
# A write transaction and its handles

`Handles P w t M` says what the working map of the transaction `t` holds: every handle satisfies `P`
for the map that `M` gives to its name. Work on one handle changes the map of one name, and a step
of the directory leaves the handles alone that are there. `DB.Update` begins the transaction, runs
its function and commits what the handles hold.
-/

namespace Vmbolt
open Filter Prog

/-- The handles of the write transaction `t` hold what `M` says. -/
structure Handles {α : Type} (P : Name → α → World → BucketId → Prop) (dead : Finset TxId)
    (F : Set NodeId) (w : World) (t : TxId) (M : SortedMap Name α) :
    Prop extends TxRun dead F w t where
  handle : ∀ name b, (w.txs t).bctx.lookup name = some b → ∃ m, M.get name = some m ∧ P name m w b
  total : ∀ name m, M.get name = some m → ((w.txs t).bctx.lookup name).isSome

section
variable {w w' w1 : World} {b : BucketId} {dead : Finset TxId} {F : Set NodeId} {t : TxId}
  {name : Name}
  {α : Type} {m : α} {M : SortedMap Name α} {tx : Tx} {st : DbState}
  {P : Name → α → World → BucketId → Prop}

/-- A call that works on one handle. -/
lemma within_of_evals {β : Type} {f : Nat → Go β} {a : β}
    (hstay : ∀ k, Stays (Along w b F) w (f k) fun _ _ => True) (he : Evals f w a w') :
    Within w b F w' := by
  obtain ⟨k, hk⟩ := he.exists
  have := (hstay k).1.within
  rwa [show f k w = (.ok a, w') from hk] at this

/-- The handles may write. -/
lemma TxRun.handle_writable (h : TxRun dead F w t) (hb : (w.txs t).bctx.lookup name = some b) :
    Writable w b := by
  obtain ⟨-, ht⟩ := h.iso.bctx t name b hb
  refine ⟨?_, by rw [ht]; exact h.writable⟩
  unfold Opened
  rw [ht]
  exact h.opened

/-- The handle for `name` is brought to hold `m`. -/
lemma Handles.work {β : Type} {f : Nat → Go β} {a : β} (h : Handles P dead F w t M)
    (hP : ∀ name m, Local (P name m)) (hb : (w.txs t).bctx.lookup name = some b)
    (hstay : ∀ k, Stays (Along w b F) w (f k) fun _ _ => True) (he : Evals f w a w') (hs : w'.Sound)
    (hp : P name m w' b) : Passed dead F t w w' ∧ Handles P dead F w' t (M.insert name m) := by
  have hin := within_of_evals hstay he
  have hrun := h.toTxRun.within hb hin hs
  refine ⟨⟨hrun, ⟨h.iso.keeps (h.live hb) hin, hin.txs, hin.db⟩, hin.rt, hin.nextNode⟩, hrun,
    fun name' b' hb' => ?_, fun name' m' hm' => ?_⟩
  · rw [hin.txs] at hb'
    by_cases hne : name' = name
    · subst hne
      rw [hb] at hb'
      cases hb'
      exact ⟨m, M.get_insert_self name' m, hp⟩
    · obtain ⟨m', hm', hp'⟩ := h.handle name' b' hb'
      have hsp := hin.spares h.iso (h.live hb) hs (h.handle_ne hb hb' hne) (h.live hb')
      exact ⟨m', (M.get_insert_of_ne hne m).trans hm', hP name' m' h.iso (h.live hb') hsp hp'⟩
  · rw [hin.txs]
    by_cases hne : name' = name
    · rw [hne, hb]
      rfl
    · exact h.total name' m' ((M.get_insert_of_ne hne m).symm.trans hm')

/-- A step of the directory: the handles that are left have been there before or satisfy `P`. -/
lemma Handles.dirStep {M' : SortedMap Name α} (h : Handles P dead F w t M)
    (hP : ∀ name m, Local (P name m)) (hd : DirStep w t tx w') (hi : Iso dead F w')
    (hbase : tx.base = (w.txs t).base) (hdb : tx.db = true) (hwr : tx.writable = true)
    (hold : ∀ name b, tx.bctx.lookup name = some b →
      ((w.txs t).bctx.lookup name = some b ∧ M'.get name = M.get name) ∨
        ((w'.buckets b).name = name ∧ ∃ m, M'.get name = some m ∧ P name m w' b))
    (htotal : ∀ name m, M'.get name = some m → (tx.bctx.lookup name).isSome) :
    Handles P dead F w' t M' := by
  refine ⟨⟨hd.sound, hi, h.alive, by rw [hd.tx]; exact hdb, by rw [hd.tx]; exact hwr,
    fun name b hb => ?_⟩, fun name b hb => ?_, fun name m hm => ?_⟩ <;> rw [hd.tx] at *
  · rcases hold name b hb with ⟨hb, -⟩ | ⟨hn, -⟩
    · rw [hd.buckets b (h.iso.bctx t name b hb).1]
      exact h.named name b hb
    · exact hn
  · rcases hold name b hb with ⟨hb, hM⟩ | ⟨-, hm⟩
    · obtain ⟨m, hm, hp⟩ := h.handle name b hb
      have hsp := hd.spares h.iso (h.iso.bctx t name b hb).1 hbase
      exact ⟨m, hM.trans hm, hP name m h.iso (h.live hb) hsp hp⟩
    · exact hm
  · exact htotal name m hm

/-- `Tx.CreateBucket` of a name that is free. -/
lemma Handles.createBucket (h : Handles P dead F w t M) (hP : ∀ name m, Local (P name m))
    (hname : name ≠ []) (hfree : ¬ (w.txs t).Taken name)
    (hnew : ∀ w', NewBucket w t name w' → P name m w' w.nextBucket) :
    ∃ w', Tx.createBucket t name w = (.ok (.ok w.nextBucket), w') ∧ NewBucket w t name w' ∧
      Keeps dead F w w' ∧ Handles P dead F w' t (M.insert name m) := by
  obtain ⟨w', e, hn⟩ := createBucket_eq h.sound h.opened h.writable hname hfree
  have hk : Keeps dead F w w' := by
    have hs : Stays (Keeps dead F) w (Tx.createBucket t name) fun _ _ => True :=
      h.iso.createBucket h.alive
    have hk := hs.1
    rwa [e] at hk
  refine ⟨w', e, hn, hk, h.dirStep hP hn.step hk.iso rfl h.opened h.writable (fun name' b hb => ?_)
    fun name' m hm => ?_⟩
  · by_cases hne : name' = name
    · subst hne
      rw [show ((w.txs t).addBucket name' w.nextBucket).bctx =
        (w.txs t).bctx.insert name' w.nextBucket from rfl, AList.lookup_insert] at hb
      cases hb
      exact .inr ⟨by rw [hn.bucket]; rfl, m, M.get_insert_self _ _, hnew w' hn⟩
    · rw [show ((w.txs t).addBucket name w.nextBucket).bctx =
        (w.txs t).bctx.insert name w.nextBucket from rfl, AList.lookup_insert_ne hne] at hb
      exact .inl ⟨hb, M.get_insert_of_ne hne _⟩
  · change (((w.txs t).bctx.insert name w.nextBucket).lookup name').isSome
    by_cases hne : name' = name
    · rw [hne, AList.lookup_insert]
      rfl
    · rw [AList.lookup_insert_ne hne]
      exact h.total name' m ((M.get_insert_of_ne hne _).symm.trans hm)

/-- A write of `tx.managed`. -/
lemma Handles.setManaged (h : Handles P dead F w t M) (hP : ∀ name m, Local (P name m)) (x : Bool) :
    Handles P dead F (w.setManaged t x) t M ∧ Keeps dead F w (w.setManaged t x) := by
  obtain ⟨e, hd⟩ := txModify_eq (t := t) (f := fun tx => { tx with managed := x }) h.sound
  have hk : Keeps dead F w (w.setManaged t x) := by
    have := (h.iso.modifyDir (f := fun tx => { tx with managed := x }) h.writable rfl rfl rfl
      fun _ _ => id).1
    rwa [e] at this
  exact ⟨h.dirStep hP hd hk.iso rfl h.opened h.writable (fun _ _ hb => .inl ⟨hb, rfl⟩) h.total, hk⟩

section
variable {P : Name → SortedMap Bytes Bytes → World → BucketId → Prop}
  {M : SortedMap Name (SortedMap Bytes Bytes)}

/-- What the handles hold is committed. -/
lemma Handles.commit {o : Tx.Order} (h : Handles P dead F w t M) (hm : (w.txs t).managed = false)
    (hl : w.db.rwlock = true) (hv : o.Valid w t) (hP : ∀ name m, Local (P name m))
    (hreb : ∀ x ∈ o.rebalance, ∀ m w b, w.Sound → P x.1 m w b →
      ∃ w', Evals (fun k => Bucket.rebalance k b x.2) w () w' ∧ w'.Sound ∧ Ready m w' b) :
    ∃ st w', Evals (fun k => Tx.commit k t o) w none w' ∧
      Commits dead F w t (fun name => (M.get name).getD .empty) st w' := by
  refine h.toTxRun.commit (P := fun name w b => P name ((M.get name).getD .empty) w b) hm hl hv
    (fun name => hP name _) (fun name b hb => ?_) fun x hx w b hw hp => hreb x hx _ w b hw hp
  obtain ⟨m, hm, hp⟩ := h.handle name b hb
  rw [hm]
  exact hp

end

/-! ## `DB.Update` -/

/-- The database lets a write transaction begin on the state `st`. -/
structure Free (dead : Finset TxId) (F : Set NodeId) (w : World) (st : DbState) : Prop where
  sound : w.Sound
  iso : Iso dead F w
  alive : w.nextTx ∉ dead
  writable : w.db.readOnly = false
  unlocked : w.db.rwlock = false
  opened : w.db.opened = true
  state : w.db.state = some st

/-- A write transaction that has just begun has no handles. -/
lemma Free.begin (h : Free dead F w st) :
    Handles P dead F (w.beginRW st) w.nextTx .empty ∧ Keeps dead F w (w.beginRW st) := by
  have hk : Keeps dead F w (w.beginRW st) := by
    have := (h.iso.begin true).1
    rwa [begin_eq_writable h.sound.cut h.writable h.unlocked h.opened h.state] at this
  have hb : ∀ name, ((w.beginRW st).txs w.nextTx).bctx.lookup name = none := fun name => by
    rw [World.beginRW_txs_self]
    rfl
  refine ⟨⟨⟨⟨h.sound.cut, h.sound.arr_lt, h.sound.len_le⟩, hk.iso, h.alive, by simp [Tx.opened],
    by simp [Tx.opened], fun name b e => ?_⟩, fun name b e => ?_, fun name m hm => ?_⟩, hk⟩
  · rw [hb] at e
    cases e
  · rw [hb] at e
    cases e
  · cases hm

/-- A `DB.Update` whose function returns nil commits what the handles hold. -/
lemma Free.update {P : Name → SortedMap Bytes Bytes → World → BucketId → Prop}
    {M : SortedMap Name (SortedMap Bytes Bytes)} {f : Nat → TxId → Go (Option Err)}
    {o : World → Tx.Order} (h : Free dead F w st) (hP : ∀ name m, Local (P name m))
    (hfn : Evals (fun k => f k w.nextTx) ((w.beginRW st).setManaged w.nextTx true) none w1)
    (h1 : Handles P dead F w1 w.nextTx M) (hl : w1.db.rwlock = true)
    (hv : ∀ v, (o v).Valid v w.nextTx)
    (hreb : ∀ v, ∀ x ∈ (o v).rebalance, ∀ m w b, w.Sound → P x.1 m w b →
      ∃ w', Evals (fun k => Bucket.rebalance k b x.2) w () w' ∧ w'.Sound ∧ Ready m w' b) :
    ∃ st' w', Evals (fun k => DB.update k o (f k)) w none w' ∧
      Commits dead F (w1.setManaged w.nextTx false) w.nextTx (fun name => (M.get name).getD .empty)
        st' w' := by
  obtain ⟨h2, -⟩ := h1.setManaged hP false
  obtain ⟨st', w', e, hc⟩ :=
    h2.commit (o := o (w1.setManaged w.nextTx false)) (by simp) hl (hv _) hP (hreb _)
  refine ⟨st', w', ?_, hc⟩
  filter_upwards [hfn, e] with k hk1 hk2
  rw [update_eq h.sound.cut h.writable h.unlocked h.opened h.state]
  exact managed_eq_ok h.sound.cut hk1 h1.sound.cut hk2 hc.closed

end

end Vmbolt
