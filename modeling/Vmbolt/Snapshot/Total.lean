import Vmbolt.Isolation.Bounds
import Vmbolt.Snapshot.Restore

/-!
# Restoring on any database

`DB.Restore` on the states a database can be in, for any input. The parse of the input says how it
ends: the buckets of the parse are published, or the published state stays as it is. The only input
on which it does not return is one that asks for a value longer than the largest slice.
-/

namespace Vmbolt
open Filter Prog

/-- From `w` to `w'` the published state is the same: its pointer, and the nodes that it leads
to. -/
structure SameState (w w' : World) : Prop where
  db : w'.db = w.db
  node : ∀ st n, w.db.state = some st → Reaches w st n →
    w'.nodes n = w.nodes n ∧ w'.inodes n = w.inodes n

lemma SameState.refl (w : World) : SameState w w := ⟨rfl, fun _ _ _ _ => ⟨rfl, rfl⟩⟩

section
variable {w w' v : World} {dead : Finset TxId} {F : Set NodeId} {st st' : DbState} {s r : Bytes}
  {V : SortedMap Name (SortedMap Bytes Bytes)} {order : World → Tx.Order} {e : Err}

/-! ## The transaction of `DB.Restore` -/

/-- The state in which the function of `DB.Update` starts. -/
def World.beginManaged (w : World) (st : DbState) : World := (w.beginRW st).setManaged w.nextTx true

lemma Free.restoring (h : Free dead F w st) :
    Restoring dead F (w.beginManaged st) st (w.beginManaged st) w.nextTx .empty ∧
      Frozen F w (w.beginManaged st) := by
  obtain ⟨h1, k1⟩ := h.begin (P := fun _ => SingleLeaf)
  obtain ⟨h2, k2⟩ := h1.setManaged (fun _ m => SingleLeaf.local' m) true
  have htx : (w.beginManaged st).txs w.nextTx = { Tx.opened true st with managed := true } := by
    simp [World.beginManaged]
  refine ⟨⟨h2, rfl, rfl, .refl F _, by rw [htx]; rfl, fun name => ?_, by rw [htx]; rfl⟩,
    k1.toFrozen.trans k2.toFrozen⟩
  rw [htx]
  simp [Tx.opened, Tx.zero, SortedMap.get_empty]

/-- A transaction of `DB.Restore` that is given up leaves the published state. -/
lemma Free.sameState (h : Free dead F w st)
    (hv : Restoring dead F (w.beginManaged st) st v w.nextTx V) (hn : w'.nodes = v.nodes)
    (ha : w'.arrays = v.arrays) (hdb : w'.db = { v.db with rwlock := false }) : SameState w w' := by
  refine ⟨?_, fun st' n hst hr => ?_⟩
  · rw [hdb, hv.db]
    change { w.db with rwlock := false } = w.db
    rw [← h.unlocked]
  · have hF : n ∈ F := h.iso.reaches (h.iso.state st' hst) hr
    have hf := h.restoring.2.trans hv.frozen
    refine ⟨by rw [hn, hf.node n hF], ?_⟩
    rw [← hf.inodes n hF]
    unfold World.inodes
    rw [hn, ha]

/-- The transaction of `DB.Restore` holds the lock. -/
lemma Restoring.locked (hv : Restoring dead F (w.beginManaged st) st v w.nextTx V) :
    v.db.rwlock = true := by
  rw [hv.db]
  rfl

/-- What `DB.Restore` leaves if the parse of the input gives the buckets `V`: they are published
next to the buckets that were there. -/
structure Restored (w : World) (st : DbState) (V : SortedMap Name (SortedMap Bytes Bytes))
    (st' : DbState) (w' : World) : Prop where
  sound : w'.Sound
  rt : w'.rt = w.rt
  db : w'.db = { w.db with state := some st' }
  holds : ∀ name m, V.get name = some m → ∃ bs, st'.buckets.lookup name = some bs ∧
    StateHolds w' bs m
  kept : ∀ name, V.get name = none → st'.buckets.lookup name = st.buckets.lookup name

/-- The function of `DB.Restore` returns nil. -/
lemma Free.restore_ok (h : Free dead F w st) (hv : ∀ v, (order v).Valid v w.nextTx)
    (hp : parseSnapshot w.rt.maxSliceLen st.has s = .ok V) :
    ∃ st' w', Evals (fun k => DB.restore k order s) w none w' ∧ Restored w st V st' w' := by
  rcases header_cases s with ⟨res, r, rfl, hres, hrun⟩ | ⟨e, he, -⟩
  swap
  · rw [he] at hp
    cases hp
  rw [parseSnapshot_eq hres] at hp
  have hb := h.restoring.1.buckets (r := r)
  rw [show (w.beginManaged st).rt = w.rt from rfl, hp] at hb
  obtain ⟨y, v, ev, rfl, hv1⟩ := hb
  obtain ⟨st', w', ev', hc⟩ := h.update (f := fun k t => DB.restoreBuckets k t r) (o := order)
    (fun _ m => SingleLeaf.local' m) ev hv1.toHandles hv1.locked hv
    fun _ x _ m w b hs hl => hl.rebalance hs x.2
  refine ⟨st', w', ev'.mono fun k hk => (congrFun (hrun k order) w).trans hk, hc.sound,
    hc.rt.trans hv1.rt, ?_, fun name m hm => ?_, fun name hm => ?_⟩
  · rw [hc.db, show (v.setManaged w.nextTx false).db = v.db from rfl, hv1.db]
    change { w.db with state := some st', rwlock := false } = _
    rw [← h.unlocked]
  · obtain ⟨b, hb⟩ := Option.isSome_iff_exists.1 (hv1.total name m hm)
    obtain ⟨bs, h1, h2⟩ := hc.handle name b (by simpa using hb) (by simp [hv1.deleted])
    rw [hm] at h2
    exact ⟨bs, h1, h2⟩
  · have hb : ((v.setManaged w.nextTx false).txs w.nextTx).bctx.lookup name = none := by
      rw [World.setManaged_txs_self]
      rcases hl : (v.txs w.nextTx).bctx.lookup name with _ | b
      · rfl
      · obtain ⟨m, hm', -⟩ := hv1.handle name b hl
        rw [hm] at hm'
        cases hm'
    rw [hc.kept name hb, lookup_keptBuckets_eq (by simpa using hv1.base)]
    exact if_neg (by simp [hv1.deleted])

/-- The function of `DB.Restore` returns an error. -/
lemma Free.restore_err (h : Free dead F w st) (order : World → Tx.Order)
    (hp : parseSnapshot w.rt.maxSliceLen st.has s = .error (.err e)) :
    ∃ w', Evals (fun k => DB.restore k order s) w (some e) w' ∧ SameState w w' := by
  rcases header_cases s with ⟨res, r, rfl, hres, hrun⟩ | ⟨e', he, hrun⟩
  swap
  · rw [he] at hp
    cases hp
    exact ⟨w, Eventually.of_forall fun k => congrFun (hrun k order) w, .refl w⟩
  rw [parseSnapshot_eq hres] at hp
  have hb := h.restoring.1.buckets (r := r)
  rw [show (w.beginManaged st).rt = w.rt from rfl, hp] at hb
  obtain ⟨v, V', ev, hv⟩ := hb
  refine ⟨(v.setManaged w.nextTx false).closeTx w.nextTx, ev.mono fun k hk => ?_,
    h.sameState hv rfl rfl ?_⟩
  · refine (congrFun (hrun k order) w).trans ?_
    rw [update_eq h.sound.cut h.writable h.unlocked h.opened h.state]
    exact managed_eq_error (f := fun t => DB.restoreBuckets k t r) h.sound.cut hk
      hv.sound.cut hv.opened fun _ => hv.locked
  · simp [World.closeTx, World.setManaged, World.setTx, hv.writable]

/-- The function of `DB.Restore` panics. -/
lemma Free.restore_overlong (h : Free dead F w st) (order : World → Tx.Order)
    (hp : parseSnapshot w.rt.maxSliceLen st.has s = .error .overlong) :
    ∃ w', Panics (fun k => DB.restore k order s) w .makesliceLenOutOfRange w' ∧ SameState w w' := by
  rcases header_cases s with ⟨res, r, rfl, hres, hrun⟩ | ⟨e', he, -⟩
  swap
  · rw [he] at hp
    cases hp
  rw [parseSnapshot_eq hres] at hp
  have hb := h.restoring.1.buckets (r := r)
  rw [show (w.beginManaged st).rt = w.rt from rfl, hp] at hb
  obtain ⟨v, V', ev, hv⟩ := hb
  refine ⟨v.closeTx w.nextTx, ev.mono fun k hk => ?_, h.sameState hv rfl rfl ?_⟩
  · refine (congrFun (hrun k order) w).trans ?_
    rw [update_eq h.sound.cut h.writable h.unlocked h.opened h.state]
    exact managed_eq_panic (f := fun t => DB.restoreBuckets k t r) h.sound.cut hk
      hv.sound.cut hv.opened fun _ => hv.locked
  · simp [World.closeTx, World.setTx, hv.writable]

/-! ## The states of a run -/

/-- A run that leaves the lock free lets a write transaction begin. -/
lemma Steps.free {rt : Runtime} {readOnly : Bool} {s : Sys} (h : Steps (Sys.init rt readOnly) s)
    (hr : s.world.db.readOnly = false) (hl : s.world.db.rwlock = false)
    (ho : s.world.db.opened = true) (hst : s.world.db.state = some st) :
    ∃ dead F, Free dead F s.world st := by
  obtain ⟨-, F, -, hi⟩ := h.frozen (iso_init rt readOnly)
  refine ⟨s.ended.erase s.world.nextTx, F, h.sound, ?_, Finset.notMem_erase _ _, hr, hl, ho, hst⟩
  by_cases hm : s.world.nextTx ∈ s.ended
  · rw [← Finset.insert_erase hm] at hi
    refine hi.revive ?_
    by_contra hc
    exact lt_irrefl _ (hi.opened _ (by simpa using hc))
  · rwa [Finset.erase_eq_of_notMem hm]

/-- `DB.Restore` on a database that does not let a write transaction begin. -/
lemma restore_refused (h : DB.begin_ true w = (.ok (.error e), w)) (order : World → Tx.Order)
    (s : Bytes) :
    ∃ e, Evals (fun k => DB.restore k order s) w (some e) w := by
  rcases header_cases s with ⟨-, r, -, -, hrun⟩ | ⟨e', -, hrun⟩
  · exact ⟨e, Eventually.of_forall fun k => (congrFun (hrun k order) w).trans (update_eq_error h)⟩
  · exact ⟨e', Eventually.of_forall fun k => congrFun (hrun k order) w⟩

/-- `DB.Restore` on any input, for a database in any state, open or closed, whose lock is free. It
returns, and leaves the published state if it returns an error, exactly if the input does not lead a
write transaction to a value whose length is over the largest slice length. Otherwise `make` panics,
and the published state stays as it is. -/
theorem restore_total_iff {rt : Runtime} {readOnly : Bool} {sys : Sys}
    (h : Steps (Sys.init rt readOnly) sys) (hw : w = sys.world ∨ DB.close sys.world = (.ok (), w))
    (hl : w.db.rwlock = false) (hv : ∀ v, (order v).Valid v w.nextTx) (s : Bytes) :
    ((∃ err w', Evals (fun k => DB.restore k order s) w err w' ∧ (err ≠ none → SameState w w')) ↔
      ∀ st, w.db.readOnly = false → w.db.opened = true → w.db.state = some st →
        ¬ Overlong w.rt.maxSliceLen st.has s) ∧
    ∀ st, w.db.readOnly = false → w.db.opened = true → w.db.state = some st →
      Overlong w.rt.maxSliceLen st.has s →
        ∃ w', Panics (fun k => DB.restore k order s) w .makesliceLenOutOfRange w' ∧
          SameState w w' := by
  have hc := h.cut
  have hw : w = sys.world ∨ w = sys.world.closeDB := by
    refine hw.imp_right fun hcl => ?_
    by_cases hlock : sys.world.db.rwlock = true
    · rw [dbClose_hang hlock] at hcl
      cases hcl
    · rw [dbClose_eq hc (by simpa using hlock)] at hcl
      cases hcl
      rfl
  have hcut : w.cut = none := by
    rcases hw with rfl | rfl
    · exact hc
    · exact hc
  -- a database that refuses write transactions
  have hrefused : ∀ {e : Err}, DB.begin_ true w = (.ok (.error e), w) →
      ∃ err w', Evals (fun k => DB.restore k order s) w err w' ∧ (err ≠ none → SameState w w') := by
    intro e hb
    obtain ⟨e', he⟩ := restore_refused hb order s
    exact ⟨some e', w, he, fun _ => .refl w⟩
  -- a database that is free
  have hfree : ∀ {st}, w.db.readOnly = false → w.db.opened = true → w.db.state = some st →
      ∃ dead F, Free dead F w st := by
    intro st hr ho hst
    rcases hw with rfl | rfl
    · exact h.free hr hl ho hst
    · cases ho
  have hpanics : ∀ st, w.db.readOnly = false → w.db.opened = true → w.db.state = some st →
      Overlong w.rt.maxSliceLen st.has s →
        ∃ w', Panics (fun k => DB.restore k order s) w .makesliceLenOutOfRange w' ∧
        SameState w w' := by
    intro st hr ho hst hover
    obtain ⟨dead, F, hf⟩ := hfree hr ho hst
    exact hf.restore_overlong order ((parseSnapshot_eq_overlong w.rt.maxSliceLen_ge).2 hover)
  refine ⟨⟨?_, fun hcond => ?_⟩, hpanics⟩
  · rintro ⟨err, w', he, -⟩ st hr ho hst hover
    obtain ⟨w'', hp, -⟩ := hpanics st hr ho hst hover
    obtain ⟨k, h1, h2⟩ := (he.and hp).exists
    rw [h1] at h2
    cases h2
  · by_cases hr : w.db.readOnly = true
    · exact hrefused (begin_eq_readOnly hr)
    rw [Bool.not_eq_true] at hr
    by_cases ho : w.db.opened = true
    swap
    · exact hrefused (begin_eq_notOpen hcut hr hl (.inl (by simpa using ho)))
    rcases hst : w.db.state with _ | st
    · exact hrefused (begin_eq_notOpen hcut hr hl (.inr hst))
    obtain ⟨dead, F, hf⟩ := hfree hr ho hst
    rcases hp : parseSnapshot w.rt.maxSliceLen st.has s with (e | _) | V
    · obtain ⟨w', he, hs⟩ := hf.restore_err order hp
      exact ⟨some e, w', he, fun _ => hs⟩
    · exact absurd ((parseSnapshot_eq_overlong w.rt.maxSliceLen_ge).1 hp) (hcond st hr ho hst)
    · obtain ⟨st', w', he, -⟩ := hf.restore_ok hv hp
      exact ⟨none, w', he, fun hne => absurd rfl hne⟩

/-- A snapshot of one bucket `[2]` that breaks off in the value of the key `[3]`: of `len` bytes
only one is there. -/
def brokenOff (len : Nat) : Bytes :=
  snapshotHeader ++ putUint32 1 ++ [2] ++ putUint32 1 ++ [3] ++ putUint64 len ++ [4]

/-- What stands behind the name of the bucket is not a pair. -/
lemma parse_brokenOff {taken : Name → Bool} (h : taken [2] = false) :
    parseSnapshot firstClosed.world.rt.maxSliceLen taken (brokenOff 9) =
      .error (.err (.snapshotVal .unexpectedEOF)) := by
  let rest : Bytes := putUint32 1 ++ [3] ++ putUint64 9 ++ [4]
  have hname : nextName firstClosed.world.rt.maxSliceLen (putUint32 1 ++ [2] ++ rest) =
      .ok (some [2], rest) := by decide +kernel
  have hpair : nextPair firstClosed.world.rt.maxSliceLen rest =
      .error (.err (.snapshotVal .unexpectedEOF)) := by decide +kernel
  have hpairs : parsePairs firstClosed.world.rt.maxSliceLen .empty rest =
      .error (.err (.snapshotVal .unexpectedEOF)) := by
    unfold parsePairs
    split <;> next e => cases hpair.symm.trans e <;> rfl
  change parseBuckets firstClosed.world.rt.maxSliceLen taken .empty (putUint32 1 ++ [2] ++ rest) = _
  unfold parseBuckets
  split
  next e => cases hname.symm.trans e
  next e => cases hname.symm.trans e
  next e =>
    cases hname.symm.trans e
    rw [if_neg (by simp [h, SortedMap.get, SortedMap.empty, findEntry])]
    split <;> next e => cases hpairs.symm.trans e <;> rfl

/-- On a database with the bucket `[1]`, a snapshot that breaks off in a value of 9 bytes is
refused, and one that announces 2^64 - 1 bytes makes `DB.Restore` panic. In both cases the bucket
`[2]` was created before, and the published state is as it was. -/
theorem restore_total_iff_firstClosed :
    (∃ w', Evals (fun k => DB.restore k (fun v => Tx.Order.sorted v 1) (brokenOff 9))
      firstClosed.world
      (some (.snapshotVal .unexpectedEOF)) w' ∧ SameState firstClosed.world w') ∧
    ∃ w', Panics (fun k => DB.restore k (fun v => Tx.Order.sorted v 1) (brokenOff (2 ^ 64 - 1)))
      firstClosed.world .makesliceLenOutOfRange w' ∧ SameState firstClosed.world w' := by
  obtain ⟨st, hst⟩ := Option.isSome_iff_exists.1 (show firstClosed.world.db.state.isSome by decide)
  have hnew : st.has [2] = false := by
    have hmap : (firstClosed.world.db.state.map fun st => st.has [2]) = some false := by
      decide +kernel
    rw [hst] at hmap
    exact Option.some.inj hmap
  have hfree : firstClosed.world.db.rwlock = false := by decide
  have htotal := restore_total_iff steps_firstClosed (.inl rfl) hfree fun v =>
    Tx.Order.sorted_valid v 1
  constructor
  · obtain ⟨err, w', he, hs⟩ := (htotal (brokenOff 9)).1.2 fun st' _ _ hst' hover => by
      cases hst.symm.trans hst'
      have hp := (parseSnapshot_eq_overlong (Runtime.maxSliceLen_ge _)).2 hover
      rw [parse_brokenOff hnew] at hp
      cases hp
    obtain ⟨dead, F, hf⟩ := steps_firstClosed.free (by decide) hfree (by decide) hst
    obtain ⟨w'', he', -⟩ := hf.restore_err (fun v => Tx.Order.sorted v 1) (parse_brokenOff hnew)
    obtain ⟨rfl, rfl⟩ := he.unique he'
    exact ⟨w', he, hs (by simp)⟩
  · refine (htotal (brokenOff (2 ^ 64 - 1))).2 st (by decide) (by decide) hst ?_
    refine ⟨putUint32 0 ++ putUint32 0, [], ([2], []),
      putUint32 1 ++ [3] ++ putUint64 (2 ^ 64 - 1) ++ [4], ?_,
      rfl, ⟨[3], putUint64 (2 ^ 64 - 1), [4], ?_, by simp, by decide, rfl, ?_⟩,
      fun y hy => ?_, by simp⟩
    · decide +kernel
    · decide +kernel
    · decide +kernel
    · obtain rfl := List.mem_singleton.1 hy
      exact ⟨⟨by simp, by simp, fun p hp => by cases hp⟩, hnew⟩

/-- A snapshot of one bucket `[1]` with the key `[2]`, whose value has a length of 2^64 - 1. -/
def overlongValue : Bytes :=
  snapshotHeader ++ putUint32 1 ++ [1] ++ putUint32 1 ++ [2] ++ putUint64 (2 ^ 64 - 1)

/-- On the empty database `DB.Restore` of this snapshot panics. -/
theorem restore_panics_on_overlong_value : ∃ w',
    Panics (fun k => DB.restore k (fun v => Tx.Order.sorted v 0) overlongValue)
      (World.init default false)
      .makesliceLenOutOfRange w' := by
  have hover :
      Overlong (World.init default false).rt.maxSliceLen (DbState.has ⟨∅⟩) overlongValue := by
    refine ⟨putUint32 0 ++ putUint32 0, [], ([1], []),
      putUint32 1 ++ [2] ++ putUint64 (2 ^ 64 - 1), ?_, ?_,
      ⟨[2], putUint64 (2 ^ 64 - 1), [], ?_, ?_, ?_, ?_, ?_⟩, fun y hy => ?_, ?_⟩
    · decide +kernel
    · rfl
    · decide +kernel
    · simp
    · decide
    · rfl
    · decide +kernel
    · obtain rfl := List.mem_singleton.1 hy
      exact ⟨⟨by simp, by simp, fun p hp => by cases hp⟩, rfl⟩
    · simp
  obtain ⟨dead, F, hf⟩ := Steps.free (s := Sys.init default false) .refl rfl rfl rfl rfl
  obtain ⟨w', hp, -⟩ := hf.restore_overlong (fun v => Tx.Order.sorted v 0)
    ((parseSnapshot_eq_overlong (Runtime.maxSliceLen_ge _)).2 hover)
  exact ⟨w', hp⟩

end

end Vmbolt
