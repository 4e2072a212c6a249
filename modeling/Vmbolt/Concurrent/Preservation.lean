import Vmbolt.Concurrent.Invariant
import Vmbolt.Lib.Systems

/-!
# The steps keep the invariant

The moves of one goroutine first, then the steps of the code and of the user, and with them every
interleaving (`Reachable.inv`).
-/

namespace Vmbolt.Concurrent
open Systems

variable {β : Type} {d₀ : Dir β} {c : Config} {s s' : State β} {t : TxId} {k : CloseId}
  {x : TxState β} {sh' : Shared β}

section
variable (h : Inv d₀ s)
include h

/-! ### Moves of one goroutine -/

/-- A transaction moves, and the shared state with it. -/
lemma Inv.moveTx (ht : t < s.nextTx) (hx : TxOK d₀ sh' t x)
    (hspares : ∀ t', t' ≠ t → Spares s.shared sh' t')
    (hclose : ∀ k, sh'.rwlock = some (.close k) ↔ s.shared.rwlock = some (.close k))
    (hopened : sh'.opened = s.shared.opened) (hstate : sh'.opened = true → sh'.state ≠ none)
    (hchain : ∃ d, Chain d₀ sh'.log d ∧ ∀ d', sh'.state = some d' → d' = d)
    (honce : sh'.committers.Nodup) : Inv d₀ ((s.setShared sh').setTx t x) where
  tx := (Function.forall_update_iff s.tx fun t' y => TxOK d₀ sh' t' y).mpr
    ⟨hx, fun t' ht' => (h.tx t').transfer (hspares t' ht')⟩
  close k := (h.close k).trans (hclose k).symm
  closing k hk := hopened.trans (h.closing k hk)
  unused := (Function.forall_update_iff s.tx fun t' y => s.nextTx ≤ t' → y = .zero).mpr
    ⟨fun hle => absurd ht (not_lt.mpr hle), fun t' _ => h.unused t'⟩
  unusedClose := h.unusedClose
  opened := hstate
  chain := hchain
  once := honce

/-- A transaction moves by itself. -/
lemma Inv.setTx (ht : t < s.nextTx) (hx : TxOK d₀ s.shared t x) : Inv d₀ (s.setTx t x) :=
  h.moveTx ht hx (fun _ _ => .refl) (fun _ => Iff.rfl) rfl h.opened h.chain h.once

/-- A transaction moves and takes or releases the lock. -/
lemma Inv.setLock (ht : t < s.nextTx) {r : Option Holder}
    (hx : TxOK d₀ { s.shared with rwlock := r } t x)
    (htx : ∀ t', t' ≠ t → (r = some (.tx t') ↔ s.shared.rwlock = some (.tx t')))
    (hclose : ∀ k, r = some (.close k) ↔ s.shared.rwlock = some (.close k)) :
    Inv d₀ ((s.setShared { s.shared with rwlock := r }).setTx t x) :=
  h.moveTx ht hx
    (fun t' ht' => ⟨htx t' ht', fun _ => rfl, fun _ => rfl, List.prefix_refl _, Iff.rfl⟩) hclose rfl
    h.opened h.chain h.once

/-- A call of `Close` moves, and the shared state with it. -/
lemma Inv.moveClose {p : ClosePc} (hk : k < s.nextClose)
    (hself : p.holds = true ↔ sh'.rwlock = some (.close k))
    (hother : ∀ k', k' ≠ k → (sh'.rwlock = some (.close k') ↔ s.shared.rwlock = some (.close k')))
    (hspares : ∀ t, Spares s.shared sh' t) (hlog : sh'.log = s.shared.log)
    (hopened : sh'.opened = true → s.shared.opened = true ∧ sh'.state = s.shared.state)
    (hclosing : p = .setState → sh'.opened = false)
    (hstate : ∀ d, sh'.state = some d → s.shared.state = some d) :
    Inv d₀ ((s.setShared sh').setClose k p) where
  tx t := (h.tx t).transfer (hspares t)
  close := (Function.forall_update_iff s.close fun k' q =>
    q.holds = true ↔ sh'.rwlock = some (.close k')).mpr
      ⟨hself, fun k' hk' => (h.close k').trans (hother k' hk').symm⟩
  closing := (Function.forall_update_iff s.close fun _ q =>
    q = .setState → sh'.opened = false).mpr ⟨hclosing, fun k' _ hk' => by
      by_contra ho
      have := (hopened (by simpa using ho)).1
      rw [h.closing k' hk'] at this
      cases this⟩
  unused := h.unused
  unusedClose := (Function.forall_update_iff s.close fun k' q => s.nextClose ≤ k' → q = .idle).mpr
    ⟨fun hle => absurd hk (not_lt.mpr hle), fun k' _ => h.unusedClose k'⟩
  opened ho := by
    obtain ⟨ho', hst⟩ := hopened ho
    change sh'.state ≠ none
    rw [hst]
    exact h.opened ho'
  chain := by
    obtain ⟨d, hd, hst⟩ := h.chain
    refine ⟨d, ?_, fun d' hd' => hst d' (hstate d' hd')⟩
    change Chain d₀ sh'.log d
    rw [hlog]
    exact hd
  once := by
    change (sh'.log.map Published.tx).Nodup
    rw [hlog]
    exact h.once

/-- A transaction that has begun has a number. -/
lemma Inv.lt_nextTx {p : Pc β} (hpc : (s.tx t).pc = p) (hp : p ≠ .idle) : t < s.nextTx := by
  by_contra hlt
  apply hp
  rw [← hpc, h.unused t (not_lt.mp hlt)]
  rfl

/-- A call of `Close` that has begun has a number. -/
lemma Inv.lt_nextClose (hk : s.close k ≠ .idle) : k < s.nextClose := by
  by_contra hlt
  exact hk (h.unusedClose k (not_lt.mp hlt))

/-- What holds of a transaction at the place `p`. -/
lemma Inv.at {p : Pc β} (hpc : (s.tx t).pc = p) : TxAt d₀ s.shared t (s.tx t) p :=
  (h.tx t).at hpc

/-! ### The steps of the code -/

/-- `Begin(true)` takes the lock. -/
lemma Inv.rwLock (hpc : (s.tx t).pc = .rwLock) (hfree : s.shared.rwlock = none) :
    Inv d₀ ((s.setShared (s.shared.lock (.tx t))).setTx t ((s.tx t).goto .rwOpened)) := by
  obtain ⟨his, hw⟩ := h.at hpc
  apply h.setLock (h.lt_nextTx hpc (by rintro ⟨⟩))
  · exact ⟨his.lock_taken.goto, hw⟩
  · intro t' ht'
    rw [hfree]
    simp [Ne.symm ht']
  · intro k
    rw [hfree]
    simp

/-- A transaction releases its lock. -/
lemma Inv.unlock {p : Pc β} (ht : t < s.nextTx) (hlock : s.shared.rwlock = some (.tx t))
    (hx : TxOK d₀ s.shared.unlock t ((s.tx t).goto p)) :
    Inv d₀ ((s.setShared s.shared.unlock).setTx t ((s.tx t).goto p)) := by
  apply h.setLock ht hx
  · intro t' ht'
    rw [hlock]
    simp [Ne.symm ht']
  · intro k
    rw [hlock]
    simp

/-- `Commit` stores the new directory. -/
lemma Inv.store {d : Dir β} (hpc : (s.tx t).pc = .storing d) :
    Inv d₀ ((s.setShared
      (s.shared.store t ((s.tx t).base.getD fun _ => none) (s.tx t).edits d)).setTx t
      { s.tx t with pc := .closing .commit, committed := true }) := by
  obtain ⟨hwr, b, hbase, hd⟩ := h.at hpc
  have hlock := hwr.is.lock.mpr rfl
  have hstate : s.shared.state = some b := hwr.current.symm.trans hbase
  obtain ⟨last, hchain, hlast⟩ := h.chain
  have hb : b = last := hlast b hstate
  have hnew : t ∉ s.shared.committers := by
    rw [hwr.is.logged]
    simp
  rw [hbase, Option.getD_some]
  have hcommitters : (s.shared.store t b (s.tx t).edits d).committers =
      s.shared.committers ++ [t] := by
    simp [Shared.store, Shared.committers]
  apply h.moveTx (h.lt_nextTx hpc (by rintro ⟨⟩))
  · refine ⟨⟨iff_of_true hlock rfl, hwr.is.db, rfl, ?_, iff_of_true ?_ rfl⟩, hwr.writable⟩
    · exact hwr.is.begun.trans (List.prefix_append _ _).length_le
    · rw [hcommitters]
      exact List.mem_append_right _ (List.mem_singleton_self t)
  · -- the other transactions do not hold the lock
    intro t' ht'
    have hfree : s.shared.rwlock ≠ some (.tx t') := by
      rw [hlock]
      simp [Ne.symm ht']
    refine ⟨Iff.rfl, fun hl => absurd hl hfree, fun _ => rfl, List.prefix_append _ _, ?_⟩
    rw [hcommitters]
    simp [ht']
  · exact fun _ => Iff.rfl
  · rfl
  · exact fun _ => by simp [Shared.store]
  · refine ⟨d, ?_, fun d' hd' => (Option.some.inj hd').symm⟩
    refine Chain.snoc (p := ⟨t, b, (s.tx t).edits, d⟩) ?_ hd
    rw [hb]
    exact hchain
  · rw [hcommitters]
    exact List.nodup_append.mpr ⟨h.once, List.nodup_singleton t, fun a ha e he hae =>
      hnew (List.mem_singleton.mp he ▸ hae ▸ ha)⟩

/-- `Close` takes the lock. -/
lemma Inv.dbLock (hk : s.close k = .lock) (hfree : s.shared.rwlock = none) :
    Inv d₀ ((s.setShared (s.shared.lock (.close k))).setClose k .check) := by
  apply h.moveClose (h.lt_nextClose (by rw [hk]; rintro ⟨⟩))
  · exact iff_of_true rfl rfl
  · intro k' hk'
    rw [hfree]
    simp [Shared.lock, Ne.symm hk']
  · intro t
    refine ⟨?_, fun _ => rfl, fun _ => rfl, List.prefix_refl _, Iff.rfl⟩
    rw [hfree]
    simp [Shared.lock]
  · rfl
  · exact fun ho => ⟨ho, rfl⟩
  · rintro ⟨⟩
  · exact fun _ hd => hd

/-- `Close` writes to the shared state, under the lock. -/
lemma Inv.dbWrite {p : ClosePc} {opened : Bool} {state : Option (Dir β)}
    (hk : (s.close k).holds = true) (hp : p.holds = true)
    (hopened : opened = true → s.shared.opened = true ∧ state = s.shared.state)
    (hclosing : p = .setState → opened = false)
    (hstate : ∀ d, state = some d → s.shared.state = some d) :
    Inv d₀ ((s.setShared { s.shared with opened := opened, state := state }).setClose k p) := by
  have hlock := (h.close k).mp hk
  apply h.moveClose (h.lt_nextClose (by intro hidle; rw [hidle] at hk; cases hk))
  · exact iff_of_true hp hlock
  · exact fun _ _ => Iff.rfl
  · intro t
    have hfree : s.shared.rwlock ≠ some (.tx t) := by
      rw [hlock]
      simp
    exact ⟨Iff.rfl, fun hl => absurd hl hfree, fun hl => absurd hl hfree,
      List.prefix_refl _, Iff.rfl⟩
  · rfl
  · exact hopened
  · exact hclosing
  · exact hstate

/-- `Close` releases the lock. -/
lemma Inv.dbUnlock (hk : s.close k = .unlock) :
    Inv d₀ ((s.setShared s.shared.unlock).setClose k .done) := by
  have hlock := (h.close k).mp (by rw [hk]; rfl)
  apply h.moveClose (h.lt_nextClose (by rw [hk]; rintro ⟨⟩))
  · simp [ClosePc.holds, Shared.unlock]
  · intro k' hk'
    rw [hlock]
    simp [Shared.unlock, Ne.symm hk']
  · intro t
    refine ⟨?_, fun _ => rfl, fun _ => rfl, List.prefix_refl _, Iff.rfl⟩
    rw [hlock]
    simp [Shared.unlock]
  · rfl
  · exact fun ho => ⟨ho, rfl⟩
  · rintro ⟨⟩
  · exact fun _ hd => hd

/-- The base that `Begin` loads is the last published directory. -/
lemma Inv.snapshot {d : Dir β} {p : Pc β} (hstate : s.shared.state = some d)
    (hx : x.begunAt ≤ s.shared.log.length) :
    Snapshot d₀ s.shared (x.begun d s.shared.log.length p) := by
  obtain ⟨last, hchain, hlast⟩ := h.chain
  refine ⟨?_, hx, le_rfl⟩
  change some d = some (replay d₀ (s.shared.log.take s.shared.log.length))
  rw [List.take_length, ← hchain.eq_replay, hlast d hstate]

/-- A change of the statistics or of the record of the handlers. -/
lemma Inv.moveQuiet (ht : t < s.nextTx) (hx : TxOK d₀ s.shared t x) {openTxN txN : ℤ}
    {ran : List (TxId × HandlerId)} :
    Inv d₀ ((s.setShared { s.shared with openTxN := openTxN, txN := txN, ran := ran }).setTx
      t x) := by
  have hspares : ∀ t', Spares s.shared
      { s.shared with openTxN := openTxN, txN := txN, ran := ran } t' :=
    fun _ => ⟨Iff.rfl, fun _ => rfl, fun _ => rfl, List.prefix_refl _, Iff.rfl⟩
  exact h.moveTx ht (hx.transfer (hspares t)) (fun t' _ => hspares t') (fun _ => Iff.rfl)
    rfl h.opened h.chain h.once

/-- The steps of a transaction keep the invariant. -/
lemma Inv.txAct (hact : TxAct c t s.shared (s.tx t) sh' x) :
    Inv d₀ ((s.setShared sh').setTx t x) := by
  cases hact with
  | rwBegin hpc =>
    have ht := h.lt_nextTx hpc (by rintro ⟨⟩)
    obtain ⟨his, hw⟩ := h.at hpc
    split
    · exact h.setTx ht his.goto
    · exact h.setTx ht ⟨his.goto, hw⟩
  | rwLock hpc hfree => exact h.rwLock hpc hfree
  | rwOpened hpc =>
    have ht := h.lt_nextTx hpc (by rintro ⟨⟩)
    obtain ⟨his, hw⟩ := h.at hpc
    split
    · next ho => exact h.setTx ht ⟨his.goto, hw, ho⟩
    · exact h.setTx ht ⟨his.goto, hw⟩
  | @rwLoad d hpc hstate =>
    obtain ⟨his, hw, -⟩ := h.at hpc
    apply h.setTx (h.lt_nextTx hpc (by rintro ⟨⟩))
    exact .inl ⟨⟨his.lock, rfl, his.committed, his.begun, his.logged⟩, hw,
      h.snapshot hstate his.begun, hstate.symm⟩
  | rwLoadNil hpc _ =>
    obtain ⟨his, hw, -⟩ := h.at hpc
    exact h.setTx (h.lt_nextTx hpc (by rintro ⟨⟩)) ⟨his.goto, hw⟩
  | rwFail hpc =>
    obtain ⟨his, hw⟩ := h.at hpc
    exact h.unlock (h.lt_nextTx hpc (by rintro ⟨⟩)) (his.lock.mpr rfl) his.lock_released.goto
  | roOpened hpc =>
    have ht := h.lt_nextTx hpc (by rintro ⟨⟩)
    obtain ⟨his, hw⟩ := h.at hpc
    split
    · exact h.setTx ht ⟨his.goto, hw⟩
    · exact h.setTx ht his.goto
  | @roLoad d hpc hstate =>
    obtain ⟨his, hw⟩ := h.at hpc
    apply h.setTx (h.lt_nextTx hpc (by rintro ⟨⟩))
    exact ⟨⟨his.lock, rfl, his.committed, his.begun, his.logged⟩, hw, h.snapshot hstate his.begun⟩
  | roLoadNil hpc _ =>
    obtain ⟨his, -⟩ := h.at hpc
    exact h.setTx (h.lt_nextTx hpc (by rintro ⟨⟩)) his.goto
  | roStats hpc =>
    have hx : TxOK d₀ s.shared t ((s.tx t).goto .running) := .inr (.inl (h.at hpc).goto)
    unfold Shared.countBegin
    split
    · exact h.moveQuiet (h.lt_nextTx hpc (by rintro ⟨⟩)) hx
    · exact h.setTx (h.lt_nextTx hpc (by rintro ⟨⟩)) hx
  | @build d hpc hbase =>
    have hwr : Writing d₀ s.shared t (s.tx t) := h.at hpc
    exact h.setTx (h.lt_nextTx hpc (by rintro ⟨⟩)) ⟨hwr.goto, d, hbase, rfl⟩
  | buildPanics e hpc =>
    have ht := h.lt_nextTx hpc (by rintro ⟨⟩)
    have hwr : Writing d₀ s.shared t (s.tx t) := h.at hpc
    have hwr' : ∀ p, Writing d₀ s.shared t { s.tx t with pc := p, edits := e } := fun p =>
      ⟨⟨hwr.is.lock, hwr.is.db, hwr.is.committed, hwr.is.begun, hwr.is.logged⟩, hwr.writable,
        ⟨hwr.snapshot.base, hwr.snapshot.fresh, hwr.snapshot.past⟩, hwr.current⟩
    split
    · exact h.setTx ht (.inl (hwr' _))
    · exact h.setTx ht (.inl (hwr' _))
  | store hpc => exact h.store hpc
  | @closeRW k hpc hw =>
    have ht := h.lt_nextTx hpc (by rintro ⟨⟩)
    cases k with
    | commit =>
      obtain ⟨his, -⟩ := h.at hpc
      exact h.unlock ht (his.lock.mpr rfl) his.lock_released.goto
    | return_ =>
      rcases h.at hpc with hwr | hrd
      · exact h.unlock ht (hwr.is.lock.mpr rfl) hwr.is.lock_released.goto
      · rw [hrd.writable] at hw
        cases hw
  | @closeRO k hpc hw =>
    have ht := h.lt_nextTx hpc (by rintro ⟨⟩)
    have hx : TxOK d₀ s.shared t ((s.tx t).goto (.clearing k)) := by
      cases k with
      | commit =>
        obtain ⟨-, hw'⟩ := h.at hpc
        rw [hw] at hw'
        cases hw'
      | return_ =>
        rcases h.at hpc with hwr | hrd
        · rw [hwr.writable] at hw
          cases hw
        · exact hrd.is.goto
    unfold Shared.countEnd
    split
    · exact h.moveQuiet ht hx
    · exact h.setTx ht hx
  | @clear k hpc =>
    apply h.setTx (h.lt_nextTx hpc (by rintro ⟨⟩))
    cases k with
    | commit =>
      have his : Is s.shared t (s.tx t) false true true := h.at hpc
      exact ⟨his.lock, rfl, his.committed, his.begun, his.logged⟩
    | return_ =>
      have his : Is s.shared t (s.tx t) false true false := h.at hpc
      exact .inr (.inr ⟨false, his.lock, rfl, his.committed, his.begun, his.logged⟩)
  | @notify e es hpc =>
    have his : Is s.shared t (s.tx t) false false true := h.at hpc
    apply h.moveQuiet (h.lt_nextTx hpc (by rintro ⟨⟩))
    exact his.goto
  | @notifyPanics e es hpc =>
    have his : Is s.shared t (s.tx t) false false true := h.at hpc
    apply h.moveQuiet (h.lt_nextTx hpc (by rintro ⟨⟩))
    exact .inr (.inr ⟨true, his.goto⟩)
  | notified hpc =>
    have his : Is s.shared t (s.tx t) false false true := h.at hpc
    exact h.setTx (h.lt_nextTx hpc (by rintro ⟨⟩)) (.inr (.inr ⟨true, his.goto⟩))

/-- The steps of `Close` keep the invariant. -/
lemma Inv.closeAct {p : ClosePc} (hact : CloseAct k s.shared (s.close k) sh' p) :
    Inv d₀ ((s.setShared sh').setClose k p) := by
  cases hact with
  | lock hk hfree => exact h.dbLock hk hfree
  | check hk =>
    have hholds : (s.close k).holds = true := by rw [hk]; rfl
    split
    · exact h.dbWrite hholds rfl (fun ho => ⟨ho, rfl⟩) (by rintro ⟨⟩) fun _ hd => hd
    · exact h.dbWrite hholds rfl (fun ho => ⟨ho, rfl⟩) (by rintro ⟨⟩) fun _ hd => hd
  | setOpened hk =>
    exact h.dbWrite (by rw [hk]; rfl) rfl (by rintro ⟨⟩) (fun _ => rfl) fun _ hd => hd
  | setState hk =>
    apply h.dbWrite (by rw [hk]; rfl) rfl
    · intro ho
      rw [h.closing k hk] at ho
      cases ho
    · rintro ⟨⟩
    · rintro d ⟨⟩
  | unlock hk => exact h.dbUnlock hk

/-- The steps of the code keep the invariant. -/
lemma Inv.act (hact : Act c s s') : Inv d₀ s' := by
  cases hact with
  | tx t hact => exact h.txAct hact
  | close k hact => exact h.closeAct hact

/-! ### The steps of the user -/

/-- `Begin` is called. -/
lemma Inv.newTx (hx : TxOK d₀ s.shared s.nextTx x) : Inv d₀ (s.newTx x) where
  tx := (Function.forall_update_iff s.tx fun t y => TxOK d₀ s.shared t y).mpr
    ⟨hx, fun t _ => h.tx t⟩
  close := h.close
  closing := h.closing
  unused t ht := by
    have hne : t ≠ s.nextTx := Nat.ne_of_gt ht
    change Function.update s.tx s.nextTx x t = TxState.zero
    rw [Function.update_of_ne hne]
    exact h.unused t (Nat.le_of_succ_le ht)
  unusedClose := h.unusedClose
  opened := h.opened
  chain := h.chain
  once := h.once

/-- `Close` is called. -/
lemma Inv.newClose : Inv d₀ s.newClose where
  tx := h.tx
  close := (Function.forall_update_iff s.close fun k q =>
    q.holds = true ↔ s.shared.rwlock = some (.close k)).mpr ⟨by
      rw [← h.close, h.unusedClose s.nextClose le_rfl]
      exact Iff.rfl, fun k _ => h.close k⟩
  closing := (Function.forall_update_iff s.close fun _ q =>
    q = .setState → s.shared.opened = false).mpr ⟨by rintro ⟨⟩, fun k _ => h.closing k⟩
  unused := h.unused
  unusedClose k hk := by
    have hne : k ≠ s.nextClose := Nat.ne_of_gt hk
    change Function.update s.close s.nextClose .lock k = .idle
    rw [Function.update_of_ne hne]
    exact h.unusedClose k (Nat.le_of_succ_le hk)
  opened := h.opened
  chain := h.chain
  once := h.once

/-- The next transaction has left no trace. -/
lemma Inv.called {p : Pc β} {writable auto : Bool} :
    Is s.shared s.nextTx (.called p writable auto s.shared.log.length) false false false := by
  have hzero := h.unused s.nextTx le_rfl
  have hpc : (s.tx s.nextTx).pc = .idle := by rw [hzero]; rfl
  have his : Is s.shared s.nextTx (s.tx s.nextTx) false false false := h.at hpc
  exact ⟨his.lock, rfl, rfl, le_rfl, his.logged⟩

/-- An open transaction in the code of the user is a writer or a reader. -/
lemma Inv.running (hpc : (s.tx t).pc = .running) (hdb : (s.tx t).db = true) :
    Writing d₀ s.shared t (s.tx t) ∨ Reading d₀ s.shared t (s.tx t) := by
  rcases h.at hpc with hwr | hrd | ⟨_, his⟩
  · exact .inl hwr
  · exact .inr hrd
  · rw [his.db] at hdb
    cases hdb

/-- An open write transaction in the code of the user. -/
lemma Inv.runningRW (hpc : (s.tx t).pc = .running) (hdb : (s.tx t).db = true)
    (hw : (s.tx t).writable = true) : Writing d₀ s.shared t (s.tx t) := by
  rcases h.running hpc hdb with hwr | hrd
  · exact hwr
  · rw [hrd.writable] at hw
    cases hw

/-- The calls on a transaction keep the invariant. -/
lemma Inv.txCall (hcall : TxCall (s.tx t) x) : Inv d₀ (s.setTx t x) := by
  cases hcall with
  | edit e hpc hw hdb =>
    have hwr := h.runningRW hpc hdb hw
    apply h.setTx (h.lt_nextTx hpc (by rintro ⟨⟩))
    rw [TxOK, hpc]
    exact .inl { hwr with is := { hwr.is with }, snapshot := { hwr.snapshot with } }
  | onCommit e hpc =>
    rcases hpc with hpc | ⟨hs, hpc⟩
    · apply h.setTx (h.lt_nextTx hpc (by rintro ⟨⟩))
      rw [TxOK, hpc]
      rcases h.at hpc with hwr | hrd | ⟨stored, his⟩
      · exact .inl { hwr with is := { hwr.is with }, snapshot := { hwr.snapshot with } }
      · exact .inr (.inl { hrd with is := { hrd.is with }, snapshot := { hrd.snapshot with } })
      · exact .inr (.inr ⟨stored, { his with }⟩)
    · apply h.setTx (h.lt_nextTx hpc (by rintro ⟨⟩))
      rw [TxOK, hpc]
      have his : Is s.shared t (s.tx t) false false true := h.at hpc
      exact { his with }
  | commit hpc _ hdb hw =>
    apply h.setTx (h.lt_nextTx hpc (by rintro ⟨⟩))
    exact (h.runningRW hpc hdb hw).goto
  | commitRefused hpc _ _ => exact h.setTx (h.lt_nextTx hpc (by rintro ⟨⟩)) (h.tx t)
  | rollback hpc _ hdb =>
    apply h.setTx (h.lt_nextTx hpc (by rintro ⟨⟩))
    exact (h.running hpc hdb).imp (·.goto) (·.goto)
  | rollbackRefused hpc _ _ => exact h.setTx (h.lt_nextTx hpc (by rintro ⟨⟩)) (h.tx t)
  | fnNil hpc _ hdb =>
    apply h.setTx (h.lt_nextTx hpc (by rintro ⟨⟩))
    split
    · next hw =>
      have hwr := h.runningRW hpc hdb hw
      exact { hwr with is := { hwr.is with }, snapshot := { hwr.snapshot with } }
    · exact (h.running hpc hdb).imp
        (fun hwr => { hwr with is := { hwr.is with }, snapshot := { hwr.snapshot with } })
        fun hrd => { hrd with is := { hrd.is with }, snapshot := { hrd.snapshot with } }
  | fnError hpc _ hdb =>
    apply h.setTx (h.lt_nextTx hpc (by rintro ⟨⟩))
    exact (h.running hpc hdb).imp
      (fun hwr => { hwr with is := { hwr.is with }, snapshot := { hwr.snapshot with } })
      fun hrd => { hrd with is := { hrd.is with }, snapshot := { hrd.snapshot with } }
  | fnPanics hpc _ hdb =>
    apply h.setTx (h.lt_nextTx hpc (by rintro ⟨⟩))
    exact (h.running hpc hdb).imp (·.goto) (·.goto)

/-- The steps of the user keep the invariant. -/
lemma Inv.user (huser : User s s') : Inv d₀ s' := by
  cases huser with
  | beginRW auto => exact h.newTx ⟨h.called, rfl⟩
  | beginRO auto => exact h.newTx ⟨h.called, rfl⟩
  | call t hcall => exact h.txCall hcall
  | dbClose => exact h.newClose

end

lemma Inv.init : Inv d₀ (State.init d₀) where
  tx _ := ⟨by simp [State.init], rfl, rfl, le_rfl, by simp [State.init, Shared.committers]⟩
  close k := by simp [State.init, ClosePc.holds]
  closing _ hk := by cases hk
  unused _ _ := rfl
  unusedClose _ _ := rfl
  opened _ := by simp [State.init]
  chain := ⟨d₀, .nil, fun _ hd => (Option.some.inj hd).symm⟩
  once := List.nodup_nil

/-- Every state that some interleaving reaches is in order. -/
lemma Reachable.inv (h : Reachable c d₀ s) : Inv d₀ s :=
  run_keeps (fun _ _ hinv hstep => hstep.elim hinv.act hinv.user) Inv.init h

end Vmbolt.Concurrent
