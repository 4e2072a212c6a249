import Vmbolt.Effect.Directory
import Vmbolt.Model.DB

/-!
# The effect of opening and ending a transaction

What `DB.Begin`, `Tx.Rollback` and the wrapper of `DB.Update` and `DB.View` do to the state, in a
call that is not cut off. A transaction that has ended is `Tx.closed`; a write transaction gives the
lock back when it ends, however it ends.
-/

namespace Vmbolt
open Prog

/-- The transaction `DB.Begin` makes. -/
def Tx.opened (writable : Bool) (st : DbState) : Tx :=
  { Tx.zero with writable := writable, db := true, base := some st }

/-- The transaction after `Tx.close`. -/
def Tx.closed (tx : Tx) : Tx :=
  { tx with db := false, base := none, bctx := ∅, created := ∅, deleted := ∅ }

namespace World

/-- The state with the write lock held or free. -/
def setLock (w : World) (l : Bool) : World := { w with db := { w.db with rwlock := l } }

/-- The state after `DB.Begin(true)`. -/
def beginRW (w : World) (st : DbState) : World :=
  { w.setTx w.nextTx (Tx.opened true st) with
    nextTx := w.nextTx + 1, db := { w.db with rwlock := true } }

/-- The state after `DB.Begin(false)`. -/
def beginRO (w : World) (st : DbState) : World :=
  { w.setTx w.nextTx (Tx.opened false st) with nextTx := w.nextTx + 1 }

/-- The state after `Tx.close` of an open transaction. -/
def closeTx (w : World) (t : TxId) : World :=
  { w.setTx t (w.txs t).closed with
    db := { w.db with rwlock := w.db.rwlock && !(w.txs t).writable } }

/-- The state after `DB.Close`. -/
def closeDB (w : World) : World :=
  { w with db := { w.db with opened := false, state := if w.db.opened then none else w.db.state } }

/-- The state after a write of `tx.managed`. -/
def setManaged (w : World) (t : TxId) (m : Bool) : World := w.setTx t { w.txs t with managed := m }

@[simp] lemma setManaged_txs_self (w : World) (t : TxId) (m : Bool) :
    (w.setManaged t m).txs t = { w.txs t with managed := m } := by
  simp [setManaged, setTx]

@[simp] lemma closeTx_txs_self (w : World) (t : TxId) : (w.closeTx t).txs t = (w.txs t).closed := by
  simp [closeTx, setTx]

@[simp] lemma beginRW_txs_self (w : World) (st : DbState) :
    (w.beginRW st).txs w.nextTx = Tx.opened true st := by
  simp [beginRW, setTx]

@[simp] lemma beginRO_txs_self (w : World) (st : DbState) :
    (w.beginRO st).txs w.nextTx = Tx.opened false st := by
  simp [beginRO, setTx]

end World

section
variable {w w' w1 w2 : World} {t : TxId} {st : DbState}

/-! ## Begin -/

lemma begin_eq_readOnly (h : w.db.readOnly = true) :
    DB.begin_ true w = (.ok (.error .databaseReadOnly), w) := by
  unfold DB.begin_ DB.beginRWTx
  rw [if_pos rfl, Prog.read_bind, if_pos h]
  rfl

lemma lock_eq (hc : w.cut = none) (hl : w.db.rwlock = false) :
    DB.lock w = (.ok (), w.setLock true) := by
  unfold DB.lock
  rw [Prog.read_bind, if_neg (by simp [hl])]
  exact write_eq hc

lemma unlock_eq (hc : w.cut = none) (hl : w.db.rwlock = true) :
    Tx.unlock w = (.ok (), w.setLock false) := by
  unfold Tx.unlock
  rw [Prog.read_bind, if_pos hl]
  exact write_eq hc

/-- `DB.Begin(true)` waits for the lock. -/
lemma begin_hang (hr : ¬ w.db.readOnly = true) (hl : w.db.rwlock = true) :
    DB.begin_ true w = (.hang, w) := by
  unfold DB.begin_ DB.beginRWTx DB.lock
  rw [if_pos rfl, Prog.read_bind, if_neg hr, bind_assoc, Prog.read_bind, if_pos hl]
  rfl

section
variable (hc : w.cut = none)
include hc

/-- `DB.Begin(true)` on a database that is not open gives the lock back. -/
lemma begin_eq_notOpen (hr : w.db.readOnly = false) (hl : w.db.rwlock = false)
    (ho : w.db.opened = false ∨ w.db.state = none) :
    DB.begin_ true w = (.ok (.error .databaseNotOpen), w) := by
  have hback : (w.setLock true).setLock false = w := by
    unfold World.setLock
    rw [← hl]
  have hun : Tx.unlock (w.setLock true) = (.ok (), w) := by
    rw [unlock_eq (w := w.setLock true) hc rfl, hback]
  unfold DB.begin_ DB.beginRWTx
  rw [if_pos rfl, Prog.read_bind, if_neg (by simp [hr]), Prog.bind_ok (lock_eq hc hl),
    Prog.read_bind]
  by_cases ho' : (w.setLock true).db.opened = false
  · rw [if_pos ho', Prog.bind_ok hun]
    rfl
  · rw [if_neg ho', show (w.setLock true).db.state = none from ho.resolve_left ho']
    dsimp only
    rw [Prog.bind_ok hun]
    rfl

lemma begin_eq_writable (hr : w.db.readOnly = false) (hl : w.db.rwlock = false)
    (ho : w.db.opened = true) (hst : w.db.state = some st) :
    DB.begin_ true w = (.ok (.ok w.nextTx), w.beginRW st) := by
  unfold DB.begin_ DB.beginRWTx
  rw [if_pos rfl, Prog.read_bind, if_neg (by simp [hr]), Prog.bind_ok (lock_eq hc hl),
    Prog.read_bind]
  rw [if_neg (by simp [World.setLock, ho]), show (w.setLock true).db.state = some st from hst]
  dsimp only
  unfold DB.newTx
  rw [bind_assoc, Prog.read_bind, bind_assoc, Prog.bind_ok (write_eq (w := w.setLock true) hc)]
  rfl

/-- When `DB.Begin(true)` succeeds, the database was open and unlocked. -/
lemma begin_ok (h : DB.begin_ true w = (.ok (.ok t), w')) : ∃ st,
    w.db.readOnly = false ∧ w.db.rwlock = false ∧ w.db.opened = true ∧ w.db.state = some st ∧
      t = w.nextTx ∧ w' = w.beginRW st := by
  by_cases hr : w.db.readOnly = true
  · rw [begin_eq_readOnly hr] at h
    cases h
  by_cases hl : w.db.rwlock = true
  · rw [begin_hang hr hl] at h
    cases h
  simp only [Bool.not_eq_true] at hr hl
  by_cases ho : w.db.opened = false ∨ w.db.state = none
  · rw [begin_eq_notOpen hc hr hl ho] at h
    cases h
  rw [not_or, Bool.not_eq_false] at ho
  obtain ⟨st, hst⟩ := Option.ne_none_iff_exists'.1 ho.2
  rw [begin_eq_writable hc hr hl ho.1 hst] at h
  cases h
  exact ⟨st, hr, hl, ho.1, hst, rfl, rfl⟩

lemma begin_eq_reader (ho : w.db.opened = true) (hst : w.db.state = some st) :
    DB.begin_ false w = (.ok (.ok w.nextTx), w.beginRO st) := by
  unfold DB.begin_ DB.beginTx
  rw [if_neg (by simp), Prog.read_bind, if_neg (by simp [ho]), hst]
  dsimp only
  unfold DB.newTx
  rw [bind_assoc, Prog.read_bind, bind_assoc, Prog.bind_ok (write_eq hc)]
  rfl

/-! ## The end of a transaction -/

/-- The writes at the end of `Tx.close`. -/
lemma clear_eq : (do
    Tx.modify t fun tx => { tx with db := false }
    Tx.modify t fun tx => { tx with base := none }
    Tx.modify t fun tx => { tx with bctx := ∅ }
    Tx.modify t fun tx => { tx with created := ∅ }
    Tx.modify t fun tx => { tx with deleted := ∅ } : Go Unit) w =
      (.ok (), w.setTx t (w.txs t).closed) := by
  have hstep : ∀ (tx : Tx) (f : Tx → Tx), Tx.modify t f (w.setTx t tx) =
      (.ok (), w.setTx t (f tx)) := by
    intro tx f
    refine (write_eq (w := w.setTx t tx) hc).trans ?_
    simp [World.setTx]
  have hfirst : ∀ f : Tx → Tx, Tx.modify t f w = (.ok (), w.setTx t (f (w.txs t))) :=
    fun _ => write_eq hc
  rw [Prog.bind_ok (hfirst _), Prog.bind_ok (hstep _ _), Prog.bind_ok (hstep _ _),
    Prog.bind_ok (hstep _ _), hstep]
  rfl

lemma close_eq (ho : (w.txs t).db = true) (hl : (w.txs t).writable = true → w.db.rwlock = true) :
    Tx.close t w = (.ok (), w.closeTx t) := by
  unfold Tx.close Tx.get
  rw [Prog.read_bind, if_neg (by simp [ho])]
  by_cases hw : (w.txs t).writable = true
  · rw [if_pos hw, Prog.bind_ok (unlock_eq hc (hl hw))]
    refine (clear_eq (w := w.setLock false) hc).trans ?_
    unfold World.closeTx World.setTx World.setLock
    rw [hw, Bool.not_true, Bool.and_false]
  · rw [if_neg hw]
    refine (clear_eq hc).trans ?_
    unfold World.closeTx World.setTx
    rw [Bool.not_eq_true] at hw
    rw [hw, Bool.not_false, Bool.and_true]

lemma Rollback_eq (hm : (w.txs t).managed = false) (ho : (w.txs t).db = true)
    (hl : (w.txs t).writable = true → w.db.rwlock = true) :
    Tx.Rollback t w = (.ok none, w.closeTx t) := by
  unfold Tx.Rollback Tx.get Tx.rollback
  rw [Prog.read_bind, Prog.assert_pos hm, Prog.pure_bind_apply, if_neg (by simp [ho]),
    Prog.bind_ok (close_eq hc ho hl)]
  rfl

end

/-- `DB.Close` waits for the lock. -/
lemma dbClose_hang (hl : w.db.rwlock = true) : DB.close w = (.hang, w) := by
  unfold DB.close DB.lock
  rw [bind_assoc, Prog.read_bind, if_pos hl]
  rfl

lemma dbClose_eq (hc : w.cut = none) (hl : w.db.rwlock = false) :
    DB.close w = (.ok (), w.closeDB) := by
  have hback : (w.closeDB.setLock true).setLock false = w.closeDB := by
    unfold World.setLock World.closeDB
    rw [← hl]
  have hun : Tx.unlock (w.closeDB.setLock true) = (.ok (), w.closeDB) := by
    rw [unlock_eq (w := w.closeDB.setLock true) hc rfl, hback]
  unfold DB.close
  rw [Prog.bind_ok (lock_eq hc hl)]
  refine Prog.defer_ok ?_ hun
  unfold DB.close_
  rw [Prog.read_bind]
  by_cases ho : w.db.opened = true
  · rw [if_neg (by simp [World.setLock, ho]), Prog.bind_ok (write_eq (w := w.setLock true) hc)]
    refine (write_eq (by exact hc)).trans ?_
    unfold World.closeDB World.setLock
    rw [if_pos ho]
  · rw [Bool.not_eq_true] at ho
    rw [if_pos (by simpa [World.setLock] using ho)]
    unfold World.closeDB World.setLock
    rw [if_neg (by simp [ho]), ← ho]
    rfl

/-! ## The body of `DB.Update` and `DB.View` -/

lemma deferred_eq_closed (h : (w.txs t).db = false) : DB.deferred t w = (.ok (), w) := by
  unfold DB.deferred Tx.get
  rw [Prog.read_bind, if_neg (by simp [h])]
  rfl

/-- The function returns nil, and the transaction is ended by `last`. -/
lemma managed_eq_ok {f : TxId → Go (Option Err)} {last : Go (Option Err)} {e : Option Err}
    (hc : w.cut = none) (hf : f t (w.setManaged t true) = (.ok none, w1)) (hc1 : w1.cut = none)
    (hlast : last (w1.setManaged t false) = (.ok e, w2)) (h2 : (w2.txs t).db = false) :
    DB.managed t f last w = (.ok e, w2) := by
  refine Prog.defer_ok ?_ (deferred_eq_closed h2)
  unfold Tx.modify
  rw [Prog.bind_ok (write_eq hc)]
  refine (Prog.bind_ok hf).trans ?_
  rw [Prog.bind_ok (write_eq hc1)]
  exact hlast

/-- The function returns an error: the transaction is rolled back. -/
lemma managed_eq_error {f : TxId → Go (Option Err)} {last : Go (Option Err)} {e : Err}
    (hc : w.cut = none) (hf : f t (w.setManaged t true) = (.ok (some e), w1)) (hc1 : w1.cut = none)
    (ho : (w1.txs t).db = true) (hl : (w1.txs t).writable = true → w1.db.rwlock = true) :
    DB.managed t f last w = (.ok (some e), (w1.setManaged t false).closeTx t) := by
  have hroll : Tx.Rollback t (w1.setManaged t false) =
      (.ok none, (w1.setManaged t false).closeTx t) :=
    Rollback_eq hc1 (by simp) (by simpa using ho) fun hw => hl (by simpa using hw)
  refine Prog.defer_ok ?_ (deferred_eq_closed (by simp [Tx.closed]))
  unfold Tx.modify
  rw [Prog.bind_ok (write_eq hc)]
  refine (Prog.bind_ok hf).trans ?_
  rw [Prog.bind_ok (write_eq hc1)]
  exact Prog.bind_ok hroll

/-- The function panics: the deferred function rolls the transaction back. -/
lemma managed_eq_panic {f : TxId → Go (Option Err)} {last : Go (Option Err)} {e : Panic}
    (hc : w.cut = none) (hf : f t (w.setManaged t true) = (.panic e, w1)) (hc1 : w1.cut = none)
    (ho : (w1.txs t).db = true) (hl : (w1.txs t).writable = true → w1.db.rwlock = true) :
    DB.managed t f last w = (.panic e, w1.closeTx t) := by
  have hdef : DB.deferred t w1 = (.ok (), w1.closeTx t) := by
    unfold DB.deferred Tx.get Tx.rollback
    rw [Prog.read_bind, if_pos ho]
    exact close_eq hc1 ho hl
  refine Prog.defer_panic ?_ hdef
  unfold Tx.modify
  rw [Prog.bind_ok (write_eq hc)]
  exact Prog.bind_panic hf

/-- `DB.Update` on a database whose lock is free. -/
lemma update_eq {fuel : Nat} {order : World → Tx.Order} {f : TxId → Go (Option Err)}
    (hc : w.cut = none) (hr : w.db.readOnly = false) (hl : w.db.rwlock = false)
    (ho : w.db.opened = true) (hst : w.db.state = some st) :
    DB.update fuel order f w = DB.managed w.nextTx f (do
      let o ← Prog.read order
      Tx.commit fuel w.nextTx o) (w.beginRW st) := by
  unfold DB.update
  rw [Prog.bind_ok (begin_eq_writable hc hr hl ho hst)]

/-- `DB.Update` on a database that does not let a write transaction begin. -/
lemma update_eq_error {fuel : Nat} {order : World → Tx.Order} {f : TxId → Go (Option Err)} {e : Err}
    (h : DB.begin_ true w = (.ok (.error e), w)) :
    DB.update fuel order f w = (.ok (some e), w) := by
  unfold DB.update
  rw [Prog.bind_ok h]
  rfl

end

end Vmbolt
