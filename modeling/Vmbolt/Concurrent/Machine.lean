import Mathlib.Logic.Function.Basic
import Mathlib.Logic.Relation
import Mathlib.Tactic.Lemma
import Vmbolt.Model.World

/-!
# Concurrent transactions

`DB.Begin`, `DB.Update`, `DB.View`, `DB.Close`, `Tx.Commit`, `Tx.Rollback` and `Tx.close` as a
machine whose steps are the single accesses to what the goroutines share: the mutex `rwlock`, the
atomic `opened` and `state`, and the statistics. Between two accesses of one goroutine any other
goroutine may take steps. The calls on one transaction come from one goroutine, as transactions
require.

`TxAct` and `CloseAct` are the steps of one goroutine, on what is shared and on its own place; `Act`
lets any goroutine take its next step.

What a transaction does to its own buckets is not looked into: it leaves a set of edits of the
bucket directory, and `Commit` makes the new directory from the base and the edits. A published
bucket is an opaque value, so a bucket that a commit does not touch stays the very same one.
Building the new directory may panic.

The fields `log`, `ran`, `committed`, `due`, `begunAt` and `readAt` record what has happened; no
step reads them.
-/

namespace Vmbolt.Concurrent

/-- The number of a call of `OnCommit`. -/
abbrev HandlerId := ℕ

/-- The number of a call of `DB.Close`. -/
abbrev CloseId := ℕ

/-- A published directory. -/
abbrev Dir (β : Type) := Name → Option β

/-- What a transaction does to the directory: a name is left alone, deleted, or bound to a new
bucket. -/
abbrev Edits (β : Type) := Name → Option (Option β)

/-- The directory that `Commit` publishes. -/
def commitDir {β : Type} (base : Dir β) (edits : Edits β) : Dir β :=
  fun name => (edits name).getD (base name)

/-- What follows on `Tx.close`: the rest of `Commit`, or the return to the caller. -/
inductive After where
  | commit
  | return_
  deriving DecidableEq

/-- Where the goroutine of a transaction is. -/
inductive Pc (β : Type) where
  | idle
  /-- In `beginRWTx`, at the test of `db.readOnly`. -/
  | rwBegin
  /-- At `rwlock.Lock()`. -/
  | rwLock
  /-- At `opened.Load()`. -/
  | rwOpened
  /-- At `state.Load()`. -/
  | rwLoad
  /-- At `rwlock.Unlock()`, before `ErrDatabaseNotOpen` is returned. -/
  | rwFail
  /-- In `beginTx`, at `opened.Load()`. -/
  | roOpened
  /-- At `state.Load()`. -/
  | roLoad
  /-- At the statistics. -/
  | roStats
  /-- `Begin` has returned an error. -/
  | failed
  /-- In the code of the user. -/
  | running
  /-- In `Commit`, before the store. -/
  | building
  /-- At `state.Store(..)`. -/
  | storing (d : Dir β)
  /-- In `Tx.close`, at `rwlock.Unlock()` or in `removeTx`. -/
  | closing (k : After)
  /-- In `Tx.close`, at `tx.db = nil`. -/
  | clearing (k : After)
  /-- In the loop of `Commit` over the commit handlers. -/
  | notifying (hs : List HandlerId)

/-- A transaction. The flag `auto` says that `Update` or `View` drives it, which defer a rollback.
The record has `begunAt` and `readAt`, the numbers of commits at the call of `Begin` and at its
load. -/
structure TxState (β : Type) where
  pc : Pc β
  writable : Bool
  auto : Bool
  managed : Bool
  db : Bool
  base : Option (Dir β)
  edits : Edits β
  handlers : List HandlerId
  committed : Bool
  due : List HandlerId
  begunAt : ℕ
  readAt : ℕ

/-- A transaction that has not begun. -/
def TxState.zero {β : Type} : TxState β where
  pc := .idle
  writable := false
  auto := false
  managed := false
  db := false
  base := none
  edits := fun _ => none
  handlers := []
  committed := false
  due := []
  begunAt := 0
  readAt := 0

/-- Where a call of `DB.Close` is. -/
inductive ClosePc where
  | idle
  /-- At `rwlock.Lock()`. -/
  | lock
  /-- At `opened.Load()`. -/
  | check
  /-- At `opened.Store(false)`. -/
  | setOpened
  /-- At `state.Store(nil)`. -/
  | setState
  /-- At the deferred `rwlock.Unlock()`. -/
  | unlock
  | done
  deriving DecidableEq

/-- Who holds `rwlock`. -/
inductive Holder where
  | tx (t : TxId)
  | close (k : CloseId)
  deriving DecidableEq

/-- A commit that has stored its directory. -/
structure Published (β : Type) where
  tx : TxId
  base : Dir β
  edits : Edits β
  result : Dir β

/-- What the options of `Open` fix. -/
structure Config where
  readOnly : Bool
  stats : Bool

/-- What the goroutines share. -/
structure Shared (β : Type) where
  rwlock : Option Holder
  opened : Bool
  state : Option (Dir β)
  openTxN : ℤ
  txN : ℤ
  log : List (Published β)
  ran : List (TxId × HandlerId)

namespace Shared
variable {β : Type}

/-- `rwlock.Lock()`, once it returns. -/
def lock (sh : Shared β) (h : Holder) : Shared β := { sh with rwlock := some h }

/-- `rwlock.Unlock()`. -/
def unlock (sh : Shared β) : Shared β := { sh with rwlock := none }

/-- `state.Store(&dbState{..})` by the transaction `t`, from `base` with `edits`. -/
def store (sh : Shared β) (t : TxId) (base : Dir β) (edits : Edits β) (d : Dir β) : Shared β :=
  { sh with state := some d, log := sh.log ++ [⟨t, base, edits, d⟩] }

/-- `db.stats.TxN++; db.stats.OpenTxN++`, if there are statistics. -/
def countBegin (sh : Shared β) (c : Config) : Shared β :=
  if c.stats then { sh with openTxN := sh.openTxN + 1, txN := sh.txN + 1 } else sh

/-- `db.removeTx(tx)`. -/
def countEnd (sh : Shared β) (c : Config) : Shared β :=
  if c.stats then { sh with openTxN := sh.openTxN - 1 } else sh

/-- The handler `e` of the transaction `t` is called. -/
def run (sh : Shared β) (t : TxId) (e : HandlerId) : Shared β :=
  { sh with ran := sh.ran ++ [(t, e)] }

end Shared

/-- The state of the machine. -/
structure State (β : Type) where
  shared : Shared β
  tx : TxId → TxState β
  nextTx : TxId
  close : CloseId → ClosePc
  nextClose : CloseId

namespace State
variable {β : Type}

/-- The database after `Open`, with the directory `d`. -/
def init (d : Dir β) : State β where
  shared :=
    { rwlock := none, opened := true, state := some d, openTxN := 0, txN := 0
      log := [], ran := [] }
  tx := fun _ => .zero
  nextTx := 0
  close := fun _ => .idle
  nextClose := 0

/-- A step of the transaction `t`. -/
def setTx (s : State β) (t : TxId) (x : TxState β) : State β :=
  { s with tx := Function.update s.tx t x }

/-- The next transaction. -/
def newTx (s : State β) (x : TxState β) : State β :=
  { s.setTx s.nextTx x with nextTx := s.nextTx + 1 }

/-- A step of a call of `Close`. -/
def setClose (s : State β) (k : CloseId) (p : ClosePc) : State β :=
  { s with close := Function.update s.close k p }

/-- The next call of `Close`. -/
def newClose (s : State β) : State β :=
  { s.setClose s.nextClose .lock with nextClose := s.nextClose + 1 }

def setShared (s : State β) (sh : Shared β) : State β :=
  { s with shared := sh }

end State

namespace TxState
variable {β : Type}

def goto (x : TxState β) (p : Pc β) : TxState β := { x with pc := p }

/-- A call of `Begin`, directly or by `Update` or `View`. -/
def called (p : Pc β) (writable auto : Bool) (n : ℕ) : TxState β :=
  { TxState.zero with pc := p, writable := writable, auto := auto, begunAt := n }

/-- `t := &Tx{db: db, base: base}`, after `n` commits; `Update` and `View` then set `t.managed`. -/
def begun (x : TxState β) (d : Dir β) (n : ℕ) (p : Pc β) : TxState β :=
  { x with pc := p, db := true, managed := x.auto, base := some d, readAt := n }

/-- The end of `Tx.close`, and what follows on it. -/
def closed (x : TxState β) : After → TxState β
  | .commit =>
    { x with pc := .notifying x.handlers, db := false, base := none, edits := fun _ => none
             due := x.handlers }
  | .return_ => { x with pc := .running, db := false, base := none, edits := fun _ => none }

end TxState

section Steps
variable {β : Type}

/-- The steps that the code of the transaction `t` takes by itself, on what is shared and on the
transaction. -/
inductive TxAct (c : Config) (t : TxId) : Shared β → TxState β → Shared β → TxState β → Prop
  | rwBegin {sh x} : x.pc = .rwBegin →
      TxAct c t sh x sh (x.goto (if c.readOnly then .failed else .rwLock))
  | rwLock {sh x} : x.pc = .rwLock → sh.rwlock = none →
      TxAct c t sh x (sh.lock (.tx t)) (x.goto .rwOpened)
  | rwOpened {sh x} : x.pc = .rwOpened →
      TxAct c t sh x sh (x.goto (if sh.opened then .rwLoad else .rwFail))
  | rwLoad {sh x d} : x.pc = .rwLoad → sh.state = some d →
      TxAct c t sh x sh (x.begun d sh.log.length .running)
  | rwLoadNil {sh x} : x.pc = .rwLoad → sh.state = none → TxAct c t sh x sh (x.goto .rwFail)
  | rwFail {sh x} : x.pc = .rwFail → TxAct c t sh x sh.unlock (x.goto .failed)
  | roOpened {sh x} : x.pc = .roOpened →
      TxAct c t sh x sh (x.goto (if sh.opened then .roLoad else .failed))
  | roLoad {sh x d} : x.pc = .roLoad → sh.state = some d →
      TxAct c t sh x sh (x.begun d sh.log.length .roStats)
  | roLoadNil {sh x} : x.pc = .roLoad → sh.state = none → TxAct c t sh x sh (x.goto .failed)
  | roStats {sh x} : x.pc = .roStats → TxAct c t sh x (sh.countBegin c) (x.goto .running)
  | build {sh x d} : x.pc = .building → x.base = some d →
      TxAct c t sh x sh (x.goto (.storing (commitDir d x.edits)))
  /-- Rebalancing or spilling panics. The deferred rollback of `Update` closes the transaction;
  otherwise the panic reaches the user, with whatever it has made of the buckets. -/
  | buildPanics {sh x} (e : Edits β) : x.pc = .building →
      TxAct c t sh x sh { x with pc := if x.auto then .closing .return_ else .running, edits := e }
  | store {sh x d} : x.pc = .storing d →
      TxAct c t sh x (sh.store t (x.base.getD fun _ => none) x.edits d)
        { x with pc := .closing .commit, committed := true }
  | closeRW {sh x k} : x.pc = .closing k → x.writable = true →
      TxAct c t sh x sh.unlock (x.goto (.clearing k))
  | closeRO {sh x k} : x.pc = .closing k → x.writable = false →
      TxAct c t sh x (sh.countEnd c) (x.goto (.clearing k))
  | clear {sh x k} : x.pc = .clearing k → TxAct c t sh x sh (x.closed k)
  | notify {sh x e es} : x.pc = .notifying (e :: es) →
      TxAct c t sh x (sh.run t e) (x.goto (.notifying es))
  /-- A commit handler panics: the handlers behind it are not called. -/
  | notifyPanics {sh x e es} : x.pc = .notifying (e :: es) →
      TxAct c t sh x (sh.run t e) (x.goto .running)
  | notified {sh x} : x.pc = .notifying [] → TxAct c t sh x sh (x.goto .running)

/-- The steps of `DB.Close`. -/
inductive CloseAct (k : CloseId) : Shared β → ClosePc → Shared β → ClosePc → Prop
  | lock {sh p} : p = .lock → sh.rwlock = none → CloseAct k sh p (sh.lock (.close k)) .check
  | check {sh p} : p = .check → CloseAct k sh p sh (if sh.opened then .setOpened else .unlock)
  | setOpened {sh p} : p = .setOpened → CloseAct k sh p { sh with opened := false } .setState
  | setState {sh p} : p = .setState → CloseAct k sh p { sh with state := none } .unlock
  | unlock {sh p} : p = .unlock → CloseAct k sh p sh.unlock .done

/-- The steps that the code takes by itself. -/
inductive Act (c : Config) : State β → State β → Prop
  | tx {s sh y} (t : TxId) : TxAct c t s.shared (s.tx t) sh y → Act c s ((s.setShared sh).setTx t y)
  | close {s sh p} (k : CloseId) : CloseAct k s.shared (s.close k) sh p →
      Act c s ((s.setShared sh).setClose k p)

/-- What a user does with a transaction. In `Update` and `View` the function that was passed returns
nil, returns an error or panics; the other steps are calls on the transaction. -/
inductive TxCall : TxState β → TxState β → Prop
  /-- An operation on the buckets of a write transaction. -/
  | edit {x} (e : Edits β) : x.pc = .running → x.writable = true → x.db = true →
      TxCall x { x with edits := e }
  /-- `OnCommit`, by the user or by a commit handler. -/
  | onCommit {x} (e : HandlerId) : x.pc = .running ∨ (∃ hs, x.pc = .notifying hs) →
      TxCall x { x with handlers := x.handlers ++ [e] }
  | commit {x} : x.pc = .running → x.managed = false → x.db = true → x.writable = true →
      TxCall x (x.goto .building)
  /-- `Commit` answers `ErrTxClosed` or `ErrTxNotWritable`. -/
  | commitRefused {x} : x.pc = .running → x.managed = false → x.db = false ∨ x.writable = false →
      TxCall x x
  | rollback {x} : x.pc = .running → x.managed = false → x.db = true →
      TxCall x (x.goto (.closing .return_))
  /-- `Rollback` answers `ErrTxClosed`. -/
  | rollbackRefused {x} : x.pc = .running → x.managed = false → x.db = false → TxCall x x
  /-- The function returns nil: `Update` commits and `View` rolls back. -/
  | fnNil {x} : x.pc = .running → x.managed = true → x.db = true →
      TxCall x { x with
        pc := if x.writable then .building else .closing .return_
        managed := false }
  /-- The function returns an error, and the transaction is rolled back. -/
  | fnError {x} : x.pc = .running → x.managed = true → x.db = true →
      TxCall x { x with pc := .closing .return_, managed := false }
  /-- The function panics, maybe because it called `Commit` or `Rollback`, and the deferred function
  rolls the transaction back. -/
  | fnPanics {x} : x.pc = .running → x.managed = true → x.db = true →
      TxCall x (x.goto (.closing .return_))

/-- The steps that the users decide on: a call of `Begin`, `Update` or `View`, a step within a
transaction, a call of `Close`. -/
inductive User : State β → State β → Prop
  | beginRW {s} (auto : Bool) : User s (s.newTx (.called .rwBegin true auto s.shared.log.length))
  | beginRO {s} (auto : Bool) : User s (s.newTx (.called .roOpened false auto s.shared.log.length))
  | call {s y} (t : TxId) : TxCall (s.tx t) y → User s (s.setTx t y)
  | dbClose {s} : User s s.newClose

/-- One step of the machine. -/
def Step (c : Config) (s s' : State β) : Prop := Act c s s' ∨ User s s'

/-- The states that some interleaving reaches from the directory `d`. -/
def Reachable (c : Config) (d : Dir β) (s : State β) : Prop :=
  Relation.ReflTransGen (Step c) (State.init d) s

end Steps

end Vmbolt.Concurrent
