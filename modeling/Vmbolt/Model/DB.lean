import Vmbolt.Model.Tx

/-!
# The database

The functions of `db.go` that open, run and end transactions, each run to its end by one caller. A
`Lock` of a mutex that is held never returns.
-/

namespace Vmbolt

/-- The zero value `Tx{}`. -/
def Tx.zero : Tx :=
  { writable := false, managed := false, db := false, base := none, bctx := ∅, created := ∅,
    deleted := ∅ }

/-- The state after `Open` of a path that holds no snapshot: `DB.init` and no objects yet. -/
def World.init (rt : Runtime) (readOnly : Bool) : World :=
  { rt := rt
    nodes := fun _ => default
    nextNode := 0
    arrays := fun _ => []
    nextArr := 0
    buckets := fun _ => { tx := 0, name := [], rootNode := none, dirty := ∅,
                          fillPercent := defaultFillPercent }
    nextBucket := 0
    txs := fun _ => Tx.zero
    nextTx := 0
    db := { readOnly := readOnly, opened := true, state := some ⟨∅⟩, rwlock := false }
    cut := none }

namespace DB

/-- `db.rwlock.Lock()`. -/
def lock : Go Unit := do
  let db ← Prog.read World.db
  if db.rwlock then Prog.hang
  else write fun w => { w with db := { w.db with rwlock := true } }

/-- `&Tx{db: db, writable: writable, base: base}`. -/
def newTx (writable : Bool) (base : DbState) : Go TxId := do
  let t ← Prog.read World.nextTx
  write fun w =>
    { w.setTx t { Tx.zero with writable := writable, db := true, base := some base } with
                   nextTx := t + 1 }
  pure t

/-- `DB.beginTx`. -/
def beginTx : Go (Except Err TxId) := do
  let db ← Prog.read World.db
  if db.opened = false then pure (.error .databaseNotOpen)
  else
    match db.state with
    | none => pure (.error .databaseNotOpen)
    | some base => do
      let t ← newTx false base
      pure (.ok t)

/-- `DB.beginRWTx`. -/
def beginRWTx : Go (Except Err TxId) := do
  let db ← Prog.read World.db
  if db.readOnly then pure (.error .databaseReadOnly)
  else do
    lock
    let db ← Prog.read World.db
    if db.opened = false then do
      Tx.unlock
      pure (.error .databaseNotOpen)
    else
      match db.state with
      | none => do
        Tx.unlock
        pure (.error .databaseNotOpen)
      | some base => do
        let t ← newTx true base
        pure (.ok t)

/-- `DB.Begin`. -/
def begin_ (writable : Bool) : Go (Except Err TxId) := if writable then beginRWTx else beginTx

/-- The deferred function of `DB.Update` and `DB.View`. -/
def deferred (t : TxId) : Go Unit := do
  let tx ← Tx.get t
  if tx.db then Tx.rollback t else pure ()

/-- The body of `DB.Update` and `DB.View`: run `fn`, roll back if it fails and finish with `last`
otherwise. -/
def managed (t : TxId) (fn : TxId → Go (Option Err)) (last : Go (Option Err)) : Go (Option Err) :=
  Prog.defer (do
    Tx.modify t fun tx => { tx with managed := true }
    let err ← fn t
    Tx.modify t fun tx => { tx with managed := false }
    match err with
    | some e => do
      let _ ← Tx.Rollback t
      pure (some e)
    | none => last) (deferred t)

/-- `DB.Update`. The orders in which the commit ranges over its maps are chosen from the state it
starts in. -/
def update (fuel : Nat) (order : World → Tx.Order) (fn : TxId → Go (Option Err)) :
    Go (Option Err) := do
  let t ← begin_ true
  match t with
  | .error e => pure (some e)
  | .ok t => managed t fn (do
      let o ← Prog.read order
      Tx.commit fuel t o)

/-- `DB.View`. -/
def view (fn : TxId → Go (Option Err)) : Go (Option Err) := do
  let t ← begin_ false
  match t with
  | .error e => pure (some e)
  | .ok t => managed t fn (Tx.Rollback t)

/-- `DB.close`. -/
def close_ : Go Unit := do
  let db ← Prog.read World.db
  if db.opened = false then pure ()
  else do
    write fun w => { w with db := { w.db with opened := false } }
    write fun w => { w with db := { w.db with state := none } }

/-- `DB.Close`. -/
def close : Go Unit := do
  lock
  Prog.defer close_ Tx.unlock

end DB

end Vmbolt
