import Mathlib.Data.Finset.Range
import Mathlib.Data.List.Nodup
import Mathlib.Logic.Function.Basic
import Mathlib.Logic.Relation
import Mathlib.Tactic.Lemma

/-!
# The machine behind `DB.Batch`

`DB.Batch`, `batch.trigger` and `batch.run` as a machine whose steps are the single actions of the
goroutines involved: the callers of `Batch`, the timers, the goroutines that run a batch. `batchMu`
and `rwlock` are fields of the state, so that whatever is done without a lock may happen between any
two actions of its holder, and whoever needs a lock that is taken waits.

The functions passed to `Batch` are maps from the view of the transaction to a new view, a result
and the panic of the commit handlers they register, if one of these panics. `DB.Update` is a run of
steps: it waits for `rwlock`, then calls its function and commits, and then releases the lock. It
installs the view if and only if the database is open, the function returns nil and `Commit` gets to
its store; what `Commit` does is its `Fate`. A panic that leaves `Update` is passed on by the caller
of `Batch`, and ends the process if it is in the goroutine of a batch.

Other writers take `rwlock` at any time it is free and keep it as long as they like; while they have
it they may install any view and close the database.

The fields `log`, `runs`, `sent` and `history` only record what has happened: which calls have been
appended to a batch, how often a batch has been run, how many messages a call has been sent, and
which updates have been installed. No action reads them.
-/

namespace Vmbolt.Batching

/-- The number of a call of `DB.Batch`, in the order in which the calls are made. -/
abbrev CallId := ℕ

/-- The number of a batch, in the order in which the batches are allocated. -/
abbrev BatchId := ℕ

/-- The errors that pass through a batch: what a function or `Commit` returns, a panic that
`safelyCall` has recovered, the two errors of `Begin`, and the unexported `trySolo`. -/
inductive Err (ε : Type) where
  | error (e : ε)
  | panicked (reason : ε)
  | databaseReadOnly
  | databaseNotOpen
  | trySolo
  deriving DecidableEq

/-- Where a panic that leaves `DB.Update` comes from: its function, `Commit` before the store, or a
commit handler, which runs behind the store and the `Unlock`. -/
inductive Panic (ε : Type) where
  | fn (reason : ε)
  | commit (reason : ε)
  | handler (reason : ε)
  deriving DecidableEq

/-- How a function that runs in a transaction ends. -/
inductive Result (ε : Type) where
  | nil
  | error (e : Err ε)
  | panic (reason : ε)
  deriving DecidableEq

/-- What a function leaves: the view of the transaction, its result, and the panic of the commit
handlers it has registered, if one of them is going to panic. -/
structure Ran (σ ε : Type) where
  view : σ
  result : Result ε
  handlers : Option ε

/-- A function passed to `DB.Batch`. It cannot return `trySolo`, which is not exported. -/
structure TxFn (σ ε : Type) where
  run : σ → Ran σ ε
  not_trySolo : ∀ v, (run v).result ≠ .error .trySolo

/-- `safelyCall`: run the function, turning a panic into an error. -/
def safelyCall {σ ε : Type} (fn : TxFn σ ε) (v : σ) : Ran σ ε :=
  match (fn.run v).result with
  | .panic reason => { fn.run v with result := .error (.panicked reason) }
  | _ => fn.run v

/-- What `Commit` does up to its store. -/
inductive Fate (ε : Type) where
  | stores
  | fails (e : ε)
  | panics (reason : ε)

/-- How the transaction of one `DB.Update` ends: with a new view installed, and then the panic of
its commit handlers if there is one, with an error, or with a panic. -/
inductive Updated (σ ε : Type) where
  | installed (v : σ) (handlers : Option ε)
  | failed (e : Err ε)
  | panicked (p : Panic ε)

/-- `DB.Update` behind `rwlock.Lock()`. -/
def update {σ ε : Type} (opened : Bool) (fate : Fate ε) (fn : σ → Ran σ ε) (v : σ) :
    Updated σ ε :=
  if opened then
    match (fn v).result with
    | .nil =>
      match fate with
      | .stores => .installed (fn v).view (fn v).handlers
      | .fails e => .failed (.error e)
      | .panics reason => .panicked (.commit reason)
    | .error e => .failed e
    | .panic reason => .panicked (.fn reason)
  else .failed .databaseNotOpen

/-- How a call of `DB.Update` ends for its caller. -/
inductive Ends (ε : Type) where
  | returned (err : Option (Err ε))
  | panicked (p : Panic ε)

/-- The handlers run when the view is installed. -/
def Updated.ends {σ ε : Type} : Updated σ ε → Ends ε
  | .installed _ none => .returned none
  | .installed _ (some reason) => .panicked (.handler reason)
  | .failed e => .returned (some e)
  | .panicked p => .panicked p

/-- The function that `batch.run` passes to `Update`, on the calls from the index `i` on, together
with the value it leaves in `failIdx`. The handlers run in the order in which they were registered,
up to the first one that panics. -/
def runCalls {σ ε : Type} (fn : CallId → TxFn σ ε) : ℕ → List CallId → σ → Ran σ ε × Option ℕ
  | _, [], v => (⟨v, .nil, none⟩, none)
  | i, c :: cs, v =>
    match (safelyCall (fn c) v).result with
    | .nil =>
      let rest := runCalls fn (i + 1) cs (safelyCall (fn c) v).view
      ({ rest.1 with handlers := (safelyCall (fn c) v).handlers <|> rest.1.handlers }, rest.2)
    | _ => (safelyCall (fn c) v, some i)

/-- The `Update` of one round of the retry loop, and `failIdx` after it. -/
def attempt {σ ε : Type} (fn : CallId → TxFn σ ε) (opened : Bool) (fate : Fate ε)
    (calls : List CallId) (v : σ) : Updated σ ε × Option ℕ :=
  (update opened fate (fun w => (runCalls fn 0 calls w).1) v,
    if opened then (runCalls fn 0 calls v).2 else none)

/-- `b.calls[failIdx], b.calls = b.calls[len(b.calls)-1], b.calls[:len(b.calls)-1]`. -/
def swapRemove (calls : List CallId) (failIdx : ℕ) : List CallId :=
  match calls.getLast? with
  | some c => (calls.set failIdx c).dropLast
  | none => calls

/-- Where the goroutine is that runs a batch. -/
inductive Stage (ε : Type) where
  /-- `start.Do` has not been called. -/
  | unstarted
  /-- In `run`, at `batchMu.Lock()`. -/
  | entered
  | locked
  /-- After `timer.Stop()`. -/
  | stopped
  /-- After the test that unsets `db.batch`. -/
  | cleared
  /-- At the head of the retry loop; with calls left, at `rwlock.Lock()` in `Update`. -/
  | retry
  /-- In `Update`, behind `rwlock.Lock()`. -/
  | begun
  /-- In `Update`, at `rwlock.Unlock()`. -/
  | closing (ends : Ends ε) (failIdx : Option ℕ)
  /-- `Update` has returned with this `failIdx`. -/
  | failed (failIdx : ℕ)
  /-- The call has been swapped out of the list; `trySolo` is not sent yet. -/
  | removed (c : CallId)
  /-- In the loop that sends the error of `Update` to the calls. -/
  | sending (rest : List CallId) (err : Option (Err ε))
  | done
  /-- `Update` has panicked, and nobody recovers. -/
  | panicking (p : Panic ε)

/-- A batch. `triggers` counts the goroutines at `start.Do`, `timer` says whether the timer can
still fire. -/
structure Batch (ε : Type) where
  calls : List CallId
  stage : Stage ε
  timer : Bool
  triggers : ℕ
  log : List CallId
  runs : ℕ

/-- A slot that holds no batch yet. -/
def Batch.unallocated {ε : Type} : Batch ε := ⟨[], .unstarted, false, 0, [], 0⟩

/-- `&batch{db: db}` with its timer. -/
def Batch.new {ε : Type} : Batch ε := ⟨[], .unstarted, true, 0, [], 0⟩

/-- `b.calls = append(b.calls, call{..})`. -/
def Batch.push {ε : Type} (x : Batch ε) (c : CallId) : Batch ε :=
  { x with calls := x.calls ++ [c], log := x.log ++ [c] }

/-- Where a call of `DB.Batch` is. From the append on it knows its batch. -/
inductive Pc (ε : Type) where
  | idle
  /-- At `batchMu.Lock()`. -/
  | entered
  | locked
  /-- `db.batch` is set. -/
  | chosen
  | appended (b : BatchId)
  /-- At `batchMu.Unlock()`. -/
  | leaving (b : BatchId)
  /-- At the receive from `errCh`. -/
  | waiting (b : BatchId)
  /-- Has received `trySolo`; at `rwlock.Lock()` in `Update`. -/
  | solo (b : BatchId)
  /-- In `Update`, behind `rwlock.Lock()`. -/
  | begun (b : BatchId)
  /-- In `Update`, at `rwlock.Unlock()`. -/
  | closing (b : BatchId) (ends : Ends ε)
  | returned (b : BatchId) (err : Option (Err ε))
  | panicked (b : BatchId) (p : Panic ε)

/-- `Batch` ends as the `Update` of its solo re-run does. -/
def Ends.pc {ε : Type} (b : BatchId) : Ends ε → Pc ε
  | .returned err => .returned b err
  | .panicked p => .panicked b p

/-- Who holds `batchMu`. -/
inductive Holder where
  | call (c : CallId)
  | run (b : BatchId)
  deriving DecidableEq

/-- Who holds `rwlock`. -/
inductive Writer where
  | call (c : CallId)
  | run (b : BatchId)
  | other
  deriving DecidableEq

/-- An installed update: the effects of a list of calls, or that of another writer. -/
inductive Entry (σ : Type) where
  | calls (cs : List CallId)
  | other (f : σ → σ)

/-- The calls whose effect an update has installed. -/
def Entry.effects {σ : Type} : Entry σ → List CallId
  | .calls cs => cs
  | .other _ => []

/-- The state of the machine. `errCh` is the buffer of the channel of a call, of capacity one, and
`crashed` says that a panic has ended the process. -/
structure State (σ ε : Type) where
  view : σ
  history : List (Entry σ)
  readOnly : Bool
  opened : Bool
  crashed : Bool
  rwlock : Option Writer
  batchMu : Option Holder
  current : Option BatchId
  batch : BatchId → Batch ε
  nextBatch : BatchId
  pc : CallId → Pc ε
  errCh : CallId → Option (Option (Err ε))
  sent : CallId → ℕ
  nextCall : CallId

namespace State
variable {σ ε : Type}

/-- No call has been made. -/
def init (v : σ) (readOnly : Bool) : State σ ε where
  view := v
  history := []
  readOnly := readOnly
  opened := true
  crashed := false
  rwlock := none
  batchMu := none
  current := none
  batch := fun _ => .unallocated
  nextBatch := 0
  pc := fun _ => .idle
  errCh := fun _ => none
  sent := fun _ => 0
  nextCall := 0

def setPc (s : State σ ε) (c : CallId) (p : Pc ε) : State σ ε :=
  { s with pc := Function.update s.pc c p }

def setBatch (s : State σ ε) (b : BatchId) (x : Batch ε) : State σ ε :=
  { s with batch := Function.update s.batch b x }

def setMu (s : State σ ε) (h : Option Holder) : State σ ε :=
  { s with batchMu := h }

def setRw (s : State σ ε) (o : Option Writer) : State σ ε :=
  { s with rwlock := o }

def setCurrent (s : State σ ε) (b : Option BatchId) : State σ ε :=
  { s with current := b }

def setStage (s : State σ ε) (b : BatchId) (st : Stage ε) : State σ ε :=
  s.setBatch b { s.batch b with stage := st }

/-- `c.err <- err`, on an empty channel. -/
def send (s : State σ ε) (c : CallId) (err : Option (Err ε)) : State σ ε :=
  { s with
    errCh := Function.update s.errCh c (some err)
    sent := Function.update s.sent c (s.sent c + 1) }

/-- `<-errCh`. -/
def receive (s : State σ ε) (c : CallId) : State σ ε :=
  { s with errCh := Function.update s.errCh c none }

/-- Install the view `v`, as the effect of `e`. -/
def install (s : State σ ε) (v : σ) (e : Entry σ) : State σ ε :=
  { s with view := v, history := s.history ++ [e] }

/-- How often the effect of the call has been installed. -/
def effects (s : State σ ε) (c : CallId) : ℕ :=
  (s.history.flatMap Entry.effects).count c

/-- The test at the start of `Batch`: there is no batch, or the batch there is is full. -/
def needsBatch (s : State σ ε) (maxBatchSize : ℤ) : Bool :=
  match s.current with
  | none => true
  | some b => decide (maxBatchSize ≤ (s.batch b).calls.length)

/-- The critical section of `Batch` up to the append: allocate a batch, if one is needed. -/
def choose (s : State σ ε) (maxBatchSize : ℤ) : State σ ε :=
  if s.needsBatch maxBatchSize then
    { (s.setBatch s.nextBatch .new).setCurrent (some s.nextBatch) with
      nextBatch := s.nextBatch + 1 }
  else s

/-- A goroutine that is going to call `b.trigger()`. -/
def spawn (s : State σ ε) (b : BatchId) : State σ ε :=
  s.setBatch b { s.batch b with triggers := (s.batch b).triggers + 1 }

/-- `if len(db.batch.calls) >= db.MaxBatchSize { go db.batch.trigger() }`. -/
def spawnIfFull (s : State σ ε) (maxBatchSize : ℤ) (b : BatchId) : State σ ε :=
  if maxBatchSize ≤ (s.batch b).calls.length then s.spawn b else s

/-- `if b.db.batch == b { b.db.batch = nil }`. -/
def unset (s : State σ ε) (b : BatchId) : State σ ε :=
  if s.current = some b then s.setCurrent none else s

/-- What `Update` does to the view, for the calls of `e`. -/
def settle (s : State σ ε) (e : Entry σ) : Updated σ ε → State σ ε
  | .installed v _ => s.install v e
  | _ => s

/-- What follows in `batch.run` on the end of an `Update`. -/
def afterUpdate (s : State σ ε) (b : BatchId) : Ends ε → Option ℕ → State σ ε
  | .returned err, none => s.setStage b (.sending (s.batch b).calls err)
  | .returned _, some i => s.setStage b (.failed i)
  | .panicked p, _ => s.setStage b (.panicking p)

end State

section Steps
variable {σ ε : Type}
open State

/-- The actions of the goroutines that `Batch` involves. -/
inductive Act (maxBatchSize : ℤ) (fn : CallId → TxFn σ ε) : State σ ε → State σ ε → Prop
  | lock {s c} : s.pc c = .entered → s.batchMu = none →
      Act maxBatchSize fn s ((s.setMu (some (.call c))).setPc c .locked)
  | choose {s c} : s.pc c = .locked →
      Act maxBatchSize fn s ((s.choose maxBatchSize).setPc c .chosen)
  | append {s c b} : s.pc c = .chosen → s.current = some b →
      Act maxBatchSize fn s ((s.setBatch b ((s.batch b).push c)).setPc c (.appended b))
  | spawn {s c b d} : s.pc c = .appended b → s.current = some d →
      Act maxBatchSize fn s ((s.spawnIfFull maxBatchSize d).setPc c (.leaving b))
  | unlock {s c b} : s.pc c = .leaving b →
      Act maxBatchSize fn s ((s.setMu none).setPc c (.waiting b))
  | receive {s c b err} : s.pc c = .waiting b → s.errCh c = some err → err ≠ some .trySolo →
      Act maxBatchSize fn s ((s.receive c).setPc c (.returned b err))
  | receiveSolo {s c b} : s.pc c = .waiting b → s.errCh c = some (some .trySolo) →
      Act maxBatchSize fn s ((s.receive c).setPc c (.solo b))
  /-- `Begin` refuses. -/
  | soloRefused {s c b} : s.pc c = .solo b → s.readOnly = true →
      Act maxBatchSize fn s (s.setPc c (.returned b (some .databaseReadOnly)))
  | soloLock {s c b} : s.pc c = .solo b → s.readOnly = false → s.rwlock = none →
      Act maxBatchSize fn s ((s.setRw (some (.call c))).setPc c (.begun b))
  | soloUpdate {s c b} (fate : Fate ε) : s.pc c = .begun b →
      Act maxBatchSize fn s
      ((s.settle (.calls [c]) (update s.opened fate (fn c).run s.view)).setPc c
        (.closing b (update s.opened fate (fn c).run s.view).ends))
  | soloUnlock {s c b ends} : s.pc c = .closing b ends →
      Act maxBatchSize fn s ((s.setRw none).setPc c (ends.pc b))
  /-- The timer of a batch fires: a new goroutine calls `trigger`. -/
  | fire {s b} : (s.batch b).timer = true →
      Act maxBatchSize fn s ((s.setBatch b { s.batch b with timer := false }).spawn b)
  /-- The first `start.Do` of a batch. -/
  | start {s b} : 0 < (s.batch b).triggers → (s.batch b).stage = .unstarted →
      Act maxBatchSize fn s (s.setBatch b { s.batch b with
        stage := .entered, triggers := (s.batch b).triggers - 1, runs := (s.batch b).runs + 1 })
  /-- A later `start.Do` waits for the first one and does nothing. -/
  | skip {s b} : 0 < (s.batch b).triggers → (s.batch b).stage = .done →
      Act maxBatchSize fn s (s.setBatch b { s.batch b with
        triggers := (s.batch b).triggers - 1 })
  | runLock {s b} : (s.batch b).stage = .entered → s.batchMu = none →
      Act maxBatchSize fn s ((s.setMu (some (.run b))).setStage b .locked)
  | stop {s b} : (s.batch b).stage = .locked →
      Act maxBatchSize fn s (s.setBatch b { s.batch b with stage := .stopped, timer := false })
  | unset {s b} : (s.batch b).stage = .stopped →
      Act maxBatchSize fn s ((s.unset b).setStage b .cleared)
  | runUnlock {s b} : (s.batch b).stage = .cleared →
      Act maxBatchSize fn s ((s.setMu none).setStage b .retry)
  /-- `len(b.calls) > 0` fails. -/
  | empty {s b} : (s.batch b).stage = .retry → (s.batch b).calls = [] →
      Act maxBatchSize fn s (s.setStage b .done)
  /-- `Begin` refuses. -/
  | refused {s b} : (s.batch b).stage = .retry → (s.batch b).calls ≠ [] → s.readOnly = true →
      Act maxBatchSize fn s (s.setStage b (.sending (s.batch b).calls (some .databaseReadOnly)))
  | beginRound {s b} : (s.batch b).stage = .retry → (s.batch b).calls ≠ [] → s.readOnly = false →
      s.rwlock = none → Act maxBatchSize fn s ((s.setRw (some (.run b))).setStage b .begun)
  | attempt {s b} (fate : Fate ε) : (s.batch b).stage = .begun →
      Act maxBatchSize fn s
        ((s.settle (.calls (s.batch b).calls)
          (attempt fn s.opened fate (s.batch b).calls s.view).1).setStage b
          (.closing (attempt fn s.opened fate (s.batch b).calls s.view).1.ends
            (attempt fn s.opened fate (s.batch b).calls s.view).2))
  | endRound {s b ends failIdx} : (s.batch b).stage = .closing ends failIdx →
      Act maxBatchSize fn s ((s.setRw none).afterUpdate b ends failIdx)
  /-- A panic that nobody recovers ends the process. -/
  | crash {s b p} : (s.batch b).stage = .panicking p →
    Act maxBatchSize fn s { s with crashed := true }
  | remove {s b i c} : (s.batch b).stage = .failed i → (s.batch b).calls[i]? = some c →
      Act maxBatchSize fn s (s.setBatch b { s.batch b with
        calls := swapRemove (s.batch b).calls i, stage := .removed c })
  | sendSolo {s b c} : (s.batch b).stage = .removed c → s.errCh c = none →
      Act maxBatchSize fn s ((s.send c (some .trySolo)).setStage b .retry)
  | send {s b c rest err} : (s.batch b).stage = .sending (c :: rest) err → s.errCh c = none →
      Act maxBatchSize fn s ((s.send c err).setStage b (.sending rest err))
  | sentAll {s b err} : (s.batch b).stage = .sending [] err →
      Act maxBatchSize fn s (s.setStage b .done)

/-- What happens from outside: a new call of `Batch`, and what other writers do while they hold
`rwlock`. -/
inductive Env : State σ ε → State σ ε → Prop
  | call {s} : Env s { s.setPc s.nextCall .entered with nextCall := s.nextCall + 1 }
  | lock {s} : s.rwlock = none → Env s (s.setRw (some .other))
  | install {s} (f : σ → σ) : s.rwlock = some .other → Env s (s.install (f s.view) (.other f))
  | close {s} : s.rwlock = some .other → Env s { s with opened := false }
  | unlock {s} : s.rwlock = some .other → Env s (s.setRw none)

/-- An action of a process that is still there. -/
def Acts (maxBatchSize : ℤ) (fn : CallId → TxFn σ ε) (s s' : State σ ε) : Prop :=
  s.crashed = false ∧ Act maxBatchSize fn s s'

/-- One step of the machine. -/
def Step (maxBatchSize : ℤ) (fn : CallId → TxFn σ ε) (s s' : State σ ε) : Prop :=
  Acts maxBatchSize fn s s' ∨ (s.crashed = false ∧ Env s s')

/-- The states that some interleaving reaches from the view `v₀`. -/
def Reachable (maxBatchSize : ℤ) (readOnly : Bool) (fn : CallId → TxFn σ ε) (v₀ : σ)
    (s : State σ ε) : Prop :=
  Relation.ReflTransGen (Step maxBatchSize fn) (State.init v₀ readOnly) s

end Steps

end Vmbolt.Batching
