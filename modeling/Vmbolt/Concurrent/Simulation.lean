import Vmbolt.Concurrent.Engine
import Vmbolt.Concurrent.Serial

/-!
# The engine runs as the machine does

The machine of concurrent transactions does not look into the buckets. Here it is compared with the
engine itself: every call of the engine that comes to its end is matched by steps of the machine
that move the transaction of the call only and log a commit exactly if the call is one. So every run
of calls is matched, call by call, by a run of the machine whose log is the sequence of the commits
(`engine_refines_machine`). What holds along every interleaving of the machine then holds for the
transactions of the engine (`engine_commits_are_serial`).
-/

namespace Vmbolt.Concurrent
open Systems Relation Prog

/-! ### Runs of one goroutine -/

section Runs
variable {β : Type} {c : Config} {m : State β} {t : TxId} {k : CloseId} {sh sh' : Shared β}
  {x y : TxState β}

/-- One step of the goroutine of a transaction, of the code or of the user. -/
def TxStep (c : Config) (t : TxId) (a b : Shared β × TxState β) : Prop :=
  TxAct c t a.1 a.2 b.1 b.2 ∨ (b.1 = a.1 ∧ TxCall a.2 b.2)

lemma TxStep.act (h : TxAct c t sh x sh' y) : TxStep c t (sh, x) (sh', y) := .inl h

lemma TxStep.call (h : TxCall x y) : TxStep c t (sh, x) (sh, y) := .inr ⟨rfl, h⟩

/-- One step of a call of `Close`. -/
def CloseStep (k : CloseId) (a b : Shared β × ClosePc) : Prop := CloseAct k a.1 a.2 b.1 b.2

/-- A run of one goroutine is a run of the machine. -/
lemma run_tx (hy : m.tx t = y) (hrun : ReflTransGen (TxStep c t) (m.shared, y) (sh, x)) :
    ReflTransGen (Step c) m ((m.setShared sh).setTx t x) := by
  subst hy
  generalize hb : (sh, x) = b at hrun
  induction hrun generalizing sh x with
  | refl =>
    cases hb
    have hself : (m.setShared m.shared).setTx t (m.tx t) = m := by
      simp [State.setTx, State.setShared]
    rw [hself]
  | @tail a b _ hstep ih =>
    subst hb
    refine (@ih a.1 a.2 rfl).tail ?_
    have hset : (m.setShared sh).setTx t x =
        (((m.setShared a.1).setTx t a.2).setShared sh).setTx t x := by
      simp [State.setTx, State.setShared]
    have htx : ((m.setShared a.1).setTx t a.2).tx t = a.2 := by simp [State.setTx]
    rw [hset]
    rcases hstep with hact | ⟨hsh, hcall⟩
    · exact .inl (.tx t (by rw [htx]; exact hact))
    · cases hsh
      exact .inr (.call t (by rw [htx]; exact hcall))

/-- A run of a call of `Close` is a run of the machine. -/
lemma run_close {p q : ClosePc} (hq : m.close k = q)
    (hrun : ReflTransGen (CloseStep k) (m.shared, q) (sh, p)) :
    ReflTransGen (Step c) m ((m.setShared sh).setClose k p) := by
  subst hq
  generalize hb : (sh, p) = b at hrun
  induction hrun generalizing sh p with
  | refl =>
    cases hb
    have hself : (m.setShared m.shared).setClose k (m.close k) = m := by
      simp [State.setClose, State.setShared]
    rw [hself]
  | @tail a b _ hstep ih =>
    subst hb
    refine (@ih a.1 a.2 rfl).tail ?_
    have hset : (m.setShared sh).setClose k p =
        (((m.setShared a.1).setClose k a.2).setShared sh).setClose k p := by
      simp [State.setClose, State.setShared]
    have hclose : ((m.setShared a.1).setClose k a.2).close k = a.2 := by simp [State.setClose]
    rw [hset]
    exact .inl (.close k (by rw [hclose]; exact hstep))

section Calls
variable {d : Dir β}

/-- `Begin(true)` on an open database whose lock is free. -/
lemma run_beginRW (hr : c.readOnly = false) (hl : sh.rwlock = none) (ho : sh.opened = true)
    (hst : sh.state = some d) (n : ℕ) :
    ReflTransGen (TxStep c t) (sh, .called .rwBegin true false n)
      (sh.lock (.tx t), (TxState.called .rwBegin true false n).begun d sh.log.length .running) := by
  let x₀ : TxState β := .called .rwBegin true false n
  have h₁ : TxStep c t (sh, x₀) (sh, x₀.goto .rwLock) := by
    have hp : (if c.readOnly = true then .failed else .rwLock : Pc β) = .rwLock := by simp [hr]
    rw [← hp]
    exact .act (.rwBegin rfl)
  have h₂ : TxStep c t (sh, x₀.goto .rwLock) (sh.lock (.tx t), x₀.goto .rwOpened) :=
    .act (.rwLock rfl hl)
  have h₃ : TxStep c t (sh.lock (.tx t), x₀.goto .rwOpened) (sh.lock (.tx t), x₀.goto .rwLoad) := by
    have hp : (if (sh.lock (.tx t)).opened = true then .rwLoad else .rwFail : Pc β) = .rwLoad :=
      if_pos ho
    rw [← hp]
    exact .act (.rwOpened rfl)
  have h₄ : TxStep c t (sh.lock (.tx t), x₀.goto .rwLoad)
      (sh.lock (.tx t), x₀.begun d sh.log.length .running) := .act (.rwLoad rfl hst)
  exact .head h₁ (.head h₂ (.head h₃ (.head h₄ .refl)))

/-- `Begin(false)` on an open database. -/
lemma run_beginRO (ho : sh.opened = true) (hst : sh.state = some d) (n : ℕ) :
    ReflTransGen (TxStep c t) (sh, .called .roOpened false false n) (sh.countBegin c,
      ((TxState.called .roOpened false false n).begun d sh.log.length .roStats).goto .running) := by
  let x₀ : TxState β := .called .roOpened false false n
  have h₁ : TxStep c t (sh, x₀) (sh, x₀.goto .roLoad) := by
    have hp : (if sh.opened = true then .roLoad else .failed : Pc β) = .roLoad := if_pos ho
    rw [← hp]
    exact .act (.roOpened rfl)
  have h₂ : TxStep c t (sh, x₀.goto .roLoad) (sh, x₀.begun d sh.log.length .roStats) :=
    .act (.roLoad rfl hst)
  exact .head h₁ (.head h₂ (.single (.act (.roStats rfl))))

/-- `Tx.close` of a transaction that its user has. -/
lemma run_rollback (hpc : x.pc = .running) (hm : x.managed = false) (hdb : x.db = true) :
    ReflTransGen (TxStep c t) (sh, x) (if x.writable = true then sh.unlock else sh.countEnd c,
      (x.goto (.clearing .return_)).closed .return_) := by
  have h₁ : TxStep c t (sh, x) (sh, x.goto (.closing .return_)) := .call (.rollback hpc hm hdb)
  have h₂ : TxStep c t (sh, x.goto (.closing .return_))
      (if x.writable = true then sh.unlock else sh.countEnd c, x.goto (.clearing .return_)) := by
    cases hw : x.writable with
    | true => exact .act (.closeRW rfl hw)
    | false => exact .act (.closeRO rfl hw)
  exact .head h₁ (.head h₂ (.single (.act (.clear (k := .return_) rfl))))

/-- `Tx.Commit` up to the store. -/
lemma run_publish (hpc : x.pc = .running) (hm : x.managed = false) (hdb : x.db = true)
    (hw : x.writable = true) (hbase : x.base = some d) (e : Edits β) :
    ReflTransGen (TxStep c t) (sh, x) (sh.store t d e (commitDir d e),
      { x with pc := .closing .commit, edits := e, committed := true }) := by
  let x₁ : TxState β := { x with edits := e }
  have h₁ : TxStep c t (sh, x) (sh, x₁) := .call (.edit e hpc hw hdb)
  have h₂ : TxStep c t (sh, x₁) (sh, x₁.goto .building) := .call (.commit hpc hm hdb hw)
  have h₃ : TxStep c t (sh, x₁.goto .building) (sh, x₁.goto (.storing (commitDir d e))) :=
    .act (.build rfl hbase)
  have h₄ : TxStep c t (sh, x₁.goto (.storing (commitDir d e))) (sh.store t d e (commitDir d e),
      { x₁ with pc := .closing .commit, committed := true }) := by
    have hd : (x₁.goto (.storing (commitDir d e))).base.getD (fun _ => none) = d := by
      change x.base.getD _ = d
      rw [hbase]
      rfl
    nth_rewrite 2 [← hd]
    exact .act (.store rfl)
  exact .head h₁ (.head h₂ (.head h₃ (.single h₄)))

/-- `Tx.Commit` behind the store. -/
lemma run_finish (hpc : x.pc = .closing .commit) (hw : x.writable = true) (hh : x.handlers = []) :
    ReflTransGen (TxStep c t) (sh, x)
      (sh.unlock, ((x.goto (.clearing .commit)).closed .commit).goto .running) := by
  have h₁ : TxStep c t (sh, x) (sh.unlock, x.goto (.clearing .commit)) := .act (.closeRW hpc hw)
  have h₂ : TxStep c t (sh.unlock, x.goto (.clearing .commit))
      (sh.unlock, (x.goto (.clearing .commit)).closed .commit) := .act (.clear (k := .commit) rfl)
  refine .head h₁ (.head h₂ (.single (.act (.notified ?_))))
  change Pc.notifying x.handlers = .notifying []
  rw [hh]

/-- `DB.Close`, on an open database and on one that is closed. -/
lemma run_dbClose (hl : sh.rwlock = none) :
    ReflTransGen (CloseStep k) (sh, .lock) (if sh.opened = true then
      { sh with rwlock := none, opened := false, state := none } else sh, .done) := by
  have h₁ : CloseStep k (sh, .lock) (sh.lock (.close k), .check) := .lock rfl hl
  cases ho : sh.opened with
  | true =>
    have hp : (if (sh.lock (.close k)).opened = true then .setOpened else .unlock : ClosePc) =
        .setOpened := if_pos ho
    have h₂ : CloseStep k (sh.lock (.close k), .check) (sh.lock (.close k), .setOpened) := by
      rw [← hp]
      exact .check rfl
    have h₃ : CloseStep k (sh.lock (.close k), .setOpened)
        ({ sh.lock (.close k) with opened := false }, .setState) := .setOpened rfl
    have h₄ : CloseStep k ({ sh.lock (.close k) with opened := false }, .setState)
        ({ sh.lock (.close k) with opened := false, state := none }, .unlock) := .setState rfl
    have h₅ : CloseStep k ({ sh.lock (.close k) with opened := false, state := none }, .unlock)
        ({ sh with rwlock := none, opened := false, state := none }, .done) := .unlock rfl
    exact .head h₁ (.head h₂ (.head h₃ (.head h₄ (.single h₅))))
  | false =>
    have hp : (if (sh.lock (.close k)).opened = true then .setOpened else .unlock : ClosePc) =
        .unlock := if_neg (by simp [Shared.lock, ho])
    have h₂ : CloseStep k (sh.lock (.close k), .check) (sh.lock (.close k), .unlock) := by
      rw [← hp]
      exact .check rfl
    have hback : (sh.lock (.close k)).unlock = sh := by
      unfold Shared.lock Shared.unlock
      rw [← hl]
    have h₃ : CloseStep k (sh.lock (.close k), .unlock) (sh, .done) := by
      have hact : CloseAct k (sh.lock (.close k)) .unlock (sh.lock (.close k)).unlock .done :=
        .unlock rfl
      rw [hback] at hact
      exact hact
    exact .head h₁ (.head h₂ (.single h₃))

end Calls

end Runs

/-! ### The simulation -/

/-- A published state, as the machine sees it. -/
def dirOf (st : DbState) : Dir (Option BucketState) := fun name => st.buckets.lookup name

/-- The database of the engine and what the goroutines of the machine share. -/
structure DbMatches (c : Config) (db : DB) (sh : Shared (Option BucketState)) : Prop where
  readOnly : c.readOnly = db.readOnly
  opened : sh.opened = db.opened
  state : sh.state = db.state.map dirOf
  lock : sh.rwlock.isSome = db.rwlock

/-- An open transaction of the engine and its transaction in the machine; the flag `ended` says that
the engine may have stored its directory. -/
structure TxMatches (ended : Prop) (tx : Tx) (x : TxState (Option BucketState)) : Prop where
  writable : x.writable = tx.writable
  managed : x.managed = false
  unmanaged : tx.managed = false
  db : x.db = true
  base : x.base = tx.base.map dirOf
  handlers : x.handlers = []
  place : x.pc = .running ∨ (x.pc = .closing .commit ∧ ended)

/-- The engine between two calls and the machine; the transaction `t` of the engine is the
transaction `f t` of the machine. -/
structure Simulates (c : Config) (f : TxId → TxId) (s : Sys) (m : State (Option BucketState)) :
    Prop where
  cut : s.world.cut = none
  db : DbMatches c s.world.db m.shared
  inj : ∀ t t', (s.world.txs t).db = true → (s.world.txs t').db = true → f t = f t' → t = t'
  tx : ∀ t, (s.world.txs t).db = true → TxMatches (t ∈ s.ended) (s.world.txs t) (m.tx (f t))
  holder : ∀ r, m.shared.rwlock = some r →
    ∃ t, r = .tx (f t) ∧ (s.world.txs t).db = true ∧ (s.world.txs t).writable = true

/-- A step of the engine: a call that comes to its end, or `DB.Close`. -/
inductive Whole (s : Sys) : Sys → Prop
  | call (a : Call) (fuel : ℕ) : a.Admissible s →
  (a.run fuel { s.world with cut := none }).1 ≠ .hang →
      Whole s (s.after a none fuel)
  | close : s.world.db.rwlock = false → Whole s { s with world := (DB.close s.world).2 }

/-- The calls of the engine, with their fuel. -/
inductive Event where
  | call (a : Call) (fuel : ℕ)
  | close

namespace Event

/-- The call can be made and comes to its end. -/
def Enabled (s : Sys) : Event → Prop
  | call a fuel => a.Admissible s ∧ (a.run fuel { s.world with cut := none }).1 ≠ .hang
  | close => s.world.db.rwlock = false

/-- The state behind the call. -/
def next (s : Sys) : Event → Sys
  | call a fuel => s.after a none fuel
  | close => { s with world := (DB.close s.world).2 }

/-- What `Tx.Commit` has stored, if it returns nil. -/
def stored (t : TxId) : Outcome Panic (Option Err) × World → Option (TxId × DbState)
  | (.ok none, w') => w'.db.state.map fun st => (t, st)
  | _ => none

/-- The transaction that the call commits, and the state that it stores. -/
def commits (s : Sys) : Event → Option (TxId × DbState)
  | call (.publish t order) fuel => stored t (Tx.publish fuel t order { s.world with cut := none })
  | _ => none

end Event

/-- What a call of the engine that leads from `s` to `s'` is matched by: a run of the machine from
`m` to `m'` that leaves the other open transactions alone and extends the log by the commit, if the
call is one. The edits of the commit are in the buckets that its transaction has opened, created or
deleted. -/
structure Matches (c : Config) (f : TxId → TxId) (s : Sys) (m : State (Option BucketState))
    (commit : Option (TxId × DbState)) (f' : TxId → TxId) (s' : Sys)
    (m' : State (Option BucketState)) : Prop where
  run : ReflTransGen (Step c) m m'
  sim : Simulates c f' s' m'
  numbers : ∀ t, t < s.world.nextTx → f' t = f t
  frame : ∀ t, (s.world.txs t).db = true → s'.world.txs t = s.world.txs t →
    (t ∈ s'.ended → t ∈ s.ended) → m'.tx (f t) = m.tx (f t)
  silent : commit = none → m'.shared.log = m.shared.log
  entry : ∀ t st, commit = some (t, st) → (s.world.txs t).db = true ∧ ∃ base e,
    (s.world.txs t).base = some base ∧
    (∀ name, (s.world.txs t).bctx.lookup name = none → name ∉ (s.world.txs t).deleted →
      e name = none) ∧
    commitDir (dirOf base) e = dirOf st ∧
    m'.shared.log = m.shared.log ++ [⟨f t, dirOf base, e, dirOf st⟩]

section Simulation
variable {c : Config} {f : TxId → TxId} {s s' : Sys} {m : State (Option BucketState)}
  {d₀ : Dir (Option BucketState)} {t : TxId} {F : Set NodeId}

lemma whole_iff : Whole s s' ↔ ∃ e : Event, e.Enabled s ∧ s' = e.next s := by
  constructor
  · rintro (⟨a, fuel, ha, hne⟩ | hl)
    · exact ⟨.call a fuel, ⟨ha, hne⟩, rfl⟩
    · exact ⟨.close, hl, rfl⟩
  · rintro ⟨a | _, he, rfl⟩
    · exact .call a _ he.1 he.2
    · exact .close he

lemma TxMatches.same {p q : Prop} {tx tx' : Tx} {x : TxState (Option BucketState)}
    (h : TxMatches p tx x) (hpq : p → q) (hs : SameTx tx tx') : TxMatches q tx' x :=
  ⟨h.writable.trans hs.writable.symm, h.managed, hs.managed.trans h.unmanaged, h.db,
    hs.base ▸ h.base, h.handlers, h.place.imp_right fun hp => ⟨hp.1, hpq hp.2⟩⟩

/-- A call that begins and ends no transaction is matched by no step. -/
lemma Simulates.same (h : Simulates c f s m) (hcut : s'.world.cut = none)
    (hs : SameTxs s.world s'.world) (hended : s.ended ⊆ s'.ended) : Simulates c f s' m where
  cut := hcut
  db := hs.db ▸ h.db
  inj t t' ht ht' := h.inj t t' ((hs.tx t).db ▸ ht) ((hs.tx t').db ▸ ht')
  tx t ht := (h.tx t ((hs.tx t).db ▸ ht)).same (fun hp => hended hp) (hs.tx t)
  holder r hr := by
    obtain ⟨t, hrt, ht, hw⟩ := h.holder r hr
    exact ⟨t, hrt, (hs.tx t).db.trans ht, (hs.tx t).writable.trans hw⟩

/-- One open transaction moves. -/
lemma Simulates.move (h : Simulates c f s m) (hcut : s'.world.cut = none)
    (hopen : (s.world.txs t).db = true) (hother : ∀ t', t' ≠ t → s'.world.txs t' = s.world.txs t')
    (hended : s.ended ⊆ s'.ended) {sh : Shared (Option BucketState)}
    {y : TxState (Option BucketState)} (hdb : DbMatches c s'.world.db sh)
    (hy : (s'.world.txs t).db = true → TxMatches (t ∈ s'.ended) (s'.world.txs t) y)
    (hholder : ∀ r, sh.rwlock = some r →
      ∃ t', r = .tx (f t') ∧ (s'.world.txs t').db = true ∧ (s'.world.txs t').writable = true) :
    Simulates c f s' ((m.setShared sh).setTx (f t) y) where
  cut := hcut
  db := hdb
  inj t₁ t₂ h₁ h₂ := by
    have hwas : ∀ t', (s'.world.txs t').db = true → (s.world.txs t').db = true := by
      intro t' ht'
      by_cases e : t' = t
      · exact e ▸ hopen
      · rw [← hother t' e]
        exact ht'
    exact h.inj t₁ t₂ (hwas t₁ h₁) (hwas t₂ h₂)
  tx t' ht' := by
    by_cases e : t' = t
    · subst e
      simpa [State.setTx] using hy ht'
    · rw [hother t' e] at ht' ⊢
      have hne : f t' ≠ f t := fun he => e (h.inj t' t ht' hopen he)
      have htx : ((m.setShared sh).setTx (f t) y).tx (f t') = m.tx (f t') :=
        Function.update_of_ne hne _ _
      rw [htx]
      exact (h.tx t' ht').same (fun hp => hended hp) (.refl _)
  holder := hholder

/-- An open transaction has a number in the machine. -/
lemma Simulates.lt_nextTx (h : Simulates c f s m) (hinv : Inv d₀ m) (t : TxId)
    (ht : (s.world.txs t).db = true) : f t < m.nextTx := by
  rcases (h.tx t ht).place with hpc | ⟨hpc, -⟩
  · exact hinv.lt_nextTx hpc (by rintro ⟨⟩)
  · exact hinv.lt_nextTx hpc (by rintro ⟨⟩)

/-- A transaction begins. -/
lemma Simulates.begin (h : Simulates c f s m) (hinv : Inv d₀ m) (hcut : s'.world.cut = none)
    (hnew : (s.world.txs t).db = false) (hother : ∀ t', t' ≠ t → s'.world.txs t' = s.world.txs t')
    (hended : s.ended ⊆ s'.ended) {sh : Shared (Option BucketState)}
    {y z : TxState (Option BucketState)} (hdb : DbMatches c s'.world.db sh)
    (hy : TxMatches (t ∈ s'.ended) (s'.world.txs t) y)
    (hholder : ∀ r, sh.rwlock = some r → m.shared.rwlock = some r ∨
      (r = .tx m.nextTx ∧ (s'.world.txs t).db = true ∧ (s'.world.txs t).writable = true)) :
    Simulates c (Function.update f t m.nextTx) s'
      (((m.newTx z).setShared sh).setTx m.nextTx y) where
  cut := hcut
  db := hdb
  inj t₁ t₂ h₁ h₂ heq := by
    have hlt := h.lt_nextTx hinv
    have hwas : ∀ t', t' ≠ t → (s'.world.txs t').db = true → (s.world.txs t').db = true := by
      intro t' hne ht'
      rw [← hother t' hne]
      exact ht'
    by_cases e₁ : t₁ = t
    · by_cases e₂ : t₂ = t
      · exact e₁.trans e₂.symm
      · rw [e₁, Function.update_self, Function.update_of_ne e₂] at heq
        exact absurd (hlt t₂ (hwas t₂ e₂ h₂)) (heq ▸ lt_irrefl _)
    · by_cases e₂ : t₂ = t
      · rw [e₂, Function.update_self, Function.update_of_ne e₁] at heq
        exact absurd (hlt t₁ (hwas t₁ e₁ h₁)) (heq ▸ lt_irrefl _)
      · rw [Function.update_of_ne e₁, Function.update_of_ne e₂] at heq
        exact h.inj t₁ t₂ (hwas t₁ e₁ h₁) (hwas t₂ e₂ h₂) heq
  tx t' ht' := by
    by_cases e : t' = t
    · subst e
      rw [Function.update_self]
      simpa [State.setTx] using hy
    · rw [hother t' e] at ht' ⊢
      have hne : f t' ≠ m.nextTx := (h.lt_nextTx hinv t' ht').ne
      have htx : (((m.newTx z).setShared sh).setTx m.nextTx y).tx (f t') = m.tx (f t') :=
        (Function.update_of_ne hne _ _).trans (Function.update_of_ne hne _ _)
      rw [Function.update_of_ne e, htx]
      exact (h.tx t' ht').same (fun hp => hended hp) (.refl _)
  holder r hr := by
    rcases hholder r hr with hold | ⟨hr', hopen, hw⟩
    · obtain ⟨t', hrt, ht', hw'⟩ := h.holder r hold
      have hne : t' ≠ t := by
        rintro rfl
        rw [hnew] at ht'
        cases ht'
      refine ⟨t', ?_, ?_, ?_⟩
      · rw [Function.update_of_ne hne]
        exact hrt
      · rw [hother t' hne]
        exact ht'
      · rw [hother t' hne]
        exact hw'
    · exact ⟨t, by rw [Function.update_self]; exact hr', hopen, hw⟩

/-! ### The calls -/

/-- The call is matched. -/
def Matched (c : Config) (f : TxId → TxId) (s : Sys) (m : State (Option BucketState))
    (commit : Option (TxId × DbState)) (s' : Sys) : Prop :=
  ∃ f' m', Matches c f s m commit f' s' m'

/-- A call that is matched by no step. -/
lemma Simulates.stutter (h : Simulates c f s' m) : Matched c f s m none s' :=
  ⟨f, m, .refl, h, fun _ _ => rfl, fun _ _ _ _ => rfl, fun _ => rfl, by rintro _ _ ⟨⟩⟩

/-- The world before a call that is not cut off. -/
lemma Simulates.world (h : Simulates c f s m) : { s.world with cut := none } = s.world := by
  rw [← h.cut]

/-- A call that begins and ends no transaction. -/
lemma Simulates.quiet (h : Simulates c f s m) {a : Call} {fuel : ℕ}
    (hq : SameTxs s.world (a.run fuel s.world).2) : Matched c f s m none (s.after a none fuel) := by
  refine (h.same rfl ?_ Sys.subset_ended).stutter
  unfold Sys.after
  rw [h.world]
  exact Track.trans hq (.of_eq rfl rfl)

/-- A call that returns and goes on. -/
lemma after_eq {a : Call} {fuel : ℕ} {w' : World} (hcut : s.world.cut = none)
    (hrun : a.run fuel s.world = (.ok true, w')) :
    s.after a none fuel = { s with world := { w' with cut := none } } := by
  have hw : { s.world with cut := none } = s.world := by rw [← hcut]
  unfold Sys.after
  rw [hw, hrun]

/-- The directory that a commit has stored is its base with the edits of the transaction: in the
names that the transaction has not opened, created or deleted it is the base. -/
lemma commitDir_of_kept {tx : Tx} {base st : DbState} (hbase : tx.base = some base)
    (hkept : ∀ name, tx.bctx.lookup name = none ∨ name ∈ tx.deleted →
      st.buckets.lookup name = tx.keptBuckets.lookup name) :
    ∃ e : Edits (Option BucketState),
      (∀ name, tx.bctx.lookup name = none → name ∉ tx.deleted → e name = none) ∧
      commitDir (dirOf base) e = dirOf st := by
  refine ⟨fun name => if tx.bctx.lookup name = none ∧ name ∉ tx.deleted then none
    else some (st.buckets.lookup name), fun name h₁ h₂ => if_pos ⟨h₁, h₂⟩, ?_⟩
  funext name
  by_cases huntouched : tx.bctx.lookup name = none ∧ name ∉ tx.deleted
  · simp only [commitDir, dirOf, if_pos huntouched, Option.getD_none]
    rw [hkept name (.inl huntouched.1), lookup_keptBuckets_eq hbase, if_neg huntouched.2]
  · simp only [commitDir, dirOf, if_neg huntouched, Option.getD_some]

section
variable (h : Simulates c f s m)
include h

/-- A call that begins a transaction. -/
lemma Simulates.matched_begin (hinv : Inv d₀ m) {sh : Shared (Option BucketState)}
    {y z : TxState (Option BucketState)}
    (hrun : ReflTransGen (Step c) m (((m.newTx z).setShared sh).setTx m.nextTx y))
    (hlog : sh.log = m.shared.log)
    (hsim : Simulates c (Function.update f s.world.nextTx m.nextTx) s'
      (((m.newTx z).setShared sh).setTx m.nextTx y)) :
    Matched c f s m none s' := by
  refine ⟨_, _, hrun, hsim, fun t ht => Function.update_of_ne ht.ne _ _, fun t ht _ _ => ?_,
    fun _ => hlog, by rintro _ _ ⟨⟩⟩
  have hne : f t ≠ m.nextTx := (h.lt_nextTx hinv t ht).ne
  exact (Function.update_of_ne hne _ _).trans (Function.update_of_ne hne _ _)

/-- The open transactions but `t`, if only `t` moves. -/
lemma Simulates.frame_move (hopen : (s.world.txs t).db = true) {sh : Shared (Option BucketState)}
    {y : TxState (Option BucketState)} {t' : TxId} (ht' : (s.world.txs t').db = true)
      (hne : t' ≠ t) :
    ((m.setShared sh).setTx (f t) y).tx (f t') = m.tx (f t') :=
  Function.update_of_ne (fun he => hne (h.inj t' t ht' hopen he)) _ _

section
variable (hinv : Inv d₀ m)
include hinv

/-- `DB.Begin(true)` is matched. -/
lemma Simulates.beginRW (hiso : Iso s.ended F s.world) (fuel : ℕ)
    (hne : (DB.begin_ true s.world).1 ≠ .hang) :
    Matched c f s m none (s.after (.begin_ true) none fuel) := by
  have hrun : ∀ {a w'}, DB.begin_ true s.world = (.ok a, w') →
      (Call.begin_ true).run fuel s.world = (.ok true, w') := fun hb => Prog.bind_ok hb
  by_cases hr : s.world.db.readOnly = true
  · rw [after_eq h.cut (hrun (begin_eq_readOnly hr)), h.world]
    exact h.stutter
  by_cases hl : s.world.db.rwlock = true
  · rw [begin_hang hr hl] at hne
    exact absurd rfl hne
  simp only [Bool.not_eq_true] at hr hl
  by_cases ho : s.world.db.opened = false ∨ s.world.db.state = none
  · rw [after_eq h.cut (hrun (begin_eq_notOpen h.cut hr hl ho)), h.world]
    exact h.stutter
  rw [not_or, Bool.not_eq_false] at ho
  obtain ⟨st, hst⟩ := Option.ne_none_iff_exists'.1 ho.2
  rw [after_eq h.cut (hrun (begin_eq_writable h.cut hr hl ho.1 hst))]
  have hfree : m.shared.rwlock = none := by
    have hlock := h.db.lock
    rw [hl] at hlock
    simpa using hlock
  have hstate : m.shared.state = some (dirOf st) := by rw [h.db.state, hst]; rfl
  let z : TxState (Option BucketState) := .called .rwBegin true false m.shared.log.length
  have hnewTx : (m.newTx z).tx m.nextTx = z := Function.update_self ..
  have hlocal := run_beginRW (t := m.nextTx) (h.db.readOnly.trans hr) hfree (h.db.opened.trans ho.1)
    hstate m.shared.log.length
  have hmatch := run_tx hnewTx hlocal
  refine h.matched_begin hinv (.head (.inr (.beginRW false)) hmatch) rfl ?_
  apply h.begin hinv (t := s.world.nextTx)
  · rfl
  · -- the number of the new transaction has not been used
    rw [← Bool.not_eq_true]
    exact fun hopen => lt_irrefl _ (hiso.opened _ hopen)
  · exact fun t' hne' => Function.update_of_ne hne' _ _
  · exact Finset.Subset.refl _
  · exact ⟨h.db.readOnly, h.db.opened, h.db.state, rfl⟩
  · change TxMatches _ ((s.world.beginRW st).txs s.world.nextTx) _
    rw [World.beginRW_txs_self]
    exact ⟨rfl, rfl, rfl, rfl, rfl, rfl, .inl rfl⟩
  · rintro r hr'
    refine .inr ⟨(Option.some.inj hr').symm, ?_, ?_⟩
    · change ((s.world.beginRW st).txs s.world.nextTx).db = true
      rw [World.beginRW_txs_self]
      rfl
    · change ((s.world.beginRW st).txs s.world.nextTx).writable = true
      rw [World.beginRW_txs_self]
      rfl

/-- `DB.Begin(false)` is matched. -/
lemma Simulates.beginRO (hiso : Iso s.ended F s.world) (fuel : ℕ) :
    Matched c f s m none (s.after (.begin_ false) none fuel) := by
  by_cases ho : s.world.db.opened = false ∨ s.world.db.state = none
  · have hb : DB.begin_ false s.world = (.ok (.error .databaseNotOpen), s.world) := by
      unfold DB.begin_ DB.beginTx
      rw [if_neg (by simp), Prog.read_bind]
      by_cases ho' : s.world.db.opened = false
      · rw [if_pos ho']
        rfl
      · rw [if_neg ho', ho.resolve_left ho']
        rfl
    have hrun : (Call.begin_ false).run fuel s.world = (.ok true, s.world) := Prog.bind_ok hb
    rw [after_eq h.cut hrun, h.world]
    exact h.stutter
  rw [not_or, Bool.not_eq_false] at ho
  obtain ⟨st, hst⟩ := Option.ne_none_iff_exists'.1 ho.2
  have hrun : (Call.begin_ false).run fuel s.world = (.ok true, s.world.beginRO st) :=
    Prog.bind_ok (begin_eq_reader h.cut ho.1 hst)
  rw [after_eq h.cut hrun]
  have hstate : m.shared.state = some (dirOf st) := by rw [h.db.state, hst]; rfl
  let z : TxState (Option BucketState) := .called .roOpened false false m.shared.log.length
  have hnewTx : (m.newTx z).tx m.nextTx = z := Function.update_self ..
  have hlocal := run_beginRO (c := c) (t := m.nextTx) (h.db.opened.trans ho.1) hstate
    m.shared.log.length
  have hmatch := run_tx hnewTx hlocal
  have hcount : ∀ sh : Shared (Option BucketState), (sh.countBegin c).rwlock = sh.rwlock ∧
      (sh.countBegin c).opened = sh.opened ∧ (sh.countBegin c).state = sh.state ∧
      (sh.countBegin c).log = sh.log := by
    intro sh
    unfold Shared.countBegin
    split <;> exact ⟨rfl, rfl, rfl, rfl⟩
  obtain ⟨hlock, hopened, hst', hlog⟩ := hcount m.shared
  refine h.matched_begin hinv (.head (.inr (.beginRO false)) hmatch) hlog ?_
  apply h.begin hinv (t := s.world.nextTx)
  · rfl
  · rw [← Bool.not_eq_true]
    exact fun hopen => lt_irrefl _ (hiso.opened _ hopen)
  · exact fun t' hne' => Function.update_of_ne hne' _ _
  · exact Finset.Subset.refl _
  · exact ⟨h.db.readOnly, hopened.trans h.db.opened, hst'.trans h.db.state,
      (congrArg Option.isSome hlock).trans h.db.lock⟩
  · change TxMatches _ ((s.world.beginRO st).txs s.world.nextTx) _
    rw [World.beginRO_txs_self]
    exact ⟨rfl, rfl, rfl, rfl, rfl, rfl, .inl rfl⟩
  · intro r hr
    exact .inl (hlock ▸ hr)

/-- An open write transaction of the engine holds the lock. -/
lemma Simulates.locked (ht : (s.world.txs t).db = true) (hw : (s.world.txs t).writable = true) :
    m.shared.rwlock = some (.tx (f t)) := by
  have hx := h.tx t ht
  refine (hinv.writing ?_).1
  rcases hx.place with hpc | ⟨hpc, -⟩ <;>
    simp [TxState.writing, hx.writable, hw, hx.db, hpc, Pc.released]

lemma Simulates.rwlock (ht : (s.world.txs t).db = true) (hw : (s.world.txs t).writable = true) :
    s.world.db.rwlock = true := by
  rw [← h.db.lock, h.locked hinv ht hw]
  rfl

/-- `Tx.close` of an open transaction is matched. -/
lemma Simulates.closeTx (ht : (s.world.txs t).db = true) :
    Matched c f s m none { s with world := { s.world.closeTx t with cut := none } } := by
  have hx := h.tx t ht
  have hclosed : ((s.world.closeTx t).txs t).db = false := by
    rw [World.closeTx_txs_self]
    rfl
  -- the steps of the machine, and what they leave of the shared state
  obtain ⟨sh, y, hrun, hopened, hstate, hlog, hlock⟩ : ∃ sh y,
      ReflTransGen (TxStep c (f t)) (m.shared, m.tx (f t)) (sh, y) ∧
      sh.opened = m.shared.opened ∧ sh.state = m.shared.state ∧ sh.log = m.shared.log ∧
      sh.rwlock = if (s.world.txs t).writable = true then none else m.shared.rwlock := by
    rcases hx.place with hpc | ⟨hpc, -⟩
    · refine ⟨_, _, run_rollback hpc hx.managed hx.db, ?_⟩
      rw [hx.writable]
      unfold Shared.countEnd
      split
      · exact ⟨rfl, rfl, rfl, rfl⟩
      · split <;> exact ⟨rfl, rfl, rfl, rfl⟩
    · have hw : (m.tx (f t)).writable = true := (hinv.at hpc).2
      refine ⟨_, _, run_finish hpc hw hx.handlers, rfl, rfl, rfl, ?_⟩
      rw [← hx.writable, hw]
      rfl
  have hmoved : (s.world.closeTx t).txs t ≠ s.world.txs t := by
    intro heq
    rw [heq, ht] at hclosed
    cases hclosed
  refine ⟨f, _, run_tx rfl hrun, ?_, fun _ _ => rfl, fun t' ht' hsame _ => ?_, fun _ => hlog,
    by rintro _ _ ⟨⟩⟩
  swap
  · exact h.frame_move ht ht' fun e => hmoved (e ▸ hsame)
  apply h.move (t := t)
  · rfl
  · exact ht
  · exact fun t' hne => Function.update_of_ne hne _ _
  · exact Finset.Subset.refl _
  · refine ⟨h.db.readOnly, hopened.trans h.db.opened, hstate.trans h.db.state, ?_⟩
    change sh.rwlock.isSome = (s.world.db.rwlock && !(s.world.txs t).writable)
    rw [hlock, ← h.db.lock]
    cases (s.world.txs t).writable <;> simp
  · intro hopen
    cases hclosed.symm.trans hopen
  · intro r hr
    rw [hlock] at hr
    split at hr
    · cases hr
    next hw =>
    obtain ⟨t', hrt, ht', hw'⟩ := h.holder r hr
    have hne : t' ≠ t := by
      rintro rfl
      exact hw hw'
    have htx : (s.world.closeTx t).txs t' = s.world.txs t' := Function.update_of_ne hne _ _
    refine ⟨t', hrt, ?_, ?_⟩
    · change ((s.world.closeTx t).txs t').db = true
      rw [htx]
      exact ht'
    · change ((s.world.closeTx t).txs t').writable = true
      rw [htx]
      exact hw'

/-- `Tx.close` is matched. -/
lemma Simulates.close (fuel : ℕ) (t : TxId) :
    Matched c f s m none (s.after (.close t) none fuel) := by
  cases ht : (s.world.txs t).db with
  | false =>
    have hrun : (Call.close t).run fuel s.world = (.ok true, s.world) := by
      apply Prog.bind_ok (a := ())
      unfold Tx.close Tx.get
      rw [Prog.read_bind, if_pos ht]
      rfl
    rw [after_eq h.cut hrun, h.world]
    exact h.stutter
  | true =>
    rw [after_eq h.cut (Prog.bind_ok (close_eq h.cut ht (h.rwlock hinv ht)))]
    exact h.closeTx hinv ht

/-- `Tx.Rollback` is matched. -/
lemma Simulates.rollback (fuel : ℕ) (t : TxId) :
    Matched c f s m none (s.after (.rollback t) none fuel) := by
  cases ht : (s.world.txs t).db with
  | false =>
    apply h.quiet
    have hstay : Stays SameTxs s.world ((Call.rollback t).run fuel) fun _ _ => True := by
      refine .bind (P := fun _ _ => True) (.read_bind ?_) fun _ w1 _ _ => .pure (.refl w1) trivial
      exact .assert_bind (.refl _) fun _ => by rw [if_pos ht]; exact .pure (.refl _) trivial
    exact hstay.1
  | true =>
    rw [after_eq h.cut (Prog.bind_ok (Rollback_eq h.cut (h.tx t ht).unmanaged ht
      (h.rwlock hinv ht)))]
    exact h.closeTx hinv ht

/-- The base of a writer is the published state. -/
lemma Simulates.writer (ho : (s.world.txs t).db = true) (hw : (s.world.txs t).writable = true)
    (ht : t ∉ s.ended) :
    ∃ base st, (s.world.txs t).base = some base ∧ s.world.db.state = some st ∧
      dirOf base = dirOf st := by
  have hx := h.tx t ho
  have hpc : (m.tx (f t)).pc = .running := hx.place.resolve_right fun hp => ht hp.2
  have hwr := hinv.runningRW hpc hx.db (hx.writable.trans hw)
  have hbase := hx.base.symm.trans hwr.snapshot.base
  have hcurrent := (hx.base.symm.trans hwr.current).trans h.db.state
  obtain ⟨base, hbase, hdir⟩ := Option.map_eq_some_iff.1 hbase
  rw [hbase] at hcurrent
  obtain ⟨st, hst, hdir'⟩ := Option.map_eq_some_iff.1 hcurrent.symm
  exact ⟨base, st, hbase, hst, hdir'.symm⟩

end

lemma Simulates.commits_eq {fuel : ℕ} {order : Tx.Order} :
    (Event.call (.publish t order) fuel).commits s =
      Event.stored t (Tx.publish fuel t order s.world) := by
  change Event.stored t (Tx.publish fuel t order { s.world with cut := none }) = _
  rw [h.world]

/-- `Tx.Commit` up to its store is matched. -/
lemma Simulates.publish (hinv : Inv d₀ m) (hiso : Iso s.ended F s.world) {fuel : ℕ}
    {order : Tx.Order} (ht : t ∉ s.ended)
    (hne : ((Call.publish t order).run fuel s.world).1 ≠ .hang) :
    Matched c f s m ((Event.call (.publish t order) fuel).commits s)
      (s.after (.publish t order) none fuel) := by
  by_cases hopen : (s.world.txs t).db = true ∧ (s.world.txs t).writable = true
  swap
  · -- the commit is refused
    obtain ⟨o, hp, ho⟩ := publish_refused fuel order hopen
    have hnone : Event.stored t (o, s.world) = none := by
      rcases o with (_ | _) | _ | _
      · exact absurd rfl ho
      all_goals rfl
    rw [h.commits_eq, hp, hnone]
    apply h.quiet
    change SameTxs s.world ((Tx.publish fuel t order >>= fun err => pure err.isSome) s.world).2
    rw [Prog.bind_apply, hp]
    cases o <;> exact .refl _
  obtain ⟨ho, hw⟩ := hopen
  have hx := h.tx t ho
  have hpc : (m.tx (f t)).pc = .running := hx.place.resolve_right fun hp => ht hp.2
  obtain ⟨base, -, hbase, -, -⟩ := h.writer hinv ho hw ht
  have hne' : (Tx.publish fuel t order s.world).1 ≠ .hang := by
    intro hhang
    apply hne
    change ((Tx.publish fuel t order >>= fun err => pure err.isSome) s.world).1 = .hang
    rw [Prog.bind_apply]
    rcases hp : Tx.publish fuel t order s.world with ⟨o, w'⟩
    rw [hp] at hhang
    cases hhang
    rfl
  rcases hiso.publish_cases ho hw hx.unmanaged ht hne' with
    ⟨st, w', hp, htxs, hdb, hkept⟩ | ⟨e, w', hp, hstay⟩
  · obtain ⟨e, he, hdir⟩ := commitDir_of_kept hbase hkept
    have hrun : (Call.publish t order).run fuel s.world = (.ok false, w') := Prog.bind_ok hp
    have hafter : s.after (.publish t order) none fuel =
        { world := { w' with cut := none }, ended := insert t s.ended } := by
      unfold Sys.after
      rw [h.world, hrun]
      rfl
    rw [hafter]
    have hxb : (m.tx (f t)).base = some (dirOf base) := by rw [hx.base, hbase]; rfl
    have hmatch : ReflTransGen (TxStep c (f t)) (m.shared, m.tx (f t)) _ :=
      run_publish hpc hx.managed hx.db (hx.writable.trans hw) hxb e
    rw [hdir] at hmatch
    have hcommits : (Event.call (.publish t order) fuel).commits s = some (t, st) := by
      rw [h.commits_eq, hp]
      change w'.db.state.map (fun st => (t, st)) = _
      rw [hdb]
      rfl
    rw [hcommits]
    refine ⟨f, _, run_tx rfl hmatch, ?_, fun _ _ => rfl, fun t' ht' _ hended =>
      ?_, by rintro ⟨⟩, ?_⟩
    rotate_left
    · refine h.frame_move ho ht' ?_
      rintro rfl
      exact ht (hended (Finset.mem_insert_self _ _))
    · rintro _ _ ⟨⟩
      exact ⟨ho, base, e, hbase, he, hdir, rfl⟩
    apply h.move (t := t)
    · rfl
    · exact ho
    · exact fun t' _ => congrFun htxs t'
    · exact Finset.subset_insert t s.ended
    · change DbMatches c w'.db _
      rw [hdb]
      exact ⟨h.db.readOnly, h.db.opened, rfl, h.db.lock⟩
    · intro _
      change TxMatches _ (w'.txs t) _
      rw [htxs]
      exact ⟨hx.writable, hx.managed, hx.unmanaged, hx.db, hx.base, hx.handlers,
        .inr ⟨rfl, Finset.mem_insert_self t s.ended⟩⟩
    · intro r hr
      change ∃ t', r = .tx (f t') ∧ (w'.txs t').db = true ∧ (w'.txs t').writable = true
      rw [htxs]
      exact h.holder r hr
  · rw [h.commits_eq, hp]
    apply h.quiet
    have hrun : (Call.publish t order).run fuel s.world = (.panic e, w') := Prog.bind_panic hp
    rw [hrun]
    exact .of_eq hstay.db hstay.txs

/-- `DB.Close` is matched. -/
lemma Simulates.dbClose (hl : s.world.db.rwlock = false) :
    Matched c f s m none { s with world := (DB.close s.world).2 } := by
  rw [dbClose_eq h.cut hl]
  have hfree : m.shared.rwlock = none := by
    have hlock := h.db.lock
    rw [hl] at hlock
    simpa using hlock
  have hnew : m.newClose.close m.nextClose = .lock := Function.update_self ..
  have hmatch := run_close (c := c) hnew (run_dbClose (k := m.nextClose) hfree)
  refine ⟨f, _, .head (.inr .dbClose) hmatch, ?_, fun _ _ => rfl, fun _ _ _ _ => rfl, fun _ => ?_,
    by rintro _ _ ⟨⟩⟩
  swap
  · change (if m.newClose.shared.opened = true then _ else m.newClose.shared : Shared _).log = _
    split <;> rfl
  refine ⟨h.cut, ?_, h.inj, h.tx, ?_⟩
  · cases ho : s.world.db.opened with
    | true =>
      have ho' : m.newClose.shared.opened = true := h.db.opened.trans ho
      rw [if_pos ho']
      refine ⟨h.db.readOnly, rfl, ?_, ?_⟩
      · change none = Option.map dirOf (if s.world.db.opened = true then none else s.world.db.state)
        rw [if_pos ho]
        rfl
      · exact hl.symm
    | false =>
      have ho' : ¬ m.newClose.shared.opened = true := by
        change ¬ m.shared.opened = true
        rw [h.db.opened, ho]
        simp
      rw [if_neg ho']
      refine ⟨h.db.readOnly, h.db.opened.trans ho, ?_, h.db.lock⟩
      change m.shared.state =
        Option.map dirOf (if s.world.db.opened = true then none else s.world.db.state)
      rw [if_neg (by simp [ho])]
      exact h.db.state
  · intro r hr
    have hnone : (if m.newClose.shared.opened = true then
        { m.newClose.shared with rwlock := none, opened := false, state := none }
        else m.newClose.shared).rwlock = none := by
      split
      · rfl
      · exact hfree
    cases hnone.symm.trans hr

/-- A call on the buckets of a transaction is matched by no step. -/
lemma Simulates.sameTxs {α : Type} {a : Call} {fuel : ℕ} {p : Go α}
    (hrun : a.run fuel = p >>= fun _ => pure true) (hp : Stays SameTxs s.world p fun _ _ => True) :
    Matched c f s m none (s.after a none fuel) := by
  apply h.quiet
  rw [hrun]
  have hstay : Stays SameTxs s.world (p >>= fun _ => pure true) fun _ _ => True :=
    hp.bind fun _ w' _ _ => .pure (.refl w') trivial
  exact hstay.1

/-- Every call that comes to its end is matched. -/
lemma Simulates.call (hinv : Inv d₀ m) (hiso : Iso s.ended F s.world) {a : Call} {fuel : ℕ}
    (ha : a.Admissible s) (hne : (a.run fuel s.world).1 ≠ .hang) :
    Matched c f s m ((Event.call a fuel).commits s) (s.after a none fuel) := by
  cases a with
  | begin_ writable =>
    cases writable with
    | false => exact h.beginRO hinv hiso fuel
    | true =>
      apply h.beginRW hinv hiso fuel
      intro hhang
      apply hne
      change ((DB.begin_ true >>= fun _ => pure true) s.world).1 = .hang
      rw [Prog.bind_apply]
      rcases hb : DB.begin_ true s.world with ⟨o, w'⟩
      rw [hb] at hhang
      cases hhang
      rfl
  | bucket t name => exact h.sameTxs rfl (dirWrites_sameTxs.bucket _ (.refl _))
  | createBucket t name => exact h.sameTxs rfl (sameTxs_createBucket _ (.refl _))
  | createBucketIfNotExists t name =>
    exact h.sameTxs rfl (compositional_sameTxs.createBucketIfNotExists dirWrites_sameTxs.bucket
      sameTxs_createBucket _ (.refl _))
  | deleteBucket t name => exact h.sameTxs rfl (dirWrites_sameTxs.deleteBucket _ (.refl _))
  | put b key value => exact h.sameTxs rfl (hiso.call_sameTxs handleCall_put ha.1 ha.2)
  | delete b key => exact h.sameTxs rfl (hiso.call_sameTxs handleCall_delete ha.1 ha.2)
  | cursorDelete cur =>
    refine h.sameTxs rfl ?_
    rcases e : cur.bucket with _ | b
    · rw [cursorDelete_none e]
      exact ⟨.refl _, fun _ _ => trivial⟩
    · exact hiso.call_sameTxs (handleCall_cursorDelete e) (ha b e).1 (ha b e).2
  | setFillPercent b x =>
    refine h.sameTxs rfl ⟨?_, fun _ _ => trivial⟩
    exact (stays_setFillPercent (hiso.within ha)).1.within.sameTxs
  | publish t order => exact h.publish hinv hiso ha hne
  | close t => exact h.close hinv fuel t
  | rollback t => exact h.rollback hinv fuel t

end

/-- `DB.Close` keeps what is published apart from the nodes of the transactions. -/
lemma iso_closeDB {w : World} {dead : Finset TxId} (h : Iso dead F w) (hcut : w.cut = none) :
    Iso dead F w.closeDB := by
  have hdb := (h.setDb (f := fun db =>
    { db with opened := false, state := if db.opened then none else db.state }) ?_).1.iso
  · rw [write_eq hcut] at hdb
    exact hdb
  · intro st hst
    dsimp only at hst
    split at hst
    · cases hst
    · exact hst

/-- Every call of the engine is matched. -/
lemma Event.matched {e : Event} (he : e.Enabled s) (hsim : Simulates c f s m) (hinv : Inv d₀ m)
    (hiso : Iso s.ended F s.world) : Matched c f s m (e.commits s) (e.next s) := by
  cases e with
  | call a fuel =>
    obtain ⟨ha, hne⟩ := he
    rw [hsim.world] at hne
    exact hsim.call hinv hiso ha hne
  | close => exact hsim.dbClose he

/-- A call keeps what is published apart from the nodes of the transactions. -/
lemma Event.iso {e : Event} (he : e.Enabled s) (hcut : s.world.cut = none)
    (hiso : Iso s.ended F s.world) : s.world.nextTx ≤ (e.next s).world.nextTx ∧
      ∃ F', Iso (e.next s).ended F' (e.next s).world := by
  cases e with
  | call a fuel =>
    obtain ⟨hf, F', -, hiso'⟩ := Vmbolt.Step.frozen hiso (.call a none fuel he.1)
    exact ⟨hf.nextTx, F', hiso'⟩
  | close =>
    change s.world.nextTx ≤ (DB.close s.world).2.nextTx ∧ ∃ F', Iso s.ended F' (DB.close s.world).2
    rw [dbClose_eq hcut he]
    exact ⟨le_rfl, F, iso_closeDB hiso hcut⟩

/-- The engine and the machine with the numbers of the transactions, and the invariants of both
sides. -/
structure Related (c : Config) (d₀ : Dir (Option BucketState)) (s : Sys)
    (u : (TxId → TxId) × State (Option BucketState)) : Prop where
  iso : ∃ F, Iso s.ended F s.world
  run : Reachable c d₀ u.2
  sim : Simulates c u.1 s u.2

/-- What one call does to both sides. -/
lemma Related.call {u : (TxId → TxId) × State (Option BucketState)} (h : Related c d₀ s u)
    {e : Event} (he : e.Enabled s) :
    ∃ u', Related c d₀ (e.next s) u' ∧ s.world.nextTx ≤ (e.next s).world.nextTx ∧
      Matches c u.1 s u.2 (e.commits s) u'.1 (e.next s) u'.2 := by
  obtain ⟨F, hiso⟩ := h.iso
  obtain ⟨f', m', hm⟩ := Event.matched he h.sim h.run.inv hiso
  obtain ⟨hle, hiso'⟩ := Event.iso he h.sim.cut hiso
  exact ⟨(f', m'), ⟨hiso', h.run.trans hm.run, hm.sim⟩, hle, hm⟩

/-- A database that was just opened. -/
lemma related_init (rt : Runtime) (readOnly stats : Bool) :
    Related ⟨readOnly, stats⟩ (fun _ => none) (Sys.init rt readOnly) (id, .init fun _ => none) := by
  refine ⟨⟨∅, iso_init rt readOnly⟩, .refl, rfl, ?_, ?_, ?_, ?_⟩
  · exact ⟨rfl, rfl, rfl, rfl⟩
  · intro t t' ht
    cases ht
  · intro t ht
    cases ht
  · intro r hr
    cases hr

/-- Every run of the engine is matched. -/
lemma related_of_run {rt : Runtime} {readOnly : Bool} (stats : Bool)
    (h : ReflTransGen Whole (Sys.init rt readOnly) s) :
    ∃ u, Related ⟨readOnly, stats⟩ (fun _ => none) s u := by
  induction h with
  | refl => exact ⟨_, related_init rt readOnly stats⟩
  | tail _ hstep ih =>
    obtain ⟨u, hu⟩ := ih
    obtain ⟨e, he, rfl⟩ := whole_iff.1 hstep
    obtain ⟨u', hu', -⟩ := hu.call he
    exact ⟨u', hu'⟩

/-! ### The runs -/

/-- The simulation reads the numbers of the open transactions only. -/
lemma Simulates.congr {g : TxId → TxId} (h : Simulates c f s m)
    (hg : ∀ t, (s.world.txs t).db = true → g t = f t) : Simulates c g s m where
  cut := h.cut
  db := h.db
  inj t t' ht ht' heq := by
    rw [hg t ht, hg t' ht'] at heq
    exact h.inj t t' ht ht' heq
  tx t ht := by
    rw [hg t ht]
    exact h.tx t ht
  holder r hr := by
    obtain ⟨t, hrt, ht, hw⟩ := h.holder r hr
    exact ⟨t, by rw [hg t ht]; exact hrt, ht, hw⟩

lemma Matches.congr {g f' : TxId → TxId} {k : Option (TxId × DbState)}
    {m' : State (Option BucketState)} (h : Matches c f s m k f' s' m')
    (hg : ∀ t, (s.world.txs t).db = true → g t = f t)
    (hg' : ∀ t, (s'.world.txs t).db = true → g t = f' t) : Matches c g s m k g s' m' where
  run := h.run
  sim := h.sim.congr hg'
  numbers _ _ := rfl
  frame t ht := by
    rw [hg t ht]
    exact h.frame t ht
  silent := h.silent
  entry t st hk := by
    obtain ⟨ho, base, e, hentry⟩ := h.entry t st hk
    rw [hg t ho]
    exact ⟨ho, base, e, hentry⟩

/-- The commits of the first `n` calls of a run. -/
def commitsOf (s : ℕ → Sys) (e : ℕ → Event) (n : ℕ) : List (TxId × DbState) :=
  (List.range n).filterMap fun i => (e i).commits (s i)

/-- The log of a machine that matches a run call by call. -/
lemma log_of_matches {s : ℕ → Sys} {e : ℕ → Event} {m : ℕ → State (Option BucketState)} {n : ℕ}
    (h₀ : (m 0).shared.log = [])
    (hm : ∀ i, i < n → Matches c f (s i) (m i) ((e i).commits (s i)) f (s (i + 1)) (m (i + 1))) :
    (m n).shared.log.map (fun p => (p.tx, p.result)) =
      (commitsOf s e n).map fun x => (f x.1, dirOf x.2) := by
  induction n with
  | zero =>
    rw [h₀]
    rfl
  | succ n ih =>
    have hlast := hm n (Nat.lt_succ_self n)
    have ih := ih fun i hi => hm i (hi.trans (Nat.lt_succ_self n))
    unfold commitsOf at ih ⊢
    rw [List.range_succ, List.filterMap_append, List.map_append, ← ih]
    rcases hk : (e n).commits (s n) with _ | ⟨t, st⟩
    · rw [hlast.silent hk]
      simp [hk]
    · obtain ⟨-, base, ed, -, -, -, hlog⟩ := hlast.entry t st hk
      rw [hlog]
      simp [hk]

/-- The engine refines the machine. A run of calls of the engine is matched call by call by a run of
the machine, with one number for each transaction, and the log of the machine has the commits of the
engine in their order. -/
theorem engine_refines_machine {rt : Runtime} {readOnly : Bool} (stats : Bool) {e : ℕ → Event}
    {n : ℕ} {s : ℕ → Sys} (h₀ : s 0 = Sys.init rt readOnly)
    (hs : ∀ i, i < n → (e i).Enabled (s i) ∧ s (i + 1) = (e i).next (s i)) :
    ∃ (f : TxId → TxId) (m : ℕ → State (Option BucketState)), m 0 = .init (fun _ => none) ∧
      (∀ i, i ≤ n → Simulates ⟨readOnly, stats⟩ f (s i) (m i)) ∧
      (∀ i, i < n → Matches ⟨readOnly, stats⟩ f (s i) (m i) ((e i).commits (s i)) f (s (i + 1))
        (m (i + 1))) ∧
      ∀ i, i ≤ n → (m i).shared.log.map (fun p => (p.tx, p.result)) =
        (commitsOf s e i).map fun x => (f x.1, dirOf x.2) := by
  obtain ⟨u, hu₀, hR, hQ⟩ := path_simulates (x := s)
    (R := Related ⟨readOnly, stats⟩ fun _ => none)
    (Q := fun i u u' => (s i).world.nextTx ≤ (s (i + 1)).world.nextTx ∧
      Matches ⟨readOnly, stats⟩ u.1 (s i) u.2 ((e i).commits (s i)) u'.1 (s (i + 1)) u'.2)
    (fun i hi u hu => by
      obtain ⟨he, hnext⟩ := hs i hi
      rw [hnext]
      exact hu.call he)
    (h₀ ▸ related_init rt readOnly stats)
  -- a transaction keeps its number, so the last numbering serves for the whole run
  have hnum : ∀ j, j ≤ n → ∀ i, i ≤ j → (s i).world.nextTx ≤ (s j).world.nextTx ∧
      ∀ t, t < (s i).world.nextTx → (u j).1 t = (u i).1 t := by
    intro j hj i hij
    induction j, hij using Nat.le_induction with
    | base => exact ⟨le_rfl, fun _ _ => rfl⟩
    | succ j hij ih =>
      obtain ⟨hle, hsame⟩ := ih (Nat.le_of_succ_le hj)
      obtain ⟨hle', hm⟩ := hQ j hj
      exact ⟨hle.trans hle', fun t ht => (hm.numbers t (ht.trans_le hle)).trans (hsame t ht)⟩
  have hopen : ∀ i, i ≤ n → ∀ t, ((s i).world.txs t).db = true → (u n).1 t = (u i).1 t := by
    intro i hi t ht
    obtain ⟨F, hiso⟩ := (hR i hi).iso
    exact (hnum n le_rfl i hi).2 t (hiso.opened t ht)
  have hmatch : ∀ i, i < n → Matches ⟨readOnly, stats⟩ (u n).1 (s i) (u i).2 ((e i).commits (s i))
      (u n).1 (s (i + 1)) (u (i + 1)).2 := fun i hi =>
    (hQ i hi).2.congr (hopen i hi.le) (hopen (i + 1) hi)
  have hlog : (u 0).2.shared.log = [] := by
    rw [hu₀]
    rfl
  exact ⟨(u n).1, fun i => (u i).2, congrArg Prod.snd hu₀,
    fun i hi => (hR i hi).sim.congr (hopen i hi), hmatch,
    fun i hi => log_of_matches hlog fun j hj => hmatch j (hj.trans_le hi)⟩

/-- A first transaction puts a pair into a new bucket and commits. -/
def firstCalls : ℕ → Event
  | 0 => .call (.begin_ true) 0
  | 1 => .call (.createBucket 0 [1]) 0
  | 2 => .call (.put 0 [7] (some [8])) 3
  | 3 => .call (.publish 0 ⟨[([1], [0])], [[1]], [[1]]⟩) 4
  | _ => .call (.close 0) 0

/-- The states between these calls. -/
def firstStates : ℕ → Sys
  | 0 => Sys.init default false
  | i + 1 => (firstCalls i).next (firstStates i)

/-- The machine that matches the first transaction logs its commit. -/
theorem engine_refines_machine_firstCalls :
    ∃ (f : TxId → TxId) (m : ℕ → State (Option BucketState)), m 0 = .init (fun _ => none) ∧
      (∀ i, i ≤ 5 → Simulates ⟨false, true⟩ f (firstStates i) (m i)) ∧
      (∀ i, i < 5 → ReflTransGen (Step ⟨false, true⟩) (m i) (m (i + 1))) ∧
      (m 3).shared.committers = [] ∧ (m 4).shared.committers = [f 0] := by
  have henabled : ∀ i, i < 5 → (firstCalls i).Enabled (firstStates i) := by
    intro i hi
    match i, hi with
    | 0, _ => exact ⟨trivial, by rintro ⟨⟩⟩
    | 1, _ => exact ⟨Finset.notMem_empty 0, by rintro ⟨⟩⟩
    | 2, _ => exact ⟨⟨by decide, by decide⟩, by rintro ⟨⟩⟩
    | 3, _ => exact ⟨notMem_ended_firstPut, by rintro ⟨⟩⟩
    | 4, _ => exact ⟨trivial, by rintro ⟨⟩⟩
  obtain ⟨f, m, hm₀, hsim, hmatch, hlog⟩ :=
    engine_refines_machine (s := firstStates) (n := 5) true rfl fun i hi => ⟨henabled i hi, rfl⟩
  have hcommitters : ∀ i, i ≤ 5 → (m i).shared.committers =
      ((commitsOf firstStates firstCalls i).map Prod.fst).map f := by
    intro i hi
    have h := congrArg (List.map Prod.fst) (hlog i hi)
    simpa [List.map_map, Function.comp_def, Shared.committers] using h
  have hbefore : (commitsOf firstStates firstCalls 3).map Prod.fst = [] := by decide +kernel
  have hbehind : (commitsOf firstStates firstCalls 4).map Prod.fst = [0] := by decide +kernel
  refine ⟨f, m, hm₀, hsim, fun i hi => (hmatch i hi).run, ?_, ?_⟩
  · rw [hcommitters 3 (by decide), hbefore]
    rfl
  · rw [hcommitters 4 (by decide), hbehind]
    rfl

/-- The run of the first transaction up to its commit. -/
lemma whole_firstPut : ReflTransGen Whole (Sys.init default false) firstPut :=
  ((ReflTransGen.refl.tail (.call (.begin_ true) _ trivial (by rintro ⟨⟩))).tail
    (.call (.createBucket 0 [1]) _ (Finset.notMem_empty 0) (by rintro ⟨⟩))).tail
    (.call (.put 0 [7] (some [8])) _ ⟨by decide, by decide⟩ (by rintro ⟨⟩))

/-- The transactions of the engine are serial. There is at most one open write transaction, the lock
is held exactly as long as there is one, its base is the published state, and so no commit takes
back what another one has published: a bucket that it has not touched stays as it was right
before. -/
theorem engine_commits_are_serial {rt : Runtime} {readOnly : Bool}
    (h : ReflTransGen Whole (Sys.init rt readOnly) s) :
    (∀ t t', (s.world.txs t).db = true → (s.world.txs t).writable = true →
      (s.world.txs t').db = true → (s.world.txs t').writable = true → t = t') ∧
    (s.world.db.rwlock = true ↔
      ∃ t, (s.world.txs t).db = true ∧ (s.world.txs t).writable = true) ∧
    (∀ t, (s.world.txs t).db = true → (s.world.txs t).writable = true → t ∉ s.ended →
      (s.world.txs t).base.map dirOf = s.world.db.state.map dirOf) ∧
    ∀ t fuel order w', t ∉ s.ended → Tx.publish fuel t order s.world = (.ok none, w') →
      ∃ st st', s.world.db.state = some st ∧ w'.db.state = some st' ∧
        ∀ name, (s.world.txs t).bctx.lookup name = none → name ∉ (s.world.txs t).deleted →
          st'.buckets.lookup name = st.buckets.lookup name := by
  obtain ⟨⟨f, m⟩, ⟨F, hiso⟩, hrun, hsim⟩ := related_of_run true h
  have hinv := hrun.inv
  refine ⟨?_, ?_, ?_, ?_⟩
  · intro t t' ht hw ht' hw'
    have hlock := hsim.locked hinv ht hw
    rw [hsim.locked hinv ht' hw'] at hlock
    apply hsim.inj t t' ht ht'
    simpa using hlock.symm
  · constructor
    · intro hlock
      rw [← hsim.db.lock, Option.isSome_iff_exists] at hlock
      obtain ⟨r, hr⟩ := hlock
      obtain ⟨t, -, ht, hw⟩ := hsim.holder r hr
      exact ⟨t, ht, hw⟩
    · rintro ⟨t, ht, hw⟩
      rw [← hsim.db.lock, hsim.locked hinv ht hw]
      rfl
  · intro t ht hw hended
    obtain ⟨base, st, hbase, hst, hdir⟩ := hsim.writer hinv ht hw hended
    rw [hbase, hst]
    exact congrArg some hdir
  · intro t fuel order w' hended hp
    obtain ⟨ht, hw⟩ : (s.world.txs t).db = true ∧ (s.world.txs t).writable = true := by
      by_contra hopen
      obtain ⟨o, hp', ho⟩ := publish_refused fuel order hopen
      cases hp'.symm.trans hp
      exact ho rfl
    obtain ⟨base, st, hbase, hst, hdir⟩ := hsim.writer hinv ht hw hended
    have hne : (Tx.publish fuel t order s.world).1 ≠ .hang := by rw [hp]; rintro ⟨⟩
    rcases hiso.publish_cases ht hw (hsim.tx t ht).unmanaged hended hne with
      ⟨st', w₁, hp₁, -, hdb, hkept⟩ | ⟨e, w₁, hp₁, -⟩
    · cases hp₁.symm.trans hp
      refine ⟨st, st', hst, by rw [hdb], fun name hb hd => ?_⟩
      rw [hkept name (.inl hb), lookup_keptBuckets_eq hbase, if_neg hd]
      exact congrFun hdir name
    · cases hp₁.symm.trans hp

end Simulation

/-- The first transaction is the only writer. -/
theorem engine_commits_are_serial_firstPut :
    (firstPut.world.txs 0).db = true ∧ (firstPut.world.txs 0).writable = true ∧
      ∀ t, (firstPut.world.txs t).db = true → (firstPut.world.txs t).writable = true → t = 0 :=
  ⟨by decide, by decide, fun t ht hw =>
    (engine_commits_are_serial whole_firstPut).1 t 0 ht hw (by decide) (by decide)⟩

end Vmbolt.Concurrent
