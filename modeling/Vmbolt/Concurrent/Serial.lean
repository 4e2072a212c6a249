import Vmbolt.Concurrent.Preservation

/-!
# A serial history

The write transactions follow one another, each one from the directory that the one before has
published (`commits_are_serial`). An open transaction keeps the directory that it has begun with,
and that directory has every commit from before its `Begin` (`snapshots_are_stable`).
-/

namespace Vmbolt.Concurrent
variable {β : Type} {d₀ : Dir β} {c : Config} {s s' : State β} {t : TxId} {x x' : TxState β}

/-- In `Tx.close`, behind `rwlock.Unlock()`. -/
def Pc.released : Pc β → Bool
  | .clearing _ => true
  | _ => false

/-- The transaction is open for writing: it is between the end of its `Begin` and the `Unlock` of
its `close`. -/
def TxState.writing (x : TxState β) : Bool := x.writable && x.db && !x.pc.released

/-- The next step of the transaction is `rwlock.Unlock()`. -/
def TxState.unlocks (x : TxState β) : Prop :=
  x.pc = .rwFail ∨ ∃ k, x.pc = .closing k ∧ x.writable = true

/-- What holds of the commits and of the open transactions. -/
structure Serial (d₀ : Dir β) (s : State β) : Prop where
  /-- The state is what the commits lead to one after the other, until `Close` drops it. -/
  state : s.shared.state = none ∨ s.shared.state = some (replay d₀ s.shared.log)
  opened : s.shared.opened = true → s.shared.state ≠ none
  /-- Every commit has started from the one before, and has published what it made of it. -/
  entry : ∀ i p, s.shared.log[i]? = some p →
    p.base = replay d₀ (s.shared.log.take i) ∧ p.result = replay d₀ (s.shared.log.take (i + 1))
  once : s.shared.committers.Nodup
  committed : ∀ t, t ∈ s.shared.committers ↔ (s.tx t).committed = true
  /-- There is one writer at a time, and it holds the lock. -/
  lock : ∀ t, (s.tx t).writing = true → s.shared.rwlock = some (.tx t)
  /-- The state does not change under the hands of a writer. -/
  current : ∀ t, (s.tx t).writing = true → (s.tx t).committed = false →
    s.shared.state = (s.tx t).base
  /-- What an open transaction sees. -/
  snapshot : ∀ t, (s.tx t).db = true → (s.tx t).committed = false →
    (s.tx t).pc.released = false → ∃ n, (s.tx t).begunAt ≤ n ∧ n ≤ s.shared.log.length ∧
      (s.tx t).base = some (replay d₀ (s.shared.log.take n))
  /-- The second test of `beginRWTx` never finds nil. -/
  load : ∀ t, (s.tx t).pc = .rwLoad → s.shared.state ≠ none
  /-- Nobody releases a lock that another goroutine holds: neither a transaction nor, at its
  deferred `Unlock`, a call of `Close`. -/
  unlock : ∀ t, (s.tx t).unlocks → s.shared.rwlock = some (.tx t)
  unlockClose : ∀ k, s.close k = .unlock → s.shared.rwlock = some (.close k)

/-- The transaction has its base, or has had it. -/
def Pc.begun : Pc β → Bool
  | .roStats | .running | .building | .storing _ | .closing _ | .clearing _ | .notifying _ => true
  | _ => false

/-- A transaction is open only behind the load of its base, and it is closed behind the lock. -/
lemma Inv.is (h : Inv d₀ s) (t : TxId) : ∃ holds isOpen stored,
    Is s.shared t (s.tx t) holds isOpen stored ∧ (isOpen = true → (s.tx t).pc.begun = true) ∧
      (stored = true → isOpen = false → holds = false) := by
  have hx := h.tx t
  unfold TxOK at hx
  cases hpc : (s.tx t).pc with
  | idle | failed => rw [hpc] at hx; exact ⟨_, _, _, hx, by rintro ⟨⟩, by rintro ⟨⟩⟩
  | rwBegin | rwLock | rwOpened | rwFail | rwLoad | roOpened | roLoad =>
    rw [hpc] at hx
    exact ⟨_, _, _, hx.1, by rintro ⟨⟩, by rintro ⟨⟩⟩
  | roStats | building => rw [hpc] at hx; exact ⟨_, _, _, hx.is, fun _ => rfl, by decide⟩
  | storing d => rw [hpc] at hx; exact ⟨_, _, _, hx.1.is, fun _ => rfl, by decide⟩
  | running =>
    rw [hpc] at hx
    rcases hx with hwr | hrd | ⟨_, hend⟩
    · exact ⟨_, _, _, hwr.is, fun _ => rfl, by decide⟩
    · exact ⟨_, _, _, hrd.is, fun _ => rfl, by decide⟩
    · exact ⟨_, _, _, hend, fun _ => rfl, fun _ _ => rfl⟩
  | closing k =>
    cases k with
    | commit => rw [hpc] at hx; exact ⟨_, _, _, hx.1, fun _ => rfl, by decide⟩
    | return_ =>
      rw [hpc] at hx
      rcases hx with hwr | hrd
      · exact ⟨_, _, _, hwr.is, fun _ => rfl, by decide⟩
      · exact ⟨_, _, _, hrd.is, fun _ => rfl, by decide⟩
  | clearing k =>
    cases k with
    | commit => rw [hpc] at hx; exact ⟨_, _, _, hx, fun _ => rfl, by decide⟩
    | return_ => rw [hpc] at hx; exact ⟨_, _, _, hx, fun _ => rfl, by decide⟩
  | notifying hs => rw [hpc] at hx; exact ⟨_, _, _, hx, fun _ => rfl, by decide⟩

/-- A transaction has stored a directory if the log says so. -/
lemma Inv.committed (h : Inv d₀ s) : t ∈ s.shared.committers ↔ (s.tx t).committed = true := by
  obtain ⟨_, _, _, his, -⟩ := h.is t
  rw [his.logged, his.committed]

/-- An open transaction has had its base. -/
lemma Inv.begun (h : Inv d₀ s) (hdb : (s.tx t).db = true) : (s.tx t).pc.begun = true := by
  obtain ⟨_, _, _, his, hbegun, -⟩ := h.is t
  exact hbegun (his.db.symm.trans hdb)

/-- The places of an open transaction. -/
lemma Inv.open (h : Inv d₀ s) (hdb : (s.tx t).db = true) :
    Writing d₀ s.shared t (s.tx t) ∨ Reading d₀ s.shared t (s.tx t) ∨
      Is s.shared t (s.tx t) true true true ∨ (s.tx t).pc.released = true := by
  have hbegun := h.begun hdb
  cases hpc : (s.tx t).pc with
  | idle | failed | rwBegin | rwLock | rwOpened | rwFail | rwLoad | roOpened | roLoad =>
    rw [hpc] at hbegun
    cases hbegun
  | roStats => exact .inr (.inl (h.at hpc))
  | running => exact (h.running hpc hdb).imp_right .inl
  | building => exact .inl (h.at hpc)
  | storing d => exact .inl (h.at hpc).1
  | closing k =>
    cases k with
    | commit => exact .inr (.inr (.inl (h.at hpc).1))
    | return_ =>
      rcases h.at hpc with hwr | hrd
      · exact .inl hwr
      · exact .inr (.inl hrd)
  | clearing k => exact .inr (.inr (.inr rfl))
  | notifying hs =>
    have his : Is s.shared t (s.tx t) false false true := h.at hpc
    rw [his.db] at hdb
    cases hdb

/-- A writer holds the lock, and before it commits its base is the state. -/
lemma Inv.writing (h : Inv d₀ s) (hwr : (s.tx t).writing = true) :
    s.shared.rwlock = some (.tx t) ∧
      ((s.tx t).committed = false → s.shared.state = (s.tx t).base) := by
  simp only [TxState.writing, Bool.and_eq_true, Bool.not_eq_eq_eq_not, Bool.not_true] at hwr
  obtain ⟨⟨hw, hdb⟩, hpc⟩ := hwr
  rcases h.open hdb with hwr | hrd | his | hrel
  · exact ⟨hwr.is.lock.mpr rfl, fun _ => hwr.current.symm⟩
  · rw [hrd.writable] at hw
    cases hw
  · refine ⟨his.lock.mpr rfl, fun hc => ?_⟩
    rw [his.committed] at hc
    cases hc
  · rw [hrel] at hpc
    cases hpc

/-- The lock that a transaction is about to release is its own. -/
lemma Inv.unlocks (h : Inv d₀ s) (hun : (s.tx t).unlocks) : s.shared.rwlock = some (.tx t) := by
  rcases hun with hpc | ⟨k, hpc, hw⟩
  · obtain ⟨his, -⟩ := h.at hpc
    exact his.lock.mpr rfl
  · cases k with
    | commit =>
      obtain ⟨his, -⟩ := h.at hpc
      exact his.lock.mpr rfl
    | return_ =>
      rcases h.at hpc with hwr | hrd
      · exact hwr.is.lock.mpr rfl
      · rw [hrd.writable] at hw
        cases hw

/-- The base of an open transaction that has not committed. -/
lemma Inv.snapshot_open (h : Inv d₀ s) (hdb : (s.tx t).db = true)
    (hc : (s.tx t).committed = false) (hpc : (s.tx t).pc.released = false) :
    Snapshot d₀ s.shared (s.tx t) := by
  rcases h.open hdb with hwr | hrd | his | hrel
  · exact hwr.snapshot
  · exact hrd.snapshot
  · rw [his.committed] at hc
    cases hc
  · rw [hrel] at hpc
    cases hpc

/-- Along every interleaving of transactions and of calls of `Close`, the commits follow one another
under the lock: the state is what the committed transactions lead to one after the other, each one
from the directory of the one before. -/
theorem commits_are_serial (h : Reachable c d₀ s) : Serial d₀ s := by
  have hinv := h.inv
  obtain ⟨last, hchain, hlast⟩ := hinv.chain
  constructor
  case state =>
    cases hst : s.shared.state with
    | none => exact .inl rfl
    | some d => rw [hlast d hst, hchain.eq_replay]; exact .inr rfl
  case opened => exact hinv.opened
  case entry => exact fun i p hp => hchain.entry hp
  case once => exact hinv.once
  case committed => exact fun t => hinv.committed
  case lock => exact fun t hwr => (hinv.writing hwr).1
  case current => exact fun t hwr => (hinv.writing hwr).2
  case snapshot =>
    intro t hdb hc hpc
    have hsnap := hinv.snapshot_open hdb hc hpc
    exact ⟨_, hsnap.fresh, hsnap.past, hsnap.base⟩
  case load =>
    intro t hpc
    obtain ⟨-, -, ho⟩ := hinv.at hpc
    exact hinv.opened ho
  case unlock => exact fun t hun => hinv.unlocks hun
  case unlockClose => exact fun k hpc => (hinv.close k).1 (by rw [hpc]; rfl)

theorem commits_are_serial_one :
    ∃ s : State ℕ, s.shared.committers = [0] ∧ Serial (fun _ => none) s := by
  have h₀ : Relation.ReflTransGen (Step ⟨false, true⟩) (State.init fun _ => none)
    (State.init (fun _ => none : Dir ℕ)) := .refl
  have h₁ := h₀.tail (.inr (.beginRW false))
  have h₂ := h₁.tail (.inl (.tx 0 (.rwBegin rfl)))
  have h₃ := h₂.tail (.inl (.tx 0 (.rwLock rfl rfl)))
  have h₄ := h₃.tail (.inl (.tx 0 (.rwOpened rfl)))
  have h₅ := h₄.tail (.inl (.tx 0 (.rwLoad rfl rfl)))
  have h₆ := h₅.tail (.inr (.call 0 (.edit (fun _ => some (some 7)) rfl rfl rfl)))
  have h₇ := h₆.tail (.inr (.call 0 (.commit rfl rfl rfl rfl)))
  have h₈ := h₇.tail (.inl (.tx 0 (.build rfl rfl)))
  have h₉ := h₈.tail (.inl (.tx 0 (.store rfl)))
  exact ⟨_, rfl, commits_are_serial h₉⟩

/-! ### What an open transaction sees -/

/-- What the further steps leave of a transaction: the number of commits at its `Begin`, and its
base as long as it is open. -/
structure Keeps (x x' : TxState β) : Prop where
  called : x.pc ≠ .idle → x'.pc ≠ .idle ∧ x'.begunAt = x.begunAt
  base : x.pc.begun = true → x'.pc.begun = true ∧ (x'.db = true → x.db = true ∧ x'.base = x.base)

lemma Keeps.refl : Keeps x x :=
  ⟨fun h => ⟨h, rfl⟩, fun h => ⟨h, fun hdb => ⟨hdb, rfl⟩⟩⟩

lemma Keeps.trans {x'' : TxState β} (h : Keeps x x') (h' : Keeps x' x'') : Keeps x x'' := by
  constructor
  · intro hx
    obtain ⟨hx', heq⟩ := h.called hx
    obtain ⟨hx'', heq'⟩ := h'.called hx'
    exact ⟨hx'', heq'.trans heq⟩
  · intro hx
    obtain ⟨hx', hdb⟩ := h.base hx
    obtain ⟨hx'', hdb'⟩ := h'.base hx'
    refine ⟨hx'', fun hopen => ?_⟩
    obtain ⟨hopen', heq'⟩ := hdb' hopen
    obtain ⟨hopen, heq⟩ := hdb hopen'
    exact ⟨hopen, heq'.trans heq⟩

/-- A move within a transaction that has its base. -/
lemma Keeps.of_begun (hpc : x'.pc.begun = true) (hat : x'.begunAt = x.begunAt)
    (hdb : x'.db = true → x.db = true ∧ x'.base = x.base) : Keeps x x' :=
  ⟨fun _ => ⟨(by intro hidle; rw [hidle] at hpc; cases hpc), hat⟩, fun _ => ⟨hpc, hdb⟩⟩

/-- A move before the transaction has its base. -/
lemma Keeps.of_not_begun {p : Pc β} (hpc : x.pc = p) (hp : p.begun = false) (hidle : x'.pc ≠ .idle)
    (hat : x'.begunAt = x.begunAt) : Keeps x x' :=
  ⟨fun _ => ⟨hidle, hat⟩, fun hb => by rw [hpc, hp] at hb; cases hb⟩

/-- A step of the code of a transaction. -/
lemma TxAct.keeps {sh sh' : Shared β} (hact : TxAct c t sh x sh' x') :
    x.pc ≠ .idle ∧ sh.log <+: sh'.log ∧ Keeps x x' := by
  have hne : ∀ {p : Pc β}, x.pc = p → p ≠ .idle → x.pc ≠ .idle := fun hpc hp => hpc ▸ hp
  cases hact with
  | rwBegin hpc =>
    refine ⟨hne hpc (by rintro ⟨⟩), List.prefix_refl _, .of_not_begun hpc rfl ?_ rfl⟩
    change (if c.readOnly then _ else _ : Pc β) ≠ .idle
    split <;> rintro ⟨⟩
  | rwLock hpc _ =>
    exact ⟨hne hpc (by rintro ⟨⟩), List.prefix_refl _, .of_not_begun hpc rfl (by rintro ⟨⟩) rfl⟩
  | rwOpened hpc =>
    refine ⟨hne hpc (by rintro ⟨⟩), List.prefix_refl _, .of_not_begun hpc rfl ?_ rfl⟩
    change (if sh.opened then _ else _ : Pc β) ≠ .idle
    split <;> rintro ⟨⟩
  | rwLoad hpc _ | rwLoadNil hpc _ | rwFail hpc | roLoad hpc _ | roLoadNil hpc _ =>
    exact ⟨hne hpc (by rintro ⟨⟩), List.prefix_refl _, .of_not_begun hpc rfl (by rintro ⟨⟩) rfl⟩
  | roOpened hpc =>
    refine ⟨hne hpc (by rintro ⟨⟩), List.prefix_refl _, .of_not_begun hpc rfl ?_ rfl⟩
    change (if sh.opened then _ else _ : Pc β) ≠ .idle
    split <;> rintro ⟨⟩
  | roStats hpc =>
    refine ⟨hne hpc (by rintro ⟨⟩), ?_, .of_begun rfl rfl fun hdb => ⟨hdb, rfl⟩⟩
    unfold Shared.countBegin
    split <;> exact List.prefix_refl _
  | buildPanics e hpc =>
    refine ⟨hne hpc (by rintro ⟨⟩), List.prefix_refl _, .of_begun ?_ rfl fun hdb => ⟨hdb, rfl⟩⟩
    change (if x.auto then _ else _ : Pc β).begun = true
    split <;> rfl
  | store hpc =>
    exact ⟨hne hpc (by rintro ⟨⟩), List.prefix_append _ _, .of_begun rfl rfl fun hdb => ⟨hdb, rfl⟩⟩
  | build hpc _ | closeRW hpc _ | notify hpc | notifyPanics hpc | notified hpc =>
    exact ⟨hne hpc (by rintro ⟨⟩), List.prefix_refl _, .of_begun rfl rfl fun hdb => ⟨hdb, rfl⟩⟩
  | closeRO hpc _ =>
    refine ⟨hne hpc (by rintro ⟨⟩), ?_, .of_begun rfl rfl fun hdb => ⟨hdb, rfl⟩⟩
    unfold Shared.countEnd
    split <;> exact List.prefix_refl _
  | @clear k hpc =>
    refine ⟨hne hpc (by rintro ⟨⟩), List.prefix_refl _, ?_⟩
    cases k <;> exact .of_begun rfl rfl (by rintro ⟨⟩)

/-- A call on a transaction. -/
lemma TxCall.keeps (hcall : TxCall x x') : x.pc ≠ .idle ∧ Keeps x x' := by
  have hne : ∀ {p : Pc β}, x.pc = p → p ≠ .idle → x.pc ≠ .idle := fun hpc hp => hpc ▸ hp
  cases hcall with
  | edit e hpc _ _ =>
    exact ⟨hne hpc (by rintro ⟨⟩), .of_begun (congrArg Pc.begun hpc) rfl fun hdb => ⟨hdb, rfl⟩⟩
  | onCommit e hpc =>
    rcases hpc with hpc | ⟨hs, hpc⟩
    · exact ⟨hne hpc (by rintro ⟨⟩), .of_begun (congrArg Pc.begun hpc) rfl fun hdb => ⟨hdb, rfl⟩⟩
    · exact ⟨hne hpc (by rintro ⟨⟩), .of_begun (congrArg Pc.begun hpc) rfl fun hdb => ⟨hdb, rfl⟩⟩
  | commitRefused hpc _ _ | rollbackRefused hpc _ _ => exact ⟨hne hpc (by rintro ⟨⟩), .refl⟩
  | fnNil hpc _ _ =>
    refine ⟨hne hpc (by rintro ⟨⟩), .of_begun ?_ rfl fun hdb => ⟨hdb, rfl⟩⟩
    change (if x.writable then _ else _ : Pc β).begun = true
    split <;> rfl
  | commit hpc _ _ _ | rollback hpc _ _ | fnError hpc _ _ | fnPanics hpc _ _ =>
    exact ⟨hne hpc (by rintro ⟨⟩), .of_begun rfl rfl fun hdb => ⟨hdb, rfl⟩⟩

/-- A step of `Close`. -/
lemma CloseAct.log_eq {k : CloseId} {p q : ClosePc} {sh sh' : Shared β}
    (hact : CloseAct k sh p sh' q) : sh'.log = sh.log := by
  cases hact <;> rfl

/-- What the steps do to the commits and to the transactions. -/
structure Onward (s s' : State β) : Prop where
  log : s.shared.log <+: s'.shared.log
  keeps : ∀ t, Keeps (s.tx t) (s'.tx t)
  born : ∀ t, (s.tx t).pc = .idle → (s'.tx t).pc ≠ .idle → s.shared.log.length ≤ (s'.tx t).begunAt

lemma Onward.refl : Onward s s :=
  ⟨List.prefix_refl _, fun _ => .refl, fun _ hidle hne => absurd hidle hne⟩

lemma Onward.trans {s'' : State β} (h : Onward s s') (h' : Onward s' s'') : Onward s s'' := by
  refine ⟨h.log.trans h'.log, fun t => (h.keeps t).trans (h'.keeps t), fun t hidle hne => ?_⟩
  by_cases hidle' : (s'.tx t).pc = .idle
  · exact h.log.length_le.trans (h'.born t hidle' hne)
  · rw [((h'.keeps t).called hidle').2]
    exact h.born t hidle hidle'

/-- A step of a transaction that has been called. -/
lemma Onward.move {sh : Shared β} {y : TxState β} (hpc : (s.tx t).pc ≠ .idle)
    (hlog : s.shared.log <+: sh.log) (hy : Keeps (s.tx t) y) :
    Onward s ((s.setShared sh).setTx t y) := by
  refine ⟨hlog, (Function.forall_update_iff s.tx fun t' z => Keeps (s.tx t') z).mpr
    ⟨hy, fun _ _ => .refl⟩, ?_⟩
  apply (Function.forall_update_iff s.tx fun t' z => (s.tx t').pc = .idle → z.pc ≠ .idle →
    s.shared.log.length ≤ z.begunAt).mpr
  exact ⟨fun hidle => absurd hidle hpc, fun _ _ hidle hne => absurd hidle hne⟩

/-- A call of `Begin`. -/
lemma Onward.newTx (h : Inv d₀ s) {p : Pc β} {writable auto : Bool} :
    Onward s (s.newTx (.called p writable auto s.shared.log.length)) := by
  have hzero := h.unused s.nextTx le_rfl
  refine ⟨List.prefix_refl _, (Function.forall_update_iff s.tx fun t' z => Keeps (s.tx t') z).mpr
    ⟨?_, fun _ _ => .refl⟩, ?_⟩
  · rw [hzero]
    exact ⟨fun hne => absurd rfl hne, fun hb => by cases hb⟩
  · apply (Function.forall_update_iff s.tx fun t' z => (s.tx t').pc = .idle → z.pc ≠ .idle →
      s.shared.log.length ≤ z.begunAt).mpr
    exact ⟨fun _ _ => le_rfl, fun _ _ hidle hne => absurd hidle hne⟩

/-- A step goes onward. -/
lemma Step.onward (h : Inv d₀ s) (hstep : Step c s s') : Onward s s' := by
  rcases hstep with hact | huser
  · cases hact with
    | tx t hact =>
      obtain ⟨hpc, hlog, hkeeps⟩ := hact.keeps
      exact .move hpc hlog hkeeps
    | close k hact =>
      exact ⟨hact.log_eq ▸ List.prefix_refl _, fun _ => .refl, fun _ hidle hne => absurd hidle hne⟩
  · cases huser with
    | beginRW auto => exact .newTx h
    | beginRO auto => exact .newTx h
    | call t hcall =>
      obtain ⟨hpc, hkeeps⟩ := hcall.keeps
      exact .move hpc (List.prefix_refl _) hkeeps
    | dbClose => exact ⟨List.prefix_refl _, fun _ => .refl, fun _ hidle hne => absurd hidle hne⟩

/-- A run goes onward. -/
lemma Reachable.onward (h : Reachable c d₀ s) (hrun : Relation.ReflTransGen (Step c) s s') :
    Onward s s' := by
  induction hrun with
  | refl => exact .refl
  | tail hrun' hstep ih => exact ih.trans (hstep.onward (Reachable.inv (h.trans hrun')))

/-- Whatever the other goroutines commit in between, an open transaction keeps the directory that it
has begun with; and a transaction that begins later sees the commits so far. -/
theorem snapshots_are_stable (h : Reachable c d₀ s) (hrun : Relation.ReflTransGen (Step c) s s')
    (t : TxId) (hopen : (s'.tx t).db = true) :
    ((s.tx t).db = true → (s'.tx t).base = (s.tx t).base) ∧
      (s.nextTx ≤ t → (s'.tx t).committed = false → (s'.tx t).pc.released = false →
        ∃ n, s.shared.log.length ≤ n ∧ n ≤ s'.shared.log.length ∧
          (s'.tx t).base = some (replay d₀ (s'.shared.log.take n))) := by
  have hon := h.onward hrun
  have hinv' := Reachable.inv (h.trans hrun)
  constructor
  · intro hdb
    obtain ⟨-, hbase⟩ := (hon.keeps t).base (h.inv.begun hdb)
    exact (hbase hopen).2
  · intro ht hc hpc
    have hsnap := hinv'.snapshot_open hopen hc hpc
    have hidle : (s.tx t).pc = .idle := by rw [h.inv.unused t ht]; rfl
    have hne : (s'.tx t).pc ≠ .idle := by
      intro hidle'
      have hb := hinv'.begun hopen
      rw [hidle'] at hb
      cases hb
    exact ⟨_, (hon.born t hidle hne).trans hsnap.fresh, hsnap.past, hsnap.base⟩

theorem snapshots_are_stable_one :
    ∃ s s' : State ℕ, s'.shared.committers = [1] ∧ (s'.tx 0).base = (s.tx 0).base := by
  have h₀ : Relation.ReflTransGen (Step ⟨false, true⟩) (State.init fun _ => none)
    (State.init (fun _ => none : Dir ℕ)) := .refl
  have h₁ := h₀.tail (.inr (.beginRO false))
  have h₂ := h₁.tail (.inl (.tx 0 (.roOpened rfl)))
  have h₃ := h₂.tail (.inl (.tx 0 (.roLoad rfl rfl)))
  refine ⟨_, _, ?_, (snapshots_are_stable h₃ (.head (.inr (.beginRW false)) <|
    .head (.inl (.tx 1 (.rwBegin rfl))) <| .head (.inl (.tx 1 (.rwLock rfl rfl))) <|
    .head (.inl (.tx 1 (.rwOpened rfl))) <| .head (.inl (.tx 1 (.rwLoad rfl rfl))) <|
    .head (.inr (.call 1 (.edit (fun _ => some (some 7)) rfl rfl rfl))) <|
    .head (.inr (.call 1 (.commit rfl rfl rfl rfl))) <| .head (.inl (.tx 1 (.build rfl rfl))) <|
    .head (.inl (.tx 1 (.store rfl))) .refl) 0 rfl).1 rfl⟩
  rfl

end Vmbolt.Concurrent
