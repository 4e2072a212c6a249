import Vmbolt.Concurrent.Serial

/-!
# The history of the writers

Who holds `rwlock` is settled by the places of the transactions, in both directions
(`Inv.lock_iff`). One step changes the published state only if it is the store of a commit or the
one of `Close`, and takes `rwlock` from a transaction only if it is its own `Unlock`
(`Step.effects`). A transaction that is rolled back never stores, and one that has ended never
touches the lock again (`Reachable.ends`).

`Tx.close` unlocks before it sets `tx.db` to nil. In between the next writer may have begun, so that
two transactions have a `tx.db` (`two_writers_not_nil`). A writer counts as open up to its `Unlock`.
-/

namespace Vmbolt.Concurrent
variable {β : Type} {d₀ : Dir β} {c : Config} {s s' : State β} {t : TxId} {x x' : TxState β}
  {sh sh' : Shared β}

/-- In `beginRWTx`, behind `rwlock.Lock()`. -/
def Pc.beginning : Pc β → Bool
  | .rwOpened | .rwLoad | .rwFail => true
  | _ => false

/-- The directory that the last commit of `log` has published. -/
def lastPublished (d₀ : Dir β) (log : List (Published β)) : Dir β :=
  (log.getLast?.map Published.result).getD d₀

/-- The transaction has begun and ended. -/
def TxState.ended (x : TxState β) : Prop := x.pc.begun = true ∧ x.db = false

/-- The transaction is being rolled back, or it has ended. -/
def TxState.ending (x : TxState β) : Prop :=
  x.pc = .closing .return_ ∨ x.pc = .clearing .return_ ∨ x.ended

/-- What holds of the writers and of their commits. -/
structure History (d₀ : Dir β) (s : State β) : Prop where
  one : ∀ t t', (s.tx t).writing = true → (s.tx t').writing = true → t = t'
  /-- A transaction holds the lock exactly while it is open for writing, and in its `Begin`. -/
  lock : ∀ t, s.shared.rwlock = some (.tx t) ↔
    (s.tx t).writing = true ∨ (s.tx t).pc.beginning = true
  /-- Up to its store the published state is the base of the writer. -/
  base : ∀ t, (s.tx t).writing = true → (s.tx t).committed = false →
    s.shared.state = (s.tx t).base ∧ (s.tx t).base = some (lastPublished d₀ s.shared.log)
  /-- Every commit starts from what was published right before. -/
  entry : ∀ i p, s.shared.log[i]? = some p →
    p.base = lastPublished d₀ (s.shared.log.take i) ∧ p.result = commitDir p.base p.edits
  /-- The buckets that a commit has not edited are the ones published before. -/
  kept : ∀ p ∈ s.shared.log, ∀ name, p.edits name = none → p.result name = p.base name
  state : s.shared.state = none ∨ s.shared.state = some (lastPublished d₀ s.shared.log)

/-- What one step can do to the published state and to the lock of a transaction. -/
structure Effects (s s' : State β) : Prop where
  state : s'.shared.state = s.shared.state ∨
    (∃ t d, (s.tx t).pc = .storing d ∧ (s.tx t).writing = true ∧ s'.shared.state = some d) ∨
      ∃ k, s.close k = .setState ∧ s'.shared.state = none
  lock : ∀ t, s.shared.rwlock = some (.tx t) →
    s'.shared.rwlock = some (.tx t) ∨ ((s.tx t).unlocks ∧ s'.shared.rwlock = none)

/-! ## Who holds the lock -/

lemma Is.lock_iff {holds isOpen stored : Bool} (h : Is sh t x holds isOpen stored)
    (e : (x.writing || x.pc.beginning) = holds) :
    sh.rwlock = some (.tx t) ↔ x.writing = true ∨ x.pc.beginning = true := by
  rw [h.lock, ← e, Bool.or_eq_true]

lemma Writing.lock_iff (h : Writing d₀ sh t x) (hpc : x.pc.released = false) :
    sh.rwlock = some (.tx t) ↔ x.writing = true ∨ x.pc.beginning = true :=
  h.is.lock_iff (by simp [TxState.writing, h.writable, h.is.db, hpc])

lemma Reading.lock_iff (h : Reading d₀ sh t x) (hpc : x.pc.beginning = false) :
    sh.rwlock = some (.tx t) ↔ x.writing = true ∨ x.pc.beginning = true :=
  h.is.lock_iff (by simp [TxState.writing, h.writable, hpc])

lemma Inv.lock_iff (h : Inv d₀ s) : s.shared.rwlock = some (.tx t) ↔
    (s.tx t).writing = true ∨ (s.tx t).pc.beginning = true := by
  have hx := h.tx t
  unfold TxOK at hx
  cases hpc : (s.tx t).pc with
  | idle | failed | notifying =>
    rw [hpc] at hx
    rw [← hpc]
    exact hx.lock_iff (by simp [TxState.writing, hx.db, hpc, Pc.beginning])
  | rwBegin | rwLock | rwOpened | rwFail | rwLoad | roOpened | roLoad =>
    rw [hpc] at hx
    rw [← hpc]
    exact hx.1.lock_iff (by simp [TxState.writing, hx.1.db, hpc, Pc.beginning])
  | roStats =>
    rw [hpc] at hx
    rw [← hpc]
    exact hx.lock_iff (by rw [hpc]; rfl)
  | building =>
    rw [hpc] at hx
    rw [← hpc]
    exact hx.lock_iff (by rw [hpc]; rfl)
  | storing d =>
    rw [hpc] at hx
    rw [← hpc]
    exact hx.1.lock_iff (by rw [hpc]; rfl)
  | running =>
    rw [hpc] at hx
    rw [← hpc]
    rcases hx with hwr | hrd | ⟨_, hend⟩
    · exact hwr.lock_iff (by rw [hpc]; rfl)
    · exact hrd.lock_iff (by rw [hpc]; rfl)
    · exact hend.lock_iff (by simp [TxState.writing, hend.db, hpc, Pc.beginning])
  | closing k =>
    rw [hpc] at hx
    rw [← hpc]
    cases k with
    | commit =>
      exact hx.1.lock_iff (by simp [TxState.writing, hx.1.db, hx.2, hpc, Pc.released])
    | return_ =>
      rcases hx with hwr | hrd
      · exact hwr.lock_iff (by rw [hpc]; rfl)
      · exact hrd.lock_iff (by rw [hpc]; rfl)
  | clearing k =>
    -- behind `Unlock`, with a `tx.db` that is not yet nil
    rw [hpc] at hx
    rw [← hpc]
    cases k with
    | commit => exact hx.lock_iff (by simp [TxState.writing, hpc, Pc.released, Pc.beginning])
    | return_ => exact hx.lock_iff (by simp [TxState.writing, hpc, Pc.released, Pc.beginning])

/-! ## The chain of the commits -/

lemma lastPublished_concat (log : List (Published β)) (p : Published β) :
    lastPublished d₀ (log ++ [p]) = p.result := by
  rw [lastPublished, List.getLast?_concat]
  rfl

lemma Chain.lastPublished {log : List (Published β)} {d : Dir β} (h : Chain d₀ log d) :
    d = lastPublished d₀ log := by
  cases h with
  | nil => rfl
  | snoc _ _ => rw [lastPublished_concat]

/-- The commit at the place `i`. -/
lemma Chain.entry_lastPublished {log : List (Published β)} {d : Dir β} (h : Chain d₀ log d) {i : ℕ}
    {p : Published β} (hp : log[i]? = some p) :
    p.base = Concurrent.lastPublished d₀ (log.take i) ∧ p.result = commitDir p.base p.edits := by
  induction h with
  | nil => cases hp
  | @snoc log q hlog hres ih =>
    rcases lt_trichotomy i log.length with hi | rfl | hi
    · rw [List.getElem?_append_left hi] at hp
      rw [List.take_append_of_le_length hi.le]
      exact ih hp
    · rw [List.getElem?_concat_length, Option.some.injEq] at hp
      subst hp
      rw [List.take_left]
      exact ⟨hlog.lastPublished, hres⟩
    · rw [List.getElem?_eq_none (by simpa using Nat.succ_le_of_lt hi)] at hp
      cases hp

lemma Inv.history (h : Inv d₀ s) : History d₀ s := by
  obtain ⟨last, hchain, hlast⟩ := h.chain
  have hstate : s.shared.state = none ∨
      s.shared.state = some (lastPublished d₀ s.shared.log) := by
    cases hst : s.shared.state with
    | none => exact .inl rfl
    | some d => rw [hlast d hst, hchain.lastPublished]; exact .inr rfl
  constructor
  case one =>
    intro t t' ht ht'
    have hlock := (h.writing ht).1.symm.trans (h.writing ht').1
    simpa using hlock
  case lock => exact fun t => h.lock_iff
  case base =>
    intro t ht hc
    have hbase := (h.writing ht).2 hc
    refine ⟨hbase, ?_⟩
    simp only [TxState.writing, Bool.and_eq_true, Bool.not_eq_eq_eq_not, Bool.not_true] at ht
    have hsnap := h.snapshot_open ht.1.2 hc ht.2
    rcases hstate with hnone | hsome
    · rw [hbase, hsnap.base] at hnone
      cases hnone
    · exact hbase.symm.trans hsome
  case entry => exact fun i p hp => hchain.entry_lastPublished hp
  case kept =>
    intro p hp name hname
    obtain ⟨i, hi⟩ := List.getElem?_of_mem hp
    rw [(hchain.entry_lastPublished hi).2, commitDir, hname]
    rfl
  case state => exact hstate

/-! ## One step -/

lemma TxAct.state_cases (hact : TxAct c t sh x sh' x') :
    sh'.state = sh.state ∨ ∃ d, x.pc = .storing d ∧ sh'.state = some d := by
  cases hact with
  | store hpc => exact .inr ⟨_, hpc, rfl⟩
  | roStats hpc =>
    unfold Shared.countBegin
    split <;> exact .inl rfl
  | closeRO hpc _ =>
    unfold Shared.countEnd
    split <;> exact .inl rfl
  | _ => exact .inl rfl

lemma TxAct.lock_cases (hact : TxAct c t sh x sh' x') :
    sh'.rwlock = sh.rwlock ∨ sh.rwlock = none ∨ (x.unlocks ∧ sh'.rwlock = none) := by
  cases hact with
  | rwLock hpc hfree => exact .inr (.inl hfree)
  | rwFail hpc => exact .inr (.inr ⟨.inl hpc, rfl⟩)
  | closeRW hpc hw => exact .inr (.inr ⟨.inr ⟨_, hpc, hw⟩, rfl⟩)
  | roStats hpc =>
    unfold Shared.countBegin
    split <;> exact .inl rfl
  | closeRO hpc _ =>
    unfold Shared.countEnd
    split <;> exact .inl rfl
  | _ => exact .inl rfl

/-- A step of a user publishes nothing and leaves the lock alone. -/
lemma User.shared_eq (huser : User s s') : s'.shared = s.shared := by
  cases huser <;> rfl

lemma Inv.storing_writing (h : Inv d₀ s) {d : Dir β} (hpc : (s.tx t).pc = .storing d) :
    (s.tx t).writing = true := by
  obtain ⟨hwr, -⟩ := h.at hpc
  simp [TxState.writing, hwr.writable, hwr.is.db, hpc, Pc.released]

lemma Step.effects (h : Inv d₀ s) (hstep : Step c s s') : Effects s s' := by
  rcases hstep with hact | huser
  · cases hact with
    | tx t hact =>
      constructor
      · rcases hact.state_cases with heq | ⟨d, hpc, hd⟩
        · exact .inl heq
        · exact .inr (.inl ⟨t, d, hpc, h.storing_writing hpc, hd⟩)
      · intro t' ht'
        rcases hact.lock_cases with heq | hfree | ⟨hun, hnone⟩
        · exact .inl (heq.trans ht')
        · rw [hfree] at ht'
          cases ht'
        · -- the lock that is released is that of the transaction itself
          have hown := (h.unlocks hun).symm.trans ht'
          cases hown
          exact .inr ⟨hun, hnone⟩
    | close k hact =>
      -- inside `Close` no transaction holds the lock
      have hheld : (s.close k).holds = true → ∀ t', s.shared.rwlock ≠ some (.tx t') := by
        intro hk t' ht'
        rw [(h.close k).1 hk] at ht'
        cases ht'
      generalize hp : s.close k = p at hact hheld
      cases hact with
      | lock _ hfree =>
        refine ⟨.inl rfl, fun t' ht' => ?_⟩
        rw [hfree] at ht'
        cases ht'
      | check _ => exact ⟨.inl rfl, fun t' ht' => .inl ht'⟩
      | setOpened _ => exact ⟨.inl rfl, fun t' ht' => .inl ht'⟩
      | setState e => exact ⟨.inr (.inr ⟨k, hp.trans e, rfl⟩), fun t' ht' => .inl ht'⟩
      | unlock e =>
        subst e
        exact ⟨.inl rfl, fun t' ht' => absurd ht' (hheld rfl t')⟩
  · exact ⟨.inl (congrArg Shared.state huser.shared_eq), fun t' ht' =>
      .inl ((congrArg Shared.rwlock huser.shared_eq).trans ht')⟩

/-! ## The end of a transaction -/

/-- A transaction that has ended is in the code of the user or in the loop over its handlers. -/
lemma Inv.ended_at (h : Inv d₀ s) (ho : (s.tx t).ended) :
    (s.tx t).pc = .running ∨ ∃ hs, (s.tx t).pc = .notifying hs := by
  obtain ⟨hbegun, hdb⟩ := ho
  have hx := h.tx t
  unfold TxOK at hx
  cases hpc : (s.tx t).pc with
  | idle | failed | rwBegin | rwLock | rwOpened | rwFail | rwLoad | roOpened | roLoad =>
    rw [hpc] at hbegun
    cases hbegun
  | running => exact .inl rfl
  | notifying hs => exact .inr ⟨hs, rfl⟩
  | roStats | building =>
    rw [hpc] at hx
    rw [hx.is.db] at hdb
    cases hdb
  | storing d =>
    rw [hpc] at hx
    rw [hx.1.is.db] at hdb
    cases hdb
  | closing k =>
    rw [hpc] at hx
    cases k with
    | commit =>
      rw [hx.1.db] at hdb
      cases hdb
    | return_ =>
      rcases hx with hwr | hrd
      · rw [hwr.is.db] at hdb
        cases hdb
      · rw [hrd.is.db] at hdb
        cases hdb
  | clearing k =>
    rw [hpc] at hx
    cases k with
    | commit | return_ =>
      rw [hx.db] at hdb
      cases hdb

/-- The places of a transaction that is rolled back or has ended. -/
def TxState.EndsAt (x : TxState β) : Prop :=
  x.pc = .closing .return_ ∨ x.pc = .clearing .return_ ∨
    (x.db = false ∧ (x.pc = .running ∨ ∃ hs, x.pc = .notifying hs))

lemma Inv.endsAt (h : Inv d₀ s) (he : (s.tx t).ending) : (s.tx t).EndsAt :=
  he.imp_right (Or.imp_right fun ho => ⟨ho.2, h.ended_at ho⟩)

/-- The code of such a transaction goes on to its end and stores nothing. -/
lemma TxAct.ending (hact : TxAct c t sh x sh' x') (hat : x.EndsAt) :
    x'.ending ∧ x'.committed = x.committed ∧ (x.ended → x'.ended) := by
  unfold TxState.EndsAt at hat
  cases hact with
  | rwBegin hpc | rwOpened hpc | rwFail hpc | roOpened hpc | roStats hpc | store hpc =>
    simp [hpc] at hat
  | rwLock hpc _ | rwLoad hpc _ | rwLoadNil hpc _ | roLoad hpc _ | roLoadNil hpc _ | build hpc _ =>
    simp [hpc] at hat
  | buildPanics e hpc => simp [hpc] at hat
  | @closeRW k hpc hw | @closeRO k hpc hw =>
    simp only [hpc, Pc.closing.injEq, reduceCtorEq, exists_false, or_false, and_false] at hat
    subst hat
    refine ⟨.inr (.inl rfl), rfl, fun ho => ?_⟩
    exact ⟨rfl, ho.2⟩
  | @clear k hpc =>
    simp only [hpc, Pc.clearing.injEq, reduceCtorEq, exists_false, or_false, and_false,
      false_or] at hat
    subst hat
    exact ⟨.inr (.inr ⟨rfl, rfl⟩), rfl, fun _ => ⟨rfl, rfl⟩⟩
  | notify hpc | notifyPanics hpc | notified hpc =>
    simp only [hpc, reduceCtorEq, false_or] at hat
    exact ⟨.inr (.inr ⟨rfl, hat.1⟩), rfl, fun _ => ⟨rfl, hat.1⟩⟩

/-- The calls on such a transaction are refused. -/
lemma TxCall.ending (hcall : TxCall x x') (hat : x.EndsAt) :
    x'.ending ∧ x'.committed = x.committed ∧ (x.ended → x'.ended) := by
  unfold TxState.EndsAt at hat
  cases hcall with
  | edit e hpc _ hdb => simp [hpc, hdb] at hat
  | commit hpc _ hdb _ => simp [hpc, hdb] at hat
  | rollback hpc _ hdb | fnNil hpc _ hdb | fnError hpc _ hdb | fnPanics hpc _ hdb =>
    simp [hpc, hdb] at hat
  | onCommit e hpc =>
    have hended : x.ended := by
      rcases hpc with hpc | ⟨hs, hpc⟩
      all_goals
        simp only [hpc, reduceCtorEq, false_or] at hat
        exact ⟨by rw [hpc]; rfl, hat.1⟩
    exact ⟨.inr (.inr hended), rfl, fun _ => hended⟩
  | commitRefused hpc _ _ | rollbackRefused hpc _ _ =>
    simp only [hpc, reduceCtorEq, false_or] at hat
    have hended : x.ended := ⟨by rw [hpc]; rfl, hat.1⟩
    exact ⟨.inr (.inr hended), rfl, fun _ => hended⟩

/-- The transaction stays where it is going. -/
structure Ends (x x' : TxState β) : Prop where
  ending : x.ending → x'.ending ∧ x'.committed = x.committed
  ended : x.ended → x'.ended

lemma Ends.refl : Ends x x := ⟨fun h => ⟨h, rfl⟩, id⟩

lemma Ends.trans {x'' : TxState β} (h : Ends x x') (h' : Ends x' x'') : Ends x x'' := by
  refine ⟨fun he => ?_, fun ho => h'.ended (h.ended ho)⟩
  obtain ⟨he', hc⟩ := h.ending he
  obtain ⟨he'', hc'⟩ := h'.ending he'
  exact ⟨he'', hc'.trans hc⟩

lemma Step.ends (h : Inv d₀ s) (hstep : Step c s s') : ∀ t, Ends (s.tx t) (s'.tx t) := by
  have hmove : ∀ (t : TxId) (y : TxState β), ((s.tx t).EndsAt → y.ending ∧
      y.committed = (s.tx t).committed ∧ ((s.tx t).ended → y.ended)) → Ends (s.tx t) y := by
    intro t y hy
    refine ⟨fun he => ?_, fun ho => (hy (h.endsAt (.inr (.inr ho)))).2.2 ho⟩
    obtain ⟨he', hc, -⟩ := hy (h.endsAt he)
    exact ⟨he', hc⟩
  rcases hstep with hact | huser
  · cases hact with
    | @tx sh y t hact =>
      exact (Function.forall_update_iff s.tx fun t' z => Ends (s.tx t') z).mpr
        ⟨hmove t y hact.ending, fun _ _ => .refl⟩
    | close k hact => exact fun t => .refl
  · have hnew : ∀ y : TxState β, Ends (s.tx s.nextTx) y := by
      intro y
      rw [h.unused s.nextTx le_rfl]
      refine ⟨fun he => ?_, fun ho => by cases ho.1⟩
      rcases he with he | he | ho
      · cases he
      · cases he
      · cases ho.1
    cases huser with
    | beginRW auto | beginRO auto =>
      exact (Function.forall_update_iff s.tx fun t' z => Ends (s.tx t') z).mpr
        ⟨hnew _, fun _ _ => .refl⟩
    | @call y t hcall =>
      exact (Function.forall_update_iff s.tx fun t' z => Ends (s.tx t') z).mpr
        ⟨hmove t y hcall.ending, fun _ _ => .refl⟩
    | dbClose => exact fun t => .refl

lemma Reachable.ends (h : Reachable c d₀ s) (hrun : Relation.ReflTransGen (Step c) s s') :
    ∀ t, Ends (s.tx t) (s'.tx t) := by
  induction hrun with
  | refl => exact fun t => .refl
  | tail hrun' hstep ih =>
    exact fun t => (ih t).trans (hstep.ends (Reachable.inv (h.trans hrun')) t)

/-- A transaction that has ended does not hold the lock. -/
lemma Inv.ended_lock (h : Inv d₀ s) (ho : (s.tx t).ended) :
    s.shared.rwlock ≠ some (.tx t) ∧ ¬ (s.tx t).unlocks := by
  have hlock : s.shared.rwlock ≠ some (.tx t) := by
    rw [Ne, h.lock_iff]
    rintro (hwr | hbeg)
    · simp [TxState.writing, ho.2] at hwr
    · rcases h.ended_at ho with hpc | ⟨hs, hpc⟩
      · rw [hpc] at hbeg
        cases hbeg
      · rw [hpc] at hbeg
        cases hbeg
  exact ⟨hlock, fun hun => hlock (h.unlocks hun)⟩

lemma Inv.ending_storing (h : Inv d₀ s) (he : (s.tx t).ending) (d : Dir β) :
    (s.tx t).pc ≠ .storing d := by
  intro hpc
  have hat := h.endsAt he
  simp [TxState.EndsAt, hpc] at hat

/-- The write transactions of every interleaving, with the calls of `Close`: there is one open
writer at a time, and it has the lock; its base is the published state until it stores; a commit
builds on what was published right before and keeps the buckets that it did not edit. Only the store
of a commit and `Close` change the published state, and only the transaction itself releases its
lock. One that is rolled back is never published, and one that has ended never releases a lock
again. -/
theorem writers_are_serial (h : Reachable c d₀ s) :
    History d₀ s ∧ (∀ s', Step c s s' → Effects s s') ∧
      ∀ s', Relation.ReflTransGen (Step c) s s' → ∀ t,
        ((s.tx t).ending → (t ∈ s'.shared.committers ↔ t ∈ s.shared.committers) ∧
          ∀ d, (s'.tx t).pc ≠ .storing d) ∧
        ((s.tx t).ended → s'.shared.rwlock ≠ some (.tx t) ∧ ¬ (s'.tx t).unlocks) := by
  refine ⟨h.inv.history, fun s' hstep => hstep.effects h.inv, fun s' hrun t => ⟨?_, fun ho => ?_⟩⟩
  · intro he
    have hinv' := Reachable.inv (h.trans hrun)
    obtain ⟨he', hc⟩ := (h.ends hrun t).ending he
    refine ⟨?_, hinv'.ending_storing he'⟩
    rw [hinv'.committed, h.inv.committed, hc]
  · exact Inv.ended_lock (Reachable.inv (h.trans hrun)) ((h.ends hrun t).ended ho)

/-- The first transaction commits, and the function of the second one, a call of `Update`,
panics. -/
theorem writers_are_serial_two : ∃ s : State ℕ, s.shared.committers = [0] ∧
    s.shared.state = some (fun _ => some 7) ∧ History (fun _ => none) s ∧
      ∀ s', Relation.ReflTransGen (Step ⟨false, true⟩) s s' →
        1 ∉ s'.shared.committers ∧ s'.shared.rwlock ≠ some (.tx 0) := by
  have h₀ : Relation.ReflTransGen (Step ⟨false, true⟩) (State.init fun _ => none)
    (State.init (fun _ => none : Dir ℕ)) := .refl
  have h₁ := h₀.tail (.inr (.beginRW false))
  have h₂ := h₁.tail (.inl (.tx 0 (.rwBegin rfl)))
  have h₃ := h₂.tail (.inl (.tx 0 (.rwLock rfl rfl)))
  have h₄ := h₃.tail (.inl (.tx 0 (.rwOpened rfl)))
  have h₅ := h₄.tail (.inl (.tx 0 (.rwLoad rfl rfl)))
  have h₆ := h₅.tail (.inr (.call 0 (.edit (fun _ => some (some 7)) rfl rfl rfl)))
  have h₇ := h₆.tail (.inr (.call 0 (.commit rfl rfl rfl rfl)))
  have h₈ := h₇.tail (.inl (.tx 0 (.build rfl rfl)))
  have h₉ := h₈.tail (.inl (.tx 0 (.store rfl)))
  have h₁₀ := h₉.tail (.inl (.tx 0 (.closeRW rfl rfl)))
  have h₁₁ := h₁₀.tail (.inl (.tx 0 (.clear rfl)))
  have h₁₂ := h₁₁.tail (.inr (.beginRW true))
  have h₁₃ := h₁₂.tail (.inl (.tx 1 (.rwBegin rfl)))
  have h₁₄ := h₁₃.tail (.inl (.tx 1 (.rwLock rfl rfl)))
  have h₁₅ := h₁₄.tail (.inl (.tx 1 (.rwOpened rfl)))
  have h₁₆ := h₁₅.tail (.inl (.tx 1 (.rwLoad rfl rfl)))
  have h₁₇ := h₁₆.tail (.inr (.call 1 (.fnPanics rfl rfl rfl)))
  obtain ⟨hhist, -, hends⟩ := writers_are_serial h₁₇
  refine ⟨_, rfl, rfl, hhist, fun s' hrun => ⟨fun hmem => ?_, ((hends s' hrun 0).2 ⟨rfl, rfl⟩).1⟩⟩
  have hmem' := ((hends s' hrun 1).1 (.inl rfl)).1.1 hmem
  cases hmem' with
  | tail _ hnil => cases hnil

/-- Behind the `Unlock` of the first transaction the second one begins, while `tx.db` of the first
one is not yet nil. -/
theorem two_writers_not_nil : ∃ s : State ℕ, Reachable ⟨false, true⟩ (fun _ => none) s ∧
    (s.tx 0).writable = true ∧ (s.tx 0).db = true ∧ (s.tx 1).writable = true ∧ (s.tx 1).db = true ∧
      s.shared.rwlock = some (.tx 1) := by
  have h₀ : Relation.ReflTransGen (Step ⟨false, true⟩) (State.init fun _ => none)
    (State.init (fun _ => none : Dir ℕ)) := .refl
  have h₁ := h₀.tail (.inr (.beginRW false))
  have h₂ := h₁.tail (.inl (.tx 0 (.rwBegin rfl)))
  have h₃ := h₂.tail (.inl (.tx 0 (.rwLock rfl rfl)))
  have h₄ := h₃.tail (.inl (.tx 0 (.rwOpened rfl)))
  have h₅ := h₄.tail (.inl (.tx 0 (.rwLoad rfl rfl)))
  have h₆ := h₅.tail (.inr (.call 0 (.rollback rfl rfl rfl)))
  have h₇ := h₆.tail (.inl (.tx 0 (.closeRW rfl rfl)))
  have h₈ := h₇.tail (.inr (.beginRW false))
  have h₉ := h₈.tail (.inl (.tx 1 (.rwBegin rfl)))
  have h₁₀ := h₉.tail (.inl (.tx 1 (.rwLock rfl rfl)))
  have h₁₁ := h₁₀.tail (.inl (.tx 1 (.rwOpened rfl)))
  have h₁₂ := h₁₁.tail (.inl (.tx 1 (.rwLoad rfl rfl)))
  exact ⟨_, h₁₂, rfl, rfl, rfl, rfl, rfl⟩

end Vmbolt.Concurrent
