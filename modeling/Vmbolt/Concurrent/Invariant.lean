import Vmbolt.Concurrent.Machine

/-!
# Who may write

What holds in every state of the machine. A transaction holds `rwlock` from the `Lock` of its
`Begin` to the `Unlock` of its `close`, and as long as it can still commit, its base is the
published state. `TxOK` says what holds of one transaction at each place it can be at. A step of one
transaction matters to another one only if it releases or takes the lock of that other one, or
changes the state under its hands (`TxOK.transfer`); the lock rules both out.
-/

namespace Vmbolt.Concurrent
variable {β : Type} {d₀ : Dir β} {sh sh' : Shared β} {t : TxId} {x : TxState β}

/-- The directory after the commits of `log`, one after the other. -/
def replay (d₀ : Dir β) (log : List (Published β)) : Dir β :=
  log.foldl (fun d p => commitDir d p.edits) d₀

/-- The transactions that have stored a directory. -/
def Shared.committers (sh : Shared β) : List TxId := sh.log.map Published.tx

/-- Every commit starts from the result of the one before. -/
inductive Chain (d₀ : Dir β) : List (Published β) → Dir β → Prop
  | nil : Chain d₀ [] d₀
  | snoc {log p} : Chain d₀ log p.base → p.result = commitDir p.base p.edits →
      Chain d₀ (log ++ [p]) p.result

/-- The lock of the transaction, whether it is open and whether it has stored a directory. -/
structure Is (sh : Shared β) (t : TxId) (x : TxState β) (holds isOpen stored : Bool) : Prop where
  lock : sh.rwlock = some (.tx t) ↔ holds = true
  db : x.db = isOpen
  committed : x.committed = stored
  begun : x.begunAt ≤ sh.log.length
  logged : t ∈ sh.committers ↔ stored = true

/-- The base of the transaction is what a number of first commits has led to, those before `Begin`
among them. -/
structure Snapshot (d₀ : Dir β) (sh : Shared β) (x : TxState β) : Prop where
  base : x.base = some (replay d₀ (sh.log.take x.readAt))
  fresh : x.begunAt ≤ x.readAt
  past : x.readAt ≤ sh.log.length

/-- An open write transaction that has not stored a directory. -/
structure Writing (d₀ : Dir β) (sh : Shared β) (t : TxId) (x : TxState β) : Prop where
  is : Is sh t x true true false
  writable : x.writable = true
  snapshot : Snapshot d₀ sh x
  current : x.base = sh.state

/-- An open read transaction. -/
structure Reading (d₀ : Dir β) (sh : Shared β) (t : TxId) (x : TxState β) : Prop where
  is : Is sh t x false true false
  writable : x.writable = false
  snapshot : Snapshot d₀ sh x

/-- A transaction that its goroutine is done with. -/
def Ended (sh : Shared β) (t : TxId) (x : TxState β) : Prop :=
  ∃ stored, Is sh t x false false stored

/-- What holds of a transaction at each place. -/
def TxAt (d₀ : Dir β) (sh : Shared β) (t : TxId) (x : TxState β) : Pc β → Prop
  | .idle | .failed => Is sh t x false false false
  | .rwBegin | .rwLock => Is sh t x false false false ∧ x.writable = true
  | .rwOpened | .rwFail => Is sh t x true false false ∧ x.writable = true
  | .rwLoad => Is sh t x true false false ∧ x.writable = true ∧ sh.opened = true
  | .roOpened | .roLoad => Is sh t x false false false ∧ x.writable = false
  | .roStats => Reading d₀ sh t x
  | .running => Writing d₀ sh t x ∨ Reading d₀ sh t x ∨ Ended sh t x
  | .building => Writing d₀ sh t x
  | .storing d => Writing d₀ sh t x ∧ ∃ b, x.base = some b ∧ d = commitDir b x.edits
  | .closing .commit => Is sh t x true true true ∧ x.writable = true
  | .closing .return_ => Writing d₀ sh t x ∨ Reading d₀ sh t x
  | .clearing .commit => Is sh t x false true true
  | .clearing .return_ => Is sh t x false true false
  | .notifying _ => Is sh t x false false true

/-- What holds of a transaction, by the place it is at. -/
def TxOK (d₀ : Dir β) (sh : Shared β) (t : TxId) (x : TxState β) : Prop := TxAt d₀ sh t x x.pc

lemma TxOK.at {p : Pc β} (h : TxOK d₀ sh t x) (hpc : x.pc = p) : TxAt d₀ sh t x p := hpc ▸ h

/-- The call of `Close` is between `Lock` and `Unlock`. -/
def ClosePc.holds : ClosePc → Bool
  | .check | .setOpened | .setState | .unlock => true
  | _ => false

/-- What holds in every reachable state. -/
structure Inv (d₀ : Dir β) (s : State β) : Prop where
  tx : ∀ t, TxOK d₀ s.shared t (s.tx t)
  close : ∀ k, (s.close k).holds = true ↔ s.shared.rwlock = some (.close k)
  closing : ∀ k, s.close k = .setState → s.shared.opened = false
  unused : ∀ t, s.nextTx ≤ t → s.tx t = .zero
  unusedClose : ∀ k, s.nextClose ≤ k → s.close k = .idle
  opened : s.shared.opened = true → s.shared.state ≠ none
  chain : ∃ d, Chain d₀ s.shared.log d ∧ ∀ d', s.shared.state = some d' → d' = d
  once : s.shared.committers.Nodup

lemma replay_concat (log : List (Published β)) (p : Published β) :
    replay d₀ (log ++ [p]) = commitDir (replay d₀ log) p.edits := by
  rw [replay, List.foldl_append]
  rfl

/-- The last published directory is that of the whole log. -/
lemma Chain.eq_replay {log : List (Published β)} {d : Dir β} (h : Chain d₀ log d) :
    d = replay d₀ log := by
  induction h with
  | nil => rfl
  | snoc _ hres ih =>
    rw [replay_concat, ← ih]
    exact hres

/-- The commit at the place `i` starts from the first `i` commits and adds itself to them. -/
lemma Chain.entry {log : List (Published β)} {d : Dir β} (h : Chain d₀ log d) {i : ℕ}
    {p : Published β} (hp : log[i]? = some p) :
    p.base = replay d₀ (log.take i) ∧ p.result = replay d₀ (log.take (i + 1)) := by
  induction h with
  | nil => cases hp
  | @snoc log q hlog hres ih =>
    rcases lt_trichotomy i log.length with hi | rfl | hi
    · rw [List.getElem?_append_left hi] at hp
      rw [List.take_append_of_le_length hi.le, List.take_append_of_le_length hi]
      exact ih hp
    · rw [List.getElem?_concat_length, Option.some.injEq] at hp
      subst hp
      have hall : (log ++ [q]).take (log.length + 1) = log ++ [q] :=
        List.take_of_length_le (by simp)
      rw [List.take_left, hall, replay_concat, ← hlog.eq_replay]
      exact ⟨rfl, hres⟩
    · rw [List.getElem?_eq_none (by simpa using Nat.succ_le_of_lt hi)] at hp
      cases hp

/-! ### What a step of another goroutine leaves in order -/

/-- What the step of one goroutine does to the part of the shared state that the transaction `t`
relies on: nothing. -/
structure Spares (sh sh' : Shared β) (t : TxId) : Prop where
  lock : sh'.rwlock = some (.tx t) ↔ sh.rwlock = some (.tx t)
  state : sh.rwlock = some (.tx t) → sh'.state = sh.state
  opened : sh.rwlock = some (.tx t) → sh'.opened = sh.opened
  log : sh.log <+: sh'.log
  logged : t ∈ sh'.committers ↔ t ∈ sh.committers

lemma Spares.refl : Spares sh sh t :=
  ⟨Iff.rfl, fun _ => rfl, fun _ => rfl, List.prefix_refl _, Iff.rfl⟩

lemma Is.transfer {holds isOpen stored : Bool} (h : Is sh t x holds isOpen stored)
    (hs : Spares sh sh' t) : Is sh' t x holds isOpen stored :=
  ⟨hs.lock.trans h.lock, h.db, h.committed, h.begun.trans hs.log.length_le,
    hs.logged.trans h.logged⟩

lemma Snapshot.transfer (h : Snapshot d₀ sh x) (hs : Spares sh sh' t) : Snapshot d₀ sh' x := by
  obtain ⟨l, hl⟩ := hs.log
  refine ⟨?_, h.fresh, h.past.trans hs.log.length_le⟩
  rw [h.base, ← hl, List.take_append_of_le_length h.past]

lemma Writing.transfer (h : Writing d₀ sh t x) (hs : Spares sh sh' t) : Writing d₀ sh' t x :=
  ⟨h.is.transfer hs, h.writable, h.snapshot.transfer hs,
    h.current.trans (hs.state (h.is.lock.mpr rfl)).symm⟩

lemma Reading.transfer (h : Reading d₀ sh t x) (hs : Spares sh sh' t) : Reading d₀ sh' t x :=
  ⟨h.is.transfer hs, h.writable, h.snapshot.transfer hs⟩

lemma TxOK.transfer (h : TxOK d₀ sh t x) (hs : Spares sh sh' t) : TxOK d₀ sh' t x := by
  unfold TxOK at h ⊢
  cases hpc : x.pc with
  | idle | failed | roStats | building => rw [hpc] at h; exact h.transfer hs
  | rwBegin | rwLock | rwOpened | rwFail | roOpened | roLoad | storing d =>
    rw [hpc] at h
    exact ⟨h.1.transfer hs, h.2⟩
  | rwLoad =>
    rw [hpc] at h
    exact ⟨h.1.transfer hs, h.2.1, (hs.opened (h.1.lock.mpr rfl)).trans h.2.2⟩
  | running =>
    rw [hpc] at h
    rcases h with h | h | ⟨stored, h⟩
    · exact .inl (h.transfer hs)
    · exact .inr (.inl (h.transfer hs))
    · exact .inr (.inr ⟨stored, h.transfer hs⟩)
  | closing k =>
    rw [hpc] at h
    cases k with
    | commit => exact ⟨h.1.transfer hs, h.2⟩
    | return_ => exact h.imp (·.transfer hs) (·.transfer hs)
  | clearing k =>
    rw [hpc] at h
    cases k with
    | commit => exact h.transfer hs
    | return_ => exact h.transfer hs
  | notifying hs' => rw [hpc] at h; exact h.transfer hs

/-! ### What moving a transaction to another place leaves in order -/

section Goto
variable {p : Pc β}

lemma Is.goto {holds isOpen stored : Bool} (h : Is sh t x holds isOpen stored) :
    Is sh t (x.goto p) holds isOpen stored := ⟨h.lock, h.db, h.committed, h.begun, h.logged⟩

lemma Writing.goto (h : Writing d₀ sh t x) : Writing d₀ sh t (x.goto p) :=
  ⟨h.is.goto, h.writable, ⟨h.snapshot.base, h.snapshot.fresh, h.snapshot.past⟩, h.current⟩

lemma Reading.goto (h : Reading d₀ sh t x) : Reading d₀ sh t (x.goto p) :=
  ⟨h.is.goto, h.writable, ⟨h.snapshot.base, h.snapshot.fresh, h.snapshot.past⟩⟩

/-- The transaction takes the lock. -/
lemma Is.lock_taken {isOpen stored : Bool} (h : Is sh t x false isOpen stored) :
    Is { sh with rwlock := some (.tx t) } t x true isOpen stored :=
  ⟨iff_of_true rfl rfl, h.db, h.committed, h.begun, h.logged⟩

/-- The transaction releases the lock. -/
lemma Is.lock_released {isOpen stored : Bool} (h : Is sh t x true isOpen stored) :
    Is { sh with rwlock := none } t x false isOpen stored :=
  ⟨by simp, h.db, h.committed, h.begun, h.logged⟩

end Goto

end Vmbolt.Concurrent
