import Mathlib.Algebra.Order.BigOperators.Group.Finset
import Vmbolt.Concurrent.Serial

/-!
# No call waits for ever

The code of the transactions cannot go on for ever by itself, and when it rests, every call has
returned or waits for the lock of a write transaction that a user has opened and not yet ended
(`calls_come_to_rest`). So `Begin`, `Commit`, `Rollback` and `Close` wait for nothing but an open
write transaction.

The number of steps to come is `State.remaining`: every step of the code lowers it.
-/

namespace Vmbolt.Concurrent
open Systems

variable {β : Type} {d₀ : Dir β} {c : Config} {s s' : State β} {t : TxId} {k : CloseId}

/-- The steps that a transaction has before it until its goroutine is back with the user, at
most. -/
def TxState.rank (x : TxState β) : ℕ :=
  match x.pc with
  | .rwBegin => 5
  | .rwLock => 4
  | .rwOpened => 3
  | .rwLoad => 2
  | .rwFail => 1
  | .roOpened => 3
  | .roLoad => 2
  | .roStats => 1
  | .building => x.handlers.length + 5
  | .storing _ => x.handlers.length + 4
  | .closing .commit => x.handlers.length + 3
  | .closing .return_ => 2
  | .clearing .commit => x.handlers.length + 2
  | .clearing .return_ => 1
  | .notifying hs => hs.length + 1
  | .idle | .failed | .running => 0

/-- The steps that a call of `Close` has before it. -/
def ClosePc.rank : ClosePc → ℕ
  | .lock => 5
  | .check => 4
  | .setOpened => 3
  | .setState => 2
  | .unlock => 1
  | .idle | .done => 0

/-- The steps to come, at most, if the users do nothing. -/
def State.remaining (s : State β) : ℕ :=
  ∑ t ∈ Finset.range s.nextTx, (s.tx t).rank + ∑ k ∈ Finset.range s.nextClose, (s.close k).rank

/-- A transaction goes to a place of lower rank. -/
lemma State.setTx_remaining_lt {sh : Shared β} {y : TxState β} (ht : t < s.nextTx)
    (hlt : y.rank < (s.tx t).rank) : ((s.setShared sh).setTx t y).remaining < s.remaining := by
  have hsum := sum_range_update s.tx TxState.rank ht y
  simp only [State.remaining, State.setTx, State.setShared] at hsum ⊢
  omega

/-- A call of `Close` goes to a place of lower rank. -/
lemma State.setClose_remaining_lt {sh : Shared β} {p : ClosePc} (hk : k < s.nextClose)
    (hlt : p.rank < (s.close k).rank) :
    ((s.setShared sh).setClose k p).remaining < s.remaining := by
  have hsum := sum_range_update s.close ClosePc.rank hk p
  simp only [State.remaining, State.setClose, State.setShared] at hsum ⊢
  omega

/-- A step of a transaction leads to a place of lower rank. -/
lemma TxAct.rank_lt {sh sh' : Shared β} {x y : TxState β} (hact : TxAct c t sh x sh' y) :
    y.rank < x.rank := by
  cases hact with
  | rwBegin hpc | rwOpened hpc | roOpened hpc => split <;> simp [TxState.rank, TxState.goto, hpc]
  | rwLoad hpc _ | roLoad hpc _ => simp [TxState.rank, TxState.begun, hpc]
  | rwLock hpc _ | rwLoadNil hpc _ | rwFail hpc | roLoadNil hpc _ | roStats hpc | build hpc _ =>
    simp [TxState.rank, TxState.goto, hpc]
  | buildPanics e hpc => split <;> simp [TxState.rank, hpc]
  | store hpc => simp [TxState.rank, hpc]
  | @closeRW k hpc _ => cases k <;> simp [TxState.rank, TxState.goto, hpc]
  | @closeRO k hpc _ => cases k <;> simp [TxState.rank, TxState.goto, hpc]
  | @clear k hpc => cases k <;> simp [TxState.rank, TxState.closed, hpc]
  | notify hpc | notifyPanics hpc | notified hpc => simp [TxState.rank, TxState.goto, hpc]

/-- A step of `Close` leads to a place of lower rank. -/
lemma CloseAct.rank_lt {sh sh' : Shared β} {p q : ClosePc} (hact : CloseAct k sh p sh' q) :
    q.rank < p.rank := by
  cases hact with
  | check hk =>
    subst hk
    split <;> decide
  | lock hk _ | setOpened hk | setState hk | unlock hk =>
    subst hk
    decide

/-- Every step of the code lowers the number of steps to come. -/
lemma Act.remaining_lt (h : Inv d₀ s) (hact : Act c s s') : s'.remaining < s.remaining := by
  cases hact with
  | tx t hact => exact State.setTx_remaining_lt (h.lt_nextTx rfl hact.keeps.1) hact.rank_lt
  | close k hact =>
    have hlt := hact.rank_lt
    refine State.setClose_remaining_lt (h.lt_nextClose ?_) hlt
    intro hidle
    rw [hidle] at hlt
    exact absurd hlt (Nat.not_lt_zero _)

/-! ### When the code rests -/

/-- The lock is with a write transaction that its user has not ended. -/
def State.HeldByUser (s : State β) : Prop :=
  ∃ w, s.shared.rwlock = some (.tx w) ∧ (s.tx w).pc = .running ∧ (s.tx w).writing = true

/-- The goroutine of the transaction is with its user, or waits in `Begin` for another user. -/
def State.TxRests (s : State β) (t : TxId) : Prop :=
  (s.tx t).pc = .idle ∨ (s.tx t).pc = .failed ∨ (s.tx t).pc = .running ∨
    ((s.tx t).pc = .rwLock ∧ s.HeldByUser)

/-- The call of `Close` has returned, or waits for a user. -/
def State.CloseRests (s : State β) (k : CloseId) : Prop :=
  s.close k = .idle ∨ s.close k = .done ∨ (s.close k = .lock ∧ s.HeldByUser)

/-- Nothing to do: no transaction can go on, but for taking the lock. -/
lemma rests_or_locks (h : Inv d₀ s) (hrest : ∀ s', ¬ Act c s s') (t : TxId) :
    (s.tx t).pc = .idle ∨ (s.tx t).pc = .failed ∨ (s.tx t).pc = .running ∨
      (s.tx t).pc = .rwLock := by
  cases hpc : (s.tx t).pc with
  | idle => exact .inl rfl
  | failed => exact .inr (.inl rfl)
  | running => exact .inr (.inr (.inl rfl))
  | rwLock => exact .inr (.inr (.inr rfl))
  | rwBegin => exact absurd (.tx t (.rwBegin hpc)) (hrest _)
  | rwOpened => exact absurd (.tx t (.rwOpened hpc)) (hrest _)
  | rwLoad =>
    cases hst : s.shared.state with
    | none => exact absurd (.tx t (.rwLoadNil hpc hst)) (hrest _)
    | some d => exact absurd (.tx t (.rwLoad hpc hst)) (hrest _)
  | rwFail => exact absurd (.tx t (.rwFail hpc)) (hrest _)
  | roOpened => exact absurd (.tx t (.roOpened hpc)) (hrest _)
  | roLoad =>
    cases hst : s.shared.state with
    | none => exact absurd (.tx t (.roLoadNil hpc hst)) (hrest _)
    | some d => exact absurd (.tx t (.roLoad hpc hst)) (hrest _)
  | roStats => exact absurd (.tx t (.roStats hpc)) (hrest _)
  | building =>
    have hwr : Writing d₀ s.shared t (s.tx t) := h.at hpc
    exact absurd (.tx t (.build hpc hwr.snapshot.base)) (hrest _)
  | storing d => exact absurd (.tx t (.store hpc)) (hrest _)
  | closing k =>
    cases hw : (s.tx t).writable with
    | true => exact absurd (.tx t (.closeRW hpc hw)) (hrest _)
    | false => exact absurd (.tx t (.closeRO hpc hw)) (hrest _)
  | clearing k => exact absurd (.tx t (.clear hpc)) (hrest _)
  | notifying hs =>
    cases hs with
    | nil => exact absurd (.tx t (.notified hpc)) (hrest _)
    | cons e es => exact absurd (.tx t (.notify hpc)) (hrest _)

/-- Nothing to do: if the lock is taken, then by an open write transaction. -/
lemma held_by_user (h : Inv d₀ s) (hrest : ∀ s', ¬ Act c s s') {r : Holder}
    (hr : s.shared.rwlock = some r) : s.HeldByUser := by
  cases r with
  | close k =>
    have hholds := (h.close k).mpr hr
    cases hk : s.close k with
    | check => exact absurd (.close k (.check hk)) (hrest _)
    | setOpened => exact absurd (.close k (.setOpened hk)) (hrest _)
    | setState => exact absurd (.close k (.setState hk)) (hrest _)
    | unlock => exact absurd (.close k (.unlock hk)) (hrest _)
    | idle | lock | done => rw [hk] at hholds; cases hholds
  | tx w =>
    have hfree : ∀ {isOpen stored}, ¬ Is s.shared w (s.tx w) false isOpen stored := by
      intro _ _ his
      cases his.lock.mp hr
    rcases rests_or_locks h hrest w with hpc | hpc | hpc | hpc
    · exact (hfree (h.at hpc)).elim
    · exact (hfree (h.at hpc)).elim
    · rcases h.at hpc with hwr | hrd | ⟨_, hend⟩
      · refine ⟨w, hr, hpc, ?_⟩
        simp [TxState.writing, hwr.writable, hwr.is.db, hpc, Pc.released]
      · exact (hfree hrd.is).elim
      · exact (hfree hend).elim
    · exact (hfree (h.at hpc).1).elim

/-- From every state of every interleaving the code comes to rest, whichever steps it takes. When it
rests, every call on a transaction and every call of `Close` has returned, or it waits for the lock
of a write transaction that its user has not ended. -/
theorem calls_come_to_rest (h : Reachable c d₀ s) :
    Acc (fun t' t => Act c t t') s ∧
      ∀ s', Relation.ReflTransGen (Act c) s s' → (∀ s'', ¬ Act c s' s'') →
        (∀ t, s'.TxRests t) ∧ ∀ k, s'.CloseRests k := by
  constructor
  · exact acc_of_measure (fun _ _ hinv hact => hinv.act hact) State.remaining
      (fun _ _ hinv hact => hact.remaining_lt hinv) h.inv
  · intro s' hrun hrest
    have hinv : Inv d₀ s' := run_keeps (P := Inv d₀) (fun _ _ hinv hact => hinv.act hact) h.inv hrun
    constructor
    · intro t
      rcases rests_or_locks hinv hrest t with hpc | hpc | hpc | hpc
      · exact .inl hpc
      · exact .inr (.inl hpc)
      · exact .inr (.inr (.inl hpc))
      · refine .inr (.inr (.inr ⟨hpc, ?_⟩))
        cases hlock : s'.shared.rwlock with
        | none => exact absurd (.tx t (.rwLock hpc hlock)) (hrest _)
        | some r => exact held_by_user hinv hrest hlock
    · intro k
      cases hk : s'.close k with
      | idle => exact .inl hk
      | done => exact .inr (.inl hk)
      | lock =>
        refine .inr (.inr ⟨hk, ?_⟩)
        cases hlock : s'.shared.rwlock with
        | none => exact absurd (.close k (.lock hk hlock)) (hrest _)
        | some r => exact held_by_user hinv hrest hlock
      | check => exact absurd (.close k (.check hk)) (hrest _)
      | setOpened => exact absurd (.close k (.setOpened hk)) (hrest _)
      | setState => exact absurd (.close k (.setState hk)) (hrest _)
      | unlock => exact absurd (.close k (.unlock hk)) (hrest _)

theorem calls_come_to_rest_two :
    ∃ s : State ℕ, (s.tx 0).pc = .running ∧ (s.tx 1).pc = .rwLock ∧
      Acc (fun t' t => Act ⟨false, true⟩ t t') s := by
  have h₀ : Relation.ReflTransGen (Step ⟨false, true⟩) (State.init fun _ => none)
    (State.init (fun _ => none : Dir ℕ)) := .refl
  have h₁ := h₀.tail (.inr (.beginRW false))
  have h₂ := h₁.tail (.inl (.tx 0 (.rwBegin rfl)))
  have h₃ := h₂.tail (.inl (.tx 0 (.rwLock rfl rfl)))
  have h₄ := h₃.tail (.inl (.tx 0 (.rwOpened rfl)))
  have h₅ := h₄.tail (.inl (.tx 0 (.rwLoad rfl rfl)))
  have h₆ := h₅.tail (.inr (.beginRW false))
  have h₇ := h₆.tail (.inl (.tx 1 (.rwBegin rfl)))
  exact ⟨_, rfl, rfl, (calls_come_to_rest h₇).1⟩

end Vmbolt.Concurrent
