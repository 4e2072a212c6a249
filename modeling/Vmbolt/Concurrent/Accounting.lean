import Mathlib.Algebra.BigOperators.Ring.Finset
import Vmbolt.Concurrent.Serial

/-!
# Statistics and commit handlers

`Stats.OpenTxN` is the number of open read transactions and `Stats.TxN` the number of those that
have begun, along every interleaving (`stats_count_readers`). The handlers of a transaction run
behind its commit, without the lock, each one once and in the order of the calls of `OnCommit`
(`handlers_run_after_commit`).
-/

namespace Vmbolt.Concurrent
open Systems

variable {β : Type} {d₀ : Dir β} {c : Config} {s s' : State β} {t t' : TxId} {x y : TxState β}

/-! ### The statistics -/

/-- Behind `Begin` and before `removeTx`. -/
def Pc.counted : Pc β → Bool
  | .running | .building | .storing _ | .closing _ => true
  | _ => false

/-- Behind a `Begin` that has returned a transaction. -/
def Pc.returned : Pc β → Bool
  | .running | .building | .storing _ | .closing _ | .clearing _ | .notifying _ => true
  | _ => false

/-- A read transaction that is open. -/
def TxState.reading (x : TxState β) : Bool := !x.writable && x.db && x.pc.counted

/-- A read transaction that has begun. -/
def TxState.hasRead (x : TxState β) : Bool := !x.writable && x.pc.returned

/-- The number of transactions with a property. -/
def State.count (s : State β) (p : TxState β → Bool) : ℤ :=
  ((Finset.range s.nextTx).filter fun t => p (s.tx t) = true).card

lemma State.count_eq_sum (p : TxState β → Bool) :
    s.count p = ∑ t ∈ Finset.range s.nextTx, ((p (s.tx t)).toNat : ℤ) := by
  unfold State.count
  rw [Finset.natCast_card_filter]
  apply Finset.sum_congr rfl
  intro t _
  cases p (s.tx t) <;> rfl

/-- The statistics are right, if there are any. -/
structure Counts (c : Config) (s : State β) : Prop where
  openTxN : s.shared.openTxN = if c.stats = true then s.count TxState.reading else 0
  txN : s.shared.txN = if c.stats = true then s.count TxState.hasRead else 0

/-- The next transaction does not count yet. -/
lemma Counts.newTx (h : Counts c s) (hreading : x.reading = false) (hread : x.hasRead = false) :
    Counts c (s.newTx x) := by
  have hcount : ∀ p : TxState β → Bool, p x = false → (s.newTx x).count p = s.count p := by
    intro p hp
    have hsum := sum_range_succ_update s.tx (fun x => ((p x).toNat : ℤ)) (n := s.nextTx) x
    rw [hp] at hsum
    rw [State.count_eq_sum, State.count_eq_sum]
    exact hsum.trans (add_zero _)
  constructor
  · rw [hcount _ hreading]
    exact h.openTxN
  · rw [hcount _ hread]
    exact h.txN

/-- The statistics follow a transaction that goes from `x` to `y`. -/
structure Counted (c : Config) (sh : Shared β) (x : TxState β) (sh' : Shared β) (y : TxState β) :
    Prop where
  openTxN : sh'.openTxN = sh.openTxN +
    if c.stats = true then (y.reading.toNat - x.reading.toNat : ℤ) else 0
  txN : sh'.txN = sh.txN + if c.stats = true then (y.hasRead.toNat - x.hasRead.toNat : ℤ) else 0

/-- A transaction moves, and the statistics with it. -/
lemma Counts.move (h : Counts c s) {sh : Shared β} (ht : t < s.nextTx)
    (hcounted : Counted c s.shared (s.tx t) sh y) : Counts c ((s.setShared sh).setTx t y) := by
  have hcount : ∀ p : TxState β → Bool, ((s.setShared sh).setTx t y).count p + (p (s.tx t)).toNat =
      s.count p + (p y).toNat := by
    intro p
    rw [State.count_eq_sum, State.count_eq_sum]
    exact sum_range_update s.tx (fun x => ((p x).toNat : ℤ)) ht y
  have hreading := hcount TxState.reading
  have hread := hcount TxState.hasRead
  constructor
  · change sh.openTxN = _
    rw [hcounted.openTxN, h.openTxN]
    split
    · omega
    · rfl
  · change sh.txN = _
    rw [hcounted.txN, h.txN]
    split
    · omega
    · rfl

/-- A transaction moves and counts as before. -/
lemma Counted.stay {sh sh' : Shared β} (hopen : sh'.openTxN = sh.openTxN) (htxN : sh'.txN = sh.txN)
    (hreading : y.reading = x.reading) (hread : y.hasRead = x.hasRead) : Counted c sh x sh' y := by
  constructor
  · rw [hopen, hreading]
    simp
  · rw [htxN, hread]
    simp

/-- A write transaction does not count. -/
lemma Counted.writer {sh sh' : Shared β} (hopen : sh'.openTxN = sh.openTxN)
    (htxN : sh'.txN = sh.txN) (hw : x.writable = true) (hw' : y.writable = true) :
    Counted c sh x sh' y :=
  .stay hopen htxN (by simp [TxState.reading, hw, hw']) (by simp [TxState.hasRead, hw, hw'])

/-- The statistics follow the steps of a transaction. -/
lemma TxAct.counted {sh sh' : Shared β} (hact : TxAct c t sh x sh' y) (hx : TxOK d₀ sh t x) :
    Counted c sh x sh' y := by
  cases hact with
  | rwBegin hpc | rwLock hpc _ | rwOpened hpc | rwFail hpc =>
    obtain ⟨-, hw⟩ := hx.at hpc
    exact .writer rfl rfl hw hw
  | rwLoad hpc _ | rwLoadNil hpc _ =>
    obtain ⟨-, hw, -⟩ := hx.at hpc
    exact .writer rfl rfl hw hw
  | roOpened hpc =>
    refine .stay rfl rfl ?_ ?_ <;> split <;>
      simp [TxState.reading, TxState.hasRead, TxState.goto, hpc, Pc.counted, Pc.returned]
  | roLoad hpc _ =>
    refine .stay rfl rfl ?_ ?_ <;>
      simp [TxState.reading, TxState.hasRead, TxState.begun, hpc, Pc.counted, Pc.returned]
  | roLoadNil hpc _ =>
    refine .stay rfl rfl ?_ ?_ <;>
      simp [TxState.reading, TxState.hasRead, TxState.goto, hpc, Pc.counted, Pc.returned]
  | roStats hpc =>
    have hrd : Reading d₀ sh t x := hx.at hpc
    have hreading : x.reading = false := by simp [TxState.reading, hpc, Pc.counted]
    have hread : x.hasRead = false := by simp [TxState.hasRead, hpc, Pc.returned]
    have hreading' : (x.goto .running).reading = true := by
      simp [TxState.reading, TxState.goto, hrd.writable, hrd.is.db, Pc.counted]
    have hread' : (x.goto .running).hasRead = true := by
      simp [TxState.hasRead, TxState.goto, hrd.writable, Pc.returned]
    constructor <;> cases hstats : c.stats <;>
      simp [Shared.countBegin, hstats, hreading, hread, hreading', hread']
  | build hpc _ | buildPanics _ hpc =>
    have hwr : Writing d₀ sh t x := hx.at hpc
    exact .writer rfl rfl hwr.writable hwr.writable
  | store hpc =>
    obtain ⟨hwr, -⟩ := hx.at hpc
    exact .writer rfl rfl hwr.writable hwr.writable
  | closeRW hpc hw => exact .writer rfl rfl hw hw
  | @closeRO k hpc hw =>
    have hdb : x.db = true := by
      cases k with
      | commit => exact (hx.at hpc).1.db
      | return_ => exact (hx.at hpc).elim (·.is.db) (·.is.db)
    have hreading : x.reading = true := by simp [TxState.reading, hw, hdb, hpc, Pc.counted]
    have hreading' : (x.goto (.clearing k)).reading = false := by
      simp [TxState.reading, TxState.goto, Pc.counted]
    have hread : (x.goto (.clearing k)).hasRead = x.hasRead := by
      simp [TxState.hasRead, TxState.goto, hpc, Pc.returned]
    constructor <;> cases hstats : c.stats <;>
      simp [Shared.countEnd, hstats, hreading, hread, hreading', Int.sub_eq_add_neg]
  | @clear k hpc =>
    refine .stay rfl rfl ?_ ?_ <;> cases k <;>
      simp [TxState.reading, TxState.hasRead, TxState.closed, hpc, Pc.counted, Pc.returned]
  | notify hpc =>
    refine .stay rfl rfl ?_ ?_ <;>
      simp [TxState.reading, TxState.hasRead, TxState.goto, hpc, Pc.counted, Pc.returned]
  | notifyPanics hpc | notified hpc =>
    have his : Is sh t x false false true := hx.at hpc
    refine .stay rfl rfl ?_ ?_ <;>
      simp [TxState.reading, TxState.hasRead, TxState.goto, hpc, his.db, Pc.returned]

/-- The calls on a transaction do not count. -/
lemma TxCall.counted {sh : Shared β} (hcall : TxCall x y) : Counted c sh x sh y := by
  cases hcall with
  | edit | onCommit | commitRefused | rollbackRefused => exact .stay rfl rfl rfl rfl
  | commit hpc _ _ hw => exact .writer rfl rfl hw hw
  | fnNil hpc _ _ =>
    refine .stay rfl rfl ?_ ?_ <;> split <;>
      simp [TxState.reading, TxState.hasRead, hpc, Pc.counted, Pc.returned]
  | rollback hpc _ _ | fnError hpc _ _ | fnPanics hpc _ _ =>
    refine .stay rfl rfl ?_ ?_ <;>
      simp [TxState.reading, TxState.hasRead, TxState.goto, hpc, Pc.counted, Pc.returned]

/-- A step keeps the statistics right. -/
lemma Counts.step (h : Counts c s) (hinv : Inv d₀ s) (hstep : Step c s s') : Counts c s' := by
  rcases hstep with hact | huser
  · cases hact with
    | tx t hact => exact h.move (hinv.lt_nextTx rfl hact.keeps.1) (hact.counted (hinv.tx t))
    | close k hact => cases hact <;> exact ⟨h.openTxN, h.txN⟩
  · cases huser with
    | beginRW auto => exact h.newTx rfl rfl
    | beginRO auto => exact h.newTx rfl rfl
    | call t hcall => exact h.move (hinv.lt_nextTx rfl hcall.keeps.1) hcall.counted
    | dbClose => exact ⟨h.openTxN, h.txN⟩

lemma Counts.init : Counts c (State.init d₀) := by
  constructor <;> rw [State.count_eq_sum] <;> simp [State.init]

lemma Reachable.counts (h : Reachable c d₀ s) : Counts c s := by
  have hboth : Inv d₀ s ∧ Counts c s := by
    refine run_keeps (P := fun s => Inv d₀ s ∧ Counts c s) ?_ ⟨Inv.init, Counts.init⟩ h
    rintro s s' ⟨hinv, hcounts⟩ hstep
    exact ⟨hstep.elim hinv.act hinv.user, hcounts.step hinv hstep⟩
  exact hboth.2

/-- An open read transaction has begun. -/
lemma State.count_reading_le : s.count TxState.reading ≤ s.count TxState.hasRead := by
  unfold State.count
  rw [Int.ofNat_le]
  apply Finset.card_le_card
  apply Finset.monotone_filter_right
  intro t _ hreading
  simp only [TxState.reading, TxState.hasRead, Bool.and_eq_true] at hreading ⊢
  refine ⟨hreading.1.1, ?_⟩
  cases hpc : (s.tx t).pc <;> rw [hpc] at hreading <;> simp_all [Pc.counted, Pc.returned]

/-- Along every interleaving, `Stats.OpenTxN` is the number of read transactions that are open and
`Stats.TxN` the number of those that have begun; without statistics both stay zero. -/
theorem stats_count_readers (h : Reachable c d₀ s) :
    s.shared.openTxN = (if c.stats = true then s.count TxState.reading else 0) ∧
      s.shared.txN = (if c.stats = true then s.count TxState.hasRead else 0) ∧
      0 ≤ s.shared.openTxN ∧ s.shared.openTxN ≤ s.shared.txN := by
  have hcounts := h.counts
  refine ⟨hcounts.openTxN, hcounts.txN, ?_, ?_⟩
  · rw [hcounts.openTxN]
    split
    · exact Int.natCast_nonneg _
    · exact le_rfl
  · rw [hcounts.openTxN, hcounts.txN]
    split
    · exact State.count_reading_le
    · exact le_rfl

theorem stats_count_readers_one :
    ∃ s : State ℕ, s.shared.openTxN = 1 ∧ s.count TxState.reading = 1 := by
  have h₀ : Relation.ReflTransGen (Step ⟨false, true⟩) (State.init fun _ => none)
    (State.init (fun _ => none : Dir ℕ)) := .refl
  have h₁ := h₀.tail (.inr (.beginRO false))
  have h₂ := h₁.tail (.inl (.tx 0 (.roOpened rfl)))
  have h₃ := h₂.tail (.inl (.tx 0 (.roLoad rfl rfl)))
  have h₄ := h₃.tail (.inl (.tx 0 (.roStats rfl)))
  exact ⟨_, rfl, (stats_count_readers h₄).1.symm⟩

/-! ### The commit handlers -/

/-- The handlers of the transaction `t` that have run, in order. -/
def ranOf (t : TxId) (ran : List (TxId × HandlerId)) : List HandlerId :=
  (ran.filter fun r => r.1 = t).map Prod.snd

lemma ranOf_self (ran : List (TxId × HandlerId)) (e : HandlerId) :
    ranOf t (ran ++ [(t, e)]) = ranOf t ran ++ [e] := by
  simp [ranOf]

lemma ranOf_of_ne (ran : List (TxId × HandlerId)) (e : HandlerId) (h : t' ≠ t) :
    ranOf t' (ran ++ [(t, e)]) = ranOf t' ran := by
  simp [ranOf, Ne.symm h]

/-- What has run of a transaction: nothing before its commit has cleared it, then a first part of
the handlers that it had, and before `Commit` returns all of them. -/
structure Handled (ran : List (TxId × HandlerId)) (t : TxId) (x : TxState β) : Prop where
  order : ranOf t ran <+: x.due
  due : x.due <+: x.handlers
  early : x.committed = false ∨ x.db = true → x.due = []
  rest : ∀ hs, x.pc = .notifying hs → ranOf t ran ++ hs = x.due

section Handled
variable {ran : List (TxId × HandlerId)}

/-- A move that has nothing to do with the handlers. -/
lemma Handled.keep (h : Handled ran t x) (hdue : y.due = x.due)
    (hhandlers : x.handlers <+: y.handlers)
    (hearly : y.committed = false ∨ y.db = true → x.committed = false ∨ x.db = true)
    (hrest : ∀ hs, y.pc = .notifying hs → x.pc = .notifying hs) : Handled ran t y where
  order := hdue ▸ h.order
  due := hdue ▸ h.due.trans hhandlers
  early hy := hdue.trans (h.early (hearly hy))
  rest hs hpc := (h.rest hs (hrest hs hpc)).trans hdue.symm

/-- A move to another place, with the same handlers. -/
lemma Handled.goto (h : Handled ran t x) {p : Pc β} (hp : ∀ hs, p ≠ .notifying hs) :
    Handled ran t (x.goto p) :=
  h.keep rfl (List.prefix_refl _) id fun hs hpc => absurd hpc (hp hs)

/-- `Commit` comes to the loop over the handlers. -/
lemma Handled.notifying (h : Handled ran t x) (hdb : x.db = true) (hc : x.committed = true) :
    Handled ran t (x.closed .commit) := by
  have hran : ranOf t ran = [] := List.prefix_nil.mp (h.early (.inr hdb) ▸ h.order)
  refine ⟨by rw [hran]; exact List.nil_prefix, List.prefix_refl _, ?_, ?_⟩
  · rintro (hc' | hdb')
    · cases hc.symm.trans hc'
    · cases hdb'
  · intro hs hpc
    cases hpc
    rw [hran]
    rfl

/-- A handler is called. -/
lemma Handled.notify (h : Handled ran t x) {e : HandlerId} {es : List HandlerId} {p : Pc β}
    (hpc : x.pc = .notifying (e :: es)) (hp : ∀ hs, p = .notifying hs → hs = es) :
    Handled (ran ++ [(t, e)]) t (x.goto p) := by
  have hdue := h.rest _ hpc
  have hstep : ranOf t ran ++ [e] ++ es = x.due := by simpa using hdue
  refine ⟨?_, h.due, h.early, ?_⟩
  · rw [ranOf_self]
    exact ⟨es, hstep⟩
  · intro hs hpc'
    rw [ranOf_self, hp hs hpc']
    exact hstep

end Handled

/-- A transaction moves, the handlers of the others stay. -/
lemma handled_setTx (h : ∀ t, Handled s.shared.ran t (s.tx t)) {sh : Shared β}
    (hran : ∀ t', t' ≠ t → ranOf t' sh.ran = ranOf t' s.shared.ran) (hy : Handled sh.ran t y) :
    ∀ t', Handled ((s.setShared sh).setTx t y).shared.ran t'
      (((s.setShared sh).setTx t y).tx t') := by
  apply (Function.forall_update_iff s.tx fun t' z => Handled sh.ran t' z).mpr
  refine ⟨hy, fun t' ht' => ?_⟩
  exact ⟨by rw [hran t' ht']; exact (h t').order, (h t').due, (h t').early,
    fun hs hpc => by rw [hran t' ht']; exact (h t').rest hs hpc⟩

/-- The steps of a transaction keep its handlers in order, and those of the others. -/
lemma TxAct.handled {sh sh' : Shared β} (hact : TxAct c t sh x sh' y) (hx : TxOK d₀ sh t x)
    (h : Handled sh.ran t x) :
    Handled sh'.ran t y ∧ ∀ t', t' ≠ t → ranOf t' sh'.ran = ranOf t' sh.ran := by
  cases hact with
  | rwBegin | rwOpened | roOpened =>
    refine ⟨h.goto ?_, fun _ _ => rfl⟩
    split <;> rintro hs ⟨⟩
  | rwLock | rwLoadNil | rwFail | roLoadNil | build | closeRW | notified =>
    exact ⟨h.goto (by rintro hs ⟨⟩), fun _ _ => rfl⟩
  | rwLoad hpc _ | roLoad hpc _ =>
    obtain ⟨his, -⟩ := hx.at hpc
    exact ⟨h.keep rfl (List.prefix_refl _) (fun _ => .inl his.committed) (by rintro hs ⟨⟩),
      fun _ _ => rfl⟩
  | roStats =>
    unfold Shared.countBegin
    split <;> exact ⟨h.goto (by rintro hs ⟨⟩), fun _ _ => rfl⟩
  | buildPanics e hpc =>
    refine ⟨h.keep rfl (List.prefix_refl _) id ?_, fun _ _ => rfl⟩
    intro hs
    split <;> rintro ⟨⟩
  | store hpc =>
    obtain ⟨hwr, -⟩ := hx.at hpc
    exact ⟨h.keep rfl (List.prefix_refl _) (fun _ => .inr hwr.is.db) (by rintro hs ⟨⟩),
      fun _ _ => rfl⟩
  | closeRO =>
    unfold Shared.countEnd
    split <;> exact ⟨h.goto (by rintro hs ⟨⟩), fun _ _ => rfl⟩
  | @clear k hpc =>
    cases k with
    | commit =>
      have his : Is sh t x false true true := hx.at hpc
      exact ⟨h.notifying his.db his.committed, fun _ _ => rfl⟩
    | return_ =>
      have his : Is sh t x false true false := hx.at hpc
      exact ⟨h.keep rfl (List.prefix_refl _) (fun _ => .inr his.db) (by rintro hs ⟨⟩),
        fun _ _ => rfl⟩
  | notify hpc =>
    refine ⟨h.notify hpc ?_, fun t' ht' => ranOf_of_ne _ _ ht'⟩
    rintro hs ⟨⟩
    rfl
  | notifyPanics hpc =>
    refine ⟨h.notify hpc ?_, fun t' ht' => ranOf_of_ne _ _ ht'⟩
    rintro hs ⟨⟩

/-- The calls on a transaction keep its handlers in order. -/
lemma TxCall.handled {ran : List (TxId × HandlerId)} (hcall : TxCall x y) (h : Handled ran t x) :
    Handled ran t y := by
  cases hcall with
  | edit => exact h.keep rfl (List.prefix_refl _) id fun _ => id
  | onCommit => exact h.keep rfl (List.prefix_append _ _) id fun _ => id
  | commitRefused | rollbackRefused => exact h
  | commit | rollback | fnPanics => exact h.goto (by rintro hs ⟨⟩)
  | fnNil =>
    refine h.keep rfl (List.prefix_refl _) id ?_
    intro hs
    split <;> rintro ⟨⟩
  | fnError => exact h.keep rfl (List.prefix_refl _) id (by rintro hs ⟨⟩)

/-- A step keeps the handlers in order. -/
lemma handled_step (h : ∀ t, Handled s.shared.ran t (s.tx t)) (hinv : Inv d₀ s)
    (hstep : Step c s s') : ∀ t, Handled s'.shared.ran t (s'.tx t) := by
  have hnew : ∀ {p : Pc β} {writable auto : Bool}, (∀ hs, p ≠ .notifying hs) →
      ∀ t, Handled s.shared.ran t
        ((s.newTx (.called p writable auto s.shared.log.length)).tx t) := by
    intro p writable auto hp
    apply (Function.forall_update_iff s.tx fun t' z => Handled s.shared.ran t' z).mpr
    refine ⟨?_, fun t' _ => h t'⟩
    have hzero := h s.nextTx
    rw [hinv.unused s.nextTx le_rfl] at hzero
    exact hzero.keep rfl (List.prefix_refl _) id fun hs hpc => absurd hpc (hp hs)
  rcases hstep with hact | huser
  · cases hact with
    | tx t hact =>
      obtain ⟨hy, hran⟩ := hact.handled (hinv.tx t) (h t)
      exact handled_setTx h hran hy
    | close k hact => cases hact <;> exact h
  · cases huser with
    | beginRW auto => exact hnew (by rintro hs ⟨⟩)
    | beginRO auto => exact hnew (by rintro hs ⟨⟩)
    | call t hcall => exact handled_setTx h (fun _ _ => rfl) (hcall.handled (h t))
    | dbClose => exact h

lemma Reachable.handled (h : Reachable c d₀ s) : ∀ t, Handled s.shared.ran t (s.tx t) := by
  have hboth : Inv d₀ s ∧ ∀ t, Handled s.shared.ran t (s.tx t) := by
    refine run_keeps (P := fun s => Inv d₀ s ∧ ∀ t, Handled s.shared.ran t (s.tx t)) ?_
      ⟨Inv.init, fun t => ?_⟩ h
    · rintro s s' ⟨hinv, hhandled⟩ hstep
      exact ⟨hstep.elim hinv.act hinv.user, handled_step hhandled hinv hstep⟩
    · exact ⟨List.nil_prefix, List.nil_prefix, fun _ => rfl, by rintro hs ⟨⟩⟩
  exact hboth.2

/-- Along every interleaving, the handlers of a transaction that have run are the first ones of
those that it had when it committed, in the order of the calls of `OnCommit` and each one once. A
transaction of which a handler has run has committed, is closed and does not hold the lock. In the
loop, what has run and what is to come are all the handlers. -/
theorem handlers_run_after_commit (h : Reachable c d₀ s) (t : TxId) :
    ranOf t s.shared.ran <+: (s.tx t).due ∧ (s.tx t).due <+: (s.tx t).handlers ∧
      (ranOf t s.shared.ran ≠ [] → t ∈ s.shared.committers ∧ (s.tx t).db = false ∧
        s.shared.rwlock ≠ some (.tx t)) ∧
      ∀ hs, (s.tx t).pc = .notifying hs → ranOf t s.shared.ran ++ hs = (s.tx t).due := by
  have hh := h.handled t
  have hinv := h.inv
  refine ⟨hh.order, hh.due, fun hran => ?_, hh.rest⟩
  have hlate : ¬((s.tx t).committed = false ∨ (s.tx t).db = true) := by
    intro hearly
    exact hran (List.prefix_nil.mp (hh.early hearly ▸ hh.order))
  simp only [not_or, Bool.not_eq_false, Bool.not_eq_true] at hlate
  obtain ⟨hc, hdb⟩ := hlate
  obtain ⟨holds, _, _, his, -, hfree⟩ := hinv.is t
  refine ⟨hinv.committed.mpr hc, hdb, fun hlock => ?_⟩
  have hholds : holds = true := his.lock.mp hlock
  rw [hfree (his.committed.symm.trans hc) (his.db.symm.trans hdb)] at hholds
  cases hholds

theorem handlers_run_after_commit_one :
    ∃ s : State ℕ, ranOf 0 s.shared.ran = [7] ∧ 0 ∈ s.shared.committers := by
  have h₀ : Relation.ReflTransGen (Step ⟨false, true⟩) (State.init fun _ => none)
    (State.init (fun _ => none : Dir ℕ)) := .refl
  have h₁ := h₀.tail (.inr (.beginRW false))
  have h₂ := h₁.tail (.inl (.tx 0 (.rwBegin rfl)))
  have h₃ := h₂.tail (.inl (.tx 0 (.rwLock rfl rfl)))
  have h₄ := h₃.tail (.inl (.tx 0 (.rwOpened rfl)))
  have h₅ := h₄.tail (.inl (.tx 0 (.rwLoad rfl rfl)))
  have h₆ := h₅.tail (.inr (.call 0 (.onCommit 7 (.inl rfl))))
  have h₇ := h₆.tail (.inr (.call 0 (.commit rfl rfl rfl rfl)))
  have h₈ := h₇.tail (.inl (.tx 0 (.build rfl rfl)))
  have h₉ := h₈.tail (.inl (.tx 0 (.store rfl)))
  have h₁₀ := h₉.tail (.inl (.tx 0 (.closeRW rfl rfl)))
  have h₁₁ := h₁₀.tail (.inl (.tx 0 (.clear rfl)))
  have h₁₂ := h₁₁.tail (.inl (.tx 0 (.notify rfl)))
  exact ⟨_, rfl, ((handlers_run_after_commit h₁₂ 0).2.2.1 (by rintro ⟨⟩)).1⟩

end Vmbolt.Concurrent
