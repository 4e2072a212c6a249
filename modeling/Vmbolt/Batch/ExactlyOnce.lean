import Vmbolt.Batch.Writers

/-!
# `DB.Batch` runs every call exactly once

Safety of the machine, over every interleaving: a call is in one batch, a batch is run once, a call
is sent at most one message, and its effect is installed once if `Batch` returns nil and never if
`Batch` returns an error. A commit handler runs behind the store: if it panics in the solo re-run of
a call, `Batch` panics although the effect is installed, and if it panics in the run of a batch, the
process ends with the effects installed and no call told.
-/

namespace Vmbolt.Batching
open Systems

variable {σ ε : Type} {maxBatchSize : ℤ} {fn : CallId → TxFn σ ε} {v₀ : σ} {s s' : State σ ε}

/-- What `DB.Batch` promises in a state of the machine. -/
structure ExactlyOnce (maxBatchSize : ℤ) (fn : CallId → TxFn σ ε) (v₀ : σ) (s : State σ ε) :
    Prop where
  /-- A call that has passed the append is in the list of one batch, once. -/
  appended : ∀ c, ((s.pc c).home = none ∧ ∀ b, c ∉ (s.batch b).log) ∨
    ∃ b, (s.pc c).home = some b ∧ ∀ d, (s.batch d).log.count c = if d = b then 1 else 0
  /-- Nothing is ever appended to a batch whose run has unset `db.batch`. -/
  closed : ∀ b s', (s.batch b).stage.unread = false →
    Relation.ReflTransGen (Step maxBatchSize fn) s s' → (s'.batch b).log = (s.batch b).log
  size : ∀ b, ((s.batch b).calls.length : ℤ) ≤ max 1 maxBatchSize
  runs : ∀ b, (s.batch b).runs ≤ 1
  messages : ∀ c, s.sent c ≤ 1
  /-- The view is what the installed updates make of the first one; the functions of the calls in
  them all returned nil. -/
  installed : Installed fn v₀ s.history s.view
  returned : ∀ c b err, s.pc c = .returned b err →
    s.sent c = 1 ∧ err ≠ some .trySolo ∧ (err = none ↔ s.effects c = 1) ∧
      (err ≠ none → s.effects c = 0)
  /-- `Batch` panics when its solo re-run does. Only the panic of a commit handler comes too late
  for the effect. -/
  panicked : ∀ c b p, s.pc c = .panicked b p → s.sent c = 1 ∧ s.effects c = p.worth
  /-- A step changes nothing, or it is the holder of `rwlock` that installs its update. -/
  writer : ∀ s', Step maxBatchSize fn s s' →
    (s'.view = s.view ∧ s'.history = s.history) ∨ Writes s s'
  /-- A round that fails changes nothing. -/
  failed : ∀ b s' ends failIdx, (s.batch b).stage = .begun → Step maxBatchSize fn s s' →
    (s'.batch b).stage = .closing ends failIdx → ends.worth = 0 →
      s'.view = s.view ∧ s'.history = s.history
  /-- The process ends by a panic of `Commit` or of a commit handler in the run of a batch, and the
  calls of this batch are left without a message. -/
  crashed : s.crashed = true → ∃ b p, (s.batch b).stage = .panicking p ∧
    (∀ reason, p ≠ .fn reason) ∧ ∀ c ∈ (s.batch b).calls, s.sent c = 0 ∧ s.effects c = p.worth

/-! ### Nothing is appended to a batch that is being run -/

/-- Replacing a batch keeps the lists that are closed. -/
lemma State.setBatch_closed {b d : BatchId} {x : Batch ε} (hx : x.log = (s.batch b).log)
    (hst : (s.batch b).stage.unread = false → x.stage.unread = false)
    (hd : (s.batch d).stage.unread = false) :
    ((s.setBatch b x).batch d).log = (s.batch d).log ∧
      ((s.setBatch b x).batch d).stage.unread = false := by
  by_cases hdb : d = b
  · subst hdb
    rw [State.setBatch_self]
    exact ⟨hx, hst hd⟩
  · rw [State.setBatch_of_ne s x hdb]
    exact ⟨rfl, hd⟩

/-- Only the append changes which calls are in a batch, and it appends to `db.batch`. -/
lemma Act.closed (h : Shape maxBatchSize s) (hact : Act maxBatchSize fn s s') {b : BatchId}
    (hb : (s.batch b).stage.unread = false) :
    (s'.batch b).log = (s.batch b).log ∧ (s'.batch b).stage.unread = false := by
  cases hact with
  | lock | unlock | receive | receiveSolo | soloRefused | soloLock | soloUnlock | crash =>
    exact ⟨rfl, hb⟩
  | choose =>
    change ((s.choose maxBatchSize).batch b).log = _ ∧
      ((s.choose maxBatchSize).batch b).stage.unread = false
    unfold State.choose
    split
    · have hfresh := h.unused s.nextBatch le_rfl
      refine State.setBatch_closed (by rw [hfresh]; rfl) ?_ hb
      rw [hfresh]
      rintro ⟨⟩
    · exact ⟨rfl, hb⟩
  | @append c d _ hcur =>
    have hbd : b ≠ d := by
      rintro rfl
      rw [(h.current b hcur).2] at hb
      cases hb
    have hsame : (s.setBatch d ((s.batch d).push c)).batch b = s.batch b :=
      State.setBatch_of_ne s _ hbd
    change ((s.setBatch d _).batch b).log = _ ∧ ((s.setBatch d _).batch b).stage.unread = false
    rw [hsame]
    exact ⟨rfl, hb⟩
  | @spawn c d e =>
    change ((s.spawnIfFull maxBatchSize e).batch b).log = _ ∧
      ((s.spawnIfFull maxBatchSize e).batch b).stage.unread = false
    unfold State.spawnIfFull
    split
    · exact State.setBatch_closed rfl (fun hu => hu) hb
    · exact ⟨rfl, hb⟩
  | @soloUpdate c d fate =>
    cases update s.opened fate (fn c).run s.view <;> exact ⟨rfl, hb⟩
  | fire =>
    rw [State.fire_eq]
    exact State.setBatch_closed rfl (fun hu => hu) hb
  | start _ hst | stop hst =>
    refine State.setBatch_closed rfl ?_ hb
    rw [hst]
    rintro ⟨⟩
  | runLock hst =>
    refine State.setBatch_closed (s := s.setMu _) rfl ?_ hb
    change (s.batch _).stage.unread = false → _
    rw [hst]
    rintro ⟨⟩
  | skip => exact State.setBatch_closed rfl (fun hu => hu) hb
  | empty | remove | sentAll | refused => exact State.setBatch_closed rfl (fun _ => rfl) hb
  | runUnlock => exact State.setBatch_closed (s := s.setMu _) rfl (fun _ => rfl) hb
  | sendSolo | send => exact State.setBatch_closed (s := s.send _ _) rfl (fun _ => rfl) hb
  | beginRound => exact State.setBatch_closed (s := s.setRw _) rfl (fun _ => rfl) hb
  | @unset d =>
    unfold State.unset
    split
    · exact State.setBatch_closed (s := s.setCurrent none) rfl (fun _ => rfl) hb
    · exact State.setBatch_closed rfl (fun _ => rfl) hb
  | @attempt d fate =>
    rcases Batching.attempt fn s.opened fate (s.batch d).calls s.view with ⟨w | e | p, i⟩
    · exact State.setBatch_closed (s := s.install _ _) rfl (fun _ => rfl) hb
    · exact State.setBatch_closed rfl (fun _ => rfl) hb
    · exact State.setBatch_closed rfl (fun _ => rfl) hb
  | @endRound d ends failIdx =>
    rcases ends with err | p
    · cases failIdx <;> exact State.setBatch_closed (s := s.setRw _) rfl (fun _ => rfl) hb
    · exact State.setBatch_closed (s := s.setRw _) rfl (fun _ => rfl) hb

lemma Step.closed (h : Shape maxBatchSize s) (hstep : Step maxBatchSize fn s s') {b : BatchId}
    (hb : (s.batch b).stage.unread = false) :
    (s'.batch b).log = (s.batch b).log ∧ (s'.batch b).stage.unread = false := by
  rcases hstep with ⟨-, hact⟩ | ⟨-, henv⟩
  · exact hact.closed h hb
  · cases henv <;> exact ⟨rfl, hb⟩

/-- What has been appended to a batch before its run unsets `db.batch` is all that ever is. -/
lemma Reachable.closed {readOnly : Bool} (h : Reachable maxBatchSize readOnly fn v₀ s)
    {b : BatchId} (hb : (s.batch b).stage.unread = false)
    (hrun : Relation.ReflTransGen (Step maxBatchSize fn) s s') :
    (s'.batch b).log = (s.batch b).log := by
  have hkeep : Inv maxBatchSize fn v₀ s' ∧ (s'.batch b).log = (s.batch b).log ∧
      (s'.batch b).stage.unread = false := by
    refine run_keeps (P := fun t => Inv maxBatchSize fn v₀ t ∧ (t.batch b).log = (s.batch b).log ∧
      (t.batch b).stage.unread = false) ?_ ⟨h.inv, rfl, hb⟩ hrun
    rintro t t' ⟨hinv, hlog, hu⟩ hstep
    obtain ⟨hlog', hu'⟩ := hstep.closed hinv.shape hu
    exact ⟨hinv.step hstep, hlog'.trans hlog, hu'⟩
  exact hkeep.2.1

/-! ### Messages and effects -/

lemma CallOK.sent_le {batch : BatchId → Batch ε} {c : CallId} {p : Pc ε}
    {ch : Option (Option (Err ε))} {n eff : ℕ} (h : CallOK batch c p ch n eff) : n ≤ 1 := by
  cases p with
  | idle | entered | locked | chosen => exact h.2.1.le.trans zero_le_one
  | appended b | leaving b | waiting b =>
    rcases h with ⟨-, -, hn, -⟩ | ⟨-, hn, -⟩
    · exact hn.le.trans zero_le_one
    · exact hn.le
  | solo b | begun b | closing b ends | returned b err | panicked b p => exact h.2.2.1.le

/-- What a call that has returned was told, and what became of its effect. -/
lemma Inv.returned (h : Inv maxBatchSize fn v₀ s) {c : CallId} {b : BatchId}
    {err : Option (Err ε)} (hc : s.pc c = .returned b err) :
    s.sent c = 1 ∧ err ≠ some .trySolo ∧ (err = none ↔ s.effects c = 1) ∧
      (err ≠ none → s.effects c = 0) := by
  have hok := h.call c
  rw [hc] at hok
  obtain ⟨-, -, hsent, heff, hne⟩ := hok
  refine ⟨hsent, hne, ?_, ?_⟩
  · rw [heff]
    cases err <;> simp [worth]
  · rw [heff]
    cases err <;> simp [worth]

lemma Inv.panicked (h : Inv maxBatchSize fn v₀ s) {c : CallId} {b : BatchId} {p : Panic ε}
    (hc : s.pc c = .panicked b p) : s.sent c = 1 ∧ s.effects c = p.worth := by
  have hok := h.call c
  rw [hc] at hok
  exact ⟨hok.2.2.1, hok.2.2.2⟩

/-- The list of a call is that of the batch it was appended to. -/
lemma Inv.appended (h : Inv maxBatchSize fn v₀ s) (c : CallId) :
    ((s.pc c).home = none ∧ ∀ b, c ∉ (s.batch b).log) ∨
      ∃ b, (s.pc c).home = some b ∧ ∀ d, (s.batch d).log.count c = if d = b then 1 else 0 := by
  rcases hhome : (s.pc c).home with _ | b
  · refine .inl ⟨rfl, fun b hb => ?_⟩
    rw [h.shape.home b c, hhome] at hb
    cases hb
  · refine .inr ⟨b, rfl, fun d => ?_⟩
    split
    · next hd =>
      subst hd
      exact List.count_eq_one_of_mem (h.shape.batch d).nodup ((h.shape.home d c).mpr hhome)
    · next hd =>
      refine List.count_eq_zero_of_not_mem fun hmem => hd ?_
      exact Option.some.inj (((h.shape.home d c).mp hmem).symm.trans hhome)

lemma Inv.size (h : Inv maxBatchSize fn v₀ s) (b : BatchId) :
    ((s.batch b).calls.length : ℤ) ≤ max 1 maxBatchSize :=
  le_trans (by exact_mod_cast (h.shape.batch b).calls_le) (h.shape.batch b).size

/-- A round that fails changes nothing: its batch holds `rwlock`, and does not install its
update. -/
lemma Locked.failed (h : Locked s) {b : BatchId} {ends : Ends ε} {failIdx : Option ℕ}
    (hb : (s.batch b).stage = .begun) (hstep : Step maxBatchSize fn s s')
    (hb' : (s'.batch b).stage = .closing ends failIdx) (hworth : ends.worth = 0) :
    s'.view = s.view ∧ s'.history = s.history := by
  have hrw := h.rw_of_run hb rfl
  rcases hstep.writes h with hsame | hw
  · exact hsame
  · cases hw with
    | call hrw' => cases hrw.symm.trans hrw'
    | other hrw' => cases hrw.symm.trans hrw'
    | run hrw' hst hone =>
      cases hrw.symm.trans hrw'
      cases hst.symm.trans hb'
      cases hone.symm.trans hworth

/-- A panic in the run of a batch leaves its calls without a message. -/
lemma Inv.panicking (h : Inv maxBatchSize fn v₀ s) {b : BatchId} {p : Panic ε}
    (hst : (s.batch b).stage = .panicking p) :
    (∀ reason, p ≠ .fn reason) ∧
      ∀ c ∈ (s.batch b).calls, s.sent c = 0 ∧ s.effects c = p.worth := by
  refine ⟨(h.shape.batch b).panic p (by rw [hst]; rfl), fun c hc => ?_⟩
  have hc : c ∈ (s.batch b).owed := by
    rw [Batch.owed, hst]
    exact hc
  obtain ⟨-, hsent, heff, -⟩ := (h.call c).of_mem_owed (h.shape.home_of_owed hc) hc
  rw [hst] at heff
  exact ⟨hsent, heff⟩

/-- For every interleaving of calls, timers, triggers, runs, solo re-runs and other writers, and for
every `MaxBatchSize`: a call is appended to one batch, before its run reads the list; a batch has at
most `max 1 MaxBatchSize` calls and runs at most once; a call is sent at most one message, and one
when `Batch` has ended; `Batch` returns nil exactly when the effect of the call is installed once,
and an error only when it is not installed; only the holder of `rwlock` installs anything; a round
of a batch that fails changes nothing. -/
theorem batch_exactly_once (maxBatchSize : ℤ) (readOnly : Bool) (fn : CallId → TxFn σ ε) (v₀ : σ)
    (s : State σ ε) (h : Reachable maxBatchSize readOnly fn v₀ s) :
    ExactlyOnce maxBatchSize fn v₀ s where
  appended := h.inv.appended
  closed _ _ hb hrun := h.closed hb hrun
  size := h.inv.size
  runs b := (h.inv.shape.batch b).runs
  messages c := (h.inv.call c).sent_le
  installed := h.inv.installed
  returned _ _ _ hc := h.inv.returned hc
  panicked _ _ _ hc := h.inv.panicked hc
  writer _ hstep := hstep.writes h.locked
  failed _ _ _ _ hb hstep hb' hworth := h.locked.failed hb hstep hb' hworth
  crashed hcr := by
    obtain ⟨b, p, hst⟩ := h.locked.crashed hcr
    exact ⟨b, p, hst, h.inv.panicking hst⟩

/-- The call with number zero fails on a view below two, every other call adds two to the view. -/
def addTwo : CallId → TxFn ℕ Unit := fun c =>
  { run := fun v => if c = 0 ∧ v < 2 then ⟨v, .error (.error ()), none⟩ else ⟨v + 2, .nil, none⟩
    not_trySolo := fun v => by
      split <;> rintro ⟨⟩ }

/-- A run in which two calls fill a batch of size two. The round fails at the first of them, the
second one is run by the batch, and then the first one by itself; both return nil. -/
lemma addTwo_run : ∃ s : State ℕ Unit, Reachable 2 false addTwo 0 s ∧
    s.pc 0 = .returned 0 none ∧ s.pc 1 = .returned 0 none ∧ s.view = 4 := by
  have h : Reachable 2 false addTwo 0 (State.init 0 false) := .refl
  have h := h.tail (.inr ⟨rfl, .call⟩)
  have h := h.tail (.inr ⟨rfl, .call⟩)
  have h := h.tail (.inl ⟨rfl, .lock (c := 0) rfl rfl⟩)
  have h := h.tail (.inl ⟨rfl, .choose (c := 0) rfl⟩)
  have h := h.tail (.inl ⟨rfl, .append (c := 0) (b := 0) rfl rfl⟩)
  have h := h.tail (.inl ⟨rfl, .spawn (c := 0) (b := 0) (d := 0) rfl rfl⟩)
  have h := h.tail (.inl ⟨rfl, .unlock (c := 0) (b := 0) rfl⟩)
  have h := h.tail (.inl ⟨rfl, .lock (c := 1) rfl rfl⟩)
  have h := h.tail (.inl ⟨rfl, .choose (c := 1) rfl⟩)
  have h := h.tail (.inl ⟨rfl, .append (c := 1) (b := 0) rfl rfl⟩)
  have h := h.tail (.inl ⟨rfl, .spawn (c := 1) (b := 0) (d := 0) rfl rfl⟩)
  have h := h.tail (.inl ⟨rfl, .unlock (c := 1) (b := 0) rfl⟩)
  have h := h.tail (.inl ⟨rfl, .start (b := 0) (by decide) rfl⟩)
  have h := h.tail (.inl ⟨rfl, .runLock (b := 0) rfl rfl⟩)
  have h := h.tail (.inl ⟨rfl, .stop (b := 0) rfl⟩)
  have h := h.tail (.inl ⟨rfl, .unset (b := 0) rfl⟩)
  have h := h.tail (.inl ⟨rfl, .runUnlock (b := 0) rfl⟩)
  have h := h.tail (.inl ⟨rfl, .beginRound (b := 0) rfl (by decide) rfl rfl⟩)
  have h := h.tail (.inl ⟨rfl, .attempt (b := 0) .stores rfl⟩)
  have h := h.tail (.inl ⟨rfl, .endRound (b := 0) rfl⟩)
  have h := h.tail (.inl ⟨rfl, .remove (b := 0) rfl rfl⟩)
  have h := h.tail (.inl ⟨rfl, .sendSolo (b := 0) rfl rfl⟩)
  have h := h.tail (.inl ⟨rfl, .receiveSolo (c := 0) (b := 0) rfl rfl⟩)
  have h := h.tail (.inl ⟨rfl, .beginRound (b := 0) rfl (by decide) rfl rfl⟩)
  have h := h.tail (.inl ⟨rfl, .attempt (b := 0) .stores rfl⟩)
  have h := h.tail (.inl ⟨rfl, .endRound (b := 0) rfl⟩)
  have h := h.tail (.inl ⟨rfl, .send (b := 0) rfl rfl⟩)
  have h := h.tail (.inl ⟨rfl, .receive (c := 1) (b := 0) rfl rfl (by decide)⟩)
  have h := h.tail (.inl ⟨rfl, .soloLock (c := 0) (b := 0) rfl rfl rfl⟩)
  have h := h.tail (.inl ⟨rfl, .soloUpdate (c := 0) (b := 0) .stores rfl⟩)
  have h := h.tail (.inl ⟨rfl, .soloUnlock (c := 0) (b := 0) rfl⟩)
  exact ⟨_, h, rfl, rfl, rfl⟩

/-- The run of `addTwo_run` keeps the promises. -/
theorem batch_exactly_once_addTwo : ∃ s : State ℕ Unit, Reachable 2 false addTwo 0 s ∧
    s.pc 0 = .returned 0 none ∧ s.view = 4 ∧ ExactlyOnce 2 addTwo 0 s := by
  obtain ⟨s, hs, hpc, -, hview⟩ := addTwo_run
  exact ⟨s, hs, hpc, hview, batch_exactly_once 2 false addTwo 0 s hs⟩

end Vmbolt.Batching
