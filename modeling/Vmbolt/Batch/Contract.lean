import Vmbolt.Batch.Progress

/-!
# What a caller of `DB.Batch` can rely on

The contract of `Batch` for functions without commit handlers that panic. Then `Batch` has installed
the effect of the call if and only if it returns nil: no panic comes out of an `Update` that has
stored (`Quiet`), and the process ends only when `Commit` itself panics in the run of a batch.
-/

namespace Vmbolt.Batching
variable {σ ε : Type} {maxBatchSize : ℤ} {fn : CallId → TxFn σ ε} {v₀ : σ} {s s' : State σ ε}

/-- The panic that is leaving the solo re-run, or has left it. -/
def Pc.panic : Pc ε → Option (Panic ε)
  | .closing _ (.panicked p) => some p
  | .panicked _ p => some p
  | _ => none

/-- No panic comes from a commit handler. -/
structure Quiet (s : State σ ε) : Prop where
  call : ∀ c p, (s.pc c).panic = some p → p.worth = 0
  run : ∀ b p, (s.batch b).stage.panic = some p → p.worth = 0

namespace Quiet

lemma setPc (h : Quiet s) {c : CallId} {p : Pc ε} (hp : ∀ r, p.panic = some r → r.worth = 0) :
    Quiet (s.setPc c p) where
  call := (Function.forall_update_iff s.pc fun _ q => ∀ r, q.panic = some r → r.worth = 0).mpr
    ⟨hp, fun d _ => h.call d⟩
  run := h.run

lemma setBatch (h : Quiet s) {b : BatchId} {x : Batch ε}
    (hx : ∀ r, x.stage.panic = some r → r.worth = 0) : Quiet (s.setBatch b x) where
  call := h.call
  run := (Function.forall_update_iff s.batch fun _ y =>
    ∀ r, y.stage.panic = some r → r.worth = 0).mpr ⟨hx, fun d _ => h.run d⟩

lemma congr (h : Quiet s) (hpc : s'.pc = s.pc) (hb : s'.batch = s.batch) : Quiet s' where
  call := by
    rw [hpc]
    exact h.call
  run := by
    rw [hb]
    exact h.run

/-- A panic that leaves an `Update` without such handlers comes before the store. -/
lemma ends (f : σ → Ran σ ε) (hf : ∀ v, (f v).handlers = none) (opened : Bool) (fate : Fate ε)
    (v : σ) {p : Panic ε} (hp : (update opened fate f v).ends = .panicked p) : p.worth = 0 := by
  cases opened with
  | false => cases hp
  | true =>
    cases hr : (f v).result with
    | nil =>
      cases fate with
      | stores =>
        simp only [update, hr, hf, if_true] at hp
        cases hp
      | fails e =>
        simp only [update, hr, if_true] at hp
        cases hp
      | panics reason =>
        simp only [update, hr, if_true] at hp
        cases hp
        rfl
    | error e =>
      simp only [update, hr, if_true] at hp
      cases hp
    | panic reason =>
      simp only [update, hr, if_true] at hp
      cases hp
      rfl

/-- A batch of functions without such handlers has none. -/
lemma runCalls (hfn : ∀ c v, ((fn c).run v).handlers = none) (i : ℕ) (cs : List CallId) (v : σ) :
    (runCalls fn i cs v).1.handlers = none := by
  have hsafe : ∀ c w, (safelyCall (fn c) w).handlers = none := by
    intro c w
    unfold safelyCall
    split
    · exact hfn c w
    · exact hfn c w
  induction cs generalizing i v with
  | nil => rfl
  | cons c cs ih =>
    unfold Batching.runCalls
    split
    · change ((safelyCall (fn c) v).handlers <|> _) = none
      rw [hsafe c v]
      exact ih (i + 1) _
    · exact hsafe c v

lemma act (hfn : ∀ c v, ((fn c).run v).handlers = none) (h : Quiet s)
    (hact : Act maxBatchSize fn s s') : Quiet s' := by
  cases hact with
  | lock | unlock => exact Quiet.setPc (s := s.setMu _) (h.congr (by rfl) (by rfl)) (by rintro r ⟨⟩)
  | receive | receiveSolo =>
    exact Quiet.setPc (s := s.receive _) (h.congr (by rfl) (by rfl)) (by rintro r ⟨⟩)
  | choose =>
    unfold State.choose
    split
    · have hnew : Quiet (s.setBatch s.nextBatch .new) := h.setBatch (by rintro r ⟨⟩)
      have hmade : Quiet { (s.setBatch s.nextBatch .new).setCurrent (some s.nextBatch) with
          nextBatch := s.nextBatch + 1 } := hnew.congr rfl rfl
      exact hmade.setPc (by rintro r ⟨⟩)
    · exact h.setPc (by rintro r ⟨⟩)
  | @append c b =>
    have hpush : Quiet (s.setBatch b ((s.batch b).push c)) := h.setBatch (h.run b)
    exact hpush.setPc (by rintro r ⟨⟩)
  | @spawn c b d =>
    unfold State.spawnIfFull
    split
    · have hspawn : Quiet (s.spawn d) := h.setBatch (h.run d)
      exact hspawn.setPc (by rintro r ⟨⟩)
    · exact h.setPc (by rintro r ⟨⟩)
  | soloRefused => exact h.setPc (by rintro r ⟨⟩)
  | soloLock => exact Quiet.setPc (s := s.setRw _) (h.congr (by rfl) (by rfl)) (by rintro r ⟨⟩)
  | @soloUpdate c b fate =>
    have hset : ∀ u, Quiet (s.settle (.calls [c]) u) := by
      intro u
      cases u <;> exact h.congr rfl rfl
    refine (hset _).setPc fun r hr => ?_
    rcases hends : (update s.opened fate (fn c).run s.view).ends with err | p
    · rw [hends] at hr
      cases hr
    · rw [hends] at hr
      cases hr
      exact ends _ (hfn c) _ _ _ hends
  | @soloUnlock c b ends hpc =>
    refine Quiet.setPc (s := s.setRw _) (h.congr (by rfl) (by rfl)) fun r hr => h.call c r ?_
    rw [hpc]
    cases ends <;> exact hr
  | @fire b =>
    rw [State.fire_eq]
    exact h.setBatch (h.run b)
  | @skip b => exact h.setBatch (h.run b)
  | start | stop | empty | refused | remove | sentAll => exact h.setBatch (by rintro r ⟨⟩)
  | runLock | runUnlock =>
    exact Quiet.setBatch (s := s.setMu _) (h.congr (by rfl) (by rfl)) (by rintro r ⟨⟩)
  | sendSolo | send =>
    exact Quiet.setBatch (s := s.send _ _) (h.congr (by rfl) (by rfl)) (by rintro r ⟨⟩)
  | beginRound => exact Quiet.setBatch (s := s.setRw _) (h.congr (by rfl) (by rfl)) (by rintro r ⟨⟩)
  | unset =>
    unfold State.unset
    split
    · exact Quiet.setBatch (s := s.setCurrent none) (h.congr (by rfl) (by rfl)) (by rintro r ⟨⟩)
    · exact h.setBatch (by rintro r ⟨⟩)
  | @attempt b fate =>
    have hset : ∀ u, Quiet (s.settle (.calls (s.batch b).calls) u) := by
      intro u
      cases u <;> exact h.congr rfl rfl
    refine (hset _).setBatch fun r hr => ?_
    rcases hends : (Batching.attempt fn s.opened fate (s.batch b).calls s.view).1.ends with err | p
    · simp only [hends] at hr
      cases hr
    · simp only [hends] at hr
      cases hr
      exact ends _ (runCalls hfn 0 (s.batch b).calls) _ _ _ hends
  | @endRound b ends failIdx hst =>
    have hfree : Quiet (s.setRw none) := h.congr rfl rfl
    rcases ends with err | p
    · cases failIdx <;> exact hfree.setBatch (by rintro r ⟨⟩)
    · refine hfree.setBatch fun r hr => h.run b r ?_
      rw [hst]
      exact hr
  | crash => exact h.congr rfl rfl

lemma env (h : Quiet s) (henv : Env s s') : Quiet s' := by
  cases henv with
  | call =>
    have hcall : Quiet (s.setPc s.nextCall .entered) := h.setPc (by rintro r ⟨⟩)
    exact hcall.congr rfl rfl
  | lock | install | close | unlock => exact h.congr rfl rfl

end Quiet

lemma Reachable.quiet {readOnly : Bool} (hfn : ∀ c v, ((fn c).run v).handlers = none)
    (h : Reachable maxBatchSize readOnly fn v₀ s) : Quiet s := by
  refine Systems.run_keeps (P := Quiet) ?_ ⟨by rintro c p ⟨⟩, by rintro b p ⟨⟩⟩ h
  rintro t t' hq (⟨-, hact⟩ | ⟨-, henv⟩)
  · exact hq.act hfn hact
  · exact hq.env henv

/-- What a caller of `Batch` can rely on in a state of the machine. -/
structure Contract (maxBatchSize : ℤ) (fn : CallId → TxFn σ ε) (s : State σ ε) : Prop where
  /-- A call that has passed the append is in the list of exactly one batch, once. -/
  appended : ∀ c, ((s.pc c).home = none ∧ ∀ b, c ∉ (s.batch b).log) ∨
    ∃ b, (s.pc c).home = some b ∧ ∀ d, (s.batch d).log.count c = if d = b then 1 else 0
  /-- No call is appended to a batch once its run has got past the statement that unsets
  `db.batch`, and it reads the list after that. -/
  closed : ∀ b s', (s.batch b).stage.unread = false →
    Relation.ReflTransGen (Step maxBatchSize fn) s s' → (s'.batch b).log = (s.batch b).log
  size : ∀ b, ((s.batch b).calls.length : ℤ) ≤ max 1 maxBatchSize
  runs : ∀ b, (s.batch b).runs ≤ 1
  messages : ∀ c, s.sent c ≤ 1
  /-- A call that was made gets its message: unless `Commit` panics in the run of a batch, and
  unless another writer keeps the lock, the goroutines of `Batch` come to rest, and then it has got
  it. -/
  answered : Acc (fun t' t => Acts maxBatchSize fn t t') s ∧
    ((∀ s', ¬ Acts maxBatchSize fn s s') →
      (∀ b reason, (s.batch b).stage ≠ .panicking (.commit reason)) → s.rwlock ≠ some .other →
        ∀ c, s.pc c = .idle ∨ s.Completed c)
  /-- `Batch` returns nil if and only if the effect of the call is installed exactly once. -/
  returned : ∀ c b err, s.pc c = .returned b err →
    s.sent c = 1 ∧ (err = none ↔ s.effects c = 1) ∧ (err ≠ none → s.effects c = 0)
  panicked : ∀ c b p, s.pc c = .panicked b p → s.sent c = 1 ∧ s.effects c = 0
  /-- A failed attempt of a batch leaves no effect of any of its calls. -/
  failed : ∀ b s' ends failIdx, (s.batch b).stage = .begun → Step maxBatchSize fn s s' →
    (s'.batch b).stage = .closing ends failIdx → ends ≠ .returned none →
      s'.view = s.view ∧ s'.history = s.history ∧ ∀ c ∈ (s'.batch b).calls, s'.effects c = 0

lemma Ends.worth_eq_zero {ends : Ends ε} (h : ends ≠ .returned none)
    (hp : ∀ p, ends = .panicked p → p.worth = 0) : ends.worth = 0 := by
  rcases ends with (_ | e) | p
  · exact absurd rfl h
  · rfl
  · exact hp p rfl

/-- `Batch` is exactly-once for functions without panicking commit handlers: for every number of
calls, every interleaving of appends, timers, triggers, runs, solo re-runs and other writers, and
every `MaxBatchSize`. -/
theorem batch_keeps_contract (maxBatchSize : ℤ) (readOnly : Bool) (fn : CallId → TxFn σ ε) (v₀ : σ)
    (s : State σ ε) (hfn : ∀ c v, ((fn c).run v).handlers = none)
    (h : Reachable maxBatchSize readOnly fn v₀ s) : Contract maxBatchSize fn s where
  appended := h.inv.appended
  closed _ _ hb hrun := h.closed hb hrun
  size := h.inv.size
  runs b := (h.inv.shape.batch b).runs
  messages c := (h.inv.call c).sent_le
  answered := by
    refine ⟨h.acc, fun hstuck hcommit hother c => ?_⟩
    rcases h.at_rest hstuck with ⟨b, p, -, hst⟩ | ⟨-, hall⟩
    · -- the panic of a run comes from its calls, from `Commit` or from a handler
      have hworth := (h.quiet hfn).run b p (by rw [hst]; rfl)
      have hpanic := (h.inv.panicking hst).1
      cases p with
      | fn reason => exact absurd rfl (hpanic reason)
      | commit reason => exact absurd hst (hcommit b reason)
      | handler reason => cases hworth
    · rcases hall c with hidle | hdone | hwaits
      · exact .inl hidle
      · exact .inr hdone
      · exact absurd hwaits.1 hother
  returned c b err hc := by
    obtain ⟨hsent, -, hnil, herr⟩ := h.inv.returned hc
    exact ⟨hsent, hnil, herr⟩
  panicked c b p hc := by
    obtain ⟨hsent, heff⟩ := h.inv.panicked hc
    exact ⟨hsent, heff.trans ((h.quiet hfn).call c p (by rw [hc]; rfl))⟩
  failed b s' ends failIdx hb hstep hb' hends := by
    have h' : Reachable maxBatchSize readOnly fn v₀ s' := h.tail hstep
    have hworth : ends.worth = 0 := Ends.worth_eq_zero hends fun p hp =>
      (h'.quiet hfn).run b p (by rw [hb', hp]; rfl)
    obtain ⟨hview, hhist⟩ := h.locked.failed hb hstep hb' hworth
    refine ⟨hview, hhist, fun c hc => ?_⟩
    have hc : c ∈ (s'.batch b).owed := by
      rw [Batch.owed, hb']
      exact hc
    obtain ⟨-, -, heff, -⟩ := (h'.inv.call c).of_mem_owed (h'.inv.shape.home_of_owed hc) hc
    rw [hb'] at heff
    exact heff.trans hworth

/-- The run of `addTwo_run` keeps the contract. -/
theorem batch_keeps_contract_addTwo : ∃ s : State ℕ Unit, Reachable 2 false addTwo 0 s ∧
    s.pc 0 = .returned 0 none ∧ s.view = 4 ∧ Contract 2 addTwo s := by
  obtain ⟨s, hs, hpc, -, hview⟩ := addTwo_run
  refine ⟨s, hs, hpc, hview, batch_keeps_contract 2 false addTwo 0 s (fun c v => ?_) hs⟩
  simp only [addTwo]
  split <;> rfl

end Vmbolt.Batching
