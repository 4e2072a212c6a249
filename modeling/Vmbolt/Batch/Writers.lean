import Vmbolt.Batch.Preservation

/-!
# Who holds `rwlock` in `DB.Batch`

A call in its solo re-run and the run of a batch hold `rwlock` exactly while they are between its
`Lock` and its `Unlock` (`Locked`), in every reachable state. So only the holder of the lock changes
the view, and it installs its own update (`Step.writes`).
-/

namespace Vmbolt.Batching
variable {σ ε : Type} {maxBatchSize : ℤ} {fn : CallId → TxFn σ ε} {v₀ : σ} {s s' : State σ ε}

/-- The run of the batch holds `rwlock`. -/
def Stage.writes : Stage ε → Bool
  | .begun | .closing .. => true
  | _ => false

/-- The call holds `rwlock`. -/
def Pc.writes : Pc ε → Bool
  | .begun _ | .closing .. => true
  | _ => false

/-- Who holds `rwlock`, and why the process has ended, if it has. -/
structure Locked (s : State σ ε) : Prop where
  call : ∀ c, (s.pc c).writes = true ↔ s.rwlock = some (.call c)
  run : ∀ b, (s.batch b).stage.writes = true ↔ s.rwlock = some (.run b)
  crashed : s.crashed = true → ∃ b p, (s.batch b).stage = .panicking p

namespace Locked

lemma init (readOnly : Bool) : Locked (State.init v₀ readOnly : State σ ε) where
  call _ := by simp [State.init, Pc.writes]
  run _ := by simp [State.init, Batch.unallocated, Stage.writes]
  crashed hc := by cases hc

variable (h : Locked s)
include h

lemma rw_of_call {c : CallId} {p : Pc ε} (hpc : s.pc c = p) (hp : p.writes = true) :
    s.rwlock = some (.call c) :=
  (h.call c).mp (by rw [hpc]; exact hp)

lemma rw_of_run {b : BatchId} {st : Stage ε} (hst : (s.batch b).stage = st)
    (hw : st.writes = true) :
    s.rwlock = some (.run b) :=
  (h.run b).mp (by rw [hst]; exact hw)

/-- A step may move a call, and take or release the lock for it. -/
lemma setPc {c : CallId} {p : Pc ε} {rw : Option Writer}
    (hself : p.writes = true ↔ rw = some (.call c))
    (hcall : ∀ d, d ≠ c → (s.rwlock = some (.call d) ↔ rw = some (.call d)))
    (hrun : ∀ b, s.rwlock = some (.run b) ↔ rw = some (.run b)) :
      Locked ((s.setRw rw).setPc c p) where
  call := (Function.forall_update_iff s.pc fun d q => q.writes = true ↔ rw = some (.call d)).mpr
    ⟨hself, fun d hd => (h.call d).trans (hcall d hd)⟩
  run b := (h.run b).trans (hrun b)
  crashed := h.crashed

lemma setPc_keep {c : CallId} {p q : Pc ε} (hpc : s.pc c = q) (hw : p.writes = q.writes) :
    Locked (s.setPc c p) := by
  refine h.setPc ?_ (fun _ _ => Iff.rfl) (fun _ => Iff.rfl)
  rw [hw, ← hpc]
  exact h.call c

/-- A step may move a batch, and take or release the lock for it. -/
lemma setBatch {b : BatchId} {x : Batch ε} {rw : Option Writer} (hcr : s.crashed = false)
    (hself : x.stage.writes = true ↔ rw = some (.run b))
    (hrun : ∀ d, d ≠ b → (s.rwlock = some (.run d) ↔ rw = some (.run d)))
    (hcall : ∀ c, s.rwlock = some (.call c) ↔ rw = some (.call c)) :
    Locked ((s.setRw rw).setBatch b x) where
  call c := (h.call c).trans (hcall c)
  run := (Function.forall_update_iff s.batch fun d y =>
    y.stage.writes = true ↔ rw = some (.run d)).mpr
      ⟨hself, fun d hd => (h.run d).trans (hrun d hd)⟩
  crashed hc := by
    cases hcr.symm.trans hc

lemma setBatch_keep {b : BatchId} {x : Batch ε} {st : Stage ε} (hcr : s.crashed = false)
    (hst : (s.batch b).stage = st) (hw : x.stage.writes = st.writes) : Locked (s.setBatch b x) := by
  refine h.setBatch hcr ?_ (fun _ _ => Iff.rfl) (fun _ => Iff.rfl)
  rw [hw, ← hst]
  exact h.run b

/-- Which calls and batches write is all that the lock is about. -/
lemma congr (hpc : s'.pc = s.pc) (hb : s'.batch = s.batch) (hrw : s'.rwlock = s.rwlock)
    (hcr : s'.crashed = s.crashed) : Locked s' where
  call c := by
    rw [hpc, hrw]
    exact h.call c
  run b := by
    rw [hb, hrw]
    exact h.run b
  crashed hc := by
    rw [hb]
    exact h.crashed (hcr ▸ hc)

lemma setMu (mu : Option Holder) : Locked (s.setMu mu) := h.congr rfl rfl rfl rfl

lemma receive (c : CallId) : Locked (s.receive c) := h.congr rfl rfl rfl rfl

lemma send (c : CallId) (err : Option (Err ε)) : Locked (s.send c err) :=
  h.congr rfl rfl rfl rfl

lemma choose (hshape : Shape maxBatchSize s) (hcr : s.crashed = false) :
    Locked (s.choose maxBatchSize) := by
  unfold State.choose
  split
  · have hnew : Locked (s.setBatch s.nextBatch .new) :=
      h.setBatch_keep hcr (congrArg Batch.stage (hshape.unused s.nextBatch le_rfl)) rfl
    exact hnew.congr rfl rfl rfl rfl
  · exact h

lemma spawnIfFull (hcr : s.crashed = false) (b : BatchId) :
    Locked (s.spawnIfFull maxBatchSize b) := by
  unfold State.spawnIfFull
  split
  · exact h.setBatch_keep hcr rfl rfl
  · exact h

lemma settle (e : Entry σ) (u : Updated σ ε) : Locked (s.settle e u) := by
  cases u <;> exact h.congr rfl rfl rfl rfl

/-- Who releases the lock for a call leaves it free. -/
lemma release {c : CallId} {p q : Pc ε} (hpc : s.pc c = q) (hq : q.writes = true)
    (hp : p.writes = false) : Locked ((s.setRw none).setPc c p) := by
  have hrw := h.rw_of_call hpc hq
  refine h.setPc (by rw [hp]; simp) ?_ ?_
  · intro d hd
    rw [hrw]
    simp [Ne.symm hd]
  · intro b
    rw [hrw]
    simp

/-- Who releases the lock for a batch leaves it free. -/
lemma releaseRun {b : BatchId} {st st' : Stage ε} (hcr : s.crashed = false)
    (hst : (s.batch b).stage = st) (hw : st.writes = true) (hw' : st'.writes = false) :
    Locked ((s.setRw none).setStage b st') := by
  have hrw := h.rw_of_run hst hw
  refine h.setBatch hcr (by simp [hw']) ?_ ?_
  · intro d hd
    rw [hrw]
    simp [Ne.symm hd]
  · intro c
    rw [hrw]
    simp

lemma act (hshape : Shape maxBatchSize s) (hcr : s.crashed = false)
    (hact : Act maxBatchSize fn s s') : Locked s' := by
  cases hact with
  | lock hpc _ => exact (h.setMu _).setPc_keep hpc (by rfl)
  | @choose c hpc =>
    have hpcs : (s.choose maxBatchSize).pc = s.pc := by
      unfold State.choose
      split <;> rfl
    exact (h.choose hshape hcr).setPc_keep ((congrFun hpcs c).trans hpc) (by rfl)
  | @append c b hpc _ =>
    have hpush : Locked (s.setBatch b ((s.batch b).push c)) := h.setBatch_keep hcr rfl rfl
    exact hpush.setPc_keep hpc (by rfl)
  | @spawn c b d hpc _ =>
    have hpcs : (s.spawnIfFull maxBatchSize d).pc = s.pc := by
      unfold State.spawnIfFull
      split <;> rfl
    exact (h.spawnIfFull hcr d).setPc_keep ((congrFun hpcs c).trans hpc) (by rfl)
  | unlock hpc => exact (h.setMu _).setPc_keep hpc (by rfl)
  | receive hpc _ _ => exact (h.receive _).setPc_keep hpc (by rfl)
  | receiveSolo hpc _ =>
    exact (h.receive _).setPc_keep hpc (by rfl)
  | soloRefused hpc _ => exact h.setPc_keep hpc rfl
  | soloLock hpc _ hrw =>
    refine h.setPc (iff_of_true rfl rfl) ?_ ?_
    · intro d hd
      rw [hrw]
      simp [Ne.symm hd]
    · intro b
      rw [hrw]
      simp
  | @soloUpdate c b fate hpc =>
    have hpcs : ∀ u, (s.settle (.calls [c]) u).pc = s.pc := by
      intro u
      cases u <;> rfl
    exact (h.settle _ _).setPc_keep ((congrFun (hpcs _) c).trans hpc) (by rfl)
  | @soloUnlock c b ends hpc =>
    cases ends <;> exact h.release hpc rfl rfl
  | fire _ =>
    rw [State.fire_eq]
    exact h.setBatch_keep hcr rfl rfl
  | start _ hst => exact h.setBatch_keep hcr hst rfl
  | skip _ _ => exact h.setBatch_keep hcr rfl rfl
  | runLock hst _ =>
    exact (h.setMu _).setBatch_keep hcr hst (by rfl)
  | stop hst => exact h.setBatch_keep hcr hst rfl
  | @unset b hst =>
    unfold State.unset
    split
    · have hcur : Locked (s.setCurrent none) := h.congr rfl rfl rfl rfl
      exact hcur.setBatch_keep hcr hst (by rfl)
    · exact h.setBatch_keep hcr hst rfl
  | runUnlock hst =>
    exact (h.setMu _).setBatch_keep hcr hst (by rfl)
  | empty hst _ => exact h.setBatch_keep hcr hst rfl
  | refused hst _ _ => exact h.setBatch_keep hcr hst rfl
  | beginRound hst _ _ hrw =>
    refine h.setBatch hcr (iff_of_true rfl rfl) ?_ ?_
    · intro d hd
      rw [hrw]
      simp [Ne.symm hd]
    · intro c
      rw [hrw]
      simp
  | @attempt b fate hst =>
    have hkeep : ∀ u, (s.settle (.calls (s.batch b).calls) u).batch = s.batch ∧
        (s.settle (.calls (s.batch b).calls) u).crashed = s.crashed := by
      intro u
      cases u <;> exact ⟨rfl, rfl⟩
    exact (h.settle _ _).setBatch_keep ((hkeep _).2.trans hcr)
      ((congrArg Batch.stage (congrFun (hkeep _).1 b)).trans hst) (by rfl)
  | @endRound b ends failIdx hst =>
    rcases ends with err | p
    · cases failIdx <;> exact h.releaseRun hcr hst rfl rfl
    · exact h.releaseRun hcr hst rfl rfl
  | @crash b p hst => exact ⟨h.call, h.run, fun _ => ⟨b, p, hst⟩⟩
  | remove hst _ => exact h.setBatch_keep hcr hst rfl
  | sendSolo hst _ =>
    exact (h.send _ _).setBatch_keep hcr hst (by rfl)
  | send hst _ =>
    exact (h.send _ _).setBatch_keep hcr hst (by rfl)
  | sentAll hst => exact h.setBatch_keep hcr hst rfl

lemma env (hshape : Shape maxBatchSize s) (henv : Env s s') : Locked s' := by
  cases henv with
  | call =>
    have hcall : Locked (s.setPc s.nextCall .entered) :=
      h.setPc_keep (hshape.idle s.nextCall le_rfl) rfl
    exact hcall.congr rfl rfl rfl rfl
  | lock hrw =>
    refine ⟨fun c => (h.call c).trans ?_, fun b => (h.run b).trans ?_, h.crashed⟩
    · rw [hrw]
      simp [State.setRw]
    · rw [hrw]
      simp [State.setRw]
  | install f _ => exact h.congr rfl rfl rfl rfl
  | close _ => exact h.congr rfl rfl rfl rfl
  | unlock hrw =>
    refine ⟨fun c => (h.call c).trans ?_, fun b => (h.run b).trans ?_, h.crashed⟩
    · rw [hrw]
      simp [State.setRw]
    · rw [hrw]
      simp [State.setRw]

end Locked

lemma Reachable.locked {readOnly : Bool} (h : Reachable maxBatchSize readOnly fn v₀ s) :
    Locked s := by
  induction h with
  | refl => exact Locked.init readOnly
  | tail hrun hstep ih =>
    have hshape := (Reachable.inv hrun).shape
    rcases hstep with ⟨hcr, hact⟩ | ⟨-, henv⟩
    · exact ih.act hshape hcr hact
    · exact ih.env hshape henv

/-- The step installs an update: that of the holder of `rwlock`. For a call and for a batch it is
the step that ends their `Update`, with nil or with the panic of a commit handler. -/
inductive Writes (s s' : State σ ε) : Prop
  | call {c b ends} : s.rwlock = some (.call c) → s'.pc c = .closing b ends → ends.worth = 1 →
      s'.history = s.history ++ [.calls [c]] → Writes s s'
  | run {b ends failIdx} : s.rwlock = some (.run b) →
      (s'.batch b).stage = .closing ends failIdx → ends.worth = 1 →
      s'.history = s.history ++ [.calls (s.batch b).calls] → Writes s s'
  | other {f} : s.rwlock = some .other → s'.view = f s.view →
      s'.history = s.history ++ [.other f] → Writes s s'

/-- A step changes neither the view nor the history, or it is the holder of `rwlock` that installs
its update. -/
lemma Step.writes (h : Locked s) (hstep : Step maxBatchSize fn s s') :
    (s'.view = s.view ∧ s'.history = s.history) ∨ Writes s s' := by
  rcases hstep with ⟨-, hact⟩ | ⟨-, henv⟩
  · cases hact with
    | lock | unlock | receive | receiveSolo | append | start | skip | stop => exact .inl ⟨rfl, rfl⟩
    | fire | empty | remove | sentAll | runLock | runUnlock => exact .inl ⟨rfl, rfl⟩
    | sendSolo | send | soloRefused | soloLock | soloUnlock => exact .inl ⟨rfl, rfl⟩
    | refused | beginRound | crash => exact .inl ⟨rfl, rfl⟩
    | choose =>
      left
      change (s.choose maxBatchSize).view = _ ∧ (s.choose maxBatchSize).history = _
      unfold State.choose
      split <;> exact ⟨rfl, rfl⟩
    | @spawn c d e =>
      left
      change (s.spawnIfFull maxBatchSize e).view = _ ∧ (s.spawnIfFull maxBatchSize e).history = _
      unfold State.spawnIfFull
      split <;> exact ⟨rfl, rfl⟩
    | @unset d =>
      left
      change (s.unset d).view = _ ∧ (s.unset d).history = _
      unfold State.unset
      split <;> exact ⟨rfl, rfl⟩
    | @endRound b ends failIdx =>
      left
      rcases ends with err | p
      · cases failIdx <;> exact ⟨rfl, rfl⟩
      · exact ⟨rfl, rfl⟩
    | @soloUpdate c b fate hpc =>
      rcases update_cases s.opened fate (fn c) s.view with ⟨hs, hu, -⟩ | ⟨e, hu, -⟩ | ⟨p, hu, -⟩
      · rw [hu]
        exact .inr (.call (h.rw_of_call hpc rfl) (Function.update_self ..)
          (worth_of_installed _ hs) rfl)
      · rw [hu]
        exact .inl ⟨rfl, rfl⟩
      · rw [hu]
        exact .inl ⟨rfl, rfl⟩
    | @attempt b fate hst =>
      rcases attempt_cases fn s.opened fate (s.batch b).calls s.view with
        ⟨w, hs, hatt, -⟩ | ⟨e, hatt⟩ | ⟨reason, hatt⟩ | ⟨e, i, hatt, -⟩
      · rw [hatt]
        exact .inr (.run (h.rw_of_run hst rfl) (congrArg Batch.stage (State.setBatch_self ..))
          (worth_of_installed w hs) rfl)
      · rw [hatt]
        exact .inl ⟨rfl, rfl⟩
      · rw [hatt]
        exact .inl ⟨rfl, rfl⟩
      · rw [hatt]
        exact .inl ⟨rfl, rfl⟩
  · cases henv with
    | call | lock | close | unlock => exact .inl ⟨rfl, rfl⟩
    | install f hrw => exact .inr (.other hrw rfl rfl)

end Vmbolt.Batching
