import Mathlib.Algebra.Order.BigOperators.Group.Finset
import Vmbolt.Batch.ExactlyOnce

/-!
# The calls of `DB.Batch` complete

Progress of the machine. The goroutines of `Batch` cannot go on for ever by themselves, and when
none of them can go on, the process has ended by a panic, or every call that was made has got its
message and has ended, or it waits for `rwlock`, which another writer holds. The last case is no
mere delay when this writer is the caller itself: `Batch` called inside of `Update` never returns.

Progress rests on `State.remaining`, the number of actions that are still to come at most.
-/

namespace Vmbolt.Batching
open Systems

variable {σ ε : Type} {maxBatchSize : ℤ} {fn : CallId → TxFn σ ε} {v₀ : σ} {s s' : State σ ε}

/-- The actions of its own that a call has before it, and those it can give rise to in a batch. -/
def Pc.rank : Pc ε → ℕ
  | .entered => 26
  | .locked => 25
  | .chosen => 13
  | .appended _ => 7
  | .leaving _ => 5
  | .waiting _ => 4
  | .solo _ => 3
  | .begun _ => 2
  | .closing .. => 1
  | .idle | .returned .. | .panicked .. => 0

/-- The actions that the run of a batch with `n` calls has before it, at most. -/
def Stage.rank (n : ℕ) : Stage ε → ℕ
  | .unstarted => 5 * n + 9
  | .entered => 5 * n + 8
  | .locked => 5 * n + 7
  | .stopped => 5 * n + 6
  | .cleared => 5 * n + 5
  | .retry => 5 * n + 4
  | .begun => 5 * n + 3
  | .closing .. => 5 * n + 2
  | .failed _ => 5 * n + 1
  | .removed _ => 5 * n + 5
  | .sending rest _ => rest.length + 1
  | .done | .panicking _ => 0

/-- The actions that a batch, its timer and its triggers have before them, at most. -/
def Batch.rank (x : Batch ε) : ℕ :=
  x.stage.rank x.calls.length + (if x.timer = true then 2 else 0) + x.triggers

/-- The actions that are still to come, at most, if there are no new calls. The last of them may be
that the process ends. -/
def State.remaining (s : State σ ε) : ℕ :=
  ∑ c ∈ Finset.range s.nextCall, (s.pc c).rank +
    ∑ b ∈ Finset.range s.nextBatch, (s.batch b).rank + (!s.crashed).toNat

@[simp] lemma State.remaining_setMu (mu : Option Holder) :
    (s.setMu mu).remaining = s.remaining := rfl

@[simp] lemma State.remaining_setRw (rw : Option Writer) :
    (s.setRw rw).remaining = s.remaining := rfl

@[simp] lemma State.remaining_receive (c : CallId) : (s.receive c).remaining = s.remaining := rfl

@[simp] lemma State.remaining_install (v : σ) (e : Entry σ) :
    (s.install v e).remaining = s.remaining := rfl

@[simp] lemma State.remaining_settle (e : Entry σ) (u : Updated σ ε) :
    (s.settle e u).remaining = s.remaining := by
  cases u <;> rfl

/-- Moving a call to a place of lower rank leaves less to do. -/
lemma State.setPc_remaining_lt {c : CallId} {p q : Pc ε} {n : ℕ} (hpc : s.pc c = q)
    (hc : c < s.nextCall) (hlt : s.remaining + p.rank < n + q.rank) :
    (s.setPc c p).remaining < n := by
  have hsum := sum_range_update s.pc Pc.rank hc p
  rw [hpc] at hsum
  simp only [State.remaining, State.setPc] at hsum hlt ⊢
  omega

/-- Replacing a batch by one of lower rank leaves less to do. -/
lemma State.setBatch_remaining_lt {b : BatchId} {x : Batch ε} {n : ℕ} (hb : b < s.nextBatch)
    (hlt : s.remaining + x.rank < n + (s.batch b).rank) : (s.setBatch b x).remaining < n := by
  have hsum := sum_range_update s.batch Batch.rank hb x
  simp only [State.remaining, State.setBatch] at hsum hlt ⊢
  omega

/-- The run of a batch goes on to a stage of lower rank. -/
lemma State.setStage_remaining_lt {b : BatchId} {st : Stage ε} {n : ℕ} (hb : b < s.nextBatch)
    (hle : s.remaining ≤ n)
    (hlt : st.rank (s.batch b).calls.length < (s.batch b).stage.rank (s.batch b).calls.length) :
    (s.setStage b st).remaining < n := by
  refine State.setBatch_remaining_lt hb ?_
  simp only [Batch.rank]
  omega

/-- Every action leaves less to do. -/
lemma Acts.remaining_lt (h : Inv maxBatchSize fn v₀ s) (hacts : Acts maxBatchSize fn s s') :
    s'.remaining < s.remaining := by
  obtain ⟨hcr, hact⟩ := hacts
  have hcall : ∀ {c p}, s.pc c = p → p ≠ .idle → c < s.nextCall := by
    intro c p hpc hp
    by_contra hlt
    exact hp (hpc.symm.trans (h.shape.idle c (not_lt.mp hlt)))
  have hbatch : ∀ {b st}, (s.batch b).stage = st → st ≠ .unstarted → b < s.nextBatch := by
    intro b st hst hne
    refine h.shape.lt_nextBatch fun he => hne ?_
    rw [← hst, he]
    rfl
  have htrig : ∀ {b}, 0 < (s.batch b).triggers → b < s.nextBatch := by
    intro b hb
    refine h.shape.lt_nextBatch fun he => ?_
    rw [he] at hb
    cases hb
  cases hact with
  | lock hpc _ =>
    exact State.setPc_remaining_lt (s := s.setMu _) hpc (hcall hpc (by rintro ⟨⟩))
      (by simp [Pc.rank])
  | choose hpc =>
    have hc := hcall hpc (by rintro ⟨⟩)
    unfold State.choose
    split
    · refine State.setPc_remaining_lt (q := .locked) hpc hc ?_
      have hnew : ({ (s.setBatch s.nextBatch .new).setCurrent (some s.nextBatch) with
          nextBatch := s.nextBatch + 1 } : State σ ε).remaining = s.remaining + 11 := by
        simp only [State.remaining, State.setBatch, State.setCurrent]
        rw [sum_range_succ_update s.batch Batch.rank]
        simp [Batch.rank, Batch.new, Stage.rank]
        omega
      rw [hnew]
      simp [Pc.rank]
    · exact State.setPc_remaining_lt hpc hc (by simp [Pc.rank])
  | @append c b hpc hcur =>
    obtain ⟨hb, hunread⟩ := h.shape.current b hcur
    refine State.setPc_remaining_lt (s := s.setBatch b _) hpc (hcall hpc (by rintro ⟨⟩)) ?_
    have hpush : (s.setBatch b ((s.batch b).push c)).remaining < s.remaining + 6 := by
      refine State.setBatch_remaining_lt hb ?_
      rcases hst : (s.batch b).stage <;> rw [hst] at hunread <;>
        simp [Stage.unread] at hunread <;>
        simp [Batch.rank, Batch.push, hst, Stage.rank] <;> omega
    simp only [Pc.rank]
    omega
  | @spawn c b d hpc hcur =>
    have hc := hcall hpc (by rintro ⟨⟩)
    have hspawn : (s.spawn d).remaining < s.remaining + 2 := by
      refine State.setBatch_remaining_lt (h.shape.current d hcur).1 ?_
      simp only [Batch.rank]
      omega
    unfold State.spawnIfFull
    split
    · refine State.setPc_remaining_lt (s := s.spawn d) hpc hc ?_
      simp only [Pc.rank]
      omega
    · exact State.setPc_remaining_lt hpc hc (by simp [Pc.rank])
  | unlock hpc =>
    exact State.setPc_remaining_lt (s := s.setMu _) hpc (hcall hpc (by rintro ⟨⟩))
      (by simp [Pc.rank])
  | @receive c b err hpc _ _ =>
    exact State.setPc_remaining_lt (s := s.receive c) hpc (hcall hpc (by rintro ⟨⟩))
      (by simp [Pc.rank])
  | @receiveSolo c b hpc _ =>
    exact State.setPc_remaining_lt (s := s.receive c) hpc (hcall hpc (by rintro ⟨⟩))
      (by simp [Pc.rank])
  | soloRefused hpc _ =>
    exact State.setPc_remaining_lt hpc (hcall hpc (by rintro ⟨⟩)) (by simp [Pc.rank])
  | soloLock hpc _ _ =>
    exact State.setPc_remaining_lt (s := s.setRw _) hpc (hcall hpc (by rintro ⟨⟩))
      (by simp [Pc.rank])
  | @soloUpdate c b fate hpc =>
    have hc := hcall hpc (by rintro ⟨⟩)
    rcases update s.opened fate (fn c).run s.view with w | e | reason
    · exact State.setPc_remaining_lt (s := s.install w _) hpc hc (by simp [Pc.rank])
    · exact State.setPc_remaining_lt hpc hc (by simp [Pc.rank])
    · exact State.setPc_remaining_lt hpc hc (by simp [Pc.rank])
  | @soloUnlock c b ends hpc =>
    have hc := hcall hpc (by rintro ⟨⟩)
    cases ends <;>
      exact State.setPc_remaining_lt (s := s.setRw _) hpc hc (by simp [Pc.rank, Ends.pc])
  | @fire b ht =>
    have hb : b < s.nextBatch := by
      refine h.shape.lt_nextBatch fun he => ?_
      rw [he] at ht
      cases ht
    rw [State.fire_eq]
    refine State.setBatch_remaining_lt hb ?_
    simp only [Batch.rank, ht, if_true, Bool.false_eq_true, if_false]
    omega
  | @start b ht hst =>
    refine State.setBatch_remaining_lt (htrig ht) ?_
    simp only [Batch.rank, hst, Stage.rank]
    omega
  | @skip b ht hst =>
    refine State.setBatch_remaining_lt (htrig ht) ?_
    simp only [Batch.rank]
    omega
  | @runLock b hst _ =>
    refine State.setStage_remaining_lt (s := s.setMu _) (hbatch hst (by rintro ⟨⟩)) le_rfl ?_
    change Stage.rank _ _ < (s.batch b).stage.rank _
    rw [hst]
    exact Nat.lt_succ_self _
  | @stop b hst =>
    refine State.setBatch_remaining_lt (hbatch hst (by rintro ⟨⟩)) ?_
    simp only [Batch.rank, hst, Stage.rank, Bool.false_eq_true, if_false]
    omega
  | @unset b hst =>
    have hb := hbatch hst (by rintro ⟨⟩)
    have hlt : (Stage.cleared : Stage ε).rank (s.batch b).calls.length <
        (s.batch b).stage.rank (s.batch b).calls.length := by
      rw [hst]
      exact Nat.lt_succ_self _
    unfold State.unset
    split
    · exact State.setStage_remaining_lt (s := s.setCurrent none) hb le_rfl hlt
    · exact State.setStage_remaining_lt hb le_rfl hlt
  | @runUnlock b hst =>
    refine State.setStage_remaining_lt (s := s.setMu _) (hbatch hst (by rintro ⟨⟩)) le_rfl ?_
    change Stage.rank _ _ < (s.batch b).stage.rank _
    rw [hst]
    exact Nat.lt_succ_self _
  | @empty b hst _ =>
    refine State.setStage_remaining_lt (hbatch hst (by rintro ⟨⟩)) le_rfl ?_
    rw [hst]
    exact Nat.succ_pos _
  | @refused b hst _ _ =>
    refine State.setStage_remaining_lt (hbatch hst (by rintro ⟨⟩)) le_rfl ?_
    rw [hst]
    simp only [Stage.rank]
    omega
  | @beginRound b hst _ _ _ =>
    refine State.setStage_remaining_lt (s := s.setRw _) (hbatch hst (by rintro ⟨⟩)) le_rfl ?_
    change Stage.rank _ _ < (s.batch b).stage.rank _
    rw [hst]
    exact Nat.lt_succ_self _
  | @attempt b fate hst =>
    have hb := hbatch hst (by rintro ⟨⟩)
    have hlt :
        ∀ (ends : Ends ε) failIdx, (Stage.closing ends failIdx).rank (s.batch b).calls.length <
        (s.batch b).stage.rank (s.batch b).calls.length := by
      intro ends failIdx
      rw [hst]
      exact Nat.lt_succ_self _
    rcases Batching.attempt fn s.opened fate (s.batch b).calls s.view with ⟨w | e | p, i⟩
    · exact State.setStage_remaining_lt (s := s.install w _) hb le_rfl (hlt _ _)
    · exact State.setStage_remaining_lt hb le_rfl (hlt _ _)
    · exact State.setStage_remaining_lt hb le_rfl (hlt _ _)
  | @endRound b ends failIdx hst =>
    have hb := hbatch hst (by rintro ⟨⟩)
    have hend : ∀ st : Stage ε, st.rank (s.batch b).calls.length <
        5 * (s.batch b).calls.length + 2 →
        ((s.setRw none).setStage b st).remaining < s.remaining := by
      intro st hlt
      refine State.setStage_remaining_lt (s := s.setRw none) hb le_rfl ?_
      change _ < (s.batch b).stage.rank _
      rw [hst]
      exact hlt
    rcases ends with err | p
    · cases failIdx with
      | none =>
        refine hend (.sending (s.batch b).calls err) ?_
        simp only [Stage.rank]
        omega
      | some i => exact hend (.failed i) (Nat.lt_succ_self _)
    · exact hend (.panicking p) (Nat.succ_pos _)
  | crash _ =>
    simp [State.remaining, hcr]
  | @remove b i c hst hc =>
    refine State.setBatch_remaining_lt (hbatch hst (by rintro ⟨⟩)) ?_
    have hlen := (swapRemove_perm hc).length_eq
    rw [List.length_cons] at hlen
    simp only [Batch.rank, hst, Stage.rank]
    omega
  | @sendSolo b c hst _ =>
    refine State.setStage_remaining_lt (s := s.send c _) (hbatch hst (by rintro ⟨⟩)) le_rfl ?_
    change Stage.rank _ _ < (s.batch b).stage.rank _
    rw [hst]
    exact Nat.lt_succ_self _
  | @send b c rest err hst _ =>
    refine State.setStage_remaining_lt (s := s.send c _) (hbatch hst (by rintro ⟨⟩)) le_rfl ?_
    change Stage.rank _ _ < (s.batch b).stage.rank _
    rw [hst]
    exact Nat.lt_succ_self _
  | @sentAll b err hst =>
    refine State.setStage_remaining_lt (hbatch hst (by rintro ⟨⟩)) le_rfl ?_
    rw [hst]
    exact Nat.succ_pos _

/-- When no goroutine can act, nobody holds `batchMu`. -/
lemma Inv.unlocked (h : Inv maxBatchSize fn v₀ s) (hstuck : ∀ s', ¬ Act maxBatchSize fn s s') :
    s.batchMu = none := by
  rcases hmu : s.batchMu with _ | (c | b)
  · rfl
  · have hholds := (h.shape.callMu c).mpr hmu
    cases hpc : s.pc c with
    | locked => exact absurd (.choose hpc) (hstuck _)
    | chosen =>
      obtain ⟨b, hcur, -⟩ := h.shape.chosen c hpc
      exact absurd (.append hpc hcur) (hstuck _)
    | appended b => exact absurd (.spawn hpc (h.shape.filling c b (.inl hpc))) (hstuck _)
    | leaving b => exact absurd (.unlock hpc) (hstuck _)
    | _ =>
      rw [hpc] at hholds
      cases hholds
  · have hholds := (h.shape.runMu b).mpr hmu
    cases hst : (s.batch b).stage with
    | locked => exact absurd (.stop hst) (hstuck _)
    | stopped => exact absurd (.unset hst) (hstuck _)
    | cleared => exact absurd (.runUnlock hst) (hstuck _)
    | _ =>
      rw [hst] at hholds
      cases hholds

/-- When no goroutine can act, nobody but another writer holds `rwlock`. -/
lemma Locked.unlocked (h : Locked s) (hstuck : ∀ s', ¬ Act maxBatchSize fn s s') :
    s.rwlock = none ∨ s.rwlock = some .other := by
  rcases hrw : s.rwlock with _ | (c | b | _)
  · exact .inl rfl
  · have hwrites := (h.call c).mpr hrw
    cases hpc : s.pc c with
    | begun b => exact absurd (.soloUpdate .stores hpc) (hstuck _)
    | closing b ends => exact absurd (.soloUnlock hpc) (hstuck _)
    | _ =>
      rw [hpc] at hwrites
      cases hwrites
  · have hwrites := (h.run b).mpr hrw
    cases hst : (s.batch b).stage with
    | begun => exact absurd (.attempt .stores hst) (hstuck _)
    | closing ends failIdx => exact absurd (.endRound hst) (hstuck _)
    | _ =>
      rw [hst] at hwrites
      cases hwrites
  · exact .inr rfl

/-- The run of the batch waits for `rwlock`. -/
def State.RunWaits (s : State σ ε) (b : BatchId) : Prop :=
  s.rwlock = some .other ∧ (s.batch b).stage = .retry

/-- When no goroutine can act, no batch owes a message, unless it waits for `rwlock`. -/
lemma Inv.owed_nil (h : Inv maxBatchSize fn v₀ s) (hl : Locked s)
    (hstuck : ∀ s', ¬ Act maxBatchSize fn s s') (b : BatchId) :
    (s.batch b).owed = [] ∨ s.RunWaits b := by
  have hmu := h.unlocked hstuck
  cases hst : (s.batch b).stage with
  | unstarted =>
    -- a batch that has not started is not allocated: its timer or a trigger would start it
    have hfresh : s.batch b = .unallocated := by
      by_contra hne
      rcases h.shape.startable b (h.shape.lt_nextBatch hne) hst with ht | ht
      · exact hstuck _ (.fire ht)
      · exact hstuck _ (.start ht hst)
    rw [hfresh]
    exact .inl rfl
  | entered => exact absurd (.runLock hst hmu) (hstuck _)
  | locked => exact absurd (.stop hst) (hstuck _)
  | stopped => exact absurd (.unset hst) (hstuck _)
  | cleared => exact absurd (.runUnlock hst) (hstuck _)
  | retry =>
    by_cases hnil : (s.batch b).calls = []
    · exact absurd (.empty hst hnil) (hstuck _)
    · cases hro : s.readOnly with
      | true => exact absurd (.refused hst hnil hro) (hstuck _)
      | false =>
        rcases hl.unlocked hstuck with hrw | hrw
        · exact absurd (.beginRound hst hnil hro hrw) (hstuck _)
        · exact .inr ⟨hrw, hst⟩
  | begun => exact absurd (.attempt .stores hst) (hstuck _)
  | closing ends failIdx => exact absurd (.endRound hst) (hstuck _)
  | failed i =>
    have hi := ((h.shape.batch b).failIdx i (by rw [hst]; rfl)).1
    exact absurd (.remove hst (List.getElem?_eq_getElem hi)) (hstuck _)
  | removed c =>
    have hc : c ∈ (s.batch b).owed := by
      rw [Batch.owed, hst]
      exact List.mem_cons_self
    have hch := ((h.call c).of_mem_owed (h.shape.home_of_owed hc) hc).1
    exact absurd (.sendSolo hst hch) (hstuck _)
  | sending rest err =>
    cases rest with
    | nil => exact absurd (.sentAll hst) (hstuck _)
    | cons c rest =>
      have hc : c ∈ (s.batch b).owed := by
        rw [Batch.owed, hst]
        exact List.mem_cons_self
      have hch := ((h.call c).of_mem_owed (h.shape.home_of_owed hc) hc).1
      exact absurd (.send hst hch) (hstuck _)
  | done =>
    rw [Batch.owed, hst]
    exact .inl rfl
  | panicking p => exact absurd (.crash hst) (hstuck _)

/-- The call has got its one message, and `Batch` has returned or panicked. -/
def State.Completed (s : State σ ε) (c : CallId) : Prop :=
  s.sent c = 1 ∧ ((∃ b err, s.pc c = .returned b err) ∨ ∃ b p, s.pc c = .panicked b p)

/-- The call waits for `rwlock`, in its solo re-run or through the run of its batch, and another
writer holds the lock. -/
def State.Waits (s : State σ ε) (c : CallId) : Prop :=
  s.rwlock = some .other ∧
    ((∃ b, s.pc c = .solo b) ∨
      ∃ b, s.pc c = .waiting b ∧ c ∈ (s.batch b).calls ∧ (s.batch b).stage = .retry)

/-- When no goroutine can act, every call that was made has completed, or waits for `rwlock`. -/
lemma Inv.completed (h : Inv maxBatchSize fn v₀ s) (hl : Locked s)
    (hstuck : ∀ s', ¬ Act maxBatchSize fn s s') (c : CallId) :
    s.pc c = .idle ∨ s.Completed c ∨ s.Waits c := by
  have hmu := h.unlocked hstuck
  have hfree : (s.pc c).holds = false := by
    rw [Bool.eq_false_iff]
    intro hholds
    cases hmu.symm.trans ((h.shape.callMu c).mp hholds)
  have hok := h.call c
  cases hpc : s.pc c with
  | idle => exact .inl rfl
  | entered => exact absurd (.lock hpc hmu) (hstuck _)
  | locked | chosen | appended _ | leaving _ =>
    rw [hpc] at hfree
    cases hfree
  | waiting b =>
    rw [hpc] at hok
    rcases hok with ⟨hc, -⟩ | ⟨-, -, err, hch, -⟩
    · rcases h.owed_nil hl hstuck b with hnil | ⟨hrw, hst⟩
      · rw [hnil] at hc
        cases hc
      · rw [Batch.owed_of_early (by rw [hst]; rfl)] at hc
        exact .inr (.inr ⟨hrw, .inr ⟨b, hpc, hc, hst⟩⟩)
    · by_cases herr : err = some .trySolo
      · subst herr
        exact absurd (.receiveSolo hpc hch) (hstuck _)
      · exact absurd (.receive hpc hch herr) (hstuck _)
  | solo b =>
    cases hro : s.readOnly with
    | true => exact absurd (.soloRefused hpc hro) (hstuck _)
    | false =>
      rcases hl.unlocked hstuck with hrw | hrw
      · exact absurd (.soloLock hpc hro hrw) (hstuck _)
      · exact .inr (.inr ⟨hrw, .inl ⟨b, hpc⟩⟩)
  | begun b => exact absurd (.soloUpdate .stores hpc) (hstuck _)
  | closing b ends => exact absurd (.soloUnlock hpc) (hstuck _)
  | returned b err => exact .inr (.inl ⟨(h.returned hpc).1, .inl ⟨b, err, hpc⟩⟩)
  | panicked b p => exact .inr (.inl ⟨(h.panicked hpc).1, .inr ⟨b, p, hpc⟩⟩)

lemma Reachable.acts {readOnly : Bool} (h : Reachable maxBatchSize readOnly fn v₀ s)
    (hrun : Relation.ReflTransGen (Acts maxBatchSize fn) s s') :
    Reachable maxBatchSize readOnly fn v₀ s' :=
  Relation.ReflTransGen.trans h (Relation.ReflTransGen.mono (fun _ _ => Or.inl) s s' hrun)

/-- What is left when no goroutine of `Batch` can act. -/
lemma Reachable.at_rest {readOnly : Bool} (h : Reachable maxBatchSize readOnly fn v₀ s)
    (hstuck : ∀ s', ¬ Acts maxBatchSize fn s s') :
    (∃ b p, s.crashed = true ∧ (s.batch b).stage = .panicking p) ∨
      s.batchMu = none ∧ ∀ c, s.pc c = .idle ∨ s.Completed c ∨ s.Waits c := by
  cases hcr : s.crashed with
  | true =>
    obtain ⟨b, p, hst⟩ := h.locked.crashed hcr
    exact .inl ⟨b, p, rfl, hst⟩
  | false =>
    have hnone : ∀ s', ¬ Act maxBatchSize fn s s' := fun s' hact => hstuck s' ⟨hcr, hact⟩
    exact .inr ⟨h.inv.unlocked hnone, h.inv.completed h.locked hnone⟩

/-- The goroutines of `Batch` cannot go on for ever by themselves. -/
lemma Reachable.acc {readOnly : Bool} (h : Reachable maxBatchSize readOnly fn v₀ s) :
    Acc (fun t' t => Acts maxBatchSize fn t t') s :=
  acc_of_measure (fun _ _ hinv hacts => hinv.act hacts.2) State.remaining
    (fun _ _ hinv hacts => hacts.remaining_lt hinv) h.inv

/-- From every reachable state the goroutines of `Batch` come to rest, whatever they do. When they
rest, `Commit` or a commit handler has panicked in the run of a batch and the process has ended, or
`batchMu` is free and every call that was made has been sent exactly one message and has returned or
panicked, or waits for `rwlock` while another writer holds it. -/
theorem batch_calls_complete (maxBatchSize : ℤ) (readOnly : Bool) (fn : CallId → TxFn σ ε) (v₀ : σ)
    (s : State σ ε) (h : Reachable maxBatchSize readOnly fn v₀ s) :
    Acc (fun t' t => Acts maxBatchSize fn t t') s ∧
      ∀ t, Relation.ReflTransGen (Acts maxBatchSize fn) s t → (∀ t', ¬ Acts maxBatchSize fn t t') →
        (∃ b p, t.crashed = true ∧ (t.batch b).stage = .panicking p) ∨
          t.batchMu = none ∧ ∀ c, t.pc c = .idle ∨ t.Completed c ∨ t.Waits c :=
  ⟨h.acc, fun _ hrun hstuck => (h.acts hrun).at_rest hstuck⟩

/-- The run of `addTwo_run` comes to rest, with its calls completed. -/
theorem batch_calls_complete_addTwo : ∃ s : State ℕ Unit, Reachable 2 false addTwo 0 s ∧
    s.pc 0 = .returned 0 none ∧ Acc (fun t' t => Acts 2 addTwo t t') s := by
  obtain ⟨s, hs, hpc, -⟩ := addTwo_run
  exact ⟨s, hs, hpc, (batch_calls_complete 2 false addTwo 0 s hs).1⟩

end Vmbolt.Batching
