import Vmbolt.Batch.Invariant
import Vmbolt.Lib.Systems

/-!
# The steps of `DB.Batch` keep the invariant

One lemma for each way in which a step changes what calls and batches owe each other: a call moves
(`Inv.moveCall`), a batch moves and owes what it owed before (`Inv.moveBatch`), a message goes from
a batch to a call (`Inv.deliver`), an update installs effects (`Inv.pay`, `Inv.soloUpdate`).
`Inv.act` and `Inv.env` go through the steps, `Reachable.inv` through whole runs.
-/

namespace Vmbolt.Batching
open Systems

variable {σ ε : Type} {maxBatchSize : ℤ} {fn : CallId → TxFn σ ε} {v₀ : σ} {s : State σ ε}

namespace Inv

/-- A call that is past its message moves on within its batch. -/
private lemma movedShape (h : Shape maxBatchSize s) {c : CallId} {b : BatchId} {p q : Pc ε}
    (hpc : s.pc c = q) (hq : q.holds = false) (hq' : q.home = some b) (hp : p.holds = false)
    (hp' : p.home = some b) : Shape maxBatchSize (s.setPc c p) := by
  refine h.setPc_keep ?_ (by rw [hpc, hp, hq]) (by rw [hpc, hp', hq']) ?_ ?_
  · rw [hpc]
    rintro rfl
    cases hq'
  · rintro rfl
    cases hp'
  · rintro d (rfl | rfl) <;> cases hp

section
variable {c : CallId} {b : BatchId} (h : Inv maxBatchSize fn v₀ s)
include h

/-- A call moves; its channel and its effect stay. -/
lemma moveCall {p : Pc ε} {mu : Option Holder}
    (hshape : Shape maxBatchSize ((s.setMu mu).setPc c p))
    (hok : CallOK s.batch c p (s.errCh c) (s.sent c) (s.effects c)) :
    Inv maxBatchSize fn v₀ ((s.setMu mu).setPc c p) where
  shape := hshape
  call := (Function.forall_update_iff s.pc fun d q =>
    CallOK s.batch d q (s.errCh d) (s.sent d) (s.effects d)).mpr ⟨hok, fun d _ => h.call d⟩
  installed := h.installed

/-- The invariant is not about `rwlock`, and not about what a panic or `DB.Close` changes. -/
lemma outside (rwlock : Option Writer) (opened crashed : Bool) :
    Inv maxBatchSize fn v₀ { s with rwlock, opened, crashed } where
  shape := { h.shape with }
  call := h.call
  installed := h.installed

/-- A batch moves and owes what it owed before. -/
lemma moveBatch {x : Batch ε} {mu : Option Holder} {cur : Option BatchId}
    (hshape : Shape maxBatchSize (((s.setMu mu).setCurrent cur).setBatch b x))
    (howed : x.owed.Perm (s.batch b).owed)
    (hpaid : x.owed ≠ [] → x.stage.paid = (s.batch b).stage.paid) :
    Inv maxBatchSize fn v₀ (((s.setMu mu).setCurrent cur).setBatch b x) where
  shape := hshape
  call c := (h.call c).of_owed howed.mem_iff fun hc =>
    hpaid (List.ne_nil_of_mem (howed.mem_iff.mpr hc))
  installed := h.installed

/-- A batch sends a message to a call that it owes one. -/
lemma deliver {x : Batch ε} {err : Option (Err ε)} (hshape : Shape maxBatchSize (s.setBatch b x))
    (howed : (s.batch b).owed = c :: x.owed) (hpaid : x.stage.paid = (s.batch b).stage.paid)
    (hworth : worth err = (s.batch b).stage.paid) :
    Inv maxBatchSize fn v₀ ((s.send c err).setBatch b x) where
  shape := { hshape with }
  call := by
    have hdup : (c :: x.owed).Nodup := by
      rw [← howed]
      exact (h.shape.batch b).owed_nodup
    have hc : c ∈ (s.batch b).owed := by
      rw [howed]
      exact List.mem_cons_self
    intro d
    by_cases hd : d = c
    · subst hd
      obtain ⟨-, hsent, heff, hput⟩ := (h.call d).of_mem_owed (h.shape.home_of_owed hc) hc
      refine hput _ _ _ _ (.inr ⟨?_, ?_, err, Function.update_self .., heff.trans hworth.symm⟩)
      · rw [State.setBatch_self]
        exact (List.nodup_cons.mp hdup).1
      · exact (Function.update_self ..).trans (by rw [hsent])
    · have hch : ((s.send c err).setBatch b x).errCh d = s.errCh d := Function.update_of_ne hd ..
      have hsent : ((s.send c err).setBatch b x).sent d = s.sent d := Function.update_of_ne hd ..
      rw [hch, hsent]
      refine (h.call d).of_owed ?_ fun _ => hpaid
      rw [howed, List.mem_cons]
      exact ⟨.inr, fun hd' => hd'.resolve_left hd⟩
  installed := h.installed

/-- A round of the retry loop installs the effects of all calls of the batch. -/
lemma pay {v : σ} {x : Batch ε} (hshape : Shape maxBatchSize (s.setBatch b x))
    (howed : x.owed = (s.batch b).owed) (hpaid : x.stage.paid = (s.batch b).stage.paid + 1)
    (happ : Applies fn (s.batch b).owed s.view v) :
    Inv maxBatchSize fn v₀ ((s.install v (.calls (s.batch b).owed)).setBatch b x) where
  shape := { hshape with }
  call c := by
    have heff : ((s.install v (.calls (s.batch b).owed)).setBatch b x).effects c =
        s.effects c + (s.batch b).owed.count c := effects_install s v _ c
    rw [heff]
    by_cases hc : c ∈ (s.batch b).owed
    · obtain ⟨hch, hsent, heff, hput⟩ := (h.call c).of_mem_owed (h.shape.home_of_owed hc) hc
      refine hput _ _ _ _ (.inl ⟨?_, hch, hsent, ?_⟩)
      · rw [State.setBatch_self, howed]
        exact hc
      · rw [State.setBatch_self, hpaid, heff,
          List.count_eq_one_of_mem (h.shape.batch b).owed_nodup hc]
    · rw [List.count_eq_zero_of_not_mem hc, Nat.add_zero]
      exact (h.call c).of_owed (by rw [howed]) fun hc' => absurd hc' hc
  installed := h.installed.calls happ

/-- A call takes its message out of the channel. -/
lemma receive {err : Option (Err ε)} {p : Pc ε} (hpc : s.pc c = .waiting b)
    (hch : s.errCh c = some err) (hholds : p.holds = false) (hhome : p.home = some b)
    (hput : ∀ eff, c ∉ (s.batch b).owed → eff = worth err → CallOK s.batch c p none 1 eff) :
    Inv maxBatchSize fn v₀ ((s.receive c).setPc c p) where
  shape := by
    have hshape : Shape maxBatchSize (s.setPc c p) := by
      refine h.shape.setPc_keep (by rw [hpc]; rintro ⟨⟩) (by rw [hpc]; exact hholds)
        (by rw [hpc]; exact hhome) ?_ ?_
      · rintro rfl
        cases hholds
      · rintro d (rfl | rfl) <;> cases hholds
    exact { hshape with }
  call := by
    refine (Function.forall_update_iff s.pc fun d q =>
      CallOK s.batch d q ((s.receive c).errCh d) (s.sent d) (s.effects d)).mpr ⟨?_, fun d hd => ?_⟩
    · have hc := h.call c
      rw [hpc, hch] at hc
      rcases hc with ⟨-, hch', -⟩ | ⟨hc, hsent, err', hch', heff⟩
      · cases hch'
      · cases hch'
        have hnone : (s.receive c).errCh c = none := Function.update_self ..
        rw [hnone, hsent]
        exact hput _ hc heff
    · have hsame : (s.receive c).errCh d = s.errCh d := Function.update_of_ne hd ..
      rw [hsame]
      exact h.call d
  installed := h.installed

lemma soloRefused (hpc : s.pc c = .solo b) :
    Inv maxBatchSize fn v₀ (s.setPc c (.returned b (some .databaseReadOnly))) := by
  have hc := h.call c
  rw [hpc] at hc
  obtain ⟨howed, hch, hsent, heff⟩ := hc
  exact h.moveCall (movedShape h.shape hpc rfl rfl rfl rfl)
    ⟨howed, hch, hsent, heff, by rintro ⟨⟩⟩

lemma soloLock (hpc : s.pc c = .solo b) :
    Inv maxBatchSize fn v₀ ((s.setRw (some (.call c))).setPc c (.begun b)) := by
  have hc := h.call c
  rw [hpc] at hc
  have h' := h.outside (some (.call c)) s.opened s.crashed
  exact h'.moveCall (movedShape h'.shape hpc rfl rfl rfl rfl) hc

lemma soloUpdate (fate : Fate ε) (hpc : s.pc c = .begun b) :
    Inv maxBatchSize fn v₀ ((s.settle (.calls [c]) (update s.opened fate (fn c).run s.view)).setPc c
      (.closing b (update s.opened fate (fn c).run s.view).ends)) := by
  obtain ⟨howed, hch, hsent, heff⟩ : c ∉ (s.batch b).owed ∧ s.errCh c = none ∧ s.sent c = 1 ∧
      s.effects c = 0 := by
    have hc := h.call c
    rw [hpc] at hc
    exact hc
  have hshape : ∀ ends, Shape maxBatchSize (s.setPc c (.closing b ends)) :=
    fun _ => movedShape h.shape hpc rfl rfl rfl rfl
  rcases update_cases s.opened fate (fn c) s.view with ⟨hs, hu, hnil⟩ | ⟨e, hu, he⟩ | ⟨p, hu, hp⟩
  · rw [hu]
    refine ⟨{ hshape _ with }, ?_, h.installed.calls (.cons hnil .nil)⟩
    refine (Function.forall_update_iff s.pc fun d q => CallOK s.batch d q (s.errCh d) (s.sent d)
      ((s.install ((fn c).run s.view).view (.calls [c])).effects d)).mpr
        ⟨⟨howed, hch, hsent, ?_, ?_⟩, fun d hd => ?_⟩
    · rw [effects_install, heff, worth_of_installed]
      simp [Entry.effects]
    · cases hs <;> rintro ⟨⟩
    · have hsame : (s.install ((fn c).run s.view).view (.calls [c])).effects d = s.effects d := by
        rw [effects_install]
        simp [Entry.effects, Ne.symm hd]
      rw [hsame]
      exact h.call d
  · rw [hu]
    refine h.moveCall (hshape _) ⟨howed, hch, hsent, heff, ?_⟩
    rintro ⟨⟩
    exact he rfl
  · rw [hu]
    exact h.moveCall (hshape _) ⟨howed, hch, hsent, heff.trans hp.symm, by rintro ⟨⟩⟩

lemma soloUnlock {ends : Ends ε} (hpc : s.pc c = .closing b ends) :
    Inv maxBatchSize fn v₀ ((s.setRw none).setPc c (ends.pc b)) := by
  have hc := h.call c
  rw [hpc] at hc
  obtain ⟨howed, hch, hsent, heff, hne⟩ := hc
  have h' := h.outside none s.opened s.crashed
  cases ends with
  | returned err =>
    refine h'.moveCall (movedShape h'.shape hpc rfl rfl rfl rfl) ⟨howed, hch, hsent, heff, ?_⟩
    rintro rfl
    exact hne rfl
  | panicked p =>
    exact h'.moveCall (movedShape h'.shape hpc rfl rfl rfl rfl) ⟨howed, hch, hsent, heff⟩

/-- A batch that is not as `Batch` allocates it has been allocated. -/
private lemma allocated {st : Stage ε} (hst : (s.batch b).stage = st) (hne : st ≠ .unstarted) :
    b < s.nextBatch := by
  refine h.shape.lt_nextBatch fun he => hne ?_
  rw [← hst, he]
  rfl

/-- The run of a batch goes from a stage to a stage in which it owes the same. -/
private lemma stage {st : Stage ε} (hb : b < s.nextBatch)
    (hholds : st.holds = (s.batch b).stage.holds) (hunread : (s.batch b).stage.unread = false)
    (hunread' : st.unread = false) (howed : { s.batch b with stage := st }.owed = (s.batch b).owed)
    (hpaid : (s.batch b).owed ≠ [] → st.paid = (s.batch b).stage.paid)
    (hfail : ∀ i, st.failIdx = some i → i < (s.batch b).calls.length ∧ st.paid = 0)
    (hpanic : ∀ p, st.panic = some p → ∀ reason, p ≠ .fn reason) :
    Inv maxBatchSize fn v₀ (s.setStage b st) := by
  have hstart : st ≠ .unstarted := by
    rintro rfl
    cases hunread'
  refine h.moveBatch (h.shape.setBatch_keep hb ?_ hholds ?_ rfl fun hst => absurd hst hstart)
    (by rw [howed]) (fun hne => hpaid (by rwa [howed] at hne))
  · exact { h.shape.batch b with
      owed := by
        rw [howed]
        exact (h.shape.batch b).owed
      calls_eq := fun hst => by
        rw [hunread'] at hst
        cases hst
      failIdx := hfail
      panic := hpanic
      unstarted := fun hst => absurd hst hstart }
  · intro hst
    rw [hunread] at hst
    cases hst

/-! ### The steps of a call -/

lemma lock (hpc : s.pc c = .entered) (hmu : s.batchMu = none) :
    Inv maxBatchSize fn v₀ ((s.setMu (some (.call c))).setPc c .locked) := by
  have hc := h.call c
  rw [hpc] at hc
  refine h.moveCall (h.shape.setPc ?_ ?_ ?_ ?_ ?_ ?_ ?_) hc
  · rw [hpc]
    rintro ⟨⟩
  · exact iff_of_true rfl rfl
  · intro d hd
    rw [hmu]
    simp [Ne.symm hd]
  · intro b
    rw [hmu]
    simp
  · rw [hpc]
    rfl
  · rintro ⟨⟩
  · rintro b (hb | hb) <;> cases hb

lemma choose (hpc : s.pc c = .locked) :
    Inv maxBatchSize fn v₀ ((s.choose maxBatchSize).setPc c .chosen) := by
  obtain ⟨hshape, b, hcur, hroom⟩ := h.shape.choose hpc
  -- `choose` leaves the calls alone, and a new batch owes nothing, like an unallocated one
  have hsame : (s.choose maxBatchSize).pc = s.pc ∧
      Inv maxBatchSize fn v₀ (s.choose maxBatchSize) := by
    by_cases hneeds : s.needsBatch maxBatchSize = true
    · have hchoose : s.choose maxBatchSize =
          { (s.setBatch s.nextBatch .new).setCurrent (some s.nextBatch) with
            nextBatch := s.nextBatch + 1 } := by
        rw [State.choose, if_pos hneeds]
      have hfresh := h.shape.unused s.nextBatch le_rfl
      refine ⟨by rw [hchoose]; rfl, hshape, ?_, by rw [hchoose]; exact h.installed⟩
      rw [hchoose]
      intro d
      exact (h.call d).of_owed (by rw [hfresh]; exact Iff.rfl) fun _ => by rw [hfresh]; rfl
    · have hchoose : s.choose maxBatchSize = s := by
        rw [State.choose, if_neg hneeds]
      rw [hchoose]
      exact ⟨rfl, h⟩
  obtain ⟨hpcs, hinv⟩ := hsame
  have hpc' : (s.choose maxBatchSize).pc c = .locked := by rw [hpcs, hpc]
  have hc := hinv.call c
  rw [hpc'] at hc
  refine hinv.moveCall (hshape.setPc_keep ?_ ?_ ?_ ?_ ?_) hc
  · rw [hpc']
    rintro ⟨⟩
  · rw [hpc']
    rfl
  · rw [hpc']
    rfl
  · exact fun _ => ⟨b, hcur, hroom⟩
  · rintro d (hd | hd) <;> cases hd

lemma append (hpc : s.pc c = .chosen) (hcur : s.current = some b) :
    Inv maxBatchSize fn v₀ ((s.setBatch b ((s.batch b).push c)).setPc c (.appended b)) where
  shape := h.shape.append hpc hcur
  call := by
    have hunread := (h.shape.current b hcur).2
    have howed : ((s.batch b).push c).owed = (s.batch b).owed ++ [c] := by
      rw [Batch.owed_of_unread hunread]
      exact Batch.owed_of_unread (x := (s.batch b).push c) hunread
    refine (Function.forall_update_iff s.pc fun d q =>
      CallOK (s.setBatch b ((s.batch b).push c)).batch d q (s.errCh d) (s.sent d) (s.effects d)).mpr
        ⟨?_, fun d hd => (h.call d).of_owed ?_ fun _ => rfl⟩
    · have hc := h.call c
      rw [hpc] at hc
      obtain ⟨hch, hsent, heff⟩ := hc
      refine .inl ⟨?_, hch, hsent, heff.trans ?_⟩
      · rw [State.setBatch_self, howed]
        exact List.mem_append_right _ (List.mem_singleton_self c)
      · rw [State.setBatch_self]
        exact (Stage.paid_of_early (Stage.early_of_unread hunread)).symm
    · rw [howed, List.mem_append, List.mem_singleton]
      exact ⟨fun hd' => hd'.resolve_right hd, .inl⟩
  installed := h.installed

lemma unlock (hpc : s.pc c = .leaving b) :
    Inv maxBatchSize fn v₀ ((s.setMu none).setPc c (.waiting b)) := by
  have hmu := h.shape.mu_of_holds hpc rfl
  have hc := h.call c
  rw [hpc] at hc
  refine h.moveCall (h.shape.setPc ?_ ?_ ?_ ?_ ?_ ?_ ?_) hc
  · rw [hpc]
    rintro ⟨⟩
  · simp [Pc.holds]
  · intro d hd
    rw [hmu]
    simp [Ne.symm hd]
  · intro d
    rw [hmu]
    simp
  · rw [hpc]
    rfl
  · rintro ⟨⟩
  · rintro d (hd | hd) <;> cases hd

/-- A goroutine more or less at `start.Do`, or a timer stopped after the start. -/
private lemma triggered (timer : Bool) (triggers : ℕ) (hb : b < s.nextBatch)
    (hstart : (s.batch b).stage = .unstarted → timer = true ∨ 0 < triggers) :
    Inv maxBatchSize fn v₀ (s.setBatch b { s.batch b with timer, triggers }) :=
  h.moveBatch
    (h.shape.setBatch_keep hb { h.shape.batch b with } rfl (fun hu => ⟨hu, rfl⟩) rfl hstart)
    (List.Perm.refl _) (fun _ => rfl)

lemma spawn {b d : BatchId} (hpc : s.pc c = .appended b) (hcur : s.current = some d) :
    Inv maxBatchSize fn v₀ ((s.spawnIfFull maxBatchSize d).setPc c (.leaving b)) := by
  have hbd : d = b := Option.some.inj (hcur.symm.trans (h.shape.filling c b (.inl hpc)))
  subst hbd
  have hmove : ∀ s' : State σ ε, Inv maxBatchSize fn v₀ s' → s'.pc = s.pc →
      s'.current = s.current → Inv maxBatchSize fn v₀ (s'.setPc c (.leaving d)) := by
    intro s' h' hpcs hcurs
    have hpc' : s'.pc c = .appended d := by rw [hpcs, hpc]
    have hc := h'.call c
    rw [hpc'] at hc
    refine h'.moveCall (h'.shape.setPc_keep ?_ ?_ ?_ ?_ ?_) hc
    · rw [hpc']
      rintro ⟨⟩
    · rw [hpc']
      rfl
    · rw [hpc']
      rfl
    · rintro ⟨⟩
    · rintro e (he | he) <;> cases he
      rw [hcurs, hcur]
  unfold State.spawnIfFull
  split
  · refine hmove _ (h.triggered (s.batch d).timer _ (h.shape.current d hcur).1 ?_) rfl rfl
    exact fun _ => .inr (Nat.succ_pos _)
  · exact hmove s h rfl rfl

/-! ### The steps of a batch -/

lemma fire (ht : (s.batch b).timer = true) :
    Inv maxBatchSize fn v₀ ((s.setBatch b { s.batch b with timer := false }).spawn b) := by
  have hb : b < s.nextBatch := by
    refine h.shape.lt_nextBatch fun he => ?_
    rw [he] at ht
    cases ht
  rw [State.fire_eq]
  exact h.triggered false _ hb fun _ => .inr (Nat.succ_pos _)

lemma start (ht : 0 < (s.batch b).triggers) (hst : (s.batch b).stage = .unstarted) :
    Inv maxBatchSize fn v₀ (s.setBatch b { s.batch b with
      stage := .entered, triggers := (s.batch b).triggers - 1, runs := (s.batch b).runs + 1 }) := by
  have hb : b < s.nextBatch := by
    refine h.shape.lt_nextBatch fun he => ?_
    rw [he] at ht
    cases ht
  have hunread : (s.batch b).stage.unread = true := by rw [hst]; rfl
  refine h.moveBatch (h.shape.setBatch_keep hb ?_ (by rw [hst]; rfl) (fun _ => ⟨rfl, rfl⟩) rfl ?_)
    (by rw [Batch.owed_of_unread hunread]; rfl) (fun _ => by rw [hst]; rfl)
  · exact (h.shape.batch b).early (by rw [hst]; rfl) rfl rfl rfl (fun _ => hunread) (by rintro ⟨⟩)
      (by rw [(h.shape.batch b).unstarted hst])
  · rintro ⟨⟩

lemma skip (hst : (s.batch b).stage = .done) :
    Inv maxBatchSize fn v₀ (s.setBatch b { s.batch b with
      triggers := (s.batch b).triggers - 1 }) := by
  refine h.triggered (s.batch b).timer _ (h.allocated hst (by rintro ⟨⟩)) fun hst' => ?_
  rw [hst] at hst'
  cases hst'

/-- The run of a batch goes on before its first round. -/
private lemma before (st : Stage ε) (timer : Bool) (mu : Option Holder) (cur : Option BatchId)
    (hb : b < s.nextBatch) (hearly : (s.batch b).stage.early = true) (hst : st.early = true)
    (hne : st ≠ .unstarted) (hunread : st.unread = true → (s.batch b).stage.unread = true)
    (hself : st.holds = true ↔ mu = some (.run b))
    (hrun : ∀ d, d ≠ b → (s.batchMu = some (.run d) ↔ mu = some (.run d)))
    (hcall : ∀ c, s.batchMu = some (.call c) ↔ mu = some (.call c))
    (hcur : ∀ d, cur = some d → s.current = some d)
    (hkeep : ∀ c, s.batchMu = some (.call c) → cur = s.current)
    (hopen : cur = some b → st.unread = true) :
    Inv maxBatchSize fn v₀
      (((s.setMu mu).setCurrent cur).setBatch b { s.batch b with stage := st, timer }) := by
  refine h.moveBatch (h.shape.setBatch hb ?_ hself hrun hcall hcur hkeep
    (fun hc => ⟨hopen hc, rfl⟩) rfl fun hst' => absurd hst' hne) ?_ fun _ => ?_
  · exact (h.shape.batch b).early hearly hst rfl rfl hunread hne (h.shape.batch b).runs
  · rw [Batch.owed_of_early hearly]
    exact List.Perm.of_eq (Batch.owed_of_early (x := { s.batch b with stage := st, timer }) hst)
  · exact (Stage.paid_of_early hst).trans (Stage.paid_of_early hearly).symm

lemma runLock (hst : (s.batch b).stage = .entered) (hmu : s.batchMu = none) :
    Inv maxBatchSize fn v₀ ((s.setMu (some (.run b))).setStage b .locked) := by
  refine h.before .locked _ (some (.run b)) s.current (h.allocated hst (by rintro ⟨⟩))
    (by rw [hst]; rfl) rfl (by rintro ⟨⟩) (fun _ => by rw [hst]; rfl) (iff_of_true rfl rfl) ?_ ?_
    (fun _ hd => hd) (fun _ _ => rfl) (fun _ => rfl)
  · intro d hd
    rw [hmu]
    simp [Ne.symm hd]
  · intro c
    rw [hmu]
    simp

lemma stop (hst : (s.batch b).stage = .locked) :
    Inv maxBatchSize fn v₀ (s.setBatch b { s.batch b with stage := .stopped, timer := false }) := by
  refine h.before .stopped false s.batchMu s.current (h.allocated hst (by rintro ⟨⟩))
    (by rw [hst]; rfl) rfl (by rintro ⟨⟩) (fun _ => by rw [hst]; rfl) ?_ (fun _ _ => Iff.rfl)
    (fun _ => Iff.rfl) (fun _ hd => hd) (fun _ _ => rfl) (fun _ => rfl)
  rw [← h.shape.runMu b, hst]
  exact Iff.rfl

lemma unset (hst : (s.batch b).stage = .stopped) :
    Inv maxBatchSize fn v₀ ((s.unset b).setStage b .cleared) := by
  have hmu : s.batchMu = some (.run b) := (h.shape.runMu b).mp (by rw [hst]; rfl)
  have hkey : ∀ cur : Option BatchId, (∀ d, cur = some d → s.current = some d) → cur ≠ some b →
      Inv maxBatchSize fn v₀ ((s.setCurrent cur).setStage b .cleared) := by
    intro cur hcur hne
    refine h.before .cleared _ s.batchMu cur (h.allocated hst (by rintro ⟨⟩)) (by rw [hst]; rfl) rfl
      (by rintro ⟨⟩) (by rintro ⟨⟩) (iff_of_true rfl hmu) (fun _ _ => Iff.rfl) (fun _ => Iff.rfl)
      hcur ?_ (fun hc => absurd hc hne)
    intro c hc
    cases hmu.symm.trans hc
  unfold State.unset
  split
  · exact hkey none (by rintro d ⟨⟩) (by rintro ⟨⟩)
  · exact hkey s.current (fun _ hd => hd) ‹_›

lemma runUnlock (hst : (s.batch b).stage = .cleared) :
    Inv maxBatchSize fn v₀ ((s.setMu none).setStage b .retry) := by
  have hmu : s.batchMu = some (.run b) := (h.shape.runMu b).mp (by rw [hst]; rfl)
  refine h.before .retry _ none s.current (h.allocated hst (by rintro ⟨⟩)) (by rw [hst]; rfl) rfl
    (by rintro ⟨⟩) (by rintro ⟨⟩) (by simp [Stage.holds]) ?_ ?_ (fun _ hd => hd) (fun _ _ => rfl) ?_
  · intro d hd
    rw [hmu]
    simp [Ne.symm hd]
  · intro c
    rw [hmu]
    simp
  · intro hc
    have hunread := (h.shape.current b hc).2
    rw [hst] at hunread
    cases hunread

/-! ### The retry loop -/

lemma empty (hst : (s.batch b).stage = .retry) (hnil : (s.batch b).calls = []) :
    Inv maxBatchSize fn v₀ (s.setStage b .done) := by
  have howed : (s.batch b).owed = [] := (Batch.owed_of_early (by rw [hst]; rfl)).trans hnil
  refine h.stage (h.allocated hst (by rintro ⟨⟩)) (by rw [hst]; rfl) (by rw [hst]; rfl) rfl ?_ ?_
    (by rintro i ⟨⟩) (by rintro p ⟨⟩)
  · rw [howed]
    rfl
  · exact fun hne => absurd howed hne

lemma sentAll {err : Option (Err ε)} (hst : (s.batch b).stage = .sending [] err) :
    Inv maxBatchSize fn v₀ (s.setStage b .done) := by
  have howed : (s.batch b).owed = [] := by rw [Batch.owed, hst]
  refine h.stage (h.allocated hst (by rintro ⟨⟩)) (by rw [hst]; rfl) (by rw [hst]; rfl) rfl ?_ ?_
    (by rintro i ⟨⟩) (by rintro p ⟨⟩)
  · rw [howed]
    rfl
  · exact fun hne => absurd howed hne

lemma refused (hst : (s.batch b).stage = .retry) :
    Inv maxBatchSize fn v₀
      (s.setStage b (.sending (s.batch b).calls (some .databaseReadOnly))) :=
  h.stage (h.allocated hst (by rintro ⟨⟩)) (by rw [hst]; rfl) (by rw [hst]; rfl) rfl
    (Batch.owed_of_early (by rw [hst]; rfl)).symm (fun _ => by rw [hst]; rfl) (by rintro i ⟨⟩)
    (by rintro p ⟨⟩)

lemma beginRound (hst : (s.batch b).stage = .retry) :
    Inv maxBatchSize fn v₀ ((s.setRw (some (.run b))).setStage b .begun) :=
  (h.outside (some (.run b)) s.opened s.crashed).stage (h.allocated hst (by rintro ⟨⟩))
    (by rw [hst]; rfl) (by rw [hst]; rfl) rfl (Batch.owed_of_early (by rw [hst]; rfl)).symm
    (fun _ => by rw [hst]; rfl) (by rintro i ⟨⟩) (by rintro p ⟨⟩)

lemma attempt (fate : Fate ε) (hst : (s.batch b).stage = .begun) :
    Inv maxBatchSize fn v₀ ((s.settle (.calls (s.batch b).calls)
      (attempt fn s.opened fate (s.batch b).calls s.view).1).setStage b
        (.closing (attempt fn s.opened fate (s.batch b).calls s.view).1.ends
          (attempt fn s.opened fate (s.batch b).calls s.view).2)) := by
  have hb := h.allocated hst (by rintro ⟨⟩)
  have howed : (s.batch b).owed = (s.batch b).calls := Batch.owed_of_early (by rw [hst]; rfl)
  have hpaid : (s.batch b).stage.paid = 0 := by rw [hst]; rfl
  rcases attempt_cases fn s.opened fate (s.batch b).calls s.view with
    ⟨w, hs, hatt, happ⟩ | ⟨e, hatt⟩ | ⟨reason, hatt⟩ | ⟨e, i, hatt, hi⟩
  · rw [hatt]
    rw [← howed] at happ
    have hshape : Shape maxBatchSize
        (s.setStage b (.closing (Updated.installed w hs).ends none)) := by
      refine h.shape.setBatch_keep hb ?_ (by rw [hst]; rfl) ?_ rfl (by rintro ⟨⟩)
      · exact { h.shape.batch b with
          owed := by
            have hok := (h.shape.batch b).owed
            rw [howed] at hok
            exact hok
          calls_eq := by rintro ⟨⟩
          failIdx := by rintro i ⟨⟩
          panic := by cases hs <;> rintro p ⟨⟩ reason ⟨⟩
          unstarted := by rintro ⟨⟩ }
      · rw [hst]
        rintro ⟨⟩
    have hpay := h.pay hshape howed.symm (by rw [hpaid]; exact worth_of_installed w hs) happ
    rw [howed] at hpay
    exact hpay
  · rw [hatt]
    exact h.stage hb (by rw [hst]; rfl) (by rw [hst]; rfl) rfl howed.symm (fun _ => hpaid.symm)
      (by rintro i ⟨⟩) (by rintro p ⟨⟩)
  · rw [hatt]
    exact h.stage hb (by rw [hst]; rfl) (by rw [hst]; rfl) rfl howed.symm (fun _ => hpaid.symm)
      (by rintro i ⟨⟩) (by rintro p ⟨⟩ reason ⟨⟩)
  · rw [hatt]
    refine h.stage hb (by rw [hst]; rfl) (by rw [hst]; rfl) rfl howed.symm (fun _ => hpaid.symm) ?_
      (by rintro p ⟨⟩)
    rintro j ⟨⟩
    exact ⟨hi, rfl⟩

lemma endRound {ends : Ends ε} {failIdx : Option ℕ}
    (hst : (s.batch b).stage = .closing ends failIdx) :
    Inv maxBatchSize fn v₀ ((s.setRw none).afterUpdate b ends failIdx) := by
  have h' := h.outside none s.opened s.crashed
  have hb := h.allocated hst (by rintro ⟨⟩)
  have hok := h.shape.batch b
  have howed : (s.batch b).owed = (s.batch b).calls := by rw [Batch.owed, hst]
  have hunread : (s.batch b).stage.unread = false := by rw [hst]; rfl
  cases ends with
  | returned err =>
    cases failIdx with
    | none =>
      exact h'.stage hb (by rw [hst]; rfl) hunread rfl howed.symm (fun _ => by rw [hst]; rfl)
        (by rintro i ⟨⟩) (by rintro p ⟨⟩)
    | some i =>
      obtain ⟨hi, hpaid⟩ := hok.failIdx i (by rw [hst]; rfl)
      refine h'.stage hb (by rw [hst]; rfl) hunread rfl howed.symm (fun _ => hpaid.symm) ?_
        (by rintro p ⟨⟩)
      rintro j ⟨⟩
      exact ⟨hi, rfl⟩
  | panicked p =>
    refine h'.stage hb (by rw [hst]; rfl) hunread rfl howed.symm (fun _ => by rw [hst]; rfl)
      (by rintro i ⟨⟩) ?_
    rintro q ⟨⟩
    exact hok.panic p (by rw [hst]; rfl)

lemma remove {i : ℕ} (hst : (s.batch b).stage = .failed i) (hc : (s.batch b).calls[i]? = some c) :
    Inv maxBatchSize fn v₀ (s.setBatch b { s.batch b with
      calls := swapRemove (s.batch b).calls i, stage := .removed c }) := by
  have howed : (s.batch b).owed = (s.batch b).calls := by rw [Batch.owed, hst]
  have hperm := swapRemove_perm hc
  have hok := h.shape.batch b
  have hlen : (swapRemove (s.batch b).calls i).length ≤ (s.batch b).calls.length := by
    rw [← hperm.length_eq, List.length_cons]
    exact Nat.le_succ _
  refine h.moveBatch (h.shape.setBatch_keep (h.allocated hst (by rintro ⟨⟩)) ?_ (by rw [hst]; rfl)
    (by rw [hst]; rintro ⟨⟩) rfl (by rintro ⟨⟩)) (by rw [howed]; exact hperm)
    (fun _ => by rw [hst]; rfl)
  exact { hok with
    calls_le := hlen.trans hok.calls_le
    owed := hperm.subperm.trans (howed ▸ hok.owed)
    calls_eq := by rintro ⟨⟩
    failIdx := by rintro j ⟨⟩
    panic := by rintro p ⟨⟩
    unstarted := by rintro ⟨⟩ }

/-- After a message a batch owes one less. -/
private lemma sendShape {st : Stage ε} (hb : b < s.nextBatch)
    (hholds : (s.batch b).stage.holds = false) (hunread : (s.batch b).stage.unread = false)
    (hst : st.holds = false) (hst' : st.unread = false) (hfail : st.failIdx = none)
    (hpanic : st.panic = none)
      (howed : (s.batch b).owed = c :: { s.batch b with stage := st }.owed) :
    Shape maxBatchSize (s.setStage b st) := by
  have hok := h.shape.batch b
  have hne : st ≠ .unstarted := by
    rintro rfl
    cases hst'
  refine h.shape.setBatch_keep hb ?_ (hst.trans hholds.symm) ?_ rfl fun he => absurd he hne
  · exact { hok with
      owed := ((List.sublist_cons_self c _).subperm).trans (howed ▸ hok.owed)
      calls_eq := fun he => by
        rw [hst'] at he
        cases he
      failIdx := fun i hi => by
        rw [hfail] at hi
        cases hi
      panic := fun p hp => by
        rw [hpanic] at hp
        cases hp
      unstarted := fun he => absurd he hne }
  · intro he
    rw [hunread] at he
    cases he

lemma sendSolo (hst : (s.batch b).stage = .removed c) :
    Inv maxBatchSize fn v₀ ((s.send c (some .trySolo)).setStage b .retry) := by
  have howed : (s.batch b).owed = c :: (s.batch b).calls := by rw [Batch.owed, hst]
  refine h.deliver (h.sendShape (h.allocated hst (by rintro ⟨⟩)) (by rw [hst]; rfl)
    (by rw [hst]; rfl) rfl rfl rfl rfl howed) howed ?_ ?_
  · rw [hst]
    rfl
  · rw [hst]
    rfl

lemma send {rest : List CallId} {err : Option (Err ε)}
    (hst : (s.batch b).stage = .sending (c :: rest) err) :
    Inv maxBatchSize fn v₀ ((s.send c err).setStage b (.sending rest err)) := by
  have howed : (s.batch b).owed = c :: rest := by rw [Batch.owed, hst]
  refine h.deliver (h.sendShape (h.allocated hst (by rintro ⟨⟩)) (by rw [hst]; rfl)
    (by rw [hst]; rfl) rfl rfl rfl rfl howed) howed ?_ ?_
  · rw [hst]
    cases err <;> rfl
  · rw [hst]
    cases err <;> rfl

/-! ### Whole runs -/

/-- The actions of the goroutines keep the invariant. -/
lemma act {s' : State σ ε} (hact : Act maxBatchSize fn s s') : Inv maxBatchSize fn v₀ s' := by
  cases hact with
  | lock hpc hmu => exact h.lock hpc hmu
  | choose hpc => exact h.choose hpc
  | append hpc hcur => exact h.append hpc hcur
  | spawn hpc hcur => exact h.spawn hpc hcur
  | unlock hpc => exact h.unlock hpc
  | receive hpc hch herr =>
    exact h.receive hpc hch rfl rfl fun _ hc heff => ⟨hc, rfl, rfl, heff, herr⟩
  | receiveSolo hpc hch =>
    exact h.receive hpc hch rfl rfl fun _ hc heff => ⟨hc, rfl, rfl, heff⟩
  | soloRefused hpc _ => exact h.soloRefused hpc
  | soloLock hpc _ _ => exact h.soloLock hpc
  | soloUpdate fate hpc => exact h.soloUpdate fate hpc
  | soloUnlock hpc => exact h.soloUnlock hpc
  | fire ht => exact h.fire ht
  | start ht hst => exact h.start ht hst
  | skip _ hst => exact h.skip hst
  | runLock hst hmu => exact h.runLock hst hmu
  | stop hst => exact h.stop hst
  | unset hst => exact h.unset hst
  | runUnlock hst => exact h.runUnlock hst
  | empty hst hnil => exact h.empty hst hnil
  | refused hst _ _ => exact h.refused hst
  | beginRound hst _ _ _ => exact h.beginRound hst
  | attempt fate hst => exact h.attempt fate hst
  | endRound hst => exact h.endRound hst
  | crash _ => exact h.outside s.rwlock s.opened true
  | remove hst hc => exact h.remove hst hc
  | sendSolo hst _ => exact h.sendSolo hst
  | send hst _ => exact h.send hst
  | sentAll hst => exact h.sentAll hst

/-- New calls and other writers keep the invariant. -/
lemma env {s' : State σ ε} (henv : Env s s') : Inv maxBatchSize fn v₀ s' := by
  cases henv with
  | call =>
    refine ⟨h.shape.call, ?_, h.installed⟩
    have hc := h.call s.nextCall
    rw [h.shape.idle _ le_rfl] at hc
    exact (Function.forall_update_iff s.pc fun d q =>
      CallOK s.batch d q (s.errCh d) (s.sent d) (s.effects d)).mpr ⟨hc, fun d _ => h.call d⟩
  | lock _ => exact h.outside (some .other) s.opened s.crashed
  | close _ => exact h.outside s.rwlock false s.crashed
  | unlock _ => exact h.outside none s.opened s.crashed
  | install f _ =>
    refine ⟨{ h.shape with }, fun c => ?_, h.installed.other f⟩
    have heff : (s.install (f s.view) (.other f)).effects c = s.effects c := by
      rw [effects_install]
      rfl
    rw [heff]
    exact h.call c

end

/-- Before the first call. -/
lemma init (readOnly : Bool) : Inv maxBatchSize fn v₀ (State.init v₀ readOnly : State σ ε) where
  shape := {
    callMu := fun _ => by simp [State.init, Pc.holds]
    runMu := fun _ => by simp [State.init, Batch.unallocated, Stage.holds]
    current := by rintro b ⟨⟩
    chosen := by rintro c ⟨⟩
    filling := by rintro c b (hc | hc) <;> cases hc
    unused := fun _ _ => rfl
    idle := fun _ _ => rfl
    home := fun _ _ => by simp [State.init, Batch.unallocated, Pc.home]
    batch := fun _ => {
      nodup := List.nodup_nil
      size := by simp [State.init, Batch.unallocated]
      calls_le := le_rfl
      owed := List.Subperm.refl _
      calls_eq := fun _ => rfl
      failIdx := by rintro i ⟨⟩
      panic := by rintro p ⟨⟩
      unstarted := fun _ => rfl
      runs := Nat.zero_le 1 }
    startable := fun b hb => absurd hb (Nat.not_lt_zero b) }
  call _ := ⟨rfl, rfl, rfl⟩
  installed := .init

end Inv

/-- Every step of the machine keeps the invariant. -/
lemma Inv.step {s' : State σ ε} (h : Inv maxBatchSize fn v₀ s) (hstep : Step maxBatchSize fn s s') :
    Inv maxBatchSize fn v₀ s' := by
  rcases hstep with ⟨-, hact⟩ | ⟨-, henv⟩
  · exact h.act hact
  · exact h.env henv

/-- The invariant holds in every reachable state. -/
lemma Reachable.inv {readOnly : Bool} (h : Reachable maxBatchSize readOnly fn v₀ s) :
    Inv maxBatchSize fn v₀ s :=
  run_keeps (fun _ _ hinv hstep => hinv.step hstep) (Inv.init readOnly) h

end Vmbolt.Batching
