import Mathlib.Data.List.Perm.Subperm
import Vmbolt.Batch.Machine

/-!
# The invariant of `DB.Batch`

What holds in every state of the machine. A batch owes a message to the calls in `Batch.owed`; a
call is in the list of at most one batch, and it is owed a message exactly as long as none has been
sent to it. An effect is installed for the calls of a batch in the step that decides how their
`Update` ends, so the effect of a call is installed once if it ends with nil or with the panic of a
commit handler, and never otherwise.

`Shape.setBatch` and `Shape.setPc` say what is to be checked when a step moves one batch or one
call.
-/

namespace Vmbolt.Batching
variable {σ ε : Type}

/-- The run of the batch holds `batchMu`. -/
def Stage.holds : Stage ε → Bool
  | .locked | .stopped | .cleared => true
  | _ => false

/-- The run has not passed the statement that unsets `db.batch`. -/
def Stage.unread : Stage ε → Bool
  | .unstarted | .entered | .locked | .stopped => true
  | _ => false

/-- The run has not got to the end of an `Update` that can fail or send. -/
def Stage.early : Stage ε → Bool
  | .unstarted | .entered | .locked | .stopped | .cleared | .retry | .begun => true
  | _ => false

/-- How often the effect of a call that gets the message `err` is installed. -/
def worth : Option (Err ε) → ℕ
  | none => 1
  | some _ => 0

/-- How often the effect of a call is installed whose `Update` panics. -/
def Panic.worth : Panic ε → ℕ
  | .handler _ => 1
  | _ => 0

/-- How often the effect of a call is installed whose `Update` ends like this. -/
def Ends.worth : Ends ε → ℕ
  | .returned err => Batching.worth err
  | .panicked p => p.worth

/-- The number of times that the effect of a call which is still owed a message is installed. -/
def Stage.paid : Stage ε → ℕ
  | .closing ends _ => ends.worth
  | .sending _ err => worth err
  | .panicking p => p.worth
  | _ => 0

/-- The index at which the round has failed. -/
def Stage.failIdx : Stage ε → Option ℕ
  | .closing _ failIdx => failIdx
  | .failed i => some i
  | _ => none

/-- The panic that is leaving `Update`. -/
def Stage.panic : Stage ε → Option (Panic ε)
  | .closing (.panicked p) _ => some p
  | .panicking p => some p
  | _ => none

/-- The calls to which the batch still owes a message. -/
def Batch.owed (x : Batch ε) : List CallId :=
  match x.stage with
  | .removed c => c :: x.calls
  | .sending rest _ => rest
  | .done => []
  | _ => x.calls

/-- The call holds `batchMu`. -/
def Pc.holds : Pc ε → Bool
  | .locked | .chosen | .appended _ | .leaving _ => true
  | _ => false

/-- The batch to which the call has been appended. -/
def Pc.home : Pc ε → Option BatchId
  | .appended b | .leaving b | .waiting b | .solo b | .begun b | .closing b _ => some b
  | .returned b _ | .panicked b _ => some b
  | _ => none

/-- The calls return nil one after another, and lead from the first view to the second. -/
inductive Applies (fn : CallId → TxFn σ ε) : List CallId → σ → σ → Prop
  | nil {v} : Applies fn [] v v
  | cons {c cs v v'} : ((fn c).run v).result = .nil → Applies fn cs ((fn c).run v).view v' →
      Applies fn (c :: cs) v v'

/-- The view is what the installed updates make of `v₀`. -/
inductive Installed (fn : CallId → TxFn σ ε) (v₀ : σ) : List (Entry σ) → σ → Prop
  | init : Installed fn v₀ [] v₀
  | calls {h v cs w} : Installed fn v₀ h v → Applies fn cs v w →
      Installed fn v₀ (h ++ [.calls cs]) w
  | other {h v} (f : σ → σ) : Installed fn v₀ h v → Installed fn v₀ (h ++ [.other f]) (f v)

/-- What holds of a batch by itself. -/
structure BatchOK (maxBatchSize : ℤ) (x : Batch ε) : Prop where
  nodup : x.log.Nodup
  size : (x.log.length : ℤ) ≤ max 1 maxBatchSize
  calls_le : x.calls.length ≤ x.log.length
  owed : x.owed.Subperm x.log
  calls_eq : x.stage.unread = true → x.calls = x.log
  failIdx : ∀ i, x.stage.failIdx = some i → i < x.calls.length ∧ x.stage.paid = 0
  panic : ∀ p, x.stage.panic = some p → ∀ reason, p ≠ .fn reason
  unstarted : x.stage = .unstarted → x.runs = 0
  runs : x.runs ≤ 1

/-- The batch takes one more call. -/
def Batch.Room (maxBatchSize : ℤ) (x : Batch ε) : Prop :=
  x.calls = [] ∨ (x.calls.length : ℤ) < maxBatchSize

/-- A call in the list of the batch `x`: it is owed a message, or the message is in its channel. -/
def Pending (x : Batch ε) (c : CallId) (ch : Option (Option (Err ε))) (sent eff : ℕ) : Prop :=
  (c ∈ x.owed ∧ ch = none ∧ sent = 0 ∧ eff = x.stage.paid) ∨
    (c ∉ x.owed ∧ sent = 1 ∧ ∃ err, ch = some err ∧ eff = worth err)

/-- What holds of a call, from its place, its channel, the number of messages it has been sent and
the number of times its effect is installed. -/
def CallOK (batch : BatchId → Batch ε) (c : CallId) (p : Pc ε) (ch : Option (Option (Err ε)))
    (sent eff : ℕ) : Prop :=
  match p with
  | .idle | .entered | .locked | .chosen => ch = none ∧ sent = 0 ∧ eff = 0
  | .appended b | .leaving b | .waiting b => Pending (batch b) c ch sent eff
  | .solo b | .begun b => c ∉ (batch b).owed ∧ ch = none ∧ sent = 1 ∧ eff = 0
  | .closing b ends => c ∉ (batch b).owed ∧ ch = none ∧ sent = 1 ∧ eff = ends.worth ∧
      ends ≠ .returned (some .trySolo)
  | .returned b err => c ∉ (batch b).owed ∧ ch = none ∧ sent = 1 ∧ eff = worth err ∧
      err ≠ some .trySolo
  | .panicked b p => c ∉ (batch b).owed ∧ ch = none ∧ sent = 1 ∧ eff = p.worth

/-- Who holds the lock, where `db.batch` points, and which call is in the list of which batch. -/
structure Shape (maxBatchSize : ℤ) (s : State σ ε) : Prop where
  callMu : ∀ c, (s.pc c).holds = true ↔ s.batchMu = some (.call c)
  runMu : ∀ b, (s.batch b).stage.holds = true ↔ s.batchMu = some (.run b)
  current : ∀ b, s.current = some b → b < s.nextBatch ∧ (s.batch b).stage.unread = true
  chosen : ∀ c, s.pc c = .chosen → ∃ b, s.current = some b ∧ (s.batch b).Room maxBatchSize
  filling : ∀ c b, s.pc c = .appended b ∨ s.pc c = .leaving b → s.current = some b
  unused : ∀ b, s.nextBatch ≤ b → s.batch b = .unallocated
  idle : ∀ c, s.nextCall ≤ c → s.pc c = .idle
  home : ∀ b c, c ∈ (s.batch b).log ↔ (s.pc c).home = some b
  batch : ∀ b, BatchOK maxBatchSize (s.batch b)
  startable : ∀ b, b < s.nextBatch → (s.batch b).stage = .unstarted →
    (s.batch b).timer = true ∨ 0 < (s.batch b).triggers

/-- What holds in every reachable state. -/
structure Inv (maxBatchSize : ℤ) (fn : CallId → TxFn σ ε) (v₀ : σ) (s : State σ ε) : Prop where
  shape : Shape maxBatchSize s
  call : ∀ c, CallOK s.batch c (s.pc c) (s.errCh c) (s.sent c) (s.effects c)
  installed : Installed fn v₀ s.history s.view

/-! ### One round of the retry loop -/

lemma safelyCall_of_nil {fn : TxFn σ ε} {v : σ} (h : (fn.run v).result = .nil) :
    safelyCall fn v = fn.run v := by
  simp only [safelyCall, h]

lemma safelyCall_of_ne_nil {fn : TxFn σ ε} {v : σ} (h : (fn.run v).result ≠ .nil) :
    ∃ e, (safelyCall fn v).result = .error e := by
  cases hr : (fn.run v).result with
  | nil => exact absurd hr h
  | error e => exact ⟨e, by simp only [safelyCall, hr]⟩
  | panic reason => exact ⟨.panicked reason, by simp only [safelyCall, hr]⟩

/-- The function of a batch returns nil exactly when all its calls do, and otherwise leaves the
index of a call in `failIdx`. -/
lemma runCalls_cases (fn : CallId → TxFn σ ε) (i : ℕ) (cs : List CallId) (v : σ) :
    ((runCalls fn i cs v).1.result = .nil ∧ (runCalls fn i cs v).2 = none ∧
        Applies fn cs v (runCalls fn i cs v).1.view) ∨
      ∃ e j, (runCalls fn i cs v).1.result = .error e ∧ (runCalls fn i cs v).2 = some j ∧
        i ≤ j ∧ j < i + cs.length := by
  induction cs generalizing i v with
  | nil => exact .inl ⟨rfl, rfl, .nil⟩
  | cons c cs ih =>
    by_cases hr : ((fn c).run v).result = .nil
    · have hrun : runCalls fn i (c :: cs) v =
          ({ (runCalls fn (i + 1) cs ((fn c).run v).view).1 with
              handlers := ((fn c).run v).handlers <|>
                (runCalls fn (i + 1) cs ((fn c).run v).view).1.handlers },
            (runCalls fn (i + 1) cs ((fn c).run v).view).2) := by
        simp only [runCalls, safelyCall_of_nil hr, hr]
      rw [hrun]
      rcases ih (i + 1) ((fn c).run v).view with ⟨hnil, hidx, happ⟩ | ⟨e, j, he, hidx, hij, hj⟩
      · exact .inl ⟨hnil, hidx, .cons hr happ⟩
      · exact .inr ⟨e, j, he, hidx, by omega, by rw [List.length_cons]; omega⟩
    · obtain ⟨e, he⟩ := safelyCall_of_ne_nil hr
      have hrun : runCalls fn i (c :: cs) v = (safelyCall (fn c) v, some i) := by
        simp only [runCalls, he]
      rw [hrun]
      exact .inr ⟨e, i, he, rfl, le_rfl, by simp⟩

/-- A round installs the effects of all calls, fails with no `failIdx`, panics in `Commit`, or fails
at one call. What it installs is an update whose calls all returned nil. -/
lemma attempt_cases (fn : CallId → TxFn σ ε) (opened : Bool) (fate : Fate ε) (cs : List CallId)
    (v : σ) :
    (∃ w handlers, attempt fn opened fate cs v = (.installed w handlers, none) ∧
        Applies fn cs v w) ∨
      (∃ e, attempt fn opened fate cs v = (.failed e, none)) ∨
      (∃ reason, attempt fn opened fate cs v = (.panicked (.commit reason), none)) ∨
      ∃ e i, attempt fn opened fate cs v = (.failed e, some i) ∧ i < cs.length := by
  cases opened with
  | false => exact .inr (.inl ⟨.databaseNotOpen, rfl⟩)
  | true =>
    rcases runCalls_cases fn 0 cs v with ⟨hnil, hidx, happ⟩ | ⟨e, j, he, hidx, -, hj⟩
    · cases fate with
      | stores =>
        exact .inl ⟨_, (runCalls fn 0 cs v).1.handlers,
          by simp only [attempt, update, hnil, hidx, if_true], happ⟩
      | fails e => exact .inr (.inl ⟨.error e, by simp only [attempt, update, hnil, hidx, if_true]⟩)
      | panics reason =>
        exact .inr (.inr (.inl ⟨reason, by simp only [attempt, update, hnil, hidx, if_true]⟩))
    · exact .inr (.inr (.inr ⟨e, j, by simp only [attempt, update, he, hidx, if_true], by omega⟩))

/-- An `Update` installs the effect of its function, fails, or panics before it installs
anything. -/
lemma update_cases (opened : Bool) (fate : Fate ε) (fn : TxFn σ ε) (v : σ) :
    (∃ handlers, update opened fate fn.run v = .installed (fn.run v).view handlers ∧
        (fn.run v).result = .nil) ∨
      (∃ e, update opened fate fn.run v = .failed e ∧ e ≠ .trySolo) ∨
      ∃ p, update opened fate fn.run v = .panicked p ∧ p.worth = 0 := by
  cases opened with
  | false => exact .inr (.inl ⟨.databaseNotOpen, rfl, by rintro ⟨⟩⟩)
  | true =>
    cases hr : (fn.run v).result with
    | nil =>
      cases fate with
      | stores => exact .inl ⟨(fn.run v).handlers, by simp only [update, hr, if_true], rfl⟩
      | fails e =>
        exact .inr (.inl ⟨.error e, by simp only [update, hr, if_true], by rintro ⟨⟩⟩)
      | panics reason =>
        exact .inr (.inr ⟨.commit reason, by simp only [update, hr, if_true], rfl⟩)
    | error e =>
      refine .inr (.inl ⟨e, by simp only [update, hr, if_true], ?_⟩)
      rintro rfl
      exact fn.not_trySolo v hr
    | panic reason => exact .inr (.inr ⟨.fn reason, by simp only [update, hr, if_true], rfl⟩)

/-- The handlers of an installed update cannot take it back. -/
lemma worth_of_installed (v : σ) (handlers : Option ε) :
    (Updated.installed v handlers).ends.worth = 1 := by
  cases handlers <;> rfl

/-- Swapping a call out keeps the others. -/
lemma swapRemove_perm {cs : List CallId} {i : ℕ} {c : CallId} (hc : cs[i]? = some c) :
    (c :: swapRemove cs i).Perm cs := by
  obtain ⟨hi, hci⟩ := List.getElem?_eq_some_iff.mp hc
  have hne : cs ≠ [] := List.ne_nil_of_length_pos (by omega)
  obtain ⟨init, last, rfl⟩ : ∃ init last, cs = init ++ [last] :=
    ⟨cs.dropLast, cs.getLast hne, (List.dropLast_append_getLast hne).symm⟩
  have hrem : swapRemove (init ++ [last]) i = ((init ++ [last]).set i last).dropLast := by
    simp [swapRemove]
  rw [hrem]
  by_cases hlt : i < init.length
  · have hget : init[i] = c := by rw [← hci, List.getElem_append_left hlt]
    rw [List.set_append_left _ _ hlt, List.dropLast_concat]
    have hset : (c :: init.set i last).Perm (c :: last :: init.eraseIdx i) :=
      (List.set_perm_cons_eraseIdx hlt last).cons c
    have hput : (c :: init.eraseIdx i).Perm init := by
      rw [← hget]
      exact List.getElem_cons_eraseIdx_perm hlt
    exact (hset.trans (List.Perm.swap last c _)).trans
      ((hput.cons last).trans (List.perm_append_singleton last init).symm)
  · have hi' : i = init.length := by simp at hi; omega
    subst hi'
    have hcl : c = last := by simpa using hci.symm
    subst hcl
    have hset : ((init ++ [c]).set init.length c).dropLast = init := by simp
    rw [hset]
    exact (List.perm_append_singleton c init).symm

/-! ### Moving one batch, one call, one message -/

lemma effects_install (s : State σ ε) (v : σ) (e : Entry σ) (c : CallId) :
    (s.install v e).effects c = s.effects c + e.effects.count c := by
  simp [State.effects, State.install, List.count_append]

@[simp] lemma State.setBatch_self (s : State σ ε) (b : BatchId) (x : Batch ε) :
    (s.setBatch b x).batch b = x := Function.update_self ..

lemma State.setBatch_of_ne (s : State σ ε) {b d : BatchId} (x : Batch ε) (hd : d ≠ b) :
    (s.setBatch b x).batch d = s.batch d := Function.update_of_ne hd ..

/-- A timer that fires turns into a goroutine at `start.Do`. -/
lemma State.fire_eq (s : State σ ε) (b : BatchId) :
    (s.setBatch b { s.batch b with timer := false }).spawn b =
      s.setBatch b { s.batch b with timer := false, triggers := (s.batch b).triggers + 1 } := by
  simp [State.spawn, State.setBatch]

/-- What holds of a call depends on its batch only through what the batch owes it. -/
lemma CallOK.of_owed {batch : BatchId → Batch ε} {c : CallId} {p : Pc ε}
    {ch : Option (Option (Err ε))} {n eff : ℕ} {b : BatchId} {x : Batch ε}
    (h : CallOK batch c p ch n eff) (howed : c ∈ x.owed ↔ c ∈ (batch b).owed)
    (hpaid : c ∈ (batch b).owed → x.stage.paid = (batch b).stage.paid) :
    CallOK (Function.update batch b x) c p ch n eff := by
  have howed' : ∀ d, c ∈ (Function.update batch b x d).owed ↔ c ∈ (batch d).owed :=
    (Function.forall_update_iff batch fun d y => c ∈ y.owed ↔ c ∈ (batch d).owed).mpr
      ⟨howed, fun _ _ => Iff.rfl⟩
  have hpaid' : ∀ d, c ∈ (batch d).owed →
      (Function.update batch b x d).stage.paid = (batch d).stage.paid :=
    (Function.forall_update_iff batch fun d y => c ∈ (batch d).owed →
      y.stage.paid = (batch d).stage.paid).mpr ⟨hpaid, fun _ _ _ => rfl⟩
  have hpend : ∀ d, Pending (batch d) c ch n eff →
      Pending (Function.update batch b x d) c ch n eff := by
    rintro d (⟨hc, hch, hn, he⟩ | ⟨hc, hrest⟩)
    · exact .inl ⟨(howed' d).mpr hc, hch, hn, he.trans (hpaid' d hc).symm⟩
    · exact .inr ⟨fun hc' => hc ((howed' d).mp hc'), hrest⟩
  cases p with
  | idle | entered | locked | chosen => exact h
  | appended d | leaving d | waiting d => exact hpend d h
  | solo d | begun d | closing d _ | returned d _ | panicked d _ =>
    exact ⟨fun hc => h.1 ((howed' d).mp hc), h.2⟩

/-- A call that is owed a message has got none, and is bound to receive the one it is sent. -/
lemma CallOK.of_mem_owed {batch : BatchId → Batch ε} {c : CallId} {p : Pc ε}
    {ch : Option (Option (Err ε))} {n eff : ℕ} {b : BatchId} (h : CallOK batch c p ch n eff)
    (hhome : p.home = some b) (hc : c ∈ (batch b).owed) :
    ch = none ∧ n = 0 ∧ eff = (batch b).stage.paid ∧
      ∀ (batch' : BatchId → Batch ε) ch' n' eff', Pending (batch' b) c ch' n' eff' →
        CallOK batch' c p ch' n' eff' := by
  cases p with
  | idle | entered | locked | chosen => cases hhome
  | appended d | leaving d | waiting d =>
    cases hhome
    rcases h with ⟨-, hch, hn, heff⟩ | ⟨hc', -⟩
    · exact ⟨hch, hn, heff, fun _ _ _ _ h' => h'⟩
    · exact absurd hc hc'
  | solo d | begun d | closing d _ | returned d _ | panicked d _ =>
    cases hhome
    exact absurd hc h.1

lemma BatchOK.owed_nodup {maxBatchSize : ℤ} {x : Batch ε} (h : BatchOK maxBatchSize x) :
    x.owed.Nodup := by
  obtain ⟨l, hperm, hsub⟩ := h.owed
  exact hperm.nodup_iff.mp (h.nodup.sublist hsub)

/-- Between two rounds a batch owes a message to all its calls. -/
lemma Batch.owed_of_early {x : Batch ε} (h : x.stage.early = true) : x.owed = x.calls := by
  rcases hst : x.stage <;> simp [Batch.owed, hst, Stage.early] at h ⊢

lemma Stage.paid_of_early {st : Stage ε} (h : st.early = true) : st.paid = 0 := by
  cases st <;> simp [Stage.early, Stage.paid] at h ⊢

lemma Stage.failIdx_of_early {st : Stage ε} (h : st.early = true) : st.failIdx = none := by
  cases st <;> simp [Stage.early, Stage.failIdx] at h ⊢

lemma Stage.panic_of_early {st : Stage ε} (h : st.early = true) : st.panic = none := by
  cases st <;> simp [Stage.early, Stage.panic] at h ⊢

lemma Stage.early_of_unread {st : Stage ε} (h : st.unread = true) : st.early = true := by
  cases st <;> simp [Stage.unread, Stage.early] at h ⊢

lemma Batch.owed_of_unread {x : Batch ε} (h : x.stage.unread = true) : x.owed = x.calls :=
  Batch.owed_of_early (Stage.early_of_unread h)

/-- A batch keeps its invariant as long as its run is between two rounds. -/
lemma BatchOK.early {maxBatchSize : ℤ} {x y : Batch ε} (h : BatchOK maxBatchSize x)
    (hx : x.stage.early = true) (hy : y.stage.early = true) (hcalls : y.calls = x.calls)
    (hlog : y.log = x.log) (hunread : y.stage.unread = true → x.stage.unread = true)
    (hne : y.stage ≠ .unstarted) (hruns : y.runs ≤ 1) : BatchOK maxBatchSize y where
  nodup := hlog ▸ h.nodup
  size := hlog ▸ h.size
  calls_le := by
    rw [hcalls, hlog]
    exact h.calls_le
  owed := by
    rw [Batch.owed_of_early hy, hcalls, hlog, ← Batch.owed_of_early hx]
    exact h.owed
  calls_eq hst := by
    rw [hcalls, hlog]
    exact h.calls_eq (hunread hst)
  failIdx i hi := by
    rw [Stage.failIdx_of_early hy] at hi
    cases hi
  panic p hp := by
    rw [Stage.panic_of_early hy] at hp
    cases hp
  unstarted hst := absurd hst hne
  runs := hruns

lemma BatchOK.push {maxBatchSize : ℤ} {x : Batch ε} {c : CallId} (h : BatchOK maxBatchSize x)
    (hunread : x.stage.unread = true) (hroom : x.Room maxBatchSize) (hc : c ∉ x.log) :
    BatchOK maxBatchSize (x.push c) where
  nodup := List.nodup_append.mpr ⟨h.nodup, List.nodup_singleton c, fun d hd e he hde =>
    hc (List.mem_singleton.mp he ▸ hde ▸ hd)⟩
  size := by
    have hsize : (x.log.length : ℤ) + 1 ≤ max 1 maxBatchSize := by
      rw [Batch.Room, h.calls_eq hunread] at hroom
      rcases hroom with hnil | hlt
      · rw [hnil]
        exact le_max_left _ _
      · exact le_max_of_le_right hlt
    simpa [Batch.push] using hsize
  calls_le := by simpa [Batch.push] using h.calls_le
  owed := by
    have howed : (x.push c).owed = (x.push c).log := by
      rw [Batch.owed_of_unread (x := x.push c) hunread]
      exact congrArg (· ++ [c]) (h.calls_eq hunread)
    rw [howed]
  calls_eq _ := congrArg (· ++ [c]) (h.calls_eq hunread)
  failIdx i hi := by
    have hnone : (x.push c).stage.failIdx = none :=
      Stage.failIdx_of_early (Stage.early_of_unread hunread)
    rw [hnone] at hi
    cases hi
  panic := h.panic
  unstarted := h.unstarted
  runs := h.runs

section Moves
variable {maxBatchSize : ℤ} {s : State σ ε}

namespace Shape

variable {b : BatchId} {c : CallId} (h : Shape maxBatchSize s)
include h

/-- A call to which a batch owes a message is in the list of that batch and of no other. -/
lemma home_of_owed (hc : c ∈ (s.batch b).owed) : (s.pc c).home = some b :=
  (h.home b c).mp ((h.batch b).owed.subset hc)

/-- Who is between `Lock` and `Unlock` holds the lock. -/
lemma mu_of_holds {p : Pc ε} (hpc : s.pc c = p) (hp : p.holds = true) :
    s.batchMu = some (.call c) :=
  (h.callMu c).mp (by rw [hpc]; exact hp)

/-- No two calls are between `Lock` and `Unlock`. -/
lemma eq_of_holds {c d : CallId} {p q : Pc ε} (hc : s.pc c = p) (hp : p.holds = true)
    (hd : s.pc d = q) (hq : q.holds = true) : d = c := by
  have hmu := (h.mu_of_holds hd hq).symm.trans (h.mu_of_holds hc hp)
  injection hmu with hmu
  injection hmu

/-- A batch that has been triggered or started is allocated. -/
lemma lt_nextBatch (hb : s.batch b ≠ .unallocated) : b < s.nextBatch := by
  by_contra hlt
  exact hb (h.unused b (not_lt.mp hlt))

/-- A step may replace a batch, if it keeps its log. It may take or release the lock for the batch,
and unset `db.batch` when no call holds the lock. -/
lemma setBatch {x : Batch ε} {mu : Option Holder} {cur : Option BatchId} (hb : b < s.nextBatch)
    (hok : BatchOK maxBatchSize x) (hself : x.stage.holds = true ↔ mu = some (.run b))
    (hrun : ∀ d, d ≠ b → (s.batchMu = some (.run d) ↔ mu = some (.run d)))
    (hcall : ∀ c, s.batchMu = some (.call c) ↔ mu = some (.call c))
    (hcur : ∀ d, cur = some d → s.current = some d)
    (hkeep : ∀ c, s.batchMu = some (.call c) → cur = s.current)
    (hunread : cur = some b → x.stage.unread = true ∧ x.calls = (s.batch b).calls)
    (hlog : x.log = (s.batch b).log)
    (hstart : x.stage = .unstarted → x.timer = true ∨ 0 < x.triggers) :
    Shape maxBatchSize (((s.setMu mu).setCurrent cur).setBatch b x) where
  callMu c := (h.callMu c).trans (hcall c)
  runMu := (Function.forall_update_iff s.batch fun d y =>
    y.stage.holds = true ↔ mu = some (.run d)).mpr
      ⟨hself, fun d hd => (h.runMu d).trans (hrun d hd)⟩
  current := (Function.forall_update_iff s.batch fun d y =>
    cur = some d → d < s.nextBatch ∧ y.stage.unread = true).mpr
      ⟨fun hc => ⟨hb, (hunread hc).1⟩, fun d _ hd => h.current d (hcur d hd)⟩
  chosen c hc := by
    obtain ⟨d, hd, hroom⟩ := h.chosen c hc
    have hd' : cur = some d := (hkeep c (h.mu_of_holds hc rfl)).trans hd
    refine ⟨d, hd', ?_⟩
    by_cases hdb : d = b
    · subst hdb
      rw [State.setBatch_self, Batch.Room, (hunread hd').2]
      exact hroom
    · rw [State.setBatch_of_ne _ x hdb]
      exact hroom
  filling c d hc :=
    (hkeep c (hc.elim (h.mu_of_holds · rfl) (h.mu_of_holds · rfl))).trans (h.filling c d hc)
  unused := (Function.forall_update_iff s.batch fun d y => s.nextBatch ≤ d → y = .unallocated).mpr
    ⟨fun hle => absurd hb (not_lt.mpr hle), fun d _ => h.unused d⟩
  idle := h.idle
  home := (Function.forall_update_iff s.batch fun d y =>
    ∀ c, c ∈ y.log ↔ (s.pc c).home = some d).mpr
      ⟨fun c => by rw [hlog]; exact h.home b c, fun d _ => h.home d⟩
  batch := (Function.forall_update_iff s.batch fun _ y => BatchOK maxBatchSize y).mpr
    ⟨hok, fun d _ => h.batch d⟩
  startable := (Function.forall_update_iff s.batch fun d y =>
    d < s.nextBatch → y.stage = .unstarted → y.timer = true ∨ 0 < y.triggers).mpr
      ⟨fun _ => hstart, fun d _ => h.startable d⟩

/-- A step may replace a batch without touching the lock and `db.batch`. -/
lemma setBatch_keep {x : Batch ε} (hb : b < s.nextBatch) (hok : BatchOK maxBatchSize x)
    (hholds : x.stage.holds = (s.batch b).stage.holds)
    (hunread : (s.batch b).stage.unread = true → x.stage.unread = true ∧
      x.calls = (s.batch b).calls)
    (hlog : x.log = (s.batch b).log)
    (hstart : x.stage = .unstarted → x.timer = true ∨ 0 < x.triggers) :
    Shape maxBatchSize (s.setBatch b x) :=
  h.setBatch hb hok (by rw [hholds]; exact h.runMu b) (fun _ _ => Iff.rfl) (fun _ => Iff.rfl)
    (fun _ hd => hd) (fun _ _ => rfl) (fun hc => hunread (h.current b hc).2) hlog hstart

/-- A step may move a call within its batch. It may take or release the lock for the call. -/
lemma setPc {p : Pc ε} {mu : Option Holder} (hidle : s.pc c ≠ .idle)
    (hself : p.holds = true ↔ mu = some (.call c))
    (hcall : ∀ d, d ≠ c → (s.batchMu = some (.call d) ↔ mu = some (.call d)))
    (hrun : ∀ b, s.batchMu = some (.run b) ↔ mu = some (.run b)) (hhome : p.home = (s.pc c).home)
    (hchosen : p = .chosen → ∃ b, s.current = some b ∧ (s.batch b).Room maxBatchSize)
    (hfilling : ∀ b, p = .appended b ∨ p = .leaving b → s.current = some b) :
    Shape maxBatchSize ((s.setMu mu).setPc c p) where
  callMu := (Function.forall_update_iff s.pc fun d q => q.holds = true ↔ mu = some (.call d)).mpr
    ⟨hself, fun d hd => (h.callMu d).trans (hcall d hd)⟩
  runMu b := (h.runMu b).trans (hrun b)
  current := h.current
  chosen := (Function.forall_update_iff s.pc fun _ q => q = .chosen → ∃ b, s.current = some b ∧
    (s.batch b).Room maxBatchSize).mpr
      ⟨hchosen, fun d _ => h.chosen d⟩
  filling := (Function.forall_update_iff s.pc fun _ q =>
    ∀ b, q = .appended b ∨ q = .leaving b → s.current = some b).mpr
      ⟨hfilling, fun d _ => h.filling d⟩
  unused := h.unused
  idle := (Function.forall_update_iff s.pc fun d q => s.nextCall ≤ d → q = .idle).mpr
    ⟨fun hle => absurd (h.idle c hle) hidle, fun d _ => h.idle d⟩
  home b := (Function.forall_update_iff s.pc fun d q =>
    d ∈ (s.batch b).log ↔ q.home = some b).mpr
      ⟨by rw [hhome]; exact h.home b c, fun d _ => h.home b d⟩
  batch := h.batch
  startable := h.startable

/-- A step may move a call without touching the lock. -/
lemma setPc_keep {p : Pc ε} (hidle : s.pc c ≠ .idle) (hholds : p.holds = (s.pc c).holds)
    (hhome : p.home = (s.pc c).home)
    (hchosen : p = .chosen → ∃ b, s.current = some b ∧ (s.batch b).Room maxBatchSize)
    (hfilling : ∀ b, p = .appended b ∨ p = .leaving b → s.current = some b) :
    Shape maxBatchSize (s.setPc c p) :=
  h.setPc hidle (by rw [hholds]; exact h.callMu c) (fun _ _ => Iff.rfl) (fun _ => Iff.rfl) hhome
    hchosen hfilling

/-- The batch that `Batch` allocates belongs to no call yet. -/
lemma choose (hpc : s.pc c = .locked) :
    Shape maxBatchSize (s.choose maxBatchSize) ∧
      ∃ b, (s.choose maxBatchSize).current = some b ∧
        ((s.choose maxBatchSize).batch b).Room maxBatchSize := by
  have hmu : s.batchMu = some (.call c) := h.mu_of_holds hpc rfl
  by_cases hneeds : s.needsBatch maxBatchSize = true
  · have hfresh := h.unused s.nextBatch le_rfl
    -- the holder of the lock is at `locked`, so no call relies on the old `db.batch`
    have hnone : ∀ {d q}, s.pc d = q → q.holds = true → q = .locked := by
      intro d q hd hq
      have := h.eq_of_holds hpc rfl hd hq
      subst this
      exact hd.symm.trans hpc
    have hchoose : s.choose maxBatchSize =
        { (s.setBatch s.nextBatch .new).setCurrent (some s.nextBatch) with
          nextBatch := s.nextBatch + 1 } := by
      rw [State.choose, if_pos hneeds]
    rw [hchoose]
    refine ⟨?_, s.nextBatch, rfl, .inl ?_⟩
    · exact {
        callMu := h.callMu
        runMu := (Function.forall_update_iff s.batch fun d y =>
          y.stage.holds = true ↔ s.batchMu = some (.run d)).mpr
            ⟨by rw [hmu]; simp [Batch.new, Stage.holds], fun d _ => h.runMu d⟩
        current := (Function.forall_update_iff s.batch fun d y =>
          some s.nextBatch = some d → d < s.nextBatch + 1 ∧ y.stage.unread = true).mpr
            ⟨fun _ => ⟨Nat.lt_succ_self _, rfl⟩,
              fun d hd hc => absurd (Option.some.inj hc).symm hd⟩
        chosen := fun d hd => by cases hnone hd rfl
        filling := fun d b hd => by
          rcases hd with hd | hd
          · cases hnone hd rfl
          · cases hnone hd rfl
        unused := (Function.forall_update_iff s.batch fun d y =>
          s.nextBatch + 1 ≤ d → y = .unallocated).mpr
            ⟨fun hle => absurd hle (Nat.not_succ_le_self _),
              fun d _ hd => h.unused d (Nat.le_of_succ_le hd)⟩
        idle := h.idle
        home := (Function.forall_update_iff s.batch fun d y =>
          ∀ c, c ∈ y.log ↔ (s.pc c).home = some d).mpr
            ⟨fun d => by
              have := h.home s.nextBatch d
              rw [hfresh] at this
              exact this, fun d _ => h.home d⟩
        batch := (Function.forall_update_iff s.batch fun _ y => BatchOK maxBatchSize y).mpr
          ⟨{ nodup := List.nodup_nil
             size := by simp [Batch.new]
             calls_le := le_rfl
             owed := List.Subperm.refl _
             calls_eq := fun _ => rfl
             failIdx := fun i hi => by cases hi
             panic := fun p hp => by cases hp
             unstarted := fun _ => rfl
             runs := Nat.zero_le 1 }, fun d _ => h.batch d⟩
        startable := (Function.forall_update_iff s.batch fun d y =>
          d < s.nextBatch + 1 → y.stage = .unstarted → y.timer = true ∨ 0 < y.triggers).mpr
            ⟨fun _ _ => .inl rfl, fun d hd hlt => h.startable d
              (lt_of_le_of_ne (Nat.le_of_lt_succ hlt) hd)⟩ }
    · exact congrArg Batch.calls (Function.update_self s.nextBatch _ s.batch)
  · have hchoose : s.choose maxBatchSize = s := by
      rw [State.choose, if_neg hneeds]
    rw [hchoose]
    refine ⟨h, ?_⟩
    rcases hcur : s.current with _ | b
    · exact absurd (by rw [State.needsBatch, hcur]) hneeds
    · refine ⟨b, rfl, .inr ?_⟩
      rw [State.needsBatch, hcur] at hneeds
      simpa using hneeds

/-- The append puts the call that holds the lock into the list of `db.batch`. -/
lemma append (hpc : s.pc c = .chosen) (hcur : s.current = some b) :
    Shape maxBatchSize ((s.setBatch b ((s.batch b).push c)).setPc c (.appended b)) := by
  obtain ⟨hb, hunread⟩ := h.current b hcur
  have hnew : c ∉ (s.batch b).log := by
    rw [h.home b c, hpc]
    exact fun hc => by cases hc
  have hroom : (s.batch b).Room maxBatchSize := by
    obtain ⟨d, hd, hroom⟩ := h.chosen c hpc
    cases hcur.symm.trans hd
    exact hroom
  have hhome : ∀ e, e ∈ ((s.batch b).push c).log ↔
      ((Function.update s.pc c (.appended b)) e).home = some b := by
    intro e
    by_cases he : e = c
    · subst he
      rw [Function.update_self]
      simp [Pc.home, Batch.push]
    · rw [Function.update_of_ne he, ← h.home b e]
      simp [he, Batch.push]
  have hother : ∀ d, d ≠ b → ∀ e, e ∈ (s.batch d).log ↔
      ((Function.update s.pc c (.appended b)) e).home = some d := by
    intro d hd e
    by_cases he : e = c
    · subst he
      rw [Function.update_self, h.home d e, hpc]
      simp [Pc.home, Ne.symm hd]
    · rw [Function.update_of_ne he]
      exact h.home d e
  exact {
    callMu := (Function.forall_update_iff s.pc fun d q =>
      q.holds = true ↔ s.batchMu = some (.call d)).mpr
        ⟨iff_of_true rfl (h.mu_of_holds hpc rfl), fun d _ => h.callMu d⟩
    runMu := (Function.forall_update_iff s.batch fun d y =>
      y.stage.holds = true ↔ s.batchMu = some (.run d)).mpr ⟨h.runMu b, fun d _ => h.runMu d⟩
    current := (Function.forall_update_iff s.batch fun d y =>
      s.current = some d → d < s.nextBatch ∧ y.stage.unread = true).mpr
        ⟨fun _ => ⟨hb, hunread⟩, fun d _ => h.current d⟩
    -- the lock lets no second call be about to append
    chosen := (Function.forall_update_iff s.pc fun _ q => q = .chosen → ∃ d, s.current = some d ∧
      ((s.setBatch b ((s.batch b).push c)).batch d).Room maxBatchSize).mpr
        ⟨(by rintro ⟨⟩), fun d hd hc =>
          absurd (h.eq_of_holds hpc rfl (hc : s.pc d = .chosen) rfl) hd⟩
    filling := (Function.forall_update_iff s.pc fun _ q =>
      ∀ d, q = .appended d ∨ q = .leaving d → s.current = some d).mpr
        ⟨(by rintro d (hd | hd) <;> cases hd; exact hcur), fun d _ => h.filling d⟩
    unused := (Function.forall_update_iff s.batch fun d y => s.nextBatch ≤ d → y = .unallocated).mpr
      ⟨fun hle => absurd hb (not_lt.mpr hle), fun d _ => h.unused d⟩
    idle := (Function.forall_update_iff s.pc fun d q => s.nextCall ≤ d → q = .idle).mpr
      ⟨fun hle => absurd (hpc.symm.trans (h.idle c hle)) (by rintro ⟨⟩), fun d _ => h.idle d⟩
    home := (Function.forall_update_iff s.batch fun d y => ∀ e, e ∈ y.log ↔
      ((Function.update s.pc c (.appended b)) e).home = some d).mpr ⟨hhome, hother⟩
    batch := (Function.forall_update_iff s.batch fun _ y => BatchOK maxBatchSize y).mpr
      ⟨(h.batch b).push hunread hroom hnew, fun d _ => h.batch d⟩
    startable := (Function.forall_update_iff s.batch fun d y =>
      d < s.nextBatch → y.stage = .unstarted → y.timer = true ∨ 0 < y.triggers).mpr
        ⟨h.startable b, fun d _ => h.startable d⟩ }

/-- A new call of `Batch`. -/
lemma call :
    Shape maxBatchSize { s.setPc s.nextCall .entered with nextCall := s.nextCall + 1 } := by
  have hidle := h.idle s.nextCall le_rfl
  exact {
    callMu := (Function.forall_update_iff s.pc fun d q =>
      q.holds = true ↔ s.batchMu = some (.call d)).mpr
        ⟨by
          have hmu := h.callMu s.nextCall
          rw [hidle] at hmu
          exact hmu, fun d _ => h.callMu d⟩
    runMu := h.runMu
    current := h.current
    chosen := (Function.forall_update_iff s.pc fun _ q => q = .chosen → ∃ d, s.current = some d ∧
      (s.batch d).Room maxBatchSize).mpr ⟨(by rintro ⟨⟩), fun d _ => h.chosen d⟩
    filling := (Function.forall_update_iff s.pc fun _ q =>
      ∀ d, q = .appended d ∨ q = .leaving d → s.current = some d).mpr
        ⟨(by rintro d (hd | hd) <;> cases hd), fun d _ => h.filling d⟩
    unused := h.unused
    idle := (Function.forall_update_iff s.pc fun d q => s.nextCall + 1 ≤ d → q = .idle).mpr
      ⟨fun hle => absurd hle (Nat.not_succ_le_self _),
        fun d _ hd => h.idle d (Nat.le_of_succ_le hd)⟩
    home := fun b => (Function.forall_update_iff s.pc fun d q =>
      d ∈ (s.batch b).log ↔ q.home = some b).mpr
        ⟨by
          have hhome := h.home b s.nextCall
          rw [hidle] at hhome
          exact hhome, fun d _ => h.home b d⟩
    batch := h.batch
    startable := h.startable }

end Shape

end Moves

end Vmbolt.Batching
