import Vmbolt.Directory.Views
import Vmbolt.Snapshot.Total

/-!
# Creating and deleting buckets

The calls on the directory of one write transaction, next to a plain model (`Dir`): the set of the
names that are there and the maps of the buckets that were created. The transaction and the model
agree up to the first `DeleteBucket` of a committed name that was deleted before: deleting it a
second time is not refused, and if it was created in between, the committed bucket comes back.
-/

namespace Vmbolt
open Filter Prog

/-- A call on the directory, or a `Put` into a bucket that the transaction has created. -/
inductive DirOp where
  | createBucket (name : Name)
  | createBucketIfNotExists (name : Name)
  | deleteBucket (name : Name)
  | bucket (name : Name)
  | put (name : Name) (key : Bytes) (value : Option Bytes)
  deriving DecidableEq

/-- The plain model: the names that are there, and the maps of those that were created. -/
structure Dir where
  present : Finset Name
  data : SortedMap Name (SortedMap Bytes Bytes)

/-- The model at the begin of a transaction. -/
def Dir.of (st : DbState) : Dir := ⟨st.buckets.keys.toFinset, .empty⟩

/-- The model with a new bucket. -/
def Dir.add (d : Dir) (name : Name) : Dir := ⟨insert name d.present, d.data.insert name .empty⟩

namespace DirOp

/-- The name a call is about. -/
def name : DirOp → Name
  | createBucket name => name
  | createBucketIfNotExists name => name
  | deleteBucket name => name
  | bucket name => name
  | put name _ _ => name

/-- The error and the handle of a call that returns one of them. -/
def outcome : Except Err BucketId → Option Err × Option BucketId
  | .error e => (some e, none)
  | .ok b => (none, some b)

/-- Perform a call: the error and the handle that it returns. -/
def run (fuel : Nat) (t : TxId) : DirOp → Go (Option Err × Option BucketId)
  | createBucket name => do
    let r ← Tx.createBucket t name
    pure (outcome r)
  | createBucketIfNotExists name => do
    let r ← Tx.createBucketIfNotExists t name
    pure (outcome r)
  | deleteBucket name => do
    let e ← Tx.deleteBucket t name
    pure (e, none)
  | bucket name => do
    let b ← Tx.bucket t name
    pure (none, b)
  | put name key value => do
    let b ← Tx.bucket t name
    match b with
    | none => pure (none, none)
    | some b => do
      let e ← Bucket.put fuel b key value
      pure (e, some b)

/-- A call on the model: the error, whether there is a handle, and the model afterwards. -/
def step (d : Dir) : DirOp → (Option Err × Bool) × Dir
  | createBucket name =>
    if name = [] then ((some .bucketNameRequired, false), d)
    else if name ∈ d.present then ((some .bucketExists, false), d)
    else ((none, true), d.add name)
  | createBucketIfNotExists name =>
    if name = [] then ((some .bucketNameRequired, false), d)
    else if name ∈ d.present then ((none, true), d)
    else ((none, true), d.add name)
  | deleteBucket name =>
    if name ∈ d.present then ((none, false), ⟨d.present.erase name, d.data.erase name⟩)
    else ((some .bucketNotFound, false), d)
  | bucket name => ((none, decide (name ∈ d.present)), d)
  | put name key value => (((BucketOp.put key value).result, true),
      { d with
        data := d.data.insert name
          ((BucketOp.put key value).apply ((d.data.get name).getD .empty)) })

/-- Only buckets that were created are written. -/
def Fits (d : Dir) : DirOp → Prop
  | put name _ _ => (d.data.get name).isSome
  | _ => True

/-- The same for a sequence of calls. -/
def FitAll : Dir → List DirOp → Prop
  | _, [] => True
  | d, op :: ops => op.Fits d ∧ FitAll (op.step d).2 ops

end DirOp

/-- The transaction shows the names of the model, and the maps of the buckets that were created. -/
structure Visible (w : World) (t : TxId) (d : Dir) : Prop where
  names : ∀ name, ∃ b w', Tx.bucket t name w = (.ok b, w') ∧ (b.isSome ↔ name ∈ d.present)
  data : ∀ name m, d.data.get name = some m →
    ∃ b w', Tx.bucket t name w = (.ok (some b), w') ∧ Answers w' b m

/-- A commit publishes the names of the model, the maps of the buckets that were created, and what
the base has for the others. -/
def CommitAgrees (w : World) (t : TxId) (st : DbState) (d : Dir) : Prop :=
  ∀ order : Tx.Order, order.Valid w t → ∃ w' st', Evals (fun k => Tx.commit k t order) w none w' ∧
    w'.db.state = some st' ∧ (∀ name, name ∈ st'.buckets ↔ name ∈ d.present) ∧
    (∀ name m, d.data.get name = some m → ∃ bs, st'.buckets.lookup name = some bs ∧
      StateHolds w' bs m) ∧
    ∀ name ∈ d.present, d.data.get name = none → st'.buckets.lookup name = st.buckets.lookup name

/-- The calls return what the model says, between any two of them the transaction shows what the
model says, and so does the state that a commit at the end publishes. -/
def Agrees (t : TxId) (st : DbState) : List DirOp → World → Dir → Prop
  | [], w, d => Visible w t d ∧ CommitAgrees w t st d
  | op :: ops, w, d => Visible w t d ∧ ∃ r w', Evals (fun k => op.run k t) w r w' ∧
      r.1 = (op.step d).1.1 ∧ r.2.isSome = (op.step d).1.2 ∧
      (∀ b, r.2 = some b → Tx.bucket t op.name w' = (.ok (some b), w')) ∧
      Agrees t st ops w' (op.step d).2

/-- A handle that was not written. -/
def Plain (w : World) (b : BucketId) : Prop :=
  (w.buckets b).rootNode = none ∧ (w.buckets b).dirty = ∅

/-- A handle of a bucket that was created and holds a map, or one that was not written. -/
def DirHandle : Option (SortedMap Bytes Bytes) → World → BucketId → Prop
  | some m => SingleLeaf m
  | none => Plain

/-- A committed name that was deleted, and maybe created again. -/
def Gone (w : World) (t : TxId) (name : Name) : Prop :=
  name ∈ (w.txs t).deleted ∨ name ∈ (w.txs t).created

/-- The transaction is as the model says. -/
structure Tracks (dead : Finset TxId) (F : Set NodeId) (w : World) (t : TxId) (st : DbState)
    (d : Dir) (M : SortedMap Name (Option (SortedMap Bytes Bytes))) : Prop
    extends Handles (fun _ => DirHandle) dead F w t M where
  managed : (w.txs t).managed = false
  locked : w.db.rwlock = true
  base : (w.txs t).base = some st
  ok : st.OK
  present : ∀ name, name ∈ d.present ↔ (w.txs t).Taken name
  created : ∀ name, name ∈ (w.txs t).created ↔ (d.data.get name).isSome
  data : ∀ name m, d.data.get name = some m ↔ M.get name = some (some m)
  kept : ∀ name, (M.get name).isSome → name ∉ (w.txs t).deleted
  plain : ∀ name, M.get name = some none → name ∈ st.buckets

section
variable {w w' : World} {b : BucketId} {dead : Finset TxId} {F : Set NodeId} {t : TxId}
  {name : Name}
  {m : SortedMap Bytes Bytes} {st : DbState} {d : Dir}
  {M : SortedMap Name (Option (SortedMap Bytes Bytes))}

lemma Plain.local : Local Plain := by
  intro dead F w w' b hi hb hs h
  unfold Plain
  rw [hs.bucket]
  exact h

lemma DirHandle.local (x : Option (SortedMap Bytes Bytes)) : Local (DirHandle x) := by
  cases x with
  | none => exact Plain.local
  | some m => exact SingleLeaf.local' m

namespace Tracks

section
variable (h : Tracks dead F w t st d M)
include h

lemma mem_base : (w.txs t).bucketExistsCommitted name = true ↔ name ∈ st.buckets := by
  unfold Tx.bucketExistsCommitted Tx.baseNames
  rw [h.base, decide_eq_true_eq, AList.mem_keys]

lemma baseBucket_isSome (hn : name ∈ st.buckets) : ((w.txs t).baseBucket name).isSome := by
  refine (Tx.baseBucket_isSome fun st' hst' => ?_).2 (of_decide_eq_true (h.mem_base.2 hn))
  rw [h.base] at hst'
  cases hst'
  exact h.ok

lemma lookup_created (hc : name ∈ (w.txs t).created) :
    ∃ b m, (w.txs t).bctx.lookup name = some b ∧ d.data.get name = some m ∧ SingleLeaf m w b := by
  obtain ⟨m, hm⟩ := Option.isSome_iff_exists.1 ((h.created name).1 hc)
  have hM := (h.data name m).1 hm
  obtain ⟨b, hb⟩ := Option.isSome_iff_exists.1 (h.total name _ hM)
  obtain ⟨x, hx, hp⟩ := h.handle name b hb
  rw [hM] at hx
  cases hx
  exact ⟨b, m, hb, hm, hp⟩

lemma not_deleted (hc : name ∈ (w.txs t).created) : name ∉ (w.txs t).deleted := by
  obtain ⟨b, m, -, hm, -⟩ := h.lookup_created hc
  exact h.kept name (by rw [(h.data name m).1 hm]; rfl)

lemma taken_of_lookup (hb : (w.txs t).bctx.lookup name = some b) : (w.txs t).Taken name := by
  obtain ⟨x, hx, -⟩ := h.handle name b hb
  refine ⟨h.kept name (by rw [hx]; rfl), ?_⟩
  rcases x with _ | m
  · exact .inr (h.mem_base.2 (h.plain name hx))
  · exact .inl ((h.created name).2 (by rw [(h.data name m).2 hx]; rfl))

/-- A name without a handle is taken if the base has it. -/
lemma taken_iff_of_lookup (hl : (w.txs t).bctx.lookup name = none) :
    (w.txs t).Taken name ↔ name ∉ (w.txs t).deleted ∧ name ∈ st.buckets := by
  have hcr : name ∉ (w.txs t).created := fun hc => by
    obtain ⟨b, -, hb, -⟩ := h.lookup_created hc
    rw [hl] at hb
    cases hb
  unfold Tx.Taken
  rw [h.mem_base]
  simp [hcr]

/-- `Tx.Bucket`, next to the model. -/
lemma bucket (name : Name) : ∃ b w' M',
    Tx.bucket t name w = (.ok b, w') ∧ Tracks dead F w' t st d M' ∧ (b.isSome ↔ name ∈ d.present) ∧
      (∀ b', b = some b' → (w'.txs t).bctx.lookup name = some b') ∧
      (w'.txs t).created = (w.txs t).created ∧ (w'.txs t).deleted = (w.txs t).deleted := by
  rcases hl : (w.txs t).bctx.lookup name with _ | b
  swap
  · -- there is a handle
    refine ⟨some b, w, M, bucket_eq_of_lookup h.opened hl, h, ?_, fun b' e => e ▸ hl, rfl, rfl⟩
    rw [h.present]
    exact ⟨fun _ => h.taken_of_lookup hl, fun _ => rfl⟩
  by_cases ht : (w.txs t).Taken name
  swap
  · refine ⟨none, w, M, bucket_eq_none hl ?_, h, ?_, fun b' e => (by cases e), rfl, rfl⟩
    · by_contra hc
      rw [not_or] at hc
      refine ht ((h.taken_iff_of_lookup hl).2 ⟨hc.1, ?_⟩)
      obtain ⟨bs, hbs⟩ := Option.ne_none_iff_exists'.1 hc.2
      unfold Tx.baseBucket at hbs
      rw [h.base] at hbs
      exact AList.lookup_isSome.1 (by rw [Option.join_eq_some_iff.1 hbs]; rfl)
    · rw [h.present]
      simpa using ht
  have hbase : name ∈ st.buckets := ((h.taken_iff_of_lookup hl).1 ht).2
  obtain ⟨w', e, hd, hnext, hbk, -⟩ :=
    bucket_eq_new h.sound h.opened hl ht.1 (h.baseBucket_isSome hbase)
  have hiso : Iso dead F w' := by
    have hk := (Iso.bucket h.iso : Stays _ _ (Tx.bucket t name) _).1.iso
    rwa [e] at hk
  have hM : M.get name = none := by
    by_contra hc
    obtain ⟨x, hx⟩ := Option.ne_none_iff_exists'.1 hc
    have := h.total name x hx
    rw [hl] at this
    cases this
  have hh : Handles (fun _ => DirHandle) dead F w' t (M.insert name none) := by
    refine h.toHandles.dirStep (fun _ x => DirHandle.local x) hd hiso rfl h.opened h.writable
      (fun n b hb => ?_) fun n x hx => ?_
    · by_cases hne : n = name
      · subst hne
        rw [show ((w.txs t).attach n w.nextBucket).bctx =
          (w.txs t).bctx.insert n w.nextBucket from rfl, AList.lookup_insert] at hb
        cases hb
        refine .inr ⟨by rw [hbk]; rfl, none, M.get_insert_self _ _, ?_⟩
        change Plain w' w.nextBucket
        unfold Plain
        rw [hbk]
        exact ⟨rfl, rfl⟩
      · rw [show ((w.txs t).attach name w.nextBucket).bctx =
          (w.txs t).bctx.insert name w.nextBucket from rfl, AList.lookup_insert_ne hne] at hb
        exact .inl ⟨hb, M.get_insert_of_ne hne _⟩
    · change (((w.txs t).bctx.insert name w.nextBucket).lookup n).isSome
      by_cases hne : n = name
      · rw [hne, AList.lookup_insert]
        rfl
      · rw [AList.lookup_insert_ne hne]
        exact h.total n x ((M.get_insert_of_ne hne _).symm.trans hx)
  have htx : w'.txs t = (w.txs t).attach name w.nextBucket := hd.tx
  refine ⟨some w.nextBucket, w', M.insert name none, e, ⟨hh, by rw [htx]; exact h.managed,
    by rw [hd.db]; exact h.locked, by rw [htx]; exact h.base, h.ok, by rw [htx]; exact h.present,
    by rw [htx]; exact h.created, fun n m => ?_, fun n hn => ?_, fun n hn => ?_⟩, ?_,
    fun b' e => ?_, by rw [htx]; rfl, by rw [htx]; rfl⟩
  · rw [h.data, SortedMap.get_insert]
    split
    next e =>
      subst e
      simp [hM]
    next => rfl
  · rw [htx]
    rw [SortedMap.get_insert] at hn
    split at hn
    next e =>
      subst e
      exact ht.1
    next => exact h.kept n hn
  · rw [SortedMap.get_insert] at hn
    split at hn
    next e =>
      subst e
      exact hbase
    next => exact h.plain n hn
  · rw [h.present]
    simpa using ht
  · cases e
    rw [htx]
    exact AList.lookup_insert _

/-- What the transaction shows. -/
lemma visible : Visible w t d := by
  refine ⟨fun name => ?_, fun name m hm => ?_⟩
  · obtain ⟨b, w', M', e, -, hb, -⟩ := h.bucket name
    exact ⟨b, w', e, hb⟩
  · obtain ⟨b, m', hb, hm', hleaf⟩ := h.lookup_created ((h.created name).2 (by rw [hm]; rfl))
    rw [hm] at hm'
    cases hm'
    exact ⟨b, w, bucket_eq_of_lookup h.opened hb,
      hleaf.1.holds.answers (h.toTxRun.handle_writable hb).opened⟩

/-- `Tx.CreateBucket` of a name that is absent. -/
lemma create (hname : name ≠ []) (hfree : name ∉ d.present) :
    ∃ b w', Tx.createBucket t name w = (.ok (.ok b), w') ∧
      Tracks dead F w' t st (d.add name) (M.insert name (some .empty)) ∧
      (w'.txs t).bctx.lookup name = some b ∧ ∀ n ∈ st.buckets, Gone w' t n ↔ Gone w t n := by
  have hnt : ¬ (w.txs t).Taken name := fun ht => hfree ((h.present name).2 ht)
  obtain ⟨w', e, hn, -, hh⟩ :=
    h.toHandles.createBucket (m := some (SortedMap.empty : SortedMap Bytes Bytes))
    (fun _ x => DirHandle.local x) hname hnt fun w' hw' => hw'.singleLeaf
  have htx : w'.txs t = (w.txs t).addBucket name w.nextBucket := hn.step.tx
  refine ⟨_, w', e, ⟨hh, by rw [htx]; exact h.managed, by rw [hn.step.db]; exact h.locked,
    by rw [htx]; exact h.base, h.ok, fun n => ?_, fun n => ?_, fun n m => ?_, fun n hM => ?_,
    fun n hM => ?_⟩, by rw [htx]; exact AList.lookup_insert _, fun n hbase => ?_⟩
  · change n ∈ insert name d.present ↔ _
    rw [htx, Finset.mem_insert, h.present]
    unfold Tx.Taken Tx.addBucket Tx.bucketExistsCommitted Tx.baseNames
    by_cases e : n = name <;> simp [e]
  · change _ ↔ ((d.data.insert name .empty).get n).isSome
    rw [htx, SortedMap.get_insert]
    change n ∈ insert name (w.txs t).created ↔ _
    rw [Finset.mem_insert, h.created]
    by_cases e : n = name <;> simp [e]
  · change (d.data.insert name .empty).get n = some m ↔ _
    rw [SortedMap.get_insert, SortedMap.get_insert]
    by_cases e : n = name
    · simp [e]
    · simpa [e] using h.data n m
  · rw [htx]
    change n ∉ (w.txs t).deleted.erase name
    rw [Finset.mem_erase, not_and_or, not_not]
    rw [SortedMap.get_insert] at hM
    split at hM
    next e => exact .inl e
    next => exact .inr (h.kept n hM)
  · rw [SortedMap.get_insert] at hM
    split at hM
    · cases hM
    · exact h.plain n hM
  · unfold Gone
    rw [htx]
    change n ∈ (w.txs t).deleted.erase name ∨ n ∈ insert name (w.txs t).created ↔ _
    by_cases e : n = name
    · subst e
      have hdel : n ∈ (w.txs t).deleted := by
        by_contra hc
        exact hnt ⟨hc, .inr (h.mem_base.2 hbase)⟩
      simp [hdel]
    · simp [e]

/-- A name is taken out of the directory. -/
lemma drop {tx : Tx} (hd : DirStep w t tx w') (hiso : Iso dead F w')
    (hbctx : tx.bctx = (w.txs t).bctx.erase name) (hdb : tx.db = (w.txs t).db)
    (hwr : tx.writable = (w.txs t).writable) (hman : tx.managed = (w.txs t).managed)
    (hbase : tx.base = (w.txs t).base) (hcr : tx.created = (w.txs t).created.erase name)
    (hdel : ∀ n, n ≠ name → (n ∈ tx.deleted ↔ n ∈ (w.txs t).deleted))
    (hself : name ∈ tx.deleted ∨ name ∉ st.buckets) :
    Tracks dead F w' t st ⟨d.present.erase name, d.data.erase name⟩ (M.erase name) := by
  have hlook : ∀ n, tx.bctx.lookup n = if n = name then none else (w.txs t).bctx.lookup n := by
    intro n
    rw [hbctx]
    by_cases e : n = name
    · rw [e, AList.lookup_erase, if_pos rfl]
    · rw [AList.lookup_erase_ne e, if_neg e]
  have hh : Handles (fun _ => DirHandle) dead F w' t (M.erase name) := by
    refine h.toHandles.dirStep (fun _ x => DirHandle.local x) hd hiso hbase (hdb.trans h.opened)
      (hwr.trans h.writable) (fun n b hb => ?_) fun n x hx => ?_
    · rw [hlook] at hb
      split at hb
      · cases hb
      next e => exact .inl ⟨hb, by rw [SortedMap.get_erase, if_neg e]⟩
    · rw [SortedMap.get_erase] at hx
      split at hx
      · cases hx
      next e =>
        rw [hlook, if_neg e]
        exact h.total n x hx
  refine ⟨hh, by rw [hd.tx, hman]; exact h.managed, by rw [hd.db]; exact h.locked,
    by rw [hd.tx, hbase]; exact h.base, h.ok, fun n => ?_, fun n => ?_, fun n m => ?_,
    fun n hM => ?_, fun n hM => ?_⟩
  · rw [hd.tx]
    change n ∈ d.present.erase name ↔ _
    rw [Finset.mem_erase, h.present]
    have hcom : tx.bucketExistsCommitted n = (w.txs t).bucketExistsCommitted n := by
      unfold Tx.bucketExistsCommitted Tx.baseNames
      rw [hbase]
    unfold Tx.Taken
    rw [hcr, hcom, Finset.mem_erase]
    by_cases e : n = name
    · subst e
      rw [h.mem_base]
      simp only [ne_eq, not_true_eq_false, false_and, false_or, false_iff, not_and]
      exact fun hn => hself.resolve_left hn
    · rw [hdel n e]
      simp [e]
  · change _ ↔ ((d.data.erase name).get n).isSome
    rw [hd.tx, hcr, Finset.mem_erase, h.created, SortedMap.get_erase]
    by_cases e : n = name <;> simp [e]
  · change (d.data.erase name).get n = some m ↔ _
    rw [SortedMap.get_erase, SortedMap.get_erase]
    by_cases e : n = name
    · simp [e]
    · simpa [e] using h.data n m
  · rw [SortedMap.get_erase] at hM
    rw [hd.tx]
    split at hM
    · cases hM
    next e =>
      rw [hdel n e]
      exact h.kept n hM
  · rw [SortedMap.get_erase] at hM
    split at hM
    · cases hM
    · exact h.plain n hM

/-- `Tx.DeleteBucket`, unless it is the second one of a committed name. -/
lemma delete (name : Name) (hgood : name ∈ st.buckets → ¬ Gone w t name) :
    ∃ w' M', Tx.deleteBucket t name w = (.ok ((DirOp.deleteBucket name).step d).1.1, w') ∧
      Tracks dead F w' t st ((DirOp.deleteBucket name).step d).2 M' ∧
      ∀ n ∈ st.buckets, Gone w' t n ↔ Gone w t n ∨ name = n := by
  have hiso : ∀ {o w'}, Tx.deleteBucket t name w = (o, w') → Iso dead F w' := by
    intro o w' e
    have hk := (Iso.deleteBucket h.iso : Stays _ _ (Tx.deleteBucket t name) _).1.iso
    rwa [e] at hk
  by_cases hc : name ∈ (w.txs t).created
  · -- a bucket of the transaction, which is not in the base
    have hpres : name ∈ d.present := (h.present name).2 ⟨h.not_deleted hc, .inl hc⟩
    have hnb : name ∉ st.buckets := fun hb => hgood hb (.inr hc)
    obtain ⟨w', e, hd, -⟩ := deleteBucket_eq_created h.sound h.opened h.writable hc
    rw [DirOp.step, if_pos hpres]
    refine ⟨w', M.erase name, e,
      h.drop hd (hiso e) rfl rfl rfl rfl rfl rfl (fun _ _ => .rfl) (.inr hnb), fun n hn => ?_⟩
    have hne : n ≠ name := fun e => hnb (e ▸ hn)
    unfold Gone
    rw [hd.tx]
    change n ∈ (w.txs t).deleted ∨ n ∈ (w.txs t).created.erase name ↔ _
    simp [hne, hne.symm]
  by_cases hb : name ∈ st.buckets
  · -- a committed bucket, for the first time
    have hdel : name ∉ (w.txs t).deleted := fun hdel => hgood hb (.inl hdel)
    have hpres : name ∈ d.present := (h.present name).2 ⟨hdel, .inr (h.mem_base.2 hb)⟩
    obtain ⟨w', e, hd, -⟩ :=
      deleteBucket_eq_committed h.sound h.opened h.writable hc (h.mem_base.2 hb)
    rw [DirOp.step, if_pos hpres]
    refine ⟨w', M.erase name, e,
      h.drop hd (hiso e) rfl rfl rfl rfl rfl (Finset.erase_eq_of_notMem hc).symm
      (fun n hn => ?_) (.inl (Finset.mem_insert_self _ _)), fun n hn => ?_⟩
    · change n ∈ insert name (w.txs t).deleted ↔ _
      simp [hn]
    · unfold Gone
      rw [hd.tx]
      change n ∈ insert name (w.txs t).deleted ∨ n ∈ (w.txs t).created ↔ _
      rw [Finset.mem_insert, eq_comm]
      tauto
  · have hpres : name ∉ d.present := fun hp =>
      ((h.present name).1 hp).2.elim hc fun hb' => hb (h.mem_base.1 hb')
    have hcom : (w.txs t).bucketExistsCommitted name = false := by
      rw [← Bool.not_eq_true, h.mem_base]
      exact hb
    rw [DirOp.step, if_neg hpres]
    refine ⟨w, M, deleteBucket_eq_notFound h.opened h.writable hc hcom, h, fun n hn => ?_⟩
    have hne : name ≠ n := fun e => hb (e ▸ hn)
    simp [hne]

/-- A `Put` into a bucket that was created. -/
lemma put (key : Bytes) (value : Option Bytes) (hm : d.data.get name = some m)
    (hb : (w.txs t).bctx.lookup name = some b) : ∃ w',
      Evals (fun k => Bucket.put k b key value) w (BucketOp.put key value).result w' ∧
        w'.txs = w.txs ∧
      Tracks dead F w' t st { d with data := d.data.insert name ((BucketOp.put key value).apply m) }
        (M.insert name (some ((BucketOp.put key value).apply m))) := by
  obtain ⟨b', m', hb', hm', hleaf⟩ := h.lookup_created ((h.created name).2 (by rw [hm]; rfl))
  rw [hb] at hb'
  rw [hm] at hm'
  cases hb'
  cases hm'
  have hM := (h.data name m).1 hm
  have hw := h.toTxRun.handle_writable hb
  by_cases hadm : BucketOp.Admits key value
  swap
  · -- the pair is refused
    have happ : (BucketOp.put key value).apply m = m := if_neg hadm
    rw [happ, SortedMap.insert_get hm, SortedMap.insert_get hM]
    exact ⟨w, .of_forall fun k => put_rejected hw hadm k, rfl, h⟩
  have hres : (BucketOp.put key value).result = none :=
    put_result_eq_none.2 ⟨List.length_pos_iff.2 hadm.1, hadm.2.1, hadm.2.2⟩
  have happ : (BucketOp.put key value).apply m = m.insert key (value.getD []) := if_pos hadm
  rw [happ, hres]
  obtain ⟨w', e, hl, -, hs⟩ := hleaf.put hw hres
  have hlive := h.live hb
  obtain ⟨hpass, hh⟩ := h.toHandles.work (m := some (m.insert key (value.getD [])))
    (fun _ x => DirHandle.local x) hb
    (fun _ => stays_bucketPut (h.iso.within hlive) (h.iso.closed hlive) h.iso.baseIn) e hs hl
  have htxs := hpass.works.txs
  refine ⟨w', e, htxs, hh, by rw [htxs]; exact h.managed, by rw [hpass.works.db]; exact h.locked,
    by rw [htxs]; exact h.base, h.ok, by rw [htxs]; exact h.present, fun n => ?_, fun n m' => ?_,
    fun n hn => ?_, fun n hn => ?_⟩
  · rw [htxs, h.created, SortedMap.get_insert]
    by_cases e : n = name
    · simp [e, hm]
    · simp [e]
  · rw [SortedMap.get_insert, SortedMap.get_insert]
    by_cases e : n = name
    · simp [e]
    · simpa [e] using h.data n m'
  · rw [htxs]
    rw [SortedMap.get_insert] at hn
    split at hn
    next e =>
      subst e
      exact h.kept n (by rw [hM]; rfl)
    next => exact h.kept n hn
  · rw [SortedMap.get_insert] at hn
    split at hn
    · cases hn
    · exact h.plain n hn

/-- A call that is not the second `DeleteBucket` of a committed name does what the model says. -/
lemma step (op : DirOp) (hfit : op.Fits d)
    (hgood : ∀ name ∈ st.buckets, op = .deleteBucket name → ¬ Gone w t name) : ∃ r w' M',
      Evals (fun k => op.run k t) w r w' ∧ r.1 = (op.step d).1.1 ∧ r.2.isSome = (op.step d).1.2 ∧
      (∀ b, r.2 = some b → Tx.bucket t op.name w' = (.ok (some b), w')) ∧
      Tracks dead F w' t st (op.step d).2 M' ∧
      ∀ n ∈ st.buckets, Gone w' t n ↔ Gone w t n ∨ op = .deleteBucket n := by
  cases op with
  | createBucket name =>
    by_cases hname : name = []
    · have e := createBucket_eq_of_empty h.opened h.writable hname
      rw [DirOp.step, if_pos hname]
      exact ⟨_, w, M, .of_eq (Prog.bind_ok e), rfl, rfl, fun b hb => (by cases hb), h,
        fun n _ => by simp⟩
    by_cases hp : name ∈ d.present
    · have e := createBucket_eq_of_taken h.opened h.writable hname ((h.present name).1 hp)
      rw [DirOp.step, if_neg hname, if_pos hp]
      exact ⟨_, w, M, .of_eq (Prog.bind_ok e), rfl, rfl, fun b hb => (by cases hb), h,
        fun n _ => by simp⟩
    · obtain ⟨b, w', e, ht, hl, hg⟩ := h.create hname hp
      rw [DirOp.step, if_neg hname, if_neg hp]
      refine ⟨_, w', _, .of_eq (Prog.bind_ok e), rfl, rfl, fun b' hb => ?_, ht,
        fun n hn => by simp [hg n hn]⟩
      cases hb
      exact bucket_eq_of_lookup ht.opened hl
  | createBucketIfNotExists name =>
    by_cases hname : name = []
    · have e := createBucketIfNotExists_eq_of_empty h.opened h.writable hname
      rw [DirOp.step, if_pos hname]
      exact ⟨_, w, M, .of_eq (Prog.bind_ok e), rfl, rfl, fun b hb => (by cases hb), h,
        fun n _ => by simp⟩
    have hrun := createBucketIfNotExists_eq h.opened h.writable hname
    obtain ⟨b, w1, M1, e1, ht1, hb, hl1, h1, h2⟩ := h.bucket name
    have hg1 : ∀ n, Gone w1 t n ↔ Gone w t n := fun n => by
      unfold Gone
      rw [h1, h2]
    by_cases hp : name ∈ d.present
    · obtain ⟨b, rfl⟩ := Option.isSome_iff_exists.1 (hb.2 hp)
      have e : Tx.createBucketIfNotExists t name w = (.ok (.ok b), w1) :=
        hrun.trans (Prog.bind_ok e1)
      rw [DirOp.step, if_neg hname, if_pos hp]
      refine ⟨_, w1, M1, .of_eq (Prog.bind_ok e), rfl, rfl, fun b' hb' => ?_, ht1,
        fun n _ => by simp [hg1 n]⟩
      cases hb'
      exact bucket_eq_of_lookup ht1.opened (hl1 b rfl)
    · obtain rfl : b = none := by
        rw [← Option.not_isSome_iff_eq_none, hb]
        exact hp
      obtain ⟨b, w', e2, ht, hl, hg⟩ := ht1.create hname hp
      have e : Tx.createBucketIfNotExists t name w = (.ok (.ok b), w') :=
        hrun.trans ((Prog.bind_ok e1).trans e2)
      rw [DirOp.step, if_neg hname, if_neg hp]
      refine ⟨_, w', _, .of_eq (Prog.bind_ok e), rfl, rfl, fun b' hb' => ?_, ht,
        fun n hn => by simp [hg n hn, hg1 n]⟩
      cases hb'
      exact bucket_eq_of_lookup ht.opened hl
  | deleteBucket name =>
    obtain ⟨w', M', e, ht, hg⟩ := h.delete name fun hn => hgood name hn rfl
    refine ⟨_, w', M', .of_eq (Prog.bind_ok e), rfl, ?_, fun b hb => (by cases hb), ht,
      fun n hn => ?_⟩
    · change false = ((DirOp.deleteBucket name).step d).1.2
      by_cases hp : name ∈ d.present
      · rw [DirOp.step, if_pos hp]
      · rw [DirOp.step, if_neg hp]
    · rw [hg n hn, DirOp.deleteBucket.injEq]
  | bucket name =>
    obtain ⟨b, w', M', e, ht, hb, hl, h1, h2⟩ := h.bucket name
    refine ⟨_, w', M', .of_eq (Prog.bind_ok e), rfl, ?_,
      fun b' hb' => bucket_eq_of_lookup ht.opened (hl b' hb'), ht, fun n hn => ?_⟩
    · change b.isSome = decide (name ∈ d.present)
      rw [Bool.eq_iff_iff, hb, decide_eq_true_eq]
    · unfold Gone
      rw [h1, h2]
      simp
  | put name key value =>
    obtain ⟨m, hm⟩ := Option.isSome_iff_exists.1 hfit
    obtain ⟨b, -, hb, -⟩ := h.lookup_created ((h.created name).2 hfit)
    obtain ⟨w', e, htxs, ht⟩ := h.put key value hm hb
    have hb' : (w'.txs t).bctx.lookup name = some b := by
      rw [htxs]
      exact hb
    have ht' : Tracks dead F w' t st ((DirOp.put name key value).step d).2
        (M.insert name (some ((BucketOp.put key value).apply m))) := by
      rw [DirOp.step, hm]
      exact ht
    refine ⟨((BucketOp.put key value).result, some b), w', _, e.mono fun k hk => ?_, rfl, rfl,
      fun b' hb'' => ?_, ht', fun n hn => ?_⟩
    · dsimp only [DirOp.run] at hk ⊢
      rw [Prog.bind_ok (bucket_eq_of_lookup h.opened hb)]
      exact Prog.bind_ok hk
    · cases hb''
      exact bucket_eq_of_lookup ht.opened hb'
    · unfold Gone
      rw [htxs]
      simp

/-- The handle for a name, as the model says. -/
lemma handle_data (hb : (w.txs t).bctx.lookup name = some b) : DirHandle (d.data.get name) w b := by
  obtain ⟨x, hx, hp⟩ := h.handle name b hb
  rcases x with _ | m
  · rcases hd : d.data.get name with _ | m
    · exact hp
    · rw [(h.data name m).1 hd] at hx
      cases hx
  · rw [(h.data name m).2 hx]
    exact hp

/-- The commit at the end. -/
lemma commit : CommitAgrees w t st d := by
  intro order hv
  -- rebalancing and spilling leave handles alone that were not written
  have hlocal : ∀ (P : SortedMap Bytes Bytes → World → BucketId → Prop), (∀ m, Local (P m)) →
      ∀ name, Local fun w b => (d.data.get name).elim (Plain w b) fun m => P m w b := by
    intro P hP name
    rcases d.data.get name with _ | m
    · exact Plain.local
    · exact hP m
  have hreb : ∀ x ∈ order.rebalance, ∀ v b, v.Sound → DirHandle (d.data.get x.1) v b →
      ∃ v', Evals (fun k => Bucket.rebalance k b x.2) v () v' ∧ v'.Sound ∧
        (d.data.get x.1).elim (Plain v' b) fun m => Ready m v' b := by
    intro x _ v b hs hp
    rcases hd : d.data.get x.1 with _ | m <;> rw [hd] at hp
    · have hno : ∀ n ∈ (v.buckets b).dirty, (v.nodes n).unbalanced = false := fun n hn => by
        rw [hp.2] at hn
        exact absurd hn (Finset.notMem_empty n)
      exact ⟨v, eventually_succ (eventually_ge_atTop 0) fun k _ =>
        rebalance_unflagged hno k x.2, hs, hp⟩
    · exact SingleLeaf.rebalance hp hs x.2
  have hspill : ∀ name v b, v.Sound → ((d.data.get name).elim (Plain v b) fun m => Ready m v b) →
      ∃ v', Evals (fun k => Bucket.spill k b) v () v' ∧ v'.Sound ∧
        (d.data.get name).elim (Plain v' b) fun m => Settled m v' b := by
    intro name v b hs hp
    rcases hd : d.data.get name with _ | m <;> rw [hd] at hp
    · exact ⟨v, .of_forall fun k => spill_none hp.1 k, hs, hp⟩
    · exact Ready.spill hp hs
  obtain ⟨st', w1, w', e, hs, hset⟩ := h.toTxRun.store h.managed h.locked hv
    (fun name => DirHandle.local (d.data.get name)) (hlocal _ Ready.local) (hlocal _ Settled.local)
    (fun name b hb => h.handle_data hb) hreb hspill
  refine ⟨w', st', e, by rw [hs.db], fun name => ?_, fun name m hm => ?_, fun name hp hm => ?_⟩
  · rw [h.present]
    rcases hl : (w.txs t).bctx.lookup name with _ | b
    · rw [h.taken_iff_of_lookup hl, ← AList.lookup_isSome, hs.kept name hl,
        lookup_keptBuckets_eq h.base, ← AList.lookup_isSome]
      by_cases hdel : name ∈ (w.txs t).deleted <;> simp [hdel]
    · have ht := h.taken_of_lookup hl
      rw [← AList.lookup_isSome, hs.handle name b hl ht.1]
      simpa using ht
  · obtain ⟨b, m', hb, hm', -⟩ := h.lookup_created ((h.created name).2 (by rw [hm]; rfl))
    have hsettled := hset name b hb
    rw [hm] at hsettled
    exact ⟨_, hs.handle name b hb (h.taken_of_lookup hb).1, hs.holds _ _ hsettled⟩
  · have ht := (h.present name).1 hp
    rcases hl : (w.txs t).bctx.lookup name with _ | b
    · rw [hs.kept name hl, lookup_keptBuckets_eq h.base, if_neg ht.1]
    · -- the handle publishes what its base has
      have hplain := hset name b hl
      rw [hm] at hplain
      obtain ⟨x, hx, -⟩ := h.handle name b hl
      have hbase : name ∈ st.buckets := by
        rcases x with _ | m
        · exact h.plain name hx
        · rw [(h.data name m).2 hx] at hm
          cases hm
      have hl1 : (w1.txs t).bctx.lookup name = some b := by
        rw [hs.passed.works.txs]
        exact hl
      have hpub : Bucket.toPublish w1 b = (w.txs t).baseBucket name := by
        have hself : Bucket.baseState w1 b =
            (w1.txs (w1.buckets b).tx).baseBucket (w1.buckets b).name := rfl
        unfold Bucket.toPublish
        rw [hplain.1, hself, (hs.passed.run.iso.bctx t name b hl1).2,
          hs.passed.run.named name b hl1, hs.passed.works.txs]
      rw [hs.handle name b hl ht.1, hpub]
      unfold Tx.baseBucket
      rw [h.base]
      obtain ⟨bs, hbs⟩ := Option.isSome_iff_exists.1 (AList.lookup_isSome.2 hbase)
      change some (st.buckets.lookup name).join = _
      rw [hbs]
      rfl

/-- A second `DeleteBucket` of a committed name. -/
lemma not_agrees (hn : name ∈ st.buckets) (hg : Gone w t name) {ops : List DirOp} :
    ¬ Agrees t st (.deleteBucket name :: ops) w d := by
  rintro ⟨-, r, w', e, hr, -, -, hrest⟩
  have hrun : ∀ {x v}, Tx.deleteBucket t name w = (.ok x, v) → r = (x, none) ∧ w' = v := by
    intro x v ev
    obtain ⟨k, hk⟩ := e.exists
    have hk' : (Tx.deleteBucket t name >>= fun e => pure (e, none)) w = (.ok r, w') := hk
    rw [Prog.bind_ok ev] at hk'
    cases hk'
    exact ⟨rfl, rfl⟩
  by_cases hc : name ∈ (w.txs t).created
  · -- the committed bucket comes back
    obtain ⟨v, ev, hd, -⟩ := deleteBucket_eq_created h.sound h.opened h.writable hc
    obtain ⟨-, rfl⟩ := hrun ev
    have hp : name ∈ d.present := (h.present name).2 ⟨h.not_deleted hc, .inl hc⟩
    rw [DirOp.step, if_pos hp] at hrest
    have hvis : Visible w' t ⟨d.present.erase name, d.data.erase name⟩ := by
      cases ops with
      | nil => exact hrest.1
      | cons op ops => exact hrest.1
    obtain ⟨b, v', eb, hb⟩ := hvis.names name
    obtain ⟨v'', eb', -⟩ :=
      bucket_eq_new (t := t) (w := w') (by exact hd.sound) (by rw [hd.tx]; exact h.opened)
      (by rw [hd.tx]; exact AList.lookup_erase _ _) (by rw [hd.tx]; exact h.not_deleted hc)
      (by rw [hd.tx]; exact h.baseBucket_isSome hn)
    rw [eb] at eb'
    cases eb'
    exact Finset.notMem_erase name d.present (hb.1 rfl)
  · -- no error is returned
    obtain ⟨v, ev, -⟩ := deleteBucket_eq_committed h.sound h.opened h.writable hc (h.mem_base.2 hn)
    obtain ⟨rfl, -⟩ := hrun ev
    have hp : name ∉ d.present := fun hp => ((h.present name).1 hp).1 (hg.resolve_right hc)
    rw [DirOp.step, if_neg hp] at hr
    cases hr

/-- The calls agree with the model as long as no committed name is deleted twice. -/
lemma agrees_iff (ops : List DirOp) (hfit : DirOp.FitAll d ops) :
    Agrees t st ops w d ↔ ∀ name ∈ st.buckets, ops.count (.deleteBucket name) ≤ 1 ∧
      (Gone w t name → ops.count (.deleteBucket name) = 0) := by
  induction ops generalizing w d M with
  | nil => exact ⟨fun _ _ _ => ⟨Nat.zero_le _, fun _ => rfl⟩, fun _ => ⟨h.visible, h.commit⟩⟩
  | cons op ops ih =>
    by_cases hbad : ∃ name ∈ st.buckets, op = .deleteBucket name ∧ Gone w t name
    · obtain ⟨name, hn, rfl, hg⟩ := hbad
      refine ⟨fun ha => absurd ha (h.not_agrees hn hg), fun hall => ?_⟩
      have := (hall name hn).2 hg
      rw [List.count_cons_self] at this
      cases this
    have hgood : ∀ name ∈ st.buckets, op = .deleteBucket name → ¬ Gone w t name :=
      fun name hn e hg => hbad ⟨name, hn, e, hg⟩
    obtain ⟨r, w', M', e, h1, h2, h3, ht, hgone⟩ := h.step op hfit.1 hgood
    have hcons : Agrees t st (op :: ops) w d ↔ Agrees t st ops w' (op.step d).2 := by
      constructor
      · rintro ⟨-, r', w'', e', -, -, -, hrest⟩
        obtain ⟨k, hk1, hk2⟩ := (e.and e').exists
        rw [hk1] at hk2
        cases hk2
        exact hrest
      · exact fun ha => ⟨h.visible, r, w', e, h1, h2, h3, ha⟩
    rw [hcons, ih ht hfit.2]
    refine forall₂_congr fun name hn => ?_
    rw [hgone name hn, List.count_cons]
    by_cases eq : op = .deleteBucket name
    · have hng := hgood name hn eq
      simp only [eq, or_true, beq_self_eq_true, if_true, hng, false_imp_iff, and_true, true_imp_iff]
      omega
    · simp [eq]

end

/-- A transaction that has just begun. -/
lemma init {rt : Runtime} {readOnly : Bool} {sys : Sys} (h : GoSteps (Sys.init rt readOnly) sys)
    (hb : DB.begin_ true sys.world = (.ok (.ok t), w)) (hst : sys.world.db.state = some st) :
    ∃ dead F, Tracks dead F w t st (.of st) .empty ∧ ∀ name, ¬ Gone w t name := by
  obtain ⟨st', hr, hl, ho, hst', rfl, rfl⟩ := begin_ok h.steps.cut hb
  rw [hst] at hst'
  cases hst'
  obtain ⟨dead, F, hf⟩ := h.steps.free hr hl ho hst
  obtain ⟨hh, -⟩ := hf.begin (P := fun _ => DirHandle)
  have htx := World.beginRW_txs_self sys.world st
  refine ⟨dead, F,
    ⟨hh, by rw [htx]; rfl, rfl, by rw [htx]; rfl, h.dirs.state st hst, fun name => ?_,
    fun name => ?_, fun name m => ?_, fun name hM => ?_, fun name hM => ?_⟩, fun name hg => ?_⟩
  · rw [htx]
    change name ∈ st.buckets.keys.toFinset ↔
      name ∉ (∅ : Finset Name) ∧ (name ∈ (∅ : Finset Name) ∨ decide (name ∈ st.buckets.keys) = true)
    simp
  · rw [htx]
    simp [Dir.of, Tx.opened, Tx.zero]
  · simp [Dir.of]
  · cases hM
  · cases hM
  · unfold Gone at hg
    rw [htx] at hg
    simp [Tx.opened, Tx.zero] at hg

end Tracks

/-- The calls of one write transaction on the directory agree with the model exactly if no committed
name is the target of two `DeleteBucket` calls. -/
theorem directory_agrees_iff {rt : Runtime} {readOnly : Bool} {sys : Sys}
    (h : GoSteps (Sys.init rt readOnly) sys) (hb : DB.begin_ true sys.world = (.ok (.ok t), w))
    (hst : sys.world.db.state = some st) (ops : List DirOp) (hfit : DirOp.FitAll (.of st) ops) :
    Agrees t st ops w (.of st) ↔ ∀ name ∈ st.buckets, ops.count (.deleteBucket name) ≤ 1 := by
  obtain ⟨dead, F, ht, hg⟩ := Tracks.init h hb hst
  rw [ht.agrees_iff ops hfit]
  exact forall₂_congr fun name _ => and_iff_left fun hc => absurd hc (hg name)

/-- A bucket is created, filled, deleted and created again. -/
theorem directory_agrees_iff_init :
    ∃ t w, DB.begin_ true (World.init default false) = (.ok (.ok t), w) ∧
    Agrees t ⟨∅⟩
      [.createBucket [1], .put [1] [2] (some [3]), .deleteBucket [1], .createBucket [1]] w
      (.of ⟨∅⟩) := by
  refine ⟨0, _, begin_eq_writable rfl rfl rfl rfl rfl, ?_⟩
  have hfit : DirOp.FitAll (.of ⟨∅⟩)
      [.createBucket [1], .put [1] [2] (some [3]), .deleteBucket [1], .createBucket [1]] :=
    ⟨trivial, rfl, trivial, trivial, trivial⟩
  refine (directory_agrees_iff
    (Relation.ReflTransGen.refl : GoSteps (Sys.init default false) (Sys.init default false))
    (begin_eq_writable rfl rfl rfl rfl rfl) rfl _ hfit).2 fun name hn => ?_
  exact absurd hn (AList.notMem_empty name)

lemma firstClosed_steps : GoSteps (Sys.init default false) firstClosed := by
  have hput : GoSteps (Sys.init default false) firstPut :=
    ((Relation.ReflTransGen.refl.tail (.call (.begin_ true) _ _ trivial trivial)).tail
      (.call (.createBucket 0 [1]) _ _ (Finset.notMem_empty 0) trivial)).tail
      (.call (.put 0 [7] (some [8])) _ _ ⟨by decide, by decide⟩ trivial)
  have hbctx : (firstPut.world.txs 0).bctx.lookup [1] = some 0 := by decide
  have hvalid : Tx.Order.Valid ⟨[([1], [0])], [[1]], [[1]]⟩ firstPut.world 0 :=
    .one (by decide) hbctx (List.nodup_singleton _) (by decide)
  exact (hput.tail (.call (.publish 0 _) _ _ notMem_ended_firstPut hvalid)).tail
    (.call (.close 0) _ _ trivial trivial)

/-- The bucket `[1]` is deleted, created and deleted again. The last call returns nil, and the
bucket is there afterwards. -/
theorem deleted_bucket_comes_back : GoSteps (Sys.init default false) firstClosed ∧
    (∃ st t w, firstClosed.world.db.state = some st ∧
      DB.begin_ true firstClosed.world = (.ok (.ok t), w) ∧
      ¬ Agrees t st [.deleteBucket [1], .createBucket [1], .deleteBucket [1]] w (.of st)) ∧
    ((do
      let _ ← DB.begin_ true
      let _ ← Tx.deleteBucket 1 [1]
      let _ ← Tx.createBucket 1 [1]
      let e ← Tx.deleteBucket 1 [1]
      let b ← Tx.bucket 1 [1]
      pure (e, b.isSome) : Go (Option Err × Bool)) firstClosed.world).1 = .ok (none, true) := by
  obtain ⟨st, hst⟩ := Option.isSome_iff_exists.1 (show firstClosed.world.db.state.isSome by decide)
  have hmem : [1] ∈ st.buckets := by
    have hm : (firstClosed.world.db.state.map fun st => decide ([1] ∈ st.buckets)) =
        some true := by decide
    rw [hst] at hm
    exact of_decide_eq_true (Option.some.inj hm)
  have hb := begin_eq_writable firstClosed_steps.steps.cut (by decide) (by decide) (by decide) hst
  refine ⟨firstClosed_steps, ⟨st, _, _, hst, hb, fun ha => ?_⟩, by rfl⟩
  obtain ⟨dead, F, ht, -⟩ := Tracks.init firstClosed_steps hb hst
  have hfit : DirOp.FitAll (.of st) [.deleteBucket [1], .createBucket [1], .deleteBucket [1]] :=
    ⟨trivial, trivial, trivial, trivial⟩
  have hone := ((ht.agrees_iff _ hfit).1 ha [1] hmem).1
  exact absurd hone (by decide)

end

end Vmbolt
