import Vmbolt.Updates.Refinement

/-!
# Write transactions refine a map of maps

A run of write transactions on a new database, next to the same calls on a map from names to maps. A
transaction makes any calls of `CreateBucket`, `Put` and `Delete`, sets `FillPercent` where it
likes, goes on whatever the calls return, and ends with `Commit` or `Rollback`. The run and the
model agree as long as no commit meets a tree on which one of the two tests of `CommitFits` fails.
The run of `fillBucket` and `thinLeaves` meets one: a key stands twice in the tree that the second
commit publishes.
-/

namespace Vmbolt
open Filter Prog

/-- A call in a write transaction. -/
inductive Edit where
  | createBucket (name : Name)
  | put (name : Name) (key : Bytes) (value : Option Bytes)
  | delete (name : Name) (key : Bytes)
  | setFillPercent (name : Name) (f : Float64)

namespace Edit

/-- Call `f` on the bucket of that name. There is nothing to call if `Tx.Bucket` returns nil. -/
def onBucket (t : TxId) (name : Name) (f : BucketId → Go (Option Err)) : Go (Option Err) := do
  let b ← Tx.bucket t name
  match b with
  | none => pure (some .bucketNotFound)
  | some b => f b

/-- Perform a call: the error that it returns. -/
def run (fuel : Nat) (t : TxId) : Edit → Go (Option Err)
  | createBucket name => do
    let r ← Tx.createBucket t name
    pure (TxOp.errOf r)
  | put name key value => onBucket t name fun b => Bucket.put fuel b key value
  | delete name key => onBucket t name fun b => Bucket.delete fuel b key
  | setFillPercent name f => onBucket t name fun b => do
    Bucket.setFillPercent b f
    pure none

/-- Perform the calls one after the other. -/
def runAll (fuel : Nat) (t : TxId) : List Edit → Go (List (Option Err))
  | [] => pure []
  | x :: xs => do
    let e ← x.run fuel t
    let es ← runAll fuel t xs
    pure (e :: es)

/-- A step on the map of that name: what it returns, and the maps afterwards. -/
def applyOp (M : Maps) (name : Name) (op : BucketOp) : Option Err × Maps :=
  match M.get name with
  | none => (some .bucketNotFound, M)
  | some m => (op.result, M.insert name (op.apply m))

/-- A call on the model: what it returns, and the maps afterwards. -/
def apply (M : Maps) : Edit → Option Err × Maps
  | createBucket name =>
    if name = [] then (some .bucketNameRequired, M)
    else if (M.get name).isSome then (some .bucketExists, M)
    else (none, M.insert name .empty)
  | put name key value => applyOp M name (.put key value)
  | delete name key => applyOp M name (.delete key)
  | setFillPercent name _ => (if (M.get name).isSome then none else some .bucketNotFound, M)

/-- The calls on the model. -/
def applyAll (M : Maps) : List Edit → List (Option Err) × Maps
  | [] => ([], M)
  | x :: xs => ((x.apply M).1 :: (applyAll (x.apply M).2 xs).1, (applyAll (x.apply M).2 xs).2)

end Edit

/-- A write transaction: its calls, whether it commits, and the orders in which `Commit` ranges over
its maps. -/
structure WriteTx where
  edits : List Edit
  commits : Bool
  order : World → Tx.Order

namespace WriteTx

/-- The end of the transaction. -/
def finish (fuel : Nat) (t : TxId) (x : WriteTx) : Go (Option Err) :=
  if x.commits then do
    let o ← Prog.read x.order
    Tx.commit fuel t o
  else Tx.Rollback t

/-- `Begin` and the calls of the transaction. -/
def start (fuel : Nat) (x : WriteTx) : Go (Except Err (TxId × List (Option Err))) := do
  let r ← DB.begin_ true
  match r with
  | .error e => pure (.error e)
  | .ok t => do
    let es ← Edit.runAll fuel t x.edits
    pure (.ok (t, es))

/-- Perform the transaction: what its calls return, and what its end returns. -/
def run (fuel : Nat) (x : WriteTx) : Go (List (Option Err) × Option Err) := do
  let r ← x.start fuel
  match r with
  | .error e => pure ([], some e)
  | .ok r => do
    let e ← x.finish fuel r.1
    pure (r.2, e)

/-- Perform transactions one after the other. -/
def runAll (fuel : Nat) : List WriteTx → Go (List (List (Option Err) × Option Err))
  | [] => pure []
  | x :: xs => do
    let r ← x.run fuel
    let rs ← runAll fuel xs
    pure (r :: rs)

/-- The transaction on the model. It edits a copy, which a commit installs. -/
def apply (M : Maps) (x : WriteTx) : (List (Option Err) × Option Err) × Maps :=
  (((Edit.applyAll M x.edits).1, none), if x.commits then (Edit.applyAll M x.edits).2 else M)

/-- The transactions on the model. -/
def applyAll (M : Maps) : List WriteTx → List (List (Option Err) × Option Err) × Maps
  | [] => ([], M)
  | x :: xs => ((x.apply M).1 :: (applyAll (x.apply M).2 xs).1, (applyAll (x.apply M).2 xs).2)

/-- Go may range over the maps of the commit in this order. -/
def Ordered (x : WriteTx) (w : World) : Prop :=
  x.commits = true → ∀ t es w1, Evals (fun k => x.start k) w (.ok (t, es)) w1 →
    (x.order w1).Valid w1 t

/-- The commit of the transaction passes both tests. -/
def Admissible (x : WriteTx) (w : World) : Prop :=
  x.commits = true → ∀ t es w1, Evals (fun k => x.start k) w (.ok (t, es)) w1 →
    CommitFits w1 t (x.order w1)

end WriteTx

section
variable {w w' w0 : World} {b : BucketId} {dead : Finset TxId} {F : Set NodeId} {t : TxId}
  {name : Name} {m : SortedMap Bytes Bytes} {st : DbState} {V N M : Maps}

/-! ## The calls -/

namespace Editing

/-- A step on a bucket, next to the model. -/
lemma onBucket (h : Editing dead F w0 st V w t N M) (name : Name) (op : BucketOp) :
    ∃ w' N', Evals (fun k => Edit.onBucket t name fun b => op.run k b) w
      (Edit.applyOp M name op).1 w' ∧
      Editing dead F w0 st V w' t N' (Edit.applyOp M name op).2 ∧
      (w'.txs t).managed = (w.txs t).managed := by
  unfold Edit.applyOp
  rcases hM : M.get name with _ | m
  · exact ⟨w, N, .of_forall fun k => Prog.bind_ok (h.bucket_none hM), h, rfl⟩
  · obtain ⟨b, w1, N1, e1, hb, hN, h1, -, -, hman⟩ := h.bucket_some hM
    obtain ⟨w', e2, htxs, h'⟩ := h1.work hb hN op
    exact ⟨w', _, e2.mono fun k hk => (Prog.bind_ok e1).trans hk, h', by rw [htxs, hman]⟩

/-- A write of `FillPercent` changes nothing that the model shows. -/
lemma setFillPercent (h : Editing dead F w0 st V w t N M) (hb : (w.txs t).bctx.lookup name = some b)
    (hN : N.get name = some m) (f : Float64) :
    ∃ w', Bucket.setFillPercent b f w = (.ok (), w') ∧ w'.txs = w.txs ∧
      Editing dead F w0 st V w' t (N.insert name m) (M.insert name m) := by
  obtain ⟨m', hm', hh⟩ := h.handle name b hb
  rw [hN] at hm'
  cases hm'
  have hstay : ∀ k : Nat, Stays (Along w b F) w (Bucket.setFillPercent b f) fun _ _ => True :=
    fun _ => stays_setFillPercent (h.iso.within (h.live hb))
  rcases hh with ⟨g, r, H, hh⟩ | ⟨g, r, H, hh⟩
  · obtain ⟨e, hh', -, -⟩ := HoldsAt.setFillPercent (.inl ⟨g, r, hh⟩) h.sound f
    obtain ⟨htxs, h'⟩ := h.call hb hN hstay (.of_eq e) hh'.holds
    exact ⟨_, e, htxs, h'⟩
  · obtain ⟨e, hh', -, -⟩ := HoldsAt.setFillPercent (.inr ⟨g, r, hh⟩) h.sound f
    obtain ⟨htxs, h'⟩ := h.call hb hN hstay (.of_eq e) hh'.holds
    exact ⟨_, e, htxs, h'⟩

/-- A call, next to the model. -/
lemma edit (h : Editing dead F w0 st V w t N M) (x : Edit) :
    ∃ w' N', Evals (fun k => x.run k t) w (x.apply M).1 w' ∧
      Editing dead F w0 st V w' t N' (x.apply M).2 ∧ (w'.txs t).managed = (w.txs t).managed := by
  cases x with
  | createBucket name =>
    by_cases hname : name = []
    · have hap : Edit.apply M (.createBucket name) = (some .bucketNameRequired, M) := if_pos hname
      have e := createBucket_eq_of_empty h.opened h.writable hname
      rw [hap]
      exact ⟨w, N, .of_eq (Prog.bind_ok e), h, rfl⟩
    rcases hM : M.get name with _ | m
    · have hap : Edit.apply M (.createBucket name) = (none, M.insert name .empty) :=
        (if_neg hname).trans (if_neg (by simp [hM]))
      obtain ⟨b, w', e, h', -, -, hman⟩ := h.create hname hM
      rw [hap]
      exact ⟨w', _, .of_eq (Prog.bind_ok e), h', hman⟩
    · have hap : Edit.apply M (.createBucket name) = (some .bucketExists, M) :=
        (if_neg hname).trans (if_pos (by simp [hM]))
      have e := createBucket_eq_of_taken h.opened h.writable hname (h.taken_iff.2 (by rw [hM]; rfl))
      rw [hap]
      exact ⟨w, N, .of_eq (Prog.bind_ok e), h, rfl⟩
  | put name key value => exact h.onBucket name (.put key value)
  | delete name key => exact h.onBucket name (.delete key)
  | setFillPercent name f =>
    rcases hM : M.get name with _ | m
    · have hap : Edit.apply M (.setFillPercent name f) = (some .bucketNotFound, M) := by
        simp [Edit.apply, hM]
      rw [hap]
      exact ⟨w, N, .of_forall fun k => Prog.bind_ok (h.bucket_none hM), h, rfl⟩
    · have hap : Edit.apply M (.setFillPercent name f) = (none, M) := by simp [Edit.apply, hM]
      obtain ⟨b, w1, N1, e1, hb, hN, h1, -, -, hman⟩ := h.bucket_some hM
      obtain ⟨w', e2, htxs, h'⟩ := h1.setFillPercent hb hN f
      rw [SortedMap.insert_get hM] at h'
      rw [hap]
      refine ⟨w', _, .of_forall fun k => (Prog.bind_ok e1).trans ?_, h', by rw [htxs, hman]⟩
      exact Prog.bind_ok e2

/-- The calls of a transaction, next to the model. -/
lemma edits (h : Editing dead F w0 st V w t N M) (xs : List Edit) :
    ∃ w' N', Evals (fun k => Edit.runAll k t xs) w (Edit.applyAll M xs).1 w' ∧
      Editing dead F w0 st V w' t N' (Edit.applyAll M xs).2 ∧
      (w'.txs t).managed = (w.txs t).managed := by
  induction xs generalizing w N M with
  | nil => exact ⟨w, N, .pure, h, rfl⟩
  | cons x xs ih =>
    obtain ⟨w1, N1, e1, h1, hman1⟩ := h.edit x
    obtain ⟨w2, N2, e2, h2, hman2⟩ := ih h1
    exact ⟨w2, N2, e1.bind (e2.bind .pure), h2, hman2.trans hman1⟩

end Editing

/-! ## The transactions -/

lemma Edit.onBucket_growing {t : TxId} {name : Name} {f : Nat → BucketId → Go (Option Err)}
    (hf : ∀ b, Growing fun k => f k b) : Growing fun k => Edit.onBucket t name (f k) := by
  refine fun k => (Below.refl _).bind fun b => ?_
  cases b with
  | none => exact .refl _
  | some b => exact hf b k

lemma Edit.run_growing (t : TxId) (x : Edit) : Growing fun k => x.run k t := by
  cases x with
  | createBucket name => exact fun k => .refl _
  | put name key value => exact Edit.onBucket_growing fun b => put_growing b key value
  | delete name key => exact Edit.onBucket_growing fun b => delete_growing b key
  | setFillPercent name f => exact fun k => .refl _

lemma Edit.runAll_growing (t : TxId) (xs : List Edit) : Growing fun k => Edit.runAll k t xs := by
  intro k
  induction xs with
  | nil => exact .refl _
  | cons x xs ih => exact (x.run_growing t k).bind fun _ => ih.bind fun _ => .refl _

namespace WriteTx

lemma start_growing (x : WriteTx) : Growing fun k => x.start k := by
  refine fun k => (Below.refl _).bind fun r => ?_
  cases r with
  | error e => exact .refl _
  | ok t => exact (Edit.runAll_growing t x.edits k).bind fun _ => .refl _

lemma finish_growing (t : TxId) (x : WriteTx) : Growing fun k => x.finish k t := by
  intro k
  unfold finish
  split
  · exact (Below.refl _).bind fun o => commit_growing t o k
  · exact .refl _

lemma run_growing (x : WriteTx) : Growing fun k => x.run k := by
  refine fun k => (x.start_growing k).bind fun r => ?_
  cases r with
  | error e => exact .refl _
  | ok r => exact (x.finish_growing r.1 k).bind fun _ => .refl _

end WriteTx

/-- A value of which two fit into a leaf that is cut. -/
def bigValue : Bytes := List.replicate 22000 0

/-- A new bucket with the keys `[1]` to `[8]`. Its commit cuts it after `[2]` and after `[4]`. -/
def fillBucket : WriteTx where
  edits := .createBucket [1] :: [1, 2, 3, 4, 5, 6, 7, 8].map fun i => .put [1] [i] (some bigValue)
  commits := true
  order _ := ⟨[([1], [0])], [[1]], [[1]]⟩

/-- Two deletes that are rolled back. -/
def dropEdits : WriteTx where
  edits := [.delete [1] [1], .delete [1] [3]]
  commits := false
  order _ := ⟨[], [], []⟩

/-- Where the first transaction commits. -/
@[irreducible] def filling : World := (fillBucket.start 20 (World.init default false)).2

/-- The three leaves. -/
@[irreducible] def filled : World := (fillBucket.run 20 (World.init default false)).2

/-- The same after the transaction that is rolled back. -/
@[irreducible] def dropped : World := (dropEdits.run 20 filled).2

end

end Vmbolt
