import Vmbolt.Model.Growing
import Vmbolt.Tree.Writing

/-!
# Reading one's own writes

Within one write transaction, a bucket refines a sorted map: whatever sequence of `Put`, `Delete`
and `Cursor.Delete` is performed on it, every call returns, and `Get`, `Seek` and a complete scan
answer as the map that was updated by the same steps.
-/

namespace Vmbolt
open Filter Prog

/-- A step on a bucket. The last two are a `Cursor.Delete` directly after a `First` or a `Seek`, if
that returned a key. -/
inductive BucketOp where
  | put (key : Bytes) (value : Option Bytes)
  | delete (key : Bytes)
  | deleteFirst
  | deleteSeek (seek : Bytes)
  deriving DecidableEq, Repr

namespace BucketOp

/-- The sizes `Put` admits. -/
def Admits (key : Bytes) (value : Option Bytes) : Prop :=
  key ≠ [] ∧ key.length ≤ maxKeySize ∧ lenBytes value ≤ maxValueSize

instance (key : Bytes) (value : Option Bytes) : Decidable (Admits key value) :=
  inferInstanceAs (Decidable (_ ∧ _))

/-- `Cursor.Delete`, if the cursor has just returned a key. -/
def deleteFound (r : Item × Cursor) : Go (Option Err) :=
  match r.1.1 with
  | none => pure none
  | some _ => r.2.delete

/-- Perform the step on the bucket `b`. -/
def run (fuel : Nat) (b : BucketId) : BucketOp → Go (Option Err)
  | put key value => Bucket.put fuel b key value
  | delete key => Bucket.delete fuel b key
  | deleteFirst => do
    let r ← Prog.query fun w => Cursor.First fuel w (Bucket.cursor b)
    deleteFound r
  | deleteSeek seek => do
    let r ← Prog.query fun w => Cursor.Seek fuel w (Bucket.cursor b) seek
    deleteFound r

/-- Perform the steps one after the other. -/
def runAll (fuel : Nat) (b : BucketId) : List BucketOp → Go (List (Option Err))
  | [] => pure []
  | op :: ops => do
    let e ← op.run fuel b
    let es ← runAll fuel b ops
    pure (e :: es)

/-- The step on the reference map. -/
def apply (m : SortedMap Bytes Bytes) : BucketOp → SortedMap Bytes Bytes
  | put key value => if Admits key value then m.insert key (value.getD []) else m
  | delete key => m.erase key
  | deleteFirst =>
    match m.entries.head? with
    | none => m
    | some e => m.erase e.1
  | deleteSeek seek =>
    match m.seek seek with
    | none => m
    | some e => m.erase e.1

/-- What the step returns. -/
def result : BucketOp → Option Err
  | put key value =>
    if key.length = 0 then some .keyRequired
    else if maxKeySize < key.length then some .keyTooLarge
    else if maxValueSize < lenBytes value then some .valueTooLarge
    else none
  | _ => none

end BucketOp

lemma BucketOp.run_growing (b : BucketId) (op : BucketOp) : Growing fun k => op.run k b := by
  intro k
  cases op with
  | put key value => exact put_growing b key value k
  | delete key => exact delete_growing b key k
  | deleteFirst => exact (Below.query fun w => First_growing w _ k).bind fun _ => .refl _
  | deleteSeek seek => exact (Below.query fun w => Seek_growing w _ seek k).bind fun _ => .refl _

lemma BucketOp.runAll_growing (b : BucketId) (ops : List BucketOp) :
    Growing fun k => runAll k b ops := by
  intro k
  induction ops with
  | nil => exact .refl _
  | cons op ops ih => exact (op.run_growing b k).bind fun _ => ih.bind fun _ => .refl _

/-- A bucket as a write transaction finds it: a committed tree of any height, or a bucket that was
just created. -/
inductive StartsAs (w : World) (b : BucketId) : SortedMap Bytes Bytes → Prop
  | committed {g : Layout} {r : NodeId} {H : Nat} {m : SortedMap Bytes Bytes} :
    Untouched w b g r H → contents w H r = m.entries → StartsAs w b m
  | created {w0 : World} {t : TxId} {name : Name} :
    w0.Sound → Tx.createBucket t name w0 = (.ok (.ok b), w) → StartsAs w b SortedMap.empty

section
variable {w : World} {b : BucketId} {m : SortedMap Bytes Bytes}

lemma StartsAs.holds (h : StartsAs w b m) : Holds w b m := by
  cases h with
  | committed hu hm => exact .inr ⟨_, _, _, hu, hm⟩
  | created hs hc =>
    obtain ⟨-, -, rfl, hn⟩ := createBucket_ok hs hc
    exact hn.holdsAt.holds

/-- A rejected `Put` does nothing. -/
lemma put_rejected (hw : Writable w b) {key : Bytes} {value : Option Bytes}
    (h : ¬ BucketOp.Admits key value) (fuel : Nat) :
    Bucket.put fuel b key value w = (.ok (BucketOp.put key value).result, w) := by
  unfold Bucket.put Bucket.txOf
  rw [Prog.read_bind, if_neg (by rw [hw.opened]; simp), if_neg (by rw [hw.writable]; simp)]
  dsimp only [BucketOp.result]
  by_cases h1 : key.length = 0
  · simp only [if_pos h1]
    rfl
  by_cases h2 : maxKeySize < key.length
  · simp only [if_neg h1, if_pos h2]
    rfl
  by_cases h3 : maxValueSize < lenBytes value
  · simp only [if_neg h1, if_neg h2, if_pos h3]
    rfl
  · exact absurd ⟨by simpa using h1, by omega, by omega⟩ h

lemma BucketOp.run_deleteFirst {fuel : Nat} {r : Item × Cursor}
    (h : Cursor.First fuel w (Bucket.cursor b) = .ok r) :
    run fuel b deleteFirst w = deleteFound r w :=
  Prog.query_bind (f := fun w => Cursor.First fuel w (Bucket.cursor b)) h

lemma BucketOp.run_deleteSeek {fuel : Nat} {r : Item × Cursor} {seek : Bytes}
    (h : Cursor.Seek fuel w (Bucket.cursor b) seek = .ok r) :
    run fuel b (deleteSeek seek) w = deleteFound r w :=
  Prog.query_bind (f := fun w => Cursor.Seek fuel w (Bucket.cursor b) seek) h

/-- A `Put`, admitted or not. -/
lemma BucketOp.run_put (h : Holds w b m) (hw : Writable w b) (key : Bytes) (value : Option Bytes) :
    ∃ w', Evals (fun fuel => (put key value).run fuel b) w (put key value).result w' ∧
      Holds w' b ((put key value).apply m) ∧ Quiet b w w' ∧ NoneFlagged b w w' := by
  by_cases hadm : Admits key value
  · obtain ⟨hk, hkl, hv⟩ := hadm
    obtain ⟨w', e, hh, hq, hn⟩ := h.put hw hk hkl hv
    have hres : (BucketOp.put key value).result = none := by
      simp [result, hk, not_lt.2 hkl, not_lt.2 hv]
    refine ⟨w', hres ▸ e, ?_, hq, hn⟩
    simpa [apply, Admits, hk, hkl, hv, cloneBytes] using hh
  · refine ⟨w, .of_forall fun fuel => put_rejected hw hadm fuel, ?_, .refl b w, .refl b w⟩
    simpa [apply, hadm] using h

/-- One step. -/
lemma BucketOp.run_eq (h : Holds w b m) (hw : Writable w b) (op : BucketOp) :
    ∃ w', Evals (fun fuel => op.run fuel b) w op.result w' ∧ Holds w' b (op.apply m) ∧
      Quiet b w w' := by
  cases op with
  | put key value =>
    obtain ⟨w', e, hh, hq, -⟩ := run_put h hw key value
    exact ⟨w', e, hh, hq⟩
  | delete key => exact h.delete hw key
  | deleteFirst =>
    obtain ⟨g, r, H, ht, -, hroot, hm, -⟩ := h.reach
    rcases hf : m.entries.head? with _ | ⟨k, v⟩
    · obtain ⟨l, i, st, hgo, -⟩ := first_eq ht hroot hw.opened (c := Bucket.cursor b) rfl
      refine ⟨w, ?_, by simpa [apply, hf] using h, .refl b w⟩
      filter_upwards [eventually_ge_atTop (H + (leaves w H r).length + 2)] with fuel hfuel
      rw [hm, hf] at hgo
      exact run_deleteFirst (hgo fuel hfuel)
    · obtain ⟨c, w', e, hd, hh, hq⟩ := h.deleteFirst hw hf
      refine ⟨w', ?_, by simpa [apply, hf] using hh, hq⟩
      filter_upwards [e] with fuel e
      exact (run_deleteFirst e).trans hd
  | deleteSeek seek =>
    obtain ⟨g, r, H, ht, hx, hroot, hm, -⟩ := h.reach
    rcases hf : m.seek seek with _ | ⟨k, v⟩
    · obtain ⟨l, i, st, hgo, -⟩ := seek_eq ht hx hroot hw.opened (c := Bucket.cursor b) rfl seek
      have hf' : seekEntry seek (contents w H r) = none := by rw [hm]; exact hf
      refine ⟨w, ?_, by simpa [apply, hf] using h, .refl b w⟩
      filter_upwards [eventually_ge_atTop (H + (leaves w H r).length + 2)] with fuel hfuel
      rw [hf'] at hgo
      exact run_deleteSeek (hgo fuel hfuel)
    · obtain ⟨c, w', e, hd, hh, hq⟩ := h.deleteSeek hw hf
      refine ⟨w', ?_, by simpa [apply, hf] using hh, hq⟩
      filter_upwards [e] with fuel e
      exact (run_deleteSeek e).trans hd

/-- A sequence of steps. -/
lemma BucketOp.runAll_eq (h : Holds w b m) (hw : Writable w b) (ops : List BucketOp) :
    ∃ w', Evals (fun fuel => runAll fuel b ops) w (ops.map result) w' ∧
      Holds w' b (ops.foldl apply m) ∧ Quiet b w w' := by
  induction ops generalizing w m with
  | nil => exact ⟨w, .pure, h, .refl b w⟩
  | cons op ops ih =>
    obtain ⟨w1, e1, h1, q1⟩ := op.run_eq h hw
    obtain ⟨w2, e2, h2, q2⟩ := ih h1 (q1.writable hw)
    exact ⟨w2, e1.bind (e2.bind .pure), h2, q1.trans q2⟩

/-- After any sequence of steps on a bucket, the bucket answers as the map that was updated by the
same steps. -/
theorem bucket_answers_after_writes (h : StartsAs w b m) (hw : Writable w b) (ops : List BucketOp) :
    ∃ w', Evals (fun fuel => BucketOp.runAll fuel b ops) w (ops.map BucketOp.result) w' ∧
      Answers w' b (ops.foldl BucketOp.apply m) := by
  obtain ⟨w', e, hh, hq⟩ := BucketOp.runAll_eq h.holds hw ops
  exact ⟨w', e, hh.answers (hq.opened hw.opened)⟩

/-- An empty database in which a write transaction was begun. -/
def firstTx : World := (DB.begin_ true (World.init default false)).2

/-- The same after the transaction has created a bucket. -/
def firstBucket : World := (Tx.createBucket 0 [1] firstTx).2

theorem bucket_answers_after_writes_first : ∃ w', Evals (fun fuel => BucketOp.runAll fuel 0
      [.put [2] none, .put [] none, .deleteSeek [1], .delete [7]]) firstBucket
      [none, some .keyRequired, none, none] w' ∧
    Answers w' 0 ([.put [2] none, .put [] none, .deleteSeek [1], .delete [7]].foldl BucketOp.apply
      SortedMap.empty) :=
  bucket_answers_after_writes (.created
    (⟨rfl, fun n hn => absurd hn (Nat.not_lt_zero n), fun n hn => absurd hn (Nat.not_lt_zero n)⟩ :
      firstTx.Sound)
    (rfl : Tx.createBucket 0 [1] firstTx = (.ok (.ok 0), firstBucket))) ⟨rfl, rfl⟩ _

end

end Vmbolt
