import Vmbolt.Isolation.Invariant

/-!
# The calls that keep the published nodes

Every function of `tx.go` and `db.go` but `Commit` keeps the ownership invariant for the same set of
published nodes, also when a panic cuts it off between two writes.
-/

namespace Vmbolt
open Prog

section
variable {w w' : World} {b : BucketId} {dead : Finset TxId} {F : Set NodeId} {t : TxId}
  {name : Name}

/-- Write fields of a transaction. -/
lemma Iso.txModify {f : Tx → Tx} (h : Iso dead F w)
    (hbase : ∀ st, (f (w.txs t)).base = some st → (w.txs t).base = some st)
    (hdb : (f (w.txs t)).db = true → (w.txs t).db = true ∧ (f (w.txs t)).base = (w.txs t).base)
    (hwr : (f (w.txs t)).writable = (w.txs t).writable)
    (hdir : (w.txs t).writable = false → (f (w.txs t)).created = ∅ ∧ (f (w.txs t)).deleted = ∅)
    (hbctx : ∀ name b, (f (w.txs t)).bctx.lookup name = some b →
      b < w.nextBucket ∧ (w.buckets b).tx = t) :
    Stays (Keeps dead F) w (Tx.modify t f) fun _ w' => w'.buckets = w.buckets ∧
      w'.nextBucket = w.nextBucket ∧ w'.txs t = f (w.txs t) := by
  refine h.stays_write fun c => ⟨?_, rfl, rfl, by simp [World.setTx]⟩
  set w' := World.setTx { w with cut := c } t (f (w.txs t)) with hw'
  have hself : w'.txs t = f (w.txs t) := by simp [hw', World.setTx]
  have hother : ∀ t', t' ≠ t → w'.txs t' = w.txs t' := fun t' ht => by simp [hw', World.setTx, ht]
  have hpin : ∀ t', Pinned w w' t' := fun t' => by
    by_cases e : t' = t
    · subst e
      exact ⟨by rw [hself, hwr], by rw [hself]; exact hdb⟩
    · exact .of_eq (hother t' e)
  refine h.bookkeeping rfl rfl rfl rfl (fun b _ => ⟨rfl, fun hl => ?_⟩)
    (fun _ h1 h2 => absurd h2 (not_lt.2 h1)) h.state (fun t' st hst => ?_) le_rfl
    (fun t' ho => h.opened t' ((hpin t').base ho).1) h.handle_tx (fun t' name b hl => ?_)
    (fun t' hr => ?_) le_rfl fun t' _ => hpin t'
  · exact ⟨hl.alloc, ((hpin _).base hl.opened).1, (hpin _).writable ▸ hl.writable, hl.alive⟩
  all_goals by_cases e : t' = t
  · subst e
    exact h.base t' st (hbase st (hself ▸ hst))
  · exact h.base t' st (hother t' e ▸ hst)
  · subst e
    exact hbctx name b (hself ▸ hl)
  · exact h.bctx t' name b (hother t' e ▸ hl)
  · subst e
    rw [hself] at hr ⊢
    exact hdir (hwr ▸ hr)
  · rw [hother t' e] at hr ⊢
    exact h.reader t' hr

lemma lookup_erase {m : AList fun _ : Name => BucketId} {key : Name}
    (h : (m.erase key).lookup name = some b) : m.lookup name = some b := by
  by_cases e : name = key
  · subst e
    rw [AList.lookup_erase] at h
    cases h
  · rwa [AList.lookup_erase_ne e] at h

/-- Write the directory of a transaction that may write. -/
lemma Iso.modifyDir {f : Tx → Tx} (h : Iso dead F w) (hw : (w.txs t).writable = true)
    (hbase : (f (w.txs t)).base = (w.txs t).base) (hdb : (f (w.txs t)).db = (w.txs t).db)
    (hwr : (f (w.txs t)).writable = (w.txs t).writable)
    (hbctx : ∀ name b, (f (w.txs t)).bctx.lookup name = some b →
      (w.txs t).bctx.lookup name = some b) :
    Stays (Keeps dead F) w (Tx.modify t f) fun _ w' => w'.buckets = w.buckets ∧
      w'.nextBucket = w.nextBucket ∧ w'.txs t = f (w.txs t) :=
  h.txModify (fun st => by rw [hbase]; exact id) (fun ho => ⟨hdb ▸ ho, hbase⟩) hwr
    (fun hr => by rw [hw] at hr; cases hr) fun name b hl => h.bctx t name b (hbctx name b hl)

/-- Write the record of the database, but for the published state. -/
lemma Iso.setDb {f : DB → DB} (h : Iso dead F w)
    (hf : ∀ st, (f w.db).state = some st → w.db.state = some st) :
    Stays (Keeps dead F) w (write fun w => { w with db := f w.db }) fun _ _ => True :=
  h.stays_write fun _ => ⟨h.bookkeeping rfl rfl rfl rfl
    (fun _ _ => ⟨rfl, fun hl => ⟨hl.alloc, hl.opened, hl.writable, hl.alive⟩⟩)
    (fun _ h1 h2 => absurd h2 (not_lt.2 h1)) (fun st hst => h.state st (hf st hst)) h.base le_rfl
    h.opened h.handle_tx h.bctx h.reader le_rfl fun _ _ => .of_eq rfl, trivial⟩

/-! ## The directory -/

lemma Iso.newBucket (h : Iso dead F w) (ho : (w.txs t).db = true) :
    Stays (Keeps dead F) w (Bucket.newBucket t name) fun b w' =>
      b < w'.nextBucket ∧ (w'.buckets b).tx = t ∧ w'.txs = w.txs := by
  refine .read_bind (.bind (P := fun _ w' => w.nextBucket < w'.nextBucket ∧
    (w'.buckets w.nextBucket).tx = t ∧ w'.txs = w.txs) (h.stays_write fun c => ⟨?_, ?_⟩)
    fun _ w' hw hq => .pure hw.iso.refl hq)
  · refine h.bookkeeping rfl rfl rfl rfl (fun b hb => ⟨?_, fun hl => ?_⟩)
      (fun b h1 h2 => ?_) h.state
      h.base (Nat.le_succ _) h.opened (fun b hb => ?_) (fun t' name' b hl => ?_) h.reader le_rfl
      fun _ _ => .of_eq rfl
    · simp [World.setBucket, hb.ne]
    · obtain ⟨-, h2, h3, h4⟩ := hl
      simp only [World.setBucket, Function.update_of_ne hb.ne] at h2 h3 h4
      exact ⟨hb, h2, h3, h4⟩
    · obtain rfl : b = w.nextBucket := le_antisymm (Nat.lt_succ_iff.1 h2) h1
      simp [World.setBucket]
    · by_cases e : b = w.nextBucket
      · subst e
        simpa [World.setBucket] using h.opened t ho
      · simpa [World.setBucket, e] using h.handle_tx b (lt_of_le_of_ne (Nat.lt_succ_iff.1 hb) e)
    · obtain ⟨h1, h2⟩ := h.bctx t' name' b hl
      exact ⟨h1.trans (Nat.lt_succ_self _), by simpa [World.setBucket, h1.ne] using h2⟩
  · exact ⟨Nat.lt_succ_self _, by simp [World.setBucket], rfl⟩

lemma Iso.putBctx (h : Iso dead F w) (hb : b < w.nextBucket) (ht : (w.buckets b).tx = t) :
    Stays (Keeps dead F) w (Tx.putBctx t name b) fun _ _ => True := by
  refine (h.txModify (fun _ => id) (fun ho => ⟨ho, rfl⟩) rfl (h.reader t)
    fun name' b' hl => ?_).mono fun _ _ _ _ => trivial
  by_cases e : name' = name
  · subst e
    rw [AList.lookup_insert] at hl
    cases hl
    exact ⟨hb, ht⟩
  · rw [AList.lookup_insert_ne e] at hl
    exact h.bctx t name' b' hl

lemma Iso.bucket (h : Iso dead F w) :
    Stays (Keeps dead F) w (Tx.bucket t name) fun _ _ => True := by
  refine .read_bind (.guard h.refl trivial fun ho => ?_)
  split
  · exact .pure h.refl trivial
  refine .guard h.refl trivial fun _ => ?_
  split
  · exact .pure h.refl trivial
  · refine .bind (h.newBucket (by simpa using ho)) fun b w1 h1 hb => ?_
    exact .bind (h1.iso.putBctx hb.1 hb.2.1) fun _ w2 h2 _ => .pure h2.iso.refl trivial

/-- The root node of a new bucket. -/
abbrev Bucket.newRoot (b : BucketId) : Go Unit := do
  let s ← nilInodes
  let root ← newNode { bucket := some b, isLeaf := true, unbalanced := false, spilled := false,
                       key := [], parent := none, inodes := s }
  modifyBucket b fun bk => { bk with rootNode := some root }
  markDirty b root

/-- The end of `Tx.CreateBucket`. -/
abbrev Tx.enter (t : TxId) (name : Name) (b : BucketId) : Go (Except Err BucketId) := do
  Tx.modify t fun tx => { tx with created := insert name tx.created }
  Tx.modify t fun tx => { tx with deleted := tx.deleted.erase name }
  Tx.putBctx t name b
  pure (.ok b)

/-- The writes of `Tx.close` to the transaction. -/
abbrev Tx.clearFields (t : TxId) : Go Unit := do
  Tx.modify t fun tx => { tx with db := false }
  Tx.modify t fun tx => { tx with base := none }
  Tx.modify t fun tx => { tx with bctx := ∅ }
  Tx.modify t fun tx => { tx with created := ∅ }
  Tx.modify t fun tx => { tx with deleted := ∅ }

lemma stays_newRoot {w0 : World} (h : Within w0 b F w) :
    Stays (Along w0 b F) w (Bucket.newRoot b) fun _ _ => True := by
  refine .bind (stays_nilInodes h) fun s w1 h1 hs => ?_
  refine .bind (stays_newNode h1.within ⟨rfl, hs, nofun⟩) fun n w2 h2 hn => ?_
  refine .bind
    (stays_modifyBucket h2.within rfl rfl h2.within.dirty fun r e => by cases e; exact hn)
    fun _ w3 h3 _ => ?_
  exact stays_markDirty h3.within (hn.mono h3.nextNode)

section
variable (h : Iso dead F w)
include h

lemma Iso.createBucket (ht : t ∉ dead) :
    Stays (Keeps dead F) w (Tx.createBucket t name) fun _ _ => True := by
  refine .read_bind (.guard h.refl trivial fun ho => .guard h.refl trivial fun hw =>
    .guard h.refl trivial fun _ => .guard h.refl trivial fun _ => ?_)
  refine .bind (h.newBucket (by simpa using ho)) fun b w1 h1 ⟨hb, hbt, htx⟩ => ?_
  have hl : Live w1 dead b :=
    ⟨hb, by rw [hbt, htx]; simpa using ho, by rw [hbt, htx]; simpa using hw, by rwa [hbt]⟩
  -- the writes to the new handle are one stretch of a call of that handle
  have hroot := (stays_newRoot (h1.iso.within hl)).mono (Q := fun _ w2 => b < w2.nextBucket ∧
    (w2.buckets b).tx = t ∧ (w2.txs t).writable = true) fun _ w2 hw2 _ =>
      ⟨by rw [hw2.within.nextBucket]; exact hb, hw2.within.handle_tx.trans hbt,
        by rw [hw2.within.txs, htx]; simpa using hw⟩
  have hrest : ∀ w2, Keeps dead F w1 w2 → b < w2.nextBucket ∧ (w2.buckets b).tx = t ∧
      (w2.txs t).writable = true →
      Stays (Keeps dead F) w2 (Tx.enter t name b) fun _ _ => True := by
    intro w2 h2 hb2
    obtain ⟨hb2, hbt2, hw2⟩ := hb2
    refine .bind (h2.iso.modifyDir hw2 rfl rfl rfl fun _ _ => id) fun _ w3 h3 e3 => ?_
    have hw3 : (w3.txs t).writable = true := by rw [e3.2.2]; exact hw2
    refine .bind (h3.iso.modifyDir hw3 rfl rfl rfl fun _ _ => id) fun _ w4 h4 e4 => ?_
    refine .bind (h4.iso.putBctx ?_ ?_) fun _ w5 h5 _ => .pure h5.iso.refl trivial
    · rw [e4.2.1, e3.2.1]
      exact hb2
    · rw [e4.1, e3.1]
      exact hbt2
  simpa only [bind_assoc] using Stays.bind (h1.iso.stays hl hroot) fun _ w2 h2 hb2 =>
    hrest w2 h2 hb2

lemma Iso.deleteBucket : Stays (Keeps dead F) w (Tx.deleteBucket t name) fun _ _ => True := by
  refine .read_bind (.guard h.refl trivial fun _ => .guard h.refl trivial fun hw => ?_)
  simp only [Bool.not_eq_false] at hw
  split
  · refine .bind (h.modifyDir hw rfl rfl rfl fun _ _ => id) fun _ w1 h1 e1 => ?_
    have hw1 : (w1.txs t).writable = true := by rw [e1.2.2]; exact hw
    exact .bind (h1.iso.modifyDir hw1 rfl rfl rfl fun _ _ => lookup_erase) fun _ w2 h2 _ =>
      .pure h2.iso.refl trivial
  · refine .guard h.refl trivial fun _ => .bind (h.modifyDir hw rfl rfl rfl fun _ _ => id)
      fun _ w1 h1 e1 => ?_
    have hw1 : (w1.txs t).writable = true := by rw [e1.2.2]; exact hw
    exact .bind (h1.iso.modifyDir hw1 rfl rfl rfl fun _ _ => lookup_erase) fun _ w2 h2 _ =>
      .pure h2.iso.refl trivial

lemma Iso.createBucketIfNotExists (ht : t ∉ dead) :
    Stays (Keeps dead F) w (Tx.createBucketIfNotExists t name) fun _ _ => True := by
  refine .read_bind (.guard h.refl trivial fun _ => .guard h.refl trivial fun _ =>
    .guard h.refl trivial fun _ => ?_)
  refine .bind h.bucket fun b w1 h1 _ => ?_
  cases b with
  | some b => exact .pure h1.iso.refl trivial
  | none => exact h1.iso.createBucket ht

/-! ## Opening and closing transactions -/

lemma Iso.unlock : Stays (Keeps dead F) w Tx.unlock fun _ _ => True := by
  refine .read_bind ?_
  split
  · exact h.setDb (f := fun db => { db with rwlock := false }) fun _ => id
  · exact .panic h.refl

/-- Clear a field of a closed transaction. -/
lemma Iso.clear {f : Tx → Tx} (hc : (w.txs t).db = false)
    (hbase : ∀ st, (f (w.txs t)).base = some st → (w.txs t).base = some st)
    (hdb : (f (w.txs t)).db = (w.txs t).db) (hwr : (f (w.txs t)).writable = (w.txs t).writable)
    (hdir : (w.txs t).writable = false → (f (w.txs t)).created = ∅ ∧ (f (w.txs t)).deleted = ∅)
    (hbctx : ∀ name b, (f (w.txs t)).bctx.lookup name = some b →
      (w.txs t).bctx.lookup name = some b) :
    Stays (Keeps dead F) w (Tx.modify t f) fun _ w' => (w'.txs t).db = false :=
  (h.txModify hbase (fun ho => by rw [hdb, hc] at ho; cases ho) hwr hdir fun name b hl =>
    h.bctx t name b (hbctx name b hl)).mono fun _ w' _ e => by rw [e.2.2, hdb, hc]

lemma Iso.close : Stays (Keeps dead F) w (Tx.close t) fun _ _ => True := by
  refine .read_bind ?_
  split
  · exact .pure h.refl trivial
  have hclear : ∀ w1, Iso dead F w1 → Stays (Keeps dead F) w1 (Tx.clearFields t) fun _ _ =>
      True := by
    intro w1 h1
    refine .bind (h1.txModify (fun _ => id) nofun rfl (h1.reader t) fun name b => h1.bctx t name b)
      fun _ w2 h2 e2 => ?_
    have hc2 : (w2.txs t).db = false := by rw [e2.2.2]
    refine .bind (h2.iso.clear hc2 nofun rfl rfl (h2.iso.reader t) fun _ _ => id)
      fun _ w3 h3 hc3 => ?_
    refine .bind
      (h3.iso.clear hc3 (fun _ => id) rfl rfl (h3.iso.reader t) fun _ _ hl => by simp at hl)
      fun _ w4 h4 hc4 => ?_
    refine .bind (h4.iso.clear hc4 (fun _ => id) rfl rfl (fun hr => ⟨rfl, (h4.iso.reader t hr).2⟩)
      fun _ _ => id) fun _ w5 h5 hc5 => ?_
    exact (h5.iso.clear hc5 (fun _ => id) rfl rfl (fun hr => ⟨(h5.iso.reader t hr).1, rfl⟩)
      fun _ _ => id).mono fun _ _ _ _ => trivial
  dsimp only
  split
  · exact .bind h.unlock fun _ w1 h1 _ => hclear w1 h1.iso
  · exact hclear w h

lemma Iso.rollback : Stays (Keeps dead F) w (Tx.Rollback t) fun _ _ => True := by
  refine .read_bind (.assert_bind h.refl fun _ => .guard h.refl trivial fun _ => ?_)
  exact .bind h.close fun _ w2 h2 _ => .pure h2.iso.refl trivial

/-- A new transaction is based on the published state. -/
lemma Iso.newTx {writable : Bool} {st : DbState} (hst : w.db.state = some st) :
    Stays (Keeps dead F) w (DB.newTx writable st) fun _ _ => True := by
  refine .read_bind (.bind (P := fun _ _ => True) (h.stays_write fun c => ⟨?_, trivial⟩)
    fun _ w' hw hq => .pure hw.iso.refl trivial)
  have hset : ∀ t', t' ≠ w.nextTx → ∀ tx, (w.setTx w.nextTx tx).txs t' = w.txs t' :=
    fun t' ht tx => by
    simp [World.setTx, ht]
  refine h.bookkeeping rfl rfl rfl rfl (fun b hb => ⟨rfl, fun hl => ?_⟩)
    (fun _ h1 h2 => absurd h2 (not_lt.2 h1)) h.state (fun t' st' hb => ?_) le_rfl (fun t' ho => ?_)
    (fun b hb => (h.handle_tx b hb).trans (Nat.lt_succ_self _)) (fun t' name b hl => ?_)
    (fun t' hr => ?_) (Nat.le_succ _) fun t' ht' => .of_eq (hset t' ht'.ne _)
  · obtain ⟨h1, h2, h3, h4⟩ := hl
    have hne := (h.handle_tx b hb).ne
    simp only [World.setTx, Function.update_of_ne hne] at h2 h3
    exact ⟨h1, h2, h3, h4⟩
  all_goals by_cases e : t' = w.nextTx
  · subst e
    simp only [World.setTx, Function.update_self] at hb
    cases hb
    exact h.state st hst
  · simp only [World.setTx, Function.update_of_ne e] at hb
    exact h.base t' st' hb
  · rw [e]
    exact Nat.lt_succ_self _
  · simp only [World.setTx, Function.update_of_ne e] at ho
    exact (h.opened t' ho).trans (Nat.lt_succ_self _)
  · subst e
    simp [World.setTx, Tx.zero] at hl
  · simp only [World.setTx, Function.update_of_ne e] at hl
    exact h.bctx t' name b hl
  · subst e
    simp [World.setTx, Tx.zero]
  · simp only [World.setTx, Function.update_of_ne e] at hr ⊢
    exact h.reader t' hr

lemma Iso.begin (writable : Bool) :
    Stays (Keeps dead F) w (DB.begin_ writable) fun _ _ => True := by
  unfold DB.begin_
  split
  · refine .read_bind ?_
    split
    · exact .pure h.refl trivial
    refine .bind (P := fun _ _ => True) ?_ fun _ w1 h1 _ => .read_bind ?_
    · refine .read_bind ?_
      split
      · exact .hang h.refl
      · exact h.setDb (f := fun db => { db with rwlock := true }) fun _ => id
    split
    · exact .bind h1.iso.unlock fun _ w2 h2 _ => .pure h2.iso.refl trivial
    split
    · exact .bind h1.iso.unlock fun _ w2 h2 _ => .pure h2.iso.refl trivial
    next st hst => exact .bind (h1.iso.newTx hst) fun _ w2 h2 _ => .pure h2.iso.refl trivial
  · refine .read_bind ?_
    split
    · exact .pure h.refl trivial
    split
    · exact .pure h.refl trivial
    next st hst => exact .bind (h.newTx hst) fun _ w2 h2 _ => .pure h2.iso.refl trivial

end

end

end Vmbolt
