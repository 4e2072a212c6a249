import Mathlib.Order.Filter.Finite
import Vmbolt.Directory.Invariant
import Vmbolt.Isolation.Bounds
import Vmbolt.Refinement.CursorModes
import Vmbolt.Refinement.Traversals
import Vmbolt.Snapshot.WriteTo

/-!
# The views of a directory

`Tx.Cursor`, `Tx.Bucket`, `Tx.ForEach`, `Tx.Size` and `Tx.Commit` compute each on its own which
buckets a transaction shows. By the invariant of the directory all of them arrive at the names that
are taken: not deleted, and created or in the base.
-/

namespace Vmbolt
open Filter Prog

/-- In `v` the transaction `t` has the directory that it has in `w`, but for handles. -/
structure Shows (ended : Finset TxId) (t : TxId) (w v : World) : Prop where
  cut : v.cut = none
  fits : Fits v
  iso : ∃ F, Iso ended F v
  dir : DirOK v t
  tx : v.txs t = { w.txs t with bctx := (v.txs t).bctx }

/-- The type of a callback of `Tx.ForEach` that threads a state `τ`. -/
abbrev Callback (τ : Type) : Type := τ → Name → Option BucketId → Go (τ × Option Err)

/-- One call of a callback: what it was passed and what it returned. -/
structure Visit where
  name : Name
  bucket : Option BucketId
  err : Option Err
  deriving DecidableEq

/-- A callback of `Tx.ForEach` that keeps a log of its calls. -/
def logged {τ : Type} (fn : Callback τ) : Callback (τ × List Visit) := fun s name b => do
  let r ← fn s.1 name b
  pure ((r.1, s.2 ++ [⟨name, b, r.2⟩]), r.2)

/-- What a loop over `names` leaves in the log: the calls went through the names, an error has ended
them, and it is what the loop returns. -/
structure Visits (names : List Name) (log : List Visit) (res : Option Err) : Prop where
  through : log.map Visit.name <+: names
  all : res = none → log.map Visit.name = names
  bucket : ∀ x ∈ log, x.bucket.isSome
  before : ∀ x ∈ log.dropLast, x.err = none
  last : res = log.getLast?.bind Visit.err

/-- The callback `fn`, called with a name and the handle that `Tx.Bucket` returns for it, returns
the error `r` in the state `v'` only if `P r v'`. -/
def Callback.Gives {τ : Type} (fn : Callback τ) (ended : Finset TxId) (t : TxId) (w : World)
    (P : Option Err → World → Prop) : Prop :=
  ∀ s name b v v1 r v', Shows ended t w v → Tx.bucket t name v = (.ok (some b), v1) →
    fn s name (some b) v1 = (.ok r, v') → P r.2 v'

/-- A callback that neither creates nor deletes a bucket of the transaction `t` nor closes it. -/
def Callback.KeepsDir {τ : Type} (fn : Callback τ) (ended : Finset TxId) (t : TxId) (w : World) :
    Prop :=
  fn.Gives ended t w fun _ v' => Shows ended t w v'

/-- A callback that returns no error. -/
def Callback.NoError {τ : Type} (fn : Callback τ) (ended : Finset TxId) (t : TxId) (w : World) :
    Prop :=
  fn.Gives ended t w fun r _ => r = none

/-- A callback that returns. -/
def Callback.Total {τ : Type} (fn : Callback τ) (ended : Finset TxId) (t : TxId) (w : World) :
    Prop :=
  ∀ s name b v v1, Shows ended t w v → Tx.bucket t name v = (.ok (some b), v1) →
    ∃ r v', fn s name (some b) v1 = (.ok r, v')

/-- The names that the loop of `Tx.ForEach` does not skip. -/
def unseen : List Name → Finset Name → List Name
  | [], _ => []
  | n :: names, seen => if n ∈ seen then unseen names seen else n :: unseen names (insert n seen)

section
variable {w w' v v' : World} {t : TxId} {ended dead : Finset TxId} {F : Set NodeId} {name : Name}
  {names : List Name} {fuel : Nat} {b : BucketId} {st : DbState}

/-! ## The names -/

lemma Tx.mem_cursor_dir {tx : Tx} (ho : tx.db = true) : name ∈ tx.cursor.dir ↔ tx.Taken name := by
  unfold Tx.cursor Tx.Taken Tx.bucketExistsCommitted
  rw [if_neg (by simp [ho])]
  simp only [Finset.mem_sort, Finset.mem_sdiff, Finset.mem_union, List.mem_toFinset,
    decide_eq_true_eq]
  tauto

/-- A published state has no nil buckets. -/
lemma Tx.baseBucket_isSome {tx : Tx} (hb : ∀ st, tx.base = some st → st.OK) :
    (tx.baseBucket name).isSome ↔ name ∈ tx.baseNames := by
  unfold Tx.baseBucket Tx.baseNames
  rcases hst : tx.base with _ | st
  · simp
  · dsimp only
    rw [← AList.mem_keys, ← AList.lookup_isSome]
    rcases hl : st.buckets.lookup name with _ | bs
    · simp
    · simpa using (hb st hst name bs hl).2

/-- A handle is one of a name that is taken. -/
lemma DirOK.taken (h : DirOK w t) (hbase : ∀ st, (w.txs t).base = some st → st.OK)
    (hb : (w.txs t).bctx.lookup name = some b) : (w.txs t).Taken name := by
  refine ⟨h.kept name b hb, ?_⟩
  rcases h.known name b hb with hc | hc
  · exact .inl hc
  · exact .inr (decide_eq_true ((Tx.baseBucket_isSome hbase).1 hc))

/-- A name that is taken and has no handle is in the base. -/
lemma DirOK.base_of_taken (h : DirOK w t) (hbase : ∀ st, (w.txs t).base = some st → st.OK)
    (ht : (w.txs t).Taken name) (hb : (w.txs t).bctx.lookup name = none) :
    ((w.txs t).baseBucket name).isSome := by
  rcases ht.2 with hc | hc
  · have := (h.created name hc).2
    rw [hb] at this
    cases this
  · exact (Tx.baseBucket_isSome hbase).2 (of_decide_eq_true hc)

/-! ## `Tx.Bucket` -/

/-- `Tx.Bucket` leaves the nodes alone. -/
lemma bucket_heap {o : Option BucketId} (h : Tx.bucket t name w = (.ok o, w')) :
    w'.nodes = w.nodes ∧ w'.arrays = w.arrays := by
  unfold Tx.bucket Tx.get at h
  rw [Prog.read_bind] at h
  by_cases ho : (w.txs t).db = false
  · rw [if_pos ho] at h
    cases h
    exact ⟨rfl, rfl⟩
  rw [if_neg ho] at h
  rcases hl : (w.txs t).bctx.lookup name with _ | b <;> rw [hl] at h
  swap
  · cases h
    exact ⟨rfl, rfl⟩
  dsimp only at h
  by_cases hd : name ∈ (w.txs t).deleted
  · rw [if_pos hd] at h
    cases h
    exact ⟨rfl, rfl⟩
  rw [if_neg hd] at h
  rcases hbs : (w.txs t).baseBucket name with _ | bs <;> rw [hbs] at h
  · cases h
    exact ⟨rfl, rfl⟩
  obtain ⟨b, w1, e1, h⟩ := Prog.bind_eq_ok h
  obtain ⟨u, w2, e2, h⟩ := Prog.bind_eq_ok h
  cases h
  unfold Tx.putBctx Tx.modify at e2
  obtain ⟨c2, rfl⟩ := write_eq_ok e2
  unfold Bucket.newBucket at e1
  rw [Prog.read_bind] at e1
  obtain ⟨u, w3, e3, e4⟩ := Prog.bind_eq_ok e1
  obtain ⟨c3, rfl⟩ := write_eq_ok e3
  cases e4
  exact ⟨rfl, rfl⟩

namespace Shows

lemma refl (hc : w.cut = none) (hf : Fits w) (hi : Iso ended F w) (hd : DirOK w t) :
    Shows ended t w w :=
  ⟨hc, hf, ⟨F, hi⟩, hd, rfl⟩

lemma sound (h : Shows ended t w v) : v.Sound := by
  obtain ⟨F, hi⟩ := h.iso
  exact ⟨h.cut, hi.arr_lt, fun n _ => h.fits.slice n⟩

lemma taken (h : Shows ended t w v) : (v.txs t).Taken name ↔ (w.txs t).Taken name := by
  rw [h.tx]
  rfl

/-- `Tx.Bucket` returns a handle for the names that are taken. -/
lemma bucket (h : Shows ended t w v) (ho : (w.txs t).db = true)
    (hbase : ∀ st, (w.txs t).base = some st → st.OK) (name : Name) :
    ∃ b v', Tx.bucket t name v = (.ok b, v') ∧ Shows ended t w v' ∧
      (b.isSome ↔ (w.txs t).Taken name) ∧ b = (v'.txs t).bctx.lookup name := by
  obtain ⟨F, hi⟩ := h.iso
  have ho' : (v.txs t).db = true := by
    rw [h.tx]
    exact ho
  have hbase' : ∀ st, (v.txs t).base = some st → st.OK := by
    rw [h.tx]
    exact hbase
  rw [← h.taken]
  rcases hl : (v.txs t).bctx.lookup name with _ | b
  swap
  · exact ⟨some b, v, bucket_eq_of_lookup ho' hl, h, by simpa using h.dir.taken hbase' hl, hl.symm⟩
  by_cases ht : (v.txs t).Taken name
  · have hsome := h.dir.base_of_taken hbase' ht hl
    obtain ⟨v', e, hd, -⟩ := bucket_eq_new h.sound ho' hl ht.1 hsome
    have hdir := (Iso.bucket_alone hi h.dir : Stays _ _ (Tx.bucket t name) _).2 _ (by rw [e])
    have hiso := (Iso.bucket hi : Stays _ _ (Tx.bucket t name) _).1.iso
    have hfits : Fits (Tx.bucket t name v).2 :=
      (widened_idle dirWrites_idle.bucket v h.fits.refl).1.fits
    rw [e] at hdir hiso hfits
    refine ⟨_, v', e, ⟨hd.sound.cut, hfits, ⟨F, hiso⟩, hdir, ?_⟩, by simpa using ht, ?_⟩
    · rw [hd.tx]
      unfold Tx.attach
      rw [h.tx]
    · rw [hd.tx]
      simp [Tx.attach]
  · refine ⟨none, v, bucket_eq_none hl ?_, h, by simpa using ht, hl.symm⟩
    by_contra hc
    rw [not_or] at hc
    refine ht ⟨hc.1, .inr (decide_eq_true ((Tx.baseBucket_isSome hbase').1 ?_))⟩
    exact Option.isSome_iff_ne_none.2 hc.2

/-- A call of a handle of the transaction keeps the directory. -/
lemma handle {α : Type} {m : Go α} {a : α} (h : Shows ended t w v) (ht : t ∉ ended)
    (hb : (v.txs t).bctx.lookup name = some b) (hm : HandleCall b m) (hf : Tracks Widened m)
    (e : m v = (.ok a, v')) : Shows ended t w v' := by
  obtain ⟨F, hF⟩ := h.iso
  obtain ⟨hlt, htx⟩ := hF.bctx t name b hb
  have hmarks := hm.marks v a v' e
  have hfits := (hf v h.fits.refl).1.fits
  have hiso := (hF.call hm hlt (htx.symm ▸ ht)).1.iso
  rw [e] at hfits hiso
  refine ⟨hmarks.cut h.cut, hfits, ⟨F, hiso⟩, hmarks.dirOK h.dir, ?_⟩
  rw [hmarks.txs]
  exact h.tx

end Shows

/-! ## `Tx.Cursor` -/

/-- `First` and then `Next` go through the names. -/
lemma dirKeys_next (names : List Name) (d n : Nat) :
    dirKeys names ((d : Int) - 1) (List.replicate n .next) = (List.range n).map fun i =>
      names[d + i]? := by
  induction n generalizing d with
  | zero => rfl
  | succ n ih =>
    have hat : atIndex names (d : Int) = names[d]? := by
      unfold atIndex
      rw [if_neg (by omega)]
      rfl
    have hd : CursorOp.next.onDir names ((d : Int) - 1) = d := by
      simp [CursorOp.onDir]
    have hih := ih (d + 1)
    rw [show ((d + 1 : Nat) : Int) - 1 = d by omega] at hih
    rw [List.replicate_succ, dirKeys, hd, hat, hih, List.range_succ_eq_map, List.map_cons,
      List.map_map]
    refine congrArg _ (List.map_congr_left fun i _ => ?_)
    simp only [Function.comp_apply]
    congr 1
    omega

lemma cursor_scan (tx : Tx) (fuel : Nat) (w : World) (n : Nat) :
    tx.cursor.runAll fuel w (.first :: List.replicate n .next) =
      .ok ((List.range (n + 1)).map fun i => (tx.cursor.dir[i]?, none)) := by
  have h := dirKeys_next tx.cursor.dir 0 (n + 1)
  have hfirst : dirKeys tx.cursor.dir tx.cursor.dirIdx (.first :: List.replicate n .next) =
      dirKeys tx.cursor.dir (((0 : Nat) : Int) - 1) (List.replicate (n + 1) .next) := rfl
  rw [runAll_dir tx.cursor_bucket tx.pairwise_cursor_dir, hfirst, h, List.map_map]
  simp [Function.comp_def]

/-! ## `Tx.ForEach` -/

lemma mem_unseen {seen : Finset Name} : name ∈ unseen names seen ↔ name ∈ names ∧ name ∉ seen := by
  induction names generalizing seen with
  | nil => simp [unseen]
  | cons n names ih =>
    unfold unseen
    split
    next hn =>
      rw [ih, List.mem_cons]
      constructor
      · exact fun h => ⟨.inr h.1, h.2⟩
      · rintro ⟨rfl | h, h2⟩
        · exact absurd hn h2
        · exact ⟨h, h2⟩
    next hn =>
      rw [List.mem_cons, ih, List.mem_cons, Finset.mem_insert, not_or]
      by_cases e : name = n
      · simp [e, hn]
      · simp [e]

lemma unseen_sorted {seen : Finset Name} (h : names.Pairwise (· ≤ ·)) :
    (unseen names seen).Pairwise (· < ·) := by
  induction names generalizing seen with
  | nil => exact .nil
  | cons n names ih =>
    obtain ⟨h1, h2⟩ := List.pairwise_cons.1 h
    unfold unseen
    split
    · exact ih h2
    · refine List.pairwise_cons.2 ⟨fun x hx => ?_, ih h2⟩
      obtain ⟨hx1, hx2⟩ := mem_unseen.1 hx
      refine lt_of_le_of_ne (h1 x hx1) fun e => hx2 ?_
      rw [← e]
      exact Finset.mem_insert_self _ _

/-- The names that `Tx.ForEach` goes through. -/
lemma unseen_forEach {tx : Tx} (ho : tx.db = true) (hcr : ∀ n ∈ tx.created, n ∉ tx.deleted) :
    unseen (tx.baseNames.filter (· ∉ tx.deleted) ++ tx.created.sort).mergeSort ∅ =
      tx.cursor.dir := by
  have hsorted :
      (tx.baseNames.filter (· ∉ tx.deleted) ++ tx.created.sort).mergeSort.Pairwise (· ≤ ·) :=
    List.pairwise_mergeSort' _ _
  refine (tx.cursor_dir_eq (unseen_sorted hsorted) fun n => ?_).symm
  rw [Tx.mem_cursor_dir ho, mem_unseen, List.mem_mergeSort, List.mem_append, List.mem_filter,
    Finset.mem_sort]
  unfold Tx.Taken Tx.bucketExistsCommitted
  simp only [decide_eq_true_eq, Finset.notMem_empty, not_false_eq_true, and_true]
  constructor
  · rintro ⟨h1, h2 | h2⟩
    · exact .inr h2
    · exact .inl ⟨h2, h1⟩
  · rintro (⟨h1, h2⟩ | h)
    · exact ⟨h2, .inr h1⟩
    · exact ⟨hcr n h, .inl h⟩

section
variable {τ : Type} {fn : Callback τ} {s : τ}

lemma Visits.nil : Visits [] [] none := by
  refine ⟨List.nil_prefix, fun _ => rfl, ?_, ?_, rfl⟩ <;> simp

/-- The callback returned an error. -/
lemma Visits.stop {e : Err} : Visits (name :: names) [⟨name, some b, some e⟩] (some e) :=
  ⟨(List.prefix_cons_inj _).2 List.nil_prefix, fun h => absurd h (Option.some_ne_none e), by simp,
    by simp, rfl⟩

/-- The callback returned nil. -/
lemma Visits.cons {log : List Visit} {res : Option Err} (h : Visits names log res) :
    Visits (name :: names) (⟨name, some b, none⟩ :: log) res := by
  refine ⟨(List.prefix_cons_inj _).2 h.through, fun hr => congrArg _ (h.all hr), ?_,
    fun y hy => ?_, ?_⟩
  · exact List.forall_mem_cons.2 ⟨rfl, h.bucket⟩
  · rcases log with _ | ⟨z, log⟩
    · cases hy
    · rcases List.mem_cons.1 hy with rfl | hy
      · rfl
      · exact h.before y hy
  · rw [h.last]
    rcases log with _ | ⟨z, log⟩ <;> rfl

/-- The loop of `Tx.ForEach` with a callback that keeps the directory. -/
lemma Shows.forEachLoop (ho : (w.txs t).db = true) (hbase : ∀ st, (w.txs t).base = some st → st.OK)
    (hfn : fn.KeepsDir ended t w) {seen : Finset Name} {log : List Visit}
    {r : (τ × List Visit) × Option Err} (hnames : ∀ n ∈ names, (w.txs t).Taken n)
    (h : Shows ended t w v) (e : Tx.forEachLoop t (logged fn) names seen (s, log) v = (.ok r, v')) :
    ∃ new, r.1.2 = log ++ new ∧ Visits (unseen names seen) new r.2 ∧
      (fn.NoError ended t w → r.2 = none) := by
  induction names generalizing seen log s v with
  | nil =>
    cases e
    exact ⟨[], (List.append_nil _).symm, .nil, fun _ => rfl⟩
  | cons n names ih =>
    have hnames' : ∀ n ∈ names, (w.txs t).Taken n := fun n hn => hnames n (.tail _ hn)
    unfold Tx.forEachLoop at e
    unfold unseen
    by_cases hn : n ∈ seen
    · rw [if_pos hn] at e ⊢
      exact ih hnames' h e
    rw [if_neg hn] at e ⊢
    obtain ⟨o, v1, e1, h1, hb, -⟩ := h.bucket ho hbase n
    obtain ⟨b, rfl⟩ := Option.isSome_iff_exists.1 (hb.2 (hnames n (by simp)))
    rw [Prog.bind_ok e1] at e
    obtain ⟨r1, v2, e2, e⟩ := Prog.bind_eq_ok e
    obtain ⟨r2, v3, e3, e4⟩ := Prog.bind_eq_ok e2
    cases e4
    have h2 : Shows ended t w v2 := hfn _ _ _ _ _ _ _ h e1 e3
    dsimp only at e
    rcases herr : r2.2 with _ | err <;> rw [herr] at e
    · obtain ⟨new, g1, g2, g3⟩ := ih hnames' h2 e
      exact ⟨⟨n, some b, none⟩ :: new, by rw [g1, List.append_assoc]; rfl, .cons g2, g3⟩
    · cases e
      refine ⟨[⟨n, some b, some err⟩], rfl, .stop, fun hnone => ?_⟩
      have hr : r2.2 = none := hnone _ _ _ _ _ _ _ h e1 e3
      rw [herr] at hr
      cases hr

/-- The loop returns if the callback does. -/
lemma Shows.forEachLoop_returns (ho : (w.txs t).db = true)
    (hbase : ∀ st, (w.txs t).base = some st → st.OK) (hfn : fn.KeepsDir ended t w)
    (hret : fn.Total ended t w) (hnames : ∀ n ∈ names, (w.txs t).Taken n) (seen : Finset Name)
    (h : Shows ended t w v) : ∃ r v', Tx.forEachLoop t fn names seen s v = (.ok r, v') := by
  induction names generalizing seen s v with
  | nil => exact ⟨_, v, rfl⟩
  | cons n names ih =>
    have hnames' : ∀ n ∈ names, (w.txs t).Taken n := fun n hn => hnames n (.tail _ hn)
    unfold Tx.forEachLoop
    by_cases hn : n ∈ seen
    · rw [if_pos hn]
      exact ih hnames' seen h
    rw [if_neg hn]
    obtain ⟨o, v1, e1, -, hb, -⟩ := h.bucket ho hbase n
    obtain ⟨b, rfl⟩ := Option.isSome_iff_exists.1 (hb.2 (hnames n (by simp)))
    obtain ⟨r, v2, e2⟩ := hret s n b v v1 h e1
    rw [Prog.bind_ok e1, Prog.bind_ok e2]
    rcases r.2 with _ | err
    · exact ih hnames' _ (hfn _ _ _ _ _ _ _ h e1 e2)
    · exact ⟨_, v2, rfl⟩

end

/-! ## `Tx.Commit` -/

/-- The names of the map that the publishing loop builds. -/
lemma publishAll_names {m m' : AList fun _ : Name => Option BucketState}
    (h : Tx.publishAll t names m w = (.ok m', w')) : name ∈ m' ↔ name ∈ m ∨
      name ∈ names ∧ ((w.txs t).bctx.lookup name).isSome ∧ name ∉ (w.txs t).deleted := by
  induction names generalizing w m with
  | nil =>
    cases h
    simp
  | cons n names ih =>
    unfold Tx.publishAll Tx.get at h
    rw [Prog.read_bind] at h
    rcases hl : (w.txs t).bctx.lookup n with _ | b <;> rw [hl] at h
    · rw [ih h, List.mem_cons]
      by_cases e : name = n
      · subst e
        simp [hl]
      · simp [e]
    dsimp only at h
    by_cases hd : n ∈ (w.txs t).deleted
    · rw [if_pos hd] at h
      rw [ih h, List.mem_cons]
      by_cases e : name = n
      · subst e
        simp [hd]
      · simp [e]
    · rw [if_neg hd] at h
      obtain ⟨bs, w1, e1, h⟩ := Prog.bind_eq_ok h
      have htxs : w1.txs = w.txs := by
        unfold Bucket.publishRoot bucketOf at e1
        rw [Prog.read_bind] at e1
        rcases hr : (w.buckets b).rootNode with _ | r <;> rw [hr] at e1
        · cases e1
          rfl
        · obtain ⟨u, w2, e2, e3⟩ := Prog.bind_eq_ok e1
          cases e3
          unfold Bucket.detachPublishedNodes bucketOf at e2
          rw [Prog.read_bind] at e2
          obtain ⟨u1, w3, e3, e4⟩ := Prog.bind_eq_ok e2
          obtain ⟨c3, rfl⟩ := write_eq_ok e3
          unfold modifyBucket at e4
          obtain ⟨c4, rfl⟩ := write_eq_ok e4
          rfl
      rw [ih h, htxs, AList.mem_insert, List.mem_cons]
      by_cases e : name = n
      · subst e
        simp [hl, hd]
      · simp [e]

/-- Closing a transaction leaves the published state alone. -/
lemma close_state {o : Outcome Panic Unit} (h : Tx.close t w = (o, w')) :
    w'.db.state = w.db.state := by
  have ha : Alone t w (Tx.close t w).2 :=
    (close_alone fun hn : t ∉ ({t} : Finset TxId) => absurd (Finset.mem_singleton_self t) hn).1
  rw [h] at ha
  exact ha.state

/-- The names that a commit publishes. -/
lemma commit_names {order : Tx.Order} (hi : Iso dead F w) (ho : (w.txs t).db = true)
    (hw : (w.txs t).writable = true) (ht : t ∉ dead) (hst : (w.txs t).base = some st)
    (hd : DirOK w t) (hbase : st.OK) (hv : order.Valid w t)
    (h : Tx.commit fuel t order w = (.ok none, w')) :
    ∃ st', w'.db.state = some st' ∧ ∀ name, name ∈ st'.buckets ↔ (w.txs t).Taken name := by
  unfold Tx.commit Tx.get at h
  rw [Prog.read_bind] at h
  obtain ⟨u, w1, e1, h⟩ := Prog.bind_eq_ok h
  obtain rfl : w1 = w := by
    unfold Prog.assert at e1
    split at e1 <;> cases e1
    rfl
  rw [if_neg (by simp [ho]), if_neg (by simp [hw])] at h
  obtain ⟨st', w2, e2, h⟩ := Prog.bind_eq_ok h
  obtain ⟨u2, w3, e3, h⟩ := Prog.bind_eq_ok h
  obtain ⟨u3, w4, e4, h⟩ := Prog.bind_eq_ok h
  cases h
  -- the state is stored, and closing the transaction keeps it
  unfold Tx.store at e3
  obtain ⟨c3, rfl⟩ := write_eq_ok e3
  refine ⟨st', close_state e4, fun name => ?_⟩
  -- the phases keep the maps of the transaction
  unfold Tx.build at e2
  rw [← bind_assoc] at e2
  obtain ⟨u5, w5, e5, e2⟩ := Prog.bind_eq_ok e2
  have hphase := (hi.phases fuel order ho hw ht).1
  rw [e5] at hphase
  unfold Tx.get at e2
  rw [Prog.read_bind] at e2
  obtain ⟨m, w6, e6, e2⟩ := Prog.bind_eq_ok e2
  cases e2
  have hmem : name ∈ order.publish ↔ ((w1.txs t).bctx.lookup name).isSome := by
    rw [hv.publish.mem_iff, AList.lookup_isSome, AList.mem_keys]
  have hnames : name ∈ st.buckets ↔ name ∈ (w1.txs t).baseNames := by
    unfold Tx.baseNames
    rw [hst, AList.mem_keys]
  rw [publishAll_names e6, hphase.txs, ← AList.lookup_isSome, lookup_keptBuckets_eq hst, hmem]
  constructor
  · rintro (h | ⟨h, -, hdel⟩)
    · split at h
      · cases h
      next hdel => exact ⟨hdel, .inr (decide_eq_true (hnames.1 (AList.lookup_isSome.1 h)))⟩
    · obtain ⟨b, hb⟩ := Option.isSome_iff_exists.1 h
      exact hd.taken (fun st' hst' => by rw [hst] at hst'; cases hst'; exact hbase) hb
  · rintro ⟨hdel, hc | hc⟩
    · have hb := (hd.created name hc).2
      exact .inr ⟨hb, hb, hdel⟩
    · rw [if_neg hdel]
      exact .inl (AList.lookup_isSome.2 (hnames.2 (of_decide_eq_true hc)))

/-- A commit returns nil if its first two loops return. -/
lemma Shows.commit_returns {order : Tx.Order} {u : Unit} (h : Shows dead t w w) (ht : t ∉ dead)
    (ho : (w.txs t).db = true) (hw : (w.txs t).writable = true) (hm : (w.txs t).managed = false)
    (hl : w.db.rwlock = true) (hv : order.Valid w t)
    (e : (do
      Tx.rebalanceAll fuel t order.rebalance
      Tx.spillAll fuel t order.spill : Go Unit) w = (.ok u, w')) :
    ∃ w'', Tx.commit fuel t order w = (.ok none, w'') := by
  obtain ⟨F, hi⟩ := h.iso
  have hphases := hi.phases fuel order ho hw ht
  obtain ⟨hphase, -, hmarks⟩ := hphases.2 u (by rw [e])
  have hfits : Fits ((do
      Tx.rebalanceAll fuel t order.rebalance
      Tx.spillAll fuel t order.spill : Go Unit) w).2 :=
        (treeWrites_widened.phases w h.fits.refl).1.fits
  rw [e] at hphase hmarks hfits
  have hrun : TxRun dead F w' t := by
    refine ⟨⟨hmarks.cut h.cut, hphase.iso.arr_lt, fun n _ => hfits.slice n⟩, hphase.iso, ht,
      by rw [hmarks.txs]; exact ho, by rw [hmarks.txs]; exact hw, fun name b hb => ?_⟩
    rw [(hmarks.handle b).name]
    rw [hmarks.txs] at hb
    exact h.dir.name name b hb
  -- the third loop reads the handles and detaches their nodes
  obtain ⟨m, w2, e2, hs2, htxs2, -⟩ := hrun.publishAll order.publish (m := (w'.txs t).keptBuckets)
    (hv.publish.nodup_iff.2 (AList.keys_nodup _)) hrun.sound rfl fun _ _ _ _ => rfl
  have hkept : RootsIn (F ∪ TxOwn w' dead t) ⟨(w'.txs t).keptBuckets⟩ := by
    intro name bs r hl hr
    obtain ⟨base, hb, hl⟩ := lookup_keptBuckets hl
    exact .inl (hrun.iso.base t base hb name bs r hl hr)
  have hdet : Detached dead t w' (Tx.publishAll t order.publish (w'.txs t).keptBuckets w').2 :=
    (hrun.iso.publishAll order.publish hrun.opened hrun.writable ht (.refl w') hkept).1
  rw [e2] at hdet
  have hdb : w2.db = w.db := (congrArg World.db hdet.rest).trans hmarks.db
  let w3 : World := { w2 with db := { w2.db with state := some ⟨m⟩ } }
  have hclose : Tx.close t w3 = (.ok (), w3.closeTx t) := by
    refine close_eq hs2.cut ?_ fun _ => ?_
    · change (w2.txs t).db = true
      rw [htxs2]
      exact hrun.opened
    · change w2.db.rwlock = true
      rw [hdb]
      exact hl
  have hbuild : Tx.build fuel t order w = (.ok ⟨m⟩, w2) := by
    unfold Tx.build
    rw [← bind_assoc, Prog.bind_ok e]
    unfold Tx.get
    rw [Prog.read_bind, Prog.bind_ok e2]
    rfl
  refine ⟨w3.closeTx t, ?_⟩
  unfold Tx.commit Tx.get
  rw [Prog.read_bind, Prog.assert_pos hm, Prog.pure_bind_apply, if_neg (by simp [ho]),
    if_neg (by simp [hw]), Prog.bind_ok hbuild]
  unfold Tx.store
  rw [Prog.bind_ok (write_eq hs2.cut)]
  exact Prog.bind_ok hclose

/-! ## `Tx.Size` -/

/-- A fold that adds up. -/
lemma foldlM_mono {ι : Type} {f g : ι → Outcome Panic Nat} {l : List ι} {s m : Nat}
    (hfg : ∀ i ∈ l, ∀ c, f i = .ok c → g i = .ok c)
    (h : l.foldlM (fun s i => do
      let c ← f i
      pure (s + c)) s = .ok m) :
    l.foldlM (fun s i => do
      let c ← g i
      pure (s + c)) s = .ok m := by
  induction l generalizing s with
  | nil => exact h
  | cons i l ih =>
    rw [List.foldlM_cons] at h ⊢
    rcases hf : f i with c | _ | _ <;> rw [hf] at h
    · rw [hfg i (by simp) c hf]
      exact ih (fun j hj => hfg j (.tail _ hj)) h
    · cases h
    · cases h

/-- The two walks over a tree agree unless a child is nil, and depend on the nodes only. -/
lemma stateSizeWalk_of_sizeWalk {c : Option NodeId} {m : Nat} (hn : w'.nodes = w.nodes)
    (ha : w'.arrays = w.arrays) (h : Bucket.sizeWalk fuel w' c = .ok m) :
    Tx.stateSizeWalk fuel w c = .ok m := by
  have hins : ∀ n, w'.inodes n = w.inodes n := fun n => by
    unfold World.inodes
    rw [hn, ha]
  induction fuel generalizing c m with
  | zero => cases h
  | succ fuel ih =>
    rcases c with _ | n
    · cases h
    unfold Bucket.sizeWalk at h
    unfold Tx.stateSizeWalk
    rw [hn, hins] at h
    split at h
    next hl =>
      rw [if_pos hl]
      exact h
    next hl =>
      rw [if_neg hl]
      exact foldlM_mono (fun i _ c hc => ih hc) h

/-- The size of a bucket that has no handle yet. -/
lemma bucketStateSize_eq {m : Nat} (h : Shows ended t w w) (ho : (w.txs t).db = true)
    (hl : (w.txs t).bctx.lookup name = none) (hd : name ∉ (w.txs t).deleted)
    (hn : ((w.txs t).baseBucket name).isSome) {b' : BucketId}
    (e : Tx.bucket t name w = (.ok (some b'), w')) (hsz : Bucket.size fuel w' b' = .ok m) :
    Tx.bucketStateSize fuel w ((w.txs t).baseBucket name) = .ok m := by
  obtain ⟨w1, e1, hstep, -, hbk, -⟩ := bucket_eq_new h.sound ho hl hd hn
  rw [e] at e1
  cases e1
  obtain ⟨hnodes, harrays⟩ := bucket_heap e
  have hroot : Bucket.rootView w' w.nextBucket =
      ((w.txs t).baseBucket name).bind BucketState.root := by
    have hself : Bucket.baseState w' w.nextBucket =
        (w'.txs (w'.buckets w.nextBucket).tx).baseBucket (w'.buckets w.nextBucket).name := rfl
    have hbase : Bucket.baseState w' w.nextBucket = (w.txs t).baseBucket name := by
      rw [hself, hbk]
      change (w'.txs t).baseBucket name = _
      rw [hstep.tx]
      rfl
    unfold Bucket.rootView
    rw [hbk, hbase]
    rcases (w.txs t).baseBucket name with _ | bs <;> rfl
  unfold Bucket.size at hsz
  unfold Tx.bucketStateSize
  rw [hroot] at hsz
  rcases hr : ((w.txs t).baseBucket name).bind BucketState.root with _ | r <;> rw [hr] at hsz
  · exact hsz
  · exact stateSizeWalk_of_sizeWalk hnodes harrays hsz

/-- `Tx.Size` adds up the sizes of the buckets that are shown. -/
lemma Shows.size (h : Shows ended t w w) (ho : (w.txs t).db = true) (hst : (w.txs t).base = some st)
    (hbase : st.OK) {sz : Name → Nat} (hsz : ∀ name ∈ (w.txs t).cursor.dir, ∃ b w',
      Tx.bucket t name w = (.ok (some b), w') ∧ Bucket.size fuel w' b = .ok (sz name)) :
    Tx.size fuel w t = .ok ((w.txs t).cursor.dir.map sz).sum := by
  have hOK : ∀ st', (w.txs t).base = some st' → st'.OK := fun st' hst' => by
    rw [hst] at hst'
    cases hst'
    exact hbase
  have hhandle : ∀ {name b}, (w.txs t).bctx.lookup name = some b →
      Bucket.size fuel w b = .ok (sz name) := by
    intro name b hb
    obtain ⟨b', w', e, hs⟩ := hsz name ((Tx.mem_cursor_dir ho).2 (h.dir.taken hOK hb))
    rw [bucket_eq_of_lookup ho hb] at e
    cases e
    exact hs
  have hseen : ∀ name ∈ (w.txs t).baseNames.filter (· ∉ (w.txs t).deleted),
      (w.txs t).Taken name := by
    intro name hn
    rw [List.mem_filter, decide_eq_true_eq] at hn
    exact ⟨hn.2, .inr (decide_eq_true hn.1)⟩
  unfold Tx.size
  dsimp only
  rw [if_pos (by rw [hst]; rfl), Outcome.pure_eq, Outcome.ok_bind, foldlM_sum (v := sz),
    Outcome.ok_bind, foldlM_sum (v := sz)]
  · -- the two ranges together go over the names
    rw [Nat.zero_add, ← List.sum_append, ← List.map_append]
    have hnd : (w.txs t).baseNames.Nodup := by
      unfold Tx.baseNames
      rw [hst]
      exact AList.keys_nodup _
    have hperm : ((w.txs t).baseNames.filter (· ∉ (w.txs t).deleted) ++ (w.txs t).bctx.keys.filter
        (· ∉ (w.txs t).baseNames.filter (· ∉ (w.txs t).deleted))).Perm (w.txs t).cursor.dir := by
      refine (List.perm_ext_iff_of_nodup ?_ ((w.txs t).pairwise_cursor_dir.imp ne_of_lt)).2
        fun name => ?_
      · refine (hnd.filter _).append ((AList.keys_nodup _).filter _) fun name h1 h2 => ?_
        have hnot := (List.mem_filter.1 h2).2
        exact of_decide_eq_true hnot h1
      · rw [Tx.mem_cursor_dir ho, List.mem_append]
        constructor
        · rintro (hn | hn)
          · exact hseen name hn
          · obtain ⟨b, hb⟩ := Option.isSome_iff_exists.1
              (AList.lookup_isSome.2 (AList.mem_keys.2 (List.mem_of_mem_filter hn)))
            exact h.dir.taken hOK hb
        · intro ht
          by_cases hn : name ∈ (w.txs t).baseNames
          · exact .inl (List.mem_filter.2 ⟨hn, decide_eq_true ht.1⟩)
          · have hc := ht.2.resolve_right fun hb => hn (of_decide_eq_true hb)
            refine .inr (List.mem_filter.2
              ⟨AList.mem_keys.1 (AList.lookup_isSome.1 (h.dir.created name hc).2),
              decide_eq_true fun hm => hn (List.mem_of_mem_filter hm)⟩)
    exact congrArg _ (hperm.map sz).sum_eq
  · intro name hn
    obtain ⟨b, hb⟩ := Option.isSome_iff_exists.1
      (AList.lookup_isSome.2 (AList.mem_keys.2 (List.mem_of_mem_filter hn)))
    rw [hb]
    exact hhandle hb
  · intro name hn
    have htaken := hseen name hn
    rcases hb : (w.txs t).bctx.lookup name with _ | b
    · obtain ⟨b', w', e, hs⟩ := hsz name ((Tx.mem_cursor_dir ho).2 htaken)
      exact bucketStateSize_eq h ho hb htaken.1 (h.dir.base_of_taken hOK htaken hb) e hs
    · exact hhandle hb

/-- The size of a tree is defined. -/
lemma TxView.sized {V : SortedMap Name (SortedMap Bytes Bytes)} (h : TxView w t V) :
    ∃ sz : Name → Nat, ∀ᶠ fuel in atTop, ∀ name ∈ (w.txs t).cursor.dir, ∃ b w',
      Tx.bucket t name w = (.ok (some b), w') ∧ Bucket.size fuel w' b = .ok (sz name) := by
  have hone : ∀ name ∈ (w.txs t).cursor.dir, ∃ m, ∀ᶠ fuel in atTop, ∃ b w',
      Tx.bucket t name w = (.ok (some b), w') ∧ Bucket.size fuel w' b = .ok m := by
    intro name hn
    rw [h.names] at hn
    obtain ⟨y, hy, rfl⟩ := List.mem_map.1 hn
    obtain ⟨b, w', g, r, H, e, -, -, hr, hT, -⟩ := h.bucket (m := y.2) hy
    have hsz : ∀ fuel, H < fuel → Bucket.size fuel w' b =
        .ok ((preorder w' H r 0).map fun x => Node.size (w'.inodes x.1)).sum := fun fuel hf => by
      unfold Bucket.size
      rw [hr]
      exact (sizeWalk_eq hT hT.lvl_root 0 hf).1
    exact ⟨_, (eventually_gt_atTop H).mono fun fuel hf => ⟨b, w', e, hsz fuel hf⟩⟩
  choose! sz hsz using hone
  exact ⟨sz, (Filter.eventually_all_finite (List.finite_toSet _)).2 hsz⟩

/-! ## All of them -/

/-- What the views of the directory of the transaction `t` show are the buckets `names`. -/
structure ViewsAgree (ended : Finset TxId) (w : World) (t : TxId) (names : List Name) : Prop where
  sorted : names.Pairwise (· < ·)
  cursor : ∀ fuel n, (w.txs t).cursor.runAll fuel w (.first :: List.replicate n .next) =
    .ok ((List.range (n + 1)).map fun i => (names[i]?, none))
  bucket : ∀ name, ∃ b w', Tx.bucket t name w = (.ok b, w') ∧ (b.isSome ↔ name ∈ names)
  forEach : ∀ (τ : Type) (fn : Callback τ) (s : τ), fn.KeepsDir ended t w →
    (∀ r w', Tx.forEach t (logged fn) (s, []) w = (.ok r, w') →
      Visits names r.1.2 r.2 ∧ (fn.NoError ended t w → r.2 = none)) ∧
    (fn.Total ended t w → ∃ r w', Tx.forEach t (logged fn) (s, []) w = (.ok r, w'))
  commit : ∀ fuel order, order.Valid w t →
    (∀ w', Tx.commit fuel t order w = (.ok none, w') →
      ∃ st, w'.db.state = some st ∧ ∀ name, name ∈ st.buckets ↔ name ∈ names) ∧
    ((w.txs t).managed = false → w.db.rwlock = true → ∀ w1, (do
      Tx.rebalanceAll fuel t order.rebalance
      Tx.spillAll fuel t order.spill : Go Unit) w = (.ok (), w1) →
        ∃ w', Tx.commit fuel t order w = (.ok none, w'))
  size : ∀ fuel sz, (∀ name ∈ names, ∃ b w', Tx.bucket t name w = (.ok (some b), w') ∧
    Bucket.size fuel w' b = .ok (sz name)) → Tx.size fuel w t = .ok (names.map sz).sum
  sized : (∃ V, TxView w t V) → ∃ sz : Name → Nat, ∀ᶠ fuel in atTop, ∀ name ∈ names, ∃ b w',
    Tx.bucket t name w = (.ok (some b), w') ∧ Bucket.size fuel w' b = .ok (sz name)

/-- The views of the directory of an open write transaction agree. -/
theorem directory_views_agree {rt : Runtime} {readOnly : Bool} {sys : Sys}
    (h : GoSteps (Sys.init rt readOnly) sys) (ht : t ∉ sys.ended) (ho : (sys.world.txs t).db = true)
    (hw : (sys.world.txs t).writable = true) : ∃ names, ViewsAgree sys.ended sys.world t names := by
  obtain ⟨-, F, -, hi⟩ := h.steps.frozen (iso_init rt readOnly)
  have hdirs := h.dirs
  have hshows : Shows sys.ended t sys.world sys.world :=
    .refl h.steps.cut h.steps.fits hi (hdirs.dir t ht)
  have hOK := hdirs.base t
  obtain ⟨st, hst⟩ := Option.isSome_iff_exists.1 ((hdirs.dir t ht).opened ho)
  have hmem : ∀ name, name ∈ (sys.world.txs t).cursor.dir ↔ (sys.world.txs t).Taken name :=
    fun name => Tx.mem_cursor_dir ho
  have hcr : ∀ n ∈ (sys.world.txs t).created, n ∉ (sys.world.txs t).deleted := by
    intro n hn
    obtain ⟨b, hb⟩ := Option.isSome_iff_exists.1 ((hdirs.dir t ht).created n hn).2
    exact (hdirs.dir t ht).kept n b hb
  refine ⟨(sys.world.txs t).cursor.dir, Tx.pairwise_cursor_dir _,
    fun fuel n => cursor_scan _ fuel _ n,
    fun name => ?_, fun τ fn s hfn => ?_, fun fuel order hv => ?_,
    fun fuel sz hsz => hshows.size ho hst (hOK st hst) hsz, fun hV => hV.elim fun V hV => hV.sized⟩
  · obtain ⟨b, w', e, -, hb, -⟩ := hshows.bucket ho hOK name
    exact ⟨b, w', e, hb.trans (hmem name).symm⟩
  · have hrun : ∀ {σ : Type} (f : Callback σ) (s : σ),
        Tx.forEach t f s sys.world = Tx.forEachLoop t f ((sys.world.txs t).baseNames.filter
          (· ∉ (sys.world.txs t).deleted) ++ (sys.world.txs t).created.sort).mergeSort ∅ s
          sys.world := by
      intro σ f s
      unfold Tx.forEach Tx.get
      rw [Prog.read_bind, if_neg (by simp [ho])]
    have hun := unseen_forEach ho hcr
    have hnames : ∀ n ∈ ((sys.world.txs t).baseNames.filter (· ∉ (sys.world.txs t).deleted) ++
        (sys.world.txs t).created.sort).mergeSort, (sys.world.txs t).Taken n := by
      intro n hn
      rw [← hmem, ← hun]
      exact mem_unseen.2 ⟨hn, Finset.notMem_empty n⟩
    refine ⟨fun r w' e => ?_, fun hret => ?_⟩
    · rw [hrun] at e
      obtain ⟨new, g1, g2, g3⟩ := Shows.forEachLoop ho hOK hfn hnames hshows e
      rw [hun] at g2
      rw [g1, List.nil_append]
      exact ⟨g2, g3⟩
    · rw [hrun]
      refine Shows.forEachLoop_returns ho hOK (fun s n b v v1 r v' hv e1 e2 => ?_)
        (fun s n b v v1 hv e1 => ?_) hnames ∅ hshows
      · obtain ⟨r1, v2, e3, e4⟩ := Prog.bind_eq_ok e2
        cases e4
        exact hfn _ _ _ _ _ _ _ hv e1 e3
      · obtain ⟨r, v', e⟩ := hret s.1 n b v v1 hv e1
        exact ⟨_, v', Prog.bind_ok e⟩
  · refine ⟨fun w' e => ?_, fun hm hl w1 e => hshows.commit_returns ht ho hw hm hl hv e⟩
    obtain ⟨st', h1, h2⟩ := commit_names hi ho hw ht hst (hdirs.dir t ht) (hOK st hst) hv e
    exact ⟨st', h1, fun name => (h2 name).trans (hmem name).symm⟩

lemma ViewsAgree.names_eq (h : ViewsAgree ended w t names) : names = (w.txs t).cursor.dir := by
  refine List.ext_getElem? fun i => ?_
  have hscan := (h.cursor 0 i).symm.trans (cursor_scan _ 0 w i)
  have hat := congrArg (fun l => l[i]?) (Outcome.ok.inj hscan)
  simpa using hat

/-- A first transaction has created a bucket. -/
def createdBucket (name : Name) : Sys :=
  ((Sys.init default false).after (.begin_ true) none 0).after (.createBucket 0 name) none 0

/-- The buckets that this transaction shows. -/
def oneEmptyBucket (name : Name) : SortedMap Name (SortedMap Bytes Bytes) :=
  ⟨[(name, .empty)], List.pairwise_singleton _ _⟩

lemma createdBucket_steps (name : Name) : GoSteps (Sys.init default false) (createdBucket name) :=
  (Relation.ReflTransGen.refl.tail (.call (.begin_ true) none 0 trivial trivial)).tail
    (.call (.createBucket 0 name) none 0 (Finset.notMem_empty _) trivial)

lemma createdBucket_view (hname : name ≠ []) :
    0 ∉ (createdBucket name).ended ∧ TxView (createdBucket name).world 0 (oneEmptyBucket name) := by
  have hbegin : (Sys.init default false).after (.begin_ true) none 0 =
      ⟨(World.init default false).beginRW ⟨∅⟩, ∅⟩ := rfl
  have htx : ((World.init default false).beginRW ⟨∅⟩).txs 0 = Tx.opened true ⟨∅⟩ := rfl
  have hs : ((World.init default false).beginRW ⟨∅⟩).Sound :=
    ⟨rfl, fun n hn => absurd hn (Nat.not_lt_zero n), fun n hn => absurd hn (Nat.not_lt_zero n)⟩
  obtain ⟨w', e, hn⟩ := createBucket_eq (t := 0) hs (by rw [htx]; rfl) (by rw [htx]; rfl) hname
    (by rw [htx]; simp [Tx.Taken, Tx.opened, Tx.zero, Tx.bucketExistsCommitted, Tx.baseNames])
  have hcut : { w' with cut := none } = w' := by rw [← hn.step.sound.cut]
  have hsys : createdBucket name = ⟨w', ∅⟩ := by
    have hrun : (Call.createBucket 0 name).run 0 =
        (Tx.createBucket 0 name >>= fun _ => pure true) := rfl
    unfold createdBucket
    rw [hbegin]
    unfold Sys.after
    have hw : ({ (World.init default false).beginRW ⟨∅⟩ with cut := none } : World) =
        (World.init default false).beginRW ⟨∅⟩ := rfl
    simp only [hrun, bind_apply, hw, e]
    exact congrArg (Sys.mk · ∅) hcut
  rw [hsys]
  have htx' : w'.txs 0 = (Tx.opened true ⟨∅⟩).addBucket name 0 := by
    rw [hn.step.tx, htx]
    rfl
  refine ⟨Finset.notMem_empty _, hn.step.sound, by rw [htx']; rfl, ?_, fun y hy => ?_⟩
  · rw [htx']
    simp [Tx.cursor, Tx.addBucket, Tx.opened, Tx.zero, Tx.baseNames, oneEmptyBucket]
  · obtain rfl := List.mem_singleton.1 hy
    obtain ⟨g, r, H, hT, -, hroot, hm, -⟩ := hn.holdsAt.holds.reach
    refine .handle (b := 0) ?_ (by rw [hn.nextBucket]; exact Nat.lt_succ_self _) ?_ hroot hT hm
    · rw [htx']
      exact AList.lookup_insert _
    · rw [show (0 : BucketId) = ((World.init default false).beginRW ⟨∅⟩).nextBucket from rfl,
        hn.bucket]
      rfl

/-- A first transaction has put a pair into each of two new buckets. -/
def twoPut : Sys :=
  ((((((Sys.init default false).after (.begin_ true) none 0).after (.createBucket 0 [1])
    none 0).after (.createBucket 0 [2]) none 0).after (.put 0 [5] (some [6])) none 3).after
    (.put 1 [7] (some [8])) none 3)

/-- The first transaction has committed. -/
def twoCommitted : Sys :=
  (twoPut.after (.publish 0 (.sorted twoPut.world 0)) none 4).after (.close 0) none 0

/-- A second transaction has deleted one of the two buckets and put a pair into a third one. -/
def mixedNames : Sys :=
  (((twoCommitted.after (.begin_ true) none 0).after (.deleteBucket 1 [1]) none 0).after
    (.createBucket 1 [3]) none 0).after (.put 2 [9] (some [10])) none 3

lemma mixedNames_steps : GoSteps (Sys.init default false) mixedNames := by
  have hput : GoSteps (Sys.init default false) twoPut :=
    ((((Relation.ReflTransGen.refl.tail (.call (.begin_ true) _ _ trivial trivial)).tail
      (.call (.createBucket 0 [1]) _ _ (show _ ∉ Sys.ended _ by decide +kernel) trivial)).tail
      (.call (.createBucket 0 [2]) _ _ (show _ ∉ Sys.ended _ by decide +kernel) trivial)).tail
      (.call (.put 0 [5] _) _ _ ⟨by decide +kernel, by decide +kernel⟩ trivial)).tail
      (.call (.put 1 [7] _) _ _ ⟨by decide +kernel, by decide +kernel⟩ trivial)
  have hcommit : GoSteps (Sys.init default false) twoCommitted :=
    (hput.tail (.call (.publish 0 _) _ _ (show _ ∉ Sys.ended _ by decide +kernel)
      (Tx.Order.sorted_valid _ 0))).tail (.call (.close 0) _ _ trivial trivial)
  exact (((hcommit.tail (.call (.begin_ true) _ _ trivial trivial)).tail
    (.call (.deleteBucket 1 [1]) _ _ (show _ ∉ Sys.ended _ by decide +kernel) trivial)).tail
    (.call (.createBucket 1 [3]) _ _ (show _ ∉ Sys.ended _ by decide +kernel) trivial)).tail
    (.call (.put 2 [9] _) _ _ ⟨by decide +kernel, by decide +kernel⟩ trivial)

/-- The buckets that the second transaction shows. -/
def twoBuckets : SortedMap Name (SortedMap Bytes Bytes) :=
  ⟨[([2], ⟨[([7], [8])], by decide⟩), ([3], ⟨[([9], [10])], by decide⟩)], by decide⟩

/-- A leaf with one pair. -/
lemma treeOK_onePair {n : NodeId} {k v : Bytes} (hn : n < w.nextNode)
    (hl : (w.nodes n).isLeaf = true) (hi : w.inodes n = [⟨k, some v, none⟩]) (hne : k ≠ [])
    (hk : k.length ≤ maxKeySize) (hv : v.length ≤ maxValueSize) :
    TreeOK w (Layout.leaf n) n 0 ∧ contents w 0 n = [(k, v)] := by
  refine ⟨(treeOK_leaf hn hl ?_).1, by simp [contents, hi, Inode.entry]⟩
  rw [hi]
  refine ⟨List.pairwise_singleton _ _, fun i hm => ?_, fun i _ => ?_, fun i _ => ?_⟩
  · rw [List.mem_singleton.1 hm]
    exact ⟨rfl, hne, hk, rfl, hv⟩
  · exact nil_le_bytes _
  · exact WithTop.coe_lt_top _

lemma mixedNames_view : 1 ∉ mixedNames.ended ∧ TxView mixedNames.world 1 twoBuckets := by
  have ho : (mixedNames.world.txs 1).db = true := by decide +kernel
  refine ⟨by decide +kernel, mixedNames_steps.steps.sound, ho, ?_, ?_⟩
  · have hset : ((mixedNames.world.txs 1).baseNames.toFinset ∪ (mixedNames.world.txs 1).created) \
        (mixedNames.world.txs 1).deleted = {[2], [3]} := by decide +kernel
    refine Tx.cursor_dir_eq _ (by decide) fun name => ?_
    unfold Tx.cursor
    rw [if_neg (by simp [ho]), hset]
    simp [twoBuckets]
  · refine List.forall_mem_cons.2 ⟨?_, List.forall_mem_cons.2 ⟨?_, List.forall_mem_nil _⟩⟩
    · -- the bucket `[2]` is that of the base
      have hbs : (mixedNames.world.txs 1).baseBucket [2] = some ⟨some 1⟩ := by decide +kernel
      obtain ⟨hT, hm⟩ := treeOK_onePair (w := mixedNames.world) (n := 1) (k := [7]) (v := [8])
        (by decide +kernel) (by decide +kernel) (by decide +kernel) (by decide) (by decide)
        (by decide)
      exact .committed (by decide +kernel) (by decide +kernel) hbs rfl hT hm
    · -- the bucket `[3]` has a handle
      obtain ⟨hT, hm⟩ := treeOK_onePair (w := mixedNames.world) (n := 2) (k := [9]) (v := [10])
        (by decide +kernel) (by decide +kernel) (by decide +kernel) (by decide) (by decide)
        (by decide)
      exact .handle (b := 2) (by decide +kernel) (by decide +kernel) (by decide +kernel)
        (by decide +kernel) hT hm

/-- A callback that puts a pair into the bucket it is passed. -/
def putEach (fuel : Nat) : Callback Unit
  | _, _, none => pure ((), none)
  | _, _, some b => do
    let e ← Bucket.put fuel b [4] (some [5])
    pure ((), e)

lemma putEach_keepsDir (ht : t ∉ ended) (ho : (w.txs t).db = true)
    (hbase : ∀ st, (w.txs t).base = some st → st.OK) : (putEach fuel).KeepsDir ended t w := by
  intro s name b v v1 r v' hv e1 e2
  obtain ⟨o, v2, e3, hv1, -, hb⟩ := hv.bucket ho hbase name
  rw [e1] at e3
  cases e3
  obtain ⟨e, v2, e4, e5⟩ := Prog.bind_eq_ok e2
  cases e5
  exact hv1.handle ht hb.symm handleCall_put treeWrites_widened.bucketPut e4

lemma forEach_mixedNames {τ : Type} (fn : Callback τ) (s : τ) :
    Tx.forEach 1 fn s mixedNames.world = Tx.forEachLoop 1 fn [[2], [3]] ∅ s mixedNames.world := by
  have hbase : (mixedNames.world.txs 1).baseNames.filter (· ∉ (mixedNames.world.txs 1).deleted) =
      [[2]] := by
    decide +kernel
  have hcreated : (mixedNames.world.txs 1).created = {[3]} := by decide +kernel
  unfold Tx.forEach Tx.get
  rw [Prog.read_bind, if_neg (by decide +kernel), hbase, hcreated, Finset.sort_singleton]
  rw [List.mergeSort_of_pairwise (by decide)]
  rfl

/-- The views of a transaction that has deleted one of two committed buckets and created another
one; a callback may put pairs into the buckets it is passed. -/
theorem directory_views_agree_mixed :
    ViewsAgree mixedNames.ended mixedNames.world 1 [[2], [3]] ∧
      ∃ log w', Tx.forEach 1 (logged (putEach 3)) ((), []) mixedNames.world =
        (.ok (((), log), none), w') ∧
        log.map Visit.name = [[2], [3]] := by
  obtain ⟨ht, hV⟩ := mixedNames_view
  obtain ⟨names, hviews⟩ := directory_views_agree mixedNames_steps ht hV.opened (by decide +kernel)
  obtain rfl : names = [[2], [3]] := hviews.names_eq.trans hV.names
  refine ⟨hviews, ?_⟩
  have hkeeps : (putEach 3).KeepsDir mixedNames.ended 1 mixedNames.world :=
    putEach_keepsDir ht hV.opened (mixedNames_steps.dirs.base 1)
  have hrun : (Tx.forEach 1 (logged (putEach 3)) ((), []) mixedNames.world).1 =
      .ok (((), [⟨[2], some 3, none⟩, ⟨[3], some 2, none⟩]), none) := by
    rw [forEach_mixedNames]
    decide +kernel
  refine ⟨_, _, Prod.ext hrun rfl, ?_⟩
  exact ((hviews.forEach Unit (putEach 3) () hkeeps).1 _ _ (Prod.ext hrun rfl)).1.all rfl

end

end Vmbolt
