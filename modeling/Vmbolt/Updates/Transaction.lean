import Vmbolt.Directory.Semantics
import Vmbolt.Rebalance.Commit
import Vmbolt.Snapshot.RoundTrip

/-!
# The calls of an update

The function of a `DB.Update` creates and deletes buckets and writes and deletes keys, and it
returns the first error that a call gives it. Next to it stands a plain model: a map from the names
of the buckets to their maps. `Editing` says how far a transaction has come: the names with a handle
have the map that the handle holds, and the others what the base has for them. The two agree as long
as no committed bucket is deleted twice.
-/

namespace Vmbolt
open Filter Prog

/-- A database, as its users see it. -/
abbrev Maps : Type := SortedMap Name (SortedMap Bytes Bytes)

/-- A call in the function of an update. -/
inductive TxOp where
  | createBucket (name : Name)
  | createBucketIfNotExists (name : Name)
  | deleteBucket (name : Name)
  | write (name : Name) (op : BucketOp)
  deriving DecidableEq

namespace TxOp

/-- The error of a call that returns a handle otherwise. -/
def errOf : Except Err BucketId → Option Err
  | .error e => some e
  | .ok _ => none

/-- Perform a call: the error that it returns. A bucket that is not there is an error of the
function. -/
def run (fuel : Nat) (t : TxId) : TxOp → Go (Option Err)
  | createBucket name => do
    let r ← Tx.createBucket t name
    pure (errOf r)
  | createBucketIfNotExists name => do
    let r ← Tx.createBucketIfNotExists t name
    pure (errOf r)
  | deleteBucket name => Tx.deleteBucket t name
  | write name op => do
    let b ← Tx.bucket t name
    match b with
    | none => pure (some .bucketNotFound)
    | some b => op.run fuel b

/-- Perform the calls up to the first error. -/
def runAll (fuel : Nat) (t : TxId) : List TxOp → Go (Option Err)
  | [] => pure none
  | op :: ops => do
    let e ← op.run fuel t
    match e with
    | some e => pure (some e)
    | none => runAll fuel t ops

/-- A call on the model. -/
def apply (M : Maps) : TxOp → Except Err Maps
  | createBucket name =>
    if name = [] then .error .bucketNameRequired
    else if (M.get name).isSome then .error .bucketExists
    else .ok (M.insert name .empty)
  | createBucketIfNotExists name =>
    if name = [] then .error .bucketNameRequired
    else if (M.get name).isSome then .ok M
    else .ok (M.insert name .empty)
  | deleteBucket name => if (M.get name).isSome then .ok (M.erase name) else .error .bucketNotFound
  | write name op =>
    match M.get name with
    | none => .error .bucketNotFound
    | some m =>
      match op.result with
      | some e => .error e
      | none => .ok (M.insert name (op.apply m))

/-- The calls on the model up to the first error. -/
def applyAll (M : Maps) : List TxOp → Except Err Maps
  | [] => .ok M
  | op :: ops =>
    match op.apply M with
    | .error e => .error e
    | .ok M' => applyAll M' ops

end TxOp

/-- The write transaction `t` on the state `st`, which holds the maps `V`, has come to the maps `M`;
its handles hold `N`. -/
structure Editing (dead : Finset TxId) (F : Set NodeId) (w0 : World) (st : DbState) (V : Maps)
    (w : World) (t : TxId) (N M : Maps) :
    Prop extends Handles (fun _ m w b => Holds w b m) dead F w t N where
  db : w.db = w0.db
  base : (w.txs t).base = some st
  published : Publishes w st V
  kept : ∀ name, (N.get name).isSome → name ∉ (w.txs t).deleted
  created : ∀ name ∈ (w.txs t).created, (N.get name).isSome
  known : ∀ name, (N.get name).isSome → name ∈ (w.txs t).created ∨ name ∈ st.buckets
  handled : ∀ name m, N.get name = some m → M.get name = some m
  unhandled : ∀ name, N.get name = none →
    M.get name = if name ∈ (w.txs t).deleted then none else V.get name

/-- The transaction has come to what the model gives: the maps, or an error. -/
def EndsIn (dead : Finset TxId) (F : Set NodeId) (w0 : World) (st : DbState) (V : Maps) (t : TxId) :
    Except Err Maps → Option Err → World → Prop
  | .ok M, e, w => e = none ∧ ∃ N, Editing dead F w0 st V w t N M
  | .error err, e, w => e = some err ∧ ∃ N M, Editing dead F w0 st V w t N M

section
variable {w w' w0 : World} {b : BucketId} {dead : Finset TxId} {F : Set NodeId} {t : TxId}
  {name : Name} {m : SortedMap Bytes Bytes} {st : DbState} {V N M : Maps}

lemma Holds.sound (h : Holds w b m) : w.Sound := by
  rcases h with ⟨g, r, H, hh, -⟩ | ⟨g, r, H, hu, -⟩
  · exact hh.sound
  · exact hu.sound

lemma Publishes.mem_iff (h : Publishes w st V) : name ∈ st.buckets ↔ (V.get name).isSome := by
  rw [← AList.lookup_isSome]
  rcases hm : V.get name with _ | m
  · simp [h.absent name hm]
  · obtain ⟨bs, hbs, -⟩ := h.present name m hm
    simp [hbs]

/-- What is published stays as it is. -/
lemma Publishes.frozen (h : Publishes w st V) (hi : Iso dead F w) (hr : RootsIn F st)
    (hnext : w.nextNode ≤ w'.nextNode) (hf : Frozen F w w') : Publishes w' st V := by
  refine ⟨fun name m hm => ?_, h.absent⟩
  obtain ⟨bs, hbs, hst⟩ := h.present name m hm
  refine ⟨bs, hbs, hst.frozen hi (fun x r hx hxr => ?_) hnext hf⟩
  subst hx
  exact hr name x r hbs hxr

/-- The handle that `Tx.Bucket` makes for a committed bucket. -/
lemma StateHolds.opened {bs : Option BucketState} (h : StateHolds w bs m)
    (hbase : (w.txs t).baseBucket name = bs)
    (hd : DirStep w t ((w.txs t).attach name w.nextBucket) w')
    (hbk : w'.buckets w.nextBucket = Bucket.fresh t name) : Holds w' w.nextBucket m := by
  obtain ⟨x, g, r, H, rfl, hr, hc, hm⟩ := h
  have hsame := hd.sameBut hc.tree
  have hself : Bucket.baseState w' w.nextBucket =
      (w'.txs (w'.buckets w.nextBucket).tx).baseBucket (w'.buckets w.nextBucket).name := rfl
  have hbs : Bucket.baseState w' w.nextBucket = some x := by
    rw [hself, hbk]
    change (w'.txs t).baseBucket name = some x
    rw [hd.tx]
    exact hbase
  refine .inr ⟨g, r, H, ⟨hd.sound, by rw [hbk]; rfl, by rw [hbk]; rfl, by rw [hbs]; exact hr,
    hc.same hsame⟩, ?_⟩
  rw [hc.tree.contents_same hsame hc.tree.lvl_root, hm]

/-! ## Calls of a handle stay within it -/

lemma first_bucket {fuel : Nat} {x : Item × Cursor}
    (h : Cursor.First fuel w (Bucket.cursor b) = .ok x) : x.2.bucket = some b := by
  obtain ⟨root, -, h⟩ := Outcome.bind_eq_ok.1 h
  obtain ⟨y, -, h⟩ := Outcome.bind_eq_ok.1 h
  cases h
  rfl

lemma seek_bucket {fuel : Nat} {seek : Bytes} {x : Item × Cursor}
    (h : Cursor.Seek fuel w (Bucket.cursor b) seek = .ok x) : x.2.bucket = some b := by
  obtain ⟨root, -, h⟩ := Outcome.bind_eq_ok.1 h
  obtain ⟨y, -, h⟩ := Outcome.bind_eq_ok.1 h
  obtain ⟨z, -, h⟩ := Outcome.bind_eq_ok.1 h
  cases h
  rfl

lemma stays_bucketOp {fuel : Nat} (op : BucketOp) (h : Within w0 b F w) (hF : Closed w0 b F)
    (hB : BaseIn w0 b F) : Stays (Along w0 b F) w (op.run fuel b) fun _ _ => True := by
  have hfound : ∀ {x : Item × Cursor} {v : World}, Within w0 b F v → x.2.bucket = some b →
      Stays (Along w0 b F) v (BucketOp.deleteFound x) fun _ _ => True := by
    intro x v hv hx
    unfold BucketOp.deleteFound
    split
    · exact .pure hv.along trivial
    · exact stays_cursorDelete hv hF hB hx
  cases op with
  | put key value => exact stays_bucketPut h hF hB
  | delete key => exact stays_bucketDelete h hF hB
  | deleteFirst =>
    exact .bind (P := fun x v => x.2.bucket = some b ∧ Within w0 b F v)
      (.query h.along fun x hx => ⟨first_bucket hx, h⟩) fun x v _ hx => hfound hx.2 hx.1
  | deleteSeek seek =>
    exact .bind (P := fun x v => x.2.bucket = some b ∧ Within w0 b F v)
      (.query h.along fun x hx => ⟨seek_bucket hx, h⟩) fun x v _ hx => hfound hx.2 hx.1

/-! ## The calls of a transaction -/

namespace Editing
variable (h : Editing dead F w0 st V w t N M)
include h

lemma mem_base : (w.txs t).bucketExistsCommitted name = true ↔ (V.get name).isSome := by
  unfold Tx.bucketExistsCommitted Tx.baseNames
  rw [h.base, decide_eq_true_eq, ← AList.mem_keys, h.published.mem_iff]

lemma lookup_eq_none (hN : N.get name = none) : (w.txs t).bctx.lookup name = none := by
  by_contra hc
  obtain ⟨b, hb⟩ := Option.ne_none_iff_exists'.1 hc
  obtain ⟨m, hm, -⟩ := h.handle name b hb
  rw [hN] at hm
  cases hm

/-- The names that the transaction shows are those of the model. -/
lemma taken_iff : (w.txs t).Taken name ↔ (M.get name).isSome := by
  unfold Tx.Taken
  rw [h.mem_base]
  rcases hN : N.get name with _ | m
  · rw [h.unhandled name hN]
    have hcr : name ∉ (w.txs t).created := fun hc => by
      have := h.created name hc
      rw [hN] at this
      cases this
    by_cases hd : name ∈ (w.txs t).deleted <;> simp [hd, hcr]
  · have hsome : (N.get name).isSome := by rw [hN]; rfl
    have hknown := h.known name hsome
    rw [h.published.mem_iff] at hknown
    rw [h.handled name m hN]
    exact ⟨fun _ => rfl, fun _ => ⟨h.kept name hsome, hknown⟩⟩

/-- A name gets a handle, or a handle that holds another map. -/
lemma put_handle (hh : Handles (fun _ m w b => Holds w b m) dead F w' t (N.insert name m))
    (hdb : w'.db = w.db) (hbase : (w'.txs t).base = (w.txs t).base)
    (hnext : w.nextNode ≤ w'.nextNode) (hf : Frozen F w w')
    (hcr : ∀ n, n ≠ name → (n ∈ (w'.txs t).created ↔ n ∈ (w.txs t).created))
    (hdel : ∀ n, n ≠ name → (n ∈ (w'.txs t).deleted ↔ n ∈ (w.txs t).deleted))
    (hself : name ∉ (w'.txs t).deleted) (hknown : name ∈ (w'.txs t).created ∨ name ∈ st.buckets) :
    Editing dead F w0 st V w' t (N.insert name m) (M.insert name m) := by
  refine ⟨hh, hdb.trans h.db, hbase.trans h.base,
    h.published.frozen h.iso (h.iso.base t st h.base) hnext hf, fun n hn => ?_, fun n hn => ?_,
    fun n hn => ?_, fun n x hx => ?_, fun n hn => ?_⟩
  all_goals by_cases hne : n = name
  · rw [hne]
    exact hself
  · rw [N.get_insert_of_ne hne] at hn
    rw [hdel n hne]
    exact h.kept n hn
  · rw [hne, N.get_insert_self]
    rfl
  · rw [N.get_insert_of_ne hne]
    exact h.created n ((hcr n hne).1 hn)
  · rw [hne]
    exact hknown
  · rw [N.get_insert_of_ne hne] at hn
    rw [hcr n hne]
    exact h.known n hn
  · rw [hne, N.get_insert_self] at hx
    rw [hne, M.get_insert_self, hx]
  · rw [N.get_insert_of_ne hne] at hx
    rw [M.get_insert_of_ne hne, h.handled n x hx]
  · rw [hne, N.get_insert_self] at hn
    cases hn
  · rw [N.get_insert_of_ne hne] at hn
    rw [M.get_insert_of_ne hne, h.unhandled n hn]
    simp [hdel n hne]

/-- `Tx.Bucket` of a name that is not there. -/
lemma bucket_none (hM : M.get name = none) : Tx.bucket t name w = (.ok none, w) := by
  have hN : N.get name = none := by
    by_contra hc
    obtain ⟨m, hm⟩ := Option.ne_none_iff_exists'.1 hc
    rw [h.handled name m hm] at hM
    cases hM
  refine bucket_eq_none (h.lookup_eq_none hN) (or_iff_not_imp_left.2 fun hd => ?_)
  rw [h.unhandled name hN, if_neg hd] at hM
  unfold Tx.baseBucket
  rw [h.base]
  dsimp only
  rw [h.published.absent name hM]
  rfl

/-- `Tx.Bucket` of a name that is there: its handle holds the map of the model. -/
lemma bucket_some (hM : M.get name = some m) :
    ∃ b w' N', Tx.bucket t name w = (.ok (some b), w') ∧ (w'.txs t).bctx.lookup name = some b ∧
      N'.get name = some m ∧ Editing dead F w0 st V w' t N' M ∧
      (w'.txs t).created = (w.txs t).created ∧ (w'.txs t).deleted = (w.txs t).deleted ∧
      (w'.txs t).managed = (w.txs t).managed := by
  rcases hN : N.get name with _ | m'
  swap
  · -- there is a handle
    obtain ⟨b, hb⟩ := Option.isSome_iff_exists.1 (h.total name m' hN)
    rw [h.handled name m' hN] at hM
    cases hM
    exact ⟨b, w, N, bucket_eq_of_lookup h.opened hb, hb, hN, h, rfl, rfl, rfl⟩
  have hl := h.lookup_eq_none hN
  have hdel : name ∉ (w.txs t).deleted := by
    intro hd
    rw [h.unhandled name hN, if_pos hd] at hM
    cases hM
  have hV : V.get name = some m := by rwa [h.unhandled name hN, if_neg hdel] at hM
  obtain ⟨bs, hbs, hst⟩ := h.published.present name m hV
  have hbase : (w.txs t).baseBucket name = bs := by
    unfold Tx.baseBucket
    rw [h.base]
    dsimp only
    rw [hbs]
    rfl
  have hsome : ((w.txs t).baseBucket name).isSome := by
    obtain ⟨x, -, -, -, rfl, -⟩ := hst
    rw [hbase]
    rfl
  obtain ⟨w', e, hd, -, hbk, hnext⟩ := bucket_eq_new h.sound h.opened hl hdel hsome
  have hk : Keeps dead F w w' := by
    have hk := (Iso.bucket h.iso : Stays _ _ (Tx.bucket t name) _).1
    rwa [e] at hk
  have htx : w'.txs t = (w.txs t).attach name w.nextBucket := hd.tx
  have hlook : ∀ n, ((w.txs t).attach name w.nextBucket).bctx.lookup n =
      if n = name then some w.nextBucket else (w.txs t).bctx.lookup n := by
    intro n
    change ((w.txs t).bctx.insert name w.nextBucket).lookup n = _
    by_cases hne : n = name
    · rw [hne, AList.lookup_insert, if_pos rfl]
    · rw [AList.lookup_insert_ne hne, if_neg hne]
  have hh : Handles (fun _ m w b => Holds w b m) dead F w' t (N.insert name m) := by
    refine h.toHandles.dirStep (fun _ m => Holds.local m) hd hk.iso rfl h.opened h.writable
      (fun n b hb => ?_) fun n x hx => ?_
    · rw [hlook] at hb
      by_cases hne : n = name
      · subst hne
        rw [if_pos rfl] at hb
        cases hb
        exact .inr ⟨by rw [hbk]; rfl, m, N.get_insert_self _ _, hst.opened hbase hd hbk⟩
      · rw [if_neg hne] at hb
        exact .inl ⟨hb, N.get_insert_of_ne hne _⟩
    · rw [hlook]
      by_cases hne : n = name
      · simp [hne]
      · rw [if_neg hne]
        exact h.total n x ((N.get_insert_of_ne hne _).symm.trans hx)
  have hcr : (w'.txs t).created = (w.txs t).created := by rw [htx]; rfl
  have hdels : (w'.txs t).deleted = (w.txs t).deleted := by rw [htx]; rfl
  have h' := h.put_handle hh hd.db (by rw [htx]; rfl) hnext.ge hk.toFrozen (fun n _ => by rw [hcr])
    (fun n _ => by rw [hdels]) (by rwa [hdels]) (.inr (h.published.mem_iff.2 (by rw [hV]; rfl)))
  rw [SortedMap.insert_get hM] at h'
  exact ⟨_, w', N.insert name m, e, by rw [htx, hlook, if_pos rfl], N.get_insert_self _ _, h', hcr,
    hdels, by rw [htx]; rfl⟩

/-- A call of a handle after which it holds `m'`. -/
lemma call {β : Type} {f : Nat → Go β} {a : β} {m' : SortedMap Bytes Bytes}
    (hb : (w.txs t).bctx.lookup name = some b) (hN : N.get name = some m)
    (hstay : ∀ k, Stays (Along w b F) w (f k) fun _ _ => True) (he : Evals f w a w')
    (hh : Holds w' b m') :
    w'.txs = w.txs ∧ Editing dead F w0 st V w' t (N.insert name m') (M.insert name m') := by
  obtain ⟨hpass, hhs⟩ := h.toHandles.work (fun _ m => Holds.local m) hb hstay he hh.sound hh
  have htxs := hpass.works.txs
  have hsome : (N.get name).isSome := by rw [hN]; rfl
  exact ⟨htxs, h.put_handle hhs hpass.works.db (by rw [htxs]) hpass.nextNode hpass.works.toFrozen
    (fun n _ => by rw [htxs]) (fun n _ => by rw [htxs]) (by rw [htxs]; exact h.kept name hsome)
    (by rw [htxs]; exact h.known name hsome)⟩

/-- A step on a bucket that has a handle. -/
lemma work (hb : (w.txs t).bctx.lookup name = some b) (hN : N.get name = some m) (op : BucketOp) :
    ∃ w', Evals (fun k => op.run k b) w op.result w' ∧ w'.txs = w.txs ∧
      Editing dead F w0 st V w' t (N.insert name (op.apply m)) (M.insert name (op.apply m)) := by
  obtain ⟨m', hm', hh⟩ := h.handle name b hb
  rw [hN] at hm'
  cases hm'
  obtain ⟨w', e, hh', -⟩ := op.run_eq hh (h.toTxRun.handle_writable hb)
  have hlive := h.live hb
  obtain ⟨htxs, h'⟩ := h.call hb hN
    (fun _ => stays_bucketOp op (h.iso.within hlive) (h.iso.closed hlive) h.iso.baseIn) e hh'
  exact ⟨w', e, htxs, h'⟩

/-- A new bucket. -/
lemma create (hname : name ≠ []) (hM : M.get name = none) :
    ∃ b w', Tx.createBucket t name w = (.ok (.ok b), w') ∧
      Editing dead F w0 st V w' t (N.insert name .empty) (M.insert name .empty) ∧
      (w'.txs t).created = insert name (w.txs t).created ∧
      (w'.txs t).deleted = (w.txs t).deleted.erase name ∧
      (w'.txs t).managed = (w.txs t).managed := by
  have hnt : ¬ (w.txs t).Taken name := by
    rw [h.taken_iff, hM]
    simp
  obtain ⟨w', e, hn, hk, hh⟩ :=
    h.toHandles.createBucket (m := .empty) (fun _ m => Holds.local m) hname hnt
    fun w' hw' => hw'.holdsAt.holds
  have htx : w'.txs t = (w.txs t).addBucket name w.nextBucket := hn.step.tx
  have hcr : (w'.txs t).created = insert name (w.txs t).created := by rw [htx]; rfl
  have hdel : (w'.txs t).deleted = (w.txs t).deleted.erase name := by rw [htx]; rfl
  refine ⟨_, w', e,
    h.put_handle hh hn.step.db (by rw [htx]; rfl) hn.step.nextNode hk.toFrozen (fun n hne => ?_)
    (fun n hne => ?_) ?_ (.inl ?_), hcr, hdel, by rw [htx]; rfl⟩
  · rw [hcr, Finset.mem_insert]
    simp [hne]
  · rw [hdel, Finset.mem_erase]
    simp [hne]
  · rw [hdel]
    exact Finset.notMem_erase _ _
  · rw [hcr]
    exact Finset.mem_insert_self _ _

/-- A name is taken out. -/
lemma drop {tx : Tx} (hd : DirStep w t tx w') (hk : Keeps dead F w w')
    (hbctx : tx.bctx = (w.txs t).bctx.erase name) (hdb : tx.db = (w.txs t).db)
    (hwr : tx.writable = (w.txs t).writable) (hbase : tx.base = (w.txs t).base)
    (hcr : tx.created = (w.txs t).created.erase name)
    (hdel : ∀ n, n ≠ name → (n ∈ tx.deleted ↔ n ∈ (w.txs t).deleted))
    (hself : name ∈ tx.deleted ∨ V.get name = none) :
    Editing dead F w0 st V w' t (N.erase name) (M.erase name) := by
  have hlook : ∀ n, tx.bctx.lookup n = if n = name then none else (w.txs t).bctx.lookup n := by
    intro n
    rw [hbctx]
    by_cases e : n = name
    · rw [e, AList.lookup_erase, if_pos rfl]
    · rw [AList.lookup_erase_ne e, if_neg e]
  have hother : ∀ {n x}, (N.erase name).get n = some x → n ≠ name ∧ N.get n = some x := by
    intro n x hx
    rw [SortedMap.get_erase] at hx
    split at hx
    · cases hx
    next e => exact ⟨e, hx⟩
  have hsome : ∀ {n}, ((N.erase name).get n).isSome → n ≠ name ∧ (N.get n).isSome := by
    intro n hn
    obtain ⟨x, hx⟩ := Option.isSome_iff_exists.1 hn
    obtain ⟨h1, h2⟩ := hother hx
    exact ⟨h1, by rw [h2]; rfl⟩
  refine ⟨?_, hd.db.trans h.db, by rw [hd.tx, hbase]; exact h.base,
    h.published.frozen h.iso (h.iso.base t st h.base) hd.nextNode hk.toFrozen, fun n hn => ?_,
    fun n hn => ?_, fun n hn => ?_, fun n x hx => ?_, fun n hn => ?_⟩
  · refine h.toHandles.dirStep (fun _ m => Holds.local m) hd hk.iso hbase (hdb.trans h.opened)
      (hwr.trans h.writable) (fun n b hb => ?_) fun n x hx => ?_
    · rw [hlook] at hb
      split at hb
      · cases hb
      next e => exact .inl ⟨hb, by rw [SortedMap.get_erase, if_neg e]⟩
    · obtain ⟨h1, h2⟩ := hother hx
      rw [hlook, if_neg h1]
      exact h.total n x h2
  · obtain ⟨h1, h2⟩ := hsome hn
    rw [hd.tx, hdel n h1]
    exact h.kept n h2
  · rw [hd.tx, hcr, Finset.mem_erase] at hn
    rw [SortedMap.get_erase, if_neg hn.1]
    exact h.created n hn.2
  · obtain ⟨h1, h2⟩ := hsome hn
    rw [hd.tx, hcr, Finset.mem_erase]
    exact (h.known n h2).imp_left fun hc => ⟨h1, hc⟩
  · obtain ⟨h1, h2⟩ := hother hx
    rw [SortedMap.get_erase, if_neg h1]
    exact h.handled n x h2
  · rw [hd.tx, SortedMap.get_erase]
    by_cases hne : n = name
    · rw [if_pos hne, hne]
      rcases hself with hs | hs
      · rw [if_pos hs]
      · rw [hs, ite_self]
    · rw [SortedMap.get_erase, if_neg hne] at hn
      rw [if_neg hne, h.unhandled n hn]
      simp [hdel n hne]

/-- `Tx.DeleteBucket`, unless it is the second one of a committed name. -/
lemma delete (hM : (M.get name).isSome) (hgood : name ∈ st.buckets → ¬ Gone w t name) :
    ∃ w', Tx.deleteBucket t name w = (.ok none, w') ∧
      Editing dead F w0 st V w' t (N.erase name) (M.erase name) ∧
      ∀ n, Gone w' t n → Gone w t n ∨ n = name := by
  have hkeeps : ∀ {x v}, Tx.deleteBucket t name w = (x, v) → Keeps dead F w v := by
    intro x v e
    have hk := (Iso.deleteBucket h.iso : Stays _ _ (Tx.deleteBucket t name) _).1
    rwa [e] at hk
  rw [h.published.mem_iff] at hgood
  by_cases hc : name ∈ (w.txs t).created
  · -- a bucket of the transaction, which is not in the base
    obtain ⟨w', e, hd, -⟩ := deleteBucket_eq_created h.sound h.opened h.writable hc
    have hV : V.get name = none := by
      by_contra hV
      exact hgood (Option.ne_none_iff_isSome.1 hV) (.inr hc)
    refine ⟨w', e, h.drop hd (hkeeps e) rfl rfl rfl rfl rfl (fun _ _ => .rfl) (.inr hV),
      fun n hn => .inl ?_⟩
    unfold Gone at hn ⊢
    rw [hd.tx] at hn
    exact hn.imp_right Finset.mem_of_mem_erase
  · -- a committed bucket
    have htaken := h.taken_iff.2 hM
    have hcom := htaken.2.resolve_left hc
    obtain ⟨w', e, hd, -⟩ := deleteBucket_eq_committed h.sound h.opened h.writable hc hcom
    refine ⟨w', e, h.drop hd (hkeeps e) rfl rfl rfl rfl (Finset.erase_eq_of_notMem hc).symm
      (fun n hn => ?_) (.inl (Finset.mem_insert_self _ _)), fun n hn => ?_⟩
    · change n ∈ insert name (w.txs t).deleted ↔ _
      simp [hn]
    · unfold Gone at hn ⊢
      rw [hd.tx] at hn
      rcases hn with hn | hn
      · exact (Finset.mem_insert.1 hn).elim .inr fun hn => .inl (.inl hn)
      · exact .inl (.inr hn)

/-- `Tx.CreateBucket` makes no committed name gone: one that is free to be created was deleted
before. -/
lemma gone_of_create (hM : M.get name = none)
    (hcr : (w'.txs t).created = insert name (w.txs t).created)
    (hdel : (w'.txs t).deleted = (w.txs t).deleted.erase name) :
    ∀ n ∈ st.buckets, Gone w' t n → Gone w t n := by
  intro n hn hg
  unfold Gone at hg ⊢
  rw [hcr, hdel, Finset.mem_insert] at hg
  rcases hg with hg | rfl | hg
  · exact .inl (Finset.mem_of_mem_erase hg)
  · -- a committed name that is free was deleted
    by_contra hc
    have htaken : (w.txs t).Taken n :=
      ⟨fun hd => hc (.inl hd), .inr (h.mem_base.2 (h.published.mem_iff.1 hn))⟩
    rw [h.taken_iff, hM] at htaken
    cases htaken
  · exact .inr hg

/-- A call, next to the model. -/
lemma run (op : TxOp)
    (hgood : ∀ name, op = .deleteBucket name → name ∈ st.buckets → ¬ Gone w t name) :
    ∃ e w', Evals (fun k => op.run k t) w e w' ∧ EndsIn dead F w0 st V t (op.apply M) e w' ∧
      ∀ n ∈ st.buckets, Gone w' t n → Gone w t n ∨ op = .deleteBucket n := by
  cases op with
  | createBucket name =>
    by_cases hname : name = []
    · have e := createBucket_eq_of_empty h.opened h.writable hname
      rw [TxOp.apply, if_pos hname]
      exact ⟨_, w, .of_eq (Prog.bind_ok e), ⟨rfl, N, M, h⟩, fun n _ hn => .inl hn⟩
    rcases hM : M.get name with _ | m
    · obtain ⟨b, w', e, h', hcr, hdel, -⟩ := h.create hname hM
      rw [TxOp.apply, if_neg hname, if_neg (by simp [hM])]
      exact ⟨_, w', .of_eq (Prog.bind_ok e), ⟨rfl, _, h'⟩,
        fun n hn hg => .inl (h.gone_of_create hM hcr hdel n hn hg)⟩
    · have e := createBucket_eq_of_taken h.opened h.writable hname (h.taken_iff.2 (by rw [hM]; rfl))
      rw [TxOp.apply, if_neg hname, if_pos (by simp [hM])]
      exact ⟨_, w, .of_eq (Prog.bind_ok e), ⟨rfl, N, M, h⟩, fun n _ hn => .inl hn⟩
  | createBucketIfNotExists name =>
    by_cases hname : name = []
    · have e := createBucketIfNotExists_eq_of_empty h.opened h.writable hname
      rw [TxOp.apply, if_pos hname]
      exact ⟨_, w, .of_eq (Prog.bind_ok e), ⟨rfl, N, M, h⟩, fun n _ hn => .inl hn⟩
    have hrun := createBucketIfNotExists_eq h.opened h.writable hname
    rcases hM : M.get name with _ | m
    · obtain ⟨b, w', e, h', hcr, hdel, -⟩ := h.create hname hM
      have e' : Tx.createBucketIfNotExists t name w = (.ok (.ok b), w') :=
        hrun.trans ((Prog.bind_ok (h.bucket_none hM)).trans e)
      rw [TxOp.apply, if_neg hname, if_neg (by simp [hM])]
      exact ⟨_, w', .of_eq (Prog.bind_ok e'), ⟨rfl, _, h'⟩,
        fun n hn hg => .inl (h.gone_of_create hM hcr hdel n hn hg)⟩
    · obtain ⟨b, w', N', e, -, -, h', hcr, hdel, -⟩ := h.bucket_some hM
      have e' : Tx.createBucketIfNotExists t name w = (.ok (.ok b), w') :=
        hrun.trans (Prog.bind_ok e)
      rw [TxOp.apply, if_neg hname, if_pos (by simp [hM])]
      refine ⟨_, w', .of_eq (Prog.bind_ok e'), ⟨rfl, N', h'⟩, fun n _ hg => .inl ?_⟩
      unfold Gone at hg ⊢
      rwa [hcr, hdel] at hg
  | deleteBucket name =>
    by_cases hM : (M.get name).isSome
    · obtain ⟨w', e, h', hg⟩ := h.delete hM (hgood name rfl)
      rw [TxOp.apply, if_pos hM]
      refine ⟨_, w', .of_eq e, ⟨rfl, _, h'⟩, fun n _ hn => (hg n hn).imp_right fun hne => ?_⟩
      rw [hne]
    · -- the name is neither created nor committed
      have hnt := h.taken_iff.not.2 hM
      have hfree : name ∉ (w.txs t).created ∧ (w.txs t).bucketExistsCommitted name = false := by
        refine ⟨fun hc => hnt ⟨h.kept name (h.created name hc), .inl hc⟩, ?_⟩
        rw [← Bool.not_eq_true]
        intro hb
        have hgone := hgood name rfl (h.published.mem_iff.2 (h.mem_base.1 hb))
        exact hnt ⟨fun hd => hgone (.inl hd), .inr hb⟩
      rw [TxOp.apply, if_neg hM]
      exact ⟨_, w, .of_eq (deleteBucket_eq_notFound h.opened h.writable hfree.1 hfree.2),
        ⟨rfl, N, M, h⟩, fun n _ hn => .inl hn⟩
  | write name op =>
    rcases hM : M.get name with _ | m
    · rw [TxOp.apply, hM]
      exact ⟨_, w, .of_forall fun k => Prog.bind_ok (h.bucket_none hM), ⟨rfl, N, M, h⟩,
        fun n _ hn => .inl hn⟩
    · obtain ⟨b, w1, N1, e1, hb, hN, h1, hcr, hdel, -⟩ := h.bucket_some hM
      obtain ⟨w', e2, htxs, h'⟩ := h1.work hb hN op
      refine ⟨op.result, w', e2.mono fun k hk => (Prog.bind_ok e1).trans hk, ?_,
        fun n _ hg => .inl ?_⟩
      · rw [TxOp.apply, hM]
        dsimp only
        rcases hr : op.result with _ | e
        · exact ⟨rfl, _, h'⟩
        · exact ⟨rfl, _, _, h'⟩
      · unfold Gone at hg ⊢
        rwa [htxs, hcr, hdel] at hg

/-- The calls of a function, next to the model. -/
lemma runAll (ops : List TxOp)
    (hgood : ∀ name ∈ st.buckets, Gone w t name → TxOp.deleteBucket name ∉ ops)
    (honce : ∀ name ∈ st.buckets, ops.count (.deleteBucket name) ≤ 1) :
    ∃ e w', Evals (fun k => TxOp.runAll k t ops) w e w' ∧
      EndsIn dead F w0 st V t (TxOp.applyAll M ops) e w' := by
  induction ops generalizing w N M with
  | nil => exact ⟨none, w, .pure, rfl, N, h⟩
  | cons op ops ih =>
    obtain ⟨e1, w1, ev1, hend, hg⟩ := h.run op fun name hop hn hgone =>
      hgood name hn hgone (hop ▸ List.mem_cons_self)
    unfold TxOp.applyAll
    rcases hop : op.apply M with err | M1
    · -- the first error ends the function
      rw [hop] at hend
      obtain ⟨rfl, hend⟩ := hend
      exact ⟨some err, w1, ev1.bind .pure, rfl, hend⟩
    · rw [hop] at hend
      obtain ⟨rfl, N1, h1⟩ := hend
      have hgood1 : ∀ name ∈ st.buckets, Gone w1 t name → TxOp.deleteBucket name ∉ ops := by
        intro name hn hgone hmem
        rcases hg name hn hgone with hgone | rfl
        · exact hgood name hn hgone (.tail _ hmem)
        · have h2 := honce name hn
          rw [List.count_cons_self] at h2
          exact List.count_eq_zero.1 (by omega) hmem
      obtain ⟨e2, w2, ev2, hend2⟩ :=
        ih h1 hgood1 fun name hn => List.count_le_count_cons.trans (honce name hn)
      exact ⟨e2, w2, ev1.bind ev2, hend2⟩

end Editing

end

end Vmbolt
