import Vmbolt.Commit.Commit
import Vmbolt.Isolation.Context

/-!
# The directory of a transaction

Which buckets a transaction shows is spread over four maps: the buckets of its base, the names it
has created, the names it has deleted and the handles it has made. `DirOK` is what they agree on
between two calls, `Dirs` the same for all transactions of a run together with the published states.
`Alone` says that a stretch of a call belongs to one transaction, so only the directory of that
transaction can be out of order when the call is cut off.
-/

namespace Vmbolt
open Prog Relation

/-- The published map has no empty name and no nil bucket. -/
def DbState.OK (st : DbState) : Prop :=
  ∀ name bs, st.buckets.lookup name = some bs → name ≠ [] ∧ bs.isSome

/-- The maps of the transaction agree, and if it is open it has a base. -/
structure DirOK (w : World) (t : TxId) : Prop where
  opened : (w.txs t).db = true → (w.txs t).base.isSome
  created : ∀ name ∈ (w.txs t).created, name ≠ [] ∧ ((w.txs t).bctx.lookup name).isSome
  name : ∀ name b, (w.txs t).bctx.lookup name = some b → (w.buckets b).name = name
  kept : ∀ name b, (w.txs t).bctx.lookup name = some b → name ∉ (w.txs t).deleted
  known : ∀ name b, (w.txs t).bctx.lookup name = some b →
    name ∈ (w.txs t).created ∨ ((w.txs t).baseBucket name).isSome
  root : ∀ name b, (w.txs t).bctx.lookup name = some b → (w.buckets b).rootNode = none →
    ((w.txs t).baseBucket name).isSome

/-- The directories are in order, but for the transactions that have ended. -/
structure Dirs (ended : Finset TxId) (w : World) : Prop where
  state : ∀ st, w.db.state = some st → st.OK
  base : ∀ t st, (w.txs t).base = some st → st.OK
  dir : ∀ t, t ∉ ended → DirOK w t

/-- From `w` to `w'` only the transaction `t` has worked. -/
structure Alone (t : TxId) (w w' : World) : Prop where
  state : w'.db.state = w.db.state
  base : ∀ st, (w'.txs t).base = some st → (w.txs t).base = some st
  txs : ∀ t', t' ≠ t → w'.txs t' = w.txs t'
  nextBucket : w.nextBucket ≤ w'.nextBucket
  tx : ∀ b, b < w.nextBucket → (w'.buckets b).tx = (w.buckets b).tx
  bucket : ∀ b, b < w.nextBucket → (w.buckets b).tx ≠ t → w'.buckets b = w.buckets b

section
variable {w w' w1 v : World} {b : BucketId} {dead ended : Finset TxId} {F : Set NodeId}
  {t t' : TxId} {name : Name} {fuel : Nat} {st : DbState}

lemma Alone.refl (t : TxId) (w : World) : Alone t w w :=
  ⟨rfl, fun _ => id, fun _ _ => rfl, le_rfl, fun _ _ => rfl, fun _ _ _ => rfl⟩

instance : Track (Alone t) where
  trans h1 h2 := ⟨h2.state.trans h1.state, fun st h => h1.base st (h2.base st h),
    fun t' ht => (h2.txs t' ht).trans (h1.txs t' ht), h1.nextBucket.trans h2.nextBucket,
    fun b hb => (h2.tx b (hb.trans_le h1.nextBucket)).trans (h1.tx b hb), fun b hb ht =>
      (h2.bucket b (hb.trans_le h1.nextBucket) (by rwa [h1.tx b hb])).trans (h1.bucket b hb ht)⟩
  refl_right {_ w} _ := .refl t w

/-- The directory of another transaction is not touched. -/
lemma DirOK.alone (h : DirOK w t') (hi : Iso dead F w) (ha : Alone t w w') (hne : t' ≠ t) :
    DirOK w' t' := by
  have hbk : ∀ name b, (w.txs t').bctx.lookup name = some b → w'.buckets b = w.buckets b := by
    intro name b hb
    obtain ⟨h1, h2⟩ := hi.bctx t' name b hb
    exact ha.bucket b h1 (by rwa [h2])
  refine ⟨?_, ?_, ?_, ?_, ?_, ?_⟩ <;> rw [ha.txs t' hne]
  · exact h.opened
  · exact h.created
  · intro name b hb
    rw [hbk name b hb]
    exact h.name name b hb
  · exact h.kept
  · exact h.known
  · intro name b hb
    rw [hbk name b hb]
    exact h.root name b hb

/-- A stretch of a call of the transaction `t`, wherever it is cut off. -/
lemma Dirs.alone (h : Dirs ended w) (hi : Iso dead F w) (ha : Alone t w w') :
    Dirs (insert t ended) w' := by
  refine ⟨fun st hst => h.state st (ha.state ▸ hst), fun t' st hst => ?_, fun t' ht' => ?_⟩
  · by_cases e : t' = t
    · subst e
      exact h.base t' st (ha.base st hst)
    · exact h.base t' st (ha.txs t' e ▸ hst)
  · rw [Finset.mem_insert, not_or] at ht'
    exact (h.dir t' ht'.2).alone hi ha ht'.1

/-- A call that returned has brought the directory of its transaction in order. -/
lemma Dirs.settle (h : Dirs (insert t ended) w) (hd : DirOK w t) : Dirs ended w := by
  refine ⟨h.state, h.base, fun t' ht' => ?_⟩
  by_cases e : t' = t
  · rwa [e]
  · exact h.dir t' (by rw [Finset.mem_insert, not_or]; exact ⟨e, ht'⟩)

lemma Dirs.weaken (h : Dirs ended w) (t : TxId) : Dirs (insert t ended) w :=
  ⟨h.state, h.base, fun t' ht' => h.dir t' fun hm => ht' (Finset.mem_insert_of_mem hm)⟩

/-! ## Calls of a handle -/

lemma Within.alone (h : Within w b F w') (ht : (w.buckets b).tx = t) : Alone t w w' := by
  refine ⟨by rw [h.db], fun st => by rw [h.txs]; exact id, fun _ _ => by rw [h.txs],
    h.nextBucket.ge, fun _ _ => h.tx_eq, fun b' _ hne => h.bucket b' ?_⟩
  rintro rfl
  exact hne ht

lemma Marks.dirOK {x : Option NodeId} (hm : Marks x w w') (h : DirOK w t) : DirOK w' t := by
  refine ⟨?_, ?_, ?_, ?_, ?_, ?_⟩ <;> rw [hm.txs]
  · exact h.opened
  · exact h.created
  · intro name b hb
    rw [(hm.handle b).name]
    exact h.name name b hb
  · exact h.kept
  · exact h.known
  · intro name b hb hr
    refine h.root name b hb ?_
    by_contra hne
    have := (hm.handle b).root (Option.isSome_iff_ne_none.2 hne)
    rw [hr] at this
    cases this

/-- A call of a live handle. -/
lemma alone_handle {α : Type} {m : Go α} {Q : α → World → Prop} (hm : Stays (Along w b F) w m Q)
    (hk : Moves (Marks none) m) (ht : (w.buckets b).tx = t) (hd : DirOK w t) :
    Stays (Alone t) w m fun _ w' => DirOK w' t :=
  ⟨hm.1.within.alone ht, fun a e => (hk w a _ (Prod.ext e rfl)).dirOK hd⟩

lemma Iso.call_alone {α : Type} {m : Go α} (h : Iso dead F w) (hm : HandleCall b m)
    (hb : b < w.nextBucket) (ht : (w.buckets b).tx ∉ dead) (hd : DirOK w (w.buckets b).tx) :
    Stays (Alone (w.buckets b).tx) w m fun _ w' => DirOK w' (w.buckets b).tx :=
  hm.stays h hb ht (.refl _ w) (fun _ => hd) fun _ ha => alone_handle ha hm.marks rfl hd

/-! ## Calls of the directory -/

/-- Write fields of the transaction. -/
lemma alone_modify {f : Tx → Tx} (hf : ∀ tx st, (f tx).base = some st → tx.base = some st) :
    Stays (Alone t) w (Tx.modify t f) fun _ w' => w'.txs t = f (w.txs t) ∧
      w'.buckets = w.buckets := by
  refine stays_write_of ⟨rfl, fun _ => id, fun _ _ => rfl, le_rfl, fun _ _ => rfl, fun _ _ _ => rfl⟩
    fun c => ⟨⟨rfl, fun st hst => ?_, fun t' ht => ?_, le_rfl, fun _ _ => rfl,
      fun _ _ _ => rfl⟩, ?_, rfl⟩
  · simp only [World.setTx, Function.update_self] at hst
    exact hf _ st hst
  · simp [World.setTx, ht]
  · simp [World.setTx]

lemma alone_newBucket : Stays (Alone t) w (Bucket.newBucket t name) fun b w' =>
    b = w.nextBucket ∧ w'.txs = w.txs ∧ w'.buckets b = Bucket.fresh t name ∧
      ∀ b', b' < w.nextBucket → w'.buckets b' = w.buckets b' := by
  refine .read_bind (.bind (P := fun _ w' => w'.txs = w.txs ∧
    w'.buckets w.nextBucket = Bucket.fresh t name ∧ ∀ b', b' < w.nextBucket →
    w'.buckets b' = w.buckets b') ?_ fun _ w' _ h => .pure (.refl t w') ⟨rfl, h⟩)
  have hset : ∀ b', b' < w.nextBucket → ∀ bk, (w.setBucket w.nextBucket bk).buckets b' =
      w.buckets b' :=
    fun b' hb' bk => by simp [World.setBucket, hb'.ne]
  refine stays_write_of ⟨rfl, fun _ => id, fun _ _ => rfl, le_rfl, fun _ _ => rfl, fun _ _ _ => rfl⟩
    fun c => ⟨⟨rfl, fun _ => id, fun _ _ => rfl, Nat.le_succ _, fun b' hb' => ?_,
      fun b' hb' _ => ?_⟩, rfl, ?_, fun b' hb' => ?_⟩
  · exact congrArg Bucket.tx (hset b' hb' _)
  · exact hset b' hb' _
  · simp [World.setBucket, Bucket.fresh]
  · exact hset b' hb' _

/-- The handle `b`, which is new or has been there, is entered under `name`. -/
lemma DirOK.insert {tx : Tx} (name : Name) (b : BucketId) (h : DirOK w t) (htx : w'.txs t = tx)
    (hbctx : ∀ name', name' ≠ name → tx.bctx.lookup name' = (w.txs t).bctx.lookup name')
    (hself : tx.bctx.lookup name = some b) (hdb : tx.db = (w.txs t).db)
    (hbase : tx.base = (w.txs t).base)
    (hbk : ∀ name' b', (w.txs t).bctx.lookup name' = some b' →
      KeepsHandle (w.buckets b') (w'.buckets b'))
    (hcr : ∀ name', name' ≠ name → (name' ∈ tx.created ↔ name' ∈ (w.txs t).created))
    (hdel : ∀ name', name' ≠ name → (name' ∈ tx.deleted ↔ name' ∈ (w.txs t).deleted))
    (hne : name ∈ tx.created → name ≠ []) (hname : (w'.buckets b).name = name)
    (hkept : name ∉ tx.deleted) (hknown : name ∈ tx.created ∨ (tx.baseBucket name).isSome)
    (hroot : (w'.buckets b).rootNode = none → (tx.baseBucket name).isSome) : DirOK w' t := by
  have hbb : ∀ n, tx.baseBucket n = (w.txs t).baseBucket n := fun n => by
    unfold Tx.baseBucket
    rw [hbase]
  -- what is said about the name itself is given, the other names are as before
  refine ⟨by rw [htx, hdb, hbase]; exact h.opened, fun n hn => ?_, fun n b' hn => ?_,
    fun n b' hn => ?_,
    fun n b' hn => ?_, fun n b' hn => ?_⟩ <;> rw [htx] at * <;> by_cases e : n = name
  · subst e
    exact ⟨hne hn, by rw [hself]; rfl⟩
  · rw [hbctx n e]
    exact h.created n ((hcr n e).1 hn)
  · subst e
    rw [hself] at hn
    cases hn
    exact hname
  · rw [hbctx n e] at hn
    rw [(hbk n b' hn).name]
    exact h.name n b' hn
  · subst e
    exact hkept
  · rw [hbctx n e] at hn
    rw [hdel n e]
    exact h.kept n b' hn
  · subst e
    exact hknown
  · rw [hbctx n e] at hn
    rw [hcr n e, hbb]
    exact h.known n b' hn
  · subst e
    rw [hself] at hn
    cases hn
    exact hroot
  · rw [hbctx n e] at hn
    rw [hbb]
    intro hr
    refine h.root n b' hn ?_
    by_contra hc
    have := (hbk n b' hn).root (Option.isSome_iff_ne_none.2 hc)
    rw [hr] at this
    cases this

lemma Iso.bucket_alone (h : Iso dead F w) (hd : DirOK w t) :
    Stays (Alone t) w (Tx.bucket t name) fun _ w' => DirOK w' t := by
  refine .read_bind (.guard (.refl t w) hd fun _ => ?_)
  split
  · exact .pure (.refl t w) hd
  refine .guard (.refl t w) hd fun hdel => ?_
  split
  · exact .pure (.refl t w) hd
  next bs hbs =>
  refine .bind alone_newBucket fun b w1 _ h1 => ?_
  obtain ⟨rfl, htxs, hfresh, hold⟩ := h1
  refine .bind (alone_modify fun _ _ => id) fun _ w2 _ h2 => .pure (.refl t w2) ?_
  rw [htxs] at h2
  refine hd.insert name w.nextBucket h2.1 (fun n hn => AList.lookup_insert_ne hn)
    (AList.lookup_insert _) rfl rfl (fun n b' hb' => ?_) (fun _ _ => .rfl) (fun _ _ => .rfl)
    (fun hc => (hd.created name hc).1) ?_ hdel
    (.inr (by simp only [Tx.baseBucket] at hbs ⊢; rw [hbs]; rfl))
    fun _ => by simp only [Tx.baseBucket] at hbs ⊢; rw [hbs]; rfl
  · rw [h2.2, hold b' (h.bctx t n b' hb').1]
    exact .refl _
  · rw [h2.2, hfresh]
    rfl

/-- A new bucket has a root. -/
lemma newRoot_root {a : Unit} (e : Bucket.newRoot b w = (.ok a, w')) :
    (w'.buckets b).rootNode.isSome := by
  obtain ⟨s, w1, -, e⟩ := Prog.bind_eq_ok e
  obtain ⟨root, w2, -, e⟩ := Prog.bind_eq_ok e
  obtain ⟨a3, w3, e3, e⟩ := Prog.bind_eq_ok e
  refine ((moves_markDirty w3 a w' e).handle b).root ?_
  unfold modifyBucket at e3
  obtain ⟨c, rfl⟩ := write_eq_ok e3
  simp [World.setBucket]

lemma Iso.createBucket_alone (h : Iso dead F w) (ht : t ∉ dead) (hd : DirOK w t) :
    Stays (Alone t) w (Tx.createBucket t name) fun _ w' => DirOK w' t := by
  refine .read_bind (.guard (.refl t w) hd fun ho => .guard (.refl t w) hd fun hw =>
    .guard (.refl t w) hd fun hname => .guard (.refl t w) hd fun _ => ?_)
  have ho : (w.txs t).db = true := by simpa using ho
  refine .bind (alone_newBucket.both (h.newBucket ho)) fun b w1 _ h1 => ?_
  obtain ⟨⟨rfl, htxs, hfresh, hold⟩, ⟨hb, hbt, htx⟩, hk⟩ := h1
  have hl : Live w1 dead w.nextBucket := ⟨hb, by rw [hbt, htx]; exact ho,
    by rw [hbt, htx]; simpa using hw, by rwa [hbt]⟩
  have hroot := stays_newRoot (hk.iso.within hl)
  -- the root of the new bucket, and then the three maps
  have hnew : Stays (Alone t) w1 (Bucket.newRoot w.nextBucket) fun _ w2 => Marks none w1 w2 ∧
      (w2.buckets w.nextBucket).rootNode.isSome :=
    ⟨hroot.1.within.alone hbt, fun a e =>
      ⟨moves_newRoot w1 a _ (Prod.ext e rfl), newRoot_root (Prod.ext e rfl)⟩⟩
  have hrest : ∀ w2, Marks none w1 w2 ∧ (w2.buckets w.nextBucket).rootNode.isSome →
      Stays (Alone t) w2 (Tx.enter t name w.nextBucket) fun _ w' => DirOK w' t := by
    rintro w2 ⟨hm, hr⟩
    refine .bind (alone_modify fun _ _ => id) fun _ w3 _ h3 => ?_
    refine .bind (alone_modify fun _ _ => id) fun _ w4 _ h4 => ?_
    refine .bind (alone_modify fun _ _ => id) fun _ w5 _ h5 => .pure (.refl t w5) ?_
    have hbk : w5.buckets = w2.buckets := h5.2.trans (h4.2.trans h3.2)
    have htx5 := h5.1
    rw [h4.1, h3.1, hm.txs, htxs] at htx5
    refine hd.insert name w.nextBucket htx5 (fun n hn => AList.lookup_insert_ne hn)
      (AList.lookup_insert _) rfl rfl (fun n b' hb' => ?_) (fun n hn => by simp [hn])
      (fun n hn => by simp [hn]) (fun _ => by simpa using hname) ?_ (by simp) (.inl (by simp))
      fun hnone => ?_
    · rw [hbk, ← hold b' (h.bctx t n b' hb').1]
      exact hm.handle b'
    · rw [hbk, (hm.handle _).name, hfresh]
      rfl
    · rw [hbk] at hnone
      rw [hnone] at hr
      cases hr
  simpa only [bind_assoc] using Stays.bind hnew fun _ w2 _ h2 => hrest w2 h2

lemma Iso.createBucketIfNotExists_alone (h : Iso dead F w) (ht : t ∉ dead) (hd : DirOK w t) :
    Stays (Alone t) w (Tx.createBucketIfNotExists t name) fun _ w' => DirOK w' t := by
  refine .read_bind (.guard (.refl t w) hd fun _ => .guard (.refl t w) hd fun _ =>
    .guard (.refl t w) hd fun _ => ?_)
  refine .bind ((h.bucket_alone hd).both h.bucket) fun b w1 _ h1 => ?_
  cases b with
  | some b => exact .pure (.refl t w1) h1.1
  | none => exact h1.2.2.iso.createBucket_alone ht h1.1

/-- A name is taken out of the directory. -/
lemma DirOK.erase {tx : Tx} (name : Name) (h : DirOK w t) (htx : w'.txs t = tx)
    (hbk : w'.buckets = w.buckets) (hbctx : tx.bctx = (w.txs t).bctx.erase name)
    (hdb : tx.db = (w.txs t).db) (hbase : tx.base = (w.txs t).base) (hcr : name ∉ tx.created)
    (hcr' : ∀ n, n ≠ name → (n ∈ tx.created ↔ n ∈ (w.txs t).created))
    (hdel : ∀ n, n ≠ name → (n ∈ tx.deleted ↔ n ∈ (w.txs t).deleted)) : DirOK w' t := by
  have hbb : ∀ n, tx.baseBucket n = (w.txs t).baseBucket n := fun n => by
    unfold Tx.baseBucket
    rw [hbase]
  have hlook : ∀ n b, tx.bctx.lookup n = some b → n ≠ name ∧ (w.txs t).bctx.lookup n = some b := by
    intro n b hn
    rw [hbctx] at hn
    refine ⟨?_, lookup_erase hn⟩
    rintro rfl
    rw [AList.lookup_erase] at hn
    cases hn
  refine ⟨by rw [htx, hdb, hbase]; exact h.opened, fun n hn => ?_, fun n b hn => ?_,
    fun n b hn => ?_, fun n b hn => ?_, fun n b hn => ?_⟩ <;> rw [htx] at *
  · have hne : n ≠ name := by
      rintro rfl
      exact hcr hn
    rw [hbctx, AList.lookup_erase_ne hne]
    exact h.created n ((hcr' n hne).1 hn)
  · rw [hbk]
    exact h.name n b (hlook n b hn).2
  · rw [hdel n (hlook n b hn).1]
    exact h.kept n b (hlook n b hn).2
  · rw [hcr' n (hlook n b hn).1, hbb]
    exact h.known n b (hlook n b hn).2
  · rw [hbk, hbb]
    exact h.root n b (hlook n b hn).2

lemma deleteBucket_alone (hd : DirOK w t) :
    Stays (Alone t) w (Tx.deleteBucket t name) fun _ w' => DirOK w' t := by
  refine .read_bind (.guard (.refl t w) hd fun _ => .guard (.refl t w) hd fun _ => ?_)
  split
  · refine .bind (alone_modify fun _ _ => id) fun _ w1 _ h1 => ?_
    refine .bind (alone_modify fun _ _ => id) fun _ w2 _ h2 => .pure (.refl t w2) ?_
    have htx := h2.1
    rw [h1.1] at htx
    exact hd.erase name htx (h2.2.trans h1.2) rfl rfl rfl (by simp) (fun n hn => by simp [hn])
      fun _ _ => .rfl
  next hc =>
    refine .guard (.refl t w) hd fun _ => .bind (alone_modify fun _ _ => id) fun _ w1 _ h1 => ?_
    refine .bind (alone_modify fun _ _ => id) fun _ w2 _ h2 => .pure (.refl t w2) ?_
    have htx := h2.1
    rw [h1.1] at htx
    exact hd.erase name htx (h2.2.trans h1.2) rfl rfl rfl hc (fun _ _ => .rfl)
      fun n hn => by simp [hn]

/-! ## Opening and closing transactions -/

/-- A transaction without handles and without created names. -/
lemma DirOK.of_empty (ho : (w.txs t).db = true → (w.txs t).base.isSome) (hb : (w.txs t).bctx = ∅)
    (hc : (w.txs t).created = ∅) : DirOK w t := by
  have hl : ∀ n b, (w.txs t).bctx.lookup n ≠ some b := fun n b e => by
    rw [hb, AList.lookup_empty] at e
    cases e
  refine ⟨ho, fun n hn => ?_, fun n b e => absurd e (hl n b), fun n b e => absurd e (hl n b),
    fun n b e => absurd e (hl n b), fun n b e => absurd e (hl n b)⟩
  rw [hc] at hn
  exact absurd hn (Finset.notMem_empty n)

lemma alone_unlock : Stays (Alone t) w Tx.unlock fun _ w' => w'.txs = w.txs := by
  refine .read_bind ?_
  split
  · exact stays_write_of
      ⟨rfl, fun _ => id, fun _ _ => rfl, le_rfl, fun _ _ => rfl, fun _ _ _ => rfl⟩
      fun c => ⟨⟨rfl, fun _ => id, fun _ _ => rfl, le_rfl, fun _ _ => rfl, fun _ _ _ => rfl⟩, rfl⟩
  · exact .panic (.refl t w)

lemma close_alone (hd : t ∉ ended → DirOK w t) :
    Stays (Alone t) w (Tx.close t) fun _ w' => t ∉ ended → DirOK w' t := by
  refine .read_bind ?_
  split
  · exact .pure (.refl t w) hd
  have hclear : ∀ w1, Stays (Alone t) w1 (Tx.clearFields t) fun _ w' => t ∉ ended → DirOK w' t := by
    intro w1
    refine .bind (alone_modify fun _ _ => id) fun _ w2 _ h2 => ?_
    refine .bind (alone_modify fun tx st e => by cases e) fun _ w3 _ h3 => ?_
    refine .bind (alone_modify fun _ _ => id) fun _ w4 _ h4 => ?_
    refine .bind (alone_modify fun _ _ => id) fun _ w5 _ h5 => ?_
    have hlast : Stays (Alone t) w5 (Tx.modify t fun tx => { tx with deleted := ∅ }) _ :=
      alone_modify fun _ _ => id
    refine hlast.mono fun _ w6 _ h6 _ => ?_
    have htx := h6.1
    rw [h5.1, h4.1, h3.1, h2.1] at htx
    exact .of_empty (by rw [htx]; exact fun hc => by cases hc) (by rw [htx]) (by rw [htx])
  dsimp only
  split
  · exact .bind alone_unlock fun _ w1 _ _ => hclear w1
  · exact hclear w

lemma rollback_alone (hd : t ∉ ended → DirOK w t) :
    Stays (Alone t) w (Tx.Rollback t) fun _ w' => t ∉ ended → DirOK w' t := by
  refine .read_bind (.assert_bind (.refl t w) fun _ => .guard (.refl t w) hd fun _ => ?_)
  exact .bind (close_alone hd) fun _ w2 _ h2 => .pure (.refl t w2) h2

/-- Every moment of a call is in order. -/
def ToDirs (ended : Finset TxId) (_ w' : World) : Prop := Dirs ended w'

instance : Track (ToDirs ended) where
  trans _ h2 := h2
  refl_right h := h

/-- A change of the record of the database. -/
lemma Dirs.congr (h : Dirs ended w) (htxs : w'.txs = w.txs) (hbk : w'.buckets = w.buckets)
    (hst : ∀ st, w'.db.state = some st → st.OK) : Dirs ended w' := by
  refine ⟨hst, by rw [htxs]; exact h.base, fun t ht => ?_⟩
  have hd := h.dir t ht
  exact ⟨by rw [htxs]; exact hd.opened, by rw [htxs]; exact hd.created,
    by rw [htxs, hbk]; exact hd.name, by rw [htxs]; exact hd.kept, by rw [htxs]; exact hd.known,
    by rw [htxs, hbk]; exact hd.root⟩

lemma Dirs.setDb {f : DB → DB} (h : Dirs ended w) (hf : ∀ db, (f db).state = db.state) :
    Stays (ToDirs ended) w (write fun w => { w with db := f w.db }) fun _ _ => True :=
  stays_write_of (h.congr rfl rfl h.state) fun _ =>
    ⟨h.congr rfl rfl fun st hst => h.state st (hf w.db ▸ hst), trivial⟩

lemma Dirs.unlock (h : Dirs ended w) : Stays (ToDirs ended) w Tx.unlock fun _ _ => True := by
  refine .read_bind ?_
  split
  · exact h.setDb (f := fun db => { db with rwlock := false }) fun _ => rfl
  · exact .panic h

lemma Dirs.newTx {writable : Bool} (h : Dirs ended w) (hst : w.db.state = some st) :
    Stays (ToDirs ended) w (DB.newTx writable st) fun _ _ => True := by
  refine .read_bind (.bind (P := fun _ _ => True) (stays_write_of (h.congr rfl rfl h.state) fun c =>
    ⟨?_, trivial⟩) fun _ w' h' _ => .pure h' trivial)
  have hother : ∀ t', t' ≠ w.nextTx → ∀ tx, (w.setTx w.nextTx tx).txs t' = w.txs t' :=
    fun t' ht tx => by
    simp [World.setTx, ht]
  refine ⟨h.state, fun t' st' hb => ?_, fun t' ht' => ?_⟩ <;> by_cases e : t' = w.nextTx
  · subst e
    simp only [World.setTx, Function.update_self] at hb
    cases hb
    exact h.state st hst
  · exact h.base t' st' ((hother t' e _) ▸ hb)
  · subst e
    exact .of_empty (by simp [World.setTx]) (by simp [World.setTx, Tx.zero])
      (by simp [World.setTx, Tx.zero])
  · have hd := h.dir t' ht'
    have heq := hother t' e { Tx.zero with writable := writable, db := true, base := some st }
    refine ⟨?_, ?_, ?_, ?_, ?_, ?_⟩ <;> dsimp only at heq ⊢ <;>
      simp only [World.setTx] at heq ⊢ <;> rw [heq]
    · exact hd.opened
    · exact hd.created
    · exact hd.name
    · exact hd.kept
    · exact hd.known
    · exact hd.root

lemma Dirs.begin (h : Dirs ended w) (writable : Bool) :
    Stays (ToDirs ended) w (DB.begin_ writable) fun _ _ => True := by
  unfold DB.begin_
  split
  · refine .read_bind ?_
    split
    · exact .pure h trivial
    refine .bind (P := fun _ _ => True) ?_ fun _ w1 h1 _ => .read_bind ?_
    · refine .read_bind ?_
      split
      · exact .hang h
      · exact h.setDb (f := fun db => { db with rwlock := true }) fun _ => rfl
    have h1 : Dirs ended w1 := h1
    split
    · exact .bind h1.unlock fun _ w2 h2 _ => .pure h2 trivial
    split
    · exact .bind h1.unlock fun _ w2 h2 _ => .pure h2 trivial
    next st hst => exact .bind (h1.newTx hst) fun _ w2 h2 _ => .pure h2 trivial
  · refine .read_bind ?_
    split
    · exact .pure h trivial
    split
    · exact .pure h trivial
    next st hst => exact .bind (h.newTx hst) fun _ w2 h2 _ => .pure h2 trivial

/-! ## Publishing -/

lemma Phase.alone (h : Phase dead F t w w') : Alone t w w' :=
  ⟨by rw [h.db], fun st => by rw [h.txs]; exact id, fun _ _ => by rw [h.txs], h.nextBucket.ge,
    fun b _ => h.tx b, fun b _ hb => h.other b hb⟩

lemma Detached.alone (h : Detached dead t w w') : Alone t w w' := by
  have hr := h.rest
  refine ⟨by rw [hr], fun st => by rw [hr]; exact id, fun _ _ => by rw [hr], by rw [hr],
    fun _ _ => h.tx_eq, fun b _ hb => (h.bucket b).resolve_right fun hc => hb hc.1⟩

/-- The root of a handle that was not published yet, or its base. -/
lemma Iso.publishRoot_isSome (h : Iso dead F v) (hd : Detached dead t v w) (hb : Live v dead b)
    (ht : (v.buckets b).tx = t) (hsame : w.buckets b = v.buckets b)
    (hroot : (v.buckets b).rootNode = none → (Bucket.baseState v b).isSome) :
    Stays (DetachedFrom dead t v) w (Bucket.publishRoot b) fun bs w' => bs.isSome ∧
      ∀ b', b' ≠ b → w'.buckets b' = w.buckets b' := by
  refine .read_bind ?_
  split
  next hnone =>
    refine ⟨hd, fun bs e => ?_⟩
    cases e
    refine ⟨?_, fun _ _ => rfl⟩
    have hbase : Bucket.baseState w b = Bucket.baseState v b := by
      unfold Bucket.baseState
      rw [hsame, show w.txs = v.txs by rw [hd.rest]]
    change (Bucket.baseState w b).isSome
    rw [hbase]
    exact hroot (hsame ▸ hnone)
  next r hr =>
    have hdet := h.detachPublishedNodes hd hb ht
    refine .bind (P := fun _ w1 => ∀ b', b' ≠ b → w1.buckets b' = w.buckets b')
      ⟨hdet.1, fun a e b' hne => ?_⟩ fun _ w1 h1 hw1 => .pure h1 ⟨rfl, hw1⟩
    rcases hrun : Bucket.detachPublishedNodes b w with ⟨o, w1⟩
    rw [hrun] at e
    have hrun : Bucket.detachPublishedNodes b w = (.ok a, w1) := by rw [hrun]; exact Prod.ext e rfl
    unfold Bucket.detachPublishedNodes bucketOf at hrun
    rw [Prog.read_bind] at hrun
    obtain ⟨a1, w2, e1, e2⟩ := Prog.bind_eq_ok hrun
    obtain ⟨c1, rfl⟩ := write_eq_ok e1
    unfold modifyBucket at e2
    obtain ⟨c2, rfl⟩ := write_eq_ok e2
    simp [World.setBucket, hne]

/-- The publishing loop over names that have not been visited. -/
lemma Iso.publishAll_ok {names : List Name} {m : AList fun _ : Name => Option BucketState}
    (h : Iso dead F v) (ho : (v.txs t).db = true) (hw : (v.txs t).writable = true) (ht : t ∉ dead)
    (hdir : DirOK v t) (hbase : ∀ st, (v.txs t).base = some st → st.OK) (hd : Detached dead t v w)
    (hnd : names.Nodup) (hold : ∀ name ∈ names, ∀ b, (v.txs t).bctx.lookup name = some b →
      w.buckets b = v.buckets b) (hm : DbState.OK ⟨m⟩) :
    Stays (DetachedFrom dead t v) w (Tx.publishAll t names m) fun m' _ => DbState.OK ⟨m'⟩ := by
  induction names generalizing w m with
  | nil => exact .pure hd hm
  | cons name names ih =>
    have htxs : w.txs = v.txs := by rw [hd.rest]
    have hnd := List.nodup_cons.1 hnd
    have hold' : ∀ n ∈ names, ∀ b, (v.txs t).bctx.lookup n = some b → w.buckets b = v.buckets b :=
      fun n hn => hold n (by simp [hn])
    refine .read_bind ?_
    rw [htxs]
    split
    · exact ih hd hnd.2 hold' hm
    next b hb =>
    split
    · exact ih hd hnd.2 hold' hm
    have hl := h.live_bctx ho hw ht hb
    have hbt := (h.bctx t name b hb).2
    have hbs : Bucket.baseState v b = (v.txs t).baseBucket name := by
      have hself : Bucket.baseState v b =
          (v.txs (v.buckets b).tx).baseBucket (v.buckets b).name := rfl
      rw [hself, hbt, hdir.name name b hb]
    have hroot : (v.buckets b).rootNode = none → (Bucket.baseState v b).isSome := fun hr => by
      rw [hbs]
      exact hdir.root name b hb hr
    refine .bind (h.publishRoot_isSome hd hl hbt (hold name (by simp) b hb) hroot)
      fun bs w1 h1 hsome => ih h1 hnd.2 (fun n hn b' hb' => ?_) fun n bs' hl' => ?_
    · -- another name has another handle
      have hne : b' ≠ b := by
        rintro rfl
        have := (hdir.name n b' hb').symm.trans (hdir.name name b' hb)
        exact hnd.1 (this ▸ hn)
      rw [hsome.2 b' hne]
      exact hold' n hn b' hb'
    · by_cases e : n = name
      · subst e
        rw [AList.lookup_insert] at hl'
        cases hl'
        refine ⟨?_, hsome.1⟩
        rcases hdir.known n b hb with hc | hc
        · exact (hdir.created n hc).1
        · obtain ⟨x, hx⟩ := Option.isSome_iff_exists.1 hc
          unfold Tx.baseBucket at hx
          split at hx
          · cases hx
          next st hst => exact (hbase st hst n _ (Option.join_eq_some_iff.1 hx)).1
      · rw [AList.lookup_insert_ne e] at hl'
        exact hm n bs' hl'

lemma Dirs.publish (h : Dirs ended w) (hi : Iso ended F w) (ht : t ∉ ended) {order : Tx.Order}
    (hnd : order.publish.Nodup) :
    Stays (ToDirs (insert t ended)) w (Tx.publish fuel t order) fun err w' => err.isSome →
      Dirs ended w' := by
  have hweak : ToDirs (insert t ended) w w := h.weaken t
  refine .read_bind (.assert_bind hweak fun _ => .guard hweak (fun _ => h) fun ho =>
    .guard hweak (fun _ => h) fun hw => ?_)
  simp only [Bool.not_eq_false] at ho hw
  have hbuild : Stays (ToDirs (insert t ended)) w (Tx.build fuel t order) fun st _ => st.OK := by
    unfold Tx.build
    rw [← bind_assoc]
    refine .bind ((hi.phases fuel order ho hw ht).imp fun v2 h2 => h.alone hi h2.alone)
      fun _ v2 hdirs h2 => .read_bind ?_
    obtain ⟨h2, -, hmarks⟩ := h2
    have hdirs : Dirs (insert t ended) v2 := hdirs
    have hkept : DbState.OK ⟨(v2.txs t).keptBuckets⟩ := by
      intro name bs e
      obtain ⟨base, hb, hl⟩ := lookup_keptBuckets e
      exact hdirs.base t base hb name bs hl
    have hall := h2.iso.publishAll_ok (by rw [h2.txs, ho]) (by rw [h2.txs, hw]) ht
      (hmarks.dirOK (h.dir t ht)) (hdirs.base t) (.refl v2) hnd (fun _ _ _ _ => rfl) hkept
    have hv2 : Dirs ended v2 := hdirs.settle (hmarks.dirOK (h.dir t ht))
    exact .bind (hall.imp fun v3 h3 => hv2.alone h2.iso (Detached.alone h3)) fun m v3 h3 hm =>
      .pure h3 hm
  refine .bind hbuild fun st v1 h1 hst => ?_
  have h1 : Dirs (insert t ended) v1 := h1
  refine .bind (P := fun _ _ => True) (stays_write_of (h1.congr rfl rfl h1.state) fun c =>
    ⟨h1.congr rfl rfl fun st' e => ?_, trivial⟩) fun _ v3 h3 _ => .pure h3 fun e => by cases e
  cases e
  exact hst

/-! ## Runs -/

/-- The orders a commit ranges in are orders of its maps. -/
def Call.Ordered (s : Sys) : Call → Prop
  | publish t order => order.Valid s.world t
  | _ => True

/-- One call whose loops over maps go over their keys, each once. -/
inductive GoStep (s : Sys) : Sys → Prop
  | call (c : Call) (cut : Option Nat) (fuel : Nat) : c.Admissible s → c.Ordered s →
    GoStep s (s.after c cut fuel)

/-- Any number of such calls. -/
def GoSteps : Sys → Sys → Prop := ReflTransGen GoStep

lemma GoSteps.steps {s s' : Sys} (h : GoSteps s s') : Steps s s' := by
  induction h with
  | refl => exact .refl
  | tail _ hstep ih =>
    obtain ⟨c, cut, fuel, ha, -⟩ := hstep
    exact ih.tail (.call c cut fuel ha)

lemma Dirs.call {s : Sys} {c : Call} (h : Dirs s.ended w) (hi : Iso s.ended F w)
    (hw : ∃ cut, w = { s.world with cut := cut }) (ha : c.Admissible s) (hord : c.Ordered s)
    (fuel : Nat) :
    Stays (fun _ w' => Dirs ((c.tx s.world).elim s.ended fun t => insert t s.ended) w') w
      (c.run fuel)
      fun ok w' => ok = true → Dirs s.ended w' := by
  obtain ⟨cut, rfl⟩ := hw
  -- a call of one transaction, which may have ended if it is closed
  have done' : ∀ {α : Type} {m : Go α} {t : TxId}, Stays (Alone t) { s.world with cut := cut } m
      (fun _ w' => t ∉ s.ended → DirOK w' t) →
      Stays (ToDirs (insert t s.ended)) { s.world with cut := cut }
        (m >>= fun _ => pure true) fun ok w' => ok = true → Dirs s.ended w' := by
    intro α m t hm
    have hm' : Stays (ToDirs (insert t s.ended)) { s.world with cut := cut } m
        fun _ w' => t ∉ s.ended → DirOK w' t := hm.imp fun w' h' => h.alone hi h'
    refine hm'.bind fun _ v hv hd => .pure hv fun _ => ?_
    by_cases ht : t ∈ s.ended
    · rw [← Finset.insert_eq_of_mem ht]
      exact hv
    · exact Dirs.settle (t := t) hv (hd ht)
  have done : ∀ {α : Type} {m : Go α} {t : TxId}, Stays (Alone t) { s.world with cut := cut } m
      (fun _ w' => DirOK w' t) → Stays (ToDirs (insert t s.ended)) { s.world with cut := cut }
        (m >>= fun _ => pure true) fun ok w' => ok = true → Dirs s.ended w' :=
    fun hm => done' (hm.mono fun _ _ _ hd _ => hd)
  cases c with
  | begin_ writable =>
    exact (h.begin writable).bind (R := ToDirs s.ended)
      (Q := fun ok w' => ok = true → Dirs s.ended w') fun _ v hv _ => .pure hv fun _ => hv
  | bucket t name => exact done (hi.bucket_alone (h.dir t ha))
  | createBucket t name => exact done (hi.createBucket_alone ha (h.dir t ha))
  | createBucketIfNotExists t name => exact done (hi.createBucketIfNotExists_alone ha (h.dir t ha))
  | deleteBucket t name => exact done (deleteBucket_alone (h.dir t ha))
  | put b key value => exact done (hi.call_alone handleCall_put ha.1 ha.2 (h.dir _ ha.2))
  | delete b key => exact done (hi.call_alone handleCall_delete ha.1 ha.2 (h.dir _ ha.2))
  | cursorDelete c =>
    rcases hb : c.bucket with _ | b
    · dsimp only [Call.run, Call.tx]
      rw [cursorDelete_none hb, hb]
      exact ⟨h, fun ok _ _ => h⟩
    · obtain ⟨h1, h2⟩ := ha b hb
      have := done (hi.call_alone (handleCall_cursorDelete hb) h1 h2 (h.dir _ h2))
      dsimp only [Call.tx]
      rw [hb]
      exact this
  | setFillPercent b f =>
    have hl : Live { s.world with cut := cut } s.ended b :=
      ⟨ha.alloc, ha.opened, ha.writable, ha.alive⟩
    exact done (alone_handle (stays_setFillPercent (hi.within hl)) moves_setFillPercent rfl
      (h.dir _ ha.alive))
  | publish t order =>
    have hnd : order.publish.Nodup := hord.publish.nodup_iff.2 (AList.keys_nodup _)
    exact (h.publish hi ha hnd).bind (R := ToDirs (insert t s.ended))
      (Q := fun ok w' => ok = true → Dirs s.ended w') fun err v hv hd => .pure hv hd
  | close t => exact done' (close_alone (h.dir t))
  | rollback t => exact done' (rollback_alone (h.dir t))

/-- The directories of a run are in order. -/
lemma GoSteps.dirs {rt : Runtime} {readOnly : Bool} {s : Sys}
    (h : GoSteps (Sys.init rt readOnly) s) :
    Dirs s.ended s.world := by
  induction h with
  | refl =>
    refine ⟨fun st hst => ?_, fun t st hst => ?_,
      fun t _ => .of_empty (fun hc => by cases hc) rfl rfl⟩
    · cases hst
      intro name bs hl
      rw [AList.lookup_empty] at hl
      cases hl
    · cases hst
  | @tail s _ hrun hstep ih =>
    obtain ⟨c, cut, fuel, ha, hord⟩ := hstep
    obtain ⟨-, F, -, hi⟩ := (GoSteps.steps hrun).frozen (iso_init rt readOnly)
    have hc : Dirs s.ended { s.world with cut := cut } := ih.congr rfl rfl ih.state
    obtain ⟨h1, h2⟩ := hc.call (hi.setCut cut).iso ⟨cut, rfl⟩ ha hord fuel
    have hcut : ∀ {ended : Finset TxId} {w : World}, Dirs ended w →
        Dirs ended { w with cut := none } :=
      fun hw => hw.congr rfl rfl hw.state
    unfold Sys.after
    dsimp only
    split
    next e => exact hcut (h2 true e rfl)
    next t e _ =>
      rw [e] at h1
      exact hcut h1
    next e _ =>
      rw [e] at h1
      exact hcut h1

end

end Vmbolt
