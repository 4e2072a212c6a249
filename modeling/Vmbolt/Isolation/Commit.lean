import Vmbolt.Isolation.Calls
import Vmbolt.Isolation.Marking

/-!
# Publishing the nodes of a transaction

`Tx.publish` is `Tx.Commit` up to and with the store of the new state; what follows only closes the
transaction. Once it has run, whether it returned or was cut off, the nodes that the handles of the
transaction owned count as published: the transaction has ended and nobody writes to them any more.
-/

namespace Vmbolt
open Prog

namespace Tx

/-- `Tx.Commit` up to and with `tx.db.state.Store`. -/
def publish (fuel : Nat) (t : TxId) (order : Order) : Go (Option Err) := do
  let tx ← get t
  Prog.assert (tx.managed = false) .managedTxCommit
  if tx.db = false then pure (some .txClosed)
  else if tx.writable = false then pure (some .txNotWritable)
  else do
    let st ← build fuel t order
    store st
    pure none

/-- `Tx.Commit` publishes and then closes the transaction. -/
lemma commit_eq (fuel : Nat) (t : TxId) (order : Order) :
    commit fuel t order = (do
      let err ← publish fuel t order
      match err with
      | some e => pure (some e)
      | none => do
        close t
        pure none) := by
  unfold commit publish
  simp only [bind_assoc]
  congr 1
  funext tx
  congr 1
  funext _
  split
  · rfl
  split
  · rfl
  simp [bind_assoc]

end Tx

section
variable {w w' w1 : World} {b : BucketId} {dead : Finset TxId} {F : Set NodeId} {t : TxId}
  {n : NodeId} {fuel : Nat}

/-! ## Calls of a handle -/

/-- The handle may write, or its calls are refused. -/
lemma live_or_refused (hb : b < w.nextBucket) (ht : (w.buckets b).tx ∉ dead) :
    Live w dead b ∨ (w.txs (w.buckets b).tx).db = false ∨
      (w.txs (w.buckets b).tx).writable = false := by
  by_cases ho : (w.txs (w.buckets b).tx).db = true
  · by_cases hw : (w.txs (w.buckets b).tx).writable = true
    · exact .inl ⟨hb, ho, hw, ht⟩
    · exact .inr (.inr (by simpa using hw))
  · exact .inr (.inl (by simpa using ho))

/-- The first two checks of a call that writes. -/
lemma guards_refuse {tx : Tx} {m : Go (Option Err)} (h : tx.db = false ∨ tx.writable = false) :
    ∃ a, (if tx.db = false then pure (some .txClosed)
      else if tx.writable = false then pure (some .txNotWritable) else m : Go (Option Err)) w =
        (.ok a, w) := by
  split
  · exact ⟨_, rfl⟩
  next ho => rw [if_pos (h.resolve_left ho)]; exact ⟨_, rfl⟩

/-- A call of the handle `b`: it is refused once the transaction has ended and if it is read-only,
and otherwise it writes for the handle. -/
structure HandleCall (b : BucketId) {α : Type} (m : Go α) : Prop where
  refused : ∀ w, (w.txs (w.buckets b).tx).db = false ∨ (w.txs (w.buckets b).tx).writable = false →
    ∃ a, m w = (.ok a, w)
  along : ∀ {dead F w}, Iso dead F w → Live w dead b → Stays (Along w b F) w m fun _ _ => True
  marks : Moves (Marks none) m

lemma handleCall_put {key : Bytes} {v : Option Bytes} : HandleCall b (Bucket.put fuel b key v) where
  refused _ hr := guards_refuse hr
  along h hl := stays_bucketPut (h.within hl) (h.closed hl) h.baseIn
  marks := treeWrites_marks.bucketPut

lemma handleCall_delete {key : Bytes} : HandleCall b (Bucket.delete fuel b key) where
  refused _ hr := guards_refuse hr
  along h hl := stays_bucketDelete (h.within hl) (h.closed hl) h.baseIn
  marks := treeWrites_marks.bucketDelete

lemma handleCall_cursorDelete {c : Cursor} (e : c.bucket = some b) :
    HandleCall b (Cursor.delete c) where
  refused _ hr := by
    unfold Cursor.delete
    rw [e]
    exact guards_refuse hr
  along h hl := stays_cursorDelete (h.within hl) (h.closed hl) h.baseIn e
  marks := treeWrites_marks.cursorDelete

/-- What holds of a refused call and of the writes of a live handle. -/
lemma HandleCall.stays {α : Type} {m : Go α} {R : World → World → Prop} {Q : α → World → Prop}
    (hm : HandleCall b m) (h : Iso dead F w) (hb : b < w.nextBucket) (ht : (w.buckets b).tx ∉ dead)
    (hrefl : R w w) (hQ : ∀ a, Q a w)
    (hlive : Live w dead b → Stays (Along w b F) w m (fun _ _ => True) → Stays R w m Q) :
    Stays R w m Q := by
  rcases live_or_refused hb ht with hl | hr
  · exact hlive hl (hm.along h hl)
  · obtain ⟨a, e⟩ := hm.refused w hr
    unfold Stays
    rw [e]
    exact ⟨hrefl, fun _ _ => hQ _⟩

lemma Iso.call {α : Type} {m : Go α} (h : Iso dead F w) (hm : HandleCall b m)
    (hb : b < w.nextBucket) (ht : (w.buckets b).tx ∉ dead) :
    Stays (Keeps dead F) w m fun _ _ => True :=
  hm.stays h hb ht h.refl (fun _ => trivial) h.stays

/-- `Cursor.Delete` on a cursor without a bucket. -/
lemma cursorDelete_none {c : Cursor} (e : c.bucket = none) :
    Cursor.delete c = pure (some .incompatibleValue) := by
  unfold Cursor.delete
  rw [e]

/-! ## The two phases of a commit on the buckets -/

/-- The calls of the handles of one transaction: the invariant is kept and nothing changes but the
handles and the heap. -/
structure Works (dead : Finset TxId) (F : Set NodeId) (w w' : World) : Prop extends
    Keeps dead F w w' where
  txs : w'.txs = w.txs
  db : w'.db = w.db

instance : Track (Works dead F) where
  trans h1 h2 := ⟨Track.trans h1.toKeeps h2.toKeeps, h2.txs.trans h1.txs, h2.db.trans h1.db⟩
  refl_right h := ⟨h.iso.refl, rfl, rfl⟩

lemma Iso.works_refl (h : Iso dead F w) : Works dead F w w := ⟨h.refl, rfl, rfl⟩

lemma Iso.works {α : Type} {m : Go α} {Q : α → World → Prop} (h : Iso dead F w) (hb : Live w dead b)
    (hm : Stays (Along w b F) w m Q) : Stays (Works dead F) w m Q :=
  ⟨⟨h.keeps hb hm.1.within, hm.1.within.txs, hm.1.within.db⟩, hm.2⟩

/-- The handles in the working map of a transaction that can still write are live. -/
lemma Iso.live_bctx (h : Iso dead F w) (ho : (w.txs t).db = true) (hw : (w.txs t).writable = true)
    (ht : t ∉ dead) {name : Name} (hb : (w.txs t).bctx.lookup name = some b) : Live w dead b := by
  obtain ⟨h1, rfl⟩ := h.bctx t name b hb
  exact ⟨h1, ho, hw, ht⟩

lemma Iso.rebalanceAll {order : List (Name × List NodeId)} (h : Iso dead F w)
    (ho : (w.txs t).db = true) (hw : (w.txs t).writable = true) (ht : t ∉ dead) :
    Stays (Works dead F) w (Tx.rebalanceAll fuel t order) fun _ _ => True := by
  refine .each h.works_refl fun o _ w1 h1 => .read_bind ?_
  split
  · exact .pure h1.iso.works_refl trivial
  next b hb =>
    have hl := h1.iso.live_bctx (by rw [h1.txs, ho]) (by rw [h1.txs, hw]) ht hb
    exact h1.iso.works hl (stays_bucketRebalance (h1.iso.within hl) (h1.iso.closed hl))

lemma Iso.spillAll {order : List Name} (h : Iso dead F w)
    (ho : (w.txs t).db = true) (hw : (w.txs t).writable = true) (ht : t ∉ dead) :
    Stays (Works dead F) w (Tx.spillAll fuel t order) fun _ _ => True := by
  refine .each h.works_refl fun o _ w1 h1 => .read_bind ?_
  split
  · exact .pure h1.iso.works_refl trivial
  next b hb =>
    have hl := h1.iso.live_bctx (by rw [h1.txs, ho]) (by rw [h1.txs, hw]) ht hb
    exact h1.iso.works hl (stays_spill (h1.iso.within hl))

/-! ## Detaching -/

/-- The nodes of the live handles of a transaction. -/
def TxOwn (w : World) (dead : Finset TxId) (t : TxId) : Set NodeId :=
  { n | ∃ b, Live w dead b ∧ (w.buckets b).tx = t ∧ Own w b n }

/-- From `w1` to `w` some nodes of the transaction were detached from their handles. -/
structure Detached (dead : Finset TxId) (t : TxId) (w1 w : World) : Prop where
  rest : w = { w1 with nodes := w.nodes, buckets := w.buckets, cut := w.cut }
  node : ∀ n, w.nodes n = w1.nodes n ∨
    n ∈ TxOwn w1 dead t ∧ w.nodes n = { w1.nodes n with bucket := none, parent := none }
  bucket : ∀ b, w.buckets b = w1.buckets b ∨
    (w1.buckets b).tx = t ∧ w.buckets b = { w1.buckets b with rootNode := none, dirty := ∅ }

namespace Detached

lemma refl (w : World) : Detached dead t w w := ⟨rfl, fun _ => .inl rfl, fun _ => .inl rfl⟩

lemma inodes_eq (h : Detached dead t w1 w) : w.inodes n = w1.inodes n := by
  have ha : w.arrays = w1.arrays := by rw [h.rest]
  unfold World.inodes
  rcases h.node n with e | ⟨-, e⟩ <;> rw [e, ha]

lemma arr_eq (h : Detached dead t w1 w) : w.arr n = w1.arr n := by
  unfold World.arr
  rcases h.node n with e | ⟨-, e⟩ <;> rw [e]

lemma tx_eq (h : Detached dead t w1 w) : (w.buckets b).tx = (w1.buckets b).tx := by
  rcases h.bucket b with e | ⟨-, e⟩ <;> rw [e]

/-- A node that a handle still owns was not touched. -/
lemma own (h : Detached dead t w1 w) (hn : Own w b n) : Own w1 b n ∧ w.nodes n = w1.nodes n := by
  have hnn : w.nextNode = w1.nextNode := by rw [h.rest]
  rcases h.node n with e | ⟨-, e⟩
  · exact ⟨⟨hnn ▸ hn.1, e ▸ hn.2⟩, e⟩
  · have := hn.2
    rw [e] at this
    cases this

/-- The nodes of the handles of other transactions were not touched. -/
lemma own_other (h : Detached dead t w1 w) (hb : (w1.buckets b).tx ≠ t) (hn : Own w1 b n) :
    n ∉ TxOwn w1 dead t ∧ Own w b n := by
  have hnot : n ∉ TxOwn w1 dead t := by
    rintro ⟨b', -, ht, hn'⟩
    obtain rfl : b = b' := Option.some.inj (hn.2.symm.trans hn'.2)
    exact hb ht
  have hnn : w.nextNode = w1.nextNode := by rw [h.rest]
  refine ⟨hnot, hnn ▸ hn.1, ?_⟩
  rcases h.node n with e | ⟨hm, -⟩
  · rw [e]
    exact hn.2
  · exact absurd hm hnot

end Detached

lemma RootsIn.mono {st : DbState} {F' : Set NodeId} (h : RootsIn F st) (hF : F ⊆ F') :
    RootsIn F' st :=
  fun name bs r h1 h2 => hF (h name bs r h1 h2)

/-- Some nodes of a transaction that has ended join the published ones, with the nodes under
them. -/
lemma Iso.detached_of {G : Set NodeId} (h : Iso dead F w1) (hd : Detached dead t w1 w) (hF : F ⊆ G)
    (hG : G ⊆ F ∪ TxOwn w1 dead t)
    (hk : ∀ n ∈ G, ∀ i ∈ w1.inodes n, ∀ c, i.child = some c → c ∈ G) : Iso (insert t dead) G w := by
  have hr := hd.rest
  have hnn : w.nextNode = w1.nextNode := by rw [hr]
  have hna : w.nextArr = w1.nextArr := by rw [hr]
  have hnb : w.nextBucket = w1.nextBucket := by rw [hr]
  have htxs : w.txs = w1.txs := by rw [hr]
  have hntx : w.nextTx = w1.nextTx := by rw [hr]
  have hdb : w.db = w1.db := by rw [hr]
  have harr : w.arrays = w1.arrays := by rw [hr]
  -- a handle that is still live belongs to another transaction
  have hlive : ∀ {b}, Live w (insert t dead) b → (w1.buckets b).tx ≠ t ∧ Live w1 dead b := by
    rintro b ⟨h1, h2, h3, h4⟩
    rw [hd.tx_eq, htxs] at h2 h3
    rw [hd.tx_eq, Finset.mem_insert, not_or] at h4
    exact ⟨h4.1, hnb ▸ h1, h2, h3, h4.2⟩
  refine ⟨fun n hn => ?_, fun n hn => ?_, fun n hn i hi c hc => ?_, fun st hst => ?_,
    fun t' st hst => ?_, fun n b hn => ?_, ?_, fun b hb => ?_, fun t' name b hl => ?_,
    fun b hb => ?_,
    fun b b' hne hb hb' n m hn hm => ?_, by rw [htxs]; exact h.reader, fun b hb hr => ?_⟩
  · rw [hd.arr_eq, hna]
    exact h.arr_lt n (hnn ▸ hn)
  · rw [hnn]
    rcases hG hn with hn | ⟨b, -, -, hn⟩
    · exact h.published n hn
    · exact hn.1
  · rw [hd.inodes_eq] at hi
    exact hk n hn i hi c hc
  · rw [hdb] at hst
    exact (h.state st hst).mono hF
  · rw [htxs] at hst
    exact (h.base t' st hst).mono hF
  · rw [hnb]
    exact h.owner n b (hd.own hn).1
  · rw [htxs, hntx]
    exact h.opened
  · rw [hd.tx_eq, hntx]
    exact h.handle_tx b (hnb ▸ hb)
  · rw [htxs] at hl
    rw [hnb, hd.tx_eq]
    exact h.bctx t' name b hl
  · obtain ⟨hbt, hb⟩ := hlive hb
    obtain ⟨hpar, hdirty, hroot, hkids, hap, haa⟩ := h.handle b hb
    have hbk : w.buckets b = w1.buckets b := (hd.bucket b).resolve_right fun hc => hbt hc.1
    refine ⟨fun n hn p hp => ?_, fun n hn => ?_, fun r hr => ?_, ?_, fun n hn ho => ?_, ?_⟩
    · obtain ⟨hn, e⟩ := hd.own hn
      rw [e] at hp
      exact (hd.own_other hbt (hpar n hn p hp)).2
    · rw [hbk] at hn
      exact (hd.own_other hbt (hdirty n hn)).2
    · rw [hbk] at hr
      exact (hd.own_other hbt (hroot r hr)).2
    · rintro a ⟨m, hm, rfl⟩ i hi c hc
      rw [hd.arr_eq, harr] at hi
      rcases hkids _ ⟨m, (hd.own hm).1, rfl⟩ i hi c hc with hc | hc
      · exact .inl (hd.own_other hbt hc).2
      · exact .inr (hF hc)
    · have ho := (hd.own ho).1
      rcases hG hn with hn | hn
      · exact hap n hn ho
      · exact (hd.own_other hbt ho).1 hn
    · rintro n hn ⟨m, hm, e⟩
      have hm := (hd.own hm).1
      rw [hd.arr_eq, hd.arr_eq] at e
      rcases hG hn with hn | ⟨b', hb', ht', hn⟩
      · exact haa n hn ⟨m, hm, e⟩
      · refine h.sep b b' ?_ hb hb' m n hm hn e
        rintro rfl
        exact hbt ht'
  · rw [hd.arr_eq, hd.arr_eq]
    exact h.sep b b' hne (hlive hb).2 (hlive hb').2 n m (hd.own hn).1 (hd.own hm).1
  · rw [htxs, hd.tx_eq] at hr
    have := h.reader_handle b (hnb ▸ hb) hr
    rcases hd.bucket b with e | ⟨-, e⟩ <;> rw [e]
    exact this

/-- All nodes of a transaction that has ended join the published ones. -/
lemma Iso.detached (h : Iso dead F w1) (hd : Detached dead t w1 w) :
    Iso (insert t dead) (F ∪ TxOwn w1 dead t) w := by
  refine h.detached_of hd Set.subset_union_left subset_rfl fun n hn i hi c hc => ?_
  rcases hn with hn | ⟨b, hb, ht, hn⟩
  · exact .inl (h.kids n hn i hi c hc)
  · rcases (h.handle b hb).kids _ ⟨n, hn, rfl⟩ i (List.mem_of_mem_take hi) c hc with hc | hc
    · exact .inr ⟨b, hb, ht, hc⟩
    · exact .inl hc

/-- The writes of the publishing loop, seen from the state it started in. -/
def DetachedFrom (dead : Finset TxId) (t : TxId) (w1 _ w : World) : Prop := Detached dead t w1 w

instance : Track (DetachedFrom dead t w1) where
  trans _ h2 := h2
  refl_right h := h

/-- What the publishing loop finds in a handle is what was there, or nothing. -/
lemma Detached.handle (h : Iso dead F w1) (hd : Detached dead t w1 w) (hb : Live w1 dead b)
    (ht : (w1.buckets b).tx = t) : (∀ n ∈ (w.buckets b).dirty, n ∈ TxOwn w1 dead t) ∧
      ∀ r, (w.buckets b).rootNode = some r → r ∈ TxOwn w1 dead t := by
  have hi := h.handle b hb
  rcases hd.bucket b with e | ⟨-, e⟩ <;> rw [e]
  · exact ⟨fun n hn => ⟨b, hb, ht, hi.dirty n hn⟩, fun r hr => ⟨b, hb, ht, hi.root r hr⟩⟩
  · exact ⟨fun n hn => absurd hn (Finset.notMem_empty n), nofun⟩

/-- The base of a handle is still there. -/
lemma Detached.baseState (h : Iso dead F w1) (hd : Detached dead t w1 w) :
    ∀ bs r, Bucket.baseState w b = some bs → bs.root = some r → r ∈ F := by
  have hname : (w.buckets b).name = (w1.buckets b).name := by
    rcases hd.bucket b with e | ⟨-, e⟩ <;> rw [e]
  have hbase : Bucket.baseState w b = Bucket.baseState w1 b := by
    unfold Bucket.baseState
    rw [hd.tx_eq, hname, show w.txs = w1.txs by rw [hd.rest]]
  intro bs r h1 h2
  refine h.baseIn (b := b) r ?_
  rw [← hbase, Option.bind_eq_some_iff]
  exact ⟨bs, h1, h2⟩

lemma Iso.detachPublishedNodes (h : Iso dead F w1) (hd : Detached dead t w1 w) (hb : Live w1 dead b)
    (ht : (w1.buckets b).tx = t) :
    Stays (DetachedFrom dead t w1) w (Bucket.detachPublishedNodes b) fun _ _ => True := by
  have hcut : ∀ {v : World} (c : Option Nat), Detached dead t w1 v →
      Detached dead t w1 { v with cut := c } := fun {v} c hv =>
    ⟨by rw [hv.rest], hv.node, hv.bucket⟩
  refine .read_bind (.bind (P := fun _ _ => True)
    (stays_write_of (hcut none hd) fun c => ⟨?_, trivial⟩) fun _ v hv _ => ?_)
  · refine ⟨by rw [hd.rest], fun n => ?_, hd.bucket⟩
    by_cases hn : n ∈ (w.buckets b).dirty
    · refine .inr ⟨(hd.handle h hb ht).1 n hn, ?_⟩
      simp only [if_pos hn]
      rcases hd.node n with e | ⟨-, e⟩ <;> rw [e]
    · simp only [if_neg hn]
      exact hd.node n
  · have hv : Detached dead t w1 v := hv
    refine stays_write_of (hcut none hv) fun c =>
      ⟨⟨by rw [hv.rest]; rfl, hv.node, fun b' => ?_⟩, trivial⟩
    by_cases e : b' = b
    · subst e
      refine .inr ⟨ht, ?_⟩
      simp only [World.setBucket, Function.update_self]
      rcases hv.bucket b' with e | ⟨-, e⟩ <;> rw [e]
    · simp only [World.setBucket, Function.update_of_ne e]
      exact hv.bucket b'

lemma Iso.publishRoot (h : Iso dead F w1) (hd : Detached dead t w1 w) (hb : Live w1 dead b)
    (ht : (w1.buckets b).tx = t) :
    Stays (DetachedFrom dead t w1) w (Bucket.publishRoot b) fun st _ =>
      ∀ bs r, st = some bs → bs.root = some r → r ∈ F ∪ TxOwn w1 dead t := by
  refine .read_bind ?_
  split
  · refine ⟨hd, fun st e => ?_⟩
    cases e
    exact fun bs r h1 h2 => .inl (hd.baseState h bs r h1 h2)
  next r hr =>
    refine .bind (h.detachPublishedNodes hd hb ht) fun _ v hv _ => .pure hv fun bs r' h1 h2 => ?_
    cases h1
    obtain rfl := Option.some.inj h2
    exact .inr ((hd.handle h hb ht).2 r hr)

lemma Iso.publishAll (names : List Name) {m : AList fun _ : Name => Option BucketState}
    (h : Iso dead F w1) (ho : (w1.txs t).db = true) (hw : (w1.txs t).writable = true)
    (ht : t ∉ dead) (hd : Detached dead t w1 w) (hm : RootsIn (F ∪ TxOwn w1 dead t) ⟨m⟩) :
    Stays (DetachedFrom dead t w1) w (Tx.publishAll t names m) fun m' _ =>
      RootsIn (F ∪ TxOwn w1 dead t) ⟨m'⟩ := by
  induction names generalizing w m with
  | nil => exact .pure hd hm
  | cons name names ih =>
    have htxs : w.txs = w1.txs := by rw [hd.rest]
    refine .read_bind ?_
    rw [htxs]
    split
    · exact ih hd hm
    next b hb =>
      split
      · exact ih hd hm
      have hl := h.live_bctx ho hw ht hb
      refine .bind (h.publishRoot hd hl (h.bctx t name b hb).2) fun st v hv hst => ih hv ?_
      intro name' bs r h1 h2
      by_cases e : name' = name
      · subst e
        rw [AList.lookup_insert] at h1
        exact hst bs r (Option.some.inj h1) h2
      · rw [AList.lookup_insert_ne e] at h1
        exact hm name' bs r h1 h2

/-- The kept buckets are buckets of the base. -/
lemma lookup_keptBuckets {tx : Tx} {name : Name} {st : Option BucketState}
    (h : tx.keptBuckets.lookup name = some st) :
    ∃ base, tx.base = some base ∧ base.buckets.lookup name = some st := by
  unfold Tx.keptBuckets at h
  split at h
  · simp at h
  next base hb =>
    refine ⟨base, hb, ?_⟩
    have erase : ∀ (l : List Name) (m : AList fun _ : Name => Option BucketState),
        (l.foldl (fun m name => m.erase name) m).lookup name = some st →
        m.lookup name = some st := by
      intro l
      induction l with
      | nil => exact fun _ => id
      | cons x l ih =>
        intro m hm
        have := ih _ hm
        by_cases e : name = x
        · subst e
          rw [AList.lookup_erase] at this
          cases this
        · rwa [AList.lookup_erase_ne e] at this
    exact erase _ _ h

/-- After a call that ends the transaction `t`, the published nodes are as before and perhaps others
have joined them. -/
def Ends (dead : Finset TxId) (F : Set NodeId) (t : TxId) (w w' : World) : Prop :=
  Frozen F w w' ∧ ∃ F', F ⊆ F' ∧ Iso (insert t dead) F' w'

instance : Track (Ends dead F t) where
  trans h1 h2 := ⟨h1.1.trans h2.1, h2.2⟩
  refl_right h := ⟨.refl F _, h.2⟩

lemma Keeps.ends (h : Keeps dead F w w') : Ends dead F t w w' :=
  ⟨h.toFrozen, F, subset_rfl, h.iso.give_up t⟩

lemma Detached.ends (h : Iso dead F w1) (hd : Detached dead t w1 w) : Ends dead F t w1 w := by
  have htxs : w.txs = w1.txs := by rw [hd.rest]
  refine ⟨⟨fun n hn => ?_, fun n _ => hd.inodes_eq, ?_, fun t' _ => .of_eq (by rw [htxs])⟩, _,
    Set.subset_union_left, h.detached hd⟩
  · refine (hd.node n).resolve_right ?_
    rintro ⟨⟨b, hb, -, ho⟩, -⟩
    exact (h.handle b hb).apart n hn ho
  · rw [hd.rest]

/-- The store of a state whose roots are published nodes. -/
lemma Iso.store {st : DbState} (h : Iso dead F w) (hst : RootsIn F st) :
    Keeps dead F w { w with db := { w.db with state := some st } } :=
  h.bookkeeping rfl rfl rfl rfl
    (fun _ _ => ⟨rfl, fun hl => ⟨hl.alloc, hl.opened, hl.writable, hl.alive⟩⟩)
    (fun _ h1 h2 => absurd h2 (not_lt.2 h1)) (fun st' e => by cases e; exact hst) h.base le_rfl
    h.opened h.handle_tx h.bctx h.reader le_rfl fun _ _ => .of_eq rfl

/-- A commit up to the store ends its transaction, unless it is refused. -/
lemma Iso.publish (h : Iso dead F w) (fuel : Nat) (order : Tx.Order) (ht : t ∉ dead) :
    Stays (Ends dead F t) w (Tx.publish fuel t order) fun err w' => ∀ e, err = some e → w' = w := by
  refine .read_bind (.assert_bind h.refl.ends fun _ => .guard h.refl.ends (fun _ _ => rfl) fun ho =>
    .guard h.refl.ends (fun _ _ => rfl) fun hw => ?_)
  simp only [Bool.not_eq_false] at ho hw
  have hbuild : Stays (Ends dead F t) w (Tx.build fuel t order) fun st w2 =>
      ∃ F', F ⊆ F' ∧ Iso (insert t dead) F' w2 ∧ RootsIn F' st := by
    -- the two phases on the buckets are calls of live handles
    refine .bind (((h.rebalanceAll ho hw ht).mono fun _ _ hv _ => hv).imp fun v' hv => hv.ends)
      fun _ v1 _ h1 => ?_
    have ho1 : (v1.txs t).db = true := by rw [h1.txs, ho]
    have hw1 : (v1.txs t).writable = true := by rw [h1.txs, hw]
    refine .bind (((h1.iso.spillAll ho1 hw1 ht).mono fun _ _ hv _ => hv).imp fun v' hv => hv.ends)
      fun _ v2 _ h2 => .read_bind ?_
    have ho2 : (v2.txs t).db = true := by rw [h2.txs, ho1]
    have hw2 : (v2.txs t).writable = true := by rw [h2.txs, hw1]
    -- then the nodes are detached and their roots collected
    have hkept : RootsIn (F ∪ TxOwn v2 dead t) ⟨(v2.txs t).keptBuckets⟩ := by
      intro name bs r e hr
      obtain ⟨base, hb, hl⟩ := lookup_keptBuckets e
      exact .inl (h2.iso.base t base hb name bs r hl hr)
    refine .bind (((h2.iso.publishAll _ ho2 hw2 ht (.refl v2) hkept).mono
      (Q := fun m v3 => Detached dead t v2 v3 ∧ RootsIn (F ∪ TxOwn v2 dead t) ⟨m⟩)
      fun m v3 hd hm => ⟨hd, hm⟩).imp fun v3 hd => Detached.ends h2.iso hd) fun m v3 h3 hm => ?_
    exact .pure (Track.refl_right h3) ⟨_, Set.subset_union_left, h2.iso.detached hm.1, hm.2⟩
  refine .bind hbuild fun st v1 h1 hst => ?_
  obtain ⟨F', hF, hi, hroots⟩ := hst
  have hstore :
      ∀ c, Ends dead F t v1 { v1 with cut := c, db := { v1.db with state := some st } } := by
    intro c
    have hk : Keeps (insert t dead) F' v1 _ :=
      Track.trans (hi.setCut c) ((hi.setCut c).iso.store hroots)
    exact ⟨hk.toFrozen.mono hF, F', hF, hk.iso⟩
  refine .bind (P := fun _ _ => True) (stays_write_of ?_ fun c => ⟨hstore c, trivial⟩)
    fun _ v2 h2 _ => .pure (Track.refl_right h2) nofun
  exact ⟨(hi.setCut none).toFrozen.mono hF, F', hF, (hi.setCut none).iso⟩

end

end Vmbolt
