import Vmbolt.Isolation.Footprint

/-!
# The ownership invariant

`Iso dead F w` describes the heap between two calls, for the set `F` of all nodes that were ever
published and the set `dead` of the transactions in which a call was cut off. The trees of the
published states stay within `F`; a handle that may still write owns no node and no backing array of
`F`, its trees consist of nodes of its own and of nodes of `F`, and two such handles own different
arrays. A call that works on one handle keeps the invariant, because it stays within the handle.
-/

namespace Vmbolt
open Prog

/-- The roots of a published state are in `F`. -/
def RootsIn (F : Set NodeId) (st : DbState) : Prop :=
  ∀ name bs r, st.buckets.lookup name = some (some bs) → bs.root = some r → r ∈ F

/-- The handle can still be written through: its transaction is open and writable, and no call of
the transaction was cut off. -/
structure Live (w : World) (dead : Finset TxId) (b : BucketId) : Prop where
  alloc : b < w.nextBucket
  opened : (w.txs (w.buckets b).tx).db = true
  writable : (w.txs (w.buckets b).tx).writable = true
  alive : (w.buckets b).tx ∉ dead

/-- The nodes of a handle that can be written through. -/
structure HandleIso (w : World) (b : BucketId) (F : Set NodeId) : Prop where
  parent : ∀ n, Own w b n → ∀ p, (w.nodes n).parent = some p → Own w b p
  dirty : ∀ n ∈ (w.buckets b).dirty, Own w b n
  root : ∀ r, (w.buckets b).rootNode = some r → Own w b r
  kids : ∀ a, OwnArr w b a → ∀ i ∈ w.arrays a, ∀ c, i.child = some c → Own w b c ∨ c ∈ F
  apart : ∀ n ∈ F, ¬ Own w b n
  apart_arr : ∀ n ∈ F, ¬ OwnArr w b (w.arr n)

/-- The invariant of the heap for the published nodes `F`. -/
structure Iso (dead : Finset TxId) (F : Set NodeId) (w : World) : Prop where
  arr_lt : ∀ n, n < w.nextNode → w.arr n < w.nextArr
  published : ∀ n ∈ F, n < w.nextNode
  kids : ∀ n ∈ F, ∀ i ∈ w.inodes n, ∀ c, i.child = some c → c ∈ F
  state : ∀ st, w.db.state = some st → RootsIn F st
  base : ∀ t st, (w.txs t).base = some st → RootsIn F st
  owner : ∀ n b, Own w b n → b < w.nextBucket
  opened : ∀ t, (w.txs t).db = true → t < w.nextTx
  handle_tx : ∀ b, b < w.nextBucket → (w.buckets b).tx < w.nextTx
  bctx : ∀ t name b, (w.txs t).bctx.lookup name = some b → b < w.nextBucket ∧ (w.buckets b).tx = t
  handle : ∀ b, Live w dead b → HandleIso w b F
  sep : ∀ b b', b ≠ b' → Live w dead b → Live w dead b' → ∀ n m, Own w b n → Own w b' m →
    w.arr n ≠ w.arr m
  reader : ∀ t, (w.txs t).writable = false → (w.txs t).created = ∅ ∧ (w.txs t).deleted = ∅
  reader_handle : ∀ b, b < w.nextBucket → (w.txs (w.buckets b).tx).writable = false →
    (w.buckets b).rootNode = none

/-- From `w` to `w'` a transaction kept its base, as long as it is open. -/
structure Pinned (w w' : World) (t : TxId) : Prop where
  writable : (w'.txs t).writable = (w.txs t).writable
  base : (w'.txs t).db = true → (w.txs t).db = true ∧ (w'.txs t).base = (w.txs t).base

/-- From `w` to `w'` the nodes of `F` and the bases of the transactions were kept. -/
structure Frozen (F : Set NodeId) (w w' : World) : Prop where
  node : ∀ n ∈ F, w'.nodes n = w.nodes n
  inodes : ∀ n ∈ F, w'.inodes n = w.inodes n
  nextTx : w.nextTx ≤ w'.nextTx
  pinned : ∀ t, t < w.nextTx → Pinned w w' t

/-- From `w` to `w'` the invariant was kept too. -/
structure Keeps (dead : Finset TxId) (F : Set NodeId) (w w' : World) :
    Prop extends Frozen F w w' where
  iso : Iso dead F w'

section
variable {w w' : World} {b : BucketId} {dead : Finset TxId} {F : Set NodeId} {n : NodeId}

lemma Pinned.refl (w : World) (t : TxId) : Pinned w w t := ⟨rfl, fun h => ⟨h, rfl⟩⟩

lemma Pinned.trans {w'' : World} {t : TxId} (h1 : Pinned w w' t) (h2 : Pinned w' w'' t) :
    Pinned w w'' t := by
  refine ⟨h2.writable.trans h1.writable, fun ho => ?_⟩
  obtain ⟨ho', e'⟩ := h2.base ho
  obtain ⟨ho, e⟩ := h1.base ho'
  exact ⟨ho, e'.trans e⟩

lemma Pinned.of_eq {t : TxId} (h : w'.txs t = w.txs t) : Pinned w w' t := by
  refine ⟨by rw [h], fun ho => ⟨h ▸ ho, by rw [h]⟩⟩

namespace Frozen

lemma refl (F : Set NodeId) (w : World) : Frozen F w w :=
  ⟨fun _ _ => rfl, fun _ _ => rfl, le_rfl, fun t _ => .refl w t⟩

lemma trans {w'' : World} (h1 : Frozen F w w') (h2 : Frozen F w' w'') : Frozen F w w'' where
  node n hn := (h2.node n hn).trans (h1.node n hn)
  inodes n hn := (h2.inodes n hn).trans (h1.inodes n hn)
  nextTx := h1.nextTx.trans h2.nextTx
  pinned t ht := (h1.pinned t ht).trans (h2.pinned t (ht.trans_le h1.nextTx))

lemma mono {F' : Set NodeId} (h : Frozen F' w w') (hF : F ⊆ F') : Frozen F w w' :=
  ⟨fun n hn => h.node n (hF hn), fun n hn => h.inodes n (hF hn), h.nextTx, h.pinned⟩

end Frozen

lemma Iso.refl (h : Iso dead F w) : Keeps dead F w w := ⟨.refl F w, h⟩

instance : Track (Keeps dead F) where
  trans h1 h2 := ⟨h1.toFrozen.trans h2.toFrozen, h2.iso⟩
  refl_right h := h.iso.refl

lemma known_iff_own : Known w b w.nextNode n ↔ Own w b n := by
  refine ⟨fun ⟨h, hlt⟩ => h.resolve_right (not_le.2 hlt), fun h => ⟨.inl h, h.1⟩⟩

lemma mineArr_iff_ownArr {a : ArrId} (ha : a < w.nextArr) : MineArr w b a ↔ OwnArr w b a :=
  ⟨fun hm => hm.resolve_right (not_le.2 ha), .inl⟩

/-- A call of a live handle starts within the handle. -/
lemma Iso.within (h : Iso dead F w) (hb : Live w dead b) : Within w b F w := by
  obtain ⟨hpar, hdirty, hroot, hkids, -, -⟩ := h.handle b hb
  refine ⟨rfl, le_rfl, le_rfl, fun _ _ => rfl, fun _ _ => rfl, fun n hn => ?_, fun n hn => ?_,
    fun r hr => known_iff_own.2 (hroot r hr), fun a ha hlt i hi c hc => ?_,
    fun _ _ => rfl, rfl, rfl, rfl, rfl, rfl, rfl⟩
  · have hn := known_iff_own.1 hn
    exact ⟨hn.2, ⟨.inl ⟨n, hn, rfl⟩, h.arr_lt n hn.1⟩, fun p hp => known_iff_own.2 (hpar n hn p hp)⟩
  · exact known_iff_own.2 (hdirty n hn)
  · exact (hkids a ((mineArr_iff_ownArr hlt).1 ha) i hi c hc).imp known_iff_own.2 id

lemma Iso.closed (h : Iso dead F w) (hb : Live w dead b) : Closed w b F := by
  obtain ⟨-, -, -, -, hap, haa⟩ := h.handle b hb
  refine ⟨fun n hn hm => ?_, fun n hn hm => ?_, h.kids⟩
  · exact hap n hn (hm.resolve_right (not_le.2 (h.published n hn)))
  · exact haa n hn ((mineArr_iff_ownArr (h.arr_lt n (h.published n hn))).1 hm)

lemma Iso.baseIn (h : Iso dead F w) : BaseIn w b F := by
  intro r hr
  obtain ⟨bs, hbs, hroot⟩ := Option.bind_eq_some_iff.1 hr
  unfold Bucket.baseState at hbs
  split at hbs
  · cases hbs
  next st hst =>
    exact h.base _ st hst _ bs r (Option.join_eq_some_iff.1 hbs) hroot

/-- The invariant asks less when more transactions are given up. -/
lemma Iso.give_up (h : Iso dead F w) (t : TxId) : Iso (insert t dead) F w := by
  have hl : ∀ b, Live w (insert t dead) b → Live w dead b := fun b hb =>
    ⟨hb.alloc, hb.opened, hb.writable, fun hd => hb.alive (Finset.mem_insert_of_mem hd)⟩
  exact ⟨h.arr_lt, h.published, h.kids, h.state, h.base, h.owner, h.opened, h.handle_tx, h.bctx,
    fun b hb => h.handle b (hl b hb), fun b b' hne hb hb' => h.sep b b' hne (hl b hb) (hl b' hb'),
    h.reader, h.reader_handle⟩

/-! ## Calls of one handle -/

namespace Within

/-- The nodes of the handle after a call: those of before and the new ones. -/
lemma own_iff (h : Within w b F w') : Own w' b n ↔ Known w b w'.nextNode n := by
  refine ⟨fun hn => ⟨?_, hn.1⟩, fun hn => ⟨hn.2, (h.mine n hn).bucket⟩⟩
  by_contra hm
  have hlt : n < w.nextNode := not_le.1 fun hle => hm (.inr hle)
  exact hm (.inl ⟨hlt, h.node n hm ▸ hn.2⟩)

/-- The nodes of another handle stay as they are. -/
lemma own_other (h : Within w b F w') {b' : BucketId} (hb : b' ≠ b) :
    Own w' b' n ↔ Own w b' n ∧ w'.nodes n = w.nodes n := by
  constructor
  · intro hn
    have hm : ¬ Mine w b n := fun hm => by
      have := (h.mine n ⟨hm, hn.1⟩).bucket
      rw [hn.2] at this
      exact hb (Option.some.inj this)
    have hlt : n < w.nextNode := not_le.1 fun hle => hm (.inr hle)
    exact ⟨⟨hlt, h.node n hm ▸ hn.2⟩, h.node n hm⟩
  · rintro ⟨hn, e⟩
    exact ⟨hn.1.trans_le h.nextNode, by rw [e]; exact hn.2⟩

lemma node_other (h : Within w b F w') {b' : BucketId} (hb : b' ≠ b) (hn : Own w b' n) :
    w'.nodes n = w.nodes n := by
  refine h.node n ?_
  rintro (hm | hm)
  · exact hb (Option.some.inj (hn.2.symm.trans hm.2))
  · exact absurd hn.1 (not_lt.2 hm)

/-- Every handle stays with its transaction. -/
lemma tx_eq (h : Within w b F w') {b' : BucketId} : (w'.buckets b').tx = (w.buckets b').tx := by
  by_cases e : b' = b
  · rw [e, h.handle_tx]
  · rw [h.bucket b' e]

lemma live_iff (h : Within w b F w') {b' : BucketId} : Live w' dead b' ↔ Live w dead b' := by
  have htx : (w'.buckets b').tx = (w.buckets b').tx := h.tx_eq
  constructor <;> rintro ⟨h1, h2, h3, h4⟩
  · rw [h.nextBucket] at h1
    rw [h.txs, htx] at h2 h3
    rw [htx] at h4
    exact ⟨h1, h2, h3, h4⟩
  · refine ⟨by rwa [h.nextBucket], ?_, ?_, by rwa [htx]⟩ <;> rwa [h.txs, htx]

end Within

section
variable (h : Iso dead F w)
include h

/-- The arrays of another live handle are out of reach. -/
lemma Iso.not_mineArr (hb : Live w dead b) {b' : BucketId} (hne : b' ≠ b) (hb' : Live w dead b')
    (hn : Own w b' n) : ¬ MineArr w b (w.arr n) := by
  rintro (⟨m, hm, e⟩ | hle)
  · exact h.sep b b' hne.symm hb hb' m n hm hn e
  · exact absurd (h.arr_lt n hn.1) (not_lt.2 hle)

/-- A call of a live handle leaves that handle in order. -/
lemma Iso.handle_self (hb : Live w dead b) (hw : Within w b F w') : HandleIso w' b F := by
  have hF := h.closed hb
  refine ⟨fun n hn p hp => ?_, fun n hn => hw.own_iff.2 (hw.dirty n hn),
    fun r hr => hw.own_iff.2 (hw.root r hr), ?_, fun n hn ho => ?_, ?_⟩
  · exact hw.own_iff.2 ((hw.mine n (hw.own_iff.1 hn)).parent p hp)
  · rintro a ⟨m, hm, rfl⟩ i hi c hc
    have hs := (hw.mine m (hw.own_iff.1 hm)).inodes
    exact (hw.kids _ hs.1 hs.2 i hi c hc).imp hw.own_iff.2 id
  · exact hF.node n hn (hw.own_iff.1 ho).1
  · rintro n hn ⟨m, hm, e⟩
    have ha := (hw.mine m (hw.own_iff.1 hm)).inodes.1
    refine hF.array n hn ?_
    have : w'.arr n = w.arr n :=
      congrArg (fun nd : Node => nd.inodes.arr) (hw.node n (hF.node n hn))
    rw [← this, ← e]
    exact ha

/-- A call of a live handle leaves the other live handles in order. -/
lemma Iso.handle_other (hb : Live w dead b) (hw : Within w b F w') {b' : BucketId} (hne : b' ≠ b)
    (hb' : Live w dead b') : HandleIso w' b' F := by
  have hF := h.closed hb
  obtain ⟨hpar, hdirty, hroot, hkids, hap, haa⟩ := h.handle b' hb'
  have hown : ∀ {n}, Own w b' n → Own w' b' n := fun hn =>
    (hw.own_other hne).2 ⟨hn, hw.node_other hne hn⟩
  have harr : ∀ {m}, w'.nodes m = w.nodes m → w'.arr m = w.arr m := fun e =>
    congrArg (fun nd : Node => nd.inodes.arr) e
  refine ⟨fun n hn p hp => ?_, fun n hn => ?_, fun r hr => ?_, ?_, fun n hn ho => ?_, ?_⟩
  · obtain ⟨hn, e⟩ := (hw.own_other hne).1 hn
    rw [e] at hp
    exact hown (hpar n hn p hp)
  · rw [hw.bucket b' hne] at hn
    exact hown (hdirty n hn)
  · rw [hw.bucket b' hne] at hr
    exact hown (hroot r hr)
  · rintro a ⟨m, hm, rfl⟩ i hi c hc
    obtain ⟨hm, e⟩ := (hw.own_other hne).1 hm
    rw [harr e, hw.array _ (h.not_mineArr hb hne hb' hm)] at hi
    exact (hkids _ ⟨m, hm, rfl⟩ i hi c hc).imp hown id
  · exact hap n hn ((hw.own_other hne).1 ho).1
  · rintro n hn ⟨m, hm, e⟩
    obtain ⟨hm, em⟩ := (hw.own_other hne).1 hm
    refine haa n hn ⟨m, hm, ?_⟩
    rw [← harr em, e, harr (hw.node n (hF.node n hn))]

/-- A call that stays within a live handle keeps the invariant and the published nodes. -/
lemma Iso.keeps (hb : Live w dead b) (hw : Within w b F w') : Keeps dead F w w' := by
  have hF := h.closed hb
  have hnode : ∀ n ∈ F, w'.nodes n = w.nodes n := fun n hn => hw.node n (hF.node n hn)
  have hins : ∀ n ∈ F, w'.inodes n = w.inodes n := fun n hn =>
    hw.inodes_eq (hF.node n hn) (hF.array n hn)
  refine ⟨⟨hnode, hins, hw.nextTx.ge, fun t _ => .of_eq (by rw [hw.txs])⟩, fun n hn => ?_,
    fun n hn => (h.published n hn).trans_le hw.nextNode, fun n hn => ?_, by
    rw [hw.db]; exact h.state, by rw [hw.txs]; exact h.base, fun n b' hn => ?_,
    by rw [hw.txs, hw.nextTx]; exact h.opened, fun b' hb' => ?_,
    fun t name b' hl => ?_, fun b' hb' => ?_, fun b1 b2 hne h1 h2 n m hn hm => ?_,
    by rw [hw.txs]; exact h.reader, fun b' hb' hr => ?_⟩
  · by_cases hm : Mine w b n
    · exact (hw.mine n ⟨hm, hn⟩).inodes.2
    · have hlt : n < w.nextNode := not_le.1 fun hle => hm (.inr hle)
      have : w'.arr n = w.arr n := congrArg (fun nd : Node => nd.inodes.arr) (hw.node n hm)
      rw [this]
      exact (h.arr_lt n hlt).trans_le hw.nextArr
  · rw [hins n hn]
    exact h.kids n hn
  · rw [hw.nextBucket]
    by_cases e : b' = b
    · rw [e]
      exact hb.alloc
    · exact h.owner n b' ((hw.own_other e).1 hn).1
  · rw [hw.nextBucket] at hb'
    rw [hw.tx_eq, hw.nextTx]
    exact h.handle_tx b' hb'
  · rw [hw.txs] at hl
    rw [hw.nextBucket, hw.tx_eq]
    exact h.bctx t name b' hl
  · by_cases e : b' = b
    · rw [e]
      exact h.handle_self hb hw
    · exact h.handle_other hb hw e (hw.live_iff.1 hb')
  · -- one of the two handles may be the one that was written
    have harr : ∀ {m}, w'.nodes m = w.nodes m → w'.arr m = w.arr m := fun e =>
      congrArg (fun nd : Node => nd.inodes.arr) e
    have hl1 := hw.live_iff.1 h1
    have hl2 := hw.live_iff.1 h2
    have hmine : ∀ {n m b'}, b' ≠ b → Live w dead b' → Own w' b n → Own w' b' m →
        w'.arr n ≠ w'.arr m := by
      intro n m b' hne hb' hn hm e
      obtain ⟨hm, em⟩ := (hw.own_other hne).1 hm
      refine h.not_mineArr hb hne hb' hm ?_
      rw [← harr em, ← e]
      exact (hw.mine n (hw.own_iff.1 hn)).inodes.1
    by_cases e1 : b1 = b
    · subst e1
      exact hmine hne.symm hl2 hn hm
    by_cases e2 : b2 = b
    · subst e2
      exact (hmine hne hl1 hm hn).symm
    obtain ⟨hn, en⟩ := (hw.own_other e1).1 hn
    obtain ⟨hm, em⟩ := (hw.own_other e2).1 hm
    rw [harr en, harr em]
    exact h.sep b1 b2 hne hl1 hl2 n m hn hm
  · rw [hw.txs, hw.tx_eq] at hr
    have hne : b' ≠ b := by
      rintro rfl
      rw [hb.writable] at hr
      cases hr
    rw [hw.bucket b' hne]
    exact h.reader_handle b' (hw.nextBucket ▸ hb') hr

/-- A program of a live handle keeps the invariant, however it ends. -/
lemma Iso.stays {α : Type} {m : Go α} {Q : α → World → Prop} (hb : Live w dead b)
    (hm : Stays (Along w b F) w m Q) : Stays (Keeps dead F) w m Q :=
  ⟨h.keeps hb hm.1.within, hm.2⟩

/-! ## Calls that leave the nodes alone -/

/-- A change of the transactions, of the database record or of the set of handles keeps the
invariant if it makes no old handle live again and hands out only roots from `F`. -/
lemma Iso.bookkeeping (hn : w'.nodes = w.nodes) (ha : w'.arrays = w.arrays)
    (hnn : w'.nextNode = w.nextNode) (hna : w'.nextArr = w.nextArr)
    (hold : ∀ b, b < w.nextBucket → w'.buckets b = w.buckets b ∧ (Live w' dead b → Live w dead b))
    (hnew : ∀ b, w.nextBucket ≤ b → b < w'.nextBucket →
      (w'.buckets b).rootNode = none ∧ (w'.buckets b).dirty = ∅)
    (hstate : ∀ st, w'.db.state = some st → RootsIn F st)
    (hbase : ∀ t st, (w'.txs t).base = some st → RootsIn F st) (hnb : w.nextBucket ≤ w'.nextBucket)
    (hopen : ∀ t, (w'.txs t).db = true → t < w'.nextTx)
    (htx : ∀ b, b < w'.nextBucket → (w'.buckets b).tx < w'.nextTx)
    (hbctx : ∀ t name b, (w'.txs t).bctx.lookup name = some b →
      b < w'.nextBucket ∧ (w'.buckets b).tx = t)
    (hreader : ∀ t, (w'.txs t).writable = false → (w'.txs t).created = ∅ ∧ (w'.txs t).deleted = ∅)
    (hntx : w.nextTx ≤ w'.nextTx) (hpin : ∀ t, t < w.nextTx → Pinned w w' t) :
    Keeps dead F w w' := by
  have hins : ∀ n, w'.inodes n = w.inodes n := fun n => by unfold World.inodes; rw [hn, ha]
  have harr : ∀ n, w'.arr n = w.arr n := fun n => by unfold World.arr; rw [hn]
  have hown : ∀ {n b}, Own w' b n ↔ Own w b n := by
    intro n b
    unfold Own
    rw [hn, hnn]
  have hownArr : ∀ {a b}, OwnArr w' b a ↔ OwnArr w b a := by
    intro a b
    unfold OwnArr
    simp only [hown, harr]
  refine ⟨⟨fun n _ => by rw [hn], fun n _ => hins n, hntx, hpin⟩, fun n hlt => ?_,
    fun n hF => by rw [hnn]; exact h.published n hF, fun n hF => ?_, hstate,
    hbase, fun n b ho => (h.owner n b (hown.1 ho)).trans_le hnb, hopen, htx, hbctx, fun b hb => ?_,
    fun b1 b2 hne h1 h2 n m ho1 ho2 => ?_, hreader, fun b hb hr => ?_⟩
  · rw [harr, hna]
    exact h.arr_lt n (hnn ▸ hlt)
  · rw [hins]
    exact h.kids n hF
  · by_cases hlt : b < w.nextBucket
    · obtain ⟨e, hl⟩ := hold b hlt
      obtain ⟨hpar, hdirty, hroot, hkids, hap, haa⟩ := h.handle b (hl hb)
      refine ⟨fun n ho p hp => ?_, fun n hd => hown.2 (hdirty n (e ▸ hd)),
        fun r hr => hown.2 (hroot r (e ▸ hr)), fun a hoa i hi c hc => ?_,
        fun n hF ho => hap n hF (hown.1 ho), fun n hF ho => haa n hF (hownArr.1 (harr n ▸ ho))⟩
      · rw [hn] at hp
        exact hown.2 (hpar n (hown.1 ho) p hp)
      · rw [ha] at hi
        exact (hkids a (hownArr.1 hoa) i hi c hc).imp hown.2 id
    · -- a new handle owns nothing yet
      have hno : ∀ n, ¬ Own w' b n := fun n ho => hlt (h.owner n b (hown.1 ho))
      obtain ⟨hr, hd⟩ := hnew b (not_lt.1 hlt) hb.alloc
      refine ⟨fun n ho => absurd ho (hno n), fun n hm => ?_, fun r hm => ?_, ?_,
        fun n _ => hno n, ?_⟩
      · rw [hd] at hm
        cases hm
      · rw [hr] at hm
        cases hm
      · rintro a ⟨m, hm, -⟩
        exact absurd hm (hno m)
      · rintro n - ⟨m, hm, -⟩
        exact hno m hm
  · have ho1 := hown.1 ho1
    have ho2 := hown.1 ho2
    rw [harr, harr]
    exact h.sep b1 b2 hne ((hold b1 (h.owner n b1 ho1)).2 h1) ((hold b2 (h.owner m b2 ho2)).2 h2)
      n m ho1 ho2
  · by_cases hlt : b < w.nextBucket
    · rw [(hold b hlt).1] at hr ⊢
      rw [(hpin _ (h.handle_tx b hlt)).writable] at hr
      exact h.reader_handle b hlt hr
    · exact (hnew b (not_lt.1 hlt) hb).1

/-- Where the cut-off counter stands does not matter. -/
lemma Iso.setCut (c : Option Nat) : Keeps dead F w { w with cut := c } :=
  h.bookkeeping rfl rfl rfl rfl
    (fun _ _ => ⟨rfl, fun hl => ⟨hl.alloc, hl.opened, hl.writable, hl.alive⟩⟩)
    (fun _ h1 h2 => absurd h2 (not_lt.2 h1)) h.state h.base le_rfl h.opened h.handle_tx
    h.bctx h.reader le_rfl fun _ _ => .of_eq rfl

lemma Iso.stays_write {f : World → World} {Q : Unit → World → Prop}
    (hf : ∀ c, Keeps dead F w (f { w with cut := c }) ∧ Q () (f { w with cut := c })) :
    Stays (Keeps dead F) w (write f) Q :=
  stays_write_of (h.setCut none) hf

end

end

end Vmbolt
