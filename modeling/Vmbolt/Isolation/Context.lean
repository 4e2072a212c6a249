import Vmbolt.Isolation.Marking
import Vmbolt.Isolation.Runs

/-!
# Published trees carry no transaction context

A handle that may still write is `Marked`: all its nodes are in its dirty set, so
`detachPublishedNodes` clears the pointers of all of them. `Tends` says that a call leaves the
handles marked, and `Clean` is the invariant of a run: the nodes that were reachable from a
published root have no handle and no parent, and every other node a live handle can reach is in its
dirty set.
-/

namespace Vmbolt
open Prog Relation

/-- Every node of the handle is in its dirty set. -/
def Marked (w : World) (b : BucketId) : Prop := ∀ n, Own w b n → n ∈ (w.buckets b).dirty

/-- The node points neither to a handle nor to a parent. -/
def NoContext (w : World) (n : NodeId) : Prop :=
  (w.nodes n).bucket = none ∧ (w.nodes n).parent = none

/-- From `w` to `w'` the handles stayed marked and new ones are, but for those of the transaction
`x`. -/
structure Tends (x : Option TxId) (w w' : World) : Prop where
  nextBucket : w.nextBucket ≤ w'.nextBucket
  tx : ∀ b, b < w.nextBucket → (w'.buckets b).tx = (w.buckets b).tx
  marked : ∀ b, b < w'.nextBucket → x ≠ some (w'.buckets b).tx → (b < w.nextBucket → Marked w b) →
    Marked w' b

/-- From `w` to `w'` no node, no array and no handle was written. -/
structure Idle (w w' : World) : Prop where
  nodes : w'.nodes = w.nodes
  nextNode : w'.nextNode = w.nextNode
  arrays : w'.arrays = w.arrays
  nextArr : w'.nextArr = w.nextArr
  nextBucket : w.nextBucket ≤ w'.nextBucket
  bucket : ∀ b, b < w.nextBucket → w'.buckets b = w.buckets b

section
variable {w w' w'' v : World} {x : Option TxId} {b : BucketId} {dead : Finset TxId} {F : Set NodeId}
  {t : TxId} {n : NodeId} {fuel : Nat} {name : Name}

lemma Tends.refl (x : Option TxId) (w : World) : Tends x w w :=
  ⟨le_rfl, fun _ _ => rfl, fun _ hb _ h => h hb⟩

lemma Tends.trans (h1 : Tends x w w') (h2 : Tends x w' w'') : Tends x w w'' := by
  refine ⟨h1.nextBucket.trans h2.nextBucket, fun b hb => ?_, fun b hb hx hm => ?_⟩
  · rw [h2.tx b (hb.trans_le h1.nextBucket), h1.tx b hb]
  · exact h2.marked b hb hx fun hb' => h1.marked b hb' (by rwa [← h2.tx b hb']) hm

lemma Tends.weaken (h : Tends none w w') : Tends x w w' :=
  ⟨h.nextBucket, h.tx, fun b hb _ => h.marked b hb nofun⟩

instance : Track (Tends x) where
  trans := .trans
  refl_right {_ w} _ := .refl x w

instance : Track Idle where
  trans h1 h2 := ⟨h2.nodes.trans h1.nodes, h2.nextNode.trans h1.nextNode, h2.arrays.trans h1.arrays,
    h2.nextArr.trans h1.nextArr, h1.nextBucket.trans h2.nextBucket,
    fun b hb => (h2.bucket b (hb.trans_le h1.nextBucket)).trans (h1.bucket b hb)⟩
  refl_right _ := ⟨rfl, rfl, rfl, rfl, le_rfl, fun _ _ => rfl⟩

lemma Idle.refl (w : World) : Idle w w := ⟨rfl, rfl, rfl, rfl, le_rfl, fun _ _ => rfl⟩

lemma Idle.own (h : Idle w w') : Own w' b n ↔ Own w b n := by
  unfold Own
  rw [h.nodes, h.nextNode]

/-- Without a write to a node, marked handles stay marked; a new handle has no nodes. -/
lemma Idle.tends (hi : Iso dead F w) (h : Idle w w') : Tends none w w' := by
  refine ⟨h.nextBucket, fun b hb => by rw [h.bucket b hb], fun b _ _ hm n hn => ?_⟩
  have hn := h.own.1 hn
  have hb := hi.owner n b hn
  rw [h.bucket b hb]
  exact hm hb n hn

lemma Iso.tends {α : Type} {m : Go α} (h : Iso dead F w) (hm : Tracks Idle m) :
    Stays (Tends x) w m fun _ w' => Tends none w w' :=
  have hi := (hm w (.refl w)).1.tends h
  ⟨hi.weaken, fun _ _ => hi⟩

/-! ## Calls that write no node -/

lemma compositional_idle : Compositional (ε := Panic) (Tracks Idle) := Tracks.compositional

lemma idle_write {f : World → World} (hf : ∀ w, Idle w (f w)) : Tracks Idle (write f) := fun w _ =>
  stays_write_of ⟨rfl, rfl, rfl, rfl, le_rfl, fun _ _ => rfl⟩ fun c =>
    have h := hf { w with cut := c }
    ⟨⟨h.nodes, h.nextNode, h.arrays, h.nextArr, h.nextBucket, h.bucket⟩, trivial⟩

lemma idle_modify {f : Tx → Tx} : Tracks Idle (Tx.modify t f) :=
  idle_write fun _ => ⟨rfl, rfl, rfl, rfl, le_rfl, fun _ _ => rfl⟩

lemma dirWrites_idle : DirWrites (Tracks Idle) where
  toCompositional := compositional_idle
  newBucket {t name} w _ := by
    refine .read_bind (.bind (P := fun _ _ => True) ?_ fun _ w1 _ _ => .pure (.refl w1) trivial)
    refine stays_write_of ⟨rfl, rfl, rfl, rfl, le_rfl, fun _ _ => rfl⟩ fun c =>
      ⟨⟨rfl, rfl, rfl, rfl, Nat.le_succ _, ?_⟩, trivial⟩
    exact fun b hb => Function.update_of_ne hb.ne _ _
  modify _ := idle_modify

lemma idle_lock {l : Bool} :
    Tracks Idle (write fun w => { w with db := { w.db with rwlock := l } }) :=
  idle_write fun _ => ⟨rfl, rfl, rfl, rfl, le_rfl, fun _ _ => rfl⟩

lemma idle_unlock : Tracks Idle Tx.unlock :=
  compositional_idle.read_bind fun _ => compositional_idle.ite idle_lock compositional_idle.panic

lemma idle_close : Tracks Idle (Tx.close t) := by
  have h := compositional_idle
  have hclear : Tracks Idle (Tx.clearFields t) :=
    h.bind idle_modify fun _ => h.bind idle_modify fun _ => h.bind idle_modify fun _ =>
      h.bind idle_modify fun _ => idle_modify
  exact h.read_bind fun _ => h.ite h.pure (h.ite (h.bind idle_unlock fun _ => hclear) hclear)

lemma idle_rollback : Tracks Idle (Tx.Rollback t) := by
  have h := compositional_idle
  exact h.read_bind fun _ => h.bind h.assert fun _ =>
    h.ite h.pure (h.bind idle_close fun _ => h.pure)

lemma idle_newTx {writable : Bool} {st : DbState} : Tracks Idle (DB.newTx writable st) := by
  have h := compositional_idle
  exact h.read_bind fun _ =>
    h.bind (idle_write fun _ => ⟨rfl, rfl, rfl, rfl, le_rfl, fun _ _ => rfl⟩) fun _ => h.pure

lemma idle_begin (writable : Bool) : Tracks Idle (DB.begin_ writable) := by
  have h := compositional_idle
  refine h.ite (h.read_bind fun _ => h.ite h.pure ?_) (h.read_bind fun _ => h.ite h.pure ?_)
  · refine h.bind (h.read_bind fun _ => h.ite h.hang idle_lock) fun _ => h.read_bind fun db => ?_
    refine h.ite (h.bind idle_unlock fun _ => h.pure) ?_
    split
    · exact h.bind idle_unlock fun _ => h.pure
    · exact h.bind idle_newTx fun _ => h.pure
  · split
    · exact h.pure
    · exact h.bind idle_newTx fun _ => h.pure

/-! ## Calls of a handle -/

/-- A call of a handle leaves the other handles marked, however it ends. -/
lemma Within.tends (h : Within w b F w') : Tends (some (w.buckets b).tx) w w' := by
  refine ⟨h.nextBucket.ge, fun b' _ => h.tx_eq, fun b' hb hx hm n hn => ?_⟩
  have hne : b' ≠ b := by
    rintro rfl
    exact hx (congrArg some h.tx_eq.symm)
  rw [h.bucket b' hne]
  exact hm (h.nextBucket ▸ hb) n ((h.own_other hne).1 hn).1

/-- A call that returns leaves its own handle marked too. -/
lemma Marks.tends (h : Marks none w w') (ht : Tends x w w') (hb : w'.nextBucket = w.nextBucket) :
    Tends none w w' := by
  refine ⟨ht.nextBucket, ht.tx, fun b' hlt _ hm n hn => ?_⟩
  by_cases hold : n < w.nextNode
  · exact (h.handle b').dirty (hm (hb ▸ hlt) n ⟨hold, by rw [← h.bucket n hold]; exact hn.2⟩)
  · exact h.new n (not_lt.1 hold) hn.1 nofun b' hn.2

lemma stays_tends {α : Type} {m : Go α} {Q : α → World → Prop} (hm : Stays (Along w b F) w m Q)
    (hk : Moves (Marks none) m) :
    Stays (Tends (some (w.buckets b).tx)) w m fun _ w' => Tends none w w' :=
  ⟨hm.1.within.tends, fun a e =>
    (hk w a _ (Prod.ext e rfl)).tends hm.1.within.tends hm.1.within.nextBucket⟩

lemma Iso.call_tends {α : Type} {m : Go α} (h : Iso dead F w) (hm : HandleCall b m)
    (hb : b < w.nextBucket) (ht : (w.buckets b).tx ∉ dead) :
    Stays (Tends (some (w.buckets b).tx)) w m fun _ w' => Tends none w w' :=
  hm.stays h hb ht (.refl _ w) (fun _ => .refl none w) fun _ ha => stays_tends ha hm.marks

/-! ## New buckets -/

/-- The root of a new bucket is marked. -/
lemma moves_newRoot : Moves (Marks none) (Bucket.newRoot b) := by
  refine .bind moves_nilInodes fun s => ?_
  intro w a w' e
  obtain ⟨root, w1, e1, e⟩ := Prog.bind_eq_ok e
  obtain ⟨a2, w2, e2, e⟩ := Prog.bind_eq_ok e
  obtain ⟨h1, hr, hb⟩ := newNode_marks e1
  have h2 := moves_setRoot w1 a2 w2 e2
  exact (h1.trans h2).mark (hr.trans_le h2.nextNode) ((h2.bucket root hr).trans hb) e

lemma Iso.createBucket_tends (h : Iso dead F w) (ht : t ∉ dead) :
    Stays (Tends (some t)) w (Tx.createBucket t name) fun _ w' => Tends none w w' := by
  have hr := Tends.refl none w
  refine .read_bind (.guard (.refl _ w) hr fun ho => .guard (.refl _ w) hr fun hw =>
    .guard (.refl _ w) hr fun _ => .guard (.refl _ w) hr fun _ => ?_)
  have ho : (w.txs t).db = true := by simpa using ho
  refine .bind ((h.tends dirWrites_idle.newBucket).both (h.newBucket ho)) fun b w1 _ hb => ?_
  obtain ⟨t1, ⟨hb, hbt, htx⟩, h1⟩ := hb
  have hl : Live w1 dead b := ⟨hb, by rw [hbt, htx]; exact ho, by rw [hbt, htx]; simpa using hw,
    by rwa [hbt]⟩
  have hroot := stays_newRoot (h1.iso.within hl)
  have hmarked := (stays_tends hroot moves_newRoot).both hroot
  rw [hbt] at hmarked
  have hrest : ∀ w2, Iso dead F w2 → Stays (Tends (some t)) w2 (Tx.enter t name b)
      fun _ w' => Tends none w2 w' := fun w2 h2 =>
    h2.tends (dirWrites_idle.bind idle_modify fun _ => dirWrites_idle.bind idle_modify fun _ =>
      dirWrites_idle.bind idle_modify fun _ => dirWrites_idle.pure)
  simpa only [bind_assoc] using Stays.bind hmarked fun _ w2 _ h2 =>
    (hrest w2 (h1.iso.keeps hl h2.2.2.within).iso).mono fun _ w3 _ h3 => (t1.trans h2.1).trans h3

lemma Iso.createBucketIfNotExists_tends (h : Iso dead F w) (ht : t ∉ dead) :
    Stays (Tends (some t)) w (Tx.createBucketIfNotExists t name) fun _ w' => Tends none w w' := by
  have hr := Tends.refl none w
  refine .read_bind (.guard (.refl _ w) hr fun _ => .guard (.refl _ w) hr fun _ =>
    .guard (.refl _ w) hr fun _ => ?_)
  refine .bind ((h.tends dirWrites_idle.bucket).both h.bucket) fun b w1 _ h1 => ?_
  cases b with
  | some b => exact .pure (.refl _ w1) h1.1
  | none => exact (h1.2.2.iso.createBucket_tends ht).mono fun _ w' _ h' => h1.1.trans h'

/-! ## Publishing -/

/-- The two phases of a commit on the buckets of the transaction `t`. -/
structure Phase (dead : Finset TxId) (F : Set NodeId) (t : TxId) (w w' : World) : Prop extends
    Works dead F w w' where
  tends : Tends (some t) w w'
  nextBucket : w'.nextBucket = w.nextBucket
  tx : ∀ b, (w'.buckets b).tx = (w.buckets b).tx
  other : ∀ b, (w.buckets b).tx ≠ t → w'.buckets b = w.buckets b

instance : Track (Phase dead F t) where
  trans h1 h2 := ⟨Track.trans h1.toWorks h2.toWorks, h1.tends.trans h2.tends,
    h2.nextBucket.trans h1.nextBucket, fun b => (h2.tx b).trans (h1.tx b),
    fun b hb => (h2.other b (by rwa [h1.tx b])).trans (h1.other b hb)⟩
  refl_right {_ w} h := ⟨h.iso.works_refl, .refl _ w, rfl, fun _ => rfl, fun _ _ => rfl⟩

lemma Iso.phase_refl (h : Iso dead F w) : Phase dead F t w w :=
  ⟨h.works_refl, .refl _ w, rfl, fun _ => rfl, fun _ _ => rfl⟩

/-- A call of a handle of the transaction is part of a phase. -/
lemma Iso.phase {α : Type} {m : Go α} {Q : α → World → Prop} (h : Iso dead F w) (hb : Live w dead b)
    (ht : (w.buckets b).tx = t) (hm : Stays (Along w b F) w m Q) :
    Stays (Phase dead F t) w m Q := by
  have hin := hm.1.within
  refine ⟨⟨(h.works hb hm).1, ht ▸ hin.tends, hin.nextBucket, fun _ => hin.tx_eq, fun b' hne =>
    hin.bucket b' ?_⟩, hm.2⟩
  rintro rfl
  exact hne ht

/-- Before the nodes are detached, the commit has worked on handles of the transaction only, and if
it gets there the handles are marked. -/
lemma Iso.phases (h : Iso dead F w) (fuel : Nat) (order : Tx.Order) (ho : (w.txs t).db = true)
    (hw : (w.txs t).writable = true) (ht : t ∉ dead) :
    Stays (Phase dead F t) w (do
      Tx.rebalanceAll fuel t order.rebalance
      Tx.spillAll fuel t order.spill) fun _ w' =>
        Phase dead F t w w' ∧ Tends none w w' ∧ Marks none w w' := by
  have live : ∀ {w1 : World} {name : Name} {b : BucketId}, Phase dead F t w w1 →
      (w1.txs t).bctx.lookup name = some b → Live w1 dead b ∧ (w1.buckets b).tx = t := by
    intro w1 name b h1 hb
    exact ⟨h1.iso.live_bctx (by rw [h1.txs, ho]) (by rw [h1.txs, hw]) ht hb,
      (h1.iso.bctx t name b hb).2⟩
  have hphase : Stays (Phase dead F t) w (do
      Tx.rebalanceAll fuel t order.rebalance
      Tx.spillAll fuel t order.spill) fun _ _ => True := by
    refine .bind (.each h.phase_refl fun o _ w1 h1 => .read_bind ?_) fun _ w1 h1 _ =>
      .each h1.iso.phase_refl fun name _ w2 h2 => .read_bind ?_
    · split
      · exact .pure h1.iso.phase_refl trivial
      next b hb =>
        obtain ⟨hl, hbt⟩ := live h1 hb
        exact h1.iso.phase hl hbt (stays_bucketRebalance (h1.iso.within hl) (h1.iso.closed hl))
    · split
      · exact .pure h2.iso.phase_refl trivial
      next b hb =>
        obtain ⟨hl, hbt⟩ := live (Track.trans h1 h2) hb
        exact h2.iso.phase hl hbt (stays_spill (h2.iso.within hl))
  refine ⟨hphase.1, fun a e => ?_⟩
  have hm := treeWrites_marks.phases w a _ (Prod.ext e rfl)
  exact ⟨hphase.1, hm.tends hphase.1.tends hphase.1.nextBucket, hm⟩

/-- The nodes of some handles. -/
def OwnedBy (w : World) (D : Set BucketId) : Set NodeId := { n | ∃ b ∈ D, Own w b n }

/-- The nodes of the handles `D` of the transaction `t` were detached since `v`. -/
structure Released (dead : Finset TxId) (t : TxId) (v : World) (D : Set BucketId) (w : World) :
    Prop where
  detached : Detached dead t v w
  live : ∀ b ∈ D, Live v dead b ∧ (v.buckets b).tx = t
  clear : ∀ b ∈ D, ∀ n ∈ (v.buckets b).dirty, NoContext w n

lemma detachPublishedNodes_ok {a : Unit} (e : Bucket.detachPublishedNodes b w = (.ok a, w'))
    (n : NodeId) : w'.nodes n = if n ∈ (w.buckets b).dirty then
      { w.nodes n with bucket := none, parent := none } else w.nodes n := by
  unfold Bucket.detachPublishedNodes bucketOf at e
  rw [Prog.read_bind] at e
  obtain ⟨a1, w1, e1, e2⟩ := Prog.bind_eq_ok e
  obtain ⟨c1, rfl⟩ := write_eq_ok e1
  unfold modifyBucket at e2
  obtain ⟨c2, rfl⟩ := write_eq_ok e2
  rfl

variable {D : Set BucketId} {st : DbState}

/-- A handle that has a root is detached and its root published; otherwise its base is. -/
lemma Released.publishRoot (h : Iso dead F v) (hr : Released dead t v D w) (hb : Live v dead b)
    (ht : (v.buckets b).tx = t) :
    Stays (DetachedFrom dead t v) w (Bucket.publishRoot b) fun bs w' => ∃ D', D ⊆ D' ∧
      Released dead t v D' w' ∧ ∀ s r, bs = some s → s.root = some r → r ∈ F ∪ OwnedBy v D' := by
  have hd := hr.detached
  refine .read_bind ?_
  split
  · refine ⟨hd, fun bs e => ?_⟩
    cases e
    exact ⟨D, subset_rfl, hr, fun s r h1 h2 => .inl (hd.baseState h s r h1 h2)⟩
  next r hroot =>
    have hsame : w.buckets b = v.buckets b := by
      refine (hd.bucket b).resolve_right fun hc => ?_
      rw [hc.2] at hroot
      cases hroot
    have hdetach := h.detachPublishedNodes hd hb ht
    refine .bind (P := fun _ w1 => ∀ n, w1.nodes n = if n ∈ (w.buckets b).dirty then
      { w.nodes n with bucket := none, parent := none } else w.nodes n)
      ⟨hdetach.1, fun a e => detachPublishedNodes_ok (Prod.ext e rfl)⟩ fun _ w1 hd1 hn => ?_
    refine .pure hd1 ⟨insert b D, Set.subset_insert b D, ⟨hd1, ?_, ?_⟩, fun s r' h1 h2 => .inr ?_⟩
    · rintro b' (rfl | hb')
      · exact ⟨hb, ht⟩
      · exact hr.live b' hb'
    · intro b' hb' n hdirty
      unfold NoContext
      rw [hn n]
      split
      · exact ⟨rfl, rfl⟩
      next hnot =>
        refine hr.clear b' (hb'.resolve_left ?_) n hdirty
        rintro rfl
        exact hnot (hsame ▸ hdirty)
    · cases h1
      cases h2
      exact ⟨b, Set.mem_insert b D, (h.handle b hb).root r (hsame ▸ hroot)⟩

lemma Released.publishAll {names : List Name} {m : AList fun _ : Name => Option BucketState}
    (h : Iso dead F v) (ho : (v.txs t).db = true) (hw : (v.txs t).writable = true) (ht : t ∉ dead)
    (hr : Released dead t v D w) (hm : RootsIn (F ∪ OwnedBy v D) ⟨m⟩) :
    Stays (DetachedFrom dead t v) w (Tx.publishAll t names m) fun m' w' => ∃ D',
      Released dead t v D' w' ∧ RootsIn (F ∪ OwnedBy v D') ⟨m'⟩ := by
  induction names generalizing w m D with
  | nil => exact .pure hr.detached ⟨D, hr, hm⟩
  | cons name names ih =>
    have htxs : w.txs = v.txs := by rw [hr.detached.rest]
    refine .read_bind ?_
    rw [htxs]
    split
    · exact ih hr hm
    next b hb =>
      split
      · exact ih hr hm
      have hl := h.live_bctx ho hw ht hb
      refine .bind (hr.publishRoot h hl (h.bctx t name b hb).2) fun bs w1 _ h1 => ?_
      obtain ⟨D', hD, hr', hroot⟩ := h1
      have hsub : F ∪ OwnedBy v D ⊆ F ∪ OwnedBy v D' :=
        Set.union_subset_union_right F fun n ⟨b, hb, hn⟩ => ⟨b, hD hb, hn⟩
      refine ih hr' fun name' s r h1 h2 => ?_
      by_cases e : name' = name
      · subst e
        rw [AList.lookup_insert] at h1
        exact hroot s r (Option.some.inj h1) h2
      · rw [AList.lookup_insert_ne e] at h1
        exact hsub (hm name' s r h1 h2)

/-- The trees of the new state consist of published nodes and of nodes of the detached handles. -/
lemma Released.reaches (h : Iso dead F v) (hr : Released dead t v D w)
    (hroots : RootsIn (F ∪ OwnedBy v D) st) (hn : Reaches w st n) : n ∈ F ∪ OwnedBy v D := by
  induction hn with
  | root h1 h2 => exact hroots _ _ _ h1 h2
  | child _ hi hc ih =>
    rw [hr.detached.inodes_eq] at hi
    rcases ih with hF | ⟨b, hb, hn⟩
    · exact .inl (h.kids _ hF _ hi _ hc)
    · rcases (h.handle b (hr.live b hb).1).kids _ ⟨_, hn, rfl⟩ _ (List.mem_of_mem_take hi) _ hc
        with hc | hc
      · exact .inr ⟨b, hb, hc⟩
      · exact .inl hc

/-- After a call that ends the transaction `t`, the handles of the others are marked, and the nodes
that joined the published ones are those of the new state and have no context. -/
def Retires (dead : Finset TxId) (F : Set NodeId) (t : TxId) (w w' : World) : Prop :=
  Frozen F w w' ∧ Tends (some t) w w' ∧ ∃ G, F ⊆ G ∧ Iso (insert t dead) G w' ∧
    ∀ n ∈ G, n ∈ F ∨ NoContext w' n ∧ ∃ st, w'.db.state = some st ∧ Reaches w' st n

instance : Track (Retires dead F t) where
  trans h1 h2 := ⟨h1.1.trans h2.1, h1.2.1.trans h2.2.1, h2.2.2⟩
  refl_right h := ⟨.refl F _, .refl _ _, h.2.2⟩

lemma Keeps.retires (h : Keeps dead F w w') (ht : Tends (some t) w w') : Retires dead F t w w' :=
  ⟨h.toFrozen, ht, F, subset_rfl, h.iso.give_up t, fun _ => .inl⟩

lemma Detached.retires (h : Iso dead F v) (hd : Detached dead t v w) : Retires dead F t v w := by
  have hnb : w.nextBucket = v.nextBucket := by rw [hd.rest]
  refine ⟨(hd.ends h).1, ⟨hnb.ge, fun b _ => hd.tx_eq, fun b hb hx hm n hn => ?_⟩, F, subset_rfl,
    h.detached_of hd subset_rfl Set.subset_union_left h.kids, fun _ => .inl⟩
  rw [hd.tx_eq] at hx
  rw [(hd.bucket b).resolve_right fun hc => hx (congrArg some hc.1.symm)]
  exact hm (hnb ▸ hb) n (hd.own hn).1

lemma Reaches.congr (h : ∀ n, w'.inodes n = w.inodes n) (hn : Reaches w st n) :
    Reaches w' st n := by
  induction hn with
  | root h1 h2 => exact .root h1 h2
  | child _ hi hc ih => exact ih.child (by rwa [h]) hc

/-- The store of the new state, with the nodes of its trees. -/
lemma Released.store (h : Iso dead F v) (hr : Released dead t v D w) (hm : ∀ b ∈ D, Marked v b)
    (hroots : RootsIn (F ∪ OwnedBy v D) st) (c : Option Nat) :
    Retires dead F t w { w with cut := c, db := { w.db with state := some st } } := by
  have hd := hr.detached
  have hreach : ∀ n, Reaches w st n → n ∈ F ∪ OwnedBy v D := fun n hn => hr.reaches h hroots hn
  have hi : Iso (insert t dead) (F ∪ { n | Reaches w st n }) w := by
    refine h.detached_of hd Set.subset_union_left (Set.union_subset Set.subset_union_left ?_) ?_
    · intro n hn
      rcases hreach n hn with hF | ⟨b, hb, hown⟩
      · exact .inl hF
      · exact .inr ⟨b, (hr.live b hb).1, (hr.live b hb).2, hown⟩
    · rintro n (hn | hn) i hi c hc
      · exact .inl (h.kids n hn i hi c hc)
      · exact .inr (hn.child (by rwa [hd.inodes_eq]) hc)
  have hk := Track.trans (hi.setCut c)
    ((hi.setCut c).iso.store fun name bs r h1 h2 => .inr (Reaches.root h1 h2))
  refine ⟨hk.toFrozen.mono Set.subset_union_left, (Idle.tends hi ?_).weaken, _,
    Set.subset_union_left, hk.iso, ?_⟩
  · exact ⟨rfl, rfl, rfl, rfl, le_rfl, fun _ _ => rfl⟩
  · rintro n (hn | hn)
    · exact .inl hn
    · rcases hreach n hn with hF | ⟨b, hb, hown⟩
      · exact .inl hF
      · exact .inr ⟨hr.clear b hb n (hm b hb n hown), st, rfl,
          Reaches.congr (w := w) (fun _ => rfl) hn⟩

/-- A commit up to the store publishes no node with a context, unless it is refused. -/
lemma Iso.publish_retires (h : Iso dead F w) (fuel : Nat) (order : Tx.Order) (ht : t ∉ dead)
    (hm : ∀ b, Live w dead b → Marked w b) :
    Stays (Retires dead F t) w (Tx.publish fuel t order) fun err w' => ∀ e, err = some e →
      w' = w := by
  have hrefl : Retires dead F t w w := h.refl.retires (.refl _ w)
  refine .read_bind (.assert_bind hrefl fun _ => .guard hrefl (fun _ _ => rfl) fun ho =>
    .guard hrefl (fun _ _ => rfl) fun hw => ?_)
  simp only [Bool.not_eq_false] at ho hw
  have hbuild : Stays (Retires dead F t) w (Tx.build fuel t order) fun st w2 =>
      ∃ v2 D, Iso dead F v2 ∧
      Released dead t v2 D w2 ∧ (∀ b ∈ D, Marked v2 b) ∧ RootsIn (F ∪ OwnedBy v2 D) st := by
    unfold Tx.build
    rw [← bind_assoc]
    refine .bind ((h.phases fuel order ho hw ht).imp fun v2 h2 => h2.toKeeps.retires h2.tends)
      fun _ v2 _ h2 => .read_bind ?_
    obtain ⟨h2, hmarks, -⟩ := h2
    have hkept : RootsIn (F ∪ OwnedBy v2 ∅) ⟨(v2.txs t).keptBuckets⟩ := by
      intro name bs r e hr
      obtain ⟨base, hb, hl⟩ := lookup_keptBuckets e
      exact .inl (h2.iso.base t base hb name bs r hl hr)
    have hnone : Released dead t v2 ∅ v2 := ⟨.refl v2, nofun, nofun⟩
    refine .bind ((hnone.publishAll h2.iso (by rw [h2.txs, ho]) (by rw [h2.txs, hw]) ht hkept).imp
      fun v3 hd => Detached.retires h2.iso hd) fun m v3 h3 hrel => .pure (Track.refl_right h3) ?_
    obtain ⟨D, hr, hroots⟩ := hrel
    refine ⟨v2, D, h2.iso, hr, fun b hb => ?_, hroots⟩
    obtain ⟨hl, hbt⟩ := hr.live b hb
    have hlt : b < w.nextBucket := h2.nextBucket ▸ hl.alloc
    have htx := hmarks.tx b hlt
    refine hmarks.marked b hl.alloc nofun fun _ => hm b ⟨hlt, ?_, ?_, htx ▸ hl.alive⟩
    · rw [← htx, hbt]; exact ho
    · rw [← htx, hbt]; exact hw
  refine .bind hbuild fun st v1 h1 hst => ?_
  obtain ⟨v2, D, hi, hr, hmarked, hroots⟩ := hst
  refine .bind (P := fun _ _ => True)
    (stays_write_of ?_ fun c => ⟨hr.store hi hmarked hroots c, trivial⟩)
    fun _ v3 h3 _ => .pure (Track.refl_right h3) nofun
  have hi1 := hi.detached_of hr.detached subset_rfl Set.subset_union_left hi.kids
  have hidle : Idle v1 { v1 with cut := none } := ⟨rfl, rfl, rfl, rfl, le_rfl, fun _ _ => rfl⟩
  exact ⟨(hi1.setCut none).toFrozen, (hidle.tends hi1).weaken, F, subset_rfl, (hi1.setCut none).iso,
    fun _ => .inl⟩

end

/-! ## Whole runs -/

/-- The node was in a tree of a published state at some moment of the run from `s0` to `s`. -/
def WasPublished (s0 s : Sys) (n : NodeId) : Prop :=
  ∃ s1 st, Steps s0 s1 ∧ Steps s1 s ∧ s1.world.db.state = some st ∧ Reaches s1.world st n

/-- The nodes of `F` were published and have no context; the handles that may write are marked. -/
structure Clean (s0 s : Sys) (F : Set NodeId) : Prop where
  iso : Iso s.ended F s.world
  clear : ∀ n ∈ F, NoContext s.world n
  published : ∀ n ∈ F, WasPublished s0 s n
  marked : ∀ b, Live s.world s.ended b → Marked s.world b

/-- One inode of the node points to the other. -/
def Points (w : World) (n c : NodeId) : Prop := ∃ i ∈ w.inodes n, i.child = some c

section
variable {s0 s s' : Sys} {F : Set NodeId} {st : DbState} {n : NodeId} {t : TxId} {b : BucketId}
  {fuel : Nat} {c : Call} {w w' : World} {dead dead' : Finset TxId} {x : Option TxId}

lemma WasPublished.tail (h : WasPublished s0 s n) (hs : Step s s') : WasPublished s0 s' n := by
  obtain ⟨s1, st, h0, h1, hst, hn⟩ := h
  exact ⟨s1, st, h0, h1.tail hs, hst, hn⟩

/-- Every call but a store leaves the handles marked if it returns, and otherwise those of the other
transactions. -/
lemma Call.tends (fuel : Nat) (h : Iso s.ended F w) (hw : ∃ cut, w = { s.world with cut := cut })
    (ha : c.Admissible s) (hc : ∀ t order, c ≠ .publish t order) :
    Stays (Tends (c.tx s.world)) w (c.run fuel) fun _ w' => Tends none w w' := by
  obtain ⟨cut, rfl⟩ := hw
  have done : ∀ {α : Type} {m : Go α} {x : Option TxId} {w : World},
      Stays (Tends x) w m (fun _ w' => Tends none w w') →
        Stays (Tends x) w (m >>= fun _ => pure true) fun _ w' => Tends none w w' := fun hm =>
    hm.bind fun _ v _ hv => .pure (.refl _ v) hv
  cases c with
  | begin_ writable => exact done (h.tends (idle_begin writable))
  | bucket t name => exact done (h.tends dirWrites_idle.bucket)
  | createBucket t name => exact done (h.createBucket_tends ha)
  | createBucketIfNotExists t name => exact done (h.createBucketIfNotExists_tends ha)
  | deleteBucket t name => exact done (h.tends dirWrites_idle.deleteBucket)
  | put b key value => exact done (h.call_tends handleCall_put ha.1 ha.2)
  | delete b key => exact done (h.call_tends handleCall_delete ha.1 ha.2)
  | cursorDelete c =>
    dsimp only [Call.tx]
    rcases e : c.bucket with _ | b
    · exact done (by rw [cursorDelete_none e]; exact .pure (.refl _ _) (.refl none _))
    · exact done (h.call_tends (handleCall_cursorDelete e) (ha b e).1 (ha b e).2)
  | setFillPercent b f =>
    have hl : Live { s.world with cut := cut } s.ended b :=
      ⟨ha.alloc, ha.opened, ha.writable, ha.alive⟩
    exact done (stays_tends (stays_setFillPercent (h.within hl)) moves_setFillPercent)
  | publish t order => exact absurd rfl (hc t order)
  | close t => exact done (h.tends idle_close)
  | rollback t => exact done (h.tends idle_rollback)

/-- The handles that are live after a call are marked if those before it were. -/
lemma Iso.marked (h : Iso dead F w) (hf : Frozen F w w') (ht : Tends x w w') (hsub : dead ⊆ dead')
    (hx : ∀ t, x = some t → t ∈ dead') (hm : ∀ b, Live w dead b → Marked w b) :
    ∀ b, Live w' dead' b → Marked w' b := by
  intro b hb
  refine ht.marked b hb.alloc (fun e => hb.alive (hx _ e)) fun hlt => hm b ?_
  have htx := ht.tx b hlt
  have hpin := hf.pinned _ (h.handle_tx b hlt)
  rw [← htx] at hpin
  refine ⟨hlt, ?_, ?_, fun hd => hb.alive (hsub (htx ▸ hd))⟩
  · exact htx ▸ (hpin.base hb.opened).1
  · exact htx ▸ hpin.writable ▸ hb.writable

/-- A call keeps the invariant, with the nodes it has published. -/
lemma Clean.next {G : Set NodeId} (h : Clean s0 s F) (h0 : Steps s0 s) (hs : Step s s')
    (hf : Frozen F s.world s'.world) (ht : Tends x s.world s'.world) (hsub : s.ended ⊆ s'.ended)
    (hx : ∀ t, x = some t → t ∈ s'.ended) (hi : Iso s'.ended G s'.world)
    (hG : ∀ n ∈ G, n ∈ F ∨ NoContext s'.world n ∧ ∃ st, s'.world.db.state = some st ∧
      Reaches s'.world st n) : Clean s0 s' G := by
  refine ⟨hi, fun n hn => ?_, fun n hn => ?_, h.iso.marked hf ht hsub hx h.marked⟩
  · rcases hG n hn with hF | ⟨hno, -⟩
    · unfold NoContext
      rw [hf.node n hF]
      exact h.clear n hF
    · exact hno
  · rcases hG n hn with hF | ⟨-, st, hst, hr⟩
    · exact (h.published n hF).tail hs
    · exact ⟨s', st, h0.tail hs, .refl, hst, hr⟩

lemma Sys.subset_ended {cut : Option Nat} : s.ended ⊆ (s.after c cut fuel).ended := by
  unfold Sys.after
  dsimp only
  split
  · exact subset_rfl
  · exact Finset.subset_insert _ _
  · exact subset_rfl

lemma Step.clean (h : Clean s0 s F) (h0 : Steps s0 s) (hs : Step s s') :
    ∃ G, Clean s0 s' G := by
  have hstep := hs
  obtain ⟨c, cut, fuel, ha⟩ := hs
  have hc := h.iso.setCut cut
  have hidle : ∀ (w : World) (cut : Option Nat), Idle w { w with cut := cut } := fun w cut =>
    ⟨rfl, rfl, rfl, rfl, le_rfl, fun _ _ => rfl⟩
  have hend : ∀ {w : World} {F' : Set NodeId} {ended : Finset TxId} {x : Option TxId},
      Iso ended F' w →
      Frozen F { s.world with cut := cut } w → Tends x { s.world with cut := cut } w →
      Frozen F s.world { w with cut := none } ∧ Tends x s.world { w with cut := none } ∧
        Iso ended F' { w with cut := none } := by
    intro w F' ended x hi hf ht
    exact ⟨(hc.toFrozen.trans hf).trans
      ⟨fun _ _ => rfl, fun _ _ => rfl, le_rfl, fun _ _ => .of_eq rfl⟩,
      (((hidle s.world cut).tends h.iso).weaken.trans ht).trans ((hidle w none).tends hi).weaken,
      (hi.setCut none).iso⟩
  by_cases hp : ∀ t order, c ≠ .publish t order
  · obtain ⟨hk, -⟩ := Call.stays fuel hc.iso ⟨cut, rfl⟩ ha hp
    obtain ⟨ht, hok⟩ := Call.tends fuel hc.iso ⟨cut, rfl⟩ ha hp
    rcases e : c.run fuel { s.world with cut := cut } with ⟨o, w'⟩
    rw [e] at hk ht hok
    -- the handles of the transaction are marked if the call returned, and it has ended if not
    have hmark : ∃ x, Tends x { s.world with cut := cut } w' ∧
        ∀ t, x = some t → t ∈ (s.after c cut fuel).ended := by
      rcases o with a | _ | _
      · refine ⟨none, hok a rfl, fun t hx => ?_⟩
        cases hx
      all_goals
        refine ⟨_, ht, fun t hx => ?_⟩
        unfold Sys.after
        simp only [e, hx]
        exact Finset.mem_insert_self t _
    obtain ⟨x, ht, hx⟩ := hmark
    obtain ⟨h1, h2, h3⟩ := hend hk.iso hk.toFrozen ht
    have hw : (s.after c cut fuel).world = { w' with cut := none } := by
      unfold Sys.after
      rw [e]
    have hi : Iso (s.after c cut fuel).ended F { w' with cut := none } := by
      unfold Sys.after
      dsimp only
      split
      · exact h3
      · exact h3.give_up _
      · exact h3
    exact ⟨F, h.next h0 hstep (hw ▸ h1) (hw ▸ h2) Sys.subset_ended hx (hw ▸ hi) fun _ => .inl⟩
  · push Not at hp
    obtain ⟨t, order, rfl⟩ := hp
    have hm : ∀ b, Live { s.world with cut := cut } s.ended b →
        Marked { s.world with cut := cut } b :=
      fun b hb => h.marked b ⟨hb.alloc, hb.opened, hb.writable, hb.alive⟩
    obtain ⟨hk, hq⟩ := hc.iso.publish_retires fuel order (t := t) ha hm
    have hrun : (Call.publish t order).run fuel =
      (Tx.publish fuel t order >>= fun err => pure err.isSome) := rfl
    rcases e : Tx.publish fuel t order { s.world with cut := cut } with ⟨o, w'⟩
    rw [e] at hk hq
    have hw : (s.after (.publish t order) cut fuel).world = { w' with cut := none } := by
      unfold Sys.after
      simp only [hrun, bind_apply, e]
      rcases o with _ | _ | _ <;> rfl
    by_cases hrefused : ∃ err, o = .ok (some err)
    · obtain ⟨err, rfl⟩ := hrefused
      obtain rfl : w' = _ := hq _ rfl err rfl
      obtain ⟨h1, h2, h3⟩ := hend hc.iso (.refl F _) (.refl none _)
      have hended : (s.after (.publish t order) cut fuel).ended = s.ended := by
        unfold Sys.after
        simp only [hrun, bind_apply, e]
        rfl
      refine ⟨F,
        h.next h0 hstep (hw ▸ h1) (hw ▸ h2) Sys.subset_ended (fun t ht => ?_) (hw ▸ hended ▸ h3)
        fun _ => .inl⟩
      cases ht
    · obtain ⟨hf, ht, G, -, hi, hG⟩ := hk
      obtain ⟨h1, h2, h3⟩ := hend hi hf ht
      have hended : (s.after (.publish t order) cut fuel).ended = insert t s.ended := by
        unfold Sys.after
        simp only [hrun, bind_apply, e]
        rcases o with (_ | err) | _ | _
        · rfl
        · exact absurd ⟨err, rfl⟩ hrefused
        · rfl
        · rfl
      refine ⟨G, h.next h0 hstep (hw ▸ h1) (hw ▸ h2) Sys.subset_ended (fun t' ht' => ?_)
        (hw ▸ hended ▸ h3) fun n hn => (hG n hn).imp_right fun hnew => ?_⟩
      · cases ht'
        exact hended ▸ Finset.mem_insert_self t _
      · obtain ⟨hno, st, hst, hr⟩ := hnew
        rw [hw]
        exact ⟨hno, st, hst, Reaches.congr (w := w') (fun _ => rfl) hr⟩

lemma Steps.clean {rt : Runtime} {readOnly : Bool} (h : Steps (Sys.init rt readOnly) s) :
    ∃ F, Clean (Sys.init rt readOnly) s F := by
  induction h with
  | refl =>
    exact ⟨∅, iso_init rt readOnly, nofun, nofun, fun b hb => absurd hb.alloc (Nat.not_lt_zero b)⟩
  | tail h0 hstep ih =>
    obtain ⟨F, hF⟩ := ih
    exact hstep.clean hF h0

lemma Steps.noContext {rt : Runtime} {readOnly : Bool} (h : Steps (Sys.init rt readOnly) s)
    (st : DbState) (n : NodeId) (hst : s.world.db.state = some st) (hn : Reaches s.world st n) :
    NoContext s.world n := by
  obtain ⟨F, hF⟩ := h.clean
  exact hF.clear n (hF.iso.reaches (hF.iso.state st hst) hn)

/-- A commit that returns is a store, unless it is refused, and a close. -/
lemma Steps.commit {s0 : Sys} {order : Tx.Order} {err : Option Err} (h : Steps s0 s)
    (ht : t ∉ s.ended) (e : Tx.commit fuel t order { s.world with cut := none } = (.ok err, w')) :
    ∃ s', Steps s0 s' ∧ s'.world = { w' with cut := none } := by
  have hpub : Step s (s.after (.publish t order) none fuel) := .call _ none fuel ht
  rw [Tx.commit_eq] at e
  obtain ⟨o, w1, e1, e2⟩ := Prog.bind_eq_ok e
  have hrun : (Call.publish t order).run fuel =
    (Tx.publish fuel t order >>= fun err => pure err.isSome) := rfl
  have hw1 : (s.after (.publish t order) none fuel).world = { w1 with cut := none } := by
    unfold Sys.after
    simp only [hrun, bind_apply, e1]
    rfl
  cases o with
  | some err =>
    cases e2
    exact ⟨_, h.tail hpub, hw1⟩
  | none =>
    obtain ⟨a, w2, e3, e4⟩ := Prog.bind_eq_ok e2
    cases e4
    refine ⟨_, (h.tail hpub).tail (.call (.close t) w1.cut fuel trivial), ?_⟩
    have hclose : (Call.close t).run fuel = (Tx.close t >>= fun _ => pure true) := rfl
    have hcut : { (s.after (.publish t order) none fuel).world with cut := w1.cut } =
        w1 := by rw [hw1]
    rw [Sys.after, hcut, hclose, bind_apply, e3]
    rfl

/-- Published trees carry no transaction context. In every state of every run, so also after every
commit that returns, the nodes of the trees of the published state point to no handle and to no
parent. For when a commit has rebalanced and spilled its buckets and is about to detach their nodes,
every node under the root of a handle is in its dirty set or was in a tree of a published state. -/
theorem published_trees_have_no_context {rt : Runtime} {readOnly : Bool}
    (h : Steps (Sys.init rt readOnly) s) :
    (∀ st, s.world.db.state = some st → ∀ n, Reaches s.world st n → NoContext s.world n) ∧
    ∀ t order fuel, t ∉ s.ended →
      (∀ err w', Tx.commit fuel t order { s.world with cut := none } = (.ok err, w') →
        ∀ st, w'.db.state = some st → ∀ n, Reaches w' st n → NoContext w' n) ∧
      ∀ w', (s.world.txs t).db = true → (s.world.txs t).writable = true →
        (do Tx.rebalanceAll fuel t order.rebalance
            Tx.spillAll fuel t order.spill) { s.world with cut := none } = (.ok (), w') →
        ∀ name b r, (w'.txs t).bctx.lookup name = some b → (w'.buckets b).rootNode = some r →
          ∀ n, ReflTransGen (Points w') r n →
            n ∈ (w'.buckets b).dirty ∨ WasPublished (Sys.init rt readOnly) s n := by
  refine ⟨fun st hst n hn => h.noContext st n hst hn, fun t order fuel ht =>
    ⟨fun err w' e st hst n hn => ?_, fun w' ho hw e name b r hb hr n hn => ?_⟩⟩
  · obtain ⟨s', h', hw'⟩ := h.commit ht e
    have hno := h'.noContext st n (by rw [hw']; exact hst)
      (by rw [hw']; exact Reaches.congr (w := w') (fun _ => rfl) hn)
    rw [hw'] at hno
    exact hno
  · obtain ⟨F, hF⟩ := h.clean
    have hi := (hF.iso.setCut none).iso
    have hphases := (hi.phases fuel order ho hw ht).2 ()
    rw [e] at hphases
    obtain ⟨hp, hmarks, -⟩ := hphases rfl
    have hl : Live w' s.ended b :=
      hp.iso.live_bctx (by rw [hp.txs]; exact ho) (by rw [hp.txs]; exact hw) ht hb
    have hmarked : Marked w' b := hi.marked hp.toFrozen hmarks subset_rfl nofun
      (fun b hb => hF.marked b ⟨hb.alloc, hb.opened, hb.writable, hb.alive⟩) b hl
    -- from the root on, a node is one of the handle or was published
    have hreach : Own w' b n ∨ n ∈ F := by
      induction hn with
      | refl => exact .inl ((hp.iso.handle b hl).root r hr)
      | tail _ hc ih =>
        obtain ⟨i, hi, hc⟩ := hc
        rcases ih with ho | hF
        · exact (hp.iso.handle b hl).kids _ ⟨_, ho, rfl⟩ i (List.mem_of_mem_take hi) _ hc
        · exact .inr (hp.iso.kids _ hF i hi _ hc)
    rcases hreach with ho | hn
    · exact .inl (hmarked n ho)
    · exact .inr (hF.published n hn)

end

/-- The leaf that the first transaction has put a pair into is dirty when its bucket was spilled,
and has no context when it was stored. -/
theorem published_trees_have_no_context_firstCommit :
    (firstPut.world.nodes 0).bucket = some 0 ∧
      (∀ w', (do Tx.rebalanceAll 4 0 [([1], [0])]
                 Tx.spillAll 4 0 [[1]]) { firstPut.world with cut := none } = (.ok (), w') →
        ∀ b r, (w'.txs 0).bctx.lookup [1] = some b → (w'.buckets b).rootNode = some r →
          r ∈ (w'.buckets b).dirty ∨ WasPublished (Sys.init default false) firstPut r) ∧
      NoContext firstCommit.world 0 := by
  obtain ⟨st, hst, hroot⟩ := rootOf_firstCommit
  refine ⟨by decide, fun w' e b r hb hr => ?_,
    (published_trees_have_no_context steps_firstCommit).1 st hst 0 (reaches_rootOf 0 hroot)⟩
  exact ((published_trees_have_no_context steps_firstPut).2 0 ⟨[([1], [0])], [[1]], [[1]]⟩ 4
    notMem_ended_firstPut).2 w' (by decide)
    (by decide) e [1] b r hb hr r .refl

end Vmbolt
