import Vmbolt.Isolation.Commit
import Vmbolt.Isolation.Reads

/-!
# Snapshot isolation

A run is a sequence of calls of any number of transactions. A call may be cut off in front of any of
its heap writes, which leaves the heap as it is at that moment of the call: so a property of every
state of every run is a property of every moment. A transaction in which a call was cut off, or
whose state was stored, has ended; it can only be closed. `Commit` is two calls, `publish` and
`close`, as a reader may come in between.
-/

namespace Vmbolt
open Prog Relation

/-- The calls of the engine that change its state. -/
inductive Call where
  | begin_ (writable : Bool)
  | bucket (t : TxId) (name : Name)
  | createBucket (t : TxId) (name : Name)
  | createBucketIfNotExists (t : TxId) (name : Name)
  | deleteBucket (t : TxId) (name : Name)
  | put (b : BucketId) (key : Bytes) (value : Option Bytes)
  | delete (b : BucketId) (key : Bytes)
  | cursorDelete (c : Cursor)
  | setFillPercent (b : BucketId) (f : Float64)
  | publish (t : TxId) (order : Tx.Order)
  | close (t : TxId)
  | rollback (t : TxId)

/-- The transactions together with the set of those that have ended. -/
structure Sys where
  world : World
  ended : Finset TxId

namespace Call

/-- The transaction a call belongs to. -/
def tx (w : World) : Call → Option TxId
  | begin_ _ => none
  | bucket t _ | createBucket t _ | createBucketIfNotExists t _ | deleteBucket t _ => some t
  | put b _ _ | delete b _ | setFillPercent b _ => some (w.buckets b).tx
  | cursorDelete c => c.bucket.map fun b => (w.buckets b).tx
  | publish t _ | close t | rollback t => some t

/-- Run a call; the answer says whether its transaction goes on. -/
def run (fuel : Nat) : Call → Go Bool
  | begin_ writable => do let _ ← DB.begin_ writable; pure true
  | bucket t name => do let _ ← Tx.bucket t name; pure true
  | createBucket t name => do let _ ← Tx.createBucket t name; pure true
  | createBucketIfNotExists t name => do let _ ← Tx.createBucketIfNotExists t name; pure true
  | deleteBucket t name => do let _ ← Tx.deleteBucket t name; pure true
  | put b key value => do let _ ← Bucket.put fuel b key value; pure true
  | delete b key => do let _ ← Bucket.delete fuel b key; pure true
  | cursorDelete c => do let _ ← Cursor.delete c; pure true
  | setFillPercent b f => do Bucket.setFillPercent b f; pure true
  | publish t order => do let err ← Tx.publish fuel t order; pure err.isSome
  | close t => do Tx.close t; pure true
  | rollback t => do let _ ← Tx.Rollback t; pure true

/-- The handle was handed out, and its transaction has not ended. -/
def HandleIn (s : Sys) (b : BucketId) : Prop :=
  b < s.world.nextBucket ∧ (s.world.buckets b).tx ∉ s.ended

/-- The calls that can be made: an ended transaction can only be closed. -/
def Admissible (s : Sys) : Call → Prop
  | begin_ _ | close _ | rollback _ => True
  | bucket t _ | createBucket t _ | createBucketIfNotExists t _ | deleteBucket t _ | publish t _ =>
    t ∉ s.ended
  | put b _ _ | delete b _ => HandleIn s b
  | setFillPercent b _ => Live s.world s.ended b
  | cursorDelete c => ∀ b, c.bucket = some b → HandleIn s b

end Call

namespace Sys

/-- The state after `Open`. -/
def init (rt : Runtime) (readOnly : Bool) : Sys := ⟨World.init rt readOnly, ∅⟩

/-- The state after a call that is cut off in front of write number `cut`. -/
def after (s : Sys) (c : Call) (cut : Option Nat) (fuel : Nat) : Sys :=
  let r := c.run fuel { s.world with cut := cut }
  { world := { r.2 with cut := none }
    ended := match r.1, c.tx s.world with
      | .ok true, _ => s.ended
      | _, some t => insert t s.ended
      | _, none => s.ended }

end Sys

/-- One call, cut off or not. -/
inductive Step (s : Sys) : Sys → Prop
  | call (c : Call) (cut : Option Nat) (fuel : Nat) : c.Admissible s → Step s (s.after c cut fuel)

/-- Any number of calls. -/
def Steps : Sys → Sys → Prop := ReflTransGen Step

/-- The nodes of the trees of a published state. -/
inductive Reaches (w : World) (st : DbState) : NodeId → Prop
  | root {name : Name} {bs : BucketState} {r : NodeId} :
    st.buckets.lookup name = some (some bs) → bs.root = some r → Reaches w st r
  | child {n c : NodeId} {i : Inode} :
    Reaches w st n → i ∈ w.inodes n → i.child = some c → Reaches w st c

section
variable {s s' : Sys} {F : Set NodeId} {st : DbState} {n : NodeId} {t : TxId} {b : BucketId}
  {fuel : Nat} {c : Call}

/-! ## One call -/

/-- Every call but a store keeps the published nodes. -/
lemma Call.stays {w : World} (fuel : Nat) (h : Iso s.ended F w)
    (hw : ∃ cut, w = { s.world with cut := cut }) (ha : c.Admissible s)
    (hc : ∀ t order, c ≠ .publish t order) :
    Stays (Keeps s.ended F) w (c.run fuel) fun _ _ => True := by
  obtain ⟨cut, rfl⟩ := hw
  have done : ∀ {α : Type} {m : Go α}, Stays (Keeps s.ended F) { s.world with cut := cut } m
      (fun _ _ => True) → Stays (Keeps s.ended F) { s.world with cut := cut }
        (m >>= fun _ => pure true) fun _ _ => True := fun hm =>
    hm.bind fun _ v hv _ => .pure hv.iso.refl trivial
  cases c with
  | begin_ writable => exact done (h.begin writable)
  | bucket t name => exact done h.bucket
  | createBucket t name => exact done (h.createBucket ha)
  | createBucketIfNotExists t name => exact done (h.createBucketIfNotExists ha)
  | deleteBucket t name => exact done h.deleteBucket
  | put b key value => exact done (h.call handleCall_put ha.1 ha.2)
  | delete b key => exact done (h.call handleCall_delete ha.1 ha.2)
  | cursorDelete c =>
    rcases e : c.bucket with _ | b
    · exact done (by rw [cursorDelete_none e]; exact .pure h.refl trivial)
    · exact done (h.call (handleCall_cursorDelete e) (ha b e).1 (ha b e).2)
  | setFillPercent b f =>
    have hl : Live { s.world with cut := cut } s.ended b :=
      ⟨ha.alloc, ha.opened, ha.writable, ha.alive⟩
    exact done (h.stays hl (stays_setFillPercent (h.within hl)))
  | publish t order => exact absurd rfl (hc t order)
  | close t => exact done h.close
  | rollback t => exact done h.rollback

/-- A call keeps the published nodes and the invariant, perhaps for a larger set of nodes. -/
lemma Step.frozen (h : Iso s.ended F s.world) (hs : Step s s') :
    Frozen F s.world s'.world ∧ ∃ F', F ⊆ F' ∧ Iso s'.ended F' s'.world := by
  obtain ⟨c, cut, fuel, ha⟩ := hs
  have hc := h.setCut cut
  have hend : ∀ {w : World} {F' : Set NodeId} {ended : Finset TxId}, Iso ended F' w →
      Frozen F { s.world with cut := cut } w →
      Frozen F s.world { w with cut := none } ∧ Iso ended F' { w with cut := none } := by
    intro w F' ended hi hf
    exact ⟨(hc.toFrozen.trans hf).trans
      ⟨fun _ _ => rfl, fun _ _ => rfl, le_rfl, fun _ _ => .of_eq rfl⟩, (hi.setCut none).iso⟩
  by_cases hp : ∀ t order, c ≠ .publish t order
  · obtain ⟨hk, -⟩ := Call.stays fuel hc.iso ⟨cut, rfl⟩ ha hp
    obtain ⟨h1, h2⟩ := hend hk.iso hk.toFrozen
    refine ⟨h1, F, subset_rfl, ?_⟩
    unfold Sys.after
    dsimp only
    split
    · exact h2
    · exact h2.give_up _
    · exact h2
  · push Not at hp
    obtain ⟨t, order, rfl⟩ := hp
    obtain ⟨hk, hq⟩ := hc.iso.publish fuel order (t := t) ha
    have hrun : (Call.publish t order).run fuel =
      (Tx.publish fuel t order >>= fun err => pure err.isSome) := rfl
    rcases e : Tx.publish fuel t order { s.world with cut := cut } with ⟨o, w'⟩
    rw [e] at hk hq
    unfold Sys.after
    simp only [hrun, bind_apply, e]
    obtain ⟨hf, F', hF, hi⟩ := hk
    obtain ⟨h1, h2⟩ := hend hi hf
    cases o with
    | ok err =>
      cases err with
      | none => exact ⟨h1, F', hF, h2⟩
      | some err =>
        obtain rfl : w' = _ := hq _ rfl err rfl
        exact ⟨h1, F, subset_rfl, (hc.iso.setCut none).iso⟩
    | panic e => exact ⟨h1, F', hF, h2⟩
    | hang => exact ⟨h1, F', hF, h2⟩

/-! ## Whole runs -/

lemma Steps.frozen (h : Iso s.ended F s.world) (hs : Steps s s') :
    Frozen F s.world s'.world ∧ ∃ F', F ⊆ F' ∧ Iso s'.ended F' s'.world := by
  induction hs with
  | refl => exact ⟨.refl F _, F, subset_rfl, h⟩
  | tail _ hstep ih =>
    obtain ⟨hf, F', hF, hi⟩ := ih
    obtain ⟨hf', F'', hF', hi'⟩ := hstep.frozen hi
    exact ⟨hf.trans (hf'.mono hF), F'', hF.trans hF', hi'⟩

/-- A database that was just opened has published nothing. -/
lemma iso_init (rt : Runtime) (readOnly : Bool) :
    Iso (Sys.init rt readOnly).ended ∅ (Sys.init rt readOnly).world := by
  have hno : ∀ b, ¬ Live (World.init rt readOnly) ∅ b :=
    fun b hb => absurd hb.alloc (Nat.not_lt_zero b)
  refine ⟨fun n hn => absurd hn (Nat.not_lt_zero n), nofun, nofun, fun st hst => ?_, nofun,
    fun n b hn => absurd hn.1 (Nat.not_lt_zero n), nofun, fun b hb => absurd hb (Nat.not_lt_zero b),
    fun t name b hl => ?_, fun b hb => absurd hb (hno b), fun b _ _ hb => absurd hb (hno b),
    fun _ _ => ⟨rfl, rfl⟩, fun b hb => absurd hb (Nat.not_lt_zero b)⟩
  · cases hst
    intro name bs r hl
    simp at hl
  · simp [Sys.init, World.init, Tx.zero] at hl

lemma Iso.reaches {w : World} {ended : Finset TxId} (h : Iso ended F w) (hst : RootsIn F st)
    (hn : Reaches w st n) : n ∈ F := by
  induction hn with
  | root h1 h2 => exact hst _ _ _ h1 h2
  | child _ hi hc ih => exact h.kids _ ih _ hi _ hc

/-- Reads in which every node is read at a moment of its own after `s`. -/
def ReadAfter (s : Sys) (st : DbState) (v : World) : Prop :=
  ∀ n, Reaches s.world st n → ∃ s', Steps s s' ∧ (v.nodes n).isLeaf = (s'.world.nodes n).isLeaf ∧
    v.inodes n = s'.world.inodes n

/-- The trees of the published state are the same at every later moment. -/
lemma Steps.agree {rt : Runtime} {readOnly : Bool} (h : Steps (Sys.init rt readOnly) s)
    (hst : s.world.db.state = some st) {v : World} (hv : ReadAfter s st v) :
    Agree { n | Reaches s.world st n } s.world v := by
  obtain ⟨-, F, -, hi⟩ := h.frozen (iso_init rt readOnly)
  have hF : ∀ n, Reaches s.world st n → n ∈ F := fun n hn => hi.reaches (hi.state st hst) hn
  refine ⟨fun n hn => ?_, fun n hn => ?_, fun n hn i hm c hc => hn.child hm hc⟩ <;>
    obtain ⟨s', h', e1, e2⟩ := hv n hn <;> obtain ⟨hf, -⟩ := h'.frozen hi
  · rw [e1, hf.node n (hF n hn)]
  · rw [e2, hf.inodes n (hF n hn)]

lemma reaches_rootOf {w : World} {name : Name} : ∀ n ∈ st.rootOf name, Reaches w st n := by
  intro n hn
  obtain ⟨bs, hbs, hr⟩ := Option.bind_eq_some_iff.1 hn
  exact .root (Option.join_eq_some_iff.1 hbs) hr

/-- A read transaction that begins is based on the published state. -/
lemma begin_reader {w w0 : World} (h : DB.begin_ false w = (.ok (.ok t), w0)) :
    t < w0.nextTx ∧ (w0.txs t).writable = false ∧ (w0.txs t).base = w.db.state := by
  unfold DB.begin_ DB.beginTx at h
  rw [if_neg (by decide), Prog.read_bind] at h
  split at h
  · cases h
  rcases hbase : w.db.state with _ | base <;> rw [hbase] at h
  · cases h
  · simp only [DB.newTx, bind_assoc, pure_bind, Prog.read_bind] at h
    rw [bind_apply, write] at h
    rcases hc : w.cut with _ | _ | j <;> rw [hc] at h <;> cases h <;> simp [World.setTx, Tx.zero]

/-- At every later moment, an open read transaction shows the state it was begun on. -/
lemma reader_view {w0 : World} (hi : Iso s.ended F s.world) (hst : s.world.db.state = some st)
    (hb : DB.begin_ false { s.world with cut := none } = (.ok (.ok t), w0))
    (h' : Steps (s.after (.begin_ false) none fuel) s') (ho : (s'.world.txs t).db = true) :
    (s'.world.txs t).cursor = { bucket := none, stack := [], dirIdx := -1,
                                dir := st.buckets.keys.toFinset.sort } ∧
      ∀ b, b < s'.world.nextBucket → (s'.world.buckets b).tx = t →
        Bucket.rootView s'.world b = st.rootOf (s'.world.buckets b).name := by
  obtain ⟨hlt, hwr, hbase⟩ := begin_reader hb
  have hw0 : (s.after (.begin_ false) none fuel).world = { w0 with cut := none } := by
    have hrun : (Call.begin_ false).run fuel = (DB.begin_ false >>= fun _ => pure true) := rfl
    unfold Sys.after
    simp only [hrun, bind_apply, hb]
    rfl
  have hstep : Step s (s.after (.begin_ false) none fuel) := .call _ _ _ trivial
  obtain ⟨-, F1, -, hi1⟩ := hstep.frozen hi
  obtain ⟨hf, F2, -, hi2⟩ := h'.frozen hi1
  have hpin := hf.pinned t (by rw [hw0]; exact hlt)
  have hwr' : (s'.world.txs t).writable = false := by rw [hpin.writable, hw0]; exact hwr
  have hbase' : (s'.world.txs t).base = some st := by
    rw [(hpin.base ho).2, hw0]
    exact hbase.trans hst
  obtain ⟨hc, hd⟩ := hi2.reader t hwr'
  refine ⟨?_, fun b hlt hbt => ?_⟩
  · unfold Tx.cursor
    rw [if_neg (by simp [ho]), hc, hd]
    simp [Tx.baseNames, hbase']
  · unfold Bucket.rootView Bucket.baseState
    rw [hi2.reader_handle b hlt (by rw [hbt]; exact hwr'), hbt, hbase']
    unfold DbState.rootOf
    dsimp only
    rcases (st.buckets.lookup (s'.world.buckets b).name).join with _ | bs <;> rfl

/-- Snapshot isolation. Whatever is called after a state was published, and wherever a call is cut
off, the nodes of its trees keep their kind and their inodes. So reads of its trees answer the same
at every later moment, even if every node is read at a moment of its own, and a read transaction
answers from the state it was begun on as long as it is open. -/
theorem published_state_is_immutable {rt : Runtime} {readOnly : Bool}
    (h : Steps (Sys.init rt readOnly) s) (hst : s.world.db.state = some st) :
    (∀ s', Steps s s' → ∀ n, Reaches s.world st n →
      (s'.world.nodes n).isLeaf = (s.world.nodes n).isLeaf ∧
      s'.world.inodes n = s.world.inodes n) ∧
    (∀ v, ReadAfter s st v → ∀ fuel name,
      (∀ key, st.get fuel v name key = st.get fuel s.world name key) ∧
      ∀ op stack, StackIn { n | Reaches s.world st n } stack →
        Same (fun r => StackIn { n | Reaches s.world st n } r.2)
          (CursorOp.onTree fuel s.world (st.rootOf name) stack op)
          (CursorOp.onTree fuel v (st.rootOf name) stack op)) ∧
    ∀ t w0, DB.begin_ false { s.world with cut := none } = (.ok (.ok t), w0) →
      ∀ s', Steps (s.after (.begin_ false) none 0) s' → (s'.world.txs t).db = true →
        (s'.world.txs t).cursor = { bucket := none, stack := [], dirIdx := -1,
                                    dir := st.buckets.keys.toFinset.sort } ∧
        ∀ b, b < s'.world.nextBucket → (s'.world.buckets b).tx = t → ∀ fuel,
          (∀ key, Bucket.get fuel s'.world b key =
            st.get fuel s.world (s'.world.buckets b).name key) ∧
          ∀ (c : Cursor) (op : CursorOp), c.bucket = some b →
            StackIn { n | Reaches s.world st n } c.stack →
            op.run fuel s'.world c = (do
              let r ← op.onTree fuel s.world (st.rootOf (s'.world.buckets b).name) c.stack
              pure (r.1, { c with stack := r.2 })) := by
  refine ⟨fun s' h' n hn => ?_, fun v hv fuel name => ?_, fun t w0 hb s' h' ho => ?_⟩
  · have ha := h.agree hst (v := s'.world) fun n _ => ⟨s', h', rfl, rfl⟩
    exact ⟨ha.isLeaf n hn, ha.inodes n hn⟩
  · have ha := h.agree hst hv
    exact ⟨fun key => ha.get reaches_rootOf, fun op stack hs => ha.onTree reaches_rootOf hs op⟩
  · obtain ⟨-, F, -, hi⟩ := h.frozen (iso_init rt readOnly)
    obtain ⟨hcur, hroot⟩ := reader_view hi hst hb h' ho
    have h1 : Steps s s' := ReflTransGen.head (.call (.begin_ false) none 0 trivial) h'
    have ha := h.agree hst (v := s'.world) fun n _ => ⟨s', h1, rfl, rfl⟩
    refine ⟨hcur, fun b hlt hbt fuel => ⟨fun key => ?_, fun c op hc hs => ?_⟩⟩
    · rw [← ha.get reaches_rootOf]
      unfold Bucket.get DbState.get
      rw [hroot b hlt hbt]
    · rw [op.run_eq hc (by rw [hbt]; exact ho), hroot b hlt hbt, (ha.onTree reaches_rootOf hs op).1]

end

/-- A first transaction has put the pair `[7]`, `[8]` into a new bucket `[1]`. -/
def firstPut : Sys :=
  (((Sys.init default false).after (.begin_ true) none 0).after (.createBucket 0 [1]) none 0).after
    (.put 0 [7] (some [8])) none 3

/-- The first transaction has stored its state and is about to be closed. -/
def firstCommit : Sys := firstPut.after (.publish 0 ⟨[([1], [0])], [[1]], [[1]]⟩) none 4

lemma steps_firstPut : Steps (Sys.init default false) firstPut :=
  ((ReflTransGen.refl.tail (.call (.begin_ true) _ _ trivial)).tail
    (.call (.createBucket 0 [1]) _ _ (Finset.notMem_empty 0))).tail
    (.call (.put 0 [7] (some [8])) _ _ ⟨by decide, by decide⟩)

lemma notMem_ended_firstPut : 0 ∉ firstPut.ended := by decide

lemma steps_firstCommit : Steps (Sys.init default false) firstCommit :=
  steps_firstPut.tail (.call (.publish 0 _) _ _ notMem_ended_firstPut)

/-- The first transaction has committed the bucket `[1]` and is closed. -/
def firstClosed : Sys := firstCommit.after (.close 0) none 0

lemma steps_firstClosed : Steps (Sys.init default false) firstClosed :=
  steps_firstCommit.tail (.call (.close 0) _ _ trivial)

lemma rootOf_firstCommit : ∃ st, firstCommit.world.db.state = some st ∧ st.rootOf [1] = some 0 := by
  obtain ⟨st, hst⟩ := Option.isSome_iff_exists.1 (show firstCommit.world.db.state.isSome by decide)
  have : (firstCommit.world.db.state.map fun st => st.rootOf [1]) = some (some 0) := by decide
  rw [hst] at this
  exact ⟨st, hst, Option.some.inj this⟩

/-- The leaf that the first transaction has stored never changes again. -/
theorem published_state_is_immutable_firstCommit :
    ∃ st, firstCommit.world.db.state = some st ∧ st.rootOf [1] = some 0 ∧
      ∀ s', Steps firstCommit s' → (s'.world.nodes 0).isLeaf = true ∧
        s'.world.inodes 0 = [⟨[7], some [8], none⟩] := by
  obtain ⟨st, hst, hroot⟩ := rootOf_firstCommit
  refine ⟨st, hst, hroot, fun s' hs => ?_⟩
  obtain ⟨h1, h2⟩ :=
    (published_state_is_immutable steps_firstCommit hst).1 s' hs 0 (reaches_rootOf 0 hroot)
  exact ⟨h1.trans (by decide), h2.trans (by decide)⟩

end Vmbolt
