import Vmbolt.Updates.Transaction

/-!
# Updates refine a map of maps

A run of `DB.Update` calls on a new database, next to the same calls on a map from names to maps. An
update whose function fails is rolled back, and the model forgets what it has done. The run and the
model agree as long as no update deletes a committed bucket twice and no commit meets a tree on
which one of the two tests of `CommitFits` fails.
-/

namespace Vmbolt
open Filter Prog

/-- A call of `DB.Update`: what its function does, and the orders in which the commit ranges over
its maps. -/
structure Update where
  ops : List TxOp
  order : World → Tx.Order

namespace Update

/-- Perform the update. -/
def run (fuel : Nat) (u : Update) : Go (Option Err) :=
  DB.update fuel u.order fun t => TxOp.runAll fuel t u.ops

/-- Perform updates one after the other. -/
def runAll (fuel : Nat) : List Update → Go (List (Option Err))
  | [] => pure []
  | u :: us => do
    let e ← u.run fuel
    let es ← runAll fuel us
    pure (e :: es)

/-- The update on the model: what it returns, and the maps afterwards. -/
def apply (M : Maps) (u : Update) : Option Err × Maps :=
  match TxOp.applyAll M u.ops with
  | .error e => (some e, M)
  | .ok M' => (none, M')

/-- The updates on the model. -/
def applyAll (M : Maps) : List Update → List (Option Err) × Maps
  | [] => ([], M)
  | u :: us => ((u.apply M).1 :: (applyAll (u.apply M).2 us).1, (applyAll (u.apply M).2 us).2)

/-- The update deletes no committed bucket twice, and its commit passes both tests. -/
def Admissible (u : Update) (w : World) : Prop :=
  ∀ st, w.db.state = some st → (∀ name ∈ st.buckets, u.ops.count (.deleteBucket name) ≤ 1) ∧
    ∀ w1, Evals (fun k => TxOp.runAll k w.nextTx u.ops) (w.beginManaged st) none w1 →
      CommitFits (w1.setManaged w.nextTx false) w.nextTx (u.order (w1.setManaged w.nextTx false))

/-- Every update of the run is admissible where it begins. -/
def AdmissibleRun : List Update → World → Prop
  | [], _ => True
  | u :: us, w => u.Admissible w ∧ ∀ e w', Evals (fun k => u.run k) w e w' → AdmissibleRun us w'

end Update

section
variable {w w' w0 w1 : World} {dead : Finset TxId} {F : Set NodeId} {t : TxId} {st st' : DbState}
  {V N M : Maps} {u : Update}

/-! ## Updates -/

/-- The database holds the maps and lets a write transaction begin. -/
def DbHolds (w : World) (M : Maps) : Prop := ∃ F st, Free ∅ F w st ∧ Publishes w st M

/-- A write transaction that begins. -/
lemma Free.begins (h : Free dead F w st) (hp : Publishes w st V) :
    Editing dead F (w.beginRW st) st V (w.beginRW st) w.nextTx .empty V := by
  obtain ⟨h1, k1⟩ := h.begin (P := fun _ m w b => Holds w b m)
  have htx : (w.beginRW st).txs w.nextTx = Tx.opened true st := by simp
  refine ⟨h1, rfl, by rw [htx]; rfl, hp.frozen h.iso (h.iso.state st h.state) le_rfl k1.toFrozen,
    fun n hn => ?_, fun n hn => ?_, fun n hn => ?_, fun n m hm => ?_, fun n _ => ?_⟩
  · simp at hn
  · rw [htx] at hn
    simp [Tx.opened, Tx.zero] at hn
  · simp at hn
  · simp at hm
  · rw [htx]
    simp [Tx.opened, Tx.zero]

/-- A write of `tx.managed` changes nothing that the model shows. -/
lemma Editing.setManaged (h : Editing dead F w0 st V w t N M) (x : Bool) :
    Editing dead F w0 st V (w.setManaged t x) t N M := by
  obtain ⟨h2, k2⟩ := h.toHandles.setManaged (fun _ m => Holds.local m) x
  refine ⟨h2, h.db, ?_, h.published.frozen h.iso (h.iso.base t st h.base) le_rfl k2.toFrozen,
    ?_, ?_, ?_, h.handled, ?_⟩ <;> rw [World.setManaged_txs_self]
  · exact h.base
  · exact h.kept
  · exact h.created
  · exact h.known
  · exact h.unhandled

/-- The transaction of an update, where its function starts. -/
lemma Free.editing (h : Free dead F w st) (hp : Publishes w st V) :
    Editing dead F (w.beginRW st) st V (w.beginManaged st) w.nextTx .empty V :=
  (h.begins hp).setManaged true

lemma Editing.locked (h : Editing dead F (w.beginRW st) st V w1 t N M) : w1.db.rwlock = true := by
  rw [h.db]
  rfl

/-- A transaction that is rolled back. -/
lemma Editing.rolledBack (h : Editing ∅ F (w.beginRW st) st V w1 t N M) (hfree : Free ∅ F w st) :
    DbHolds (w1.closeTx t) V := by
  have hclose : Tx.close t w1 = (.ok (), w1.closeTx t) :=
    close_eq h.sound.cut h.opened fun _ => h.locked
  have hk : Keeps ∅ F w1 (w1.closeTx t) := by
    have := (h.iso.close (t := t)).1
    rwa [hclose] at this
  have hdb : (w1.closeTx t).db = w.db := by
    unfold World.closeTx
    dsimp only
    rw [h.writable, Bool.not_true, Bool.and_false]
    change { w1.db with rwlock := false } = w.db
    rw [h.db]
    change { w.db with rwlock := false } = w.db
    rw [← hfree.unlocked]
  refine ⟨F, st, ⟨⟨h.sound.cut, h.sound.arr_lt, h.sound.len_le⟩, hk.iso, Finset.notMem_empty _,
    by rw [hdb]; exact hfree.writable, by rw [hdb]; exact hfree.unlocked, by
    rw [hdb]; exact hfree.opened, by rw [hdb]; exact hfree.state⟩, ?_⟩
  exact h.published.frozen h.iso (h.iso.base t st h.base) le_rfl hk.toFrozen

/-- What a commit publishes is what the transaction has come to. -/
lemma Editing.publishes (h : Editing dead F w0 st V w t N M)
    (hc : Commits dead F w t (fun name => (N.get name).getD .empty) st' w') :
    Publishes w' st' M := by
  have hp := h.published.frozen h.iso (h.iso.base t st h.base) hc.nextNode hc.frozen
  have hkept : ∀ {name}, N.get name = none → st'.buckets.lookup name =
      if name ∈ (w.txs t).deleted then none else st.buckets.lookup name := fun hN => by
    rw [hc.kept _ (h.lookup_eq_none hN), lookup_keptBuckets_eq h.base]
  refine ⟨fun name m hm => ?_, fun name hm => ?_⟩
  · rcases hN : N.get name with _ | m'
    · rw [h.unhandled name hN] at hm
      rw [hkept hN]
      split at hm
      · cases hm
      next hd =>
        rw [if_neg hd]
        exact hp.present name m hm
    · have hmm := h.handled name m' hN
      rw [hm] at hmm
      cases hmm
      obtain ⟨b, hb⟩ := Option.isSome_iff_exists.1 (h.total name m hN)
      obtain ⟨bs, h1, h2⟩ := hc.handle name b hb (h.kept name (by rw [hN]; rfl))
      rw [hN] at h2
      exact ⟨bs, h1, h2⟩
  · rcases hN : N.get name with _ | m'
    · rw [h.unhandled name hN] at hm
      rw [hkept hN]
      split at hm
      next hd => rw [if_pos hd]
      next hd =>
        rw [if_neg hd]
        exact hp.absent name hm
    · rw [h.handled name m' hN] at hm
      cases hm

/-- A transaction that commits. -/
lemma Editing.committed (h : Editing ∅ F (w.beginRW st) st V w1 t N M) (hfree : Free ∅ F w st)
    (hc : Commits ∅ F w1 t (fun name => (N.get name).getD .empty) st' w') : DbHolds w' M := by
  obtain ⟨F', -, hi⟩ := hc.iso
  have hdb : w'.db = { w.db with state := some st', rwlock := false } := by
    rw [hc.db, h.db]
    rfl
  refine ⟨F', st', ⟨hc.sound, hi, Finset.notMem_empty _, ?_, ?_, ?_, ?_⟩,
    h.publishes hc⟩ <;> rw [hdb]
  · exact hfree.writable
  · exact hfree.opened

/-- An update, next to the model. -/
lemma DbHolds.update (h : DbHolds w M) (hu : u.Admissible w) :
    ∃ w', Evals (fun k => u.run k) w (u.apply M).1 w' ∧ DbHolds w' (u.apply M).2 := by
  obtain ⟨F, st, hfree, hp⟩ := h
  obtain ⟨honce, hfit⟩ := hu st hfree.state
  have h0 := hfree.editing hp
  have hgone : ∀ name ∈ st.buckets, Gone (w.beginManaged st) w.nextTx name →
      TxOp.deleteBucket name ∉ u.ops := by
    intro name _ hg
    unfold Gone World.beginManaged at hg
    rw [World.setManaged_txs_self, World.beginRW_txs_self] at hg
    simp [Tx.opened, Tx.zero] at hg
  obtain ⟨e, w1, ev, hend⟩ := h0.runAll u.ops hgone honce
  have hstart : ∀ k, u.run k w = DB.managed w.nextTx (fun t => TxOp.runAll k t u.ops) (do
      let o ← Prog.read u.order
      Tx.commit k w.nextTx o) (w.beginRW st) := fun k =>
    update_eq hfree.sound.cut hfree.writable hfree.unlocked hfree.opened hfree.state
  unfold Update.apply
  rcases hap : TxOp.applyAll M u.ops with err | M1
  · rw [hap] at hend
    obtain ⟨rfl, N, M', h1⟩ := hend
    refine ⟨_, ev.mono fun k hk => (hstart k).trans ?_, (h1.setManaged false).rolledBack hfree⟩
    exact managed_eq_error (f := fun t => TxOp.runAll k t u.ops) hfree.sound.cut hk
      h1.sound.cut h1.opened fun _ => h1.locked
  · rw [hap] at hend
    obtain ⟨rfl, N, h1⟩ := hend
    have h2 := h1.setManaged false
    obtain ⟨st', w', ec, hc⟩ := h2.toHandles.commit_fits (by simp) h1.locked (hfit w1 ev)
    refine ⟨w', ?_, ?_⟩
    · filter_upwards [ev, ec] with k hk1 hk2
      refine (hstart k).trans ?_
      exact managed_eq_ok hfree.sound.cut hk1 h1.sound.cut hk2 hc.closed
    · exact h2.committed hfree hc

/-- A run of updates, next to the model. -/
lemma DbHolds.updates (h : DbHolds w M) (us : List Update) (hus : Update.AdmissibleRun us w) :
    ∃ w', Evals (fun k => Update.runAll k us) w (Update.applyAll M us).1 w' ∧
      DbHolds w' (Update.applyAll M us).2 := by
  induction us generalizing w M with
  | nil => exact ⟨w, .pure, h⟩
  | cons u us ih =>
    obtain ⟨w1, e1, h1⟩ := h.update hus.1
    obtain ⟨w2, e2, h2⟩ := ih h1 (hus.2 _ w1 e1)
    exact ⟨w2, e1.bind (e2.bind .pure), h2⟩

/-- A reader that begins now sees the maps. -/
lemma DbHolds.readsAs (h : DbHolds w M) : ReadsAs w M := by
  obtain ⟨F, st, hfree, hp⟩ := h
  obtain ⟨e, -, ha⟩ := hp.reader hfree.sound hfree.opened hfree.state
  exact ⟨_, _, e, ha⟩

lemma dbHolds_init (rt : Runtime) : DbHolds (World.init rt false) .empty := by
  refine ⟨∅, ⟨∅⟩,
    ⟨⟨rfl, fun n hn => absurd hn (Nat.not_lt_zero n), fun n hn => absurd hn (Nat.not_lt_zero n)⟩,
    iso_init rt false, Finset.notMem_empty _, rfl, rfl, rfl, rfl⟩, fun name m hm => ?_,
    fun name _ => rfl⟩
  simp at hm

/-- A run of updates on a new database returns what the model returns, and a reader that begins
after it sees the maps of the model, if every update is admissible where it begins. -/
theorem updates_refine_maps (rt : Runtime) (us : List Update)
    (h : Update.AdmissibleRun us (World.init rt false)) :
    ∃ w, Evals (fun k => Update.runAll k us) (World.init rt false) (Update.applyAll .empty us).1 w ∧
      ReadsAs w (Update.applyAll .empty us).2 := by
  obtain ⟨w, e, hw⟩ := (dbHolds_init rt).updates us h
  exact ⟨w, e, hw.readsAs⟩

/-! ## A first update -/

lemma TxOp.runAll_growing (t : TxId) (ops : List TxOp) : Growing fun k => TxOp.runAll k t ops := by
  intro k
  induction ops with
  | nil => exact .refl _
  | cons op ops ih =>
    have hop : Below (op.run k t) (op.run (k + 1) t) := by
      cases op with
      | write name op =>
        refine (Below.refl _).bind fun b => ?_
        cases b with
        | none => exact .refl _
        | some b => exact op.run_growing b k
      | _ => exact .refl _
    refine hop.bind fun e => ?_
    cases e with
    | none => exact ih
    | some e => exact .refl _

lemma rebalanceAll_growing (t : TxId) (order : List (Name × List NodeId)) :
    Growing fun k => Tx.rebalanceAll k t order := by
  refine fun k => .each (fun o => (Below.refl _).bind fun tx => ?_) order
  cases tx.bctx.lookup o.1 with
  | none => exact .refl _
  | some b => exact rebalance_growing b o.2 k

/-- A bucket is created, and one of two keys is deleted again. -/
def firstUpdate : Update where
  ops := [.createBucket [1], .write [1] (.put [2] (some [3])), .write [1] (.put [4] none),
    .write [1] (.delete [2])]
  order _ := ⟨[([1], [0])], [[1]], [[1]]⟩

/-- The state in which it commits. -/
@[irreducible] def firstEdited : World :=
  (TxOp.runAll 10 0 firstUpdate.ops ((World.init default false).beginManaged ⟨∅⟩)).2

/-- The state in which its commit has rebalanced the bucket. -/
@[irreducible] def firstRebalanced : World :=
  (Tx.rebalanceAll 10 0 [([1], [0])] (firstEdited.setManaged 0 false)).2

lemma firstEdited_evals : Evals (fun k => TxOp.runAll k 0 firstUpdate.ops)
    ((World.init default false).beginManaged ⟨∅⟩) none firstEdited := by
  have hrun : (TxOp.runAll 10 0 firstUpdate.ops ((World.init default false).beginManaged ⟨∅⟩)).1 =
      .ok none := by
    decide +kernel
  unfold firstEdited
  exact (TxOp.runAll_growing 0 _).evals_of_fst hrun

lemma firstRebalanced_evals : Evals (fun k => Tx.rebalanceAll k 0 [([1], [0])])
    (firstEdited.setManaged 0 false) () firstRebalanced := by
  have hrun : (Tx.rebalanceAll 10 0 [([1], [0])] (firstEdited.setManaged 0 false)).1 = .ok () := by
    decide +kernel
  unfold firstRebalanced
  exact (rebalanceAll_growing 0 _).evals_of_fst hrun

lemma firstUpdate_admissible : firstUpdate.Admissible (World.init default false) := by
  rintro st ⟨⟩
  refine ⟨fun name hn => absurd hn (AList.notMem_empty name), fun w1 e => ?_⟩
  obtain ⟨-, rfl⟩ := e.unique firstEdited_evals
  -- the bucket is a single leaf
  refine CommitFits.one (b := 0) (by decide +kernel) (by decide +kernel) (List.nodup_singleton 0)
    (by decide +kernel) (.cons (k := 10) (by decide +kernel) (by decide +kernel) trivial)
    fun w2 e2 g r H hr ht => ?_
  obtain ⟨-, rfl⟩ := e2.unique firstRebalanced_evals
  have hroot : Bucket.rootView firstRebalanced 0 = some 0 := by decide +kernel
  obtain rfl : 0 = r := Option.some.inj (hroot.symm.trans hr)
  obtain rfl := ht.height_zero (by decide +kernel)
  rfl

theorem updates_refine_maps_first : ∃ w V m,
    Evals (fun k => Update.runAll k [firstUpdate]) (World.init default false) [none] w ∧
      ReadsAs w V ∧
      V.get [1] = some m ∧ m.entries = [([4], [])] := by
  obtain ⟨w, e, h⟩ :=
    updates_refine_maps default [firstUpdate] ⟨firstUpdate_admissible, fun _ _ _ => trivial⟩
  exact ⟨w, _, _, e, h, rfl, rfl⟩

end

end Vmbolt
