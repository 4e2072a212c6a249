import Vmbolt.Commit.Handles
import Vmbolt.Refinement.SpillTree
import Vmbolt.Snapshot.Format

/-!
# Restoring a snapshot

`DB.Restore` replays a snapshot in a write transaction. Every bucket it fills was created by the
same transaction, so its tree is one leaf until the commit, which can always cut it. Whatever the
bytes are, `DB.Restore` ends as `parseSnapshot` says: it publishes the maps of the records, or it
returns an error, or `make` panics. In the last two cases the transaction is rolled back.
-/

namespace Vmbolt
open Filter Prog

/-- The tree of the handle is one leaf that holds `m`, and nothing is flagged. -/
def SingleLeaf (m : SortedMap Bytes Bytes) (w : World) (b : BucketId) : Prop :=
  HoldsAt w b 0 m ∧ Unflagged w b

section
variable {w w' w1 : World} {b : BucketId} {dead : Finset TxId} {F : Set NodeId} {t : TxId}
  {name : Name}
  {m : SortedMap Bytes Bytes} {V : SortedMap Name (SortedMap Bytes Bytes)} {st : DbState}

/-- The fill percentage does not matter to what the handle holds. -/
lemma HoldsAt.setFillPercent {H : Nat} (h : HoldsAt w b H m) (hs : w.Sound) (f : Float64) :
    Bucket.setFillPercent b f w = (.ok (), w.setBucket b { w.buckets b with fillPercent := f }) ∧
      HoldsAt (w.setBucket b { w.buckets b with fillPercent := f }) b H m ∧
      ((w.setBucket b { w.buckets b with fillPercent := f }).buckets b).dirty =
        (w.buckets b).dirty ∧
      (w.setBucket b { w.buckets b with fillPercent := f }).Sound := by
  have hrun : Bucket.setFillPercent b f w =
      (.ok (), w.setBucket b { w.buckets b with fillPercent := f }) := by
    unfold Bucket.setFillPercent modifyBucket
    exact write_eq hs.cut
  set w' := w.setBucket b { w.buckets b with fillPercent := f } with hw'
  have hb : w'.buckets b = { w.buckets b with fillPercent := f } := by simp [hw', World.setBucket]
  have hroot : (w'.buckets b).rootNode = (w.buckets b).rootNode := by rw [hb]
  have hset : (w'.buckets b).dirty = (w.buckets b).dirty := by rw [hb]
  have hsound : w'.Sound := ⟨hs.cut, hs.arr_lt, hs.len_le⟩
  refine ⟨hrun, ?_, hset, hsound⟩
  rcases h with ⟨g, r, hh, hx, hm⟩ | ⟨g, r, hu, hm⟩
  · obtain ⟨h1, hc⟩ := hh.toHandleBut.congr hsound le_rfl hroot hset (fun _ _ => rfl)
      fun _ _ _ => ⟨rfl, rfl⟩
    refine .inl ⟨g, r, ⟨h1, fun n hn => hh.inTree n (hset ▸ hn)⟩, ?_, hc.trans hm⟩
    exact hx.same ⟨le_rfl, fun _ _ _ _ => rfl, fun _ _ _ _ => rfl, fun _ _ _ _ => rfl⟩
  · have hsb : SameBut g ∅ w w' :=
      ⟨le_rfl, fun _ _ _ _ => rfl, fun _ _ _ _ => rfl, fun _ _ _ _ => rfl⟩
    refine .inr ⟨g, r, ⟨hsound, hroot.trans hu.rootNode, hset.trans hu.dirty, ?_, hu.tree.same hsb⟩,
      (hu.tree.tree.contents_same hsb hu.tree.tree.lvl_root).trans hm⟩
    rw [← hu.base]
    unfold Bucket.baseState
    rw [hb]
    rfl

namespace SingleLeaf

lemma local' (m : SortedMap Bytes Bytes) : Local (SingleLeaf m) := fun hi hb hs h =>
  ⟨HoldsAt.local 0 m hi hb hs h.1, Unflagged.local hi hb hs h.2⟩

/-- A single leaf can always be spilled. -/
lemma ready (h : SingleLeaf m w b) : Ready m w b := by
  obtain ⟨⟨g, r, hh, -, hm⟩ | ⟨g, r, hu, hm⟩, hf⟩ := h
  · exact ⟨g, r, 0, hm, .inr ⟨hh.toHandleBut, fun n hn hnr => hh.leaf_ne hf hn hnr, rfl⟩⟩
  · exact ⟨g, r, 0, hm, .inl hu⟩

/-- There is nothing to rebalance. -/
lemma rebalance (h : SingleLeaf m w b) (hs : w.Sound) (order : List NodeId) :
    ∃ w', Evals (fun k => Bucket.rebalance k b order) w () w' ∧ w'.Sound ∧ Ready m w' b :=
  ⟨w, eventually_succ (eventually_ge_atTop 0) fun k _ => rebalance_unflagged h.2 k order,
    hs, h.ready⟩

lemma put (h : SingleLeaf m w b) (hw : Writable w b) {k : Bytes} {v : Option Bytes}
    (hr : (BucketOp.put k v).result = none) :
    ∃ w', Evals (fun fuel => Bucket.put fuel b k v) w none w' ∧
      SingleLeaf (m.insert k (v.getD [])) w' b ∧
      Quiet b w w' ∧ w'.Sound := by
  obtain ⟨hk, hkl, hv⟩ := put_result_eq_none.1 hr
  have hk' : k ≠ [] := by
    rintro rfl
    simp at hk
  obtain ⟨w', e, hh, hq, hn⟩ := h.1.put hw v hk' hkl hv
  refine ⟨w', e, ⟨hh, fun n hd => ?_⟩, hq, ?_⟩
  · by_contra hc
    obtain ⟨h1, h2⟩ := hn n hd (by simpa using hc)
    rw [h.2 n h1] at h2
    cases h2
  · rcases hh with ⟨g, r, hh, -⟩ | ⟨g, r, hu, -⟩
    · exact hh.sound
    · exact hu.sound

lemma setFillPercent (h : SingleLeaf m w b) (hs : w.Sound) (f : Float64) :
    ∃ w', Bucket.setFillPercent b f w = (.ok (), w') ∧ SingleLeaf m w' b ∧ w'.Sound := by
  obtain ⟨e, hh, hset, hs'⟩ := h.1.setFillPercent hs f
  exact ⟨_, e, ⟨hh, fun n hn => h.2 n (hset ▸ hn)⟩, hs'⟩

end SingleLeaf

lemma NewBucket.singleLeaf (h : NewBucket w t name w') : SingleLeaf .empty w' w.nextBucket := by
  refine ⟨h.holdsAt, fun n hn => ?_⟩
  rw [h.bucket] at hn
  obtain rfl := Finset.mem_singleton.1 hn
  rw [h.root]

/-! ## The transaction of `DB.Restore` -/

/-- The transaction `t`, begun on the state `st` in the world `w1`, has restored the buckets `V` so
far. -/
structure Restoring (dead : Finset TxId) (F : Set NodeId) (w1 : World) (st : DbState) (w : World)
    (t : TxId) (V : SortedMap Name (SortedMap Bytes Bytes)) : Prop
    extends Handles (fun _ => SingleLeaf) dead F w t V where
  rt : w.rt = w1.rt
  db : w.db = w1.db
  frozen : Frozen F w1 w
  base : (w.txs t).base = some st
  created : ∀ name, name ∈ (w.txs t).created ↔ (V.get name).isSome
  deleted : (w.txs t).deleted = ∅

/-- The names that a transaction on the state `st` cannot create. -/
def DbState.has (st : DbState) (name : Name) : Bool := decide (name ∈ st.buckets.keys)

namespace Restoring

/-- Work on one handle. -/
lemma work {α : Type} {f : Nat → Go α} {a : α} (h : Restoring dead F w1 st w t V)
    (hb : (w.txs t).bctx.lookup name = some b) (hm : (V.get name).isSome)
    (hstay : ∀ k, Stays (Along w b F) w (f k) fun _ _ => True) (he : Evals f w a w') (hs : w'.Sound)
    (hp : SingleLeaf m w' b) : Restoring dead F w1 st w' t (V.insert name m) ∧ w'.txs = w.txs := by
  obtain ⟨hpass, hh⟩ := h.toHandles.work (fun _ m => SingleLeaf.local' m) hb hstay he hs hp
  have htxs := hpass.works.txs
  refine ⟨⟨hh, hpass.rt.trans h.rt, hpass.works.db.trans h.db, h.frozen.trans hpass.works.toFrozen,
    by rw [htxs]; exact h.base, fun name' => ?_, by rw [htxs]; exact h.deleted⟩, htxs⟩
  rw [htxs, h.created, SortedMap.get_insert]
  split
  next e => rw [e]; simp [hm]
  next => rfl

lemma taken_iff (h : Restoring dead F w1 st w t V) :
    (w.txs t).Taken name ↔ (st.has name || (V.get name).isSome) = true := by
  unfold Tx.Taken Tx.bucketExistsCommitted Tx.baseNames DbState.has
  rw [h.deleted, h.created, h.base]
  simp [or_comm]

/-- A new bucket, with the fill percentage of a restored one. -/
lemma create (h : Restoring dead F w1 st w t V) (hname : name ≠ [])
    (hfree : (st.has name || (V.get name).isSome) = false) :
    ∃ b v w', Tx.createBucket t name w = (.ok (.ok b), v) ∧
      Bucket.setFillPercent b restoreFillPercent v = (.ok (), w') ∧
      Restoring dead F w1 st w' t (V.insert name .empty) ∧
        (w'.txs t).bctx.lookup name = some b := by
  have hnt : ¬ (w.txs t).Taken name := by
    rw [h.taken_iff, hfree]
    simp
  obtain ⟨v, e, hn, hk, hh⟩ := h.toHandles.createBucket (fun _ m => SingleLeaf.local' m) hname hnt
    fun w' hw' => hw'.singleLeaf
  have htx : v.txs t = (w.txs t).addBucket name w.nextBucket := hn.step.tx
  have hv : Restoring dead F w1 st v t (V.insert name .empty) := by
    refine ⟨hh, hn.step.rt.trans h.rt, hn.step.db.trans h.db, h.frozen.trans hk.toFrozen,
      by rw [htx]; exact h.base, fun name' => ?_, ?_⟩
    · rw [htx, SortedMap.get_insert]
      change name' ∈ insert name (w.txs t).created ↔ _
      rw [Finset.mem_insert, h.created]
      split
      next e => simp [e]
      next e => simp [e]
    · rw [htx]
      change (w.txs t).deleted.erase name = ∅
      rw [h.deleted]
      rfl
  have hb : (v.txs t).bctx.lookup name = some w.nextBucket := by
    rw [htx]
    exact AList.lookup_insert _
  obtain ⟨m, hm, hleaf⟩ := hv.handle name _ hb
  rw [SortedMap.get_insert_self] at hm
  cases hm
  obtain ⟨w', e', hl, hs⟩ := hleaf.setFillPercent hv.sound restoreFillPercent
  obtain ⟨hw', htxs⟩ :=
    hv.work hb (by simp) (fun _ => stays_setFillPercent (hv.iso.within (hv.live hb)))
    (.of_eq e') hs hl
  rw [SortedMap.insert_insert] at hw'
  exact ⟨_, v, w', e, e', hw', by rw [htxs]; exact hb⟩

/-- One pair. -/
lemma put (h : Restoring dead F w1 st w t V) (hb : (w.txs t).bctx.lookup name = some b)
    (hm : V.get name = some m) {k v : Bytes} (hr : (BucketOp.put k (some v)).result = none) :
    ∃ w', Evals (fun fuel => Bucket.put fuel b k (some v)) w none w' ∧
      Restoring dead F w1 st w' t (V.insert name (m.insert k v)) ∧ w'.txs = w.txs := by
  obtain ⟨m', hm', hleaf⟩ := h.handle name b hb
  rw [hm] at hm'
  cases hm'
  obtain ⟨w', e, hl, hq, hs⟩ := hleaf.put (h.handle_writable hb) hr
  have hlive := h.live hb
  exact ⟨w', e, h.work hb (by rw [hm]; rfl)
    (fun _ => stays_bucketPut (h.iso.within hlive) (h.iso.closed hlive) h.iso.baseIn) e hs hl⟩

end Restoring

/-! ## The loops -/

/-- How a loop of `DB.Restore` ends, next to the parse `x`: it returns what `Q` asks for, or the
error of the parse, or `make` panics. -/
def EndsAs {α β : Type} (dead : Finset TxId) (F : Set NodeId) (w1 : World) (st : DbState) (t : TxId)
    (f : Nat → Go β) (w : World) (fail : Err → β) (Q : α → β → World → Prop) : Except Stop α → Prop
  | .ok a => ∃ y w', Evals f w y w' ∧ Q a y w'
  | .error (.err e) => ∃ w' V', Evals f w (fail e) w' ∧ Restoring dead F w1 st w' t V'
  | .error .overlong =>
    ∃ w' V', Panics f w .makesliceLenOutOfRange w' ∧ Restoring dead F w1 st w' t V'

lemma makeSlice_ok {n : Nat} (h : n ≤ w.rt.maxSliceLen) : makeSlice n w = (.ok (), w) := by
  unfold makeSlice
  rw [Prog.read_bind, if_pos h]
  rfl

lemma makeSlice_panic {n : Nat} (h : w.rt.maxSliceLen < n) :
    makeSlice n w = (.panic .makesliceLenOutOfRange, w) := by
  unfold makeSlice
  rw [Prog.read_bind, if_neg (by omega)]
  rfl

lemma readFull_ne_nil {r x rest : Bytes} {n : Nat} (h : readFull r n = .ok (x, rest)) (hn : n ≠ 0) :
    x ≠ [] := by
  rintro rfl
  have hb : readBytes .snapshotKey r n = .ok ([], rest) := by rw [readBytes, h]
  exact hn (readBytes_eq_ok hb).2.symm

/-- Reading a field and going on with it, as the program does it: the length, the allocation and the
bytes. -/
def readThen {α : Type} (width : Nat) (lenErr bodyErr : ReadErr → Err) (r : Bytes) (fail : Err → α)
    (go : Bytes × Bytes → Go α) : Go α :=
  match readFull r width with
  | .error e => pure (fail (lenErr e))
  | .ok x => do
    makeSlice (leDecode x.1)
    match readFull x.2 (leDecode x.1) with
    | .error e => pure (fail (bodyErr e))
    | .ok y => go y

lemma readThen_run {α : Type} (width : Nat) (lenErr bodyErr : ReadErr → Err) (r : Bytes) (w : World)
    (fail : Err → α) (go : Bytes × Bytes → Go α) :
    readThen width lenErr bodyErr r fail go w =
      match readField w.rt.maxSliceLen width lenErr bodyErr r with
      | .error (.err e) => (.ok (fail e), w)
      | .error .overlong => (.panic .makesliceLenOutOfRange, w)
      | .ok y => go y w := by
  unfold readThen
  rcases hx : readFull r width with e | x
  · rw [readField_of_error hx]
    rfl
  rw [readField_of_ok hx]
  by_cases hl : w.rt.maxSliceLen < leDecode x.1
  · rw [if_pos hl]
    exact Prog.bind_panic (makeSlice_panic hl)
  · rw [if_neg hl, readBytes]
    refine (Prog.bind_ok (makeSlice_ok (by omega))).trans ?_
    rcases readFull x.2 (leDecode x.1) with e | y <;> rfl

/-- Entering a pair that was read, and the passes that follow. -/
def restorePair (fuel : Nat) (b : BucketId) (key value : Bytes) (r : Bytes) :
    Go (Except Err Bytes) := do
  let err ← Bucket.put fuel b key (some value)
  match err with
  | some e => pure (.error (.restorePut key e))
  | none => DB.restorePairs fuel b r

/-- What a pass of the inner loop does after the key: read the value and enter the pair. -/
def restoreValue (fuel : Nat) (b : BucketId) (key : Bytes) (r : Bytes) : Go (Except Err Bytes) :=
  readThen 8 .snapshotValLen .snapshotVal r .error fun y => restorePair fuel b key y.1 y.2

/-- One pass of the inner loop. -/
lemma restorePairs_succ (fuel : Nat) (b : BucketId) (r : Bytes) (w : World) :
    DB.restorePairs (fuel + 1) b r w = match nextPair w.rt.maxSliceLen r with
      | .error (.err e) => (.ok (.error e), w)
      | .error .overlong => (.panic .makesliceLenOutOfRange, w)
      | .ok (none, rest) => (.ok (.ok rest), w)
      | .ok (some x, rest) => restorePair fuel b x.1 x.2 rest w := by
  have hleft : DB.restorePairs (fuel + 1) b r w = readThen 4 .snapshotKeyLen .snapshotKey r .error
      (fun y => if y.1 = [] then pure (.ok y.2) else restoreValue fuel b y.1 y.2) w := by
    rw [DB.restorePairs, readThen]
    rcases readFull r 4 with e | ⟨buf4, r1⟩
    · rfl
    dsimp only
    by_cases hz : leDecode buf4 = 0
    · have h2 : readFull r1 0 = .ok ([], r1) := by simp [readFull]
      rw [if_pos hz, hz, Prog.bind_ok (makeSlice_ok (Nat.zero_le _)), h2]
      rfl
    · rw [if_neg hz]
      refine congrFun (congrArg (makeSlice _ >>= ·) (funext fun _ => ?_)) w
      rcases h2 : readFull r1 (leDecode buf4) with e | ⟨key, r2⟩
      · rfl
      · have hne : key ≠ [] := readFull_ne_nil h2 hz
        dsimp only
        rw [if_neg hne, restoreValue, readThen]
        rcases readFull r2 8 with e | ⟨buf8, r3⟩
        · rfl
        refine congrArg (makeSlice (leDecode buf8) >>= ·) (funext fun _ => ?_)
        rcases readFull r3 (leDecode buf8) with e | ⟨val, r4⟩ <;> rfl
  rw [hleft, readThen_run]
  rcases hk : readField w.rt.maxSliceLen 4 .snapshotKeyLen .snapshotKey r with (e | _) | ⟨key, r2⟩
  · rw [nextPair_of_error hk]
  · rw [nextPair_of_error hk]
  dsimp only
  by_cases hne : key = []
  · subst hne
    rw [nextPair_of_nil hk, if_pos rfl]
    rfl
  · rw [nextPair_of_ok hk hne, if_neg hne, restoreValue, readThen_run]
    rcases readField w.rt.maxSliceLen 8 .snapshotValLen .snapshotVal r2 with (e | _) | y <;> rfl

/-- A pass of a loop that goes on from `w'`. -/
lemma EndsAs.step {α β : Type} {f g : Nat → Go β} {fail : Err → β} {Q : α → β → World → Prop}
    {x : Except Stop α} (h : EndsAs dead F w1 st t f w' fail Q x)
    (hg : ∀ᶠ k in atTop, g (k + 1) w = f k w') : EndsAs dead F w1 st t g w fail Q x := by
  rcases x with (e | _) | a
  · obtain ⟨v, V', hev, hV⟩ := h
    exact ⟨v, V', eventually_succ (hev.and hg) fun k hk => hk.2.trans hk.1, hV⟩
  · obtain ⟨v, V', hev, hV⟩ := h
    exact ⟨v, V', eventually_succ (hev.and hg) fun k hk => hk.2.trans hk.1, hV⟩
  · obtain ⟨y, v, hev, hQ⟩ := h
    exact ⟨y, v, eventually_succ (hev.and hg) fun k hk => hk.2.trans hk.1, hQ⟩

/-- A loop that stops in its first pass. -/
lemma EndsAs.stop {α β : Type} {g : Nat → Go β} {fail : Err → β} {Q : α → β → World → Prop}
    {s : Stop} (h : Restoring dead F w1 st w t V) (hg : ∀ k, g (k + 1) w = match s with
      | .err e => (.ok (fail e), w)
      | .overlong => (.panic .makesliceLenOutOfRange, w)) :
    EndsAs dead F w1 st t g w fail Q (.error s) := by
  cases s with
  | err e => exact ⟨w, V, eventually_succ (eventually_ge_atTop 0) fun k _ => hg k, h⟩
  | overlong => exact ⟨w, V, eventually_succ (eventually_ge_atTop 0) fun k _ => hg k, h⟩

/-- The inner loop ends as the parse of the pairs says. -/
lemma Restoring.pairs {r : Bytes} (h : Restoring dead F w1 st w t V)
    (hb : (w.txs t).bctx.lookup name = some b) (hm : V.get name = some m) :
    EndsAs dead F w1 st t (fun fuel => DB.restorePairs fuel b r) w Except.error
      (fun x y w' => y = .ok x.2 ∧ Restoring dead F w1 st w' t (V.insert name x.1))
      (parsePairs w1.rt.maxSliceLen m r) := by
  generalize hlim : w1.rt.maxSliceLen = lim
  fun_induction parsePairs lim m r generalizing w V with
  | case1 m r s hn =>
    refine .stop h fun k => (restorePairs_succ k b r w).trans ?_
    rw [h.rt, hlim, hn]
    cases s <;> rfl
  | case2 m r rest hn =>
    refine ⟨_, w, eventually_succ (eventually_ge_atTop 0) fun k _ => ?_, rfl, ?_⟩
    · refine (restorePairs_succ k b r w).trans ?_
      rw [h.rt, hlim, hn]
    · rw [SortedMap.insert_get hm]
      exact h
  | case3 m r k v rest hn e he =>
    have hrej : ¬ BucketOp.Admits k (some v) := by
      rintro ⟨h1, h2, h3⟩
      have hnone : (BucketOp.put k (some v)).result = none :=
        put_result_eq_none.2 ⟨List.length_pos_iff.2 h1, h2, h3⟩
      rw [hnone] at he
      cases he
    refine .stop h fun fuel => (restorePairs_succ fuel b r w).trans ?_
    rw [h.rt, hlim, hn]
    dsimp only
    rw [restorePair, Prog.bind_ok (put_rejected (h.handle_writable hb) hrej fuel), he]
    rfl
  | case4 m r k v rest hn he ih =>
    obtain ⟨w', e, h', htxs⟩ := h.put hb hm he
    have hih := ih h' (by rw [htxs]; exact hb) (SortedMap.get_insert_self _ _ _)
    simp only [SortedMap.insert_insert] at hih
    refine hih.step (e.mono fun fuel hk => (restorePairs_succ fuel b r w).trans ?_)
    rw [h.rt, hlim, hn]
    exact Prog.bind_ok hk

/-- What a pass of the outer loop does after the name: create the bucket and read its pairs. -/
def restoreBucket (fuel : Nat) (t : TxId) (name : Name) (r : Bytes) : Go (Option Err) := do
  let b ← Tx.createBucket t name
  match b with
  | .error e => pure (some (.restoreBucket name e))
  | .ok b => do
    Bucket.setFillPercent b restoreFillPercent
    let rest ← DB.restorePairs fuel b r
    match rest with
    | .error e => pure (some e)
    | .ok r => DB.restoreBuckets fuel t r

/-- One pass of the outer loop. -/
lemma restoreBuckets_succ (fuel : Nat) (t : TxId) (r : Bytes) (w : World) :
    DB.restoreBuckets (fuel + 1) t r w = match nextName w.rt.maxSliceLen r with
      | .error (.err e) => (.ok (some e), w)
      | .error .overlong => (.panic .makesliceLenOutOfRange, w)
      | .ok (none, _) => (.ok none, w)
      | .ok (some name, rest) => restoreBucket fuel t name rest w := by
  have hleft : DB.restoreBuckets (fuel + 1) t r w =
      readThen 4 .snapshotBucketNameLen .snapshotBucketName r
      some (fun y => if y.1 = [] then pure none else restoreBucket fuel t y.1 y.2) w := by
    rw [DB.restoreBuckets, readThen]
    rcases readFull r 4 with e | ⟨buf4, r1⟩
    · rfl
    dsimp only
    by_cases hz : leDecode buf4 = 0
    · have h2 : readFull r1 0 = .ok ([], r1) := by simp [readFull]
      rw [if_pos hz, hz, Prog.bind_ok (makeSlice_ok (Nat.zero_le _)), h2]
      rfl
    · rw [if_neg hz]
      refine congrFun (congrArg (makeSlice _ >>= ·) (funext fun _ => ?_)) w
      rcases h2 : readFull r1 (leDecode buf4) with e | ⟨name, r2⟩
      · rfl
      · have hne : name ≠ [] := readFull_ne_nil h2 hz
        dsimp only
        rw [if_neg hne]
        rfl
  rw [hleft, readThen_run]
  rcases hk : readField w.rt.maxSliceLen 4 .snapshotBucketNameLen .snapshotBucketName r
    with (e | _) | ⟨name, r2⟩
  · rw [nextName_of_error hk]
  · rw [nextName_of_error hk]
  rw [nextName_of_ok hk]
  by_cases hne : name = []
  · subst hne
    rfl
  · rw [if_neg hne]
    dsimp only
    rw [if_neg hne]

/-- The outer loop ends as the parse of the buckets says. -/
lemma Restoring.buckets {r : Bytes} (h : Restoring dead F w1 st w t V) :
    EndsAs dead F w1 st t (fun fuel => DB.restoreBuckets fuel t r) w some
      (fun V' y w' => y = none ∧ Restoring dead F w1 st w' t V')
      (parseBuckets w1.rt.maxSliceLen st.has V r) := by
  generalize hlim : w1.rt.maxSliceLen = lim
  fun_induction parseBuckets lim st.has V r generalizing w with
  | case1 V r s hn =>
    refine .stop h fun k => (restoreBuckets_succ k t r w).trans ?_
    rw [h.rt, hlim, hn]
    cases s <;> rfl
  | case2 V r rest hn =>
    refine ⟨_, w, eventually_succ (eventually_ge_atTop 0) fun k _ => ?_, rfl, h⟩
    refine (restoreBuckets_succ k t r w).trans ?_
    rw [h.rt, hlim, hn]
  | case3 V r name rest hn ht =>
    refine .stop h fun k => (restoreBuckets_succ k t r w).trans ?_
    rw [h.rt, hlim, hn]
    exact Prog.bind_ok (createBucket_eq_of_taken h.opened h.writable (nextName_eq_some.1 hn).2.1
      (h.taken_iff.2 ht))
  | case4 V r name rest hn ht s hp =>
    obtain ⟨b, v, w', e1, e2, h', hb⟩ := h.create (nextName_eq_some.1 hn).2.1 (by simpa using ht)
    have hpairs := h'.pairs (r := rest) hb (SortedMap.get_insert_self _ _ _)
    rw [hlim, hp] at hpairs
    have hrun : ∀ k, DB.restoreBuckets (k + 1) t r w = restoreBucket k t name rest w := fun k => by
      rw [restoreBuckets_succ, h.rt, hlim, hn]
    rcases s with e | _
    · obtain ⟨w2, V2, hev, h2⟩ := hpairs
      refine ⟨w2, V2, eventually_succ hev fun k hk => (hrun k).trans ?_, h2⟩
      unfold restoreBucket
      rw [Prog.bind_ok e1]
      dsimp only
      rw [Prog.bind_ok e2, Prog.bind_ok hk]
      rfl
    · obtain ⟨w2, V2, hev, h2⟩ := hpairs
      refine ⟨w2, V2, eventually_succ hev fun k hk => (hrun k).trans ?_, h2⟩
      unfold restoreBucket
      rw [Prog.bind_ok e1]
      dsimp only
      rw [Prog.bind_ok e2]
      exact Prog.bind_panic hk
  | case5 V r name rest hn ht m rest' hp ih =>
    obtain ⟨b, v, w', e1, e2, h', hb⟩ := h.create (nextName_eq_some.1 hn).2.1 (by simpa using ht)
    have hpairs := h'.pairs (r := rest) hb (SortedMap.get_insert_self _ _ _)
    rw [hlim, hp] at hpairs
    obtain ⟨y, w2, hev, rfl, h2⟩ := hpairs
    rw [SortedMap.insert_insert] at h2
    refine (ih h2).step (hev.mono fun k hk => (restoreBuckets_succ k t r w).trans ?_)
    rw [h.rt, hlim, hn]
    dsimp only
    unfold restoreBucket
    rw [Prog.bind_ok e1]
    dsimp only
    rw [Prog.bind_ok e2, Prog.bind_ok hk]

end

end Vmbolt
