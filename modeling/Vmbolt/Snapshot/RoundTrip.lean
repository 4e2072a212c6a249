import Vmbolt.Directory.Views
import Vmbolt.Snapshot.Total

/-!
# Snapshots that are written and read back

What a read transaction shows of a state that was restored (`ReadsAs`), and with it the two
directions of the format: `DB.Restore` accepts the strings of the grammar, and what `Tx.WriteTo` has
written restores to what the transaction has shown, and is written again byte for byte.
-/

namespace Vmbolt
open Filter Prog

/-- The transaction `t` answers as the buckets `V`: its cursor goes over their names, and
`Tx.Bucket` returns a bucket that answers as the map of the name, or nil for other names. -/
structure TxAnswers (w : World) (t : TxId) (V : SortedMap Name (SortedMap Bytes Bytes)) : Prop where
  names : (w.txs t).cursor.dir = V.entries.map Prod.fst
  present : ∀ name m, V.get name = some m →
    ∃ b w', Tx.bucket t name w = (.ok (some b), w') ∧ Answers w' b m
  absent : ∀ name, V.get name = none → Tx.bucket t name w = (.ok none, w)

/-- A read transaction that begins in `w` answers as the buckets `V`. -/
def ReadsAs (w : World) (V : SortedMap Name (SortedMap Bytes Bytes)) : Prop :=
  ∃ t w', DB.begin_ false w = (.ok (.ok t), w') ∧ TxAnswers w' t V

/-- The state consists of committed trees for the buckets `V`. -/
structure Publishes (w : World) (st : DbState) (V : SortedMap Name (SortedMap Bytes Bytes)) :
    Prop where
  present : ∀ name m, V.get name = some m → ∃ bs, st.buckets.lookup name = some bs ∧
    StateHolds w bs m
  absent : ∀ name, V.get name = none → st.buckets.lookup name = none

section
variable {w w' : World} {st st' : DbState} {V : SortedMap Name (SortedMap Bytes Bytes)}
  {name : Name}
  {m : SortedMap Bytes Bytes} {t : TxId} {rt : Runtime} {s x : Bytes} {order : World → Tx.Order}

/-! ## What a reader shows -/

lemma Publishes.mem_keys (h : Publishes w st V) :
    name ∈ st.buckets.keys ↔ name ∈ V.entries.map Prod.fst := by
  rw [← AList.mem_keys, ← AList.lookup_isSome, List.mem_map]
  constructor
  · intro hs
    rcases hV : V.get name with _ | m
    · rw [h.absent name hV] at hs
      cases hs
    · exact ⟨(name, m), SortedMap.get_eq_some.1 hV, rfl⟩
  · rintro ⟨y, hy, rfl⟩
    obtain ⟨bs, hbs, -⟩ := h.present y.1 y.2 (SortedMap.get_eq_some.2 hy)
    rw [hbs]
    rfl

/-- The names of the state in sorted order. -/
lemma Publishes.sort_keys (h : Publishes w st V) :
    st.buckets.keys.toFinset.sort = V.entries.map Prod.fst := by
  have hsorted : (V.entries.map Prod.fst).Pairwise (· < ·) := List.pairwise_map.2 V.sorted
  have heq : st.buckets.keys.toFinset = (V.entries.map Prod.fst).toFinset := by
    ext name
    rw [List.mem_toFinset, List.mem_toFinset, h.mem_keys]
  rw [heq]
  exact (List.toFinset_sort _ (hsorted.imp fun h => h.ne)).2 (hsorted.imp fun h => h.le)

/-- A transaction that reads from the state and has no handles yet. -/
structure Reads (w : World) (t : TxId) (st : DbState) : Prop where
  sound : w.Sound
  tx : w.txs t = Tx.opened false st

lemma Reads.dir (h : Reads w t st) (hp : Publishes w st V) :
    (w.txs t).cursor.dir = V.entries.map Prod.fst := by
  rw [h.tx, ← hp.sort_keys]
  simp [Tx.cursor, Tx.opened, Tx.zero, Tx.baseNames]

lemma Reads.baseBucket (h : Reads w t st) :
    (w.txs t).baseBucket name = (st.buckets.lookup name).join := by
  rw [h.tx]
  rfl

lemma Reads.view (h : Reads w t st) (hp : Publishes w st V) : TxView w t V := by
  refine ⟨h.sound, by rw [h.tx]; rfl, h.dir hp, fun y hy => ?_⟩
  obtain ⟨bs, hbs, b, g, r, H, rfl, hr, hc, hm⟩ := hp.present y.1 y.2 (SortedMap.get_eq_some.2 hy)
  refine .committed ?_ ?_ (by rw [h.baseBucket, hbs]; rfl) hr hc.tree hm
  · rw [h.tx]
    rfl
  · rw [h.tx]
    exact Finset.notMem_empty _

lemma Reads.answers (h : Reads w t st) (hp : Publishes w st V) : TxAnswers w t V := by
  have hl : ∀ name, (w.txs t).bctx.lookup name = none := fun name => by rw [h.tx]; rfl
  refine ⟨h.dir hp, fun name m hm => ?_, fun name hm => ?_⟩
  · obtain ⟨bs, hbs, b, g, r, H, rfl, hr, hc, hmap⟩ := hp.present name m hm
    have hbase : (w.txs t).baseBucket name = some b := by
      rw [h.baseBucket, hbs]
      rfl
    obtain ⟨w', e, hd, -, hbk, -⟩ := bucket_eq_new h.sound (by rw [h.tx]; rfl) (hl name)
      (by rw [h.tx]; exact Finset.notMem_empty _) (by rw [hbase]; rfl)
    have hsame := hd.sameBut hc.tree
    have hself : Bucket.baseState w' w.nextBucket =
        (w'.txs (w'.buckets w.nextBucket).tx).baseBucket (w'.buckets w.nextBucket).name := rfl
    have hbs' : Bucket.baseState w' w.nextBucket = some b := by
      rw [hself, hbk]
      change (w'.txs t).baseBucket name = some b
      rw [hd.tx]
      exact hbase
    have hu : Untouched w' w.nextBucket g r H := ⟨hd.sound, by rw [hbk]; rfl, by rw [hbk]; rfl,
      by rw [hbs']; exact hr, hc.same hsame⟩
    refine ⟨_, w', e, Holds.answers (.inr ⟨g, r, H, hu, ?_⟩) ?_⟩
    · rw [hc.tree.contents_same hsame hc.tree.lvl_root, hmap]
    · unfold Opened
      rw [hbk]
      change (w'.txs t).db = true
      rw [hd.tx, h.tx]
      rfl
  · refine bucket_eq_none (hl name) (.inr ?_)
    rw [h.baseBucket, hp.absent name hm]
    rfl

/-- The state after `DB.Begin(false)`. -/
lemma reads_beginRO (hs : w.Sound) (st : DbState) : Reads (w.beginRO st) w.nextTx st :=
  ⟨⟨hs.cut, hs.arr_lt, hs.len_le⟩, by simp⟩

lemma Publishes.beginRO (h : Publishes w st V) : Publishes (w.beginRO st) st V := by
  refine ⟨fun name m hm => ?_, h.absent⟩
  obtain ⟨bs, hbs, hst⟩ := h.present name m hm
  exact ⟨bs, hbs, hst.same (S := Set.univ) (fun _ _ _ _ _ _ _ _ _ _ => trivial) le_rfl
    fun _ _ => ⟨rfl, rfl, rfl⟩⟩

/-- A read transaction begins on the published state. -/
lemma Publishes.reader (h : Publishes w st V) (hs : w.Sound) (ho : w.db.opened = true)
    (hst : w.db.state = some st) : DB.begin_ false w = (.ok (.ok w.nextTx), w.beginRO st) ∧
      TxView (w.beginRO st) w.nextTx V ∧ TxAnswers (w.beginRO st) w.nextTx V :=
  ⟨begin_eq_reader hs.cut ho hst, (reads_beginRO hs st).view h.beginRO,
    (reads_beginRO hs st).answers h.beginRO⟩

lemma Restored.publishes (h : Restored w st V st' w') (hempty : st.buckets.keys = []) :
    Publishes w' st' V := by
  refine ⟨h.holds, fun name hm => ?_⟩
  rw [h.kept name hm, AList.lookup_eq_none]
  intro hmem
  have := AList.mem_keys.1 hmem
  rw [hempty] at this
  cases this

/-! ## What is accepted -/

/-- A snapshot that a transaction of a run writes has records in order. -/
lemma TxView.writes {readOnly : Bool} {sys : Sys} (h : GoSteps (Sys.init rt readOnly) sys)
    (ht : t ∉ sys.ended) (hV : TxView sys.world t V) (hlen : ∀ y ∈ V.entries, y.1.length < 2 ^ 32) :
    Writes V := by
  have hdirs := h.dirs
  intro y hy
  refine ⟨?_, hlen y hy, fun p hp => ?_⟩
  · have hmem : y.1 ∈ (sys.world.txs t).cursor.dir := by
      rw [hV.names]
      exact List.mem_map_of_mem hy
    unfold Tx.cursor at hmem
    rw [if_neg (by simp [hV.opened]), Finset.mem_sort, Finset.mem_sdiff, Finset.mem_union] at hmem
    rcases hmem.1 with hb | hc
    · unfold Tx.baseNames at hb
      split at hb
      · cases hb
      next st hst =>
        obtain ⟨bs, hbs⟩ := Option.isSome_iff_exists.1
          (AList.lookup_isSome.2 (AList.mem_keys.2 (List.mem_toFinset.1 hb)))
        exact (hdirs.base t st hst y.1 bs hbs).1
    · exact ((hdirs.dir t ht).created y.1 hc).1
  · -- the pairs come from a leaf
    have hadm : ∀ {g r H}, TreeOK sys.world g r H → contents sys.world H r = y.2.entries →
        1 ≤ p.1.length ∧ p.1.length ≤ 32768 ∧ p.2.length ≤ 2 ^ 31 - 2 := by
      intro g r H hT hm
      obtain ⟨h1, h2, h3⟩ := hT.contents_admitted hT.lvl_root p (by rw [hm]; exact hp)
      exact ⟨List.length_pos_iff.2 h1, h2, h3⟩
    cases hV.sees y hy with
    | handle _ _ _ _ hT hm => exact hadm hT hm
    | committed _ _ _ _ hT hm => exact hadm hT hm

/-- `DB.Restore` on an empty database. The first two parts hold for every input: it returns nil
exactly on the strings of the grammar, whose decomposition is unique, and then a read transaction
shows the maps that the pairs give in file order. The last part says that no strict prefix of a
snapshot that was written is accepted, for names of less than 2^32 bytes. -/
theorem restore_accepts_bmsp {readOnly : Bool} {sys : Sys} (h : Steps (Sys.init rt readOnly) sys)
    (hr : sys.world.db.readOnly = false) (ho : sys.world.db.opened = true)
    (hl : sys.world.db.rwlock = false) (hst : sys.world.db.state = some st)
    (hempty : st.buckets.keys = []) (hv : ∀ v, (order v).Valid v sys.world.nextTx) :
    (∀ s, (∃ w', Evals (fun k => DB.restore k order s) sys.world none w') ↔
      ∃ res L tail, Bmsp s res L tail) ∧
    (∀ s res L tail, Bmsp s res L tail →
      (∀ res' L' tail', Bmsp s res' L' tail' → res' = res ∧ L' = L ∧ tail' = tail) ∧
      ∃ w', Evals (fun k => DB.restore k order s) sys.world none w' ∧
        ReadsAs w' (recordMaps .empty L)) ∧
    ∀ rt' readOnly' sys' t V out n w1, GoSteps (Sys.init rt' readOnly') sys' → t ∉ sys'.ended →
      TxView sys'.world t V → (∀ y ∈ V.entries, y.1.length < 2 ^ 32) →
      Evals (fun k => Tx.writeTo k t ⟨none, [], []⟩) sys'.world (out, n, none) w1 →
      ∀ s, s <+: out.out → s ≠ out.out →
        ¬ ∃ w', Evals (fun k => DB.restore k order s) sys.world none w' := by
  obtain ⟨dead, F, hf⟩ := h.free hr hl ho hst
  have htaken : ∀ name, st.has name = false := fun name => by
    unfold DbState.has
    rw [hempty]
    rfl
  -- the grammar is what the parse accepts
  have haccept : ∀ s res L tail, Bmsp s res L tail →
      ∃ w', Evals (fun k => DB.restore k order s) sys.world none w' ∧
      ReadsAs w' (recordMaps .empty L) := by
    intro s res L tail hb
    have hp : parseSnapshot sys.world.rt.maxSliceLen st.has s = .ok (recordMaps .empty L) :=
      (parseSnapshot_eq_ok (Runtime.maxSliceLen_ge _)).2
        ⟨res, L, tail, hb, fun x _ => htaken x.1, rfl⟩
    obtain ⟨st', w', he, hres⟩ := hf.restore_ok hv hp
    obtain ⟨hbegin, -, ha⟩ := (hres.publishes hempty).reader hres.sound (by rw [hres.db]; exact ho)
      (by rw [hres.db])
    exact ⟨w', he, _, _, hbegin, ha⟩
  have hiff : ∀ s, (∃ w', Evals (fun k => DB.restore k order s) sys.world none w') ↔
      ∃ res L tail, Bmsp s res L tail := by
    intro s
    constructor
    · rintro ⟨w', he⟩
      rcases hp : parseSnapshot sys.world.rt.maxSliceLen st.has s with (e | _) | V
      · obtain ⟨w'', he', -⟩ := hf.restore_err order hp
        obtain ⟨k, h1, h2⟩ := (he.and he').exists
        rw [h1] at h2
        cases h2
      · obtain ⟨w'', he', -⟩ := hf.restore_overlong order hp
        obtain ⟨k, h1, h2⟩ := (he.and he').exists
        rw [h1] at h2
        cases h2
      · obtain ⟨res, L, tail, hb, -⟩ := (parseSnapshot_eq_ok (Runtime.maxSliceLen_ge _)).1 hp
        exact ⟨res, L, tail, hb⟩
    · rintro ⟨res, L, tail, hb⟩
      obtain ⟨w', he, -⟩ := haccept s res L tail hb
      exact ⟨w', he⟩
  refine ⟨hiff, fun s res L tail hb =>
    ⟨fun res' L' tail' hb' => hb'.unique hb, haccept s res L tail hb⟩, ?_⟩
  intro rt' readOnly' sys' t V out n w1 hrun ht hV hlen hw s hs hne hacc
  obtain ⟨out', n', w2, ev, -, hout⟩ := writeTo_all hV
  obtain ⟨k, h1, h2⟩ := (hw.and ev).exists
  rw [h1] at h2
  cases h2
  rw [hout] at hs hne
  obtain ⟨res, L, tail, hb⟩ := (hiff s).1 hacc
  exact encode_no_strict_prefix (hV.writes hrun ht hlen) hs hne hb

/-- A bucket name of 2^32 bytes. -/
def longName : Name := List.replicate (2 ^ 32) 1

/-- A transaction that has created a bucket of this name writes a snapshot of which the first 20
bytes are accepted, as the length of the name is written as 0. -/
theorem long_name_has_accepted_prefix : GoSteps (Sys.init default false) (createdBucket longName) ∧
    0 ∉ (createdBucket longName).ended ∧ ∃ out n w1 w2,
      Evals (fun k => Tx.writeTo k 0 ⟨none, [], []⟩) (createdBucket longName).world
        (out, n, none) w1 ∧
      snapshotHeader ++ putUint32 0 <+: out.out ∧ snapshotHeader ++ putUint32 0 ≠ out.out ∧
      Evals (fun k => DB.restore k (fun v => Tx.Order.sorted v 0) (snapshotHeader ++ putUint32 0))
        (World.init default false) none w2 := by
  have hlen : longName.length = 2 ^ 32 := List.length_replicate
  have hname : longName ≠ [] := by
    intro e
    rw [e] at hlen
    cases hlen
  obtain ⟨ht, hV⟩ := createdBucket_view hname
  obtain ⟨out, n, w1, ev, -, hout⟩ := writeTo_all hV
  -- the length of the name is written modulo 2^32
  have henc : encode (oneEmptyBucket longName) =
      snapshotHeader ++ putUint32 0 ++ (longName ++ (putUint32 0 ++ putUint32 0)) := by
    have hlen' : putUint32 longName.length = putUint32 0 := by
      rw [hlen]
      decide +kernel
    have hb : encodeBucket (longName, SortedMap.empty) =
        putUint32 0 ++ (longName ++ putUint32 0) := by
      unfold encodeBucket
      rw [hlen']
      simp [SortedMap.empty]
    have hflat : (oneEmptyBucket longName).entries.flatMap encodeBucket =
        putUint32 0 ++ (longName ++ putUint32 0) := by
      rw [← hb]
      exact List.flatMap_singleton ..
    unfold encode
    rw [hflat]
    simp only [List.append_assoc]
  obtain ⟨dead, F, hf⟩ := Steps.free (s := Sys.init default false) .refl rfl rfl rfl rfl
  have hb : Bmsp (snapshotHeader ++ putUint32 0) (putUint32 0 ++ putUint32 0) [] [] :=
    encode_bmsp (V := .empty) fun y hy => by cases hy
  obtain ⟨st', w2, hres, -⟩ := hf.restore_ok (fun v => Tx.Order.sorted_valid v 0)
    ((parseSnapshot_eq_ok (Runtime.maxSliceLen_ge _)).2
      ⟨_, _, _, hb, (fun x hx => by cases hx), rfl⟩)
  refine ⟨createdBucket_steps longName, ht, out, n, w1, w2, ev, ?_, ?_, hres⟩
  · rw [hout, henc]
    exact List.prefix_append _ _
  · rw [hout, henc]
    intro e
    exact hname (List.append_eq_nil_iff.1 (List.self_eq_append_right.1 e)).1

/-- The empty database, and the prefixes of the snapshot of one empty bucket. -/
theorem restore_accepts_bmsp_init :
    (∀ s, (∃ w', Evals (fun k => DB.restore k (fun v => Tx.Order.sorted v 0) s)
      (Sys.init default false).world none w') ↔
      ∃ res L tail, Bmsp s res L tail) ∧
    (∀ s res L tail, Bmsp s res L tail →
      (∀ res' L' tail', Bmsp s res' L' tail' → res' = res ∧ L' = L ∧ tail' = tail) ∧
      ∃ w', Evals (fun k => DB.restore k (fun v => Tx.Order.sorted v 0) s)
        (Sys.init default false).world none w' ∧
        ReadsAs w' (recordMaps .empty L)) ∧
    ∃ out n w1, Evals (fun k => Tx.writeTo k 0 ⟨none, [], []⟩) (createdBucket [1]).world
      (out, n, none) w1 ∧
      ∀ s, s <+: out.out → s ≠ out.out → ¬ ∃ w',
        Evals (fun k => DB.restore k (fun v => Tx.Order.sorted v 0) s)
          (Sys.init default false).world none w' := by
  obtain ⟨h1, h2, h3⟩ := restore_accepts_bmsp
    (Relation.ReflTransGen.refl : Steps (Sys.init default false) (Sys.init default false)) rfl rfl
    rfl rfl rfl fun v => Tx.Order.sorted_valid v 0
  obtain ⟨ht, hV⟩ := createdBucket_view (List.cons_ne_nil 1 [])
  obtain ⟨out, n, w1, ev, -⟩ := writeTo_all hV
  refine ⟨h1, h2, out, n, w1, ev,
    h3 _ _ _ _ _ _ _ _ (createdBucket_steps [1]) ht hV (fun y hy => ?_) ev⟩
  obtain rfl := List.mem_singleton.1 hy
  simp

/-! ## The round trip -/

/-- A snapshot that was written, restored into a new database. -/
lemma restore_encode (hW : Writes V) (rt : Runtime) (hv : ∀ v, (order v).Valid v 0) :
    ∃ w', Evals (fun k => DB.restore k order (encode V)) (World.init rt false) none w' ∧
      ∃ t w'', DB.begin_ false w' = (.ok (.ok t), w'') ∧ TxView w'' t V ∧ TxAnswers w'' t V := by
  obtain ⟨dead, F, hf⟩ := Steps.free (s := Sys.init rt false) .refl rfl rfl rfl rfl
  have hp :
      parseSnapshot (World.init rt false).rt.maxSliceLen (DbState.has ⟨∅⟩) (encode V) = .ok V :=
    (parseSnapshot_eq_ok (Runtime.maxSliceLen_ge _)).2
      ⟨_, _, _, encode_bmsp hW, fun _ _ => rfl, recordMaps_encode.symm⟩
  obtain ⟨st', w', hres, hr⟩ := hf.restore_ok hv hp
  exact ⟨w', hres, _, _, (hr.publishes rfl).reader hr.sound (by rw [hr.db]; rfl) (by rw [hr.db])⟩

/-- A snapshot of an open transaction restores to what the transaction has shown, and is written
again byte for byte. -/
theorem snapshot_round_trip {readOnly : Bool} {sys : Sys} (h : GoSteps (Sys.init rt readOnly) sys)
    (ht : t ∉ sys.ended) (hV : TxView sys.world t V) (hlen : ∀ y ∈ V.entries, y.1.length < 2 ^ 32)
    (rt' : Runtime) (hv : ∀ v, (order v).Valid v 0) :
    ∃ out n w1, Evals (fun k => Tx.writeTo k t ⟨none, [], []⟩) sys.world (out, n, none) w1 ∧
      ∃ w2, Evals (fun k => DB.restore k order out.out) (World.init rt' false) none w2 ∧
      ∃ t' w3, DB.begin_ false w2 = (.ok (.ok t'), w3) ∧ TxAnswers w3 t' V ∧
      ∃ out' n' w4, Evals (fun k => Tx.writeTo k t' ⟨none, [], []⟩) w3 (out', n', none) w4 ∧
        out'.out = out.out := by
  obtain ⟨out, n, w1, ev, -, hout⟩ := writeTo_all hV
  -- the records of the snapshot are those of the buckets
  obtain ⟨w2, hres, t', w3, hbegin, hview, hans⟩ := restore_encode (hV.writes h ht hlen) rt' hv
  -- the reader shows the same buckets
  obtain ⟨out', n', w4, ev', -, hout'⟩ := writeTo_all hview
  rw [← hout] at hres
  exact ⟨out, n, w1, ev, w2, hres, t', w3, hbegin, hans, out', n', w4, ev', hout'.trans hout.symm⟩

/-- The snapshot of a transaction that shows a committed bucket and one of its own, each with a
pair. -/
theorem snapshot_round_trip_mixed :
    ∃ out n w1, Evals (fun k => Tx.writeTo k 1 ⟨none, [], []⟩) mixedNames.world (out, n, none) w1 ∧
      ∃ w2, Evals (fun k => DB.restore k (fun v => Tx.Order.sorted v 0) out.out)
        (World.init default false) none w2 ∧
      ∃ t' w3, DB.begin_ false w2 = (.ok (.ok t'), w3) ∧ TxAnswers w3 t' twoBuckets ∧
      ∃ out' n' w4, Evals (fun k => Tx.writeTo k t' ⟨none, [], []⟩) w3 (out', n', none) w4 ∧
        out'.out = out.out := by
  obtain ⟨ht, hV⟩ := mixedNames_view
  refine snapshot_round_trip mixedNames_steps ht hV ?_ default fun v => Tx.Order.sorted_valid v 0
  decide

end

end Vmbolt
