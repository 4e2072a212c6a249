import Vmbolt.Effect.Directory
import Vmbolt.Refinement.ArrayCursor
import Vmbolt.Tree.Surgery

/-!
# Writing a snapshot

`encode` is the BMSP file of a map from names to sorted maps, as the comment of `snapshot.go`
describes the format. `TxView w t V` says that the transaction `t` shows the buckets `V`, whatever
shape their trees have. `Tx.WriteTo` sends the encoding of what the transaction shows: `Sent`
follows the bytes through the writes, of which the last one may fail, and each loop of
`Tx.serializeSnapshot` extends what has been sent by the encoding of what it went over.
-/

namespace Vmbolt
open Filter Prog

/-- One pair in a snapshot. -/
def encodePair (x : Bytes × Bytes) : Bytes :=
  putUint32 x.1.length ++ (x.1 ++ (putUint64 x.2.length ++ x.2))

/-- One bucket in a snapshot: its name, its pairs and a zero length. -/
def encodeBucket (x : Name × SortedMap Bytes Bytes) : Bytes :=
  putUint32 x.1.length ++ x.1 ++ x.2.entries.flatMap encodePair ++ putUint32 0

/-- A snapshot: the header, the buckets and a zero length. -/
def encode (V : SortedMap Name (SortedMap Bytes Bytes)) : Bytes :=
  snapshotHeader ++ V.entries.flatMap encodeBucket ++ putUint32 0

/-! ## The bytes a writer takes -/

/-- How many of the first `len` bytes a writer with the limit `cap` takes. -/
def room (cap : Option Nat) (len : Nat) : Nat := cap.elim len (min len)

/-- The bytes `s` have been sent, one field after the other, up to the first error. The write that
failed, if any, is the last one. -/
structure Sent (cap : Option Nat) (s : Bytes) (r : ByteCounter × Option Err) : Prop where
  limit : r.1.w.cap = cap
  out : r.1.w.out = s.take (room cap s.length)
  count : r.1.n = room cap s.length
  err : r.2 = if room cap s.length < s.length then some .writer else none
  before : room cap r.1.w.calls.dropLast.flatten.length = r.1.w.calls.dropLast.flatten.length
  calls : r.2 = none → r.1.w.calls.flatten = s

namespace Sent
variable {cap : Option Nat} {s p : Bytes} {c : ByteCounter} {e : Err}

lemma room_le (cap : Option Nat) (len : Nat) : room cap len ≤ len := by
  cases cap with
  | none => exact le_rfl
  | some N => exact min_le_left _ _

/-- Before the first write. -/
lemma init (cap : Option Nat) : Sent cap [] (⟨⟨cap, [], []⟩, 0⟩, none) := by
  cases cap with
  | none => exact ⟨rfl, rfl, rfl, rfl, rfl, fun _ => rfl⟩
  | some N => exact ⟨rfl, rfl, by simp [room], by simp [room], by simp [room], fun _ => rfl⟩

lemma room_eq (h : Sent cap s (c, none)) : room cap s.length = s.length := by
  have he := h.err
  have := room_le cap s.length
  split at he
  · cases he
  · omega

lemma room_lt (h : Sent cap s (c, some e)) : e = .writer ∧ room cap s.length < s.length := by
  have he := h.err
  split at he
  · cases he
    exact ⟨rfl, ‹_›⟩
  · cases he

/-- Once a write has failed, nothing more is taken, and nothing more is written. -/
lemma stop (h : Sent cap s (c, some e)) (p : Bytes) : Sent cap (s ++ p) (c, some e) := by
  obtain ⟨rfl, hlt⟩ := h.room_lt
  rcases cap with _ | N
  · exact absurd hlt (lt_irrefl _)
  have hN : N < s.length := by
    simp only [room, Option.elim_some] at hlt
    omega
  have e1 : room (some N) s.length = N := min_eq_right hN.le
  have e2 : room (some N) (s ++ p).length = N := by
    rw [List.length_append]
    exact min_eq_right (by omega)
  refine ⟨h.limit, ?_, ?_, ?_, h.before, nofun⟩
  · rw [h.out, e1, e2, List.take_append_of_le_length hN.le]
  · rw [h.count, e1, e2]
  · rw [e2, if_pos (by rw [List.length_append]; omega)]

/-- One more write. -/
lemma write (h : Sent cap s (c, none)) (p : Bytes) : Sent cap (s ++ p) (c.write p) := by
  have hroom := h.room_eq
  have hout : c.w.out = s := by rw [h.out, hroom, List.take_length]
  have hn : c.n = s.length := h.count.trans hroom
  have hcalls := h.calls rfl
  have hcap : c.w.cap = cap := h.limit
  have htakes : s.length + c.w.takes p.length = room cap (s ++ p).length := by
    unfold Writer.takes
    rw [hcap, hout, List.length_append]
    cases cap with
    | none => rfl
    | some N =>
      simp only [room, Option.elim_some] at hroom ⊢
      omega
  have htake : s ++ p.take (c.w.takes p.length) = (s ++ p).take (room cap (s ++ p).length) := by
    rw [← htakes, List.take_length_add_append]
  refine ⟨hcap, ?_, ?_, ?_, ?_, fun _ => ?_⟩
  · rw [← htake, ← hout]
    rfl
  · rw [← htakes, ← hn]
    rfl
  · rw [← htakes, List.length_append]
    simp only [ByteCounter.write, Writer.write, Nat.add_lt_add_iff_left]
  · simp only [ByteCounter.write, Writer.write, List.dropLast_concat, hcalls, hroom]
  · simp only [ByteCounter.write, Writer.write, List.flatten_append, hcalls, List.flatten_singleton]

/-- Some more writes. -/
lemma writeAll (h : Sent cap s (c, none)) (ps : List Bytes) :
    Sent cap (s ++ ps.flatten) (c.writeAll ps) := by
  induction ps generalizing s c with
  | nil => simpa [ByteCounter.writeAll] using h
  | cons p ps ih =>
    have h1 := h.write p
    rw [List.flatten_cons, ← List.append_assoc, ByteCounter.writeAll]
    rcases hc : c.write p with ⟨c', _ | e⟩ <;> rw [hc] at h1
    · exact ih h1
    · exact h1.stop _

end Sent

/-! ## What a transaction shows -/

/-- The transaction `t` shows the map `m` under a name: through a handle it has, or in the committed
state. -/
inductive Sees (w : World) (t : TxId) (name : Name) (m : SortedMap Bytes Bytes) : Prop
  | handle {b : BucketId} {g : Layout} {r : NodeId} {H : Nat} :
    (w.txs t).bctx.lookup name = some b → b < w.nextBucket → (w.buckets b).tx = t →
    Bucket.rootView w b = some r → TreeOK w g r H → contents w H r = m.entries → Sees w t name m
  | committed {bs : BucketState} {g : Layout} {r : NodeId} {H : Nat} :
    (w.txs t).bctx.lookup name = none → name ∉ (w.txs t).deleted →
    (w.txs t).baseBucket name = some bs → bs.root = some r → TreeOK w g r H →
    contents w H r = m.entries → Sees w t name m

/-- The open transaction `t` shows the buckets `V`. -/
structure TxView (w : World) (t : TxId) (V : SortedMap Name (SortedMap Bytes Bytes)) : Prop where
  sound : w.Sound
  opened : (w.txs t).db = true
  names : (w.txs t).cursor.dir = V.entries.map Prod.fst
  sees : ∀ x ∈ V.entries, Sees w t x.1 x.2

section
variable {w w' : World} {t : TxId} {V : SortedMap Name (SortedMap Bytes Bytes)} {name : Name}
  {m : SortedMap Bytes Bytes} {cap : Option Nat} {s : Bytes} {c : ByteCounter}

/-- A directory step leaves the trees alone. -/
lemma DirStep.sameBut {tx : Tx} {g : Layout} {r : NodeId} {H : Nat} (h : DirStep w t tx w')
    (ht : TreeOK w g r H) : SameBut g ∅ w w' where
  nextNode := h.nextNode
  isLeaf n d hn _ := by rw [h.nodes n (ht.alloc n d hn)]
  key n d hn _ := by rw [h.nodes n (ht.alloc n d hn)]
  inodes n d hn _ := h.inodes n (ht.alloc n d hn)

/-- A directory step that is about other names. -/
lemma Sees.of_dirStep {tx : Tx} (h : Sees w t name m) (hd : DirStep w t tx w')
    (hb : tx.bctx.lookup name = (w.txs t).bctx.lookup name) (hdel : tx.deleted = (w.txs t).deleted)
    (hbase : tx.base = (w.txs t).base) : Sees w' t name m := by
  rw [← hd.tx] at hb hdel hbase
  cases h with
  | handle hl hlt htx hr ht hm =>
    have hbk := hd.buckets _ hlt
    refine .handle (hb.trans hl) (hlt.trans_le hd.nextBucket) (by rw [hbk, htx]) ?_
      (ht.same (hd.sameBut ht)) (by rw [ht.contents_same (hd.sameBut ht) ht.lvl_root, hm])
    unfold Bucket.rootView Bucket.baseState at hr ⊢
    rw [hbk, htx, hbase, ← htx]
    exact hr
  | committed hl hdl hbs hr ht hm =>
    refine .committed (hb.trans hl) (by rw [hdel]; exact hdl) ?_ hr (ht.same (hd.sameBut ht))
      (by rw [ht.contents_same (hd.sameBut ht) ht.lvl_root, hm])
    simp only [Tx.baseBucket, hbase] at hbs ⊢
    exact hbs

/-- `Tx.Bucket` for a name that is shown: a handle whose tree has the entries, and the transaction
shows the same buckets as before. -/
lemma TxView.bucket (h : TxView w t V) (hx : (name, m) ∈ V.entries) :
    ∃ b w' g r H, Tx.bucket t name w = (.ok (some b), w') ∧ TxView w' t V ∧
      (w'.buckets b).tx = t ∧ Bucket.rootView w' b = some r ∧ TreeOK w' g r H ∧
      contents w' H r = m.entries := by
  cases h.sees _ hx with
  | handle hl hlt htx hr ht hm =>
    exact ⟨_, w, _, _, _, bucket_eq_of_lookup h.opened hl, h, htx, hr, ht, hm⟩
  | @committed bs g r H hl hdl hbs hr ht hm =>
    obtain ⟨w', e, hd, hnext, hbk, -⟩ := bucket_eq_new h.sound h.opened hl hdl (by rw [hbs]; rfl)
    have ht' := ht.same (hd.sameBut ht)
    have hm' : contents w' H r = m.entries := by
      rw [ht.contents_same (hd.sameBut ht) ht.lvl_root, hm]
    have htx : (w'.buckets w.nextBucket).tx = t := by rw [hbk]; rfl
    have hroot : Bucket.rootView w' w.nextBucket = some r := by
      have hb : Bucket.baseState w' w.nextBucket = some bs := by
        have hname : (w'.buckets w.nextBucket).name = name := by rw [hbk]; rfl
        unfold Bucket.baseState
        rw [htx, hname, hd.tx]
        exact hbs
      simp only [Bucket.rootView, hb, hbk, Bucket.fresh, hr]
    refine ⟨_, w', g, r, H, e, ⟨hd.sound, by rw [hd.tx]; exact h.opened, ?_, fun x hx' => ?_⟩, htx,
      hroot, ht', hm'⟩
    · rw [hd.tx, ← h.names]
      rfl
    · by_cases hn : x.1 = name
      · have hx2 : x = (name, m) := V.entry_eq hx' hx hn
        subst hx2
        refine .handle ?_ (by rw [hnext]; exact Nat.lt_succ_self _) htx hroot ht' hm'
        rw [hd.tx]
        exact AList.lookup_insert _
      · refine (h.sees x hx').of_dirStep hd ?_ rfl rfl
        exact AList.lookup_insert_ne hn

/-! ## The loops -/

/-- The pairs of a bucket. -/
lemma Sent.pairs (h : Sent cap s (c, none)) (es : List (Bytes × Bytes)) :
    Sent cap (s ++ es.flatMap encodePair) (untilErr (fun (c : ByteCounter) k v =>
      c.writeAll [putUint32 k.length, k, putUint64 (lenBytes v), v.getD []]) es c) := by
  induction es generalizing s c with
  | nil => simpa [untilErr] using h
  | cons x es ih =>
    have h1 := h.writeAll [putUint32 x.1.length, x.1, putUint64 (lenBytes (some x.2)), x.2]
    have he : [putUint32 x.1.length, x.1, putUint64 (lenBytes (some x.2)), x.2].flatten =
        encodePair x := by
      simp [encodePair, lenBytes]
    rw [he] at h1
    rw [List.flatMap_cons, ← List.append_assoc, untilErr]
    dsimp only [Option.getD_some]
    rcases hc : c.writeAll [putUint32 x.1.length, x.1, putUint64 (lenBytes (some x.2)), x.2] with
      ⟨c', _ | e⟩ <;> rw [hc] at h1
    · exact ih h1
    · exact h1.stop _

/-- One bucket. -/
lemma writeBucket_eq (name : Name) (m : SortedMap Bytes Bytes) (h : TxView w t V)
    (hx : (name, m) ∈ V.entries) (hs : Sent cap s (c, none)) :
    ∃ r w', Evals (fun fuel => Tx.writeBucket fuel t c name) w r w' ∧ TxView w' t V ∧
      Sent cap (s ++ encodeBucket (name, m)) r := by
  obtain ⟨b, w', g, r, H, e, h', htx, hr, ht, hm⟩ := h.bucket hx
  have h1 := hs.writeAll [putUint32 name.length, name]
  have he1 : [putUint32 name.length, name].flatten = putUint32 name.length ++ name := by simp
  rw [he1] at h1
  have he : s ++ encodeBucket (name, m) = s ++ (putUint32 name.length ++ name) ++
      m.entries.flatMap encodePair ++ putUint32 0 := by simp [encodeBucket]
  rw [he]
  rcases hc : c.writeAll [putUint32 name.length, name] with ⟨c1, _ | err⟩ <;> rw [hc] at h1
  · have h2 := h1.pairs m.entries
    have hfor : ∀ᶠ fuel in atTop, Bucket.forEach fuel b Tx.writePair c1 w' = (.ok (untilErr
        (fun (c : ByteCounter) k v =>
          c.writeAll [putUint32 k.length, k, putUint64 (lenBytes v), v.getD []]) m.entries c1),
            w') := by
      filter_upwards [eventually_ge_atTop
        (H + (leaves w' H r).length + (contents w' H r).length + 3)] with fuel hf
      rw [← hm]
      exact forEach_eq ht hr (by rw [htx]; exact h'.opened) _ c1 hf
    rcases hc2 : untilErr (fun (c : ByteCounter) k v =>
      c.writeAll [putUint32 k.length, k, putUint64 (lenBytes v), v.getD []]) m.entries c1 with
      ⟨c2, _ | err⟩ <;> rw [hc2] at h2 hfor
    · refine ⟨c2.write (putUint32 0), w', ?_, h', h2.write _⟩
      filter_upwards [hfor] with fuel hf
      unfold Tx.writeBucket
      rw [Prog.bind_ok e]
      simp only [hc]
      rw [Prog.bind_ok hf]
      rfl
    · refine ⟨(c2, some err), w', ?_, h', h2.stop _⟩
      filter_upwards [hfor] with fuel hf
      unfold Tx.writeBucket
      rw [Prog.bind_ok e]
      simp only [hc]
      rw [Prog.bind_ok hf]
      rfl
  · refine ⟨(c1, some err), w', Eventually.of_forall fun fuel => ?_, h', (h1.stop _).stop _⟩
    dsimp only
    unfold Tx.writeBucket
    rw [Prog.bind_ok e]
    simp only [hc]
    rfl

/-- The directory cursor at position `i` returns the name there. -/
lemma dirKeyValue_eq (cur : Cursor) (i : Nat) (hi : cur.dirIdx = i) :
    cur.dirKeyValue = (cur.dir[i]?, none) := by
  have h0 : ¬ ((i : Int) < 0) := by omega
  rcases hn : cur.dir[i]? with _ | name <;> simp [Cursor.dirKeyValue, atIndex, hi, h0, hn]

/-- The buckets that are still to come. -/
lemma writeBuckets_eq (h : TxView w t V) {l1 l2 : List (Name × SortedMap Bytes Bytes)}
    (hV : V.entries = l1 ++ l2) (cur : Cursor) (hcur : cur.bucket = none)
    (hdir : cur.dir = V.entries.map Prod.fst) (hi : cur.dirIdx = l1.length)
    (hs : Sent cap s (c, none)) :
    ∃ r w', Evals (fun fuel => Tx.writeBuckets t fuel cur cur.dirKeyValue c) w r w' ∧
      TxView w' t V ∧ Sent cap (s ++ l2.flatMap encodeBucket) r := by
  have hitem : cur.dirKeyValue = (l2.head?.map Prod.fst, none) := by
    rw [dirKeyValue_eq cur _ hi, hdir, hV]
    cases l2 <;> simp
  rw [hitem]
  induction l2 generalizing w l1 cur s c with
  | nil =>
    refine ⟨(c, none), w, eventually_succ (eventually_ge_atTop 0) fun _ _ => rfl,
      h, by simpa using hs⟩
  | cons x l2 ih =>
    obtain ⟨r, w1, e1, h1, s1⟩ := writeBucket_eq x.1 x.2 h (by simp [hV]) hs
    rw [List.flatMap_cons, ← List.append_assoc]
    rcases r with ⟨c1, _ | err⟩
    · have hV' : V.entries = (l1 ++ [x]) ++ l2 := by simp [hV]
      have hitem' : ({ cur with dirIdx := cur.dirIdx + 1 } : Cursor).dirKeyValue =
          (l2.head?.map Prod.fst, none) := by
        rw [dirKeyValue_eq _ (l1 ++ [x]).length (by simp [hi]), hdir, hV']
        cases l2 <;> simp
      obtain ⟨r, w', e2, h2, s2⟩ := ih h1 hV' { cur with dirIdx := cur.dirIdx + 1 } hcur hdir
        (by simp [hi]) s1 hitem'
      refine ⟨r, w', eventually_succ (e1.and e2) fun k hk => ?_, h2, s2⟩
      have hnx : Cursor.Next k w1 cur = .ok ((l2.head?.map Prod.fst, none),
          { cur with dirIdx := cur.dirIdx + 1 }) := by
        rw [← hitem', Cursor.Next, hcur]
      simp only [List.head?_cons, Option.map_some, Tx.writeBuckets]
      rw [Prog.bind_ok hk.1]
      dsimp only
      rw [Prog.query_bind (f := fun w => Cursor.Next k w cur) hnx]
      exact hk.2
    · refine ⟨(c1, some err), w1, eventually_succ e1 fun k hk => ?_, h1, s1.stop _⟩
      simp only [List.head?_cons, Option.map_some, Tx.writeBuckets]
      rw [Prog.bind_ok hk]
      rfl

/-- `Tx.WriteTo` sends the encoding of what the transaction shows. -/
lemma writeTo_eq (h : TxView w t V) (cap : Option Nat) :
    ∃ c e w', Evals (fun fuel => Tx.writeTo fuel t ⟨cap, [], []⟩) w (c.w, c.n, e) w' ∧
      TxView w' t V ∧ Sent cap (encode V) (c, e) := by
  have h1 := (Sent.init cap).write snapshotHeader
  rw [List.nil_append] at h1
  rcases hc : (ByteCounter.mk ⟨cap, [], []⟩ 0).write snapshotHeader with ⟨c1, _ | err⟩ <;>
    rw [hc] at h1
  · have hcur : (w.txs t).cursor.bucket = none := by
      unfold Tx.cursor
      split <;> rfl
    obtain ⟨⟨c2, e2⟩, w', ev, h2, s2⟩ := writeBuckets_eq h (List.nil_append V.entries).symm
      { (w.txs t).cursor with dirIdx := 0 } hcur h.names rfl h1
    have hfirst : ∀ fuel, Cursor.First fuel w (w.txs t).cursor =
        .ok (({ (w.txs t).cursor with dirIdx := 0 } : Cursor).dirKeyValue,
          { (w.txs t).cursor with dirIdx := 0 }) := by
      intro fuel
      unfold Cursor.First
      split
      · rfl
      next hb => rw [hcur] at hb; cases hb
    unfold encode
    rcases e2 with _ | err
    · refine ⟨_, _, w', ?_, h2, s2.write _⟩
      filter_upwards [ev] with fuel hf
      unfold Tx.writeTo Tx.serializeSnapshot Tx.get
      simp only [hc]
      rw [Prog.read_bind,
        Prog.query_bind (f := fun v => Cursor.First fuel v (w.txs t).cursor) (hfirst fuel)]
      exact (Prog.bind_ok hf).trans rfl
    · refine ⟨_, _, w', ?_, h2, s2.stop _⟩
      filter_upwards [ev] with fuel hf
      unfold Tx.writeTo Tx.serializeSnapshot Tx.get
      simp only [hc]
      rw [Prog.read_bind,
        Prog.query_bind (f := fun v => Cursor.First fuel v (w.txs t).cursor) (hfirst fuel)]
      exact (Prog.bind_ok hf).trans rfl
  · refine ⟨c1, some err, w, Eventually.of_forall fun fuel => ?_, h, (h1.stop _).stop _⟩
    unfold Tx.writeTo Tx.serializeSnapshot
    simp only [hc]
    rfl

/-- `Tx.WriteTo` on a writer that takes every byte. -/
lemma writeTo_all (h : TxView w t V) : ∃ out n w',
    Evals (fun fuel => Tx.writeTo fuel t ⟨none, [], []⟩) w (out, n, none) w' ∧ TxView w' t V ∧
      out.out = encode V := by
  obtain ⟨c, e, w', ev, hv, hs⟩ := writeTo_eq h none
  have herr : e = none := hs.err.trans (if_neg (lt_irrefl _))
  subst herr
  exact ⟨c.w, c.n, w', ev, hv, hs.out.trans (List.take_length ..)⟩

/-- `Tx.WriteTo` on a writer that takes `N` bytes: it returns nil exactly if the whole snapshot
fits; the count it returns and the bytes the writer has taken are those of the first `N` bytes of
the snapshot; and every write before the last one was taken in full, so that none follows a
failure. -/
theorem writeTo_reports_delivered (h : TxView w t V) (N : Nat) :
    ∃ out n err w', Evals (fun fuel => Tx.writeTo fuel t ⟨some N, [], []⟩) w (out, n, err) w' ∧
      (err = none ↔ (encode V).length ≤ N) ∧ n = min N (encode V).length ∧
      out.out = (encode V).take (min N (encode V).length) ∧
      out.calls.dropLast.flatten.length ≤ N := by
  obtain ⟨c, e, w', ev, -, hs⟩ := writeTo_eq h (some N)
  have hroom : ∀ len, room (some N) len = min len N := fun _ => rfl
  refine ⟨c.w, c.n, e, w', ev, ?_, ?_, ?_, ?_⟩
  · have he := hs.err
    dsimp only at he
    rw [he, hroom]
    split <;> simp only [reduceCtorEq, false_iff, true_iff] <;> omega
  · rw [min_comm]
    exact hs.count
  · rw [min_comm]
    exact hs.out
  · have hb := hs.before
    rw [hroom] at hb
    exact min_eq_left_iff.1 hb

/-- What the transaction of `threeLeaves` shows. -/
def threeLeavesView : SortedMap Name (SortedMap Bytes Bytes) :=
  ⟨[([9], threeLeaves_tree.map)], List.pairwise_singleton _ _⟩

lemma threeLeaves_view : TxView threeLeaves 0 threeLeavesView := by
  refine ⟨threeLeaves_untouched.sound, rfl, by decide +kernel, fun x hx => ?_⟩
  cases List.mem_singleton.1 hx
  exact .handle (b := 0) rfl (by decide) rfl rfl threeLeaves_tree rfl

/-- The writer fails within the third pair. -/
theorem writeTo_reports_delivered_threeLeaves :
    ∃ out n err w', Evals (fun fuel => Tx.writeTo fuel 0 ⟨some 50, [], []⟩) threeLeaves
      (out, n, err) w' ∧
      (err = none ↔ (encode threeLeavesView).length ≤ 50) ∧
      n = min 50 (encode threeLeavesView).length ∧
      out.out = (encode threeLeavesView).take (min 50 (encode threeLeavesView).length) ∧
      out.calls.dropLast.flatten.length ≤ 50 :=
  writeTo_reports_delivered threeLeaves_view 50

end

end Vmbolt
