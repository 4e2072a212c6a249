import Vmbolt.Model.Growing
import Vmbolt.Tree.Search

/-!
# What a bucket answers

The exported reading functions of a bucket on a tree with exact ranges: `Bucket.Get`, `Cursor.Seek`,
`Cursor.First` and `Cursor.Next` answer from the contents of the tree. `Answers w b m` collects what
a caller sees: the bucket `b` behaves as the sorted map `m`.
-/

namespace Vmbolt
open Filter

namespace Bucket

/-- The loop `for k, v := c.First(); k != nil; k, v = c.Next()`, which collects the pairs. -/
def scanLoop (fuel : Nat) (w : World) : Nat → Cursor → Item →
  Outcome Panic (List (Bytes × Option Bytes))
  | 0, _, _ => .hang
  | _ + 1, _, (none, _) => .ok []
  | n + 1, c, (some k, v) => do
    let r ← Cursor.Next fuel w c
    let l ← scanLoop fuel w n r.2 r.1
    pure ((k, v) :: l)

/-- A complete scan of a bucket with `First` and `Next`. -/
def scan (fuel : Nat) (w : World) (b : BucketId) : Outcome Panic (List (Bytes × Option Bytes)) := do
  let r ← Cursor.First fuel w (cursor b)
  scanLoop fuel w fuel r.2 r.1

end Bucket

/-- A scan does not change with more fuel. -/
lemma Bucket.scan_growing (w : World) (b : BucketId) :
    Outcome.Growing fun k => Bucket.scan k w b := by
  have hloop : ∀ (k n : Nat) (c : Cursor) (i : Item),
      (Bucket.scanLoop k w n c i).Below (Bucket.scanLoop (k + 1) w (n + 1) c i) := by
    intro k n
    induction n with
    | zero => exact fun _ _ => .inl rfl
    | succ n ih =>
      rintro c ⟨_ | key, v⟩
      · exact .refl _
      · exact (Next_growing w c k).bind fun r => (ih r.2 r.1).bind fun _ => .refl _
  exact fun k => (First_growing w _ k).bind fun r => hloop k k r.2 r.1

/-- An entry as a cursor returns it. -/
def foundPair (x : Bytes × Bytes) : Bytes × Option Bytes := (x.1, some x.2)

/-- Go through the entries with a callback, up to its first error. -/
def untilErr {τ : Type} (f : τ → Bytes → Option Bytes → τ × Option Err) :
    List (Bytes × Bytes) → τ → τ × Option Err
  | [], s => (s, none)
  | x :: es, s =>
    match f s x.1 (some x.2) with
    | (s, some e) => (s, some e)
    | (s, none) => untilErr f es s

/-- The bucket answers as the sorted map `m`: `Get` on every key, `Seek` to every key, a complete
scan. -/
def Answers (w : World) (b : BucketId) (m : SortedMap Bytes Bytes) : Prop :=
  ∀ᶠ fuel in atTop,
    (∀ k, Bucket.get fuel w b k = .ok (m.get k)) ∧
    (∀ c k, c.bucket = some b → ∃ c', Cursor.Seek fuel w c k = .ok (itemOf (m.seek k), c')) ∧
    Bucket.scan fuel w b = .ok (m.entries.map foundPair)

/-- The contents of a tree as a sorted map. -/
def TreeOK.map {w : World} {g : Layout} {root : NodeId} {H : Nat} (h : TreeOK w g root H) :
    SortedMap Bytes Bytes :=
  ⟨contents w H root, h.contents_sorted h.lvl_root⟩

section
variable {w : World} {g : Layout} {root : NodeId} {H : Nat} {b : BucketId}

section
variable (h : TreeOK w g root H)
include h

/-- `Get` answers from the contents. -/
lemma get_eq (hx : Exact w g root) (hr : Bucket.rootView w b = some root) {fuel : Nat}
    (hf : H < fuel) (k : Bytes) :
    Bucket.get fuel w b k = .ok (findEntry k (contents w H root)) := by
  obtain ⟨l, st, l1, l2, hfound, hgo⟩ := seekStack_eq h hx k
  unfold Bucket.get
  rw [hr, hgo fuel hf, Outcome.ok_bind, hfound.findEntry_eq h]
  cases l2 with
  | nil => cases k <;> simp [itemOf, bytesEqual]
  | cons i l2 =>
    have hi : i ∈ w.inodes l := by simp [hfound.inodes]
    obtain ⟨v, hv⟩ := Option.isSome_iff_exists.1 ((h.leaf l (hfound.spine.lvl h)).entry i hi).value
    by_cases hk : i.key = k <;> simp [itemOf, bytesEqual, Inode.entry, Option.filter, hk, hv]

/-- `Seek` returns the first entry from the key on and stands on it. -/
lemma seek_eq (hx : Exact w g root) (hr : Bucket.rootView w b = some root)
    (ho : (w.txs (w.buckets b).tx).db = true) {c : Cursor} (hc : c.bucket = some b) (k : Bytes) :
    ∃ l i st, (∀ fuel, H + (leaves w H root).length + 2 ≤ fuel →
        Cursor.Seek fuel w c k = .ok (itemOf (seekEntry k (contents w H root)),
          { c with stack := ⟨l, (i : Nat)⟩ :: st })) ∧
      Spine w root H 0 l st ∧
      ∀ e, seekEntry k (contents w H root) = some e → (contents w 0 l)[i]? = some e := by
  obtain ⟨l, st, l1, l2, hfound, hgo⟩ := seekStack_eq h hx k
  have hlen : (w.inodes l).length = l1.length + l2.length := by simp [hfound.inodes]
  rw [hfound.seekEntry_eq h]
  cases l2 with
  | nil =>
    -- behind the last entry of the leaf: `next` goes on
    have hafter : entriesAfter w l l1.length (leavesAbove w 1 st) =
        (leavesAbove w 1 st).flatMap (contents w 0) := by
      rw [entriesAfter, List.drop_eq_nil_of_le (by simp [contents, hlen])]
      rfl
    obtain ⟨l', i', st', hnext, hpos, hhead, -⟩ := nextStack_eq h (i := l1.length) hfound.spine rfl
    rw [hafter] at hpos hhead
    refine ⟨l', i', st', fun fuel hf => ?_, hpos.spine, by simpa using hhead⟩
    have hle := hfound.spine.length_leavesAbove h
    have htop : Cursor.topAtEnd w (⟨l, (l1.length : Nat)⟩ :: st) = true := by
      simp [Cursor.topAtEnd, Cursor.count, hlen]
    unfold Cursor.Seek Cursor.openRoot
    simp only [hc, ho, if_true, Outcome.ok_bind, hr, hgo fuel (by omega), htop,
      hnext fuel (by omega), hafter, List.map_nil, List.nil_append]
    rfl
  | cons i l2 =>
    refine ⟨l, l1.length, st, fun fuel hf => ?_, hfound.spine, ?_⟩
    · have htop : Cursor.topAtEnd w (⟨l, (l1.length : Nat)⟩ :: st) = false := by
        simp [Cursor.topAtEnd, Cursor.count, hlen]
      unfold Cursor.Seek Cursor.openRoot
      simp only [hc, ho, if_true, Outcome.ok_bind, hr, hgo fuel (by omega), htop,
        Bool.false_eq_true, if_false, List.map_cons, List.cons_append, List.head?_cons]
      rfl
    · intro e he
      simp only [List.map_cons, List.cons_append, List.head?_cons, Option.some.injEq] at he
      simp [contents, hfound.inodes, he]

/-- `First` returns the first entry and stands on it. -/
lemma first_eq (hr : Bucket.rootView w b = some root) (ho : (w.txs (w.buckets b).tx).db = true)
    {c : Cursor} (hc : c.bucket = some b) :
    ∃ l i st, (∀ fuel, H + (leaves w H root).length + 2 ≤ fuel →
        Cursor.First fuel w c = .ok (itemOf (contents w H root).head?,
          { c with stack := ⟨l, (i : Nat)⟩ :: st })) ∧
      Pos w root H l i st (contents w H root).tail ∧
      ∀ e, (contents w H root).head? = some e → (contents w 0 l)[i]? = some e := by
  obtain ⟨l, i, st, hgo, hpos⟩ := firstStack_eq h
  refine ⟨l, i, st, fun fuel hf => ?_, hpos⟩
  unfold Cursor.First Cursor.openRoot
  simp only [hc, ho, if_true, Outcome.ok_bind, hr, hgo fuel hf]
  rfl

/-- `Next` returns the entry that comes next and moves there. -/
lemma next_pos (ho : (w.txs (w.buckets b).tx).db = true) {es : List (Bytes × Bytes)} {l : NodeId}
    {i : Nat} {st : List ElemRef} (hpos : Pos w root H l i st es) {c : Cursor}
    (hc : c.bucket = some b) (hst : c.stack = ⟨l, (i : Nat)⟩ :: st) :
    ∃ l' i' st', (∀ fuel, H + (leaves w H root).length + 2 ≤ fuel →
        Cursor.Next fuel w c = .ok (itemOf es.head?, { c with stack := ⟨l', (i' : Nat)⟩ :: st' })) ∧
      Pos w root H l' i' st' es.tail := by
  obtain ⟨l', i', st', hnext, hpos', -⟩ := nextStack_eq h (i := i) hpos.spine rfl
  have hle := hpos.spine.length_leavesAbove h
  rw [hpos.after] at hpos' hnext
  refine ⟨l', i', st', fun fuel hf => ?_, hpos'⟩
  unfold Cursor.Next Cursor.openRoot
  simp only [hc, ho, if_true, Outcome.ok_bind, hst, hnext fuel (by omega)]
  rfl

/-- The loop of a scan collects the entries that come next. -/
lemma scanLoop_eq (ho : (w.txs (w.buckets b).tx).db = true) {fuel : Nat}
    (hf : H + (leaves w H root).length + 2 ≤ fuel) (es : List (Bytes × Bytes)) {l : NodeId}
    {i : Nat} {st : List ElemRef} (hpos : Pos w root H l i st es.tail) {c : Cursor}
    (hc : c.bucket = some b) (hst : c.stack = ⟨l, (i : Nat)⟩ :: st) {n : Nat} (hn : es.length < n) :
    Bucket.scanLoop fuel w n c (itemOf es.head?) = .ok (es.map foundPair) := by
  induction es generalizing n c l i st with
  | nil =>
    obtain ⟨m, rfl⟩ : ∃ m, n = m + 1 := ⟨n - 1, by omega⟩
    rfl
  | cons e es ih =>
    obtain ⟨m, rfl⟩ : ∃ m, n = m + 1 := ⟨n - 1, by omega⟩
    obtain ⟨l', i', st', hN, hpos'⟩ := next_pos h ho hpos hc hst
    have hrest := ih (c := { c with stack := ⟨l', (i' : Nat)⟩ :: st' }) (n := m) hpos' hc rfl
      (by simpa using hn)
    have hitem : itemOf (e :: es).head? = (some e.1, some e.2) := rfl
    rw [hitem, Bucket.scanLoop, hN fuel hf, List.tail_cons, Outcome.ok_bind, hrest]
    rfl

/-- The loop of `Bucket.ForEach`, for a callback that leaves the state alone. -/
lemma forEachLoop_eq (ho : (w.txs (w.buckets b).tx).db = true) {τ : Type}
    (f : τ → Bytes → Option Bytes → τ × Option Err) (es : List (Bytes × Bytes)) (s : τ) {l : NodeId}
    {i : Nat} {st : List ElemRef} (hpos : Pos w root H l i st es.tail) {c : Cursor}
    (hc : c.bucket = some b) (hst : c.stack = ⟨l, (i : Nat)⟩ :: st) {fuel : Nat}
    (hf : H + (leaves w H root).length + es.length + 3 ≤ fuel) :
    Bucket.forEachLoop (fun s k v => pure (f s k v)) fuel c (itemOf es.head?) s w =
      (.ok (untilErr f es s), w) := by
  induction es generalizing fuel c l i st s with
  | nil =>
    obtain ⟨k, rfl⟩ : ∃ k, fuel = k + 1 := ⟨fuel - 1, by omega⟩
    rfl
  | cons e es ih =>
    obtain ⟨k, rfl⟩ : ∃ k, fuel = k + 1 := ⟨fuel - 1, by omega⟩
    rw [List.length_cons] at hf
    obtain ⟨l', i', st', hN, hpos'⟩ := next_pos h ho hpos hc hst
    have hitem : itemOf (e :: es).head? = (some e.1, some e.2) := rfl
    rw [hitem, untilErr, Bucket.forEachLoop, Prog.pure_bind_apply]
    rcases f s e.1 (some e.2) with ⟨s', _ | err⟩
    · dsimp only
      rw [Prog.query_bind (f := fun w => Cursor.Next k w c) (hN k (by omega))]
      exact ih s' (c := { c with stack := ⟨l', (i' : Nat)⟩ :: st' }) hpos' hc rfl (by omega)
    · rfl

/-- `Bucket.ForEach` hands the contents to a callback that leaves the state alone. -/
lemma forEach_eq (hr : Bucket.rootView w b = some root) (ho : (w.txs (w.buckets b).tx).db = true)
    {τ : Type} (f : τ → Bytes → Option Bytes → τ × Option Err) (s : τ) {fuel : Nat}
    (hf : H + (leaves w H root).length + (contents w H root).length + 3 ≤ fuel) :
    Bucket.forEach fuel b (fun s k v => pure (f s k v)) s w =
      (.ok (untilErr f (contents w H root) s), w) := by
  obtain ⟨l, i, st, hgo, hpos, -⟩ := first_eq h hr ho (c := Bucket.cursor b) rfl
  unfold Bucket.forEach Bucket.txOf
  rw [Prog.read_bind, if_neg (by simp [ho]),
    Prog.query_bind (f := fun w => Cursor.First fuel w (Bucket.cursor b)) (hgo fuel (by omega))]
  exact forEachLoop_eq h ho f _ s hpos rfl rfl hf

/-- A tree with exact ranges answers as the map of its contents. -/
lemma answers_of_tree (hx : Exact w g root) (hr : Bucket.rootView w b = some root)
    (ho : (w.txs (w.buckets b).tx).db = true) : Answers w b h.map := by
  filter_upwards [eventually_ge_atTop (H + (leaves w H root).length + 2),
    eventually_gt_atTop (contents w H root).length] with fuel hf hn
  refine ⟨fun k => get_eq h hx hr (by omega) k, fun c k hc => ?_, ?_⟩
  · obtain ⟨l, i, st, hgo, -⟩ := seek_eq h hx hr ho hc k
    exact ⟨_, hgo fuel hf⟩
  · obtain ⟨l, i, st, hgo, hpos, -⟩ := first_eq h hr ho (c := Bucket.cursor b) rfl
    unfold Bucket.scan
    rw [hgo fuel hf, Outcome.ok_bind]
    exact scanLoop_eq h ho hf _ hpos rfl rfl hn

end

end

end Vmbolt
