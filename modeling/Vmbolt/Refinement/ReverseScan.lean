import Vmbolt.Refinement.ArrayCursor
import Vmbolt.Refinement.ReadYourWrites

/-!
# Scanning a bucket backwards

In a write transaction leaves may become empty before the commit removes them. `Last` passes over
empty leaves at the end, and it does not come back if there is no other leaf. `Prev` stops at the
first empty leaf it meets, so a backward scan sees the last run of leaves that hold entries and
nothing before.
-/

namespace Vmbolt
open Filter Prog

namespace Bucket

/-- The loop `for k, v := c.Last(); k != nil; k, v = c.Prev()`, which collects the pairs. -/
def reverseLoop (fuel : Nat) (w : World) :
    Nat → Cursor → Item → Outcome Panic (List (Bytes × Option Bytes))
  | 0, _, _ => .hang
  | _ + 1, _, (none, _) => .ok []
  | n + 1, c, (some k, v) => do
    let r ← Cursor.Prev fuel w c
    let l ← reverseLoop fuel w n r.2 r.1
    pure ((k, v) :: l)

/-- A complete scan of a bucket with `Last` and `Prev`. -/
def reverseScan (fuel : Nat) (w : World) (b : BucketId) :
    Outcome Panic (List (Bytes × Option Bytes)) := do
  let r ← Cursor.Last fuel w (cursor b)
  reverseLoop fuel w fuel r.2 r.1

end Bucket

lemma Bucket.reverseScan_growing (w : World) (b : BucketId) :
    Outcome.Growing fun k => Bucket.reverseScan k w b := by
  have hloop : ∀ (k n : Nat) (c : Cursor) (i : Item),
      (Bucket.reverseLoop k w n c i).Below (Bucket.reverseLoop (k + 1) w (n + 1) c i) := by
    intro k n
    induction n with
    | zero => exact fun _ _ => .inl rfl
    | succ n ih =>
      rintro c ⟨_ | key, v⟩
      · exact .refl _
      · exact (Prev_growing w c k).bind fun r => (ih r.2 r.1).bind fun _ => .refl _
  exact fun k => (Last_growing w _ k).bind fun r => hloop k k r.2 r.1

/-- The backward scan of a bucket is the reverse of the forward scan. -/
def Mirrored (w : World) (b : BucketId) : Prop :=
  ∃ l, (∀ᶠ fuel in atTop, Bucket.scan fuel w b = .ok l) ∧
    ∀ᶠ fuel in atTop, Bucket.reverseScan fuel w b = .ok l.reverse

/-- No empty leaf lies between two leaves that hold entries. -/
def Contiguous (w : World) (ls : List NodeId) : Prop :=
  ∀ a x b, ls = a ++ x :: b → w.inodes x = [] →
    (∀ y ∈ a, w.inodes y = []) ∨ ∀ y ∈ b, w.inodes y = []

/-- The entries a backward scan finds in the leaves `ls`, nearest first: it stops at an empty
leaf. -/
def backEntries (w : World) : List NodeId → List (Bytes × Bytes)
  | [] => []
  | l :: ls => if w.inodes l = [] then [] else (contents w 0 l).reverse ++ backEntries w ls

section
variable {w : World} {g : Layout} {root l : NodeId} {H : Nat} {st : List ElemRef} {b : BucketId}

/-! ## The last entry -/

/-- The loop of `Last` goes back to the last leaf that holds an entry. -/
lemma lastLoop_eq (h : TreeOK w g root H) {l0 : NodeId} (hs : Spine w root H 0 l0 st)
    {pre post : List NodeId} (hne : w.inodes l ≠ []) (hpost : ∀ x ∈ post, w.inodes x = [])
    (hsplit : leavesBefore w 1 st ++ [l0] = pre ++ l :: post) :
    ∃ st', (∀ fuel, H + post.length + 2 ≤ fuel → Cursor.lastLoop fuel w (some root)
        (⟨l0, ((w.inodes l0).length : Int) - 1⟩ :: st) =
          .ok (⟨l, ((w.inodes l).length : Int) - 1⟩ :: st')) ∧
      Spine w root H 0 l st' ∧ leavesBefore w 1 st' = pre := by
  induction post using List.reverseRecOn generalizing l0 st with
  | nil =>
    obtain ⟨hpre, hl⟩ := List.append_inj' hsplit rfl
    obtain rfl := List.singleton_inj.1 hl
    refine ⟨st, fun fuel hf => ?_, hs, hpre⟩
    obtain ⟨k, rfl⟩ : ∃ k, fuel = k + 1 := ⟨fuel - 1, by omega⟩
    have htop : Cursor.topEmpty w (⟨l0, ((w.inodes l0).length : Int) - 1⟩ :: st) = false := by
      simpa [Cursor.topEmpty, Cursor.count] using hne
    rw [Cursor.lastLoop, if_neg (by simp [htop])]
  | append_singleton post x ih =>
    have hsplit' : leavesBefore w 1 st ++ [l0] = (pre ++ l :: post) ++ [x] := by simpa using hsplit
    obtain ⟨hpre, hl⟩ := List.append_inj' hsplit' rfl
    obtain rfl := List.singleton_inj.1 hl
    have hemp : w.inodes l0 = [] := hpost l0 (by simp)
    -- the leaf before
    obtain ⟨pre1, l1, hpre1⟩ : ∃ pre1 l1, leavesBefore w 1 st = pre1 ++ [l1] := by
      rcases List.eq_nil_or_concat (leavesBefore w 1 st) with e | ⟨pre1, l1, e⟩
      · rw [hpre] at e
        simp at e
      · exact ⟨pre1, l1, by simpa using e⟩
    obtain ⟨st1, hprev, hs1, hb1⟩ := prevStack_over h hs (i := ((w.inodes l0).length : Int) - 1)
      (by simp [hemp]) hpre1
    obtain ⟨st', hgo, hs', hb'⟩ := ih hs1 (fun y hy => hpost y (by simp [hy]))
      (by rw [hb1, ← hpre1, hpre])
    refine ⟨st', fun fuel hf => ?_, hs', hb'⟩
    simp only [List.length_append, List.length_singleton] at hf
    obtain ⟨k, rfl⟩ : ∃ k, fuel = k + 1 := ⟨fuel - 1, by omega⟩
    have hlong : 1 < (⟨l0, ((w.inodes l0).length : Int) - 1⟩ :: st).length := by
      cases hs with
      | nil => simp [leavesBefore] at hpre1
      | cons _ _ => simp
    have htop : Cursor.topEmpty w (⟨l0, ((w.inodes l0).length : Int) - 1⟩ :: st) = true := by
      simp [Cursor.topEmpty, Cursor.count, hemp]
    rw [Cursor.lastLoop, if_pos ⟨hlong, htop⟩, hprev k (by omega)]
    exact hgo k (by omega)

/-- The last leaf that holds an entry. -/
lemma exists_last_leaf (hne : contents w H root ≠ []) : ∃ pre l post,
    leaves w H root = pre ++ l :: post ∧ w.inodes l ≠ [] ∧ ∀ x ∈ post, w.inodes x = [] := by
  have key : ∀ ls : List NodeId, ls.flatMap (contents w 0) ≠ [] →
      ∃ pre l post, ls = pre ++ l :: post ∧ w.inodes l ≠ [] ∧ ∀ x ∈ post, w.inodes x = [] := by
    intro ls
    induction ls with
    | nil => simp
    | cons x ls ih =>
      intro hx
      by_cases hls : ls.flatMap (contents w 0) = []
      · refine ⟨[], x, ls, rfl, fun e => hx ?_, fun y hy => ?_⟩
        · rw [List.flatMap_cons, hls]
          simp [contents, e]
        · have := List.flatMap_eq_nil_iff.1 hls y hy
          simpa [contents] using this
      · obtain ⟨pre, l, post, rfl, h1, h2⟩ := ih hls
        exact ⟨x :: pre, l, post, rfl, h1, h2⟩
  rw [contents_eq_leaves] at hne
  exact key _ hne

/-- `Last` stands on the last entry, if there is one. -/
lemma lastStack_eq (h : TreeOK w g root H) {pre post : List NodeId}
    (hsplit : leaves w H root = pre ++ l :: post) (hne : w.inodes l ≠ [])
    (hpost : ∀ x ∈ post, w.inodes x = []) :
    ∃ st, (∀ fuel, H + (leaves w H root).length + 2 ≤ fuel → Cursor.lastStack fuel w (some root) =
        .ok (itemOf (contents w 0 l).getLast?, ⟨l, ((w.inodes l).length : Int) - 1⟩ :: st)) ∧
      Spine w root H 0 l st ∧ leavesBefore w 1 st = pre := by
  obtain ⟨l0, st0, hgo, hs0, e⟩ := goToLast_eq h (.nil : Spine w root H H root [])
  have e' : leavesBefore w 1 st0 ++ [l0] = pre ++ l :: post := by
    rw [← hsplit, ← e]
    simp [leavesBefore]
  obtain ⟨st, hloop, hs, hb⟩ := lastLoop_eq h hs0 hne hpost e'
  refine ⟨st, fun fuel hf => ?_, hs, hb⟩
  rw [hsplit, List.length_append, List.length_cons] at hf
  unfold Cursor.lastStack
  simp only [hgo fuel (by omega), Outcome.ok_bind, hloop fuel (by omega),
    keyValue_last h (hs.lvl h)]
  rfl

/-! ## The backward scan -/

/-- The last position of a leaf that holds entries. -/
lemma contents_last (hne : w.inodes l ≠ []) :
    (contents w 0 l)[(w.inodes l).length - 1]? = (contents w 0 l).getLast? ∧
      (contents w 0 l).take ((w.inodes l).length - 1 + 1) = contents w 0 l := by
  have hpos : 0 < (w.inodes l).length := List.length_pos_iff.2 hne
  rw [Nat.sub_add_cancel hpos, ← length_contents_zero, List.getLast?_eq_getElem?]
  exact ⟨rfl, List.take_length⟩

/-- `Prev` on a cursor whose stack is on the tree of its bucket. -/
lemma prev_eq (hr : Bucket.rootView w b = some root) (ho : (w.txs (w.buckets b).tx).db = true)
    {c : Cursor} (hc : c.bucket = some b) {fuel : Nat} {stk : List ElemRef} {item : Item}
    (e : Cursor.prevStack fuel w (some root) c.stack = .ok (item, stk)) :
    Cursor.Prev fuel w c = .ok (item, { c with stack := stk }) := by
  unfold Cursor.Prev Cursor.openRoot
  simp only [hc, ho, if_true, Outcome.ok_bind, hr, e]
  rfl

/-- The loop of a backward scan collects the entries of the leaf up to its position, and those of
the leaves before until one is empty. -/
lemma reverseLoop_eq (h : TreeOK w g root H) (hr : Bucket.rootView w b = some root)
    (ho : (w.txs (w.buckets b).tx).db = true) {fuel : Nat}
    (hf : H + (leaves w H root).length + 2 ≤ fuel) {rs : List NodeId} {i : Nat}
    (hs : Spine w root H 0 l st) (hrs : leavesBefore w 1 st = rs.reverse)
    (hi : i < (w.inodes l).length) {c : Cursor} (hc : c.bucket = some b)
    (hst : c.stack = ⟨l, (i : Nat)⟩ :: st) {n : Nat}
    (hn : i + 1 + (backEntries w rs).length < n) :
    Bucket.reverseLoop fuel w n c (itemOf (contents w 0 l)[i]?) =
      .ok ((((contents w 0 l).take (i + 1)).reverse ++ backEntries w rs).map foundPair) := by
  -- the item the cursor stands on comes first
  have hitem : ∀ {l : NodeId} {i : Nat} {c c' : Cursor} {item : Item} {n : Nat}
      {es : List (Bytes × Bytes)}, i < (w.inodes l).length →
      Cursor.Prev fuel w c = .ok (item, c') →
      Bucket.reverseLoop fuel w n c' item =
      .ok ((((contents w 0 l).take i).reverse ++ es).map foundPair) →
      Bucket.reverseLoop fuel w (n + 1) c (itemOf (contents w 0 l)[i]?) =
        .ok ((((contents w 0 l).take (i + 1)).reverse ++ es).map foundPair) := by
    intro l i c c' item n es hi hprev hrest
    have hlt : i < (contents w 0 l).length := by rwa [length_contents_zero]
    rw [List.getElem?_eq_getElem hlt, ← List.take_concat_get' _ _ hlt]
    simp only [itemOf, Bucket.reverseLoop, hprev, Outcome.ok_bind, hrest, Outcome.pure_eq,
      List.reverse_append, List.reverse_singleton, List.cons_append,
      List.map_cons]
    rfl
  induction rs generalizing l st i c n with
  | nil =>
    induction i generalizing c n with
    | zero =>
      obtain ⟨m, rfl⟩ : ∃ m, n = m + 2 := ⟨n - 2, by omega⟩
      obtain ⟨l1, i1, st1, hfirst, -⟩ := firstStack_eq h
      have e : Cursor.prevStack fuel w (some root) c.stack =
          .ok ((none, none), ⟨l1, (i1 : Nat)⟩ :: st1) := by
        rw [hst, prevStack_begin h hs (by simp) hrs, hfirst fuel hf]
        rfl
      exact hitem hi (prev_eq hr ho hc e) rfl
    | succ i ih =>
      obtain ⟨m, rfl⟩ : ∃ m, n = m + 1 := ⟨n - 1, by omega⟩
      obtain ⟨k, rfl⟩ : ∃ k, fuel = k + 1 := ⟨fuel - 1, by omega⟩
      have e : Cursor.prevStack (k + 1) w (some root) c.stack =
          .ok (itemOf (contents w 0 l)[i]?, ⟨l, (i : Nat)⟩ :: st) := by
        rw [hst, prevStack_within h (hs.lvl h)]
      exact hitem hi (prev_eq hr ho hc e)
        (ih (by omega) (c := { c with stack := ⟨l, (i : Nat)⟩ :: st }) hc rfl (by omega))
  | cons l' rs ihrs =>
    induction i generalizing c n with
    | zero =>
      obtain ⟨m, rfl⟩ : ∃ m, n = m + 1 := ⟨n - 1, by omega⟩
      obtain ⟨st', hover, hs', hb'⟩ := prevStack_over h hs (i := ((0 : Nat) : Int)) (by simp)
        (hrs.trans (List.reverse_cons ..))
      have e : Cursor.prevStack fuel w (some root) c.stack = .ok (itemOf (contents w 0 l').getLast?,
          ⟨l', ((w.inodes l').length : Int) - 1⟩ :: st') := by
        rw [hst, hover fuel (by omega)]
      refine hitem hi (prev_eq hr ho hc e) ?_
      by_cases hemp : w.inodes l' = []
      · -- the leaf before is empty: `Prev` returns nil
        obtain ⟨m, rfl⟩ : ∃ k, m = k + 1 := ⟨m - 1, by omega⟩
        simp [contents, hemp, backEntries, itemOf, Bucket.reverseLoop]
      · have hpos : 0 < (w.inodes l').length := List.length_pos_iff.2 hemp
        have hidx : ((w.inodes l').length : Int) - 1 =
            (((w.inodes l').length - 1 : Nat) : Int) := by
          omega
        have hrest := ihrs hs' hb' (i := (w.inodes l').length - 1) (by omega) (n := m)
          (c := { c with stack := ⟨l', ((w.inodes l').length : Int) - 1⟩ :: st' }) hc (by rw [hidx])
          (by
            simp only [backEntries, if_neg hemp, List.length_append, List.length_reverse,
              length_contents_zero] at hn
            omega)
        rw [(contents_last hemp).1, (contents_last hemp).2] at hrest
        rw [hrest]
        simp [backEntries, hemp]
    | succ i ih =>
      obtain ⟨m, rfl⟩ : ∃ m, n = m + 1 := ⟨n - 1, by omega⟩
      obtain ⟨k, rfl⟩ : ∃ k, fuel = k + 1 := ⟨fuel - 1, by omega⟩
      have e : Cursor.prevStack (k + 1) w (some root) c.stack =
          .ok (itemOf (contents w 0 l)[i]?, ⟨l, (i : Nat)⟩ :: st) := by
        rw [hst, prevStack_within h (hs.lvl h)]
      exact hitem hi (prev_eq hr ho hc e)
        (ih (by omega) (c := { c with stack := ⟨l, (i : Nat)⟩ :: st }) hc rfl (by omega))

/-- A backward scan finds the entries of the last run of leaves that hold entries. -/
lemma reverseScan_eq (h : TreeOK w g root H) (hr : Bucket.rootView w b = some root)
    (ho : (w.txs (w.buckets b).tx).db = true) {pre post : List NodeId}
    (hsplit : leaves w H root = pre ++ l :: post) (hne : w.inodes l ≠ [])
    (hpost : ∀ x ∈ post, w.inodes x = []) :
    ∀ᶠ fuel in atTop, Bucket.reverseScan fuel w b =
      .ok (((contents w 0 l).reverse ++ backEntries w pre.reverse).map foundPair) := by
  obtain ⟨st, hlast, hs, hb⟩ := lastStack_eq h hsplit hne hpost
  have hpos : 0 < (w.inodes l).length := List.length_pos_iff.2 hne
  have hidx : ((w.inodes l).length : Int) - 1 = (((w.inodes l).length - 1 : Nat) : Int) := by omega
  filter_upwards [eventually_ge_atTop (H + (leaves w H root).length + 2),
    eventually_gt_atTop ((w.inodes l).length + (backEntries w pre.reverse).length)] with fuel hf hn
  have hL : Cursor.Last fuel w (Bucket.cursor b) = .ok (itemOf (contents w 0 l).getLast?,
      { Bucket.cursor b with stack := ⟨l, ((w.inodes l).length : Int) - 1⟩ :: st }) := by
    unfold Cursor.Last Cursor.openRoot
    simp only [Bucket.cursor, ho, if_true, Outcome.ok_bind, hr, hlast fuel hf]
    rfl
  have hloop := reverseLoop_eq h hr ho hf (i := (w.inodes l).length - 1) hs
    (hb.trans (List.reverse_reverse _).symm) (by omega)
    (c := { Bucket.cursor b with stack := ⟨l, ((w.inodes l).length : Int) - 1⟩ :: st }) rfl
    (by rw [hidx]) (n := fuel) (by omega)
  rw [(contents_last hne).1, (contents_last hne).2] at hloop
  unfold Bucket.reverseScan
  rw [hL]
  exact hloop

/-- The entries before an empty leaf are missed unless there are none. -/
lemma backEntries_eq_iff {rs : List NodeId} :
    backEntries w rs = rs.flatMap (fun l => (contents w 0 l).reverse) ↔
      ∀ a x b, rs = a ++ x :: b → w.inodes x = [] → ∀ y ∈ b, w.inodes y = [] := by
  have hnil : ∀ l : NodeId, contents w 0 l = [] ↔ w.inodes l = [] := fun l => by simp [contents]
  induction rs with
  | nil => simp [backEntries]
  | cons l rs ih =>
    by_cases hl : w.inodes l = []
    · have hflat : [] = (l :: rs).flatMap (fun l => (contents w 0 l).reverse) ↔
          ∀ y ∈ rs, w.inodes y = [] := by
        rw [eq_comm, List.flatMap_eq_nil_iff]
        simp [hnil, hl]
      rw [backEntries, if_pos hl, hflat]
      refine ⟨fun h a x b e _ y hy => ?_, fun h => h [] l rs rfl hl⟩
      cases a with
      | nil =>
        cases e
        exact h y hy
      | cons z a =>
        cases e
        exact h y (by simp [hy])
    · rw [backEntries, if_neg hl, List.flatMap_cons, List.append_cancel_left_eq]
      refine ih.trans ⟨fun h a x b e hx => ?_, fun h a x b e => h (l :: a) x b (by rw [e]; rfl)⟩
      cases a with
      | nil =>
        cases e
        exact absurd hx hl
      | cons z a =>
        cases e
        exact h a x b rfl hx

/-- The last leaf that holds entries has a run of such leaves before it, and nothing before that. -/
lemma contiguous_iff {pre post : List NodeId} (hne : w.inodes l ≠ [])
    (hpost : ∀ x ∈ post, w.inodes x = []) : Contiguous w (pre ++ l :: post) ↔
      ∀ a x b, pre.reverse = a ++ x :: b → w.inodes x = [] → ∀ y ∈ b, w.inodes y = [] := by
  constructor
  · intro h a x b e hx y hy
    have hpre : pre = b.reverse ++ x :: a.reverse := by
      rw [← List.reverse_reverse pre, e]
      simp
    rcases h b.reverse x (a.reverse ++ l :: post) (by simp [hpre]) hx with h1 | h1
    · exact h1 y (by simpa using hy)
    · exact absurd (h1 l (by simp)) hne
  · intro h a x b e hx
    rcases List.append_eq_append_iff.1 e with ⟨c, rfl, hc⟩ | ⟨c, rfl, hc⟩
    · -- the empty leaf is not before the last one that holds entries
      cases c with
      | nil =>
        cases hc
        exact absurd hx hne
      | cons z c =>
        cases hc
        exact .inr fun y hy => hpost y (by simp [hy])
    · cases c with
      | nil =>
        cases hc
        exact absurd hx hne
      | cons z c =>
        cases hc
        refine .inl fun y hy => h c.reverse x a.reverse (by simp) hx y (by simpa using hy)

/-- Backwards and forwards agree exactly if no empty leaf lies between two leaves that hold
entries. -/
lemma mirrored_iff (h : TreeOK w g root H) (hx : Exact w g root)
    (hr : Bucket.rootView w b = some root) (ho : (w.txs (w.buckets b).tx).db = true)
    (hne : contents w H root ≠ []) : Mirrored w b ↔ Contiguous w (leaves w H root) := by
  obtain ⟨pre, l, post, hsplit, hl, hpost⟩ := exists_last_leaf hne
  have hrev := reverseScan_eq h hr ho hsplit hl hpost
  have hfwd : ∀ᶠ fuel in atTop, Bucket.scan fuel w b = .ok ((contents w H root).map foundPair) :=
    (answers_of_tree h hx hr ho).mono fun _ h => h.2.2
  have hcont : (contents w H root).reverse =
      (contents w 0 l).reverse ++ pre.reverse.flatMap fun l => (contents w 0 l).reverse := by
    have hp : post.flatMap (contents w 0) = [] :=
      List.flatMap_eq_nil_iff.2 fun x hx => by simp [contents, hpost x hx]
    rw [contents_eq_leaves, hsplit, List.flatMap_append, List.flatMap_cons, hp, List.append_nil,
      List.reverse_append, List.reverse_flatMap]
    rfl
  have hinj : Function.Injective foundPair := by
    rintro ⟨k, v⟩ ⟨k', v'⟩ e
    cases e
    rfl
  have hiff : ((contents w 0 l).reverse ++ backEntries w pre.reverse).map foundPair =
      ((contents w H root).map foundPair).reverse ↔ Contiguous w (leaves w H root) := by
    rw [← List.map_reverse, hcont, (List.map_injective_iff.2 hinj).eq_iff,
      List.append_cancel_left_eq, backEntries_eq_iff, hsplit, contiguous_iff hl hpost]
  rw [← hiff]
  constructor
  · rintro ⟨es, h1, h2⟩
    obtain ⟨fuel, ⟨e1, e2⟩, e3, e4⟩ := ((hfwd.and hrev).and (h1.and h2)).exists
    have hes : es = (contents w H root).map foundPair := by
      rw [e1] at e3
      exact (Outcome.ok.inj e3).symm
    rw [e2, hes] at e4
    exact Outcome.ok.inj e4
  · intro e
    exact ⟨_, hfwd, e ▸ hrev⟩

/-- After any sequence of writes that leaves an entry, the backward scan is the reverse of the
forward scan exactly if no empty leaf lies between two leaves that hold entries. -/
theorem backward_scan_mirrors_iff {m : SortedMap Bytes Bytes} (h : StartsAs w b m)
    (hw : Writable w b) (ops : List BucketOp) (hne : (ops.foldl BucketOp.apply m).entries ≠ []) :
    ∃ w' g r H, Evals (fun fuel => BucketOp.runAll fuel b ops) w (ops.map BucketOp.result) w' ∧
      Bucket.rootView w' b = some r ∧ TreeOK w' g r H ∧
      (Mirrored w' b ↔ Contiguous w' (leaves w' H r)) := by
  obtain ⟨w', e, hh, hq⟩ := BucketOp.runAll_eq h.holds hw ops
  obtain ⟨g, r, H, ht, hx, hroot, hm, -⟩ := hh.reach
  exact ⟨w', g, r, H, e, hroot, ht, mirrored_iff ht hx hroot (hq.opened hw.opened) (hm ▸ hne)⟩

theorem backward_scan_mirrors_iff_threeLeaves : ∃ w' g r H,
    Evals (fun fuel => BucketOp.runAll fuel 0 [.delete [1], .delete [2]]) threeLeaves
      [none, none] w' ∧
      Bucket.rootView w' 0 = some r ∧ TreeOK w' g r H ∧
      (Mirrored w' 0 ↔ Contiguous w' (leaves w' H r)) :=
  backward_scan_mirrors_iff (.committed threeLeaves_untouched (m := threeLeaves_tree.map) rfl)
    ⟨rfl, rfl⟩ [.delete [1], .delete [2]] (by decide)

/-- The three leaves after the middle one was emptied. -/
def middleEmpty : World := (BucketOp.runAll 10 0 [.delete [3], .delete [4]] threeLeaves).2

/-- A backward scan misses the entries before an empty leaf in the middle. -/
theorem backward_scan_misses_entries :
    Untouched threeLeaves 0 threeLeavesLayout 0 1 ∧ Writable threeLeaves 0 ∧
    Evals (fun fuel => BucketOp.runAll fuel 0 [.delete [3], .delete [4]]) threeLeaves [none, none]
      middleEmpty ∧
    (∀ᶠ fuel in atTop, Bucket.scan fuel middleEmpty 0 =
      .ok [([1], some []), ([2], some []), ([5], some []), ([6], some [])]) ∧
    (∀ᶠ fuel in atTop, Bucket.reverseScan fuel middleEmpty 0 =
      .ok [([6], some []), ([5], some [])]) ∧ ¬ Mirrored middleEmpty 0 := by
  have hrun : (BucketOp.runAll 10 0 [.delete [3], .delete [4]] threeLeaves).1 =
      .ok [none, none] := by
    decide +kernel
  have hf : Bucket.scan 10 middleEmpty 0 =
      .ok [([1], some []), ([2], some []), ([5], some []), ([6], some [])] := by decide +kernel
  have hb : Bucket.reverseScan 10 middleEmpty 0 = .ok [([6], some []), ([5], some [])] := by
    decide +kernel
  have hfwd := (Bucket.scan_growing middleEmpty 0).eventually_eq_ok hf
  have hbwd := (Bucket.reverseScan_growing middleEmpty 0).eventually_eq_ok hb
  refine ⟨threeLeaves_untouched, ⟨rfl, rfl⟩, (BucketOp.runAll_growing 0 _).evals_of_fst hrun, hfwd,
    hbwd, ?_⟩
  rintro ⟨l, h1, h2⟩
  obtain ⟨fuel, ⟨e1, e2⟩, e3, e4⟩ := ((hfwd.and hbwd).and (h1.and h2)).exists
  rw [e1] at e3
  cases e3
  rw [e2] at e4
  exact absurd e4 (by decide)

end

end Vmbolt
