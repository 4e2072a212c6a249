import Vmbolt.Refinement.ReverseScan

/-!
# The last key of a bucket

`Last` returns the greatest key if there is one. If every leaf of a tree with several leaves is
empty, it never returns: going back from the first leaf starts again from the front, and from there
`next` runs to the last leaf.
-/

namespace Vmbolt
open Filter Prog

/-- `Last` returns the last entry of the map. -/
def LastFinds (w : World) (b : BucketId) (m : SortedMap Bytes Bytes) : Prop :=
  ∀ c : Cursor, c.bucket = some b →
    ∃ c', ∀ᶠ fuel in atTop, Cursor.Last fuel w c = .ok (itemOf m.entries.getLast?, c')

/-- The stack leads from the root to a node of level `d`. -/
def PathTo (w : World) (root : NodeId) (H d : Nat) (stk : List ElemRef) : Prop :=
  ∃ n i st, stk = ⟨n, i⟩ :: st ∧ Spine w root H d n st

section
variable {w : World} {g : Layout} {root : NodeId} {H d : Nat} {b : BucketId}
  {stk stk' : List ElemRef} {fuel : Nat}

/-! ## A cursor does not leave the tree -/

/-- The child under a position of a branch, if there is one. -/
lemma childOf_inv (h : TreeOK w g root H) {n c : NodeId} {i : Int} {st : List ElemRef}
    (hs : Spine w root H (d + 1) n st) (e : Cursor.childOf w ⟨n, i⟩ = .ok c) :
    Spine w root H d c (⟨n, i⟩ :: st) := by
  unfold Cursor.childOf atIndex at e
  by_cases hi : i < 0
  · simp [hi] at e
  · simp only [if_neg hi] at e
    rcases hx : (w.inodes n)[i.toNat]? with _ | x
    · simp [hx] at e
    · have hc := (h.branch n d (hs.lvl h)).child x (List.mem_of_getElem? hx)
      simp only [hx, hc, Outcome.ok.injEq] at e
      have hcast : ((i.toNat : Nat) : Int) = i := Int.toNat_of_nonneg (not_lt.1 hi)
      have := hs.cons hx
      rwa [hcast, e] at this

/-- A loop that goes down from the top of the stack ends at a leaf. -/
lemma descend_path (h : TreeOK w g root H) {f : Nat → List ElemRef → Outcome Panic (List ElemRef)}
    {start : NodeId → Int} (hzero : ∀ st, f 0 st = .hang)
    (hsucc : ∀ fuel ref st, f (fuel + 1) (ref :: st) = if (w.nodes ref.node).isLeaf
      then .ok (ref :: st)
      else Cursor.childOf w ref >>= fun c => f fuel (⟨c, start c⟩ :: ref :: st))
    (hp : PathTo w root H d stk) (e : f fuel stk = .ok stk') : PathTo w root H 0 stk' := by
  induction fuel generalizing stk d with
  | zero =>
    rw [hzero] at e
    cases e
  | succ fuel ih =>
    obtain ⟨n, i, st, rfl, hs⟩ := hp
    rw [hsucc] at e
    cases d with
    | zero =>
      rw [if_pos (h.isLeaf_true (hs.lvl h))] at e
      cases e
      exact ⟨n, i, st, rfl, hs⟩
    | succ d =>
      rw [if_neg (by simp [h.isLeaf_false (hs.lvl h)])] at e
      obtain ⟨c, hc, e⟩ := Outcome.bind_eq_ok.1 e
      exact ih ⟨c, _, _, rfl, childOf_inv h hs hc⟩ e

lemma goToFirst_path (h : TreeOK w g root H) (hp : PathTo w root H d stk)
    (e : Cursor.goToFirstElementOnTheStack fuel w stk = .ok stk') : PathTo w root H 0 stk' :=
  descend_path h (f := fun k => Cursor.goToFirstElementOnTheStack k w) (fun _ => rfl)
    (fun _ _ _ => rfl) hp e

lemma last_path (h : TreeOK w g root H) (hp : PathTo w root H d stk)
    (e : Cursor.last fuel w stk = .ok stk') : PathTo w root H 0 stk' :=
  descend_path h (f := fun k => Cursor.last k w) (fun _ => rfl) (fun _ _ _ => rfl) hp e

/-- A loop that drops elements until it can move one stays on the path. -/
lemma move_path {f : List ElemRef → Option (List ElemRef)} {c : ElemRef → Prop} [DecidablePred c]
    {idx : ElemRef → Int} (hnil : f [] = none)
    (hcons : ∀ ref st, f (ref :: st) = if c ref then some (⟨ref.node, idx ref⟩ :: st) else f st)
    (hp : PathTo w root H d stk) (e : f stk = some stk') : ∃ d', PathTo w root H d' stk' := by
  obtain ⟨n, i, st, rfl, hs⟩ := hp
  induction st generalizing n i d with
  | nil =>
    rw [hcons, hnil] at e
    split at e
    · cases e
      exact ⟨d, n, _, _, rfl, hs⟩
    · cases e
  | cons ref st ih =>
    rw [hcons] at e
    split at e
    · cases e
      exact ⟨d, n, _, _, rfl, hs⟩
    · cases hs with
      | cons hs hx => exact ih _ _ hs e

/-! ## All leaves are empty -/

lemma nextStack_path {item : Item} (h : TreeOK w g root H) (hp : PathTo w root H 0 stk)
    (e : Cursor.nextStack fuel w stk = .ok (item, stk')) : PathTo w root H 0 stk' := by
  induction fuel generalizing stk with
  | zero => cases e
  | succ fuel ih =>
    rw [Cursor.nextStack] at e
    rcases hm : Cursor.moveOver w stk with _ | st1
    · rw [hm] at e
      cases e
      exact hp
    · simp only [hm] at e
      obtain ⟨d, hp1⟩ := move_path rfl (fun _ _ => rfl) hp hm
      obtain ⟨st2, h2, e⟩ := Outcome.bind_eq_ok.1 e
      have hp2 := goToFirst_path h hp1 h2
      split at e
      · exact ih hp2 e
      · obtain ⟨kv, -, e⟩ := Outcome.bind_eq_ok.1 e
        cases e
        exact hp2

lemma firstStack_path {item : Item} (h : TreeOK w g root H)
    (e : Cursor.firstStack fuel w (some root) = .ok (item, stk')) : PathTo w root H 0 stk' := by
  unfold Cursor.firstStack at e
  obtain ⟨st1, h1, e⟩ := Outcome.bind_eq_ok.1 e
  have hp1 := goToFirst_path h ⟨root, 0, [], rfl, .nil⟩ h1
  obtain ⟨st2, h2, e⟩ := Outcome.bind_eq_ok.1 e
  obtain ⟨kv, -, e⟩ := Outcome.bind_eq_ok.1 e
  cases e
  split at h2
  · obtain ⟨r, hr, h2⟩ := Outcome.bind_eq_ok.1 h2
    cases h2
    exact nextStack_path h hp1 hr
  · cases h2
    exact hp1

lemma prevStack_path {item : Item} (h : TreeOK w g root H) (hp : PathTo w root H 0 stk)
    (e : Cursor.prevStack fuel w (some root) stk = .ok (item, stk')) : PathTo w root H 0 stk' := by
  obtain ⟨l, i, st, rfl, hs⟩ := hp
  unfold Cursor.prevStack at e
  rcases hm : Cursor.moveBack (⟨l, i⟩ :: st) with _ | st1
  · simp only [hm] at e
    obtain ⟨r, hr, e⟩ := Outcome.bind_eq_ok.1 e
    cases e
    exact firstStack_path h hr
  · simp only [hm] at e
    obtain ⟨d, hp1⟩ := move_path rfl (fun _ _ => rfl) ⟨l, i, st, rfl, hs⟩ hm
    obtain ⟨st2, h2, e⟩ := Outcome.bind_eq_ok.1 e
    obtain ⟨kv, -, e⟩ := Outcome.bind_eq_ok.1 e
    cases e
    exact last_path h hp1 h2

/-- The loop of `Last` does not end as long as the leaf on top of the stack is empty. -/
lemma lastLoop_ne_ok (h : TreeOK w g root H) (hH : 0 < H)
    (hemp : contents w H root = []) (hp : PathTo w root H 0 stk) :
    Cursor.lastLoop fuel w (some root) stk ≠ .ok stk' := by
  induction fuel generalizing stk with
  | zero => exact nofun
  | succ fuel ih =>
    intro e
    have hp' := hp
    obtain ⟨l, i, st, rfl, hs⟩ := hp'
    have hlong : 1 < (⟨l, i⟩ :: st).length := by
      cases hs with
      | nil => exact absurd rfl hH.ne'
      | cons _ _ => simp
    have hnil : w.inodes l = [] := by
      rw [hs.contents_eq] at hemp
      simpa [contents] using (List.append_eq_nil_iff.1 (List.append_eq_nil_iff.1 hemp).1).2
    have htop : Cursor.topEmpty w (⟨l, i⟩ :: st) = true := by
      simp [Cursor.topEmpty, Cursor.count, hnil]
    rw [Cursor.lastLoop, if_pos ⟨hlong, htop⟩] at e
    obtain ⟨⟨item, st1⟩, h1, e⟩ := Outcome.bind_eq_ok.1 e
    exact ih (prevStack_path h hp h1) e

/-- `Last` does not return if all leaves of a tree with a branch are empty. -/
lemma lastStack_ne_ok (h : TreeOK w g root H) (hH : 0 < H)
    (hemp : contents w H root = []) {item : Item} :
    Cursor.lastStack fuel w (some root) ≠ .ok (item, stk') := by
  intro e
  unfold Cursor.lastStack at e
  obtain ⟨st1, h1, e⟩ := Outcome.bind_eq_ok.1 e
  obtain ⟨st2, h2, e⟩ := Outcome.bind_eq_ok.1 e
  exact lastLoop_ne_ok h hH hemp (last_path h ⟨root, _, [], rfl, .nil⟩ h1) h2

/-! ## When `Last` finds the last entry -/

/-- `Last` on a cursor of a bucket with the given root. -/
lemma last_eq (hr : Bucket.rootView w b = some root) (ho : (w.txs (w.buckets b).tx).db = true)
    {c : Cursor} (hc : c.bucket = some b) : Cursor.Last fuel w c = (do
      let r ← Cursor.lastStack fuel w (some root)
      pure (r.1, { c with stack := r.2 })) := by
  unfold Cursor.Last Cursor.openRoot
  simp only [hc, ho, if_true, Outcome.ok_bind, hr]

lemma lastFinds_iff {m : SortedMap Bytes Bytes} (h : TreeOK w g root H)
    (hr : Bucket.rootView w b = some root) (ho : (w.txs (w.buckets b).tx).db = true)
    (hm : contents w H root = m.entries) :
    LastFinds w b m ↔ m.entries ≠ [] ∨ (w.nodes root).isLeaf = true := by
  constructor
  · intro hfind
    by_contra hc
    obtain ⟨hnil, hbranch⟩ := not_or.1 hc
    have hH : 0 < H := by
      rcases Nat.eq_zero_or_pos H with rfl | hH
      · exact absurd (h.isLeaf_true h.lvl_root) hbranch
      · exact hH
    obtain ⟨c', he⟩ := hfind (Bucket.cursor b) rfl
    obtain ⟨fuel, e⟩ := he.exists
    rw [last_eq hr ho rfl] at e
    obtain ⟨⟨item, stk⟩, e1, -⟩ := Outcome.bind_eq_ok.1 e
    exact lastStack_ne_ok h hH (by rw [hm]; exact not_not.1 hnil) e1
  · intro hcond c hc
    by_cases hne : m.entries = []
    · -- the root is an empty leaf
      have hleaf := hcond.resolve_left (not_not.2 hne)
      have hH : H = 0 := (h.isLeaf root H h.lvl_root).1 hleaf
      subst hH
      have hemp : w.inodes root = [] := by
        rw [hne] at hm
        simpa [contents] using hm
      refine ⟨{ c with stack := [⟨root, -1⟩] }, ?_⟩
      filter_upwards [eventually_ge_atTop 2] with fuel hf
      obtain ⟨stk, e, rfl, -⟩ := onTree_empty fuel 0 [] h hemp hf .last (.inl trivial)
      have e' : Cursor.lastStack fuel w (some root) = .ok ((none, none), [⟨root, -1⟩]) := by
        rw [hm, hne] at e
        exact e
      rw [last_eq hr ho hc, e', hne]
      rfl
    · obtain ⟨pre, l, post, hsplit, hl, hpost⟩ := exists_last_leaf (hm ▸ hne)
      obtain ⟨st, hgo, -, -⟩ := lastStack_eq h hsplit hl hpost
      refine ⟨{ c with stack := ⟨l, ((w.inodes l).length : Int) - 1⟩ :: st }, ?_⟩
      filter_upwards [eventually_ge_atTop (H + (leaves w H root).length + 2)] with fuel hf
      have hlast : m.entries.getLast? = (contents w 0 l).getLast? := by
        have hp : post.flatMap (contents w 0) = [] :=
          List.flatMap_eq_nil_iff.2 fun x hx => by simp [contents, hpost x hx]
        have hc0 : contents w 0 l ≠ [] := by simpa [contents] using hl
        rw [← hm, contents_eq_leaves, hsplit, List.flatMap_append, List.flatMap_cons, hp,
          List.append_nil, List.getLast?_append_of_ne_nil _ hc0]
      rw [last_eq hr ho hc, hgo fuel hf, hlast]
      rfl

/-- After any sequence of writes, `Last` returns the greatest key exactly if there is a key or the
root is a leaf. -/
theorem last_finds_iff {m : SortedMap Bytes Bytes} (h : StartsAs w b m) (hw : Writable w b)
    (ops : List BucketOp) :
    ∃ w' g r H, Evals (fun fuel => BucketOp.runAll fuel b ops) w (ops.map BucketOp.result) w' ∧
      Bucket.rootView w' b = some r ∧ TreeOK w' g r H ∧
      (LastFinds w' b (ops.foldl BucketOp.apply m) ↔
        (ops.foldl BucketOp.apply m).entries ≠ [] ∨ (w'.nodes r).isLeaf = true) := by
  obtain ⟨w', e, hh, hq⟩ := BucketOp.runAll_eq h.holds hw ops
  obtain ⟨g, r, H, ht, -, hroot, hm, -⟩ := hh.reach
  exact ⟨w', g, r, H, e, hroot, ht, lastFinds_iff ht hroot (hq.opened hw.opened) hm⟩

theorem last_finds_iff_threeLeaves : ∃ w' g r H,
    Evals (fun fuel => BucketOp.runAll fuel 0 [.delete [5], .delete [6]]) threeLeaves
      [none, none] w' ∧
      Bucket.rootView w' 0 = some r ∧ TreeOK w' g r H ∧
      (LastFinds w' 0 ([.delete [5], .delete [6]].foldl BucketOp.apply threeLeaves_tree.map) ↔
        ([.delete [5], .delete [6]].foldl BucketOp.apply threeLeaves_tree.map).entries ≠ [] ∨
          (w'.nodes r).isLeaf = true) :=
  last_finds_iff (.committed threeLeaves_untouched rfl) ⟨rfl, rfl⟩ [.delete [5], .delete [6]]

/-- The deletion of all keys of the three leaves. -/
def deleteAll : List BucketOp :=
  [.delete [1], .delete [2], .delete [3], .delete [4], .delete [5], .delete [6]]

/-- The three leaves after all keys were deleted. -/
@[irreducible] def allEmpty : World := (BucketOp.runAll 10 0 deleteAll threeLeaves).2

lemma allEmpty_evals : Evals (fun fuel => BucketOp.runAll fuel 0 deleteAll) threeLeaves
    (deleteAll.map BucketOp.result) allEmpty := by
  have hrun : (BucketOp.runAll 10 0 deleteAll threeLeaves).1 =
      .ok (deleteAll.map BucketOp.result) := by
    decide +kernel
  unfold allEmpty
  exact (BucketOp.runAll_growing 0 deleteAll).evals_of_fst hrun

/-- `Last` does not return once all keys of the three leaves are deleted. -/
theorem last_hangs_on_empty_leaves :
    Untouched threeLeaves 0 threeLeavesLayout 0 1 ∧ Writable threeLeaves 0 ∧
    Evals (fun fuel => BucketOp.runAll fuel 0 deleteAll) threeLeaves
        (deleteAll.map BucketOp.result) allEmpty ∧
      (∀ᶠ fuel in atTop, Bucket.scan fuel allEmpty 0 = .ok []) ∧
      (∀ c : Cursor, c.bucket = some 0 → ∀ fuel r, Cursor.Last fuel allEmpty c ≠ .ok r) ∧
      ¬ LastFinds allEmpty 0 (deleteAll.foldl BucketOp.apply threeLeaves_tree.map) := by
  have hw : Writable threeLeaves 0 := ⟨rfl, rfl⟩
  obtain ⟨w', e, hh, hq⟩ := BucketOp.runAll_eq (m := threeLeaves_tree.map)
    (StartsAs.committed threeLeaves_untouched rfl).holds hw deleteAll
  obtain ⟨-, rfl⟩ := e.unique allEmpty_evals
  obtain ⟨g, r, H, ht, -, hroot, hm, -⟩ := hh.reach
  have hnil : (deleteAll.foldl BucketOp.apply threeLeaves_tree.map).entries = [] := by
    decide +kernel
  have hbranch : (allEmpty.nodes r).isLeaf = false := by
    have h4 : Bucket.rootView allEmpty 0 = some 4 := by decide +kernel
    obtain rfl : 4 = r := Option.some.inj (h4.symm.trans hroot)
    decide +kernel
  have hH : 0 < H := by
    rcases Nat.eq_zero_or_pos H with rfl | hH
    · rw [ht.isLeaf_true ht.lvl_root] at hbranch
      cases hbranch
    · exact hH
  have ho := hq.opened hw.opened
  have hlast : ∀ c : Cursor, c.bucket = some 0 → ∀ fuel r, Cursor.Last fuel allEmpty c ≠ .ok r := by
    intro c hc fuel x he
    rw [last_eq hroot ho hc] at he
    obtain ⟨⟨item, stk⟩, e1, -⟩ := Outcome.bind_eq_ok.1 he
    exact lastStack_ne_ok ht hH (by rw [hm, hnil]) e1
  refine ⟨threeLeaves_untouched, hw, e, ?_, hlast, fun hfind => ?_⟩
  · have := (hh.answers ho).mono fun _ h => h.2.2
    rwa [hnil] at this
  · obtain ⟨c', he⟩ := hfind (Bucket.cursor 0) rfl
    obtain ⟨fuel, he⟩ := he.exists
    exact hlast _ rfl fuel _ he

end

end Vmbolt
