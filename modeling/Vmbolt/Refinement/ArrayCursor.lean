import Vmbolt.Isolation.Reads
import Vmbolt.Tree.Path
import Vmbolt.Tree.Reverse

/-!
# A cursor as an index into an array

On a committed tree a cursor is an index into the array of the entries: every call returns what the
index returns, whatever calls came before. `Stands` relates the stack of a cursor to the index.
-/

namespace Vmbolt
open Filter

/-- The call on an index `p` into the array `es`. -/
def CursorOp.onArray (es : List (Bytes × Bytes)) (p : Int) : CursorOp → Item × Int
  | first => (itemOf (atIndex es 0), 0)
  | last => (itemOf (atIndex es (es.length - 1)), es.length - 1)
  | next => if p + 1 < es.length then (itemOf (atIndex es (p + 1)), p + 1) else ((none, none), p)
  | prev => if 0 < p then (itemOf (atIndex es (p - 1)), p - 1) else ((none, none), 0)
  | seek key =>
    let q : Nat := es.countP fun e => e.1 < key
    (itemOf (atIndex es q), q)

/-- The calls that set a cursor, wherever it stood. -/
def CursorOp.Sets : CursorOp → Prop
  | first => True
  | last => True
  | seek _ => True
  | next => False
  | prev => False

namespace Cursor

/-- The items that a sequence of calls on a cursor returns. -/
def runAll (fuel : Nat) (w : World) : Cursor → List CursorOp → Outcome Panic (List Item)
  | _, [] => pure []
  | c, op :: ops => do
    let r ← op.run fuel w c
    let items ← runAll fuel w r.2 ops
    pure (r.1 :: items)

/-- The items that a sequence of calls on an index returns. -/
def arrayItems (es : List (Bytes × Bytes)) : Int → List CursorOp → List Item
  | _, [] => []
  | p, op :: ops => (op.onArray es p).1 :: arrayItems es (op.onArray es p).2 ops

end Cursor

/-- The number of entries in the leaves to the left of a path. -/
def countBefore (w : World) (st : List ElemRef) : Nat :=
  ((leavesBefore w 1 st).flatMap (contents w 0)).length

/-- The stack of a cursor stands at the index `p` of the entries of the tree. -/
inductive Stands (w : World) (root : NodeId) (H : Nat) : Int → List ElemRef → Prop
  | on {l : NodeId} {i : Nat} {st : List ElemRef} : Spine w root H 0 l st →
    i < (w.inodes l).length → Stands w root H (countBefore w st + i : Nat) (⟨l, (i : Nat)⟩ :: st)
  | behind {l : NodeId} {st : List ElemRef} : Spine w root H 0 l st → leavesAbove w 1 st = [] →
    Stands w root H (countBefore w st + (w.inodes l).length : Nat)
      (⟨l, ((w.inodes l).length : Nat)⟩ :: st)

section
variable {w : World} {g : Layout} {root l : NodeId} {H : Nat} {st stk : List ElemRef} {p : Int}

lemma atIndex_natCast {α : Type} (es : List α) (i : Nat) : atIndex es (i : Int) = es[i]? := by
  have h0 : ¬ ((i : Int) < 0) := by omega
  simp [atIndex, h0]

lemma length_contents_zero (w : World) (l : NodeId) :
    (contents w 0 l).length = (w.inodes l).length := by simp [contents]

/-- The number of entries around a leaf. -/
lemma Spine.length_contents (hs : Spine w root H 0 l st) : (contents w H root).length =
    countBefore w st + (w.inodes l).length +
      ((leavesAbove w 1 st).flatMap (contents w 0)).length := by
  rw [hs.contents_eq, List.length_append, List.length_append, length_contents_zero]
  rfl

/-- The entry at a position of a leaf. -/
lemma Spine.getElem?_contents (hs : Spine w root H 0 l st) {i : Nat}
    (hi : i < (w.inodes l).length) :
    (contents w H root)[countBefore w st + i]? = (contents w 0 l)[i]? := by
  unfold countBefore
  rw [hs.contents_eq, List.append_assoc, List.getElem?_append_right (by omega),
    Nat.add_sub_cancel_left, List.getElem?_append_left (by rw [length_contents_zero]; exact hi)]

/-- The leaf before the next one. -/
lemma Spine.countBefore_next {l' : NodeId} {st' : List ElemRef} (hs : Spine w root H 0 l st)
    (hs' : Spine w root H 0 l' st') (e : leavesAbove w 1 st = l' :: leavesAbove w 1 st') :
    countBefore w st' = countBefore w st + (w.inodes l).length := by
  have h1 := hs.leaves_eq
  rw [hs'.leaves_eq, e] at h1
  have h2 : leavesBefore w 1 st' ++ (l' :: leavesAbove w 1 st') =
      leavesBefore w 1 st ++ [l] ++ (l' :: leavesAbove w 1 st') := by
    simpa [leaves] using h1
  unfold countBefore
  rw [List.append_cancel_right h2, List.flatMap_append, List.length_append]
  simp [length_contents_zero]

/-- The keys in the leaves to the left of a path are below the range of its end. -/
lemma Spine.before_lt (h : TreeOK w g root H) (hs : Spine w root H 0 l st) :
    ∀ x ∈ (leavesBefore w 1 st).flatMap (contents w 0), x.1 < g.lo l := by
  obtain ⟨pre, hp, hlt, -⟩ := hs.split h
  have : leavesBefore w 1 st = pre := by
    have e := hs.leaves_eq
    rw [hp, List.append_assoc, List.append_assoc] at e
    exact (List.append_cancel_right e).symm
  rwa [this]

/-! ## Single calls on a tree without empty leaves -/

/-- A call on the stack does what the call on the index does. -/
def Follows (w : World) (root : NodeId) (H : Nat) (x : Outcome Panic (Item × List ElemRef))
    (y : Item × Int) : Prop := ∃ stk, x = .ok (y.1, stk) ∧ Stands w root H y.2 stk

/-- The item and the index of a position in a leaf. -/
lemma Follows.on (hs : Spine w root H 0 l st) {i : Nat} (hi : i < (w.inodes l).length)
    {x : Outcome Panic (Item × List ElemRef)} {q : Int} (hq : q = (countBefore w st + i : Nat))
    (hx : x = .ok (itemOf (contents w 0 l)[i]?, ⟨l, (i : Nat)⟩ :: st)) :
    Follows w root H x (itemOf (atIndex (contents w H root) q), q) := by
  subst hq
  refine ⟨_, hx.trans ?_, .on hs hi⟩
  rw [atIndex_natCast, hs.getElem?_contents hi]

section
variable (h : TreeOK w g root H)
include h

lemma firstStack_follows (hne : ∀ l ∈ leaves w H root, w.inodes l ≠ []) {fuel : Nat}
    (hf : H + (leaves w H root).length + 2 ≤ fuel) :
    Follows w root H (Cursor.firstStack fuel w (some root))
      (itemOf (atIndex (contents w H root) 0), 0) := by
  obtain ⟨l, st, hgo, hs, e⟩ := goToFirst_eq h (.nil : Spine w root H H root [])
  have hleaves : leaves w H root = l :: leavesAbove w 1 st := by simpa [leavesAbove] using e
  have hbefore : countBefore w st = 0 := by
    have := hs.leaves_eq
    rw [hleaves] at this
    have hnil : leavesBefore w 1 st = [] := by
      have := congrArg List.length this
      simp [leaves] at this
      exact this
    simp [countBefore, hnil]
  have hpos : 0 < (w.inodes l).length := List.length_pos_iff.2 (hne l (by simp [hleaves]))
  refine .on hs hpos (by simp [hbefore]) ?_
  have htop : Cursor.topEmpty w (⟨l, 0⟩ :: st) = false := by
    have : (w.inodes l).length ≠ 0 := by omega
    simpa [Cursor.topEmpty, Cursor.count] using this
  have hkv : Cursor.keyValue w (⟨l, (0 : Nat)⟩ :: st) = _ := keyValue_eq h (hs.lvl h) 0
  rw [show ((0 : Nat) : Int) = 0 from rfl] at hkv
  unfold Cursor.firstStack
  simp only [hgo fuel (by omega), Outcome.ok_bind, htop, Bool.false_eq_true, if_false,
    Outcome.pure_eq, hkv]
  rfl

lemma lastStack_follows (hne : ∀ l ∈ leaves w H root, w.inodes l ≠ []) {fuel : Nat}
    (hf : H + (leaves w H root).length + 2 ≤ fuel) :
    Follows w root H (Cursor.lastStack fuel w (some root))
      (itemOf (atIndex (contents w H root) ((contents w H root).length - 1)),
        (contents w H root).length - 1) := by
  obtain ⟨l, st, hgo, hs, e⟩ := goToLast_eq h (.nil : Spine w root H H root [])
  have hleaves : leaves w H root = leavesBefore w 1 st ++ [l] := by simpa [leavesBefore] using e
  have habove : leavesAbove w 1 st = [] := by
    have := hs.leaves_eq
    rw [hleaves] at this
    simpa [leaves] using this
  have hpos : 0 < (w.inodes l).length := List.length_pos_iff.2 (hne l (by simp [hleaves]))
  have hlen := hs.length_contents
  simp only [habove, List.flatMap_nil, List.length_nil] at hlen
  have hidx : ((w.inodes l).length : Int) - 1 = (((w.inodes l).length - 1 : Nat) : Int) := by omega
  refine .on (i := (w.inodes l).length - 1) hs (by omega) (by omega) ?_
  have htop : Cursor.topEmpty w (⟨l, ((w.inodes l).length : Int) - 1⟩ :: st) = false := by
    have : (w.inodes l).length ≠ 0 := by omega
    simpa [Cursor.topEmpty, Cursor.count] using this
  have hloop : Cursor.lastLoop fuel w (some root) (⟨l, ((w.inodes l).length : Int) - 1⟩ :: st) =
      .ok (⟨l, ((w.inodes l).length : Int) - 1⟩ :: st) := by
    obtain ⟨k, rfl⟩ : ∃ k, fuel = k + 1 := ⟨fuel - 1, by omega⟩
    rw [Cursor.lastLoop, if_neg (by simp [htop])]
  rw [hidx] at hloop
  unfold Cursor.lastStack
  simp only [hgo fuel (by omega), Outcome.ok_bind, hidx, hloop, keyValue_eq h (hs.lvl h)]
  rfl

/-- Moving on from the end of a leaf. -/
lemma nextStack_follows_over (hne : ∀ l ∈ leaves w H root, w.inodes l ≠ []) {fuel : Nat}
    (hf : H + 2 ≤ fuel) (hs : Spine w root H 0 l st) {i : Nat} (hi : (w.inodes l).length ≤ i + 1)
    {l1 : NodeId} {ls : List NodeId} (hab : leavesAbove w 1 st = l1 :: ls) {q : Int}
    (hq : q = (countBefore w st + (w.inodes l).length : Nat)) :
    Follows w root H (Cursor.nextStack fuel w (⟨l, (i : Nat)⟩ :: st))
      (itemOf (atIndex (contents w H root) q), q) := by
  obtain ⟨st1, hm⟩ : ∃ st1, Cursor.moveOver w st = some st1 := by
    rcases hm : Cursor.moveOver w st with _ | st1
    · have := moveOver_none hs hm
      rw [hab] at this
      cases this
    · exact ⟨st1, rfl⟩
  obtain ⟨l2, st2, hgo, hs2, e⟩ := moveOver_some h hs hm
  have hmem : l2 ∈ leaves w H root := by
    rw [hs2.leaves_eq]
    simp [leaves]
  have hpos : 0 < (w.inodes l2).length := List.length_pos_iff.2 (hne l2 hmem)
  refine .on hs2 hpos (by rw [hq, hs.countBefore_next hs2 e]; rfl) ?_
  obtain ⟨k, rfl⟩ : ∃ k, fuel = k + 1 := ⟨fuel - 1, by omega⟩
  rw [nextStack_over h hi hm (hgo k (by omega)) (hs2.lvl h), if_neg (hne l2 hmem)]
  rfl

lemma nextStack_follows (hne : ∀ l ∈ leaves w H root, w.inodes l ≠ []) {fuel : Nat}
    (hf : H + 2 ≤ fuel) (hst : Stands w root H p stk) :
    Follows w root H (Cursor.nextStack fuel w stk)
      (CursorOp.next.onArray (contents w H root) p) := by
  have hstay : ∀ {l : NodeId} {st : List ElemRef} {i : Nat}, Spine w root H 0 l st →
      leavesAbove w 1 st = [] → (w.inodes l).length ≤ i + 1 →
      Cursor.nextStack fuel w (⟨l, (i : Nat)⟩ :: st) =
      .ok ((none, none), ⟨l, (i : Nat)⟩ :: st) := by
    intro l st i hs hab hi
    have hm : Cursor.moveOver w st = none := by
      rcases hm : Cursor.moveOver w st with _ | st1
      · rfl
      · obtain ⟨_, _, _, _, e⟩ := moveOver_some h hs hm
        rw [hab] at e
        cases e
    obtain ⟨k, rfl⟩ : ∃ k, fuel = k + 1 := ⟨fuel - 1, by omega⟩
    exact nextStack_end hi hm
  simp only [CursorOp.onArray]
  cases hst with
  | @on l i st hs hi =>
    have hlen := hs.length_contents
    by_cases hin : i + 1 < (w.inodes l).length
    · rw [if_pos (by omega)]
      refine .on (i := i + 1) hs hin (by omega) ?_
      obtain ⟨k, rfl⟩ : ∃ k, fuel = k + 2 := ⟨fuel - 2, by omega⟩
      exact nextStack_within h (hs.lvl h) hin
    · cases hab : leavesAbove w 1 st with
      | nil =>
        simp only [hab, List.flatMap_nil, List.length_nil] at hlen
        rw [if_neg (by omega)]
        exact ⟨_, hstay hs hab (by omega), .on hs hi⟩
      | cons l1 ls =>
        have hl1 : w.inodes l1 ≠ [] := hne l1 (by rw [hs.leaves_eq, hab]; simp)
        have hpos : 0 < (w.inodes l1).length := List.length_pos_iff.2 hl1
        simp only [hab, List.flatMap_cons, List.length_append, length_contents_zero] at hlen
        rw [if_pos (by omega)]
        exact nextStack_follows_over h hne hf hs (by omega) hab (by omega)
  | @behind l st hs hab =>
    have hlen := hs.length_contents
    simp only [hab, List.flatMap_nil, List.length_nil] at hlen
    rw [if_neg (by omega)]
    exact ⟨_, hstay hs hab (by omega), .behind hs hab⟩

lemma prevStack_follows (hne : ∀ l ∈ leaves w H root, w.inodes l ≠ []) {fuel : Nat}
    (hf : H + (leaves w H root).length + 2 ≤ fuel) (hst : Stands w root H p stk) :
    Follows w root H (Cursor.prevStack fuel w (some root) stk)
      (CursorOp.prev.onArray (contents w H root) p) := by
  -- one entry back within the leaf
  have hback : ∀ {l : NodeId} {st : List ElemRef} {i : Nat} {q : Int}, Spine w root H 0 l st →
      i < (w.inodes l).length → q = (countBefore w st + (i + 1) : Nat) →
      Follows w root H (Cursor.prevStack fuel w (some root) (⟨l, (i + 1 : Nat)⟩ :: st))
        (CursorOp.prev.onArray (contents w H root) q) := by
    intro l st i q hs hi hq
    simp only [CursorOp.onArray]
    rw [if_pos (by omega)]
    refine .on hs hi (by omega) ?_
    obtain ⟨k, rfl⟩ : ∃ k, fuel = k + 1 := ⟨fuel - 1, by omega⟩
    exact prevStack_within h (hs.lvl h) i k
  cases hst with
  | @on l i st hs hi =>
    cases i with
    | succ i => exact hback hs (by omega) rfl
    | zero =>
      simp only [CursorOp.onArray]
      rcases List.eq_nil_or_concat (leavesBefore w 1 st) with hpre | ⟨pre, l', hpre⟩
      · -- at the first entry of all
        have h0 : countBefore w st = 0 := by simp [countBefore, hpre]
        rw [if_neg (by omega)]
        obtain ⟨stk, e, hst⟩ := firstStack_follows h hne hf
        refine ⟨stk, ?_, hst⟩
        rw [prevStack_begin h hs (by simp) hpre, e]
        rfl
      · rw [List.concat_eq_append] at hpre
        obtain ⟨st', hgo, hs', hpre'⟩ := prevStack_over h hs (i := ((0 : Nat) : Int)) (by simp) hpre
        have hpos : 0 < (w.inodes l').length :=
          List.length_pos_iff.2 (hne l' (by rw [hs'.leaves_eq]; simp [leaves]))
        have hcount : countBefore w st = countBefore w st' + (w.inodes l').length := by
          unfold countBefore
          rw [hpre, hpre', List.flatMap_append, List.length_append]
          simp [length_contents_zero]
        have hidx : ((w.inodes l').length : Int) - 1 =
            (((w.inodes l').length - 1 : Nat) : Int) := by
          omega
        rw [if_pos (by omega)]
        refine .on (i := (w.inodes l').length - 1) hs' (by omega) (by omega) ?_
        rw [hgo fuel (by omega), hidx, List.getLast?_eq_getElem?, length_contents_zero]
  | @behind l st hs hab =>
    have hpos : 0 < (w.inodes l).length :=
      List.length_pos_iff.2 (hne l (by rw [hs.leaves_eq]; simp [leaves]))
    obtain ⟨i, hi⟩ : ∃ i, (w.inodes l).length = i + 1 := ⟨(w.inodes l).length - 1, by omega⟩
    rw [hi]
    exact hback hs (by omega) rfl

lemma seekStack_follows (hx : Exact w g root) (hne : ∀ l ∈ leaves w H root, w.inodes l ≠ [])
    {fuel : Nat} (hf : H + (leaves w H root).length + 2 ≤ fuel) (key : Bytes) :
    Follows w root H ((CursorOp.seek key).onTree fuel w (some root) stk)
      ((CursorOp.seek key).onArray (contents w H root) p) := by
  obtain ⟨l, st, l1, l2, hfound, hgo⟩ := seekStack_eq h hx key
  have hs := hfound.spine
  have hlen : (w.inodes l).length = l1.length + l2.length := by simp [hfound.inodes]
  -- the keys below the sought one are those before the position of the search
  have hcount : (contents w H root).countP (fun e => decide (e.1 < key)) =
      countBefore w st + l1.length := by
    have hc0 : contents w 0 l = l1.map Inode.entry ++ l2.map Inode.entry := by
      simp [contents, hfound.inodes]
    have hb : ((leavesBefore w 1 st).flatMap (contents w 0)).countP (fun e => decide (e.1 < key)) =
        countBefore w st :=
      List.countP_eq_length.2 fun x hx' => by
        simpa using (hs.before_lt h x hx').trans_le hfound.lo
    have h1 : (l1.map Inode.entry).countP (fun e => decide (e.1 < key)) = l1.length := by
      rw [List.countP_eq_length.2 ?_, List.length_map]
      intro x hx'
      obtain ⟨i, hi, rfl⟩ := List.mem_map.1 hx'
      exact decide_eq_true (hfound.lt i hi)
    have h2 : (l2.map Inode.entry).countP (fun e => decide (e.1 < key)) = 0 := by
      rw [List.countP_eq_zero]
      intro x hx'
      obtain ⟨i, hi, rfl⟩ := List.mem_map.1 hx'
      exact fun hlt => not_lt.2 (hfound.le i hi) (of_decide_eq_true hlt)
    have h3 :
        ((leavesAbove w 1 st).flatMap (contents w 0)).countP (fun e => decide (e.1 < key)) = 0 := by
      obtain ⟨-, -, -, hgt⟩ := hs.split h
      rw [List.countP_eq_zero]
      intro x hx'
      have := not_lt.2 (WithTop.coe_lt_coe.1 (hfound.hi.trans_le (hgt x hx'))).le
      simpa using this
    rw [hs.contents_eq, List.countP_append, List.countP_append, hb, hc0, List.countP_append,
      h1, h2, h3]
    omega
  simp only [CursorOp.onTree, CursorOp.onArray]
  simp only [hgo fuel (by omega), Outcome.ok_bind, hcount]
  cases l2 with
  | cons i l2 =>
    have htop : Cursor.topAtEnd w (⟨l, (l1.length : Nat)⟩ :: st) = false := by
      simp [Cursor.topAtEnd, Cursor.count, hlen]
    simp only [htop, Bool.false_eq_true, if_false]
    refine .on (i := l1.length) hs (by simp [hlen]) rfl ?_
    simp [contents, hfound.inodes]
  | nil =>
    have htop : Cursor.topAtEnd w (⟨l, (l1.length : Nat)⟩ :: st) = true := by
      simp [Cursor.topAtEnd, Cursor.count, hlen]
    simp only [List.length_nil, Nat.add_zero] at hlen
    simp only [htop, if_true]
    cases hab : leavesAbove w 1 st with
    | cons l' ls => exact nextStack_follows_over h hne (by omega) hs (by omega) hab (by rw [hlen])
    | nil =>
      -- behind the last entry of all
      have hall := hs.length_contents
      simp only [hab, List.flatMap_nil, List.length_nil] at hall
      have hm : Cursor.moveOver w st = none := by
        rcases hm : Cursor.moveOver w st with _ | st1
        · rfl
        · obtain ⟨_, _, _, _, e⟩ := moveOver_some h hs hm
          rw [hab] at e
          cases e
      obtain ⟨k, rfl⟩ : ∃ k, fuel = k + 1 := ⟨fuel - 1, by omega⟩
      have hnone : atIndex (contents w H root) ((countBefore w st + l1.length : Nat) : Int) =
          none := by
        rw [atIndex_natCast]
        exact List.getElem?_eq_none (by omega)
      rw [nextStack_end (by omega) hm, hnone, ← hlen]
      exact ⟨_, rfl, .behind hs hab⟩

end

/-! ## Sequences of calls -/

/-- Only a root can be an empty leaf of a committed tree. -/
lemma Committed.leaves_ne_nil (h : Committed w g root H) :
    (H = 0 ∧ w.inodes root = []) ∨ ∀ l ∈ leaves w H root, w.inodes l ≠ [] := by
  by_cases hroot : H = 0 ∧ w.inodes root = []
  · exact .inl hroot
  · refine .inr fun l hl hemp => hroot ?_
    have hl0 := h.tree.lvl_of_mem_leaves h.tree.lvl_root hl
    by_cases e : l = root
    · rw [e, h.tree.lvl_root] at hl0
      exact ⟨Option.some.inj hl0, e ▸ hemp⟩
    · obtain ⟨i, ins, hi, -⟩ := h.first l 0 hl0 e
      rw [hemp] at hi
      cases hi

/-- The stack of a cursor on an empty root stands at the index 0, or at -1 after `Last`. -/
def StandsEmpty (root : NodeId) (p : Int) (stk : List ElemRef) : Prop :=
  stk = [⟨root, p⟩] ∧ -1 ≤ p ∧ p ≤ 0

/-- A call on a cursor on an empty root returns nil. -/
lemma onTree_empty (fuel : Nat) (p : Int) (stk : List ElemRef) (h : TreeOK w g root 0)
    (hemp : w.inodes root = []) (hf : 2 ≤ fuel) (op : CursorOp)
    (hst : op.Sets ∨ StandsEmpty root p stk) :
    ∃ stk', op.onTree fuel w (some root) stk =
        .ok ((op.onArray (contents w 0 root) p).1, stk') ∧
      StandsEmpty root (op.onArray (contents w 0 root) p).2 stk' := by
  obtain ⟨k, rfl⟩ : ∃ k, fuel = k + 1 := ⟨fuel - 1, by omega⟩
  have hleaf := h.isLeaf_true h.lvl_root
  have hnil : contents w 0 root = [] := by simp [contents, hemp]
  have hfirst : Cursor.firstStack (k + 1) w (some root) = .ok ((none, none), [⟨root, 0⟩]) := by
    simp [Cursor.firstStack, Cursor.goToFirstElementOnTheStack, hleaf, Cursor.topEmpty,
      Cursor.count, hemp, Cursor.nextStack, Cursor.moveOver, Cursor.keyValue]
  have hnext : ∀ q : Int, -1 ≤ q →
      Cursor.nextStack (k + 1) w [⟨root, q⟩] = .ok ((none, none), [⟨root, q⟩]) := by
    intro q hq
    have hq' : ¬ q < -1 := by omega
    simp [Cursor.nextStack, Cursor.moveOver, Cursor.count, hemp, hq']
  rw [hnil]
  cases op with
  | first => exact ⟨_, hfirst, rfl, by simp [CursorOp.onArray], by simp [CursorOp.onArray]⟩
  | last =>
    refine ⟨[⟨root, -1⟩], ?_, rfl, by simp [CursorOp.onArray], by simp [CursorOp.onArray]⟩
    simp [CursorOp.onTree, CursorOp.onArray, Cursor.lastStack, Cursor.last, hleaf, Cursor.lastLoop,
      hemp, Cursor.keyValue, Cursor.count, atIndex, itemOf]
  | seek key =>
    refine ⟨[⟨root, 0⟩], ?_, rfl, by simp [CursorOp.onArray], by simp [CursorOp.onArray]⟩
    have hidx : Node.childIndex [] key = 0 := rfl
    have h0 := hnext 0 (by decide)
    simp [CursorOp.onTree, CursorOp.onArray, Cursor.seekStack, Cursor.search, hleaf, hemp, hidx,
      Cursor.keyValue, Cursor.count, Cursor.topAtEnd, h0, atIndex, itemOf]
  | next =>
    obtain ⟨rfl, h1, h2⟩ := hst.resolve_left id
    have hnot : ¬ (p + 1 < (([] : List (Bytes × Bytes)).length : Int)) := by
      simp only [List.length_nil]
      omega
    simp only [CursorOp.onArray, if_neg hnot]
    exact ⟨_, hnext p h1, rfl, h1, h2⟩
  | prev =>
    obtain ⟨rfl, h1, h2⟩ := hst.resolve_left id
    have hnot : ¬ 0 < p := by omega
    simp only [CursorOp.onArray, if_neg hnot]
    refine ⟨_, ?_, rfl, by simp, by simp⟩
    simp [CursorOp.onTree, Cursor.prevStack, Cursor.moveBack, hnot, hfirst]

/-- The cursor stands at the index `p` of a committed tree. -/
def StandsAt (w : World) (root : NodeId) (H : Nat) (p : Int) (stk : List ElemRef) : Prop :=
  ((∀ l ∈ leaves w H root, w.inodes l ≠ []) ∧ Stands w root H p stk) ∨
    (H = 0 ∧ w.inodes root = [] ∧ StandsEmpty root p stk)

/-- A call on a cursor on a committed tree. -/
lemma Committed.onTree (h : Committed w g root H) {fuel : Nat}
    (hf : H + (leaves w H root).length + 2 ≤ fuel) (op : CursorOp)
    (hst : op.Sets ∨ StandsAt w root H p stk) :
    ∃ stk', op.onTree fuel w (some root) stk =
        .ok ((op.onArray (contents w H root) p).1, stk') ∧
      StandsAt w root H (op.onArray (contents w H root) p).2 stk' := by
  rcases h.leaves_ne_nil with ⟨rfl, hemp⟩ | hne
  · have hst' : op.Sets ∨ StandsEmpty root p stk := by
      refine hst.imp_right fun hst => ?_
      rcases hst with ⟨hne, -⟩ | ⟨-, -, hst⟩
      · exact absurd hemp (hne root (by simp [leaves]))
      · exact hst
    obtain ⟨stk', e, hst⟩ := onTree_empty fuel _ _ h.tree hemp (by omega) op hst'
    exact ⟨stk', e, .inr ⟨rfl, hemp, hst⟩⟩
  · have hst' : op.Sets ∨ Stands w root H p stk := by
      refine hst.imp_right fun hst => ?_
      rcases hst with ⟨-, hst⟩ | ⟨rfl, hemp, -⟩
      · exact hst
      · exact absurd hemp (hne root (by simp [leaves]))
    have hfollows : Follows w root H (op.onTree fuel w (some root) stk)
        (op.onArray (contents w H root) p) := by
      cases op with
      | first => exact firstStack_follows h.tree hne hf
      | last => exact lastStack_follows h.tree hne hf
      | next => exact nextStack_follows h.tree hne (by omega) (hst'.resolve_left id)
      | prev => exact prevStack_follows h.tree hne hf (hst'.resolve_left id)
      | seek key => exact seekStack_follows h.tree h.exact hne hf key
    obtain ⟨stk', e, hst⟩ := hfollows
    exact ⟨stk', e, .inl ⟨hne, hst⟩⟩

variable {b : BucketId}

/-- A sequence of calls on a cursor that stands at an index, or that is set by the first call. -/
lemma Untouched.runAll (h : Untouched w b g root H) (ho : (w.txs (w.buckets b).tx).db = true)
    {fuel : Nat} (hf : H + (leaves w H root).length + 2 ≤ fuel) (ops : List CursorOp) {c : Cursor}
    (hc : c.bucket = some b)
    (hst : (∀ op ∈ ops.head?, op.Sets) ∨ StandsAt w root H p c.stack) :
    c.runAll fuel w ops = .ok (Cursor.arrayItems (contents w H root) p ops) := by
  have hroot : Bucket.rootView w b = some root := by
    obtain ⟨bs, h1, h2⟩ := Option.bind_eq_some_iff.1 h.base
    unfold Bucket.rootView
    rw [h.rootNode, h1]
    exact h2
  induction ops generalizing c p with
  | nil => rfl
  | cons op ops ih =>
    have hst' : op.Sets ∨ StandsAt w root H p c.stack := hst.imp_left fun h => h op rfl
    obtain ⟨stk', e, hst1⟩ := h.tree.onTree hf op hst'
    have hrun : op.run fuel w c = _ := op.run_eq hc ho
    rw [hroot, e, Outcome.ok_bind] at hrun
    rw [Cursor.runAll, hrun]
    simp only [Outcome.pure_eq, Outcome.ok_bind]
    rw [ih (c := { c with stack := stk' }) hc (.inr hst1)]
    rfl

/-- Every sequence of calls on a cursor of a committed bucket that begins with `First`, `Last` or
`Seek` returns what the same calls on an index into the array of the entries return. -/
theorem cursor_refines_array (h : Untouched w b g root H)
    (ho : (w.txs (w.buckets b).tx).db = true) (c : Cursor) (hc : c.bucket = some b) (op : CursorOp)
    (hop : op.Sets) (ops : List CursorOp) (p : Int) :
    ∀ᶠ fuel in atTop, c.runAll fuel w (op :: ops) =
      .ok (Cursor.arrayItems (contents w H root) p (op :: ops)) := by
  filter_upwards [eventually_ge_atTop (H + (leaves w H root).length + 2)] with fuel hf
  exact h.runAll ho hf (op :: ops) hc (.inl fun o ho => by cases ho; exact hop)

/-! ## A committed tree of three leaves -/

/-- The published state of a database with one bucket, whose root is the node 0. -/
def threeLeavesState : DbState := ⟨AList.singleton [9] (some ⟨some 0⟩)⟩

/-- A write transaction has just opened a bucket with six keys in three leaves. -/
def threeLeaves : World where
  rt := default
  nodes
    | 0 => ⟨none, false, false, false, [], none, ⟨0, 3⟩⟩
    | 1 => ⟨none, true, false, false, [1], none, ⟨1, 2⟩⟩
    | 2 => ⟨none, true, false, false, [3], none, ⟨2, 2⟩⟩
    | 3 => ⟨none, true, false, false, [5], none, ⟨3, 2⟩⟩
    | _ => default
  nextNode := 4
  arrays
    | 0 => [⟨[1], none, some 1⟩, ⟨[3], none, some 2⟩, ⟨[5], none, some 3⟩]
    | 1 => [⟨[1], some [], none⟩, ⟨[2], some [], none⟩]
    | 2 => [⟨[3], some [], none⟩, ⟨[4], some [], none⟩]
    | 3 => [⟨[5], some [], none⟩, ⟨[6], some [], none⟩]
    | _ => []
  nextArr := 4
  buckets _ := ⟨0, [9], none, ∅, defaultFillPercent⟩
  nextBucket := 1
  txs _ := ⟨true, false, true, some threeLeavesState, AList.singleton [9] 0, ∅, ∅⟩
  nextTx := 1
  db := ⟨false, true, some threeLeavesState, true⟩
  cut := none

/-- The levels and the ranges of its nodes. -/
def threeLeavesLayout : Layout where
  lvl
    | 0 => some 1
    | 1 => some 0
    | 2 => some 0
    | 3 => some 0
    | _ => none
  par _ := 0
  lo
    | 2 => [3]
    | 3 => [5]
    | _ => []
  hi
    | 1 => ([3] : Bytes)
    | 2 => ([5] : Bytes)
    | _ => ⊤

lemma threeLeaves_lvl {n : NodeId} {d : Nat} (hn : threeLeavesLayout.lvl n = some d) :
    (n = 0 ∧ d = 1) ∨ ((n = 1 ∨ n = 2 ∨ n = 3) ∧ d = 0) := by
  match n, hn with
  | 0, hn => exact .inl ⟨rfl, (Option.some.inj hn).symm⟩
  | 1, hn => exact .inr ⟨.inl rfl, (Option.some.inj hn).symm⟩
  | 2, hn => exact .inr ⟨.inr (.inl rfl), (Option.some.inj hn).symm⟩
  | 3, hn => exact .inr ⟨.inr (.inr rfl), (Option.some.inj hn).symm⟩

lemma threeLeaves_tree : TreeOK threeLeaves threeLeavesLayout 0 1 := by
  refine ⟨rfl, fun n d hn => ?_, fun n d hn => ?_, fun n hn => ?_, fun n d hn => ?_,
    fun n d hn hne => ?_⟩
  · rcases threeLeaves_lvl hn with ⟨rfl, rfl⟩ | ⟨rfl | rfl | rfl, rfl⟩ <;> decide
  · rcases threeLeaves_lvl hn with ⟨rfl, rfl⟩ | ⟨rfl | rfl | rfl, rfl⟩ <;> decide
  · rcases threeLeaves_lvl hn with ⟨rfl, h⟩ | ⟨rfl | rfl | rfl, -⟩
    · cases h
    all_goals refine ⟨by decide, fun i hi => ?_, by decide, by decide⟩
    all_goals
      simp only [World.inodes, threeLeaves, List.take, List.mem_cons, List.not_mem_nil,
        or_false] at hi
      rcases hi with rfl | rfl
      all_goals exact ⟨rfl, by decide, by decide, rfl, by decide⟩
  · rcases threeLeaves_lvl hn with ⟨rfl, h⟩ | ⟨-, h⟩
    · cases h
      exact ⟨by decide, by decide, by decide, by decide, by decide, by decide, by decide, by decide,
        by decide, by decide, by decide, by decide, by decide, by decide⟩
    · cases h
  · rcases threeLeaves_lvl hn with ⟨rfl, rfl⟩ | ⟨rfl | rfl | rfl, rfl⟩
    · exact absurd rfl hne
    all_goals decide

lemma threeLeaves_exact : Exact threeLeaves threeLeavesLayout 0 := by
  refine ⟨rfl, rfl, fun n d hn => ?_⟩
  rcases threeLeaves_lvl hn with ⟨rfl, h⟩ | ⟨-, h⟩
  · refine ⟨fun i l e => ?_, by decide, fun i l e => ?_, fun i j l1 l2 e => ?_⟩
    · cases e
      rfl
    · have hl := congrArg List.getLast? e
      rw [List.getLast?_concat] at hl
      cases hl
      rfl
    · rcases l1 with _ | ⟨x, _ | ⟨y, l1⟩⟩
      · cases e
        rfl
      · cases e
        rfl
      · have := congrArg List.length e
        simp [World.inodes, threeLeaves] at this
        omega
  · cases h

lemma threeLeaves_untouched : Untouched threeLeaves 0 threeLeavesLayout 0 1 := by
  refine ⟨⟨rfl, by decide, by decide⟩, rfl, rfl, rfl, threeLeaves_tree, threeLeaves_exact,
    fun n d hn => ?_, fun n d hn hne => ?_⟩
  · rcases threeLeaves_lvl hn with ⟨rfl, h⟩ | ⟨-, h⟩
    · decide
    · cases h
  · rcases threeLeaves_lvl hn with ⟨rfl, h⟩ | ⟨rfl | rfl | rfl, -⟩
    · exact absurd rfl hne
    all_goals exact ⟨_, _, rfl, rfl⟩

theorem cursor_refines_array_threeLeaves : ∀ᶠ fuel in atTop,
    (Bucket.cursor 0).runAll fuel threeLeaves
      [.seek [2], .next, .prev, .prev, .prev, .last, .next] =
      .ok (Cursor.arrayItems (contents threeLeaves 1 0) 0
        [.seek [2], .next, .prev, .prev, .prev, .last, .next]) :=
  cursor_refines_array threeLeaves_untouched rfl (Bucket.cursor 0) rfl (.seek [2]) trivial _ 0

end

end Vmbolt
