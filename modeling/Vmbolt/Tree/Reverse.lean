import Vmbolt.Tree.Search

/-!
# Moving back through a tree

The mirror image of moving on: the leaves to the left of a path (`leavesBefore`) are what `prev` has
still to visit. `last` goes down to the last leaf under a node, and `prev` takes the entry before in
the leaf or goes to the last entry of the leaf before. Unlike `next` it does not pass over an empty
leaf.
-/

namespace Vmbolt

/-- The leaves to the left of a path whose lowest node has level `d`. -/
def leavesBefore (w : World) : Nat → List ElemRef → List NodeId
  | _, [] => []
  | d, r :: st =>
    leavesBefore w (d + 1) st ++
      ((w.inodes r.node).take r.index.toNat).flatMap fun i => leaves w (d - 1) i.kid

section
variable {w : World} {g : Layout} {root n l : NodeId} {H d : Nat} {st : List ElemRef}

/-- The leaves of a tree around the end of a path. -/
lemma Spine.leaves_eq (hs : Spine w root H d n st) :
    leaves w H root = leavesBefore w (d + 1) st ++ leaves w d n ++ leavesAbove w (d + 1) st := by
  induction hs with
  | nil => simp [leavesBefore, leavesAbove]
  | @cons d n st i x hs hi ih =>
    obtain ⟨hlt, hx⟩ := List.getElem?_eq_some_iff.1 hi
    have e : w.inodes n = (w.inodes n).take i ++ x :: (w.inodes n).drop (i + 1) := by
      rw [← hx, List.getElem_cons_drop, List.take_append_drop]
    rw [ih, leaves]
    nth_rewrite 1 [e]
    simp [leavesBefore, leavesAbove, List.flatMap_append]

/-- The entries of a tree around a leaf at the end of a path. -/
lemma Spine.contents_eq (hs : Spine w root H 0 l st) :
    contents w H root = (leavesBefore w 1 st).flatMap (contents w 0) ++ contents w 0 l ++
      (leavesAbove w 1 st).flatMap (contents w 0) := by
  rw [contents_eq_leaves, hs.leaves_eq]
  simp [leaves]

/-- A leaf under a node of the tree is a leaf of the tree. -/
lemma TreeOK.lvl_of_mem_leaves (h : TreeOK w g root H) (hn : g.lvl n = some d)
    (hl : l ∈ leaves w d n) : g.lvl l = some 0 := by
  induction d generalizing n with
  | zero =>
    rw [leaves, List.mem_singleton] at hl
    rwa [hl]
  | succ d ih =>
    rw [leaves, List.mem_flatMap] at hl
    obtain ⟨i, hi, hl⟩ := hl
    exact ih (h.kid hn hi) hl

/-! ## Down to the last leaf -/

/-- The child under a position of a branch. -/
lemma childOf_eq (h : TreeOK w g root H) (hn : g.lvl n = some (d + 1)) {i : Nat} {x : Inode}
    (hi : (w.inodes n)[i]? = some x) : Cursor.childOf w ⟨n, (i : Int)⟩ = .ok x.kid := by
  have hc := (h.branch n d hn).child x (List.mem_of_getElem? hi)
  have h0 : ¬ ((i : Int) < 0) := by omega
  simp [Cursor.childOf, atIndex, h0, hi, hc]

lemma goToLast_eq (h : TreeOK w g root H) (hs : Spine w root H d n st) :
    ∃ l st', (∀ fuel, d < fuel →
        Cursor.last fuel w (⟨n, ((w.inodes n).length : Int) - 1⟩ :: st) =
          .ok (⟨l, ((w.inodes l).length : Int) - 1⟩ :: st')) ∧
      Spine w root H 0 l st' ∧
      leavesBefore w (d + 1) st ++ leaves w d n = leavesBefore w 1 st' ++ [l] := by
  induction d generalizing n st with
  | zero =>
    refine ⟨n, st, fun fuel hf => ?_, hs, rfl⟩
    obtain ⟨k, rfl⟩ : ∃ k, fuel = k + 1 := ⟨fuel - 1, by omega⟩
    simp [Cursor.last, h.isLeaf_true (hs.lvl h)]
  | succ d ih =>
    have hn := hs.lvl h
    have hpos : 0 < (w.inodes n).length := List.length_pos_iff.2 (h.branch n d hn).ne
    have hidx : ((w.inodes n).length : Int) - 1 =
        (((w.inodes n).length - 1 : Nat) : Int) := by omega
    have hlt : (w.inodes n).length - 1 < (w.inodes n).length := by omega
    have hx : (w.inodes n)[(w.inodes n).length - 1]? = some (w.inodes n)[(w.inodes n).length - 1] :=
      List.getElem?_eq_getElem hlt
    obtain ⟨l, st', hgo, hl, hleaves⟩ := ih (hs.cons hx)
    refine ⟨l, st', fun fuel hf => ?_, hl, ?_⟩
    · obtain ⟨k, rfl⟩ : ∃ k, fuel = k + 1 := ⟨fuel - 1, by omega⟩
      unfold Cursor.last
      rw [if_neg (by simp [h.isLeaf_false hn]), hidx, childOf_eq h hn hx]
      exact hgo k (by omega)
    · rw [← hleaves]
      have e : w.inodes n = (w.inodes n).take ((w.inodes n).length - 1) ++
          [(w.inodes n)[(w.inodes n).length - 1]] := by
        rw [List.take_concat_get', Nat.sub_add_cancel hpos, List.take_length]
      have hflat := congrArg (List.flatMap fun i => leaves w d i.kid) e
      rw [List.flatMap_append, List.flatMap_singleton] at hflat
      simp only [leaves, leavesBefore, Int.toNat_natCast, Nat.add_sub_cancel, hflat,
        List.append_assoc]

/-! ## Back to the leaf before -/

/-- Moving back from a path whose nodes are all at their first child. -/
lemma moveBack_none (hs : Spine w root H d n st) (hm : Cursor.moveBack st = none) :
    leavesBefore w (d + 1) st = [] := by
  induction hs with
  | nil => rfl
  | @cons d n st i x _ hi ih =>
    unfold Cursor.moveBack at hm
    split at hm
    · cases hm
    next hlt =>
      have hi0 : i = 0 := by
        simp only at hlt
        omega
      simp only [leavesBefore, hi0, ih hm]
      rfl

section
variable (h : TreeOK w g root H)
include h

/-- Moving back to the child before of a node on the path, and down to its last leaf. -/
lemma moveBack_some (hs : Spine w root H d n st) {st1 : List ElemRef}
    (hm : Cursor.moveBack st = some st1) :
    ∃ l st2, (∀ fuel, H < fuel → Cursor.last fuel w st1 =
        .ok (⟨l, ((w.inodes l).length : Int) - 1⟩ :: st2)) ∧
      Spine w root H 0 l st2 ∧ leavesBefore w (d + 1) st = leavesBefore w 1 st2 ++ [l] := by
  induction hs with
  | nil => cases hm
  | @cons d n st i x hs hi ih =>
    unfold Cursor.moveBack at hm
    split at hm
    next hlt =>
      cases hm
      simp only at hlt
      obtain ⟨hil, -⟩ := List.getElem?_eq_some_iff.1 hi
      have hlt' : i - 1 < (w.inodes n).length := by omega
      have hy : (w.inodes n)[i - 1]? = some (w.inodes n)[i - 1] := List.getElem?_eq_getElem hlt'
      obtain ⟨l, st2, hgo, hl, hleaves⟩ := goToLast_eq h (hs.cons hy)
      have hn := hs.lvl h
      have hidx : (i : Int) - 1 = ((i - 1 : Nat) : Int) := by omega
      refine ⟨l, st2, fun fuel hf => ?_, hl, ?_⟩
      · obtain ⟨k, rfl⟩ : ∃ k, fuel = k + 1 := ⟨fuel - 1, by omega⟩
        have := hs.le_height
        unfold Cursor.last
        rw [if_neg (by simp [h.isLeaf_false hn]), hidx, childOf_eq h hn hy]
        exact hgo k (by omega)
      · rw [← hleaves]
        have e : (w.inodes n).take i = (w.inodes n).take (i - 1) ++ [(w.inodes n)[i - 1]] := by
          rw [List.take_concat_get', Nat.sub_add_cancel (by omega)]
        simp only [leavesBefore, Int.toNat_natCast, Nat.add_sub_cancel]
        rw [e, List.flatMap_append, List.append_assoc]
        simp
    next hlt =>
      have hi0 : i = 0 := by
        simp only at hlt
        omega
      obtain ⟨l, st2, hgo, hl, hleaves⟩ := ih hm
      refine ⟨l, st2, hgo, hl, ?_⟩
      simp only [leavesBefore, hi0]
      simpa using hleaves

/-! ## The entry before -/

/-- What a cursor returns at the last position of a leaf. -/
lemma keyValue_last (hl : g.lvl l = some 0) :
    Cursor.keyValue w (⟨l, ((w.inodes l).length : Int) - 1⟩ :: st) =
      .ok (itemOf (contents w 0 l).getLast?) := by
  by_cases hemp : w.inodes l = []
  · simp [Cursor.keyValue, Cursor.count, contents, hemp, itemOf]
  · have hpos : 0 < (w.inodes l).length := List.length_pos_iff.2 hemp
    have hidx : ((w.inodes l).length : Int) - 1 =
        (((w.inodes l).length - 1 : Nat) : Int) := by omega
    have hlen : (contents w 0 l).length = (w.inodes l).length := by simp [contents]
    rw [hidx, keyValue_eq h hl, List.getLast?_eq_getElem?, hlen]

/-- `prev` within a leaf. -/
lemma prevStack_within (hl : g.lvl l = some 0) (i fuel : Nat) :
    Cursor.prevStack (fuel + 1) w (some root) (⟨l, (i + 1 : Nat)⟩ :: st) =
      .ok (itemOf (contents w 0 l)[i]?, ⟨l, (i : Nat)⟩ :: st) := by
  have hm : Cursor.moveBack (⟨l, (i + 1 : Nat)⟩ :: st) = some (⟨l, (i : Nat)⟩ :: st) := by
    unfold Cursor.moveBack
    rw [if_pos (by simp only; omega)]
    simp
  have hgo : Cursor.last (fuel + 1) w (⟨l, (i : Nat)⟩ :: st) = .ok (⟨l, (i : Nat)⟩ :: st) := by
    unfold Cursor.last
    rw [if_pos (h.isLeaf_true hl)]
  unfold Cursor.prevStack
  simp only [hm, hgo, Outcome.ok_bind, keyValue_eq h hl]
  rfl

/-- `prev` at the beginning of a leaf that is not the first one goes to the last position of the
leaf before, whether that holds an entry or not. -/
lemma prevStack_over (hs : Spine w root H 0 l st) {i : Int} (hi : i ≤ 0) {pre : List NodeId}
    {l' : NodeId} (hpre : leavesBefore w 1 st = pre ++ [l']) :
    ∃ st', (∀ fuel, H < fuel → Cursor.prevStack fuel w (some root) (⟨l, i⟩ :: st) =
        .ok (itemOf (contents w 0 l').getLast?, ⟨l', ((w.inodes l').length : Int) - 1⟩ :: st')) ∧
      Spine w root H 0 l' st' ∧ leavesBefore w 1 st' = pre := by
  obtain ⟨st1, hm⟩ : ∃ st1, Cursor.moveBack st = some st1 := by
    rcases hm : Cursor.moveBack st with _ | st1
    · rw [moveBack_none hs hm] at hpre
      simp at hpre
    · exact ⟨st1, rfl⟩
  obtain ⟨l2, st2, hgo, hs2, e⟩ := moveBack_some h hs hm
  rw [hpre] at e
  obtain ⟨rfl, hl⟩ := List.append_inj' e rfl
  obtain rfl := List.singleton_inj.1 hl
  refine ⟨st2, fun fuel hf => ?_, hs2, rfl⟩
  have hm' : Cursor.moveBack (⟨l, i⟩ :: st) = some st1 := by
    unfold Cursor.moveBack
    rw [if_neg (by simpa using hi), hm]
  unfold Cursor.prevStack
  simp only [hm', hgo fuel hf, Outcome.ok_bind, keyValue_last h (hs2.lvl h)]
  rfl

/-- `prev` at the beginning of the first leaf starts again from the front. -/
lemma prevStack_begin (hs : Spine w root H 0 l st) {i : Int} (hi : i ≤ 0)
    (hpre : leavesBefore w 1 st = []) (fuel : Nat) :
    Cursor.prevStack fuel w (some root) (⟨l, i⟩ :: st) = (do
      let r ← Cursor.firstStack fuel w (some root)
      pure ((none, none), r.2)) := by
  have hm : Cursor.moveBack (⟨l, i⟩ :: st) = none := by
    unfold Cursor.moveBack
    rw [if_neg (by simpa using hi)]
    rcases hm : Cursor.moveBack st with _ | st1
    · rfl
    · obtain ⟨l2, st2, -, -, e⟩ := moveBack_some h hs hm
      rw [hpre] at e
      simp at e
  unfold Cursor.prevStack
  rw [hm]

end

end

end Vmbolt
