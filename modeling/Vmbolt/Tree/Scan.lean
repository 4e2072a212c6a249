import Vmbolt.Tree.Layout

/-!
# Moving through a tree

The stack of a cursor is a path from the root to a leaf (`Spine`), and what is still to come is the
list of the leaves to the right of the path (`leavesAbove`). `First` goes to the first leaf, and
`next` takes the next entry of the leaf or goes on to the next leaf that is not empty.
-/

namespace Vmbolt

/-- The leaves under a node of level `d`, in order. -/
def leaves (w : World) : Nat → NodeId → List NodeId
  | 0, n => [n]
  | d + 1, n => (w.inodes n).flatMap fun i => leaves w d i.kid

/-- The leaves to the right of a path whose lowest node has level `d`. -/
def leavesAbove (w : World) : Nat → List ElemRef → List NodeId
  | _, [] => []
  | d, r :: st =>
    ((w.inodes r.node).drop (r.index.toNat + 1)).flatMap (fun i => leaves w (d - 1) i.kid) ++
      leavesAbove w (d + 1) st

/-- `st` is the path from the root of level `H` down to, but without, the node `n` of level `d`; the
lowest node comes first. -/
inductive Spine (w : World) (root : NodeId) (H : Nat) : Nat → NodeId → List ElemRef → Prop
  | nil : Spine w root H H root []
  | cons {d : Nat} {n : NodeId} {st : List ElemRef} {i : Nat} {x : Inode} :
    Spine w root H (d + 1) n st → (w.inodes n)[i]? = some x →
    Spine w root H d x.kid (⟨n, i⟩ :: st)

/-- A key and a value as a cursor returns them. -/
def itemOf : Option (Bytes × Bytes) → Item
  | none => (none, none)
  | some (k, v) => (some k, some v)

section
variable {w w' : World} {g : Layout} {root n l : NodeId} {H d : Nat} {st : List ElemRef}

/-- The contents of a node are those of its leaves. -/
lemma contents_eq_leaves (w : World) (d : Nat) (n : NodeId) :
    contents w d n = (leaves w d n).flatMap (contents w 0) := by
  induction d generalizing n with
  | zero => simp [leaves]
  | succ d ih =>
    simp only [contents, leaves, List.flatMap_assoc]
    exact List.flatMap_congr fun i _ => ih i.kid

/-- A node on a path has its level. -/
lemma Spine.lvl (h : TreeOK w g root H) (hs : Spine w root H d n st) : g.lvl n = some d := by
  induction hs with
  | nil => exact h.lvl_root
  | cons _ hi ih => exact h.kid ih (List.mem_of_getElem? hi)

lemma Spine.le_height (hs : Spine w root H d n st) : d ≤ H := by
  induction hs with
  | nil => exact le_rfl
  | cons _ _ ih => omega

/-! ## Down to the first leaf -/

lemma goToFirst_eq (h : TreeOK w g root H) (hs : Spine w root H d n st) :
    ∃ l st', (∀ fuel, d < fuel →
        Cursor.goToFirstElementOnTheStack fuel w (⟨n, 0⟩ :: st) = .ok (⟨l, 0⟩ :: st')) ∧
      Spine w root H 0 l st' ∧
      leaves w d n ++ leavesAbove w (d + 1) st = l :: leavesAbove w 1 st' := by
  induction d generalizing n st with
  | zero =>
    refine ⟨n, st, fun fuel hf => ?_, hs, rfl⟩
    obtain ⟨k, rfl⟩ : ∃ k, fuel = k + 1 := ⟨fuel - 1, by omega⟩
    simp [Cursor.goToFirstElementOnTheStack, h.isLeaf_true (hs.lvl h)]
  | succ d ih =>
    have hn := hs.lvl h
    have hb := h.branch n d hn
    obtain ⟨i, ins, hins⟩ := List.exists_cons_of_ne_nil hb.ne
    have h0 : (w.inodes n)[0]? = some i := by simp [hins]
    obtain ⟨l, st', hgo, hl, hleaves⟩ := ih (hs.cons h0)
    refine ⟨l, st', fun fuel hf => ?_, hl, ?_⟩
    · obtain ⟨k, rfl⟩ : ∃ k, fuel = k + 1 := ⟨fuel - 1, by omega⟩
      have hc : Cursor.childOf w ⟨n, 0⟩ = .ok i.kid := by
        have := hb.child i (by simp [hins])
        simp [Cursor.childOf, atIndex, hins, this]
      unfold Cursor.goToFirstElementOnTheStack
      rw [if_neg (by simp [h.isLeaf_false hn]), hc]
      exact hgo k (by omega)
    · rw [← hleaves]
      simp [leaves, leavesAbove, hins]

/-! ## On to the next leaf -/

/-- Moving over from a path whose nodes are all at their last child. -/
lemma moveOver_none (hs : Spine w root H d n st) (hm : Cursor.moveOver w st = none) :
    leavesAbove w (d + 1) st = [] := by
  induction hs with
  | nil => rfl
  | @cons d n st i x _ hi ih =>
    unfold Cursor.moveOver at hm
    split at hm
    · cases hm
    next hlt =>
      have hlen : (w.inodes n).length ≤ i + 1 := by
        simp only [Cursor.count] at hlt
        omega
      simp only [leavesAbove, Int.toNat_natCast, List.drop_eq_nil_of_le hlen]
      simpa using ih hm

/-- Moving over to the next child of a node on the path, and down to its first leaf. -/
lemma moveOver_some (h : TreeOK w g root H) (hs : Spine w root H d n st) {st1 : List ElemRef}
    (hm : Cursor.moveOver w st = some st1) :
    ∃ l st2, (∀ fuel, H < fuel → Cursor.goToFirstElementOnTheStack fuel w st1 =
      .ok (⟨l, 0⟩ :: st2)) ∧
      Spine w root H 0 l st2 ∧ leavesAbove w (d + 1) st = l :: leavesAbove w 1 st2 := by
  induction hs with
  | nil => cases hm
  | @cons d n st i x hs hi ih =>
    unfold Cursor.moveOver at hm
    split at hm
    next hlt =>
      cases hm
      simp only [Cursor.count] at hlt
      have hlt' : i + 1 < (w.inodes n).length := by omega
      have hy : (w.inodes n)[i + 1]? = some (w.inodes n)[i + 1] := List.getElem?_eq_getElem hlt'
      obtain ⟨l, st2, hgo, hl, hleaves⟩ := goToFirst_eq h (hs.cons hy)
      have hn := hs.lvl h
      refine ⟨l, st2, fun fuel hf => ?_, hl, ?_⟩
      · obtain ⟨k, rfl⟩ : ∃ k, fuel = k + 1 := ⟨fuel - 1, by omega⟩
        have hc : Cursor.childOf w ⟨n, (i : Int) + 1⟩ = .ok (w.inodes n)[i + 1].kid := by
          have := (h.branch n d hn).child _ (List.getElem_mem hlt')
          have h0 : ¬ ((i : Int) + 1 < 0) := by omega
          have h1 : ((i : Int) + 1).toNat = i + 1 := by omega
          simp [Cursor.childOf, atIndex, h0, h1, hy, this]
        unfold Cursor.goToFirstElementOnTheStack
        rw [if_neg (by simp [h.isLeaf_false hn]), hc]
        have := hs.le_height
        exact hgo k (by omega)
      · rw [← hleaves]
        have e : (w.inodes n).drop (i + 1) = (w.inodes n)[i + 1] :: (w.inodes n).drop (i + 1 + 1) :=
          List.drop_eq_getElem_cons hlt'
        simp only [leavesAbove, Int.toNat_natCast, Nat.add_sub_cancel]
        rw [e, List.flatMap_cons, List.append_assoc]
    next hlt =>
      have hlen : (w.inodes n).length ≤ i + 1 := by
        simp only [Cursor.count] at hlt
        omega
      obtain ⟨l, st2, hgo, hl, hleaves⟩ := ih hm
      refine ⟨l, st2, hgo, hl, ?_⟩
      simp only [leavesAbove, Int.toNat_natCast, List.drop_eq_nil_of_le hlen]
      simpa using hleaves

/-! ## Entries -/

/-- What a cursor returns at a position of a leaf. -/
lemma keyValue_eq (h : TreeOK w g root H) (hl : g.lvl l = some 0) (i : Nat) :
    Cursor.keyValue w (⟨l, i⟩ :: st) = .ok (itemOf (contents w 0 l)[i]?) := by
  have hlen : (contents w 0 l).length = (w.inodes l).length := by simp [contents]
  rw [Cursor.keyValue]
  by_cases hi : i < (w.inodes l).length
  · have hx : (w.inodes l)[i]? = some (w.inodes l)[i] := List.getElem?_eq_getElem hi
    have ha := (h.leaf l hl).entry _ (List.getElem_mem hi)
    obtain ⟨v, hv⟩ := Option.isSome_iff_exists.1 ha.value
    have h0 : ¬ ((i : Int) < 0) := by omega
    have hk : (contents w 0 l)[i]? = some ((w.inodes l)[i].key, v) := by
      simp [contents, Inode.entry, hx, hv]
    rw [if_neg (by simp only [Cursor.count]; omega), hk]
    simp [atIndex, h0, hx, keySlice, ha.key_ne, hv, itemOf]
  · have hk : (contents w 0 l)[i]? = none := List.getElem?_eq_none (by omega)
    rw [if_pos (.inr (by simp only [Cursor.count]; omega)), hk]
    rfl

/-- The entries behind position `i` of the leaf `l`, if the leaves `ls` come after it. -/
def entriesAfter (w : World) (l : NodeId) (i : Nat) (ls : List NodeId) : List (Bytes × Bytes) :=
  (contents w 0 l).drop (i + 1) ++ ls.flatMap (contents w 0)

/-- `next` within a leaf. -/
lemma nextStack_within (h : TreeOK w g root H) {i fuel : Nat} (hl : g.lvl l = some 0)
    (hi : i + 1 < (w.inodes l).length) :
    Cursor.nextStack (fuel + 2) w (⟨l, i⟩ :: st) =
      .ok (itemOf (contents w 0 l)[i + 1]?, ⟨l, (i + 1 : Nat)⟩ :: st) := by
  have hm : Cursor.moveOver w (⟨l, i⟩ :: st) = some (⟨l, (i + 1 : Nat)⟩ :: st) := by
    unfold Cursor.moveOver
    rw [if_pos (by simp only [Cursor.count]; omega)]
    rfl
  have hgo : Cursor.goToFirstElementOnTheStack (fuel + 1) w (⟨l, (i + 1 : Nat)⟩ :: st) =
      .ok (⟨l, (i + 1 : Nat)⟩ :: st) := by
    unfold Cursor.goToFirstElementOnTheStack
    rw [if_pos (h.isLeaf_true hl)]
  have he : Cursor.topEmpty w (⟨l, (i + 1 : Nat)⟩ :: st) = false := by
    have : (w.inodes l).length ≠ 0 := by omega
    simpa [Cursor.topEmpty, Cursor.count] using this
  unfold Cursor.nextStack
  simp only [hm, hgo, Outcome.ok_bind, he, keyValue_eq h hl, Bool.false_eq_true, if_false]
  rfl

/-- `next` at the end of the last leaf. -/
lemma nextStack_end {i fuel : Nat} (hi : (w.inodes l).length ≤ i + 1)
    (hm : Cursor.moveOver w st = none) :
    Cursor.nextStack (fuel + 1) w (⟨l, i⟩ :: st) = .ok ((none, none), ⟨l, i⟩ :: st) := by
  have hm' : Cursor.moveOver w (⟨l, i⟩ :: st) = none := by
    unfold Cursor.moveOver
    rw [if_neg (by simp only [Cursor.count]; omega), hm]
  unfold Cursor.nextStack
  rw [hm']

/-- `next` at the end of a leaf that is not the last one. -/
lemma nextStack_over (h : TreeOK w g root H) {i fuel : Nat} {l1 : NodeId} {st1 st2 : List ElemRef}
    (hi : (w.inodes l).length ≤ i + 1) (hm : Cursor.moveOver w st = some st1)
    (hgo : Cursor.goToFirstElementOnTheStack fuel w st1 = .ok (⟨l1, 0⟩ :: st2))
    (hl1 : g.lvl l1 = some 0) :
    Cursor.nextStack (fuel + 1) w (⟨l, i⟩ :: st) =
      if w.inodes l1 = [] then Cursor.nextStack fuel w (⟨l1, 0⟩ :: st2)
      else .ok (itemOf (contents w 0 l1)[0]?, ⟨l1, 0⟩ :: st2) := by
  have hm' : Cursor.moveOver w (⟨l, i⟩ :: st) = some st1 := by
    unfold Cursor.moveOver
    rw [if_neg (by simp only [Cursor.count]; omega), hm]
  have hkv : Cursor.keyValue w (⟨l1, (0 : Nat)⟩ :: st2) = _ := keyValue_eq h hl1 0
  rw [show ((0 : Nat) : Int) = 0 from rfl] at hkv
  conv_lhs => unfold Cursor.nextStack
  simp only [hm', hgo, Outcome.ok_bind, hkv, Cursor.topEmpty, Cursor.count,
    List.length_eq_zero_iff, decide_eq_true_eq]
  rfl

/-- The position `i` of the leaf `l` at the end of the path `st`, where the entries `es` come
next. -/
structure Pos (w : World) (root : NodeId) (H : Nat) (l : NodeId) (i : Nat) (st : List ElemRef)
    (es : List (Bytes × Bytes)) : Prop where
  spine : Spine w root H 0 l st
  after : entriesAfter w l i (leavesAbove w 1 st) = es

/-- The contract of `next` within a leaf. -/
lemma nextStack_eq_within (h : TreeOK w g root H) {i : Nat} {ls : List NodeId}
    (hs : Spine w root H 0 l st) (hls : leavesAbove w 1 st = ls)
      (hi : i + 1 < (w.inodes l).length) :
    ∃ l' i' st',
      (∀ fuel, H + ls.length + 2 ≤ fuel → Cursor.nextStack fuel w (⟨l, (i : Nat)⟩ :: st) =
        .ok (itemOf (entriesAfter w l i ls).head?, ⟨l', (i' : Nat)⟩ :: st')) ∧
      Pos w root H l' i' st' (entriesAfter w l i ls).tail ∧
      (∀ e, (entriesAfter w l i ls).head? = some e → (contents w 0 l')[i']? = some e) ∧
      ((entriesAfter w l i ls).head? = none → contents w 0 l' = [] ∨ (l' = l ∧ i' = i)) := by
  have hlt : i + 1 < (contents w 0 l).length := by simpa [contents] using hi
  have e : (contents w 0 l).drop (i + 1) =
      (contents w 0 l)[i + 1] :: (contents w 0 l).drop (i + 1 + 1) := List.drop_eq_getElem_cons hlt
  have hget : (contents w 0 l)[i + 1]? = some (contents w 0 l)[i + 1] :=
    List.getElem?_eq_getElem hlt
  refine ⟨l, i + 1, st, fun fuel hf => ?_, ⟨hs, ?_⟩, fun x hx => ?_, fun hx => ?_⟩
  · obtain ⟨k, rfl⟩ : ∃ k, fuel = k + 2 := ⟨fuel - 2, by omega⟩
    rw [nextStack_within h (hs.lvl h) hi, entriesAfter, e, hget]
    rfl
  · rw [entriesAfter, entriesAfter, e, hls]
    rfl
  · rw [entriesAfter, e] at hx
    rw [hget]
    exact hx
  · rw [entriesAfter, e] at hx
    cases hx

/-- `next` returns the next entry, if there is one, and moves there. -/
lemma nextStack_eq (h : TreeOK w g root H) {i : Nat} {ls : List NodeId} (hs : Spine w root H 0 l st)
    (hls : leavesAbove w 1 st = ls) :
    ∃ l' i' st',
      (∀ fuel, H + ls.length + 2 ≤ fuel → Cursor.nextStack fuel w (⟨l, (i : Nat)⟩ :: st) =
        .ok (itemOf (entriesAfter w l i ls).head?, ⟨l', (i' : Nat)⟩ :: st')) ∧
      Pos w root H l' i' st' (entriesAfter w l i ls).tail ∧
      (∀ e, (entriesAfter w l i ls).head? = some e → (contents w 0 l')[i']? = some e) ∧
      ((entriesAfter w l i ls).head? = none → contents w 0 l' = [] ∨ (l' = l ∧ i' = i)) := by
  have hlen : ∀ m, (contents w 0 m).length = (w.inodes m).length := fun m => by simp [contents]
  induction ls generalizing l i st with
  | nil =>
    by_cases hi : i + 1 < (w.inodes l).length
    · exact nextStack_eq_within h hs hls hi
    · have hnil : (contents w 0 l).drop (i + 1) = [] := List.drop_eq_nil_of_le (by rw [hlen]; omega)
      have hm : Cursor.moveOver w st = none := by
        rcases hm : Cursor.moveOver w st with _ | st1
        · rfl
        · obtain ⟨_, _, _, _, e⟩ := moveOver_some h hs hm
          rw [hls] at e
          cases e
      refine ⟨l, i, st, fun fuel hf => ?_, ⟨hs, ?_⟩, ?_, fun _ => .inr ⟨rfl, rfl⟩⟩
      · obtain ⟨k, rfl⟩ : ∃ k, fuel = k + 1 := ⟨fuel - 1, by omega⟩
        rw [nextStack_end (by omega) hm]
        simp [entriesAfter, hnil, itemOf]
      · simp [entriesAfter, hnil, hls]
      · simp [entriesAfter, hnil]
  | cons l1 ls ih =>
    by_cases hi : i + 1 < (w.inodes l).length
    · exact nextStack_eq_within h hs hls hi
    · have hnil : (contents w 0 l).drop (i + 1) = [] := List.drop_eq_nil_of_le (by rw [hlen]; omega)
      obtain ⟨st1, hm⟩ : ∃ st1, Cursor.moveOver w st = some st1 := by
        rcases hm : Cursor.moveOver w st with _ | st1
        · have := moveOver_none hs hm
          rw [hls] at this
          cases this
        · exact ⟨st1, rfl⟩
      obtain ⟨l2, st2, hgo, hs2, e⟩ := moveOver_some h hs hm
      rw [hls, List.cons.injEq] at e
      obtain ⟨rfl, e⟩ := e
      by_cases hemp : w.inodes l1 = []
      · -- an empty leaf is passed over
        obtain ⟨l', i', st', hgo', hpos, hhead, hlast⟩ := ih (i := 0) hs2 e.symm
        have hc : contents w 0 l1 = [] := by simp [contents, hemp]
        have heq : entriesAfter w l1 0 ls = entriesAfter w l i (l1 :: ls) := by
          simp [entriesAfter, hnil, hc]
        rw [heq] at hpos hhead hlast
        refine ⟨l', i', st', fun fuel hf => ?_, hpos, hhead, fun hx => .inl ?_⟩
        swap
        · rcases hlast hx with hl' | ⟨rfl, -⟩
          · exact hl'
          · exact hc
        obtain ⟨k, rfl⟩ : ∃ k, fuel = k + 1 := ⟨fuel - 1, by omega⟩
        simp only [List.length_cons] at hf
        rw [nextStack_over h (by omega) hm (hgo k (by omega)) (hs2.lvl h), if_pos hemp, ← heq]
        exact hgo' k (by omega)
      · obtain ⟨x, xs, hx⟩ := List.exists_cons_of_ne_nil hemp
        have hc : contents w 0 l1 = x.entry :: xs.map Inode.entry := by simp [contents, hx]
        refine ⟨l1, 0, st2, fun fuel hf => ?_, ⟨hs2, ?_⟩, ?_, ?_⟩
        · obtain ⟨k, rfl⟩ : ∃ k, fuel = k + 1 := ⟨fuel - 1, by omega⟩
          simp only [List.length_cons] at hf
          rw [nextStack_over h (by omega) hm (hgo k (by omega)) (hs2.lvl h), if_neg hemp]
          simp [entriesAfter, hnil, hc]
        · simp [entriesAfter, hnil, hc, ← e]
        · simp [entriesAfter, hnil, hc]
        · simp [entriesAfter, hnil, hc]

/-! ## A complete scan -/

/-- `First` returns the first entry and stands on it. -/
lemma firstStack_eq (h : TreeOK w g root H) :
    ∃ l i st, (∀ fuel, H + (leaves w H root).length + 2 ≤ fuel →
        Cursor.firstStack fuel w (some root) =
          .ok (itemOf (contents w H root).head?, ⟨l, (i : Nat)⟩ :: st)) ∧
      Pos w root H l i st (contents w H root).tail ∧
      ∀ e, (contents w H root).head? = some e → (contents w 0 l)[i]? = some e := by
  obtain ⟨l, st, hgo, hs, e⟩ := goToFirst_eq h (.nil : Spine w root H H root [])
  have hleaves : leaves w H root = l :: leavesAbove w 1 st := by simpa [leavesAbove] using e
  have hcont :
      contents w H root = contents w 0 l ++ (leavesAbove w 1 st).flatMap (contents w 0) := by
    rw [contents_eq_leaves, hleaves, List.flatMap_cons]
  by_cases hemp : w.inodes l = []
  · have hc : contents w 0 l = [] := by simp [contents, hemp]
    have heq : entriesAfter w l 0 (leavesAbove w 1 st) = contents w H root := by
      simp [entriesAfter, hcont, hc]
    obtain ⟨l', i', st', hgo', hpos, hhead, hlast⟩ := nextStack_eq h (i := 0) hs rfl
    rw [heq] at hpos hhead hlast
    refine ⟨l', i', st', fun fuel hf => ?_, hpos, hhead⟩
    rw [hleaves, List.length_cons] at hf
    have hnext := hgo' fuel (by omega)
    have htop : Cursor.topEmpty w (⟨l, 0⟩ :: st) = true := by
      simp [Cursor.topEmpty, Cursor.count, hemp]
    rw [heq, show ((0 : Nat) : Int) = 0 from rfl] at hnext
    unfold Cursor.firstStack
    simp only [hgo fuel (by omega), Outcome.ok_bind, htop, if_true, hnext, Outcome.pure_eq,
      keyValue_eq h (hpos.spine.lvl h)]
    rcases hh : (contents w H root).head? with _ | x
    · have hc' : contents w 0 l' = [] := by
        rcases hlast hh with hl' | ⟨rfl, -⟩
        · exact hl'
        · exact hc
      simp [hc']
    · rw [hhead x hh]
  · obtain ⟨x, xs, hx⟩ := List.exists_cons_of_ne_nil hemp
    have hc : contents w 0 l = x.entry :: xs.map Inode.entry := by simp [contents, hx]
    refine ⟨l, 0, st, fun fuel hf => ?_, ⟨hs, ?_⟩, ?_⟩
    · have htop : Cursor.topEmpty w (⟨l, 0⟩ :: st) = false := by
        simp [Cursor.topEmpty, Cursor.count, hx]
      have hkv : Cursor.keyValue w (⟨l, (0 : Nat)⟩ :: st) = _ := keyValue_eq h (hs.lvl h) 0
      rw [show ((0 : Nat) : Int) = 0 from rfl] at hkv
      unfold Cursor.firstStack
      simp only [hgo fuel (by omega), Outcome.ok_bind, htop, Bool.false_eq_true, if_false,
        Outcome.pure_eq, hkv]
      simp [hcont, hc]
    · simp [entriesAfter, hcont, hc]
    · simp [hcont, hc]

end

end Vmbolt
