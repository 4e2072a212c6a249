import Vmbolt.Refinement.LastKey
import Vmbolt.Tree.Carry

/-!
# Deleting while iterating

The loop `for k, _ := c.First(); k != nil; k, _ = c.Next() { if P(k) { c.Delete() } }`. `Delete`
replaces the shared nodes above the entry by copies, and the cursor goes on with the nodes it holds:
they are older than the path of the tree, but agree with it on everything that is still to come
(`Straddles`). On a leaf that the transaction has copied before the loop, however, the entries
behind a deleted one move up under the cursor, and `Next` passes over the first of them.
-/

namespace Vmbolt
open Filter Prog

namespace Bucket

/-- The loop, which collects the keys it visits. -/
def deleteLoop (fuel : Nat) (P : Bytes → Bool) : Nat → Cursor → Item → Go (List Bytes)
  | 0, _, _ => Prog.hang
  | _ + 1, _, (none, _) => pure []
  | n + 1, c, (some k, _) => do
    let _ ← (if P k then c.delete else pure none)
    let r ← Prog.query fun w => Cursor.Next fuel w c
    let ks ← deleteLoop fuel P n r.2 r.1
    pure (k :: ks)

/-- Delete the keys that satisfy `P` in a loop over a bucket. -/
def deleteWhere (fuel : Nat) (b : BucketId) (P : Bytes → Bool) : Go (List Bytes) := do
  let r ← Prog.query fun w => Cursor.First fuel w (cursor b)
  deleteLoop fuel P fuel r.2 r.1

end Bucket

/-- The loop does not change with more fuel. -/
lemma Bucket.deleteWhere_growing (b : BucketId) (P : Bytes → Bool) :
    Growing fun k => Bucket.deleteWhere k b P := by
  have hloop : ∀ (k n : Nat) (c : Cursor) (i : Item),
      (Bucket.deleteLoop k P n c i).Below (Bucket.deleteLoop (k + 1) P (n + 1) c i) := by
    intro k n
    induction n with
    | zero => exact fun _ _ => .hang _
    | succ n ih =>
      rintro c ⟨_ | key, v⟩
      · exact .refl _
      · exact (Below.refl _).bind fun _ => (Below.query fun w => Next_growing w c k).bind fun r =>
          (ih r.2 r.1).bind fun _ => .refl _
  exact fun k => (Below.query fun w => First_growing w _ k).bind fun r => hloop k k r.2 r.1

/-- A reference of a cursor next to that of the path it stands for: a node of the tree, or one that
was replaced and agrees with the tree on what comes next. -/
structure TwinRef (w : World) (b : BucketId) (a a' : ElemRef) : Prop where
  index : a.index = a'.index
  pos : 0 ≤ a.index
  old_branch : (w.nodes a.node).isLeaf = false
  branch : (w.nodes a'.node).isLeaf = false
  length : (w.inodes a.node).length = (w.inodes a'.node).length
  drop : (w.inodes a.node).drop (a.index.toNat + 1) = (w.inodes a'.node).drop (a.index.toNat + 1)
  old : a.node = a'.node ∨ Apart w b a.node

/-- A cursor on the leaf `l` with the stack `st`, where the tree has the leaf `l'` and the path
`st'`. -/
structure Straddles (w : World) (b : BucketId) (r : NodeId) (H : Nat) (l : NodeId)
    (st : List ElemRef) (l' : NodeId) (st' : List ElemRef) : Prop where
  spine : Spine w r H 0 l' st'
  refs : List.Forall₂ (TwinRef w b) st st'
  alloc : l < w.nextNode
  isLeaf : (w.nodes l).isLeaf = true
  ok : LeafOK (Layout.leaf l) l (w.inodes l)
  old : l = l' ∨ Apart w b l

section
variable {w w' w'' : World} {b : BucketId} {g g' : Layout} {r r' n l l' l'' : NodeId}
  {H d i : Nat}
  {st st' st'' : List ElemRef} {P : Bytes → Bool} {m : SortedMap Bytes Bytes}

/-! ## Moving on with an old stack -/

/-- A reference to a node of the tree is its own twin. -/
lemma TwinRef.refl {a : ElemRef} (hpos : 0 ≤ a.index) (hb : (w.nodes a.node).isLeaf = false) :
    TwinRef w b a a := ⟨rfl, hpos, hb, hb, rfl, rfl, .inl rfl⟩

/-- The next element of both references. -/
lemma TwinRef.succ {a a' : ElemRef} (h : TwinRef w b a a') :
    TwinRef w b ⟨a.node, a.index + 1⟩ ⟨a'.node, a'.index + 1⟩ ∧
      Cursor.childOf w ⟨a.node, a.index + 1⟩ = Cursor.childOf w ⟨a'.node, a'.index + 1⟩ := by
  have hpos := h.pos
  have hnat : (a.index + 1).toNat = a.index.toNat + 1 := by omega
  refine ⟨⟨by simp [h.index], by simp only; omega, h.old_branch, h.branch, h.length, ?_, h.old⟩, ?_⟩
  · have := congrArg (List.drop 1) h.drop
    rw [List.drop_drop, List.drop_drop] at this
    simpa only [hnat] using this
  · have hget : (w.inodes a.node)[a.index.toNat + 1]? = (w.inodes a'.node)[a.index.toNat + 1]? := by
      have := congrArg (fun l => l[0]?) h.drop
      simpa using this
    have hneg : ¬ a.index + 1 < 0 := by omega
    simp only [Cursor.childOf, ← h.index, atIndex, if_neg hneg, hnat, hget]

/-- Both stacks move over together. -/
lemma moveOver_twin (ht : List.Forall₂ (TwinRef w b) st st') :
    (Cursor.moveOver w st = none ∧ Cursor.moveOver w st' = none) ∨
      ∃ a a' t t', Cursor.moveOver w st = some (a :: t) ∧ Cursor.moveOver w st' = some (a' :: t') ∧
        TwinRef w b a a' ∧ List.Forall₂ (TwinRef w b) t t' ∧
        Cursor.childOf w a = Cursor.childOf w a' := by
  induction ht with
  | nil => exact .inl ⟨rfl, rfl⟩
  | @cons a a' st st' ha ht ih =>
    unfold Cursor.moveOver
    unfold Cursor.count
    rw [← ha.index, ← ha.length]
    by_cases hlt : a.index < ((w.inodes a.node).length : Int) - 1
    · obtain ⟨h1, h2⟩ := ha.succ
      rw [← ha.index] at h1 h2
      rw [if_pos hlt, if_pos hlt]
      exact .inr ⟨_, _, st, st', rfl, rfl, h1, ht, h2⟩
    · rw [if_neg hlt, if_neg hlt]
      exact ih

/-- Going down from one reference does not depend on what is below it on the stack. -/
lemma goToFirst_twin {fuel : Nat} {a x : ElemRef} {t' : List ElemRef} (hpos : 0 ≤ a.index)
    (ht : List.Forall₂ (TwinRef w b) st st')
    (e : Cursor.goToFirstElementOnTheStack fuel w (a :: st') = .ok (x :: t')) :
    ∃ t, Cursor.goToFirstElementOnTheStack fuel w (a :: st) = .ok (x :: t) ∧
      List.Forall₂ (TwinRef w b) t t' := by
  induction fuel generalizing a st st' with
  | zero => cases e
  | succ fuel ih =>
    unfold Cursor.goToFirstElementOnTheStack at e ⊢
    by_cases hl : (w.nodes a.node).isLeaf = true
    · rw [if_pos hl] at e ⊢
      cases e
      exact ⟨st, rfl, ht⟩
    · rw [if_neg hl] at e ⊢
      obtain ⟨c, hc, e⟩ := Outcome.bind_eq_ok.1 e
      rw [hc, Outcome.ok_bind]
      exact ih le_rfl (.cons (.refl hpos (by simpa using hl)) ht) e

/-- Both stacks go to the same leaf after they have moved over. -/
lemma goToFirst_over {fuel : Nat} {a a' x : ElemRef} {t' : List ElemRef} (ha : TwinRef w b a a')
    (hc : Cursor.childOf w a = Cursor.childOf w a') (ht : List.Forall₂ (TwinRef w b) st st')
    (e : Cursor.goToFirstElementOnTheStack fuel w (a' :: st') = .ok (x :: t')) :
    ∃ t, Cursor.goToFirstElementOnTheStack fuel w (a :: st) = .ok (x :: t) ∧
      List.Forall₂ (TwinRef w b) t t' := by
  cases fuel with
  | zero => cases e
  | succ fuel =>
    unfold Cursor.goToFirstElementOnTheStack at e ⊢
    rw [if_neg (by simp [ha.branch])] at e
    rw [if_neg (by simp [ha.old_branch])]
    obtain ⟨c, hc', e⟩ := Outcome.bind_eq_ok.1 e
    rw [hc, hc', Outcome.ok_bind]
    exact goToFirst_twin le_rfl (.cons ha ht) e

/-- `next` at the end of a leaf goes to the next leaf of the tree that is not empty. -/
lemma nextStack_twin (h : TreeOK w g r H) {ls : List NodeId}
    (ht : List.Forall₂ (TwinRef w b) st st') (hs : Spine w r H 0 l' st')
    (hls : leavesAbove w 1 st' = ls) (hi : (w.inodes l).length ≤ i + 1) :
    ((∀ m ∈ ls, w.inodes m = []) ∧ ∃ s, ∀ᶠ fuel in atTop,
        Cursor.nextStack fuel w (⟨l, (i : Nat)⟩ :: st) = .ok ((none, none), s)) ∨
      ∃ ls1 l2 st2 st2', ls = ls1 ++ l2 :: leavesAbove w 1 st2' ∧ (∀ m ∈ ls1, w.inodes m = []) ∧
        w.inodes l2 ≠ [] ∧ List.Forall₂ (TwinRef w b) st2 st2' ∧ Spine w r H 0 l2 st2' ∧
        ∀ᶠ fuel in atTop, Cursor.nextStack fuel w (⟨l, (i : Nat)⟩ :: st) =
          .ok (itemOf (contents w 0 l2)[0]?, ⟨l2, (0 : Nat)⟩ :: st2) := by
  induction ls generalizing l l' i st st' with
  | nil =>
    have hm : Cursor.moveOver w st = none := by
      rcases moveOver_twin ht with ⟨hm, -⟩ | ⟨a, a', t, t', -, hm, -⟩
      · exact hm
      · obtain ⟨_, _, _, _, e⟩ := moveOver_some h hs hm
        rw [hls] at e
        cases e
    refine .inl ⟨by simp, ⟨l, (i : Nat)⟩ :: st, ?_⟩
    filter_upwards [eventually_gt_atTop 0] with fuel hf
    obtain ⟨k, rfl⟩ : ∃ k, fuel = k + 1 := ⟨fuel - 1, by omega⟩
    exact nextStack_end hi hm
  | cons l1 ls ih =>
    rcases moveOver_twin ht with ⟨-, hm⟩ | ⟨a, a', t, t', hm, hm', ha, ht1, hc⟩
    · have := moveOver_none hs hm
      rw [hls] at this
      cases this
    obtain ⟨l2, st2', hgo, hs2, e⟩ := moveOver_some h hs hm'
    rw [hls, List.cons.injEq] at e
    obtain ⟨rfl, e⟩ := e
    obtain ⟨st2, hgo2, ht2⟩ := goToFirst_over ha hc ht1 (hgo (H + 1) (Nat.lt_succ_self H))
    have hgo2 := (goToFirst_growing w _).eventually_eq_ok hgo2
    by_cases hemp : w.inodes l1 = []
    · -- an empty leaf is passed over
      have hnext : ∀ x, (∀ᶠ fuel in atTop, Cursor.nextStack fuel w (⟨l1, (0 : Nat)⟩ :: st2) = x) →
          ∀ᶠ fuel in atTop, Cursor.nextStack fuel w (⟨l, (i : Nat)⟩ :: st) = x := by
        intro x hx
        refine eventually_succ (hgo2.and hx) fun k hk => ?_
        rw [nextStack_over h hi hm hk.1 (hs2.lvl h), if_pos hemp]
        exact hk.2
      rcases ih (l := l1) (i := 0) ht2 hs2 e.symm (by simp [hemp]) with
        ⟨hall, s, hgo⟩ | ⟨ls1, l3, st3, st3', hsplit, hall, hne, ht3, hs3, hgo⟩
      · exact .inl ⟨by simpa [hemp] using hall, s, hnext _ hgo⟩
      · exact .inr ⟨l1 :: ls1, l3, st3, st3', by simp [hsplit], by simpa [hemp] using hall,
          hne, ht3, hs3, hnext _ hgo⟩
    · refine .inr ⟨[], l1, st2, st2', by simp [e], by simp, hemp, ht2, hs2, ?_⟩
      refine eventually_succ hgo2 fun k hk => ?_
      rw [nextStack_over h hi hm hk (hs2.lvl h), if_neg hemp]
      rfl

/-- A node on the path was replaced. -/
lemma TwinRef.carry {a a' a'' : ElemRef} (h : Held w b g r H) (ha : TwinRef w b a a')
    (hap : ∀ n, Apart w b n → Apart w' b n ∧ w'.nodes n = w.nodes n ∧ w'.inodes n = w.inodes n)
    (hl : g.lvl a'.node = some d) (hb : (w'.nodes a''.node).isLeaf = false)
    (hc : CarriesRef w b w' a' a'') : TwinRef w' b a a'' := by
  have hidx : a.index = a''.index := ha.index.trans hc.index.symm
  by_cases he : a.node = a''.node
  · exact ⟨hidx, ha.pos, by rw [he]; exact hb, hb, by rw [he], by rw [he], .inl he⟩
  · -- a clean node that was replaced stays as it was
    have hold : Apart w b a.node := by
      rcases ha.old with e | hold
      · rw [e]
        exact h.apart hl fun hd => he (e.trans (hc.dirty hd).symm)
      · exact hold
    obtain ⟨hap', hnode, hins⟩ := hap _ hold
    refine ⟨hidx, ha.pos, by rw [hnode]; exact ha.old_branch, hb, ?_, ?_, .inr hap'⟩
    · rw [hins, ha.length, hc.length]
    · rw [hins, ha.drop, ha.index, hc.drop]

lemma forall₂_twin_carry (h : Held w b g r H)
    (hap : ∀ n, Apart w b n → Apart w' b n ∧ w'.nodes n = w.nodes n ∧ w'.inodes n = w.inodes n)
    (hl : ∀ a ∈ st', ∃ e, d < e ∧ g.lvl a.node = some e)
    (hb : ∀ a ∈ st'', (w'.nodes a.node).isLeaf = false) (ht : List.Forall₂ (TwinRef w b) st st')
    (hc : List.Forall₂ (CarriesRef w b w') st' st'') : List.Forall₂ (TwinRef w' b) st st'' := by
  induction ht generalizing st'' with
  | nil =>
    cases hc
    exact .nil
  | cons ha _ ih =>
    cases hc with
    | cons hc hcs =>
      obtain ⟨e, -, he⟩ := hl _ (List.mem_cons_self ..)
      exact .cons (ha.carry h hap he (hb _ (List.mem_cons_self ..)) hc)
        (ih (fun a ha => hl a (List.mem_cons_of_mem _ ha))
          (fun a ha => hb a (List.mem_cons_of_mem _ ha)) hcs)

namespace Straddles

/-- A cursor that stands on the path of the tree. -/
lemma of_spine (h : TreeOK w g r H) (hs : Spine w r H 0 l st')
    (ht : List.Forall₂ (TwinRef w b) st st') : Straddles w b r H l st l st' := by
  have hl := hs.lvl h
  have hok := h.leaf l hl
  exact ⟨hs, ht, h.alloc l 0 hl, h.isLeaf_true hl,
    ⟨hok.sorted, hok.entry, fun _ _ => nil_le_bytes _, fun _ _ => WithTop.coe_lt_top _⟩, .inl rfl⟩

/-- The cursor still agrees with the tree after a node on the path was replaced. -/
lemma carry (h : Held w b g r H) (hs : Straddles w b r H l st l' st') (h' : TreeOK w' g' r' H)
    (hs' : Spine w' r' H 0 l'' st'') (hc : Carries w b l' st' w' l'' st'') :
    Straddles w' b r' H l st l'' st'' := by
  have hrefs := forall₂_twin_carry h hc.apart (fun a ha => hs.spine.lvl_mem h.tree ha)
    (fun a ha => by
      obtain ⟨e, he, hl⟩ := hs'.lvl_mem h' ha
      obtain ⟨k, rfl⟩ : ∃ k, e = k + 1 := ⟨e - 1, by omega⟩
      exact h'.isLeaf_false hl) hs.refs hc.refs
  by_cases hd : l ∈ (w.buckets b).dirty
  · rcases hs.old with rfl | hap
    · rw [hc.leaf hd] at hs' ⊢
      exact of_spine h' hs' hrefs
    · exact absurd hd hap.clean
  · have hap : Apart w b l := by
      rcases hs.old with rfl | hap
      · exact h.apart (hs.spine.lvl h.tree) hd
      · exact hap
    obtain ⟨hap', hnode, hins⟩ := hc.apart l hap
    exact ⟨hs', hrefs, hap'.alloc, by rw [hnode]; exact hs.isLeaf, by rw [hins]; exact hs.ok,
      .inr hap'⟩

end Straddles

/-! ## Where an entry is passed over -/

/-- The entries from position `i` of the leaf `l` on, if the leaves `ls` come after it. -/
def entriesFrom (w : World) (l : NodeId) (i : Nat) (ls : List NodeId) : List (Bytes × Bytes) :=
  (contents w 0 l).drop i ++ ls.flatMap (contents w 0)

/-- The handle has copied the leaf `l`, and one of the inodes `ins` that is not the last one is to
be deleted. -/
def Exposed (w : World) (b : BucketId) (P : Bytes → Bool) (l : NodeId) (ins : List Inode) : Prop :=
  l ∈ (w.buckets b).dirty ∧ ∃ x ∈ ins.dropLast, P x.key = true

/-- Some leaf is exposed from position `i` of the leaf `l` on. -/
def Skips (w : World) (b : BucketId) (P : Bytes → Bool) (l : NodeId) (i : Nat) (ls : List NodeId) :
    Prop :=
  Exposed w b P l ((w.inodes l).drop i) ∨ ∃ m ∈ ls, Exposed w b P m (w.inodes m)

/-- An entry that is to be deleted exposes its leaf if another one is behind it. -/
lemma exposed_cons {x : Inode} {t : List Inode} : Exposed w b P l (x :: t) ↔
    (l ∈ (w.buckets b).dirty ∧ P x.key = true ∧ t ≠ []) ∨ Exposed w b P l t := by
  unfold Exposed
  cases t with
  | nil => simp
  | cons y t => simp [List.dropLast, and_or_left]

/-- Where an entry is passed over, there are entries. -/
lemma Skips.ne_nil {ls : List NodeId} (h : Skips w b P l i ls) : entriesFrom w l i ls ≠ [] := by
  intro hnil
  obtain ⟨h1, h2⟩ := List.append_eq_nil_iff.1 hnil
  rcases h with ⟨-, x, hx, -⟩ | ⟨m, hm, -, x, hx, -⟩
  · rw [contents, ← List.map_drop, List.map_eq_nil_iff] at h1
    rw [h1] at hx
    cases hx
  · have := List.flatMap_eq_nil_iff.1 h2 m hm
    rw [contents, List.map_eq_nil_iff] at this
    rw [this] at hx
    cases hx

namespace Straddles

/-- `Next` returns the first entry behind the position of the cursor. -/
lemma next (h : TreeOK w g r H) (hs : Straddles w b r H l st l' st') (i : Nat) :
    (entriesFrom w l (i + 1) (leavesAbove w 1 st') = [] ∧ ∃ s, ∀ᶠ fuel in atTop,
        Cursor.nextStack fuel w (⟨l, (i : Nat)⟩ :: st) = .ok ((none, none), s)) ∨
      ∃ l2 i2 st2 l2' st2', Straddles w b r H l2 st2 l2' st2' ∧ i2 < (w.inodes l2).length ∧
        entriesFrom w l (i + 1) (leavesAbove w 1 st') = entriesFrom w l2 i2 (leavesAbove w 1 st2') ∧
        (∀ᶠ fuel in atTop, Cursor.nextStack fuel w (⟨l, (i : Nat)⟩ :: st) =
          .ok (itemOf (entriesFrom w l2 i2 (leavesAbove w 1 st2')).head?,
            ⟨l2, (i2 : Nat)⟩ :: st2)) ∧
        (∀ P, Skips w b P l2 i2 (leavesAbove w 1 st2') ↔
          Skips w b P l (i + 1) (leavesAbove w 1 st')) ∧
        ((∃ kept, w.inodes l' = kept ++ (w.inodes l).drop (i + 1)) →
          ∃ kept, w.inodes l2' = kept ++ (w.inodes l2).drop i2) := by
  by_cases hi : i + 1 < (w.inodes l).length
  · refine .inr ⟨l, i + 1, st, l', st', hs, hi, rfl, ?_, fun _ => Iff.rfl, id⟩
    have hhead : (entriesFrom w l (i + 1) (leavesAbove w 1 st')).head? =
        (contents w 0 l)[i + 1]? := by
      have hlt : i + 1 < (contents w 0 l).length := by simpa [contents] using hi
      rw [entriesFrom, List.drop_eq_getElem_cons hlt, List.getElem?_eq_getElem hlt]
      rfl
    filter_upwards [eventually_ge_atTop 2] with fuel hf
    obtain ⟨k, rfl⟩ : ∃ k, fuel = k + 2 := ⟨fuel - 2, by omega⟩
    obtain ⟨ht, -⟩ := treeOK_leaf hs.alloc hs.isLeaf hs.ok
    rw [hhead]
    exact nextStack_within ht ht.lvl_root hi
  · have hdrop : (w.inodes l).drop (i + 1) = [] := List.drop_eq_nil_of_le (by omega)
    have hfrom : ∀ ls, entriesFrom w l (i + 1) ls = ls.flatMap (contents w 0) := by
      intro ls
      rw [entriesFrom, contents, ← List.map_drop, hdrop]
      rfl
    have hnone : ∀ {ls : List NodeId}, (∀ m ∈ ls, w.inodes m = []) →
        ls.flatMap (contents w 0) = [] :=
      fun hall => List.flatMap_eq_nil_iff.2 fun m hm => by simp [contents, hall m hm]
    rw [hfrom]
    rcases nextStack_twin h (l := l) (i := i) hs.refs hs.spine rfl (by omega) with
      ⟨hall, s, hgo⟩ | ⟨ls1, l2, st2, st2', hsplit, hall, hne, ht2, hs2, hgo⟩
    · exact .inl ⟨hnone hall, s, hgo⟩
    · have hlen : 0 < (w.inodes l2).length := List.length_pos_iff.2 hne
      refine .inr ⟨l2, 0, st2, l2, st2', of_spine h hs2 ht2, hlen, ?_, ?_, fun P => ?_,
        fun _ => ⟨[], rfl⟩⟩
      · rw [hsplit, List.flatMap_append, hnone hall]
        rfl
      · have hhead : (entriesFrom w l2 0 (leavesAbove w 1 st2')).head? = (contents w 0 l2)[0]? := by
          have hlt : 0 < (contents w 0 l2).length := by simpa [contents] using hlen
          rw [entriesFrom, List.drop_eq_getElem_cons hlt, List.getElem?_eq_getElem hlt]
          rfl
        rw [hhead]
        exact hgo
      · have hemp : ∀ m ∈ ls1, ¬ Exposed w b P m (w.inodes m) := by
          rintro m hm ⟨-, x, hx, -⟩
          rw [hall m hm] at hx
          cases hx
        have hl : ¬ Exposed w b P l ((w.inodes l).drop (i + 1)) := by
          rintro ⟨-, x, hx, -⟩
          rw [hdrop] at hx
          cases hx
        rw [hsplit, Skips, Skips, or_iff_right hl, List.drop_zero]
        constructor
        · rintro (hx | ⟨m, hm, hx⟩)
          · exact ⟨l2, by simp, hx⟩
          · exact ⟨m, by simp [hm], hx⟩
        · rintro ⟨m, hm, hx⟩
          rcases List.mem_append.1 hm with hm | hm
          · exact absurd hx (hemp m hm)
          · rcases List.mem_cons.1 hm with rfl | hm
            · exact .inl hx
            · exact .inr ⟨m, hm, hx⟩

/-- `Cursor.Delete` on the entry the cursor stands on. -/
lemma delete (h : Held w b g r H) (hw : Writable w b) (hm : contents w H r = m.entries)
    (hs : Straddles w b r H l st l' st') {x : Inode} {kept : List Inode}
    (hx : (w.inodes l)[i]? = some x) (hrest : w.inodes l' = kept ++ (w.inodes l).drop i)
    {c : Cursor} (hc : c.bucket = some b) (hst : c.stack = ⟨l, (i : Nat)⟩ :: st) :
    ∃ w' g' r' l'' st'', Cursor.delete c w = (.ok none, w') ∧ Held w' b g' r' H ∧
      contents w' H r' = (m.erase x.key).entries ∧ Quiet b w w' ∧ Spine w' r' H 0 l'' st'' ∧
      Carries w b l' st' w' l'' st'' ∧ w'.inodes l'' = kept ++ (w.inodes l).drop (i + 1) := by
  obtain ⟨hlt, hget⟩ := List.getElem?_eq_some_iff.1 hx
  have hdrop : (w.inodes l).drop i = x :: (w.inodes l).drop (i + 1) := by
    rw [List.drop_eq_getElem_cons hlt, hget]
  rw [hdrop] at hrest
  have hl' := hs.spine.lvl h.tree
  obtain ⟨l1, w1, g1, r1, st1, e1, hr, hs1, hcar⟩ := h.node hs.spine ⟨l, (i : Nat)⟩
  obtain ⟨w2, e2, hh, hx2, hcont, hq, hu⟩ := hr.del h.tree h.exact hm hl' ⟨x, by simp [hrest], rfl⟩
  obtain ⟨hs2, hcar2⟩ := hr.handle.carries_upd hs1 hr.dirty hu
  refine ⟨w2, g1, r1, l1, st1, ?_, .inl ⟨hh, hx2⟩, hcont, hq, hs2, hcar.trans hcar2, ?_⟩
  · obtain ⟨ht, -⟩ := treeOK_leaf hs.alloc hs.isLeaf hs.ok
    have hkey : (itemOf (contents w 0 l)[i]?).1.getD [] = x.key := by
      simp [contents, hx, itemOf, Inode.entry]
    have hidx : st.map ElemRef.index = st'.map ElemRef.index :=
      List.forall₂_eq_eq_eq ▸ (List.forall₂_map_left_iff.2 (List.forall₂_map_right_iff.2
        (hs.refs.imp fun _ _ ha => ha.index)))
    unfold Cursor.delete
    rw [hc]
    dsimp only
    rw [Prog.read_bind, if_neg (by rw [hw.opened]; simp), if_neg (by rw [hw.writable]; simp), hst,
      Prog.query_bind (f := fun w => Cursor.keyValue w _) (keyValue_eq ht ht.lvl_root i), hkey,
      node_congr hidx, Prog.bind_ok e1]
    exact Prog.bind_ok e2
  · have hsorted := h.tree.sorted hl'
    rw [hrest, List.pairwise_append, List.pairwise_cons] at hsorted
    obtain ⟨-, ⟨hgt, -⟩, hless⟩ := hsorted
    rw [hu.inodes, hr.inodes, hrest]
    exact (delInodes_append (fun j hj => hless j hj x (by simp)) (fun j hj => (hgt j hj).le) rfl).2

end Straddles

/-! ## One pass of the loop -/

/-- The loop stands on position `i` of the leaf `l`, and the tree still holds what comes next. -/
structure Midway (w : World) (b : BucketId) (r : NodeId) (H : Nat) (l : NodeId) (i : Nat)
    (st : List ElemRef) (l' : NodeId) (st' : List ElemRef) : Prop
    extends Straddles w b r H l st l' st' where
  lt : i < (w.inodes l).length
  rest : ∃ kept, w.inodes l' = kept ++ (w.inodes l).drop i

/-- What comes next after the body of the loop has left the state `w'`: the entries that came next
before, unless the entries of a leaf have moved under the cursor. -/
def Passes (w : World) (b : BucketId) (P : Bytes → Bool) (l : NodeId) (i : Nat) (ls : List NodeId)
    (w' : World) (l'' : NodeId) (ls' : List NodeId) : Prop :=
  (Skips w b P l i ls ∧ (w.inodes l).drop (i + 1) ≠ [] ∧
      entriesFrom w' l (i + 1) ls' = (entriesFrom w l (i + 1) ls).tail) ∨
    (entriesFrom w' l (i + 1) ls' = entriesFrom w l (i + 1) ls ∧
      (Skips w' b P l (i + 1) ls' ↔ Skips w b P l i ls) ∧
      ∃ kept, w'.inodes l'' = kept ++ (w'.inodes l).drop (i + 1))

/-- An entry that is kept. -/
lemma Midway.passes_keep {x : Inode} (hd : Midway w b r H l i st l' st')
    (hx : (w.inodes l)[i]? = some x) (hP : P x.key = false) (ls : List NodeId) :
    Passes w b P l i ls w l' ls := by
  obtain ⟨hlt, hget⟩ := List.getElem?_eq_some_iff.1 hx
  have hdrop : (w.inodes l).drop i = x :: (w.inodes l).drop (i + 1) := by
    rw [List.drop_eq_getElem_cons hlt, hget]
  obtain ⟨kept, hrest⟩ := hd.rest
  refine .inr ⟨rfl, ?_, kept ++ [x], by rw [hrest, hdrop]; simp⟩
  rw [Skips, Skips, hdrop, exposed_cons]
  simp [hP]

/-- An entry that is deleted. -/
lemma Midway.passes_delete {x : Inode} {kept : List Inode} (h : Held w b g r H)
    (hd : Midway w b r H l i st l' st') (hx : (w.inodes l)[i]? = some x) (hP : P x.key = true)
    (hrest : w.inodes l' = kept ++ (w.inodes l).drop i) (hc : Carries w b l' st' w' l'' st'')
    (hins : w'.inodes l'' = kept ++ (w.inodes l).drop (i + 1)) :
    Passes w b P l i (leavesAbove w 1 st') w' l'' (leavesAbove w' 1 st'') := by
  obtain ⟨hlt, hget⟩ := List.getElem?_eq_some_iff.1 hx
  have hdrop : (w.inodes l).drop i = x :: (w.inodes l).drop (i + 1) := by
    rw [List.drop_eq_getElem_cons hlt, hget]
  have hright : (leavesAbove w 1 st').flatMap (contents w' 0) =
      (leavesAbove w 1 st').flatMap (contents w 0) :=
    List.flatMap_congr fun m hm => by simp only [contents, (hc.right m hm).1]
  have habove : (∃ m ∈ leavesAbove w 1 st', Exposed w' b P m (w'.inodes m)) ↔
      ∃ m ∈ leavesAbove w 1 st', Exposed w b P m (w.inodes m) := by
    refine exists_congr fun m => and_congr_right fun hm => ?_
    unfold Exposed
    rw [(hc.right m hm).1, (hc.right m hm).2]
  rw [hc.above]
  by_cases hdl : l ∈ (w.buckets b).dirty
  · -- the entries behind the deleted one move up
    obtain rfl : l = l' := hd.old.resolve_right fun hap => hap.clean hdl
    have hlen : kept.length = i := by
      have := congrArg List.length hrest
      simp only [List.length_append, List.length_drop] at this
      omega
    have hdrop' : (w'.inodes l).drop (i + 1) = ((w.inodes l).drop (i + 1)).tail := by
      rw [hc.leaf hdl] at hins
      rw [hins, List.drop_append, List.drop_eq_nil_of_le (by omega), hlen, Nat.add_sub_cancel_left,
        List.drop_one]
      rfl
    have hfrom : entriesFrom w' l (i + 1) (leavesAbove w 1 st') =
        ((contents w 0 l).drop (i + 1)).tail ++ (leavesAbove w 1 st').flatMap (contents w 0) := by
      rw [entriesFrom, hright, contents, contents, ← List.map_drop, hdrop', List.map_tail,
        List.map_drop]
    by_cases ht : (w.inodes l).drop (i + 1) = []
    · have hnil : (contents w 0 l).drop (i + 1) = [] := by
        rw [contents, ← List.map_drop, ht, List.map_nil]
      rw [ht, List.tail_nil] at hdrop'
      refine .inr ⟨by rw [hfrom, entriesFrom, hnil]; rfl, ?_, kept, by rw [hdrop', hins, ht]⟩
      have h1 : ¬ Exposed w' b P l [] := fun hx => by simpa [Exposed] using hx.2
      have h2 : ¬ Exposed w b P l [] := fun hx => by simpa [Exposed] using hx.2
      rw [Skips, Skips, hdrop, ht, hdrop', exposed_cons, or_iff_right h1, habove]
      simp [h2]
    · refine .inl ⟨.inl (by rw [hdrop]; exact exposed_cons.2 (.inl ⟨hdl, hP, ht⟩)), ht, ?_⟩
      rw [hfrom, entriesFrom, List.tail_append_of_ne_nil]
      rw [contents, ← List.map_drop]
      simpa using ht
  · -- the cursor stays on the replaced leaf
    have hap : Apart w b l := by
      rcases hd.old with rfl | hap
      · exact h.apart (hd.spine.lvl h.tree) hdl
      · exact hap
    obtain ⟨hap', -, hsame⟩ := hc.apart l hap
    refine .inr ⟨?_, ?_, kept, by rw [hsame]; exact hins⟩
    · rw [entriesFrom, entriesFrom, hright]
      simp only [contents, hsame]
    · have h1 : ∀ ins, ¬ Exposed w b P l ins := fun _ hx => hdl hx.1
      have h2 : ∀ ins, ¬ Exposed w' b P l ins := fun _ hx => hap'.clean hx.1
      rw [Skips, Skips, or_iff_right (h1 _), or_iff_right (h2 _), habove]

lemma entriesFrom_eq_cons {x : Inode} (hx : (w.inodes l)[i]? = some x) (ls : List NodeId) :
    entriesFrom w l i ls = x.entry :: entriesFrom w l (i + 1) ls := by
  obtain ⟨hlt, hget⟩ := List.getElem?_eq_some_iff.1 hx
  rw [entriesFrom, contents, ← List.map_drop, List.drop_eq_getElem_cons hlt, hget, List.map_cons,
    List.map_drop]
  rfl

/-- The body of the loop. -/
lemma Midway.body {x : Inode} {pre : List (Bytes × Bytes)} {c : Cursor} (h : Held w b g r H)
    (hw : Writable w b) (hm : contents w H r = m.entries)
    (hpre : m.entries = pre ++ entriesFrom w l i (leavesAbove w 1 st'))
    (hd : Midway w b r H l i st l' st') (hx : (w.inodes l)[i]? = some x)
    (hc : c.bucket = some b) (hst : c.stack = ⟨l, (i : Nat)⟩ :: st) :
    ∃ (w1 : World) (g1 : Layout) (r1 l1 : NodeId) (st1 : List ElemRef) (m1 : SortedMap Bytes Bytes),
      (if P x.key then c.delete else pure none) w = (.ok none, w1) ∧
      Held w1 b g1 r1 H ∧ contents w1 H r1 = m1.entries ∧
      m1.entries = (pre ++ if P x.key then [] else [x.entry]) ++
        entriesFrom w l (i + 1) (leavesAbove w 1 st') ∧ Quiet b w w1 ∧
      Straddles w1 b r1 H l st l1 st1 ∧
      Passes w b P l i (leavesAbove w 1 st') w1 l1 (leavesAbove w1 1 st1) := by
  rw [entriesFrom_eq_cons hx] at hpre
  cases hP : P x.key with
  | true =>
    obtain ⟨kept, hrest⟩ := hd.rest
    obtain ⟨w1, g1, r1, l1, st1, e, hh, hcont, hq, hs, hcar, hins⟩ :=
      hd.toStraddles.delete h hw hm hx hrest hc hst
    refine ⟨w1, g1, r1, l1, st1, m.erase x.key, e, hh, hcont, ?_, hq,
      hd.toStraddles.carry h hh.tree hs hcar, hd.passes_delete h hx hP hrest hcar hins⟩
    rw [show x.key = x.entry.1 from rfl, SortedMap.erase_entries hpre]
    simp
  | false =>
    exact ⟨w, g, r, l', st', m, rfl, h, hm, by simpa using hpre, .refl b w, hd.toStraddles,
      hd.passes_keep hx hP _⟩

/-! ## The loop -/

lemma deleteLoop_cons {fuel k : Nat} {c c' : Cursor} {key : Bytes} {v : Option Bytes} {item : Item}
    (h1 : (if P key then c.delete else pure none : Go (Option Err)) w = (.ok none, w'))
    (h2 : Cursor.Next fuel w' c = .ok (item, c')) :
    Bucket.deleteLoop fuel P (k + 1) c (some key, v) w = (do
      let ks ← Bucket.deleteLoop fuel P k c' item
      pure (key :: ks)) w' := by
  rw [Bucket.deleteLoop, Prog.bind_ok h1, Prog.query_bind (f := fun w => Cursor.Next fuel w c) h2]

/-- The first key the loop visits. -/
lemma deleteLoop_head {fuel k : Nat} {c : Cursor} {item : Item} {ks : List Bytes}
    (h : Bucket.deleteLoop fuel P k c item w = (.ok ks, w')) : ks.head? = item.1 := by
  rcases item with ⟨_ | key, v⟩ <;> cases k with
  | zero => cases h
  | succ k => ?_
  · cases h
    rfl
  · rw [Bucket.deleteLoop] at h
    obtain ⟨_, w1, -, h⟩ := Prog.bind_eq_ok h
    obtain ⟨_, w2, -, h⟩ := Prog.bind_eq_ok h
    obtain ⟨ks, w3, -, h⟩ := Prog.bind_eq_ok h
    cases h
    rfl

/-- `Next` on a cursor of an open bucket. -/
lemma next_eq (ho : Opened w b) {c : Cursor} (hc : c.bucket = some b) (fuel : Nat) :
    Cursor.Next fuel w c = (do
      let r ← Cursor.nextStack fuel w c.stack
      pure (r.1, { c with stack := r.2 })) := by
  have ho' : (w.txs (w.buckets b).tx).db = true := ho
  unfold Cursor.Next Cursor.openRoot
  simp only [hc, ho', if_true, Outcome.ok_bind]

/-- The loop from an entry on: it visits all entries that come next and deletes those that satisfy
`P`, unless one of them is passed over. -/
lemma deleteLoop_eq (es : List (Bytes × Bytes)) {pre : List (Bytes × Bytes)} {c : Cursor}
    (h : Held w b g r H) (hw : Writable w b) (hm : contents w H r = m.entries)
    (hpre : m.entries = pre ++ es) (hd : Midway w b r H l i st l' st')
    (hes : entriesFrom w l i (leavesAbove w 1 st') = es) (hc : c.bucket = some b)
    (hst : c.stack = ⟨l, (i : Nat)⟩ :: st) :
    (¬ Skips w b P l i (leavesAbove w 1 st') → ∃ (w' : World) (m' : SortedMap Bytes Bytes),
        (∀ᶠ fuel in atTop, ∀ n, es.length < n →
          Bucket.deleteLoop fuel P n c (itemOf es.head?) w = (.ok (es.map Prod.fst), w')) ∧
        Holds w' b m' ∧ m'.entries = pre ++ es.filter (fun x => !P x.1) ∧ Quiet b w w') ∧
      (Skips w b P l i (leavesAbove w 1 st') → ∀ᶠ fuel in atTop, ∀ n ks w',
        Bucket.deleteLoop fuel P n c (itemOf es.head?) w = (.ok ks, w') →
          ks ≠ es.map Prod.fst) := by
  induction es generalizing w g r H l i st l' st' c m pre with
  | nil =>
    rw [entriesFrom_eq_cons (List.getElem?_eq_getElem hd.lt)] at hes
    cases hes
  | cons e es ih =>
    obtain ⟨x, hx⟩ : ∃ x, (w.inodes l)[i]? = some x := ⟨_, List.getElem?_eq_getElem hd.lt⟩
    obtain ⟨w1, g1, r1, l1, st1, m1, hbody, h1, hm1, hent, hq, hs1, hpass⟩ :=
      hd.body (P := P) h hw hm (hes ▸ hpre) hx hc hst
    rw [entriesFrom_eq_cons hx, List.cons.injEq] at hes
    obtain ⟨rfl, hes⟩ := hes
    have hw1 := hq.writable hw
    have hfilter : (x.entry :: es).filter (fun x => !P x.1) =
        (if P x.key then [] else [x.entry]) ++ es.filter fun x => !P x.1 := by
      rw [List.filter_cons, show x.entry.1 = x.key from rfl]
      cases P x.key <;> rfl
    -- the loop goes on from what `Next` finds after the body
    have hstep : ∀ {fuel k s} {item : Item}, Cursor.nextStack fuel w1 (⟨l, (i : Nat)⟩ :: st) =
        .ok (item, s) → Bucket.deleteLoop fuel P (k + 1) c (itemOf (x.entry :: es).head?) w = (do
          let ks ← Bucket.deleteLoop fuel P k { c with stack := s } item
          pure (x.key :: ks)) w1 := by
      intro fuel k s item e
      exact deleteLoop_cons hbody (by rw [next_eq hw1.opened hc, hst, e]; rfl)
    rcases hpass with ⟨hskip, hne, htail⟩ | ⟨hfrom, hskip, hrest⟩
    · refine ⟨fun hno => absurd hskip hno, fun _ => ?_⟩
      obtain ⟨s, hgo⟩ : ∃ s, ∀ᶠ fuel in atTop, Cursor.nextStack fuel w1 (⟨l, (i : Nat)⟩ :: st) =
          .ok (itemOf es.tail.head?, s) := by
        rcases hs1.next h1.tree i
          with ⟨hnil, s, hgo⟩ | ⟨l2, i2, st2, l2', st2', -, -, hfrom2, hgo, -⟩
        · rw [htail, hes] at hnil
          rw [hnil]
          exact ⟨s, hgo⟩
        · rw [← hfrom2, htail, hes] at hgo
          exact ⟨_, hgo⟩
      have hlong : es ≠ [] := by
        rintro rfl
        refine hne ?_
        have := (List.append_eq_nil_iff.1 hes).1
        rw [contents, ← List.map_drop] at this
        exact List.map_eq_nil_iff.1 this
      obtain ⟨y, es, rfl⟩ := List.exists_cons_of_ne_nil hlong
      filter_upwards [hgo] with fuel hgo n ks w' hrun hks
      cases n with
      | zero => cases hrun
      | succ k =>
        rw [hstep hgo] at hrun
        obtain ⟨ks', w2, hrun, hks'⟩ := Prog.bind_eq_ok hrun
        cases hks'
        -- the key that comes next is not the one behind the deleted entry
        have hhead := deleteLoop_head hrun
        rw [List.map_cons, List.cons.injEq] at hks
        rw [hks.2] at hhead
        have hsorted := m.sorted
        rw [hpre, List.pairwise_append, List.pairwise_cons, List.pairwise_cons] at hsorted
        cases es with
        | nil => cases hhead
        | cons z es =>
          have hlt := hsorted.2.1.2.1 z (by simp)
          exact hlt.ne (Option.some.inj hhead)
    · rw [hes] at hfrom hent
      rcases hs1.next h1.tree i with
        ⟨hnil, s, hgo⟩ | ⟨l2, i2, st2, l2', st2', hs2, hlt2, hfrom2, hgo, hskip2, hrest2⟩
      · have hno : ¬ Skips w b P l i (leavesAbove w 1 st') := fun hs => (hskip.2 hs).ne_nil hnil
        rw [hfrom] at hnil
        subst hnil
        refine ⟨fun _ => ⟨w1, m1, ?_, h1.holds hm1, ?_, hq⟩, fun hs => absurd hs hno⟩
        · filter_upwards [hgo] with fuel hgo n hn
          obtain ⟨k, rfl⟩ : ∃ k, n = k + 2 := ⟨n - 2, by simp at hn; omega⟩
          rw [hstep hgo]
          rfl
        · rw [hent, hfilter]
          simp
      · have hd2 : Midway w1 b r1 H l2 i2 st2 l2' st2' := ⟨hs2, hlt2, hrest2 hrest⟩
        obtain ⟨ih1, ih2⟩ := ih (c := { c with stack := ⟨l2, (i2 : Nat)⟩ :: st2 }) h1 hw1 hm1
          hent hd2 (hfrom2.symm.trans hfrom) hc rfl
        rw [hskip2, hskip] at ih1 ih2
        rw [← hfrom2, hfrom] at hgo
        refine ⟨fun hno => ?_, fun hs => ?_⟩
        · obtain ⟨w', m', hrun, hh, hent', hq'⟩ := ih1 hno
          refine ⟨w', m', ?_, hh, ?_, hq.trans hq'⟩
          · filter_upwards [hgo, hrun] with fuel hgo hrun n hn
            obtain ⟨k, rfl⟩ : ∃ k, n = k + 1 := ⟨n - 1, by simp at hn; omega⟩
            rw [hstep hgo, Prog.bind_ok (hrun k (by simpa using hn))]
            rfl
          · rw [hent', hfilter, List.append_assoc]
        · filter_upwards [hgo, ih2 hs] with fuel hgo hrun n ks w' hrun' hks
          cases n with
          | zero => cases hrun'
          | succ k =>
            rw [hstep hgo] at hrun'
            obtain ⟨ks', w2, e, hks'⟩ := Prog.bind_eq_ok hrun'
            cases hks'
            exact hrun k ks' _ e (List.cons.inj hks).2

/-- A path of the tree is its own twin. -/
lemma Spine.twin (h : TreeOK w g r H) (hs : Spine w r H d n st) :
    List.Forall₂ (TwinRef w b) st st := by
  induction hs with
  | nil => exact .nil
  | cons hs hi ih => exact .cons (.refl (Int.natCast_nonneg _) (h.isLeaf_false (hs.lvl h))) ih

/-- `First` on a bucket with entries goes to the first leaf that is not empty. -/
lemma first_midway (h : TreeOK w g r H) (hr : Bucket.rootView w b = some r) (ho : Opened w b)
    (hne : contents w H r ≠ []) :
    ∃ l st st', Midway w b r H l 0 st l st' ∧
      entriesFrom w l 0 (leavesAbove w 1 st') = contents w H r ∧
      (∀ P, Skips w b P l 0 (leavesAbove w 1 st') ↔
        ∃ m ∈ leaves w H r, Exposed w b P m (w.inodes m)) ∧
      ∀ᶠ fuel in atTop, Cursor.First fuel w (Bucket.cursor b) =
        .ok (itemOf (contents w H r).head?,
          { Bucket.cursor b with stack := ⟨l, (0 : Nat)⟩ :: st }) := by
  obtain ⟨l0, st0, hgo, hs0, e⟩ := goToFirst_eq h (.nil : Spine w r H H r [])
  have hleaves : leaves w H r = l0 :: leavesAbove w 1 st0 := by simpa [leavesAbove] using e
  -- the leaves in front of the first one that is not empty
  obtain ⟨ls1, l, st, st', hsplit, hall, hl, ht, hs, hfirst⟩ : ∃ ls1 l st st',
      leaves w H r = ls1 ++ l :: leavesAbove w 1 st' ∧ (∀ m ∈ ls1, w.inodes m = []) ∧
      w.inodes l ≠ [] ∧ List.Forall₂ (TwinRef w b) st st' ∧ Spine w r H 0 l st' ∧
      ∀ᶠ fuel in atTop, Cursor.firstStack fuel w (some r) =
        .ok (itemOf (contents w 0 l)[0]?, ⟨l, (0 : Nat)⟩ :: st) := by
    have hkv : ∀ {l st}, g.lvl l = some 0 → Cursor.keyValue w (⟨l, (0 : Nat)⟩ :: st) =
        .ok (itemOf (contents w 0 l)[0]?) := fun hl => keyValue_eq h hl 0
    by_cases hemp : w.inodes l0 = []
    · rcases nextStack_twin (b := b) h (l := l0) (i := 0) (hs0.twin h) hs0 rfl (by simp [hemp]) with
        ⟨hall, -⟩ | ⟨ls1, l, st, st', hsplit, hall, hl, ht, hs, hnext⟩
      · refine absurd ?_ hne
        rw [contents_eq_leaves, hleaves, List.flatMap_eq_nil_iff]
        intro m hm
        rcases List.mem_cons.1 hm with rfl | hm
        · simp [contents, hemp]
        · simp [contents, hall m hm]
      · refine ⟨l0 :: ls1, l, st, st', by rw [hleaves, hsplit]; rfl, by simpa [hemp] using hall, hl,
          ht, hs, ?_⟩
        filter_upwards [hnext, eventually_gt_atTop H] with fuel hnext hf
        have htop : Cursor.topEmpty w (⟨l0, 0⟩ :: st0) = true := by
          simp [Cursor.topEmpty, Cursor.count, hemp]
        rw [show ((0 : Nat) : Int) = 0 from rfl] at hnext
        unfold Cursor.firstStack
        simp only [hgo fuel hf, Outcome.ok_bind, htop, if_true, hnext, Outcome.pure_eq]
        rw [show (0 : Int) = ((0 : Nat) : Int) from rfl, hkv (hs.lvl h)]
        rfl
    · refine ⟨[], l0, st0, st0, hleaves, by simp, hemp, hs0.twin h, hs0, ?_⟩
      filter_upwards [eventually_gt_atTop H] with fuel hf
      have htop : Cursor.topEmpty w (⟨l0, 0⟩ :: st0) = false := by
        simpa [Cursor.topEmpty, Cursor.count] using hemp
      unfold Cursor.firstStack
      simp only [hgo fuel hf, Outcome.ok_bind, htop, Bool.false_eq_true, if_false, Outcome.pure_eq]
      rw [show (0 : Int) = ((0 : Nat) : Int) from rfl, hkv (hs0.lvl h)]
      rfl
  have hlen : 0 < (w.inodes l).length := List.length_pos_iff.2 hl
  have hcont : entriesFrom w l 0 (leavesAbove w 1 st') = contents w H r := by
    have hnil : ls1.flatMap (contents w 0) = [] :=
      List.flatMap_eq_nil_iff.2 fun m hm => by simp [contents, hall m hm]
    rw [contents_eq_leaves w H, hsplit, List.flatMap_append, hnil]
    rfl
  refine ⟨l, st, st', ⟨.of_spine h hs ht, hlen, [], rfl⟩, hcont, fun P => ?_, ?_⟩
  · rw [Skips, List.drop_zero, hsplit]
    constructor
    · rintro (hx | ⟨m, hm, hx⟩)
      · exact ⟨l, by simp, hx⟩
      · exact ⟨m, by simp [hm], hx⟩
    · rintro ⟨m, hm, hx⟩
      rcases List.mem_append.1 hm with hm | hm
      · obtain ⟨-, x, hx, -⟩ := hx
        rw [hall m hm] at hx
        cases hx
      · rcases List.mem_cons.1 hm with rfl | hm
        · exact .inl hx
        · exact .inr ⟨m, hm, hx⟩
  · filter_upwards [hfirst] with fuel hfirst
    have ho' : (w.txs (w.buckets b).tx).db = true := ho
    have hhead : (contents w H r).head? = (contents w 0 l)[0]? := by
      have hlt : 0 < (contents w 0 l).length := by simpa [contents] using hlen
      rw [← hcont, entriesFrom, List.drop_eq_getElem_cons hlt, List.getElem?_eq_getElem hlt]
      rfl
    unfold Cursor.First Cursor.openRoot
    simp only [Bucket.cursor, ho', if_true, Outcome.ok_bind, hr, hfirst, hhead]
    rfl

/-! ## When the loop does what it should -/

/-- The loop visits every key of `m` once, in order, and leaves the entries whose key does not
satisfy `P`. -/
def DeletesWhere (w : World) (b : BucketId) (P : Bytes → Bool) (m : SortedMap Bytes Bytes) : Prop :=
  ∃ w', Evals (fun fuel => Bucket.deleteWhere fuel b P) w (m.entries.map Prod.fst) w' ∧
    Answers w' b (m.restrict fun k => !P k)

lemma deletesWhere_iff (h : Held w b g r H) (hw : Writable w b) (hm : contents w H r = m.entries)
    (P : Bytes → Bool) :
    DeletesWhere w b P m ↔ ∀ l ∈ leaves w H r, l ∈ (w.buckets b).dirty →
      ∀ x ∈ (w.inodes l).dropLast, P x.key = false := by
  have hcond : (∀ l ∈ leaves w H r, l ∈ (w.buckets b).dirty →
      ∀ x ∈ (w.inodes l).dropLast, P x.key = false) ↔
      ¬ ∃ m ∈ leaves w H r, Exposed w b P m (w.inodes m) := by
    simp only [Exposed, not_exists, not_and, Bool.not_eq_true]
  rw [hcond]
  by_cases hne : contents w H r = []
  · have hnil : m.entries = [] := hm.symm.trans hne
    refine iff_of_true ⟨w, ?_, ?_⟩ ?_
    · obtain ⟨l, i, st, hgo, -⟩ := first_eq h.tree h.rootView hw.opened (c := Bucket.cursor b) rfl
      filter_upwards [eventually_ge_atTop (H + (leaves w H r).length + 2)] with fuel hf
      obtain ⟨k, rfl⟩ : ∃ k, fuel = k + 1 := ⟨fuel - 1, by omega⟩
      unfold Bucket.deleteWhere
      rw [Prog.query_bind (f := fun w => Cursor.First (k + 1) w (Bucket.cursor b)) (hgo _ hf),
        hne, hnil]
      rfl
    · have : m.restrict (fun k => !P k) = m := SortedMap.ext (by simp [SortedMap.restrict, hnil])
      rw [this]
      exact (h.holds hm).answers hw.opened
    · rintro ⟨l, hl, -, x, hx, -⟩
      rw [contents_eq_leaves, List.flatMap_eq_nil_iff] at hne
      have := List.map_eq_nil_iff.1 (hne l hl)
      rw [this] at hx
      cases hx
  · obtain ⟨l, st, st', hd, hfrom, hskip, hfirst⟩ := first_midway h.tree h.rootView hw.opened hne
    obtain ⟨h1, h2⟩ := deleteLoop_eq (P := P) _ h hw hm (by rw [hfrom, hm, List.nil_append]) hd rfl
      (c := { Bucket.cursor b with stack := ⟨l, (0 : Nat)⟩ :: st }) rfl rfl
    rw [hskip, hfrom, hm] at h1 h2
    rw [hm] at hfirst
    have hrun : ∀ᶠ fuel in atTop, Bucket.deleteWhere fuel b P w = Bucket.deleteLoop fuel P fuel
        { Bucket.cursor b with stack := ⟨l, (0 : Nat)⟩ :: st } (itemOf m.entries.head?) w := by
      filter_upwards [hfirst] with fuel hfirst
      exact Prog.query_bind (f := fun w => Cursor.First fuel w (Bucket.cursor b)) hfirst
    constructor
    · rintro ⟨w', he, -⟩ hex
      obtain ⟨fuel, e1, e2, e3⟩ := (he.and (hrun.and (h2 hex))).exists
      exact e3 fuel _ w' (e2 ▸ e1) rfl
    · intro hno
      obtain ⟨w', m', hloop, hh, hent, hq⟩ := h1 hno
      refine ⟨w', ?_, ?_⟩
      · filter_upwards [hrun, hloop, eventually_gt_atTop m.entries.length] with fuel e1 e2 hf
        rw [e1, e2 fuel hf]
      · have : m' = m.restrict (fun k => !P k) := SortedMap.ext hent
        exact this ▸ hh.answers (hq.opened hw.opened)

/-- After any sequence of writes, the loop that deletes the keys with `P` visits every key and
deletes those keys exactly if, in every leaf that the transaction has copied, only the last key may
satisfy `P`. -/
theorem delete_while_iterating_iff (h : StartsAs w b m) (hw : Writable w b) (ops : List BucketOp)
    (P : Bytes → Bool) :
    ∃ w' g r H, Evals (fun fuel => BucketOp.runAll fuel b ops) w (ops.map BucketOp.result) w' ∧
      Bucket.rootView w' b = some r ∧ TreeOK w' g r H ∧
      (DeletesWhere w' b P (ops.foldl BucketOp.apply m) ↔
        ∀ l ∈ leaves w' H r, l ∈ (w'.buckets b).dirty →
          ∀ x ∈ (w'.inodes l).dropLast, P x.key = false) := by
  obtain ⟨w', e, hh, hq⟩ := BucketOp.runAll_eq h.holds hw ops
  obtain ⟨g, r, H, hheld, hm⟩ := hh.held
  exact ⟨w', g, r, H, e, hheld.rootView, hheld.tree, deletesWhere_iff hheld (hq.writable hw) hm P⟩

theorem delete_while_iterating_iff_threeLeaves : ∃ w' g r H,
    Evals (fun fuel => BucketOp.runAll fuel 0 [.put [4] (some [7])]) threeLeaves [none] w' ∧
      Bucket.rootView w' 0 = some r ∧ TreeOK w' g r H ∧
      (DeletesWhere w' 0 (fun k => k = [2])
        ([.put [4] (some [7])].foldl BucketOp.apply threeLeaves_tree.map) ↔
        ∀ l ∈ leaves w' H r, l ∈ (w'.buckets 0).dirty →
          ∀ x ∈ (w'.inodes l).dropLast, decide (x.key = [2]) = false) :=
  delete_while_iterating_iff (.committed threeLeaves_untouched rfl) ⟨rfl, rfl⟩
    [.put [4] (some [7])] _

/-- The three leaves after a `Put` that replaces the value of the first key. -/
@[irreducible] def firstLeafCopied : World :=
  (BucketOp.runAll 10 0 [.put [1] (some [7])] threeLeaves).2

/-- The same after the loop that deletes all keys. -/
@[irreducible] def firstLeafSkipped : World :=
  (Bucket.deleteWhere 10 0 (fun _ => true) firstLeafCopied).2

lemma firstLeafCopied_evals :
    Evals (fun fuel => BucketOp.runAll fuel 0 [.put [1] (some [7])]) threeLeaves
    [none] firstLeafCopied := by
  have hrun : (BucketOp.runAll 10 0 [.put [1] (some [7])] threeLeaves).1 = .ok [none] := by
    decide +kernel
  unfold firstLeafCopied
  exact (BucketOp.runAll_growing 0 _).evals_of_fst hrun

lemma firstLeafSkipped_evals :
    Evals (fun fuel => Bucket.deleteWhere fuel 0 fun _ => true) firstLeafCopied
    [[1], [3], [4], [5], [6]] firstLeafSkipped := by
  have hrun : (Bucket.deleteWhere 10 0 (fun _ => true) firstLeafCopied).1 =
      .ok [[1], [3], [4], [5], [6]] := by decide +kernel
  unfold firstLeafSkipped
  exact (Bucket.deleteWhere_growing 0 _).evals_of_fst hrun

/-- The loop that deletes all keys passes over the key behind the first one, which is left. -/
theorem delete_while_iterating_skips :
    Untouched threeLeaves 0 threeLeavesLayout 0 1 ∧ Writable threeLeaves 0 ∧
    Evals (fun fuel => BucketOp.runAll fuel 0 [.put [1] (some [7])]) threeLeaves [none]
      firstLeafCopied ∧
    (∀ᶠ fuel in atTop, Bucket.scan fuel firstLeafCopied 0 = .ok [([1], some [7]), ([2], some []),
      ([3], some []), ([4], some []), ([5], some []), ([6], some [])]) ∧
    Evals (fun fuel => Bucket.deleteWhere fuel 0 fun _ => true) firstLeafCopied
      [[1], [3], [4], [5], [6]] firstLeafSkipped ∧
    (∀ᶠ fuel in atTop, Bucket.scan fuel firstLeafSkipped 0 = .ok [([2], some [])]) ∧
    ¬ DeletesWhere firstLeafCopied 0 (fun _ => true)
      ([.put [1] (some [7])].foldl BucketOp.apply threeLeaves_tree.map) := by
  have hscan : Bucket.scan 10 firstLeafCopied 0 = .ok [([1], some [7]), ([2], some []),
      ([3], some []), ([4], some []), ([5], some []), ([6], some [])] := by decide +kernel
  have hscan' : Bucket.scan 10 firstLeafSkipped 0 = .ok [([2], some [])] := by decide +kernel
  refine ⟨threeLeaves_untouched, ⟨rfl, rfl⟩, firstLeafCopied_evals,
    (Bucket.scan_growing _ _).eventually_eq_ok hscan, firstLeafSkipped_evals,
    (Bucket.scan_growing _ _).eventually_eq_ok hscan', ?_⟩
  rintro ⟨w', e, -⟩
  have hkeys := (e.unique firstLeafSkipped_evals).1
  revert hkeys
  decide +kernel

end

end Vmbolt
