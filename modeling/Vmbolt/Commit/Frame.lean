import Vmbolt.Commit.Finalize
import Vmbolt.Isolation.Commit
import Vmbolt.Tree.Writing

/-!
# Work on other handles

A transaction works on the handles of its buckets one after the other. By the ownership invariant,
the tree of a handle consists of nodes of its own and of published ones, and work on another handle
touches neither (`Spares`). Whatever is said about the handle in terms of its tree therefore stays
true (`Local`).
-/

namespace Vmbolt
open Filter Prog

/-- From `w` to `w'` the handle `b`, its nodes and the published nodes `F` were left alone. -/
structure Spares (F : Set NodeId) (b : BucketId) (w w' : World) : Prop where
  sound : w'.Sound
  rt : w'.rt = w.rt
  nextNode : w.nextNode ≤ w'.nextNode
  own : ∀ n, Own w b n → w'.nodes n = w.nodes n ∧ w'.inodes n = w.inodes n
  published : ∀ n ∈ F, w'.nodes n = w.nodes n ∧ w'.inodes n = w.inodes n
  bucket : w'.buckets b = w.buckets b
  base : Bucket.baseState w' b = Bucket.baseState w b

/-- Statements about a handle that depend on its tree only. -/
def Local (P : World → BucketId → Prop) : Prop :=
  ∀ {dead F w w' b}, Iso dead F w → Live w dead b → Spares F b w w' → P w b → P w' b

section
variable {w w' : World} {b b' : BucketId} {g : Layout} {r n : NodeId} {H d : Nat}
  {dead : Finset TxId} {F : Set NodeId} {x : Option NodeId}

/-- The nodes of a tree that is published. -/
lemma Iso.mem_published (h : Iso dead F w) (ht : TreeOK w g r H) (hr : r ∈ F)
    (hn : g.lvl n = some d) : n ∈ F := by
  refine ht.down_induction (P := fun n => n ∈ F) hr (fun n d hn hF i hi => ?_) hn
  exact h.kids n hF i hi _ ((ht.branch n d hn).child i hi)

/-- The nodes of the tree of a handle are its own or published. -/
lemma Iso.mem_tree (h : Iso dead F w) (hb : Live w dead b) (ht : TreeOK w g r H)
    (hr : Own w b r ∨ r ∈ F) (hn : g.lvl n = some d) : Own w b n ∨ n ∈ F := by
  refine ht.down_induction (P := fun n => Own w b n ∨ n ∈ F) hr (fun n d hn hP i hi => ?_) hn
  have hc := (ht.branch n d hn).child i hi
  rcases hP with ho | hF
  · exact (h.handle b hb).kids _ ⟨n, ho, rfl⟩ i (List.mem_of_mem_take hi) _ hc
  · exact .inr (h.kids n hF i hi _ hc)

/-- The root of the base is published. -/
lemma Iso.base_mem (h : Iso dead F w) (hr : (Bucket.baseState w b).bind BucketState.root = some r) :
    r ∈ F := h.baseIn r hr

namespace Spares

lemma node (hs : Spares F b w w') (hn : Own w b n ∨ n ∈ F) :
    w'.nodes n = w.nodes n ∧ w'.inodes n = w.inodes n := hn.elim (hs.own n) (hs.published n)

/-- The tree of the handle is as before. -/
lemma sameBut (h : Iso dead F w) (hb : Live w dead b) (hs : Spares F b w w') (ht : TreeOK w g r H)
    (hr : Own w b r ∨ r ∈ F) : SameBut g ∅ w w' where
  nextNode := hs.nextNode
  isLeaf n d hn _ := by rw [(hs.node (h.mem_tree hb ht hr hn)).1]
  key n d hn _ := by rw [(hs.node (h.mem_tree hb ht hr hn)).1]
  inodes n d hn _ := (hs.node (h.mem_tree hb ht hr hn)).2

end Spares

/-- A tree with the same nodes is committed, too. -/
lemma Committed.same (h : Committed w g r H) (hs : SameBut g ∅ w w') : Committed w' g r H := by
  refine ⟨h.tree.same hs, h.exact.same hs, fun n d hn => ?_, fun n d hn hnr => ?_⟩
  · rw [hs.inodes n _ hn (Set.notMem_empty n)]
    exact h.two n d hn
  · obtain ⟨i, l, hi, hkey⟩ := h.first n d hn hnr
    exact ⟨i, l, (hs.inodes n d hn (Set.notMem_empty n)).trans hi,
      (hs.key n d hn (Set.notMem_empty n)).trans hkey⟩

/-- Work on another handle. -/
lemma Within.spares (h : Iso dead F w) (hb : Live w dead b) (hw : Within w b F w') (hs : w'.Sound)
    (hne : b' ≠ b) (hb' : Live w dead b') : Spares F b' w w' where
  sound := hs
  rt := hw.rt
  nextNode := hw.nextNode
  own n hn := by
    have e := hw.node_other hne hn
    have ha := hw.array _ (h.not_mineArr hb hne hb' hn)
    refine ⟨e, ?_⟩
    unfold World.arr at ha
    unfold World.inodes
    rw [e, ha]
  published n hn := ⟨(h.keeps hb hw).node n hn, (h.keeps hb hw).inodes n hn⟩
  bucket := hw.bucket b' hne
  base := by
    unfold Bucket.baseState
    rw [hw.bucket b' hne, hw.txs]

/-! ## The trees of handles -/

lemma Untouched.spared (h : Untouched w b g r H) (hi : Iso dead F w) (hb : Live w dead b)
    (hs : Spares F b w w') : Untouched w' b g r H ∧ contents w' H r = contents w H r := by
  have hsb := hs.sameBut hi hb h.tree.tree (.inr (hi.base_mem h.base))
  exact ⟨⟨hs.sound, by rw [hs.bucket]; exact h.rootNode, by rw [hs.bucket]; exact h.dirty,
    by rw [hs.base]; exact h.base, h.tree.same hsb⟩,
    h.tree.tree.contents_same hsb h.tree.tree.lvl_root⟩

/-- A handle with the same nodes and the same working set. -/
lemma HandleBut.congr (h : HandleBut w b g r H x) (hs : w'.Sound) (hnext : w.nextNode ≤ w'.nextNode)
    (hroot : (w'.buckets b).rootNode = (w.buckets b).rootNode)
    (hset : (w'.buckets b).dirty = (w.buckets b).dirty)
    (hdirty : ∀ n ∈ (w.buckets b).dirty, w'.nodes n = w.nodes n)
    (htree : ∀ n d, g.lvl n = some d → w'.nodes n = w.nodes n ∧ w'.inodes n = w.inodes n) :
    HandleBut w' b g r H x ∧ contents w' H r = contents w H r := by
  have hsb : SameBut g ∅ w w' := ⟨hnext, fun n d hn _ => by rw [(htree n d hn).1],
    fun n d hn _ => by rw [(htree n d hn).1], fun n d hn _ => (htree n d hn).2⟩
  have harr : ∀ {n d}, g.lvl n = some d → w'.arr n = w.arr n := fun {n d} hn => by
    unfold World.arr
    rw [(htree n d hn).1]
  refine ⟨⟨hs, h.tree.same hsb, ?_, ?_, ?_, fun n hn => ?_, fun n hn d hd hnr => ?_,
    fun n hn d hd m e hm hne => ?_, fun n d hd hn => ?_, fun n d hn hx => ?_,
    fun n hn hnr hx he => ?_,
    fun n hn hx hf => ?_, fun n hn p hp => ?_⟩, h.tree.contents_same hsb h.tree.lvl_root⟩
  all_goals try rw [hset]
  all_goals try rw [hset] at hn
  · rw [hroot]
    exact h.rootNode
  · exact h.root_dirty
  · rw [(htree _ _ h.tree.lvl_root).1]
    exact h.root_parent
  · exact (h.dirty n hn).of_eq hnext (hdirty n hn)
  · rw [hdirty n hn]
    exact h.parent n hn d hd hnr
  · rw [harr hd, harr hm]
    exact h.sep n hn d hd m e hm hne
  · obtain ⟨i, l, hi, hkey⟩ := h.first n d hd hn
    exact ⟨i, l, (htree n d hd).2.trans hi, by rw [(htree n d hd).1]; exact hkey⟩
  · rw [(htree n _ hn).2]
    exact h.two n d hn hx
  · rw [(htree n 0 hn).2] at he
    rw [(htree n 0 hn).1]
    exact h.empty n hn hnr hx he
  · rw [hdirty n hn] at hf ⊢
    exact h.flagged n hn hx hf
  · rw [hdirty n hn] at hp
    obtain ⟨hpd, hc⟩ := h.calm n hn p hp
    refine ⟨hpd, fun hx => ?_⟩
    rw [hdirty p hpd]
    exact hc hx

lemma HandleBut.spared (h : HandleBut w b g r H x) (hi : Iso dead F w) (hb : Live w dead b)
    (hs : Spares F b w w') : HandleBut w' b g r H x ∧ contents w' H r = contents w H r := by
  have hown : ∀ n ∈ (w.buckets b).dirty, Own w b n := (hi.handle b hb).dirty
  exact h.congr hs.sound hs.nextNode (by rw [hs.bucket]) (by rw [hs.bucket])
    (fun n hn => (hs.own n (hown n hn)).1)
    fun n d hn => hs.node (hi.mem_tree hb h.tree (.inl (hown r h.root_dirty)) hn)

lemma Handle.spared (h : Handle w b g r H) (hi : Iso dead F w) (hb : Live w dead b)
    (hs : Spares F b w w') : Handle w' b g r H ∧ contents w' H r = contents w H r := by
  obtain ⟨h1, hc⟩ := h.toHandleBut.spared hi hb hs
  refine ⟨⟨h1, fun n hn => ?_⟩, hc⟩
  rw [hs.bucket] at hn
  exact h.inTree n hn

/-- What a bucket holds. -/
lemma HoldsAt.local (H : Nat) (m : SortedMap Bytes Bytes) : Local fun w b => HoldsAt w b H m := by
  intro dead F w w' b hi hb hs h
  rcases h with ⟨g, r, hh, hx, hm⟩ | ⟨g, r, hu, hm⟩
  · obtain ⟨h1, hc⟩ := hh.spared hi hb hs
    have hsb := hs.sameBut hi hb hh.tree (.inl ((hi.handle b hb).dirty r hh.root_dirty))
    exact .inl ⟨g, r, h1, hx.same hsb, hc.trans hm⟩
  · obtain ⟨h1, hc⟩ := hu.spared hi hb hs
    exact .inr ⟨g, r, h1, hc.trans hm⟩

/-- Nothing is flagged. -/
def Unflagged (w : World) (b : BucketId) : Prop :=
  ∀ n ∈ (w.buckets b).dirty, (w.nodes n).unbalanced = false

lemma Unflagged.local : Local Unflagged := by
  intro dead F w w' b hi hb hs h n hn
  rw [hs.bucket] at hn
  rw [(hs.own n ((hi.handle b hb).dirty n hn)).1]
  exact h n hn

/-- A directory step leaves the handles alone that there are. -/
lemma DirStep.spares {t : TxId} {tx : Tx} (h : DirStep w t tx w') (hi : Iso dead F w)
    (hb : b < w.nextBucket) (hbase : tx.base = (w.txs t).base) : Spares F b w w' where
  sound := h.sound
  rt := h.rt
  nextNode := h.nextNode
  own n hn := ⟨h.nodes n hn.1, h.inodes n hn.1⟩
  published n hn := ⟨h.nodes n (hi.published n hn), h.inodes n (hi.published n hn)⟩
  bucket := h.buckets b hb
  base := by
    unfold Bucket.baseState
    rw [h.buckets b hb]
    by_cases e : (w.buckets b).tx = t
    · rw [e, h.tx, hbase]
    · rw [h.txs _ e]

/-! ## The condition for spilling -/

/-- What a node is going to be cut into depends on its tree only. -/
lemma expand_congr (ht : TreeOK w g r H) (hins : ∀ n d, g.lvl n = some d → w'.inodes n = w.inodes n)
    (hu : ∀ n d, g.lvl n = some d → (Unspilled w' b n ↔ Unspilled w b n))
    (hth : w'.threshold b = w.threshold b) (d : Nat) :
    (∀ n, g.lvl n = some d → pieceKeys w' b d n = pieceKeys w b d n) ∧
      ∀ n, g.lvl n = some (d + 1) → expand w' b d n = expand w b d n := by
  have hstep : ∀ d, (∀ n, g.lvl n = some d → pieceKeys w' b d n = pieceKeys w b d n) →
      ∀ n, g.lvl n = some (d + 1) → expand w' b d n = expand w b d n := by
    intro d ih n hn
    unfold expand
    rw [hins n _ hn]
    refine List.flatMap_congr fun i hi => ?_
    have hk := ht.kid hn hi
    rw [ih _ hk]
    exact if_congr (hu _ d hk) rfl rfl
  have hkeys : ∀ d n, g.lvl n = some d → pieceKeys w' b d n = pieceKeys w b d n := by
    intro d
    induction d with
    | zero =>
      intro n hn
      simp only [pieceKeys, hins n 0 hn, hth]
    | succ d ih =>
      intro n hn
      rw [pieceKeys_succ, pieceKeys_succ, hstep d ih n hn, hth]
  exact ⟨hkeys d, hstep d (hkeys d)⟩

lemma spillFits_congr (ht : TreeOK w g r H)
    (hins : ∀ n d, g.lvl n = some d → w'.inodes n = w.inodes n)
    (hu : ∀ n d, g.lvl n = some d → (Unspilled w' b n ↔ Unspilled w b n))
    (hth : w'.threshold b = w.threshold b) (hn : g.lvl n = some d) :
    spillFits w' b d n = spillFits w b d n := by
  have hdec : ∀ {n d}, g.lvl n = some d → decide (Unspilled w' b n) = decide (Unspilled w b n) :=
    fun hn => decide_eq_decide.2 (hu _ _ hn)
  have hhas : ∀ {n d}, g.lvl n = some d → hasUnspilled w' b d n = hasUnspilled w b d n := by
    intro n d hn
    cases d with
    | zero => rfl
    | succ d =>
      rw [hasUnspilled, hasUnspilled, hins n _ hn, Bool.eq_iff_iff, List.any_eq_true,
        List.any_eq_true]
      exact exists_congr fun i => and_congr_right fun hi => by rw [hdec (ht.kid hn hi)]
  have hfirst : ∀ {n d}, g.lvl n = some (d + 1) → firstPiece w' b d n = firstPiece w b d n := by
    intro n d hn
    rw [firstPiece, firstPiece, (expand_congr ht hins hu hth d).2 n hn, hth]
  -- the loops over the inodes of a branch, and over any end of them
  have hloops : ∀ {d c k} {l : List Inode}, (∀ i ∈ l, g.lvl i.kid = some d) →
      loopsFit w' b d c k l = loopsFit w b d c k l := by
    intro d c k l hl
    induction l generalizing k with
    | nil => rfl
    | cons x l ih =>
      have hx := hl x (by simp)
      have hone : spread w' b d [x] = spread w b d [x] := by
        rw [spread_cons, spread_cons, (expand_congr ht hins hu hth d).1 _ hx]
        exact congrArg₂ _ (if_congr (hu _ _ hx) rfl rfl) rfl
      rw [loopsFit, loopsFit, hdec hx, hhas hx, hone, ih fun i hi => hl i (by simp [hi])]
  induction d generalizing n with
  | zero => rfl
  | succ d ih =>
    have hrec :
        ((w.inodes n).all fun i => !decide (Unspilled w' b i.kid) || spillFits w' b d i.kid) =
        (w.inodes n).all fun i => !decide (Unspilled w b i.kid) || spillFits w b d i.kid := by
      rw [Bool.eq_iff_iff, List.all_eq_true, List.all_eq_true]
      exact forall₂_congr fun i hi => by rw [hdec (ht.kid hn hi), ih (ht.kid hn hi)]
    rw [spillFits, spillFits, hins n _ hn, hrec, hhas hn, hfirst hn,
      hloops fun i hi => ht.kid hn hi]

end

end Vmbolt
