import Vmbolt.Tree.Reverse
import Vmbolt.Tree.Writing

/-!
# A path through copies

While a transaction writes to a leaf, the nodes on the way to it are replaced by copies. What lies
to the right of the path stays as it was, and so do the nodes that were replaced (`Carries`). A
cursor that still holds the replaced nodes can therefore go on from where it stands.
-/

namespace Vmbolt

/-- The node shares no backing array with a dirty node of the handle. -/
structure Apart (w : World) (b : BucketId) (n : NodeId) : Prop where
  alloc : n < w.nextNode
  clean : n ∉ (w.buckets b).dirty
  arr : ∀ m ∈ (w.buckets b).dirty, w.arr n ≠ w.arr m

/-- The reference `a'` of a path has taken the place of `a`. -/
structure CarriesRef (w : World) (b : BucketId) (w' : World) (a a' : ElemRef) : Prop where
  index : a'.index = a.index
  length : (w'.inodes a'.node).length = (w.inodes a.node).length
  drop : (w'.inodes a'.node).drop (a.index.toNat + 1) = (w.inodes a.node).drop (a.index.toNat + 1)
  dirty : a.node ∈ (w.buckets b).dirty → a'.node = a.node

/-- The path `st'` to `l'` has taken the place of the path `st` to `l`; the replaced nodes and what
is to the right of the path are as before. -/
structure Carries (w : World) (b : BucketId) (l : NodeId) (st : List ElemRef) (w' : World)
    (l' : NodeId) (st' : List ElemRef) : Prop where
  apart : ∀ n, Apart w b n → Apart w' b n ∧ w'.nodes n = w.nodes n ∧ w'.inodes n = w.inodes n
  mono : (w.buckets b).dirty ⊆ (w'.buckets b).dirty
  refs : List.Forall₂ (CarriesRef w b w') st st'
  leaf : l ∈ (w.buckets b).dirty → l' = l
  above : leavesAbove w' 1 st' = leavesAbove w 1 st
  right : ∀ m ∈ leavesAbove w 1 st, w'.inodes m = w.inodes m ∧
    (m ∈ (w'.buckets b).dirty ↔ m ∈ (w.buckets b).dirty)

section
variable {w w' w'' : World} {b : BucketId} {g : Layout} {r root n l l' l'' p c c' : NodeId}
  {H d idx : Nat} {st st' st'' low high : List ElemRef} {i : Inode}

/-! ## Paths -/

/-- A path has one end. -/
lemma Spine.det {d' : Nat} {n' : NodeId} (hs : Spine w root H d n st)
    (hs' : Spine w root H d' n' st) : n = n' ∧ d = d' := by
  induction hs generalizing d' n' with
  | nil =>
    cases hs'
    exact ⟨rfl, rfl⟩
  | cons hs hi ih =>
    cases hs' with
    | cons hs1 hi1 =>
      obtain ⟨-, hd⟩ := ih hs1
      rw [hi] at hi1
      cases hi1
      exact ⟨rfl, by omega⟩

/-- The upper part of a path. -/
lemma Spine.suffix (hs : Spine w root H d n (low ++ high)) :
    ∃ m, Spine w root H (d + low.length) m high := by
  induction low generalizing d n with
  | nil => exact ⟨n, hs⟩
  | cons a low ih =>
    cases hs with
    | cons hs _ =>
      obtain ⟨m, hm⟩ := ih hs
      refine ⟨m, ?_⟩
      rwa [List.length_cons, ← Nat.add_assoc, Nat.add_right_comm]

section
variable (h : TreeOK w g root H)
include h

/-- The nodes above the end of a path are on higher levels. -/
lemma Spine.lvl_mem (hs : Spine w root H d n st) {a : ElemRef} (ha : a ∈ st) :
    ∃ e, d < e ∧ g.lvl a.node = some e := by
  induction hs with
  | nil => simp at ha
  | @cons d n st i x hs hi ih =>
    rcases List.mem_cons.1 ha with rfl | ha
    · exact ⟨d + 1, by omega, hs.lvl h⟩
    · obtain ⟨e, he, hl⟩ := ih ha
      exact ⟨e, by omega, hl⟩

/-- The levels of the nodes of the lower part of a path. -/
lemma Spine.lvl_mem_low (hs : Spine w root H d n (low ++ high)) {a : ElemRef} (ha : a ∈ low) :
    ∃ e, e ≤ d + low.length ∧ g.lvl a.node = some e := by
  induction low generalizing d n with
  | nil => simp at ha
  | cons x low ih =>
    cases hs with
    | cons hs hi =>
      rcases List.mem_cons.1 ha with rfl | ha
      · refine ⟨d + 1, ?_, hs.lvl h⟩
        rw [List.length_cons]
        omega
      · obtain ⟨e, he, hl⟩ := ih hs ha
        refine ⟨e, ?_, hl⟩
        rw [List.length_cons]
        omega

/-! ## The leaves of a tree are different nodes -/

/-- Going up from a leaf leads to the node it hangs under. -/
lemma TreeOK.par_iterate (hn : g.lvl n = some d) (hl : l ∈ leaves w d n) : g.par^[d] l = n := by
  induction d generalizing n with
  | zero => simpa [leaves] using hl
  | succ d ih =>
    rw [leaves, List.mem_flatMap] at hl
    obtain ⟨i, hi, hl⟩ := hl
    rw [Function.iterate_succ_apply', ih (h.kid hn hi) hl, (h.branch n d hn).par i hi]

lemma TreeOK.leaves_nodup (hn : g.lvl n = some d) : (leaves w d n).Nodup := by
  induction d generalizing n with
  | zero => simp [leaves]
  | succ d ih =>
    rw [leaves, List.nodup_flatMap]
    refine ⟨fun i hi => ih (h.kid hn hi), ?_⟩
    refine (h.branch n d hn).sorted.imp_of_mem fun {i j} hi hj hij => ?_
    intro l hl hl'
    have e : i.kid = j.kid :=
      (h.par_iterate (h.kid hn hi) hl).symm.trans (h.par_iterate (h.kid hn hj) hl')
    rw [h.kid_inj hn hi hj e] at hij
    exact lt_irrefl _ hij

/-- The leaf at the end of a path is not to the right of it. -/
lemma Spine.not_mem_above (hs : Spine w root H 0 l st) : l ∉ leavesAbove w 1 st := by
  have hnd := h.leaves_nodup h.lvl_root
  rw [hs.leaves_eq, List.append_assoc, List.nodup_append] at hnd
  intro hmem
  have := hnd.2.1
  rw [leaves, List.singleton_append, List.nodup_cons] at this
  exact this.1 hmem

/-- The leaves to the right of a path are leaves of the tree. -/
lemma Spine.lvl_above (hs : Spine w root H 0 l st) {m : NodeId} (hm : m ∈ leavesAbove w 1 st) :
    g.lvl m = some 0 := by
  have hmem : m ∈ leaves w H root := by
    rw [hs.leaves_eq]
    exact List.mem_append_right _ hm
  exact h.lvl_of_mem_leaves h.lvl_root hmem

end

/-! ## A node is replaced by a copy -/

/-- The reference after `c` was replaced by `c'`. -/
def ElemRef.subst (c c' : NodeId) (a : ElemRef) : ElemRef := ⟨Vmbolt.subst c c' a.node, a.index⟩

/-- The path through the copy. -/
lemma Spine.moved (h : TreeOK w g root H) (hr : Moved w g c c' w') (hs : Spine w root H d n st) :
    Spine w' (Vmbolt.subst c c' root) H d (Vmbolt.subst c c' n) (st.map (ElemRef.subst c c')) := by
  induction hs with
  | nil => exact .nil
  | @cons d n st i x hs hi ih =>
    have hn := hs.lvl h
    have hx : (w'.inodes (Vmbolt.subst c c' n))[i]? = some (Inode.redirect c c' x) := by
      rw [hr.inodes n _ hn, List.getElem?_map, hi]
      rfl
    have := ih.cons hx
    rwa [(hr.redirects h hn x (List.mem_of_getElem? hi)).1] at this

/-- The leaves with the copy in place of the original. -/
lemma Moved.leaves_eq (h : TreeOK w g root H) (hr : Moved w g c c' w') (hn : g.lvl n = some d) :
    leaves w' d (Vmbolt.subst c c' n) = (leaves w d n).map (Vmbolt.subst c c') := by
  induction d generalizing n with
  | zero => rfl
  | succ d ih =>
    simp only [leaves, hr.inodes n _ hn, List.flatMap_map, List.map_flatMap]
    refine List.flatMap_congr fun i hi => ?_
    rw [(hr.redirects h hn i hi).1, ih (h.kid hn hi)]

lemma Moved.leavesAbove_eq (h : TreeOK w g root H) (hr : Moved w g c c' w')
    (hs : Spine w root H d n st) : leavesAbove w' (d + 1) (st.map (ElemRef.subst c c')) =
      (leavesAbove w (d + 1) st).map (Vmbolt.subst c c') := by
  induction hs with
  | nil => rfl
  | @cons d n st i x hs hi ih =>
    have hn := hs.lvl h
    simp only [List.map_cons, leavesAbove, ElemRef.subst, hr.inodes n _ hn, List.map_append, ih,
      Nat.add_sub_cancel, Int.toNat_natCast, ← List.map_drop, List.flatMap_map, List.map_flatMap]
    congr 1
    refine List.flatMap_congr fun j hj => ?_
    have hj' := List.mem_of_mem_drop hj
    rw [(hr.redirects h hn j hj').1, hr.leaves_eq h (h.kid hn hj')]

/-- The inodes behind the one that points to `c` stay. -/
lemma TreeOK.drop_redirect (h : TreeOK w g root H) (hp : g.lvl p = some (d + 1))
    (hi : (w.inodes p)[idx]? = some i) (c' : NodeId) :
    ((w.inodes p).map (Inode.redirect i.kid c')).drop (idx + 1) = (w.inodes p).drop (idx + 1) := by
  obtain ⟨hlt, hx⟩ := List.getElem?_eq_some_iff.1 hi
  have e : w.inodes p = (w.inodes p).take idx ++ i :: (w.inodes p).drop (idx + 1) := by
    rw [← hx, List.getElem_cons_drop, List.take_append_drop]
  rw [← List.map_drop]
  refine map_redirect fun j hj hc => ?_
  refine h.kid_ne hp e j (List.mem_append_right _ hj) ?_
  simp [Inode.kid, hc]

/-- Two replacements one after the other. -/
lemma CarriesRef.trans {a a' a'' : ElemRef} (hm : (w.buckets b).dirty ⊆ (w'.buckets b).dirty)
    (h1 : CarriesRef w b w' a a') (h2 : CarriesRef w' b w'' a' a'') : CarriesRef w b w'' a a'' where
  index := h2.index.trans h1.index
  length := h2.length.trans h1.length
  drop := by
    rw [← h1.drop, ← h1.index]
    exact h2.drop
  dirty hd := by
    have e := h1.dirty hd
    rw [h2.dirty (e ▸ hm hd), e]

lemma forall₂_carriesRef_trans (hm : (w.buckets b).dirty ⊆ (w'.buckets b).dirty)
    (h1 : List.Forall₂ (CarriesRef w b w') st st')
    (h2 : List.Forall₂ (CarriesRef w' b w'') st' st'') :
    List.Forall₂ (CarriesRef w b w'') st st'' := by
  induction h1 generalizing st'' with
  | nil =>
    cases h2
    exact .nil
  | cons ha _ ih =>
    cases h2 with
    | cons ha' h2 => exact .cons (ha.trans hm ha') (ih h2)

namespace Carries

lemma refl (b : BucketId) (l : NodeId) (st : List ElemRef) : Carries w b l st w l st where
  apart _ h := ⟨h, rfl, rfl⟩
  mono := subset_rfl
  refs := List.forall₂_same.2 fun _ _ => ⟨rfl, rfl, rfl, fun _ => rfl⟩
  leaf _ := rfl
  above := rfl
  right _ _ := ⟨rfl, Iff.rfl⟩

lemma trans (h1 : Carries w b l st w' l' st') (h2 : Carries w' b l' st' w'' l'' st'') :
    Carries w b l st w'' l'' st'' where
  apart n h := by
    obtain ⟨ha, hn, hi⟩ := h1.apart n h
    obtain ⟨ha', hn', hi'⟩ := h2.apart n ha
    exact ⟨ha', hn'.trans hn, hi'.trans hi⟩
  mono := h1.mono.trans h2.mono
  refs := forall₂_carriesRef_trans h1.mono h1.refs h2.refs
  leaf h := by
    have e := h1.leaf h
    rw [h2.leaf (e ▸ h1.mono h), e]
  above := h2.above.trans h1.above
  right m hm := by
    obtain ⟨e1, d1⟩ := h1.right m hm
    obtain ⟨e2, d2⟩ := h2.right m (by rw [h1.above]; exact hm)
    exact ⟨e2.trans e1, d2.trans d1⟩

/-- A node of the tree was replaced by a copy. -/
lemma of_moved (h : TreeOK w g root H) (hr : Moved w g c c' w') (hs : Spine w root H 0 l st)
    (hclean : c ∉ (w.buckets b).dirty)
    (hdirty : (w'.buckets b).dirty = insert c' (w.buckets b).dirty)
    (hapart : ∀ n, Apart w b n → Apart w' b n ∧ w'.nodes n = w.nodes n ∧ w'.inodes n = w.inodes n)
    (href : ∀ a ∈ st, ((w.inodes a.node).map (Inode.redirect c c')).drop (a.index.toNat + 1) =
      (w.inodes a.node).drop (a.index.toNat + 1))
    (hleaf : g.lvl c = some 0 → c = l) :
    Carries w b l st w' (Vmbolt.subst c c' l) (st.map (ElemRef.subst c c')) where
  apart := hapart
  mono := by
    rw [hdirty]
    exact Finset.subset_insert _ _
  refs := by
    rw [List.forall₂_map_right_iff, List.forall₂_same]
    intro a ha
    obtain ⟨e, -, hl⟩ := hs.lvl_mem h ha
    refine ⟨rfl, ?_, ?_, fun hd => if_neg fun (e : a.node = c) => hclean (e ▸ hd)⟩
    · simp only [ElemRef.subst, hr.inodes _ _ hl, List.length_map]
    · simp only [ElemRef.subst, hr.inodes _ _ hl]
      exact href a ha
  leaf hd := if_neg fun (e : l = c) => hclean (e ▸ hd)
  above := by
    rw [hr.leavesAbove_eq h hs]
    refine (List.map_congr_left fun m hm => if_neg ?_).trans (List.map_id _)
    rintro rfl
    have := hleaf (hs.lvl_above h hm)
    exact hs.not_mem_above h (this ▸ hm)
  right m hm := by
    have hl := hs.lvl_above h hm
    have hmc : m ≠ c := by
      rintro rfl
      have := hleaf hl
      exact hs.not_mem_above h (this ▸ hm)
    have hsub : Vmbolt.subst c c' m = m := if_neg hmc
    refine ⟨?_, ?_⟩
    · have := hr.inodes m 0 hl
      rw [hsub, map_redirect fun i hi => by simp [((h.leaf m hl).entry i hi).child]] at this
      exact this
    · rw [hdirty, Finset.mem_insert]
      exact ⟨fun hd => hd.resolve_left (hr.ne_copy hl), .inr⟩

end Carries

/-- Nodes of the tree that are clean are apart from the dirty ones. -/
lemma Handle.apart (h : Handle w b g r H) (hn : g.lvl n = some d) (hc : n ∉ (w.buckets b).dirty) :
    Apart w b n := by
  refine ⟨h.tree.alloc n d hn, hc, fun m hm => ?_⟩
  obtain ⟨e, he⟩ := h.inTree m hm
  exact h.sep m hm e he n d hn fun e => hc (e ▸ hm)

/-- A clean child on the path was replaced by its copy. -/
lemma Handle.carries_copied (h : Handle w b g r H)
    (hs : Spine w r H 0 l (low ++ ⟨p, (idx : Nat)⟩ :: high)) (hp : p ∈ (w.buckets b).dirty)
    (hpl : Spine w r H (low.length + 1) p high) (hi : (w.inodes p)[idx]? = some i)
    (hclean : i.kid ∉ (w.buckets b).dirty) (hc : Copied w b p i.kid idx w') :
    Carries w b l (low ++ ⟨p, (idx : Nat)⟩ :: high) w' (Vmbolt.subst i.kid w.nextNode l)
      ((low ++ ⟨p, (idx : Nat)⟩ :: high).map (ElemRef.subst i.kid w.nextNode)) := by
  have hlvl := hpl.lvl h.tree
  have hm := h.moved hp hlvl hi hc
  have hpar := (h.tree.branch p _ hlvl).par i (List.mem_of_getElem? hi)
  have hdirty : (w'.buckets b).dirty = insert w.nextNode (w.buckets b).dirty := by rw [hc.bucket]
  refine .of_moved h.tree hm hs hclean hdirty (fun n hn => ?_) (fun a ha => ?_) fun h0 => ?_
  · have hnp : n ≠ p := fun e => hn.clean (e ▸ hp)
    have hnode := hc.other n hn.alloc
    have harr : w'.arr n = w.arr n := by
      unfold World.arr
      rw [hnode]
    refine ⟨⟨?_, ?_, fun m hm => ?_⟩, hnode, hc.view n hn.alloc hnp (hn.arr p hp)⟩
    · rw [hc.nextNode]
      exact Nat.lt_succ_of_lt hn.alloc
    · rw [hdirty, Finset.mem_insert, not_or]
      exact ⟨hn.alloc.ne, hn.clean⟩
    · rw [harr]
      rw [hdirty, Finset.mem_insert] at hm
      rcases hm with rfl | hm
      · exact ((h.sound.arr_lt n hn.alloc).trans_le hc.arr_copy).ne
      · have : w'.arr m = w.arr m := by
          unfold World.arr
          rw [hc.other m (h.dirty m hm).alloc]
        rw [this]
        exact hn.arr m hm
  · by_cases hap : a.node = p
    · -- only one reference of the path is to `p`
      have hidx : a = ⟨p, (idx : Nat)⟩ := by
        rcases List.mem_append.1 ha with ha | ha
        · obtain ⟨e, he, hl⟩ := hs.lvl_mem_low h.tree ha
          rw [hap, hlvl] at hl
          cases hl
          omega
        · rcases List.mem_cons.1 ha with rfl | ha
          · rfl
          · obtain ⟨e, he, hl⟩ := hpl.lvl_mem h.tree ha
            rw [hap, hlvl] at hl
            cases hl
            omega
      rw [hidx]
      exact h.tree.drop_redirect hlvl hi w.nextNode
    · obtain ⟨e, -, hl⟩ := hs.lvl_mem h.tree ha
      rw [map_redirect (h.tree.child_ne hl (by rw [hpar]; exact Ne.symm hap))]
  · rw [h.tree.kid hlvl (List.mem_of_getElem? hi)] at h0
    have hlow : low = [] := List.length_eq_zero_iff.1 (Option.some.inj h0)
    subst hlow
    exact ((hpl.cons hi).det hs).1

/-- The walk of `Cursor.node` looks only at the indices of its references. -/
lemma walk_congr {refs refs' : List ElemRef}
    (h : refs.map ElemRef.index = refs'.map ElemRef.index) :
    Cursor.walk n refs = Cursor.walk n refs' := by
  induction refs generalizing n refs' with
  | nil =>
    rw [List.map_nil, eq_comm, List.map_eq_nil_iff] at h
    rw [h]
  | cons a refs ih =>
    obtain ⟨a', refs', rfl, ha, h⟩ := List.map_eq_cons_iff.1 h.symm
    simp only [Cursor.walk, ha, ih h.symm]

lemma node_congr {ref ref' : ElemRef} (h : st.map ElemRef.index = st'.map ElemRef.index) :
    Cursor.node b (ref :: st) = Cursor.node b (ref' :: st') := by
  have hwalk : ∀ n, Cursor.walk n st.reverse = Cursor.walk n st'.reverse := fun n =>
    walk_congr (by simp [h])
  unfold Cursor.node
  rw [Prog.assert_pos (by simp), Prog.assert_pos (by simp)]
  simp only [List.tail_cons, hwalk]

/-- The walk of `Cursor.node` along a path. -/
lemma Handle.walk_carries (h : Handle w b g r H) (hs : Spine w r H 0 l (low ++ high))
    (hn : Spine w r H low.length n high) (hd : n ∈ (w.buckets b).dirty) :
    ∃ l' w' st', Cursor.walk n low.reverse w = (.ok l', w') ∧ Spine w' r H 0 l' st' ∧
      Carries w b l (low ++ high) w' l' st' := by
  induction hk : low.length generalizing w g n l low high with
  | zero =>
    obtain rfl := List.length_eq_zero_iff.1 hk
    obtain ⟨rfl, -⟩ := hs.det hn
    exact ⟨l, w, high, rfl, hs, .refl b l high⟩
  | succ k ih =>
    obtain ⟨low, a, rfl⟩ : ∃ low' a, low = low' ++ [a] :=
      (List.eq_nil_or_concat' low).resolve_left fun e => by simp [e] at hk
    simp only [List.length_append, List.length_singleton, Nat.add_right_cancel_iff] at hk
    rw [List.length_append, List.length_singleton] at hn
    rw [List.append_assoc, List.singleton_append] at hs
    obtain ⟨m, hm⟩ := hs.suffix
    rw [Nat.zero_add] at hm
    obtain _ | @⟨_, p, _, idx, i, hp, hi⟩ := hm
    obtain ⟨rfl, -⟩ := hp.det hn
    have hlvl := hp.lvl h.tree
    simp only [List.reverse_append, List.reverse_singleton, List.singleton_append,
      List.append_assoc]
    rcases h.childForWrite hlvl hi with ⟨hkd, e⟩ | ⟨hkd, w1, e, hc⟩
    · obtain ⟨l', w', st', e', hs', hcar⟩ := ih h hs (hp.cons hi) hkd hk
      exact ⟨l', w', st', (h.walk_cons hd hlvl e).trans e', hs', hcar⟩
    · have hmv := h.moved hd hlvl hi hc
      have hcar := h.carries_copied hs hd hp hi hkd hc
      have hcopy : Vmbolt.subst i.kid w.nextNode i.kid = w.nextNode := if_pos rfl
      have hroot : Vmbolt.subst i.kid w.nextNode r = r :=
        if_neg fun (e : r = i.kid) => hkd (e ▸ h.root_dirty)
      have hs1 := hs.moved h.tree hmv
      have hn1 := (hp.cons hi).moved h.tree hmv
      rw [hroot, List.map_append] at hs1
      rw [hroot, hcopy] at hn1
      have hmem : w.nextNode ∈ (w1.buckets b).dirty := by
        rw [hc.bucket]
        exact Finset.mem_insert_self _ _
      obtain ⟨l', w', st', e', hs', hcar'⟩ := ih (h.copied hd hlvl hi hkd hc) hs1
        (by simpa using hn1) hmem (by simpa using hk)
      rw [List.map_append] at hcar
      refine ⟨l', w', st', (h.walk_cons hd hlvl e).trans (Eq.trans ?_ e'), hs', hcar.trans hcar'⟩
      refine congrFun (walk_congr ?_) w1
      simp [ElemRef.subst, Function.comp_def]

/-- The first write of a transaction copies the root. -/
lemma Untouched.carries_root (h : Untouched w b g r H) (hs : Spine w r H 0 l st)
    (e : Bucket.writableRoot b w = (.ok w.nextNode, w')) (hm : Moved w g r w.nextNode w') :
    Carries w b l st w' (Vmbolt.subst r w.nextNode l) (st.map (ElemRef.subst r w.nextNode)) := by
  obtain ⟨w1, e1, -, -, hnext, hbk, -, -, harr, hold⟩ := h.writableRoot_eq
  rw [e] at e1
  cases e1
  have ht := h.tree.tree
  have hdirty : (w'.buckets b).dirty = {w.nextNode} := by rw [hbk]
  refine .of_moved ht hm hs (by simp [h.dirty]) (by rw [hdirty, h.dirty]; rfl) (fun n hn => ?_)
    (fun a ha => ?_) fun h0 => ?_
  · obtain ⟨hnode, hins⟩ := hold n hn.alloc
    refine ⟨⟨?_, ?_, fun m hm => ?_⟩, hnode, hins⟩
    · rw [hnext]
      exact Nat.lt_succ_of_lt hn.alloc
    · rw [hdirty, Finset.mem_singleton]
      exact hn.alloc.ne
    · rw [hdirty, Finset.mem_singleton] at hm
      subst hm
      have : w'.arr n = w.arr n := by
        unfold World.arr
        rw [hnode]
      rw [this]
      exact ((h.sound.arr_lt n hn.alloc).trans_le harr).ne
  · obtain ⟨k, -, hl⟩ := hs.lvl_mem ht ha
    rw [map_redirect (ht.child_ne_root hl)]
  · rw [ht.lvl_root] at h0
    cases h0
    cases hs with
    | nil => rfl
    | cons hs _ => exact absurd hs.le_height (by omega)

/-- The inodes of the leaf at the end of the path were changed in place. -/
lemma Handle.carries_upd {f : Node → Node} {ins : List Inode} (h : Handle w b g r H)
    (hs : Spine w r H 0 l st) (hd : l ∈ (w.buckets b).dirty) (hu : Upd w l f ins w') :
    Spine w' r H 0 l st ∧ Carries w b l st w' l st := by
  have hl := hs.lvl h.tree
  have hsame := h.sameBut hd hl hu
  have hbk : w'.buckets b = w.buckets b := by rw [hu.buckets]
  have hbranch : ∀ n d, g.lvl n = some (d + 1) → w'.inodes n = w.inodes n := fun n d hn =>
    hsame.inodes n _ hn fun e => by
      rw [Set.mem_singleton_iff.1 e, hl] at hn
      cases hn
  have hleaves : ∀ d n, g.lvl n = some d → leaves w' d n = leaves w d n := by
    intro d
    induction d with
    | zero => exact fun _ _ => rfl
    | succ d ih =>
      intro n hn
      simp only [leaves, hbranch n d hn]
      exact List.flatMap_congr fun i hi => ih _ (h.tree.kid hn hi)
  have hpath : ∀ {d n st}, Spine w r H d n st →
      Spine w' r H d n st ∧ leavesAbove w' (d + 1) st = leavesAbove w (d + 1) st := by
    intro d n st hs
    induction hs with
    | nil => exact ⟨.nil, rfl⟩
    | @cons d n st i x hs hi ih =>
      have hn := hs.lvl h.tree
      refine ⟨ih.1.cons (by rwa [hbranch n d hn]), ?_⟩
      simp only [leavesAbove, hbranch n d hn, ih.2, Nat.add_sub_cancel]
      congr 1
      exact List.flatMap_congr fun j hj => hleaves _ _ (h.tree.kid hn (List.mem_of_mem_drop hj))
  refine ⟨(hpath hs).1, fun n hn => ?_, by rw [hbk], ?_, fun _ => rfl, (hpath hs).2, fun m hm => ?_⟩
  · have hne : n ≠ l := fun e => hn.clean (e ▸ hd)
    have harr := hu.other_arr hne
    refine ⟨⟨by rw [hu.nextNode]; exact hn.alloc, by rw [hbk]; exact hn.clean, fun m hm => ?_⟩,
      hu.other n hne, hu.view n hne hn.alloc (hn.arr l hd)⟩
    rw [hbk] at hm
    rw [harr]
    by_cases e : m = l
    · subst e
      rcases hu.arr with ea | ea
      · rw [ea]
        exact hn.arr m hm
      · exact ((h.sound.arr_lt n hn.alloc).trans_le ea).ne
    · rw [hu.other_arr e]
      exact hn.arr m hm
  · refine List.forall₂_same.2 fun a ha => ?_
    obtain ⟨e, he, hla⟩ := hs.lvl_mem h.tree ha
    obtain ⟨k, rfl⟩ : ∃ k, e = k + 1 := ⟨e - 1, by omega⟩
    have := hbranch a.node k hla
    exact ⟨rfl, by rw [this], by rw [this], fun _ => rfl⟩
  · refine ⟨hsame.inodes m 0 (hs.lvl_above h.tree hm) fun e => ?_, by rw [hbk]⟩
    rw [Set.mem_singleton_iff] at e
    exact hs.not_mem_above h.tree (e ▸ hm)

/-! ## Deleting under a cursor -/

lemma Spine.length_eq (hs : Spine w root H 0 l st) : st.length = H := by
  have hs0 : Spine w root H 0 l (st ++ []) := by rwa [List.append_nil]
  obtain ⟨m, hm⟩ := hs0.suffix
  rw [Nat.zero_add] at hm
  generalize st.length = k at hm
  cases hm
  rfl

/-- `Cursor.node` returns what its walk returns. -/
lemma walk_of_node {ref : ElemRef} (h : Bucket.writableRoot b w = (.ok root, w'))
    (e : Cursor.node b (ref :: st) w = (.ok l, w'')) :
    Cursor.walk root st.reverse w' = (.ok l, w'') := by
  unfold Cursor.node at e
  rw [Prog.assert_pos (by simp), pure_bind, Prog.bind_ok h, List.tail_cons] at e
  obtain ⟨a, w1, hw, e⟩ := Prog.bind_eq_ok e
  unfold nodeOf at e
  rw [Prog.read_bind] at e
  obtain ⟨_, w2, ha, e⟩ := Prog.bind_eq_ok e
  unfold Prog.assert at ha
  split at ha <;> cases ha
  cases e
  exact hw

/-- The walk from the root of a handle. -/
lemma Handle.root_carries (h : Handle w b g r H) (hs : Spine w r H 0 l st)
    (e : Cursor.walk r st.reverse w = (.ok l', w')) :
    ∃ st', Spine w' r H 0 l' st' ∧ Carries w b l st w' l' st' := by
  have hs0 : Spine w r H 0 l (st ++ []) := by rwa [List.append_nil]
  have hn : Spine w r H st.length r [] := by
    rw [hs.length_eq]
    exact .nil
  obtain ⟨l1, w1, st', e1, hs', hc⟩ := h.walk_carries hs0 hn h.root_dirty
  rw [e] at e1
  cases e1
  rw [List.append_nil] at hc
  exact ⟨st', hs', hc⟩

/-- The tree `b` answers from: its own, or that of its base. -/
def Held (w : World) (b : BucketId) (g : Layout) (r : NodeId) (H : Nat) : Prop :=
  Handle w b g r H ∧ Exact w g r ∨ Untouched w b g r H

namespace Held

section
variable (h : Held w b g r H)
include h

lemma tree : TreeOK w g r H := h.elim (·.1.tree) (·.tree.tree)

lemma exact : Exact w g r := h.elim (·.2) (·.tree.exact)

lemma rootView : Bucket.rootView w b = some r := by
  unfold Bucket.rootView
  rcases h with ⟨h, -⟩ | h
  · rw [h.rootNode]
  · obtain ⟨bs, h1, h2⟩ := Option.bind_eq_some_iff.1 h.base
    rw [h.rootNode, h1]
    exact h2

lemma holds {m : SortedMap Bytes Bytes} (hm : contents w H r = m.entries) : Holds w b m :=
  h.elim (fun h => .inl ⟨g, r, H, h.1, h.2, hm⟩) fun h => .inr ⟨g, r, H, h, hm⟩

/-- Nodes of the tree that are clean are apart from the dirty ones. -/
lemma apart (hn : g.lvl n = some d) (hc : n ∉ (w.buckets b).dirty) : Apart w b n := by
  rcases h with ⟨h, -⟩ | h
  · exact h.apart hn hc
  · exact ⟨h.tree.tree.alloc n d hn, hc, by simp [h.dirty]⟩

/-- `Cursor.node` along a path. -/
lemma node (hs : Spine w r H 0 l st) (ref : ElemRef) :
    ∃ l' w' g' r' st', Cursor.node b (ref :: st) w = (.ok l', w') ∧
      Reached w b g r H l w' g' r' l' ∧ Spine w' r' H 0 l' st' ∧ Carries w b l st w' l' st' := by
  rcases h with ⟨h, -⟩ | h
  · obtain ⟨l', w', g', e, hr⟩ := h.node hs ref
    obtain ⟨st', hs', hc⟩ := h.root_carries hs (walk_of_node h.writableRoot_eq e)
    exact ⟨l', w', g', r, st', e, hr, hs', hc⟩
  · obtain ⟨l', w', g', e, hr⟩ := h.node hs ref
    obtain ⟨w1, e1, -, hm, h1, -⟩ := h.writableRoot
    have hs1 := hs.moved h.tree.tree hm
    rw [show Vmbolt.subst r w.nextNode r = w.nextNode from if_pos rfl] at hs1
    have e2 := walk_of_node e1 e
    have hidx : st.reverse.map ElemRef.index =
        (st.map (ElemRef.subst r w.nextNode)).reverse.map ElemRef.index := by
      simp [ElemRef.subst, Function.comp_def]
    rw [walk_congr hidx] at e2
    obtain ⟨st', hs', hc⟩ := h1.root_carries hs1 e2
    exact ⟨l', w', g', _, st', e, hr, hs', (h.carries_root hs e1 hm).trans hc⟩

end

end Held

/-- What the handle answers from. -/
lemma Holds.held {m : SortedMap Bytes Bytes} (h : Holds w b m) :
    ∃ g r H, Held w b g r H ∧ contents w H r = m.entries := by
  rcases h with ⟨g, r, H, hh, hx, hm⟩ | ⟨g, r, H, hu, hm⟩
  · exact ⟨g, r, H, .inl ⟨hh, hx⟩, hm⟩
  · exact ⟨g, r, H, .inr hu, hm⟩

end

end Vmbolt
