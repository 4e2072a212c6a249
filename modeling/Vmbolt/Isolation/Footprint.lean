import Vmbolt.Isolation.Ownership

/-!
# The footprint of the node and bucket functions

Every function of `node.go`, and every function of `bucket.go` and `cursor.go` that writes, stays
within the handle it is called for: started on nodes of the handle it writes only to nodes and
backing arrays of the handle. Nothing is assumed about the tree, so this also covers the calls that
panic on a tree that is out of shape.
-/

namespace Vmbolt
open Prog

/-- The nodes of `F` do not belong to the handle, and their trees stay in `F`. -/
structure Closed (w0 : World) (b : BucketId) (F : Set NodeId) : Prop where
  node : ∀ n ∈ F, ¬ Mine w0 b n
  array : ∀ n ∈ F, ¬ MineArr w0 b (w0.arr n)
  kids : ∀ n ∈ F, ∀ i ∈ w0.inodes n, ∀ c, i.child = some c → c ∈ F

section
variable {w0 w w' : World} {b : BucketId} {F : Set NodeId} {n : NodeId}

section
variable (h : Within w0 b F w)
include h

/-- A node outside the handle keeps its inodes. -/
lemma Within.inodes_eq (hn : ¬ Mine w0 b n) (ha : ¬ MineArr w0 b (w0.arr n)) :
    w.inodes n = w0.inodes n := by
  unfold World.inodes
  rw [h.node n hn]
  exact congrArg _ (h.array _ ha)

/-- The inodes of a node of the handle or of `F`. -/
lemma Within.kids_of (hF : Closed w0 b F) (hn : Known w0 b w.nextNode n ∨ n ∈ F) :
    ∀ i ∈ w.inodes n, KidOK w0 b F w.nextNode i := by
  rcases hn with hn | hn
  · exact h.kids_inodes hn
  · intro i hi c hc
    rw [h.inodes_eq (hF.node n hn) (hF.array n hn)] at hi
    exact .inr (hF.kids n hn i hi c hc)

/-! ## Slices -/

lemma stays_cloneInodes {l : List Inode} (hl : ∀ i ∈ l, KidOK w0 b F w.nextNode i) :
    Stays (Along w0 b F) w (cloneInodes l) fun s w' => MineSlice w0 b w'.nextArr s := by
  refine .read_bind
    (.bind (stays_newArr h fun i hi => ?_) fun a w' hw ha => .pure hw.within.along ha)
  rcases List.mem_append.1 hi with hi | hi
  · exact hl i hi
  · rw [List.eq_of_mem_replicate hi]
    exact kidOK_default

lemma stays_nilInodes : Stays (Along w0 b F) w nilInodes fun s w' => MineSlice w0 b w'.nextArr s :=
  stays_cloneInodes h (by simp)

section
variable (hn : Known w0 b w.nextNode n)
include hn

/-- Give a node of the handle another slice of the handle. -/
lemma stays_setInodes {s : Slice} (hs : MineSlice w0 b w.nextArr s) :
    Stays (Along w0 b F) w (modifyNode n fun nd => { nd with inodes := s }) fun _ _ => True :=
  stays_modifyNode h hn ⟨(h.mine n hn).bucket, hs, (h.mine n hn).parent⟩

/-- Write the parent pointer of a node of the handle. -/
lemma stays_setParent {p : NodeId} (hp : Known w0 b w.nextNode p) :
    Stays (Along w0 b F) w (modifyNode n fun nd => { nd with parent := some p })
      fun _ _ => True :=
  stays_modifyNode h hn
    ⟨(h.mine n hn).bucket, (h.mine n hn).inodes, fun q hq => by cases hq; exact hp⟩

/-- Write fields of a node that say nothing about other objects. -/
lemma stays_setPlain {f : Node → Node} (h1 : ∀ nd, (f nd).bucket = nd.bucket)
    (h2 : ∀ nd, (f nd).inodes.arr = nd.inodes.arr)
    (h3 : ∀ nd p, (f nd).parent = some p → nd.parent = some p) :
    Stays (Along w0 b F) w (modifyNode n f) fun _ _ => True := by
  obtain ⟨hb, ⟨ha, hlt⟩, hp⟩ := h.mine n hn
  refine stays_modifyNode h hn ⟨(h1 _).trans hb, ⟨?_, ?_⟩, fun p hp' => hp p (h3 _ p hp')⟩
  · rwa [h2]
  · rwa [h2]

lemma stays_appendInodes {l : List Inode} (hl : ∀ i ∈ l, KidOK w0 b F w.nextNode i) :
    Stays (Along w0 b F) w (appendInodes n l) fun _ _ => True := by
  have hk := h.kids_array hn
  have hs := (h.mine n hn).inodes
  refine .read_bind (.read_bind (.read_bind ?_))
  split
  · refine .bind (stays_setArr h hs.1 fun _ i hi => ?_) fun _ w' hw _ => ?_
    · simp only [List.mem_append] at hi
      rcases hi with (hi | hi) | hi
      · exact hk i (List.mem_of_mem_take hi)
      · exact hl i hi
      · exact hk i (List.mem_of_mem_drop hi)
    · exact stays_setInodes hw.within (hn.mono hw.nextNode) ⟨hs.1, hs.2.trans_le hw.nextArr⟩
  · refine .bind (stays_newArr h fun i hi => ?_) fun a w' hw ha => ?_
    · simp only [List.mem_append] at hi
      rcases hi with (hi | hi) | hi
      · exact hk i (List.mem_of_mem_take hi)
      · exact hl i hi
      · rw [List.eq_of_mem_replicate hi]
        exact kidOK_default
    · exact stays_setInodes hw.within (hn.mono hw.nextNode) ha

lemma stays_copyInodes {dst src : Nat} :
    Stays (Along w0 b F) w (copyInodes n dst src) fun _ _ => True := by
  have hk := h.kids_array hn
  refine .read_bind ?_
  split
  · exact .panic h.along
  · refine stays_setArr h (h.mine n hn).inodes.1 fun _ i hi => ?_
    simp only [List.mem_append] at hi
    rcases hi with (hi | hi) | hi
    · exact hk i (List.mem_of_mem_take hi)
    · exact hk i (List.mem_of_mem_drop (List.mem_of_mem_take hi))
    · exact hk i (List.mem_of_mem_drop hi)

lemma stays_modifyInode {i : Nat} {f : Inode → Inode}
    (hf : ∀ x, KidOK w0 b F w.nextNode x → KidOK w0 b F w.nextNode (f x)) :
    Stays (Along w0 b F) w (modifyInode n i f) fun _ _ => True := by
  have hk := h.kids_array hn
  refine .read_bind ?_
  split
  · refine stays_setArr h (h.mine n hn).inodes.1 fun _ x hx => ?_
    rw [List.mem_iff_getElem?] at hx
    obtain ⟨j, hj⟩ := hx
    rw [List.getElem?_modify] at hj
    obtain ⟨y, hy, rfl⟩ := Option.map_eq_some_iff.1 hj
    have hky := hk y (List.mem_of_getElem? hy)
    split
    · exact hf y hky
    · exact hky
  · exact .panic h.along

lemma stays_clearInodes : Stays (Along w0 b F) w (clearInodes n) fun _ _ => True :=
  .read_bind (.each h.along fun _ _ _ hw =>
    stays_modifyInode hw.within (hn.mono hw.nextNode) fun _ _ => kidOK_default)

end

/-! ## Copies and children -/

lemma stays_copyNode (hF : Closed w0 b F) (hn : Known w0 b w.nextNode n ∨ n ∈ F) :
    Stays (Along w0 b F) w (Bucket.copyNode b n) fun c w' => Known w0 b w'.nextNode c := by
  refine .read_bind
    (.read_bind (.bind (stays_cloneInodes h (h.kids_of hF hn)) fun s w' hw hs => ?_))
  exact stays_newNode hw.within ⟨rfl, hs, nofun⟩

lemma stays_childForWrite {idx : Nat} (hF : Closed w0 b F) (hn : Known w0 b w.nextNode n) :
    Stays (Along w0 b F) w (Bucket.childForWrite b n idx) fun c w' => Known w0 b w'.nextNode c := by
  refine .read_bind ?_
  split
  · exact .panic h.along
  next inode hi =>
    refine .read_bind ?_
    split
    · exact .panic h.along
    next child hc =>
      split
      next hd => exact .pure h.along (h.dirty child hd)
      next =>
        have hk := h.kids_inodes hn inode (List.mem_of_getElem? hi) child hc
        refine .bind (stays_copyNode h hF hk) fun c w1 h1 hc1 => ?_
        refine .bind (stays_setParent h1.within hc1 (hn.mono h1.nextNode)) fun _ w2 h2 _ => ?_
        have hc2 := hc1.mono h2.nextNode
        refine .bind (stays_markDirty h2.within hc2) fun _ w3 h3 _ => ?_
        have hc3 := hc2.mono h3.nextNode
        have hn3 := hn.mono (h1.nextNode.trans (h2.nextNode.trans h3.nextNode))
        refine .bind (stays_modifyInode h3.within hn3 fun x _ c' hc' => ?_) fun _ w4 h4 _ =>
          .pure h4.within.along (hc3.mono h4.nextNode)
        cases hc'
        exact .inl hc3

lemma stays_childAt {idx : Nat} (hF : Closed w0 b F) (hn : Known w0 b w.nextNode n) :
    Stays (Along w0 b F) w (Node.childAt n idx) fun c w' => Known w0 b w'.nextNode c := by
  refine .read_bind ?_
  split
  · exact .panic h.along
  · refine .bind (stays_deref h) fun b' w' _ hb => ?_
    obtain ⟨hb, rfl⟩ := hb
    rw [(h.mine n hn).bucket] at hb
    cases hb
    exact stays_childForWrite h hF hn

lemma stays_nextSibling (hF : Closed w0 b F) (hn : Known w0 b w.nextNode n) :
    Stays (Along w0 b F) w (Node.nextSibling n)
      fun c w' => ∀ c', c = some c' → Known w0 b w'.nextNode c' := by
  refine .read_bind ?_
  split
  · exact .pure h.along nofun
  next p hp =>
    refine .read_bind ?_
    dsimp only
    split
    · exact .pure h.along nofun
    · refine .bind (stays_childAt h hF ((h.mine n hn).parent p hp)) fun c w' hw hc => ?_
      exact .pure hw.within.along fun c' e => by cases e; exact hc

lemma stays_prevSibling (hF : Closed w0 b F) (hn : Known w0 b w.nextNode n) :
    Stays (Along w0 b F) w (Node.prevSibling n)
      fun c w' => ∀ c', c = some c' → Known w0 b w'.nextNode c' := by
  refine .read_bind ?_
  split
  · exact .pure h.along nofun
  next p hp =>
    refine .read_bind ?_
    dsimp only
    split
    · exact .pure h.along nofun
    · refine .bind (stays_childAt h hF ((h.mine n hn).parent p hp)) fun c w' hw hc => ?_
      exact .pure hw.within.along fun c' e => by cases e; exact hc

/-! ## Putting and deleting -/

section
variable (hn : Known w0 b w.nextNode n)
include hn

lemma stays_makeRoom {key : Bytes} {i : Nat} :
    Stays (Along w0 b F) w (Node.makeRoom n key i) fun _ _ => True := by
  refine .read_bind ?_
  split
  · exact .pure h.along trivial
  · refine .bind (stays_appendInodes h hn ?_) fun _ w' hw _ =>
      stays_copyInodes hw.within (hn.mono hw.nextNode)
    intro i hi
    rw [List.mem_singleton.1 hi]
    exact kidOK_default

lemma stays_put {old new : Bytes} {v : Option Bytes} {child : Option NodeId}
    (hc : ∀ c, child = some c → Known w0 b w.nextNode c) :
    Stays (Along w0 b F) w (Node.put n old new v child) fun _ _ => True := by
  unfold Node.put
  split
  · exact .panic h.along
  split
  · exact .panic h.along
  refine .read_bind (.bind (stays_makeRoom h hn) fun _ w1 h1 _ => ?_)
  refine .bind (stays_modifyInode h1.within (hn.mono h1.nextNode) fun x _ c hx => ?_)
    fun _ w2 h2 _ => .assert h2.within.along fun _ => trivial
  exact .inl ((hc c hx).mono h1.nextNode)

lemma stays_del {key : Bytes} : Stays (Along w0 b F) w (Node.del n key) fun _ _ => True := by
  refine .read_bind ?_
  dsimp only
  split
  · exact .pure h.along trivial
  refine .bind (stays_copyInodes h hn) fun _ w1 h1 _ => ?_
  have hn1 := hn.mono h1.nextNode
  refine .bind (stays_modifyInode h1.within hn1 fun _ _ => kidOK_default) fun _ w2 h2 _ => ?_
  have hn2 := hn1.mono h2.nextNode
  refine .bind (stays_setPlain h2.within hn2 (fun _ => rfl) (fun _ => rfl) fun _ _ => id)
    fun _ w3 h3 _ => ?_
  exact stays_setPlain h3.within (hn2.mono h3.nextNode) (fun _ => rfl) (fun _ => rfl) fun _ _ => id

/-! ## Splitting -/

lemma stays_parentForSplit :
    Stays (Along w0 b F) w (Node.parentForSplit b n) fun p w' => Known w0 b w'.nextNode p := by
  refine .read_bind ?_
  split
  next p hp => exact .pure h.along ((h.mine n hn).parent p hp)
  next =>
    refine .bind (stays_nilInodes h) fun s w1 h1 hs => ?_
    refine .bind (stays_newNode h1.within ⟨rfl, hs, nofun⟩) fun p w2 h2 hp => ?_
    have hn2 := hn.mono (h1.nextNode.trans h2.nextNode)
    refine .bind (stays_setParent h2.within hn2 hp) fun _ w3 h3 _ => ?_
    have hp3 := hp.mono h3.nextNode
    refine .bind (stays_markDirty h3.within hp3) fun _ w4 h4 _ => ?_
    exact .pure h4.within.along (hp3.mono h4.nextNode)

lemma stays_splitTwo :
    Stays (Along w0 b F) w (Node.splitTwo n)
      fun c w' => ∀ c', c = some c' → Known w0 b w'.nextNode c' := by
  refine .read_bind (.read_bind ?_)
  split
  · exact .pure h.along nofun
  refine .bind (stays_deref h) fun b' w' _ hb => ?_
  obtain ⟨hb, rfl⟩ := hb
  rw [(h.mine n hn).bucket] at hb
  cases hb
  refine .read_bind (.read_bind ?_)
  have hk := h.kids_inodes hn
  refine .bind (stays_parentForSplit h hn) fun p w1 h1 hp => ?_
  refine .bind (stays_nilInodes h1.within) fun s w2 h2 hs => ?_
  refine .bind (stays_newNode h2.within ⟨rfl, hs, fun q hq => ?_⟩) fun next w3 h3 hx => ?_
  · cases hq
    exact hp.mono h2.nextNode
  refine .bind (stays_markDirty h3.within hx) fun _ w4 h4 _ => ?_
  have h14 := h1.nextNode.trans (h2.nextNode.trans (h3.nextNode.trans h4.nextNode))
  refine .bind (stays_cloneInodes h4.within fun i hi =>
    (hk i (List.mem_of_mem_take hi)).mono h14) fun left w5 h5 hl => ?_
  refine .bind (stays_cloneInodes h5.within fun i hi =>
    (hk i (List.mem_of_mem_drop hi)).mono (h14.trans h5.nextNode)) fun right w6 h6 hr => ?_
  have hn6 := hn.mono (h14.trans (h5.nextNode.trans h6.nextNode))
  have hx6 := hx.mono (h4.nextNode.trans (h5.nextNode.trans h6.nextNode))
  refine .bind (stays_clearInodes h6.within hn6) fun _ w7 h7 _ => ?_
  have hl7 : MineSlice w0 b w7.nextArr left := ⟨hl.1, hl.2.trans_le (h6.nextArr.trans h7.nextArr)⟩
  refine .bind (stays_setInodes h7.within (hn6.mono h7.nextNode) hl7) fun _ w8 h8 _ => ?_
  have hx8 := hx6.mono (h7.nextNode.trans h8.nextNode)
  have hr8 : MineSlice w0 b w8.nextArr right := ⟨hr.1, hr.2.trans_le (h7.nextArr.trans h8.nextArr)⟩
  refine .bind (stays_setInodes h8.within hx8 hr8) fun _ w9 h9 _ => ?_
  exact .pure h9.within.along fun c' e => by cases e; exact hx8.mono h9.nextNode

lemma stays_split {fuel : Nat} :
    Stays (Along w0 b F) w (Node.split fuel n)
      fun l w' => ∀ c ∈ l, Known w0 b w'.nextNode c := by
  induction fuel generalizing w n with
  | zero => exact .hang h.along
  | succ fuel ih =>
    refine .bind (stays_splitTwo h hn) fun c w1 h1 hc => ?_
    split
    · exact .pure h1.within.along (by simpa using hn.mono h1.nextNode)
    next next =>
      refine .bind (ih h1.within (hc next rfl)) fun l w2 h2 hl => .pure h2.within.along ?_
      intro c hc
      rcases List.mem_cons.1 hc with rfl | hc
      · exact hn.mono (h1.nextNode.trans h2.nextNode)
      · exact hl c hc

lemma stays_finalizePiece : Stays (Along w0 b F) w (Node.finalizePiece n) fun _ _ => True := by
  refine .bind (stays_setPlain h hn (fun _ => rfl) (fun _ => rfl) fun _ _ => id) fun _ w1 h1 _ => ?_
  have hn1 := hn.mono h1.nextNode
  refine .read_bind ?_
  split
  · exact .pure h1.within.along trivial
  next p hp =>
    refine .read_bind ?_
    split
    · exact .panic h1.within.along
    dsimp only
    generalize (if (w1.nodes n).key.length = 0 then _ else _) = key
    split
    · exact .panic h1.within.along
    split
    · exact .panic h1.within.along
    refine .bind (stays_put h1.within ((h1.within.mine n hn1).parent p hp) fun c e => by
      cases e; exact hn1) fun _ w2 h2 _ => .read_bind ?_
    split
    · exact .panic h2.within.along
    refine .bind (stays_setPlain h2.within (hn1.mono h2.nextNode) (fun _ => rfl) (fun _ => rfl)
      fun _ _ => id) fun _ w3 h3 _ => .assert h3.within.along fun _ => trivial

lemma stays_finalize {fuel : Nat} :
    Stays (Along w0 b F) w (Node.finalize fuel n) fun _ _ => True := by
  induction fuel generalizing w n with
  | zero => exact .hang h.along
  | succ fuel ih =>
    refine .read_bind (.bind (stays_deref h) fun b' w' _ hb => ?_)
    obtain ⟨-, rfl⟩ := hb
    split
    · exact .pure h.along trivial
    refine .read_bind (.bind (.each h.along fun i _ w1 h1 => ?_) fun _ w1 h1 _ => ?_)
    · have hn1 := hn.mono h1.nextNode
      refine .read_bind ?_
      split
      · exact .panic h1.within.along
      split
      · exact .pure h1.within.along trivial
      refine .read_bind (.bind (stays_deref h1.within) fun b' w' _ hb => ?_)
      obtain ⟨hb, rfl⟩ := hb
      rw [(h1.within.mine n hn1).bucket] at hb
      cases hb
      refine .read_bind ?_
      split
      next hd => exact ih h1.within (h1.within.dirty _ hd)
      next => exact .pure h1.within.along trivial
    · have hn1 := hn.mono h1.nextNode
      refine .bind (stays_split h1.within hn1) fun l w2 h2 hl => ?_
      refine .bind (.each h2.within.along fun c hc w3 h3 =>
        stays_finalizePiece h3.within ((hl c hc).mono h3.nextNode)) fun _ w3 h3 _ => .read_bind ?_
      split
      · exact .pure h3.within.along trivial
      next p hp =>
        have hn3 := hn1.mono (h2.nextNode.trans h3.nextNode)
        refine .read_bind ?_
        split
        · exact .pure h3.within.along trivial
        · exact ih h3.within ((h3.within.mine n hn3).parent p hp)

end

/-! ## Rebalancing -/

lemma stays_reparent {m : NodeId} {i : Inode} (hm : Known w0 b w.nextNode m)
    (hn : Known w0 b w.nextNode n) :
    Stays (Along w0 b F) w (Node.reparent m n i) fun _ _ => True := by
  unfold Node.reparent
  split
  · exact .pure h.along trivial
  refine .read_bind (.bind (stays_deref h) fun b' w' _ hb => ?_)
  obtain ⟨hb, rfl⟩ := hb
  rw [(h.mine m hm).bucket] at hb
  cases hb
  refine .read_bind ?_
  split
  next hd => exact stays_setParent h (h.dirty _ hd) hn
  next => exact .pure h.along trivial

lemma stays_parentOf (hn : Known w0 b w.nextNode n) :
    Stays (Along w0 b F) w (Node.parentOf n) fun p w' => Known w0 b w'.nextNode p := by
  refine .read_bind ((stays_deref h).mono fun p w' _ hp => ?_)
  obtain ⟨hp, rfl⟩ := hp
  exact (h.mine n hn).parent p hp

lemma stays_mergePair {p : NodeId} (hF : Closed w0 b F) (hn : Known w0 b w.nextNode n) :
    Stays (Along w0 b F) w (Node.mergePair n p)
      fun r w' => Known w0 b w'.nextNode r.1 ∧ Known w0 b w'.nextNode r.2 := by
  refine .read_bind (.read_bind ?_)
  split
  · refine .bind (stays_nextSibling h hF hn) fun s w1 h1 hs => ?_
    refine .bind (stays_deref h1.within) fun r w2 _ hr => ?_
    obtain ⟨hr, rfl⟩ := hr
    exact .pure h1.within.along ⟨hn.mono h1.nextNode, hs r hr⟩
  · refine .bind (stays_prevSibling h hF hn) fun s w1 h1 hs => ?_
    refine .bind (stays_deref h1.within) fun r w2 _ hr => ?_
    obtain ⟨hr, rfl⟩ := hr
    exact .pure h1.within.along ⟨hs r hr, hn.mono h1.nextNode⟩

lemma stays_collapseRoot (hF : Closed w0 b F) (hn : Known w0 b w.nextNode n) :
    Stays (Along w0 b F) w (Node.collapseRoot n) fun _ _ => True := by
  refine .bind (stays_childAt h hF hn) fun c w1 h1 hc => .read_bind ?_
  have hn1 := hn.mono h1.nextNode
  have hs := (h1.within.mine c hc).inodes
  refine .bind (stays_setPlain h1.within hn1 (fun _ => rfl) (fun _ => rfl) fun _ _ => id)
    fun _ w2 h2 _ => ?_
  have hn2 := hn1.mono h2.nextNode
  refine .bind (stays_setInodes h2.within hn2 ⟨hs.1, hs.2.trans_le h2.nextArr⟩)
    fun _ w3 h3 _ => .read_bind ?_
  have hn3 := hn2.mono h3.nextNode
  refine .bind (.each h3.within.along fun i _ w4 h4 =>
    stays_reparent h4.within (hn3.mono h4.nextNode) (hn3.mono h4.nextNode)) fun _ w4 h4 _ => ?_
  exact stays_setPlain h4.within (hc.mono (h2.nextNode.trans (h3.nextNode.trans h4.nextNode)))
    (fun _ => rfl) (fun _ => rfl) nofun

lemma stays_mergeSiblings {left right : NodeId} (hn : Known w0 b w.nextNode n)
    (hl : Known w0 b w.nextNode left) (hr : Known w0 b w.nextNode right) :
    Stays (Along w0 b F) w (Node.mergeSiblings n left right) fun _ _ => True := by
  refine .read_bind (.bind (.each h.along fun i _ w1 h1 =>
    stays_reparent h1.within (hr.mono h1.nextNode) (hl.mono h1.nextNode)) fun _ w1 h1 _ => ?_)
  have hr1 := hr.mono h1.nextNode
  refine .read_bind (.bind (stays_appendInodes h1.within (hl.mono h1.nextNode)
    (h1.within.kids_inodes hr1)) fun _ w2 h2 _ => ?_)
  refine .bind (stays_parentOf h2.within (hn.mono (h1.nextNode.trans h2.nextNode)))
    fun p w3 h3 hp => .read_bind ?_
  exact stays_del h3.within hp

lemma stays_nodeRebalance {fuel : Nat} (hF : Closed w0 b F) (hn : Known w0 b w.nextNode n) :
    Stays (Along w0 b F) w (Node.rebalance fuel n) fun _ _ => True := by
  induction fuel generalizing w n with
  | zero => exact .hang h.along
  | succ fuel ih =>
    refine .read_bind ?_
    split
    · exact .pure h.along trivial
    refine .bind (stays_setPlain h hn (fun _ => rfl) (fun _ => rfl) fun _ _ => id)
      fun _ w1 h1 _ => ?_
    have hn1 := hn.mono h1.nextNode
    refine .bind (stays_deref h1.within) fun b' w' _ hb => ?_
    obtain ⟨-, rfl⟩ := hb
    refine .read_bind ?_
    split
    · exact .pure h1.within.along trivial
    split
    · split
      · exact stays_collapseRoot h1.within hF hn1
      · exact .pure h1.within.along trivial
    next p hp =>
      have hp1 : Known w0 b w'.nextNode p := ((h.mine n hn).parent p hp).mono h1.nextNode
      split
      · refine .bind (stays_del h1.within hp1) fun _ w2 h2 _ => ?_
        refine .bind (stays_parentOf h2.within (hn1.mono h2.nextNode)) fun q w3 h3 hq => ?_
        exact ih h3.within hq
      · refine .read_bind (.assert_bind h1.within.along fun _ => ?_)
        refine .bind (stays_mergePair h1.within hF hn1) fun r w3 h3 hr => ?_
        refine .bind (stays_mergeSiblings h3.within (hn1.mono h3.nextNode) hr.1 hr.2)
          fun _ w4 h4 _ => ?_
        refine .bind (stays_parentOf h4.within (hn1.mono (h3.nextNode.trans h4.nextNode)))
          fun q w5 h5 hq => ?_
        exact ih h5.within hq

end

/-! ## Buckets and cursors -/

/-- The committed root of the handle's bucket is in `F`. -/
def BaseIn (w0 : World) (b : BucketId) (F : Set NodeId) : Prop :=
  ∀ r, (Bucket.baseState w0 b).bind BucketState.root = some r → r ∈ F

variable (h : Within w0 b F w)
include h

lemma Within.baseState : Bucket.baseState w b = Bucket.baseState w0 b := by
  unfold Bucket.baseState
  rw [h.txs, h.handle_tx, h.handle_name]

lemma stays_writableRoot (hF : Closed w0 b F) (hB : BaseIn w0 b F) :
    Stays (Along w0 b F) w (Bucket.writableRoot b) fun r w' => Known w0 b w'.nextNode r := by
  refine .read_bind ?_
  split
  next r hr => exact .pure h.along (h.root r hr)
  next =>
    refine .read_bind (.bind (P := fun r w' => Known w0 b w'.nextNode r) ?_ fun r w1 h1 hr => ?_)
    · split
      next r hr => exact stays_copyNode h hF (.inr (hB r (by rw [← h.baseState]; exact hr)))
      next =>
        refine .bind (stays_nilInodes h) fun s w1 h1 hs => ?_
        exact stays_newNode h1.within ⟨rfl, hs, nofun⟩
    · refine .bind (stays_markDirty h1.within hr) fun _ w2 h2 _ => ?_
      have hr2 := hr.mono h2.nextNode
      refine .bind (stays_modifyBucket h2.within rfl rfl h2.within.dirty fun r' e => by
        cases e; exact hr2) fun _ w3 h3 _ => .pure h3.within.along (hr2.mono h3.nextNode)

lemma stays_walk {st : List ElemRef} (hF : Closed w0 b F) (hn : Known w0 b w.nextNode n) :
    Stays (Along w0 b F) w (Cursor.walk n st) fun m w' => Known w0 b w'.nextNode m := by
  induction st generalizing w n with
  | nil => exact .pure h.along hn
  | cons ref st ih =>
    refine .read_bind (.assert_bind h.along fun _ => ?_)
    refine .bind (P := fun c w' => Known w0 b w'.nextNode c) ?_ fun c w2 h2 hc => ih h2.within hc
    split
    · exact .panic h.along
    · exact stays_childAt h hF hn

lemma stays_node {st : List ElemRef} (hF : Closed w0 b F) (hB : BaseIn w0 b F) :
    Stays (Along w0 b F) w (Cursor.node b st) fun m w' => Known w0 b w'.nextNode m := by
  refine .assert_bind h.along fun _ => .bind (stays_writableRoot h hF hB) fun r w2 h2 hr => ?_
  refine .bind (stays_walk h2.within hF hr) fun m w3 h3 hm => .read_bind ?_
  exact .assert_bind h3.within.along fun _ => .pure h3.within.along hm

lemma stays_cursorDelete {c : Cursor} (hF : Closed w0 b F) (hB : BaseIn w0 b F)
    (hc : c.bucket = some b) : Stays (Along w0 b F) w (Cursor.delete c) fun _ _ => True := by
  unfold Cursor.delete
  rw [hc]
  refine .read_bind (.guard h.along trivial fun _ => .guard h.along trivial fun _ =>
    .query_bind h.along fun kv _ => ?_)
  refine .bind (stays_node h hF hB) fun m w2 h2 hm => ?_
  exact .bind (stays_del h2.within hm) fun _ w3 h3 _ => .pure h3.within.along trivial

lemma stays_bucketPut {fuel : Nat} {key : Bytes} {v : Option Bytes} (hF : Closed w0 b F)
    (hB : BaseIn w0 b F) : Stays (Along w0 b F) w (Bucket.put fuel b key v) fun _ _ => True := by
  refine .read_bind (.guard h.along trivial fun _ => .guard h.along trivial fun _ =>
    .guard h.along trivial fun _ => .guard h.along trivial fun _ => .guard h.along trivial
      fun _ => ?_)
  refine .query_bind h.along fun r _ => ?_
  refine .bind (stays_node h hF hB) fun m w2 h2 hm => ?_
  exact .bind (stays_put h2.within hm nofun) fun _ w3 h3 _ => .pure h3.within.along trivial

lemma stays_bucketDelete {fuel : Nat} {key : Bytes} (hF : Closed w0 b F) (hB : BaseIn w0 b F) :
    Stays (Along w0 b F) w (Bucket.delete fuel b key) fun _ _ => True := by
  refine .read_bind (.guard h.along trivial fun _ => .guard h.along trivial fun _ =>
    .query_bind h.along fun r _ => ?_)
  split
  · refine .bind (stays_node h hF hB) fun m w2 h2 hm => ?_
    exact .bind (stays_del h2.within hm) fun _ w3 h3 _ => .pure h3.within.along trivial
  · exact .pure h.along trivial

lemma stays_setFillPercent {f : Float64} :
    Stays (Along w0 b F) w (Bucket.setFillPercent b f) fun _ _ => True :=
  stays_modifyBucket h rfl rfl h.dirty h.root

lemma stays_bucketRebalance {fuel : Nat} {order : List NodeId} (hF : Closed w0 b F) :
    Stays (Along w0 b F) w (Bucket.rebalance fuel b order) fun _ _ => True := by
  refine .each h.along fun m _ w1 h1 => .read_bind ?_
  split
  next hd => exact stays_nodeRebalance h1.within hF (h1.within.dirty m hd)
  next => exact .pure h1.within.along trivial

/-- The root of the tree a node of the handle is in belongs to the handle. -/
lemma Within.topOf {fuel : Nat} {m : NodeId} (hn : Known w0 b w.nextNode n)
    (e : Bucket.topOf fuel w n = .ok m) : Known w0 b w.nextNode m := by
  induction fuel generalizing n with
  | zero => cases e
  | succ fuel ih =>
    unfold Bucket.topOf at e
    split at e
    · cases e
      exact hn
    next p hp => exact ih ((h.mine n hn).parent p hp) e

lemma stays_spill {fuel : Nat} : Stays (Along w0 b F) w (Bucket.spill fuel b) fun _ _ => True := by
  refine .read_bind ?_
  split
  · exact .pure h.along trivial
  next r hr =>
    refine .bind (stays_finalize h (h.root r hr)) fun _ w1 h1 _ => .read_bind ?_
    refine .bind (stays_deref h1.within) fun r w2 _ e => ?_
    obtain ⟨hr, rfl⟩ := e
    refine .bind (P := fun m w' => Known w0 b w'.nextNode m) (.query h1.within.along fun m e =>
      h1.within.topOf (h1.within.root r hr) e) fun m w3 h3 hm => ?_
    exact stays_modifyBucket h3.within rfl rfl h3.within.dirty fun r' e => by cases e; exact hm

end

end Vmbolt
