import Vmbolt.Effect.Directory
import Vmbolt.Tree.Path

/-!
# Writing to a bucket

`Holds w b m`: the bucket handle `b` of a write transaction stands for the sorted map `m`, through
the tree of its base or through a tree of its own. `Put`, `Delete` and `Cursor.Delete` return, and
the handle then stands for the map with the entry inserted or erased.
-/

namespace Vmbolt
open Filter Prog

/-- The handle stands for the sorted map `m`. -/
def Holds (w : World) (b : BucketId) (m : SortedMap Bytes Bytes) : Prop :=
  (∃ g r H, Handle w b g r H ∧ Exact w g r ∧ contents w H r = m.entries) ∨
    ∃ g r H, Untouched w b g r H ∧ contents w H r = m.entries

/-- The same for a tree of the height `H`. -/
def HoldsAt (w : World) (b : BucketId) (H : Nat) (m : SortedMap Bytes Bytes) : Prop :=
  (∃ g r, Handle w b g r H ∧ Exact w g r ∧ contents w H r = m.entries) ∨
    ∃ g r, Untouched w b g r H ∧ contents w H r = m.entries

/-- The transaction of the handle is open. -/
def Opened (w : World) (b : BucketId) : Prop := (w.txs (w.buckets b).tx).db = true

/-- The transaction of the handle is open and may write. -/
structure Writable (w : World) (b : BucketId) : Prop where
  opened : Opened w b
  writable : (w.txs (w.buckets b).tx).writable = true

section
variable {w w' w'' : World} {b : BucketId} {g : Layout} {r n l : NodeId} {H d : Nat} {k : Bytes}
  {m : SortedMap Bytes Bytes}

lemma Quiet.opened (h : Quiet b w w') (ho : Opened w b) : Opened w' b := by
  unfold Opened
  rw [h.txs, h.tx]
  exact ho

lemma Quiet.writable (h : Quiet b w w') (hw : Writable w b) : Writable w' b := by
  refine ⟨h.opened hw.opened, ?_⟩
  rw [h.txs, h.tx]
  exact hw.writable

/-! ## One leaf -/

/-- A leaf with an entry put in. -/
lemma LeafOK.put {ins : List Inode} {v : Bytes} (h : LeafOK g l ins) (hlo : g.lo l ≤ k)
    (hhi : (k : WithTop Bytes) < g.hi l) (hx : Inode.Admitted ⟨k, some v, none⟩) :
    LeafOK g l (putInodes ins k ⟨k, some v, none⟩) ∧
      (putInodes ins k ⟨k, some v, none⟩).map Inode.entry =
        insertEntry k v (ins.map Inode.entry) := by
  obtain ⟨l1, l2, rfl, hlt, hle⟩ := sorted_split h.sorted k
  -- the inodes from `k` on, without the one that is replaced
  obtain ⟨l3, hput, hgt, hsub, hins⟩ : ∃ l3, putInodes (l1 ++ l2) k ⟨k, some v, none⟩ =
      l1 ++ ⟨k, some v, none⟩ :: l3 ∧ (∀ i ∈ l3, k < i.key) ∧ l3.Sublist l2 ∧
      insertEntry k v (l2.map Inode.entry) = (k, v) :: l3.map Inode.entry := by
    have hs := (List.pairwise_append.1 h.sorted).2.1
    cases l2 with
    | nil => exact ⟨[], putInodes_insert hlt (by simp), by simp, .refl _, rfl⟩
    | cons y l2 =>
      rw [List.pairwise_cons] at hs
      by_cases hy : y.key = k
      · have hgt : ∀ i ∈ l2, k < i.key := fun i hi => hy ▸ hs.1 i hi
        refine ⟨l2, putInodes_replace hlt (fun i hi => (hgt i hi).le) hy, hgt,
          List.sublist_cons_self _ _, ?_⟩
        simp [insertEntry, Inode.entry, hy]
      · have hyk : k < y.key := lt_of_le_of_ne (hle y (by simp)) (Ne.symm hy)
        have hgt : ∀ i ∈ y :: l2, k < i.key := by
          intro i hi
          rcases List.mem_cons.1 hi with rfl | hi
          · exact hyk
          · exact hyk.trans (hs.1 i hi)
        refine ⟨y :: l2, putInodes_insert hlt hgt, hgt, .refl _, ?_⟩
        simp [insertEntry, Inode.entry, hyk]
  have hmem : ∀ i ∈ l1 ++ (⟨k, some v, none⟩ : Inode) :: l3,
      i = ⟨k, some v, none⟩ ∨ i ∈ l1 ++ l2 := by
    intro i hi
    simp only [List.mem_append, List.mem_cons] at hi ⊢
    rcases hi with hi | hi | hi
    · exact .inr (.inl hi)
    · exact .inl hi
    · exact .inr (.inr (hsub.mem hi))
  rw [hput]
  refine ⟨⟨?_, fun i hi => ?_, fun i hi => ?_, fun i hi => ?_⟩, ?_⟩
  · have hs := List.pairwise_append.1 h.sorted
    refine List.pairwise_append.2 ⟨hs.1, List.pairwise_cons.2 ⟨hgt, hs.2.1.sublist hsub⟩, ?_⟩
    intro i hi j hj
    rcases List.mem_cons.1 hj with rfl | hj
    · exact hlt i hi
    · exact (hlt i hi).trans (hgt j hj)
  · rcases hmem i hi with rfl | hi
    · exact hx
    · exact h.entry i hi
  · rcases hmem i hi with rfl | hi
    · exact hlo
    · exact h.lo i hi
  · rcases hmem i hi with rfl | hi
    · exact hhi
    · exact h.hi i hi
  · rw [List.map_append, List.map_append, insertEntry_append, hins]
    · rfl
    · intro x hx
      obtain ⟨i, hi, rfl⟩ := List.mem_map.1 hx
      exact hlt i hi

/-- A leaf with an entry taken out. -/
lemma LeafOK.del {ins : List Inode} (h : LeafOK g l ins) (hk : ∃ i ∈ ins, i.key = k) :
    hasKey ins k ∧ LeafOK g l (delInodes ins k) ∧
      (delInodes ins k).map Inode.entry = eraseEntry k (ins.map Inode.entry) := by
  obtain ⟨i, hi, rfl⟩ := hk
  obtain ⟨l1, l2, rfl⟩ := List.append_of_mem hi
  obtain ⟨hs1, hs2, hs3⟩ := List.pairwise_append.1 h.sorted
  rw [List.pairwise_cons] at hs2
  have hlt : ∀ j ∈ l1, j.key < i.key := fun j hj => hs3 j hj i (by simp)
  obtain ⟨hhas, hdel⟩ := delInodes_append hlt (fun j hj => (hs2.1 j hj).le) (rfl : i.key = i.key)
  have hsub : (l1 ++ l2).Sublist (l1 ++ i :: l2) :=
    List.Sublist.append_left (List.sublist_cons_self _ _) _
  refine ⟨hhas, ?_, ?_⟩
  · rw [hdel]
    exact ⟨h.sorted.sublist hsub, fun j hj => h.entry j (hsub.mem hj),
      fun j hj => h.lo j (hsub.mem hj), fun j hj => h.hi j (hsub.mem hj)⟩
  · have e1 : eraseEntry i.key (l1.map Inode.entry) = l1.map Inode.entry := by
      refine eraseEntry_of_not_mem fun x hx => ?_
      obtain ⟨j, hj, rfl⟩ := List.mem_map.1 hx
      exact (hlt j hj).ne
    have e2 : eraseEntry i.key (l2.map Inode.entry) = l2.map Inode.entry := by
      refine eraseEntry_of_not_mem fun x hx => ?_
      obtain ⟨j, hj, rfl⟩ := List.mem_map.1 hx
      exact (hs2.1 j hj).ne'
    rw [hdel, List.map_append, List.map_append, eraseEntry_append, e1, List.map_cons]
    have : eraseEntry i.key (i.entry :: l2.map Inode.entry) =
        eraseEntry i.key (l2.map Inode.entry) := by
      simp [eraseEntry, Inode.entry]
    rw [this, e2]

/-- The tree around a dirty leaf whose inodes are replaced. -/
lemma Handle.sameBut {f : Node → Node} {ins : List Inode} (h : Handle w b g r H)
    (hd : n ∈ (w.buckets b).dirty) (hn : g.lvl n = some d) (hu : Upd w n f ins w') :
    SameBut g {n} w w' := by
  refine ⟨hu.nextNode.ge, fun m k _ hne => ?_, fun m k _ hne => ?_, fun m k hm hne => ?_⟩
  · rw [hu.other m hne]
  · rw [hu.other m hne]
  · exact hu.view m hne (h.tree.alloc m k hm) (h.sep n hd d hn m k hm hne)

/-- What a write to the inodes of a node may do to its other fields. -/
structure KeepsNode (f : Node → Node) : Prop where
  isLeaf : ∀ nd, (f nd).isLeaf = nd.isLeaf
  key : ∀ nd, (f nd).key = nd.key
  bucket : ∀ nd, (f nd).bucket = nd.bucket
  parent : ∀ nd, (f nd).parent = nd.parent
  spilled : ∀ nd, (f nd).spilled = nd.spilled

/-- A dirty leaf gets other inodes. -/
lemma Handle.setLeaf {f : Node → Node} {ins : List Inode} (h : Handle w b g r H)
    (hd : l ∈ (w.buckets b).dirty) (hl : g.lvl l = some 0) (hu : Upd w l f ins w')
    (hf : KeepsNode f) (hok : LeafOK g l ins)
    (hemp : ins = [] → l ≠ r → (f (w.nodes l)).unbalanced = true) : Handle w' b g r H := by
  have hs := h.sameBut hd hl hu
  have hleaf := h.tree.isLeaf_true hl
  have hself : (w'.nodes l).isLeaf = true := by
    rw [hu.self]
    exact (hf.isLeaf _).trans hleaf
  have hparent : ∀ n, (w'.nodes n).parent = (w.nodes n).parent := by
    intro n
    by_cases e : n = l
    · rw [e, hu.self]
      exact hf.parent _
    · rw [hu.other n e]
  have hbk : w'.buckets b = w.buckets b := by rw [hu.buckets]
  refine ⟨⟨hu.sound, h.tree.setLeaf hs hl hself ?_ (hu.inodes ▸ hok), by rw [hbk]; exact h.rootNode,
    by rw [hbk]; exact h.root_dirty, (hparent r).trans h.root_parent, fun n hn => ?_,
    fun n hn k hk hne => ?_, fun n hn k hk m e hm hne => ?_, fun n k hk hn => ?_,
    fun n k hk hx => ?_, fun n hk hne hx hn => ?_, fun n hn hx hf => ?_, fun n hn q hq => ?_⟩,
    fun n hn => h.inTree n (hbk ▸ hn)⟩
  all_goals try rw [hbk] at hn
  · rw [hu.self]
    exact hf.key _
  · have hdn := h.dirty n hn
    by_cases e : n = l
    · subst e
      refine ⟨by rw [hu.nextNode]; exact hdn.alloc, ?_, ?_⟩ <;> rw [hu.self]
      · exact (hf.bucket _).trans hdn.owned
      · exact (hf.spilled _).trans hdn.unspilled
    · exact hdn.of_eq hs.nextNode (hu.other n e)
  · rw [hbk, hparent n]
    exact h.parent n hn k hk hne
  · have hlt : ∀ n k, g.lvl n = some k → w.arr n < w.nextArr := fun n k hk =>
      h.sound.arr_lt n (h.tree.alloc n k hk)
    by_cases en : n = l
    · subst en
      rw [hu.other_arr hne]
      rcases hu.arr with ea | ea
      · rw [ea]
        exact h.sep n hn k hk m e hm hne
      · exact ((hlt m e hm).trans_le ea).ne
    · rw [hu.other_arr en]
      by_cases em : m = l
      · subst em
        rcases hu.arr with ea | ea
        · rw [ea]
          exact h.sep n hn k hk m e hm hne
        · exact ((hlt n k hk).trans_le ea).ne'
      · rw [hu.other_arr em]
        exact h.sep n hn k hk m e hm hne
  · have hne : n ≠ l := fun e => hn (e ▸ hd)
    obtain ⟨i, t, hi, hkey⟩ := h.first n k hk hn
    exact ⟨i, t, (hs.inodes n _ hk hne).trans hi, by rw [hu.other n hne, hkey]⟩
  · have hne : n ≠ l := fun e => by
      rw [e, hl] at hk
      cases hk
    rw [hs.inodes n _ hk hne]
    exact h.two n k hk hx
  · by_cases e : n = l
    · subst e
      rw [hu.inodes] at hn
      rw [hu.self]
      exact hemp hn hne
    · rw [hs.inodes n 0 hk e] at hn
      rw [hu.other n e]
      exact h.empty n hk hne hx hn
  · by_cases e : n = l
    · rw [e]
      exact hself
    · rw [hu.other n e] at hf ⊢
      exact h.flagged n hn hx hf
  · -- every dirty node is in the tree, so its parent is a branch and not the leaf
    rw [hparent n] at hq
    obtain ⟨k, hk⟩ := h.inTree n hn
    have hql : q ≠ l := by
      rintro rfl
      by_cases e : n = r
      · rw [e, h.root_parent] at hq
        cases hq
      · rw [(h.parent n hn k hk e).1] at hq
        cases hq
        rw [(h.tree.up n k hk e).2.1] at hl
        cases hl
    rw [hbk, hu.other q hql]
    exact h.calm n hn q hq

/-- After a write to the leaf that was reached, the contents have changed there. -/
lemma Reached.write {g' : Layout} {r' l' : NodeId} {f : Node → Node} {ins : List Inode}
    (hr : Reached w b g r H l w' g' r' l') (hx : Exact w g r) (hu : Upd w' l' f ins w'')
    (hf : KeepsNode f) (hok : LeafOK g' l' ins)
    (hemp : ins = [] → l' ≠ r' → (f (w'.nodes l')).unbalanced = true) :
    Handle w'' b g' r' H ∧ Exact w'' g' r' ∧ Quiet b w w'' ∧
      ∃ pre post, contents w H r = pre ++ contents w 0 l ++ post ∧
        contents w'' H r' = pre ++ ins.map Inode.entry ++ post ∧
        (∀ x ∈ pre, x.1 < g.lo l) ∧ ∀ x ∈ post, g.hi l ≤ (x.1 : WithTop Bytes) := by
  have hs := hr.handle.sameBut hr.dirty hr.lvl hu
  obtain ⟨pre, post, h1, h2, h3, h4⟩ := hr.handle.tree.contents_setNode hs hr.lvl
  refine ⟨hr.handle.setLeaf hr.dirty hr.lvl hu hf hok hemp, (hr.exact hx).setLeaf hs hr.lvl,
    hr.quiet.trans hu.quiet, pre, post, ?_, ?_, by rwa [← hr.lo], by rwa [← hr.hi]⟩
  · rw [← hr.contents_eq, h1]
    simp only [contents, hr.inodes]
  · rw [h2]
    simp only [contents, hu.inodes]

/-! ## A bucket -/

lemma HoldsAt.holds (h : HoldsAt w b H m) : Holds w b m := by
  rcases h with ⟨g, r, h⟩ | ⟨g, r, h⟩
  · exact .inl ⟨g, r, H, h⟩
  · exact .inr ⟨g, r, H, h⟩

lemma Holds.exists_at (h : Holds w b m) : ∃ H, HoldsAt w b H m := by
  rcases h with ⟨g, r, H, h⟩ | ⟨g, r, H, h⟩
  · exact ⟨H, .inl ⟨g, r, h⟩⟩
  · exact ⟨H, .inr ⟨g, r, h⟩⟩

/-- What the handle answers from, and that the leaf under a cursor can be written. -/
lemma HoldsAt.reach (h : HoldsAt w b H m) : ∃ g r, TreeOK w g r H ∧ Exact w g r ∧
    Bucket.rootView w b = some r ∧ contents w H r = m.entries ∧
    ∀ {l st} (ref : ElemRef), Spine w r H 0 l st → ∃ l' w' g' r',
      Cursor.node b (ref :: st) w = (.ok l', w') ∧ Reached w b g r H l w' g' r' l' := by
  rcases h with ⟨g, r, hh, hx, hm⟩ | ⟨g, r, hu, hm⟩
  · refine ⟨g, r, hh.tree, hx, ?_, hm, fun ref hs => ?_⟩
    · unfold Bucket.rootView
      rw [hh.rootNode]
    · obtain ⟨l', w', g', e, hr⟩ := hh.node hs ref
      exact ⟨l', w', g', r, e, hr⟩
  · refine ⟨g, r, hu.tree.tree, hu.tree.exact, ?_, hm, fun ref hs => ?_⟩
    · unfold Bucket.rootView
      obtain ⟨bs, h1, h2⟩ := Option.bind_eq_some_iff.1 hu.base
      rw [hu.rootNode, h1]
      exact h2
    · obtain ⟨l', w', g', e, hr⟩ := hu.node hs ref
      exact ⟨l', w', g', _, e, hr⟩

lemma Holds.reach (h : Holds w b m) : ∃ g r H, TreeOK w g r H ∧ Exact w g r ∧
    Bucket.rootView w b = some r ∧ contents w H r = m.entries ∧
    ∀ {l st} (ref : ElemRef), Spine w r H 0 l st → ∃ l' w' g' r',
      Cursor.node b (ref :: st) w = (.ok l', w') ∧ Reached w b g r H l w' g' r' l' := by
  obtain ⟨H, h⟩ := h.exists_at
  obtain ⟨g, r, h⟩ := h.reach
  exact ⟨g, r, H, h⟩

/-- The handle answers as the map it stands for. -/
lemma Holds.answers (h : Holds w b m) (ho : Opened w b) : Answers w b m := by
  obtain ⟨g, r, H, ht, hx, hroot, hm, -⟩ := h.reach
  have : ht.map = m := SortedMap.ext hm
  exact this ▸ answers_of_tree ht hx hroot ho

/-- The write phase of `Put`: the entry goes into the leaf the search ended in. -/
lemma HoldsAt.put (h : HoldsAt w b H m) (hw : Writable w b) (value : Option Bytes) (hk : k ≠ [])
    (hkl : k.length ≤ maxKeySize) (hv : lenBytes value ≤ maxValueSize) :
    ∃ w', Evals (fun fuel => Bucket.put fuel b k value) w none w' ∧
      HoldsAt w' b H (m.insert k (cloneBytes value)) ∧ Quiet b w w' ∧ NoneFlagged b w w' := by
  obtain ⟨g, r, ht, hx, hroot, hm, hnode⟩ := h.reach
  obtain ⟨l, st, l1, l2, hf, hgo⟩ := seekStack_eq ht hx k
  obtain ⟨l', w1, g', r', e1, hr⟩ := hnode ⟨l, (l1.length : Nat)⟩ hf.spine
  obtain ⟨w2, e2, hu⟩ := put_eq (v := some (cloneBytes value)) (c := none)
    hr.handle.sound (hr.handle.tree.alloc l' 0 hr.lvl) hk hk
  have hadm : Inode.Admitted ⟨k, some (cloneBytes value), none⟩ := ⟨rfl, hk, hkl, rfl, hv⟩
  obtain ⟨hok, hent⟩ := (hr.handle.tree.leaf l' hr.lvl).put (v := cloneBytes value)
    (by rw [hr.lo]; exact hf.lo) (by rw [hr.hi]; exact hf.hi) hadm
  obtain ⟨hh, hx2, hq, pre, post, hc1, hc2, hpre, hpost⟩ := hr.write hx hu
    ⟨fun _ => rfl, fun _ => rfl, fun _ => rfl, fun _ => rfl, fun _ => rfl⟩ hok
      fun e => absurd e (putInodes_ne_nil _ _ _)
  have hflags : NoneFlagged b w1 w2 := by
    intro n hn hf
    rw [hu.buckets] at hn
    refine ⟨hn, ?_⟩
    by_cases e : n = l'
    · rwa [e, hu.self, ← e] at hf
    · rwa [hu.other n e] at hf
  refine ⟨w2, ?_, .inl ⟨g', r', hh, hx2, ?_⟩, hq, hr.flags.trans hflags⟩
  · filter_upwards [eventually_gt_atTop H] with fuel hfuel
    have hkl' : ¬ maxKeySize < k.length := by omega
    have hv' : ¬ maxValueSize < lenBytes value := by omega
    unfold Bucket.put Bucket.txOf
    rw [Prog.read_bind, if_neg (by rw [hw.opened]; simp), if_neg (by rw [hw.writable]; simp),
      if_neg (by simpa using hk), if_neg hkl', if_neg hv',
      Prog.query_bind (a := _) (by rw [hroot]; exact hgo fuel hfuel), Prog.bind_ok e1,
      Prog.bind_ok e2]
    rfl
  · have hins : w1.inodes l' = w.inodes l := hr.inodes
    rw [hc2, hent, hins]
    change _ = insertEntry k (cloneBytes value) m.entries
    rw [← hm, hc1, insertEntry_mid]
    · rfl
    · exact fun x hx => (hpre x hx).trans_le hf.lo
    · exact fun x hx => WithTop.coe_lt_coe.1 (hf.hi.trans_le (hpost x hx))

lemma Holds.put (h : Holds w b m) (hw : Writable w b) {value : Option Bytes} (hk : k ≠ [])
    (hkl : k.length ≤ maxKeySize) (hv : lenBytes value ≤ maxValueSize) :
    ∃ w', Evals (fun fuel => Bucket.put fuel b k value) w none w' ∧
      Holds w' b (m.insert k (cloneBytes value)) ∧ Quiet b w w' ∧ NoneFlagged b w w' := by
  obtain ⟨H, h⟩ := h.exists_at
  obtain ⟨w', e, hh, h'⟩ := h.put hw value hk hkl hv
  exact ⟨w', e, hh.holds, h'⟩

/-- Deleting an entry from the leaf that holds it. -/
lemma Reached.del {g' : Layout} {r' l' : NodeId} (ht : TreeOK w g r H) (hx : Exact w g r)
    (hm : contents w H r = m.entries) (hl : g.lvl l = some 0)
    (hr : Reached w b g r H l w' g' r' l') (hk : ∃ i ∈ w.inodes l, i.key = k) :
    ∃ w'', Node.del l' k w' = (.ok (), w'') ∧ Handle w'' b g' r' H ∧ Exact w'' g' r' ∧
      contents w'' H r' = (m.erase k).entries ∧ Quiet b w w'' ∧
      Upd w' l' (fun nd => { nd with unbalanced := true }) (delInodes (w'.inodes l') k) w'' := by
  have hk' : ∃ i ∈ w'.inodes l', i.key = k := by rwa [hr.inodes]
  obtain ⟨hhas, hok, hent⟩ := (hr.handle.tree.leaf l' hr.lvl).del hk'
  obtain ⟨w2, e2, hu⟩ := del_eq hr.handle.sound (hr.handle.tree.alloc l' 0 hr.lvl) hhas
  obtain ⟨hh, hx2, hq, pre, post, hc1, hc2, hpre, hpost⟩ := hr.write hx hu
    ⟨fun _ => rfl, fun _ => rfl, fun _ => rfl, fun _ => rfl, fun _ => rfl⟩ hok fun _ _ => rfl
  refine ⟨w2, e2, hh, hx2, ?_, hq, hu⟩
  obtain ⟨i, hi, rfl⟩ := hk
  have hlo := (ht.leaf l hl).lo i hi
  have hhi := (ht.leaf l hl).hi i hi
  rw [hc2, hent, hr.inodes]
  change _ = eraseEntry i.key m.entries
  rw [← hm, hc1, eraseEntry_mid]
  · rfl
  · exact fun x hx => ((hpre x hx).trans_le hlo).ne
  · exact fun x hx => (WithTop.coe_lt_coe.1 (hhi.trans_le (hpost x hx))).ne'

/-- Reaching a leaf changes nothing that can be seen. -/
lemma Reached.holds {g' : Layout} {r' l' : NodeId} (hx : Exact w g r)
    (hm : contents w H r = m.entries) (hr : Reached w b g r H l w' g' r' l') : Holds w' b m :=
  .inl ⟨g', r', H, hr.handle, hr.exact hx, hr.contents_eq.trans hm⟩

/-- `Delete` erases the entry; without one it changes nothing. -/
lemma Holds.delete (h : Holds w b m) (hw : Writable w b) (k : Bytes) :
    ∃ w', Evals (fun fuel => Bucket.delete fuel b k) w none w' ∧ Holds w' b (m.erase k) ∧
      Quiet b w w' := by
  obtain ⟨g, r, H, ht, hx, hroot, hm, hnode⟩ := h.reach
  obtain ⟨l, st, l1, l2, hf, hgo⟩ := seekStack_eq ht hx k
  obtain ⟨l', w1, g', r', e1, hr⟩ := hnode ⟨l, (l1.length : Nat)⟩ hf.spine
  have hrun : ∀ fuel, H < fuel → Bucket.delete fuel b k w =
      (if bytesEqual k (itemOf (l2.map Inode.entry).head?).1 then (do
        let n ← Cursor.node b (⟨l, (l1.length : Nat)⟩ :: st)
        Node.del n k
        pure none) else pure none) w := by
    intro fuel hfuel
    unfold Bucket.delete Bucket.txOf
    rw [Prog.read_bind, if_neg (by rw [hw.opened]; simp), if_neg (by rw [hw.writable]; simp),
      Prog.query_bind (a := _) (by rw [hroot]; exact hgo fuel hfuel)]
  have hfind : m.get k = (l2.head?.filter fun i => i.key = k).map fun i => i.value.getD [] := by
    rw [← hf.findEntry_eq ht, hm]
    rfl
  cases l2 with
  | nil =>
    have hnone : m.get k = none := hfind
    have hdel : Node.del l' k w1 = (.ok (), w1) := by
      refine del_eq_of_not_hasKey (not_hasKey fun i hi => ?_)
      rw [hr.inodes, hf.inodes, List.append_nil] at hi
      exact (hf.lt i hi).ne
    rw [SortedMap.erase_of_get_none hnone]
    -- for the empty key the missing entry is taken for a match, and `del` finds nothing
    by_cases hk : k = []
    · refine ⟨w1, ?_, hr.holds hx hm, hr.quiet⟩
      filter_upwards [eventually_gt_atTop H] with fuel hfuel
      rw [hrun fuel hfuel, if_pos (by simp [bytesEqual, itemOf, hk]), Prog.bind_ok e1,
        Prog.bind_ok hdel]
      rfl
    · refine ⟨w, ?_, h, .refl b w⟩
      filter_upwards [eventually_gt_atTop H] with fuel hfuel
      rw [hrun fuel hfuel, if_neg (by simpa [bytesEqual, itemOf] using Ne.symm hk)]
      rfl
  | cons i l2 =>
    have hequal : bytesEqual k (itemOf ((i :: l2).map Inode.entry).head?).1 =
        decide (i.key = k) := rfl
    by_cases hi : i.key = k
    · obtain ⟨w2, e2, hh, hx2, hc, hq, -⟩ :=
        hr.del ht hx hm (hf.spine.lvl ht) ⟨i, by simp [hf.inodes], hi⟩
      refine ⟨w2, ?_, .inl ⟨g', r', H, hh, hx2, hc⟩, hq⟩
      filter_upwards [eventually_gt_atTop H] with fuel hfuel
      rw [hrun fuel hfuel, if_pos (by rw [hequal]; simp [hi]), Prog.bind_ok e1, Prog.bind_ok e2]
      rfl
    · have hnone : m.get k = none := by simpa [Option.filter, hi] using hfind
      rw [SortedMap.erase_of_get_none hnone]
      refine ⟨w, ?_, h, .refl b w⟩
      filter_upwards [eventually_gt_atTop H] with fuel hfuel
      rw [hrun fuel hfuel, if_neg (by rw [hequal]; simp [hi])]
      rfl

/-- `Cursor.Delete` erases the entry the cursor stands on. -/
lemma cursorDelete_eq {c : Cursor} {i : Nat} {st : List ElemRef} {v : Bytes} (hw : Writable w b)
    (ht : TreeOK w g r H) (hx : Exact w g r) (hm : contents w H r = m.entries)
    (hnode : ∀ {l st} (ref : ElemRef), Spine w r H 0 l st → ∃ l' w' g' r',
      Cursor.node b (ref :: st) w = (.ok l', w') ∧ Reached w b g r H l w' g' r' l')
    (hc : c.bucket = some b) (hst : c.stack = ⟨l, (i : Nat)⟩ :: st) (hs : Spine w r H 0 l st)
    (hget : (contents w 0 l)[i]? = some (k, v)) :
    ∃ w', Cursor.delete c w = (.ok none, w') ∧ Holds w' b (m.erase k) ∧ Quiet b w w' := by
  obtain ⟨l', w1, g', r', e1, hr⟩ := hnode ⟨l, (i : Nat)⟩ hs
  have hk : ∃ x ∈ w.inodes l, x.key = k := by
    obtain ⟨x, hx, e⟩ := List.mem_map.1 (List.mem_of_getElem? hget)
    exact ⟨x, hx, congrArg Prod.fst e⟩
  obtain ⟨w2, e2, hh, hx2, hcont, hq, -⟩ := hr.del ht hx hm (hs.lvl ht) hk
  refine ⟨w2, ?_, .inl ⟨g', r', H, hh, hx2, hcont⟩, hq⟩
  unfold Cursor.delete
  rw [hc]
  dsimp only
  rw [Prog.read_bind, if_neg (by rw [hw.opened]; simp), if_neg (by rw [hw.writable]; simp), hst,
    Prog.query_bind (f := fun w => Cursor.keyValue w _) (keyValue_eq ht (hs.lvl ht) i), hget,
    Prog.bind_ok e1]
  exact Prog.bind_ok e2

/-- `Cursor.Delete` after a `First` that returned a key. -/
lemma Holds.deleteFirst (h : Holds w b m) (hw : Writable w b) {v : Bytes}
    (hf : m.entries.head? = some (k, v)) :
    ∃ c w', (∀ᶠ fuel in atTop, Cursor.First fuel w (Bucket.cursor b) = .ok ((some k, some v), c)) ∧
      Cursor.delete c w = (.ok none, w') ∧ Holds w' b (m.erase k) ∧ Quiet b w w' := by
  obtain ⟨g, r, H, ht, hx, hroot, hm, hnode⟩ := h.reach
  obtain ⟨l, i, st, hgo, hpos, hget⟩ := first_eq ht hroot hw.opened (c := Bucket.cursor b) rfl
  rw [hm, hf] at hgo
  rw [hm] at hget
  obtain ⟨w', e, hh, hq⟩ :=
    cursorDelete_eq (c := { Bucket.cursor b with stack := ⟨l, (i : Nat)⟩ :: st })
    hw ht hx hm hnode rfl rfl hpos.spine (hget _ hf)
  refine ⟨_, w', ?_, e, hh, hq⟩
  filter_upwards [eventually_ge_atTop (H + (leaves w H r).length + 2)] with fuel hfuel
  exact hgo fuel hfuel

/-- `Cursor.Delete` after a `Seek` that returned a key. -/
lemma Holds.deleteSeek (h : Holds w b m) (hw : Writable w b) {v seek : Bytes}
    (hf : m.seek seek = some (k, v)) :
    ∃ c w', (∀ᶠ fuel in atTop,
      Cursor.Seek fuel w (Bucket.cursor b) seek = .ok ((some k, some v), c)) ∧
      Cursor.delete c w = (.ok none, w') ∧ Holds w' b (m.erase k) ∧ Quiet b w w' := by
  obtain ⟨g, r, H, ht, hx, hroot, hm, hnode⟩ := h.reach
  obtain ⟨l, i, st, hgo, hs, hget⟩ := seek_eq ht hx hroot hw.opened (c := Bucket.cursor b) rfl seek
  have hf' : seekEntry seek (contents w H r) = some (k, v) := by rw [hm]; exact hf
  rw [hf'] at hgo
  obtain ⟨w', e, hh, hq⟩ :=
    cursorDelete_eq (c := { Bucket.cursor b with stack := ⟨l, (i : Nat)⟩ :: st })
    hw ht hx hm hnode rfl rfl hs (hget _ hf')
  refine ⟨_, w', ?_, e, hh, hq⟩
  filter_upwards [eventually_ge_atTop (H + (leaves w H r).length + 2)] with fuel hfuel
  exact hgo fuel hfuel

/-! ## A new bucket -/

/-- The layout of a tree that is a single leaf. -/
def Layout.leaf (n : NodeId) : Layout where
  lvl m := if m = n then some 0 else none
  par _ := n
  lo _ := []
  hi _ := ⊤

lemma Layout.leaf_lvl {m : NodeId} (h : (Layout.leaf n).lvl m = some d) : m = n ∧ d = 0 := by
  simp only [Layout.leaf] at h
  split at h
  next e => exact ⟨e, by simpa using h.symm⟩
  · cases h

/-- A single leaf is a tree. -/
lemma treeOK_leaf (hn : n < w.nextNode) (hl : (w.nodes n).isLeaf = true)
    (hok : LeafOK (Layout.leaf n) n (w.inodes n)) :
    TreeOK w (Layout.leaf n) n 0 ∧ Exact w (Layout.leaf n) n := by
  refine ⟨⟨by simp [Layout.leaf], fun m d hm => ?_, fun m d hm => ?_, fun m hm => ?_,
    fun m d hm => ?_,
    fun m d hm hne => ?_⟩, rfl, rfl, fun m d hm => ?_⟩ <;> obtain ⟨rfl, hd⟩ := Layout.leaf_lvl hm
  · exact hn
  · simp [hl, hd]
  · exact hok
  · cases hd
  · exact absurd rfl hne
  · cases hd

/-- A bucket that was just created stands for the empty map. -/
lemma NewBucket.holdsAt {t : TxId} {name : Name} (h : NewBucket w t name w') :
    HoldsAt w' w.nextBucket 0 SortedMap.empty := by
  have hlt : w.nextNode < w'.nextNode := by
    rw [h.nextNode]
    exact Nat.lt_succ_self _
  obtain ⟨ht, hx⟩ := treeOK_leaf (w := w') hlt (by rw [h.root])
    (by rw [h.empty]; exact ⟨.nil, by simp, by simp, by simp⟩)
  have hmem : ∀ {n}, n ∈ (w'.buckets w.nextBucket).dirty ↔ n = w.nextNode := by
    intro n
    rw [h.bucket]
    exact Finset.mem_singleton
  have hp : ∀ n ∈ (w'.buckets w.nextBucket).dirty, (w'.nodes n).parent = none := fun n hn => by
    rw [hmem.1 hn, h.root]
  refine .inl ⟨_, w.nextNode, ⟨⟨h.step.sound, ht, by rw [h.bucket], hmem.2 rfl,
    hp _ (hmem.2 rfl), fun n hn => ?_, fun n hn _ _ hne => absurd (hmem.1 hn) hne,
    fun n hn k hk m e hm hne => ?_, fun n d hd hn => ?_, fun n d hd => ?_,
    fun n hn hne => absurd (Layout.leaf_lvl hn).1 hne, fun n hn _ hf => ?_, fun n hn q hq => ?_⟩,
    fun n hn => ⟨0, by rw [hmem.1 hn]; exact ht.lvl_root⟩⟩, hx, ?_⟩
  · rw [hmem.1 hn]
    refine ⟨hlt, ?_, ?_⟩ <;> rw [h.root]
  · exact absurd ((Layout.leaf_lvl hm).1.trans (Layout.leaf_lvl hk).1.symm) hne
  · exact absurd (hmem.2 (Layout.leaf_lvl hd).1) hn
  · cases (Layout.leaf_lvl hd).2
  · rw [hmem.1 hn, h.root]
  · rw [hp n hn] at hq
    cases hq
  · simp [contents, h.empty, SortedMap.empty]

end

end Vmbolt
