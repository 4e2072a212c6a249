import Vmbolt.Effect.Spill
import Vmbolt.Isolation.Marking

/-!
# The effect of the steps of `node.rebalance`

What the parts of `node.rebalance` do to the heap, in a call that is not cut off. Nodes that have
left the tree may share a backing array with one of its nodes, so a write through the one shows
through the other. `KeysFrom` bounds what they can see of it.
-/

namespace Vmbolt
open Prog

/-- The keys of the inodes of a node. -/
def World.keys (w : World) (n : NodeId) : List Bytes := (w.inodes n).map Inode.key

/-- From `w` to `w'` the node `n` was written: the nodes on its backing array show no keys but those
they have shown, those of `n`, those in `K` and empty ones, and the other nodes show what they have
shown. -/
def KeysFrom (n : NodeId) (K : List Bytes) (w w' : World) : Prop :=
  ∀ m, m < w.nextNode → ∀ k ∈ w'.keys m,
    k ∈ w.keys m ∨ (w.arr m = w.arr n ∧ (k = [] ∨ k ∈ K ∨ k ∈ w.keys n))

/-- Nodes on different backing arrays stay on different backing arrays. -/
def KeepsApart (w w' : World) : Prop :=
  ∀ m n, m < w.nextNode → n < w.nextNode → w.arr m ≠ w.arr n → w'.arr m ≠ w'.arr n

/-- The arrays that were there have kept their keys. -/
def SameKeys (w w' : World) : Prop :=
  w.nextArr ≤ w'.nextArr ∧
    ∀ a, a < w.nextArr → (w'.arrays a).map Inode.key = (w.arrays a).map Inode.key

/-- The dirty children of the inodes `l` get the parent `a`. -/
def World.reparented (w : World) (b : BucketId) (a : NodeId) (l : List Inode) : World :=
  { w with nodes := fun m =>
      if m ∈ (w.buckets b).dirty ∧ some m ∈ l.map Inode.child
        then { w.nodes m with parent := some a }
      else w.nodes m }

/-- The inodes of `c` were moved to `a`, and `c` was taken out of `p`, which has the inodes `l`
now. -/
structure Merged (w : World) (b : BucketId) (p a c : NodeId) (l : List Inode) (w' : World) :
    Prop where
  rest : w' = { w with nodes := w'.nodes, arrays := w'.arrays, nextArr := w'.nextArr }
  parent : w'.nodes p = { w.nodes p with unbalanced := true, inodes := (w'.nodes p).inodes }
  left : w'.nodes a = { w.nodes a with inodes := (w'.nodes a).inodes }
  kid : ∀ m ∈ (w.buckets b).dirty, some m ∈ (w.inodes c).map Inode.child →
    w'.nodes m = { w.nodes m with parent := some a }
  other : ∀ m, m ≠ p → m ≠ a → (m ∈ (w.buckets b).dirty → some m ∉ (w.inodes c).map Inode.child) →
    w'.nodes m = w.nodes m
  inodes_parent : w'.inodes p = l
  inodes_left : w'.inodes a = w.inodes a ++ w.inodes c
  view : ∀ m, m ≠ p → m ≠ a → m < w.nextNode → w.arr m ≠ w.arr p → w.arr m ≠ w.arr a →
    w'.inodes m = w.inodes m
  keys : ∀ m, m ≠ p → m ≠ a → m < w.nextNode → ∀ k ∈ w'.keys m, k ∈ w.keys m ∨
    (w.arr m = w.arr p ∧ (k = [] ∨ k ∈ w.keys p)) ∨
    (w.arr m = w.arr a ∧ (k = [] ∨ k ∈ w.keys c ∨ k ∈ w.keys a))
  apart : KeepsApart w w'
  sound : w'.Sound

/-- The root `r` took over the fields and the inodes of its child `c`. -/
structure Collapsed (w : World) (b : BucketId) (r c : NodeId) (w' : World) : Prop where
  rest : w' = { w with nodes := w'.nodes }
  root : w'.nodes r =
    { w.nodes r with isLeaf := (w.nodes c).isLeaf, inodes := (w.nodes c).inodes }
  child : w'.nodes c = { w.nodes c with parent := none }
  kid : ∀ m ∈ (w.buckets b).dirty, some m ∈ (w.inodes c).map Inode.child →
    w'.nodes m = { w.nodes m with parent := some r }
  other : ∀ m, m ≠ r → m ≠ c → (m ∈ (w.buckets b).dirty → some m ∉ (w.inodes c).map Inode.child) →
    w'.nodes m = w.nodes m
  sound : w'.Sound

section
variable {w w' w'' : World} {b : BucketId} {n p a c : NodeId} {K : List Bytes} {f : Node → Node}
  {ins : List Inode}

/-! ## Backing arrays -/

lemma KeepsApart.trans (h1 : KeepsApart w w') (hn : w'.nextNode = w.nextNode)
    (h2 : KeepsApart w' w'') : KeepsApart w w'' := by
  intro m n hm hn' hne
  exact h2 m n (hn ▸ hm) (hn ▸ hn') (h1 m n hm hn' hne)

lemma Upd.keepsApart (h : Upd w n f ins w') (hw : w.Sound) : KeepsApart w w' := by
  have hother : ∀ m, m ≠ n → m < w.nextNode → w.arr m ≠ w.arr n → w'.arr m ≠ w'.arr n := by
    intro m hm hlt hne
    rw [h.other_arr hm]
    rcases h.arr with he | he
    · rwa [he]
    · exact ((hw.arr_lt m hlt).trans_le he).ne
  intro m m' hm hm' hne
  by_cases h1 : m = n
  · subst h1
    have h2 : m' ≠ m := fun he => hne (by rw [he])
    exact (hother m' h2 hm' hne.symm).symm
  by_cases h2 : m' = n
  · subst h2
    exact hother m h1 hm hne
  · rwa [h.other_arr h1, h.other_arr h2]

/-! ## Keys -/

/-- A write to `n`, from what it did to the backing array. -/
lemma Upd.keysFrom (h : Upd w n f ins w')
    (hins : ∀ i ∈ ins, i.key = [] ∨ i.key ∈ K ∨ i.key ∈ w.keys n)
    (harr : ∀ L, ∀ x ∈ (w'.arrays (w.arr n)).take L, x.key = [] ∨ x.key ∈ K ∨ x.key ∈ w.keys n ∨
      x.key ∈ ((w.arrays (w.arr n)).take L).map Inode.key) : KeysFrom n K w w' := by
  intro m hm k hk
  by_cases hmn : m = n
  · subst hmn
    unfold World.keys at hk
    rw [h.inodes] at hk
    obtain ⟨i, hi, rfl⟩ := List.mem_map.1 hk
    exact .inr ⟨rfl, hins i hi⟩
  by_cases ha : w.arr m = w.arr n
  · have hview : w'.inodes m = (w'.arrays (w.arr n)).take (w.nodes m).inodes.len := by
      unfold World.inodes
      rw [h.other m hmn, ← ha]
      rfl
    have hold : w.inodes m = (w.arrays (w.arr n)).take (w.nodes m).inodes.len := by
      unfold World.inodes
      rw [← ha]
      rfl
    unfold World.keys at hk
    rw [hview] at hk
    obtain ⟨x, hx, rfl⟩ := List.mem_map.1 hk
    unfold World.keys at harr ⊢
    rw [hold]
    rcases harr _ x hx with hx | hx | hx | hx
    · exact .inr ⟨ha, .inl hx⟩
    · exact .inr ⟨ha, .inr (.inl hx)⟩
    · exact .inr ⟨ha, .inr (.inr hx)⟩
    · exact .inl hx
  · unfold World.keys at hk
    rw [h.view m hmn hm ha] at hk
    exact .inl hk

/-- Two writes to one node that leave the arrays of the nodes as they are. -/
lemma KeysFrom.trans (h1 : KeysFrom n K w w') (hn : n < w.nextNode)
    (hnext : w'.nextNode = w.nextNode) (harr : ∀ m, w'.arr m = w.arr m) (h2 : KeysFrom n K w' w'') :
    KeysFrom n K w w'' := by
  intro m hm k hk
  rcases h2 m (hnext ▸ hm) k hk with hk | ⟨ha, hk⟩
  · exact h1 m hm k hk
  · rw [harr, harr] at ha
    refine .inr ⟨ha, ?_⟩
    rcases hk with hk | hk | hk
    · exact .inl hk
    · exact .inr (.inl hk)
    · rcases h1 n hn k hk with hk | ⟨-, hk⟩
      · exact .inr (.inr hk)
      · exact hk

lemma mem_modify {l : List Inode} {i : Nat} {g : Inode → Inode} {x : Inode}
    (hx : x ∈ l.modify i g) :
    x ∈ l ∨ ∃ y ∈ l, x = g y := by
  obtain ⟨j, hj, rfl⟩ := List.mem_iff_getElem.1 hx
  rw [List.length_modify] at hj
  rw [List.getElem_modify]
  split
  · exact .inr ⟨_, List.getElem_mem hj, rfl⟩
  · exact .inl (List.getElem_mem hj)

/-- What is in front of an index after a part of a list was overwritten. -/
lemma mem_take_overwrite {l mid : List Inode} {j k L : Nat} {x : Inode} (hk : k = j + mid.length)
    (hj : j ≤ l.length) (hx : x ∈ (l.take j ++ mid ++ l.drop k).take L) :
    x ∈ l.take L ∨ x ∈ mid := by
  rw [List.take_append, List.take_append, List.mem_append, List.mem_append] at hx
  rcases hx with (hx | hx) | hx
  · rw [List.take_take] at hx
    exact .inl ((List.take_prefix_take_left (min_le_left _ _)).subset hx)
  · exact .inr (List.mem_of_mem_take hx)
  · left
    have hlen : (l.take j ++ mid).length = k := by simp [hk, hj]
    rw [hlen] at hx
    by_cases hL : L ≤ k
    · rw [Nat.sub_eq_zero_of_le hL] at hx
      cases hx
    · have hd : (l.drop k).take (L - k) = (l.take L).drop k := by
        rw [List.drop_take]
      rw [hd] at hx
      exact List.mem_of_mem_drop hx

/-- Writing fields other than the inodes shows nothing. -/
lemma modifyNode_keys (hw : w.Sound) (hn : n < w.nextNode)
    (hf : (f (w.nodes n)).inodes = (w.nodes n).inodes) (he : modifyNode n f w = (.ok (), w')) :
    KeysFrom n K w w' ∧ ∀ m, w'.arr m = w.arr m := by
  obtain ⟨h1, -, h3⟩ := setFields_eq hw hn hf
  rw [h1] at he
  cases he
  refine ⟨fun m _ k hk => .inl ?_, fun m => (h3 m).2⟩
  unfold World.keys at hk
  rwa [(h3 m).1] at hk

lemma resliceInodes_keys {j : Nat} (hw : w.Sound) (hn : n < w.nextNode)
    (hj : j ≤ (w.inodes n).length) (he : resliceInodes n j w = (.ok (), w')) :
    KeysFrom n K w w' ∧ ∀ m, w'.arr m = w.arr m := by
  obtain ⟨w1, h1, hu⟩ := resliceInodes_eq hw hn hj
  rw [h1] at he
  cases he
  have hset : resliceInodes n j w =
      (.ok (), w.setNode n { w.nodes n with inodes := ⟨(w.nodes n).inodes.arr, j⟩ }) := by
    unfold resliceInodes modifyNode
    exact write_eq hw.cut
  rw [h1] at hset
  cases hset
  refine ⟨hu.keysFrom (fun i hi => .inr (.inr ?_)) fun L x hx => .inr (.inr (.inr ?_)), fun m => ?_⟩
  · exact List.mem_map_of_mem (List.mem_of_mem_take hi)
  · exact List.mem_map_of_mem hx
  · unfold World.arr World.setNode
    by_cases hm : m = n
    · simp [hm]
    · simp [hm]

lemma copyInodes_keys {dst src : Nat} (hw : w.Sound) (hn : n < w.nextNode)
    (hd : dst ≤ (w.inodes n).length) (hs : src ≤ (w.inodes n).length)
    (he : copyInodes n dst src w = (.ok (), w')) : KeysFrom n K w w' ∧ ∀ m, w'.arr m = w.arr m := by
  obtain ⟨w1, h1, hu⟩ := copyInodes_eq dst src hw hn hd hs
  rw [h1] at he
  cases he
  rw [hw.length_inodes hn] at hd hs
  have hlen : (w.nodes n).inodes.len ≤ (w.arrays (w.arr n)).length := hw.len_le n hn
  have hset : copyInodes n dst src w = (.ok (), w.setArr (w.arr n)
      ((w.arrays (w.arr n)).take dst ++ ((w.arrays (w.arr n)).drop src).take
        (min ((w.nodes n).inodes.len - dst) ((w.nodes n).inodes.len - src)) ++
        (w.arrays (w.arr n)).drop
          (dst + min ((w.nodes n).inodes.len - dst) ((w.nodes n).inodes.len - src)))) := by
    unfold copyInodes
    simp only [Prog.read_bind]
    rw [if_neg (by omega)]
    exact write_eq hw.cut
  rw [h1] at hset
  cases hset
  refine ⟨hu.keysFrom (fun i hi => .inr (.inr ?_)) fun L x hx => ?_, fun m => rfl⟩
  · refine List.mem_map_of_mem ?_
    rw [List.mem_append, List.mem_append] at hi
    rcases hi with (hi | hi) | hi
    · exact List.mem_of_mem_take hi
    · exact List.mem_of_mem_drop (List.mem_of_mem_take hi)
    · exact List.mem_of_mem_drop hi
  · simp only [World.setArr, Function.update_self] at hx
    set cnt := min ((w.nodes n).inodes.len - dst) ((w.nodes n).inodes.len - src) with hcnt
    rcases mem_take_overwrite (by simp; omega) (by omega) hx with hx | hx
    · exact .inr (.inr (.inr (List.mem_map_of_mem hx)))
    · -- what was copied lies within the slice of `n`
      refine .inr (.inr (.inl (List.mem_map_of_mem ?_)))
      rw [List.take_drop] at hx
      exact (List.take_prefix_take_left (by omega)).subset (List.mem_of_mem_drop hx)

lemma modifyInode_keys {i : Nat} {g : Inode → Inode} (hg : ∀ x, (g x).key = [] ∨ (g x).key = x.key)
    (hw : w.Sound) (hn : n < w.nextNode) (hi : i < (w.inodes n).length)
    (he : modifyInode n i g w = (.ok (), w')) : KeysFrom n K w w' ∧ ∀ m, w'.arr m = w.arr m := by
  obtain ⟨w1, h1, hu⟩ := modifyInode_eq (f := g) hw hn hi
  rw [h1] at he
  cases he
  rw [hw.length_inodes hn] at hi
  have hset : modifyInode n i g w =
      (.ok (), w.setArr (w.arr n) ((w.arrays (w.arr n)).modify i g)) := by
    unfold modifyInode
    simp only [Prog.read_bind]
    rw [if_pos hi]
    exact write_eq hw.cut
  rw [h1] at hset
  cases hset
  have hkey : ∀ l : List Inode, ∀ x ∈ l.modify i g, x.key = [] ∨ x.key ∈ l.map Inode.key := by
    intro l x hx
    rcases mem_modify hx with hx | ⟨y, hy, rfl⟩
    · exact .inr (List.mem_map_of_mem hx)
    · rcases hg y with hg | hg
      · exact .inl hg
      · rw [hg]
        exact .inr (List.mem_map_of_mem hy)
  refine ⟨hu.keysFrom (fun x hx => ?_) fun L x hx => ?_, fun m => rfl⟩
  · exact (hkey _ x hx).imp_right .inr
  · simp only [World.setArr, Function.update_self] at hx
    rw [List.take_modify] at hx
    exact (hkey _ x hx).imp_right fun hx => .inr (.inr hx)

lemma appendInodes_keys {l : List Inode} (hw : w.Sound) (hn : n < w.nextNode)
    (he : appendInodes n l w = (.ok (), w')) : KeysFrom n (l.map Inode.key) w w' := by
  obtain ⟨w1, h1, hu⟩ := appendInodes_eq (l := l) hw hn
  rw [h1] at he
  cases he
  have hlen : (w.nodes n).inodes.len ≤ (w.arrays (w.arr n)).length := hw.len_le n hn
  refine hu.keysFrom (fun x hx => ?_) fun L x hx => ?_
  · rcases List.mem_append.1 hx with hx | hx
    · exact .inr (.inr (List.mem_map_of_mem hx))
    · exact .inr (.inl (List.mem_map_of_mem hx))
  · unfold appendInodes at h1
    simp only [Prog.read_bind] at h1
    split at h1
    · rw [Prog.bind_ok (write_eq hw.cut)] at h1
      simp only [modifyNode, write, World.setArr, hw.cut] at h1
      cases h1
      simp only [World.setNode, World.arr, Function.update_self] at hx
      rcases mem_take_overwrite rfl hlen hx with hx | hx
      · exact .inr (.inr (.inr (List.mem_map_of_mem hx)))
      · exact .inr (.inl (List.mem_map_of_mem hx))
    · -- a new array: the old one is left alone
      unfold newArr at h1
      simp only [bind_assoc, pure_bind, Prog.read_bind] at h1
      rw [Prog.bind_ok (write_eq hw.cut)] at h1
      simp only [modifyNode, write, World.setArr, hw.cut] at h1
      cases h1
      have hne : w.arr n ≠ w.nextArr := (hw.arr_lt n hn).ne
      simp only [World.setNode, Function.update_of_ne hne] at hx
      exact .inr (.inr (.inr (List.mem_map_of_mem hx)))

/-- `node.del` of a key that is there, with what the other nodes on the array can see of it. -/
lemma del_keys {key : Bytes} (hw : w.Sound) (hn : n < w.nextNode) (h : hasKey (w.inodes n) key) :
    ∃ w', Node.del n key w = (.ok (), w') ∧
      Upd w n (fun nd => { nd with unbalanced := true }) (delInodes (w.inodes n) key) w' ∧
      KeysFrom n [] w w' := by
  obtain ⟨w', he, hu⟩ := del_eq hw hn h
  refine ⟨w', he, hu, ?_⟩
  obtain ⟨hlt, hk⟩ := h
  set i := Node.childIndex (w.inodes n) key with hi
  obtain ⟨w1, e1, u1⟩ := copyInodes_eq i (i + 1) hw hn hlt.le hlt
  have k1 := copyInodes_keys (K := []) hw hn hlt.le hlt e1
  have hn1 : n < w1.nextNode := by rwa [u1.nextNode]
  have hlen : (w1.inodes n).length = (w.inodes n).length := by
    rw [u1.inodes]
    simp
    omega
  obtain ⟨w2, e2, u2⟩ := modifyInode_eq (f := fun _ => default) (i := (w.inodes n).length - 1)
    u1.sound hn1 (by omega)
  have k2 := modifyInode_keys (K := []) (fun _ => .inl rfl) u1.sound hn1 (by omega) e2
  have hn2 : n < w2.nextNode := by rwa [u2.nextNode]
  have hlen2 : (w.inodes n).length - 1 ≤ (w2.inodes n).length := by
    rw [u2.inodes, List.length_modify]
    omega
  obtain ⟨w3, e3, u3⟩ := resliceInodes_eq u2.sound hn2 hlen2
  have k3 := resliceInodes_keys (K := []) u2.sound hn2 hlen2 e3
  have hn3 : n < w3.nextNode := by rwa [u3.nextNode]
  obtain ⟨w4, e4, u4⟩ :=
    modifyNode_eq (f := fun nd => { nd with unbalanced := true }) u3.sound hn3 rfl
  have k4 := modifyNode_keys (K := []) u3.sound hn3 rfl e4
  have he' : Node.del n key w = (.ok (), w4) := by
    unfold Node.del inodesOf
    simp only [Prog.read_bind]
    rw [if_neg (by rw [not_or]; exact ⟨by omega, fun h => h hk⟩), Prog.bind_ok e1, Prog.bind_ok e2,
      Prog.bind_ok e3, e4]
  rw [he] at he'
  cases he'
  have k34 := k3.1.trans hn2 u3.nextNode k3.2 k4.1
  have k234 := k2.1.trans hn1 u2.nextNode k2.2 k34
  exact k1.1.trans hn u1.nextNode k1.2 k234

/-! ## Copying a child -/

instance : Std.Refl SameKeys := ⟨fun _ => ⟨le_rfl, fun _ _ => rfl⟩⟩

instance : IsTrans World SameKeys where
  trans _ _ _ h1 h2 := ⟨h1.1.trans h2.1, fun a ha => (h2.2 a (ha.trans_le h1.1)).trans (h1.2 a ha)⟩

/-- A write that changes no array that was there. -/
lemma sameKeys_write {h : World → World} (hh : ∀ w, SameKeys w (h w)) :
    Moves SameKeys (write h) := by
  intro w u w' e
  obtain ⟨c, rfl⟩ := write_eq_ok e
  exact hh { w with cut := c }

lemma sameKeys_newArr {l : List Inode} : Moves SameKeys (newArr l) := by
  intro w u w' e
  unfold newArr at e
  rw [Prog.read_bind] at e
  obtain ⟨_, w1, e1, e2⟩ := Prog.bind_eq_ok e
  obtain ⟨c, rfl⟩ := write_eq_ok e1
  cases e2
  refine ⟨Nat.le_succ _, fun a ha => ?_⟩
  have hne : a ≠ w.nextArr := ha.ne
  simp [World.setArr, hne]

lemma sameKeys_modifyInode {i : Nat} {h : Inode → Inode} (hh : ∀ x, (h x).key = x.key) :
    Moves SameKeys (modifyInode n i h) := by
  refine .read_bind fun s => ?_
  split
  · refine sameKeys_write fun w => ⟨le_rfl, fun a _ => ?_⟩
    by_cases ha : a = s.arr
    · subst ha
      simp only [World.setArr, Function.update_self]
      refine List.ext_getElem (by simp) fun j h1 h2 => ?_
      simp only [List.getElem_map, List.getElem_modify]
      split
      · exact hh _
      · rfl
    · simp [World.setArr, ha]
  · exact .panic

/-- Replacing a child by a copy changes no key that a node shows. -/
lemma Copied.keys_eq {idx : Nat} (hc : Copied w b p c idx w')
    (he : Bucket.childForWrite b p idx w = (.ok n, w')) (hw : w.Sound) {m : NodeId}
    (hm : m < w.nextNode) : w'.keys m = w.keys m := by
  have hmoves : Moves SameKeys (Bucket.childForWrite b p idx) := by
    have hnode : ∀ m (h : Node → Node), Moves SameKeys (modifyNode m h) :=
      fun m h => sameKeys_write fun _ => ⟨le_rfl, fun _ _ => rfl⟩
    have hdirty : ∀ m, Moves SameKeys (markDirty b m) :=
      fun m => sameKeys_write fun _ => ⟨le_rfl, fun _ _ => rfl⟩
    have hnew : ∀ nd, Moves SameKeys (newNode nd) :=
      fun nd => .read_bind fun _ => .bind (sameKeys_write fun _ => ⟨le_rfl, fun _ _ => rfl⟩)
        fun _ => .pure
    have hcopy : ∀ m, Moves SameKeys (Bucket.copyNode b m) := fun m =>
      .read_bind fun _ => .read_bind fun _ =>
        .bind (.read_bind fun _ => .bind sameKeys_newArr fun _ => .pure) fun _ => hnew _
    refine .read_bind fun ins => ?_
    split
    · exact .panic
    refine .read_bind fun bk => ?_
    split
    · exact .panic
    split
    · exact .pure
    · exact .bind (hcopy _) fun m => .bind (hnode m _) fun _ => .bind (hdirty m) fun _ =>
        .bind (sameKeys_modifyInode fun _ => rfl) fun _ => .pure
  obtain ⟨-, hkeys⟩ := hmoves w n w' he
  unfold World.keys World.inodes
  rw [hc.other m hm, List.map_take, List.map_take]
  congr 1
  exact hkeys _ (hw.arr_lt m hm)

/-! ## Giving the children another parent -/

lemma World.reparented_nil : w.reparented b a [] = w := by
  unfold World.reparented
  simp

lemma World.reparented_self {m : NodeId} (hm : m ∈ (w.buckets b).dirty)
    (hk : some m ∈ ins.map Inode.child) :
    (w.reparented b a ins).nodes m = { w.nodes m with parent := some a } := if_pos ⟨hm, hk⟩

lemma World.reparented_other {m : NodeId}
    (hm : m ∈ (w.buckets b).dirty → some m ∉ ins.map Inode.child) :
    (w.reparented b a ins).nodes m = w.nodes m := if_neg fun h => hm h.1 h.2

/-- Only the parents are written. -/
lemma World.reparented_fields (m : NodeId) :
    (w.reparented b a ins).nodes m =
      { w.nodes m with parent := ((w.reparented b a ins).nodes m).parent } := by
  by_cases h : m ∈ (w.buckets b).dirty ∧ some m ∈ ins.map Inode.child
  · rw [World.reparented_self h.1 h.2]
  · rw [World.reparented_other fun h1 h2 => h ⟨h1, h2⟩]

lemma World.reparented_inodes (m : NodeId) : (w.reparented b a ins).inodes m = w.inodes m := by
  unfold World.inodes
  rw [World.reparented_fields]
  rfl

lemma World.reparented_arr (m : NodeId) : (w.reparented b a ins).arr m = w.arr m := by
  unfold World.arr
  rw [World.reparented_fields]

lemma World.Sound.reparented (hw : w.Sound) : (w.reparented b a ins).Sound := by
  refine ⟨hw.cut, fun m hm => ?_, fun m hm => ?_⟩
  · rw [World.reparented_arr]
    exact hw.arr_lt m hm
  · rw [World.reparented_arr, World.reparented_fields]
    exact hw.len_le m hm

/-- One inode after the other. -/
lemma World.reparented_cons (i : Inode) :
    (w.reparented b a [i]).reparented b a ins = w.reparented b a (i :: ins) := by
  unfold World.reparented
  congr 1
  funext m
  simp only [List.map_cons, List.map_nil, List.mem_cons, List.not_mem_nil, or_false]
  by_cases hd : m ∈ (w.buckets b).dirty
  · by_cases h1 : some m = i.child
    · simp [hd, h1]
    · simp [hd, h1]
  · simp [hd]

lemma reparent_eq {i : Inode} (hw : w.cut = none) (hc : (w.nodes c).bucket = some b) :
    Node.reparent c a i w = (.ok (), w.reparented b a [i]) := by
  unfold Node.reparent
  rcases hi : i.child with _ | m
  · have hsame : w.reparented b a [i] = w := by
      unfold World.reparented
      simp [hi]
    rw [hsame]
    rfl
  · simp only [nodeOf, bucketOf, Prog.read_bind, hc, deref, pure_bind]
    by_cases hd : m ∈ (w.buckets b).dirty
    · rw [if_pos hd]
      refine (write_eq hw).trans (congrArg (Prod.mk _) ?_)
      unfold World.reparented World.setNode
      congr 1
      funext m'
      by_cases hm' : m' = m
      · subst hm'
        simp [hd, hi]
      · simp [hm', hi]
    · have hsame : w.reparented b a [i] = w := by
        unfold World.reparented
        congr 1
        funext m'
        by_cases hm' : m' = m
        · subst hm'
          simp [hd]
        · simp [hm', hi]
      rw [if_neg hd, hsame]
      rfl

/-- The loops of `node.rebalance` over the inodes of `c`. -/
lemma each_reparent_eq (hw : w.cut = none) (hc : (w.nodes c).bucket = some b) :
    Prog.each (Node.reparent c a) ins w = (.ok (), w.reparented b a ins) := by
  induction ins generalizing w with
  | nil =>
    rw [World.reparented_nil]
    rfl
  | cons i l ih =>
    have hc' : ((w.reparented b a [i]).nodes c).bucket = some b := by
      rw [World.reparented_fields]
      exact hc
    have hw' : (w.reparented b a [i]).cut = none := hw
    rw [Prog.each, Prog.bind_ok (reparent_eq hw hc), ih hw' hc', World.reparented_cons]

/-! ## Merging and collapsing -/

/-- The part of `node.rebalance` that merges two siblings. -/
lemma mergeSiblings_eq (hw : w.Sound) (hp : p < w.nextNode) (ha : a < w.nextNode)
    (hb : (w.nodes c).bucket = some b) (hn : n = a ∨ n = c) (hpar : (w.nodes n).parent = some p)
    (hap : a ≠ p) (hcp : c ≠ p) (hac : a ≠ c)
    (hkids : ∀ m, m = p ∨ m = a ∨ m = c → some m ∉ (w.inodes c).map Inode.child)
    (harr : w.arr p ≠ w.arr a) (hkey : hasKey (w.inodes p) (w.nodes c).key) :
    ∃ w', Node.mergeSiblings n a c w = (.ok (), w') ∧
      Merged w b p a c (delInodes (w.inodes p) (w.nodes c).key) w' := by
  set l := w.inodes c with hl
  have s1 : (w.reparented b a l).Sound := hw.reparented
  set w1 := w.reparented b a l with hw1
  have e1 : Prog.each (Node.reparent c a) l w = (.ok (), w1) := each_reparent_eq hw.cut hb
  have i1 : ∀ m, w1.inodes m = w.inodes m := World.reparented_inodes
  have a1 : ∀ m, w1.arr m = w.arr m := World.reparented_arr
  have o1 : ∀ m, m = p ∨ m = a ∨ m = c → w1.nodes m = w.nodes m :=
    fun m hm => World.reparented_other fun _ => hkids m hm
  obtain ⟨w2, e2, u2⟩ := appendInodes_eq (l := l) s1 ha
  have k2 := appendInodes_keys s1 ha e2
  have f2 : w2.nodes n = { w.nodes n with inodes := (w2.nodes n).inodes } ∧
      w2.nodes c = w.nodes c := by
    have hc2 : w2.nodes c = w.nodes c := by rw [u2.other c hac.symm, o1 c (by simp)]
    refine ⟨?_, hc2⟩
    rcases hn with rfl | rfl
    · have hself := u2.self
      rwa [o1 n (by simp)] at hself
    · rw [hc2]
  have p2 : w2.inodes p = w.inodes p := by
    rw [u2.view p hap.symm hp (by rw [a1, a1]; exact harr), i1]
  have hp2 : p < w2.nextNode := by rwa [u2.nextNode]
  have hkey2 : hasKey (w2.inodes p) (w.nodes c).key := by rwa [p2]
  obtain ⟨w3, e3, u3, k3⟩ := del_keys u2.sound hp2 hkey2
  have a2 : ∀ m, m ≠ a → w2.arr m = w.arr m := fun m hm => by rw [u2.other_arr hm, a1]
  have hne2 : w2.arr a ≠ w2.arr p :=
    (u2.keepsApart s1) a p ha hp (by rw [a1, a1]; exact harr.symm)
  refine ⟨w3, ?_, ?_⟩
  · have e3' : Node.parentOf n w2 = (.ok p, w2) := by
      unfold Node.parentOf nodeOf
      rw [Prog.read_bind, f2.1, hpar]
      rfl
    unfold Node.mergeSiblings
    simp only [inodesOf, nodeOf, Prog.read_bind, ← hl]
    rw [Prog.bind_ok e1, Prog.read_bind, i1 c, ← hl, Prog.bind_ok e2, Prog.bind_ok e3',
      Prog.read_bind, f2.2, e3]
  · constructor
    case rest =>
      rw [u3.rest, u2.rest]
      rfl
    case parent =>
      rw [u3.self, u2.other p hap.symm, o1 p (by simp)]
    case left =>
      rw [u3.other a hap, u2.self, o1 a (by simp)]
      rfl
    case kid =>
      intro m hm hk
      have hmp : m ≠ p := fun he => hkids m (by simp [he]) hk
      have hma : m ≠ a := fun he => hkids m (by simp [he]) hk
      rw [u3.other m hmp, u2.other m hma]
      exact World.reparented_self hm hk
    case other =>
      intro m hmp hma hk
      rw [u3.other m hmp, u2.other m hma]
      exact World.reparented_other hk
    case inodes_parent => rw [u3.inodes, p2]
    case inodes_left =>
      rw [u3.view a hap (by rwa [u2.nextNode]) hne2, u2.inodes, i1]
    case view =>
      intro m hmp hma hlt hp' ha'
      have hlt2 : m < w2.nextNode := by rwa [u2.nextNode]
      rw [u3.view m hmp hlt2 (by rw [a2 m hma, a2 p hap.symm]; exact hp'),
        u2.view m hma hlt (by rw [a1, a1]; exact ha'), i1]
    case keys =>
      intro m hmp hma hlt k hk
      have hlt2 : m < w2.nextNode := by rwa [u2.nextNode]
      -- first what was moved, then what was taken out
      have h2 : ∀ k ∈ w2.keys m, k ∈ w.keys m ∨
          (w.arr m = w.arr a ∧ (k = [] ∨ k ∈ w.keys c ∨ k ∈ w.keys a)) := by
        intro k hk
        have := k2 m hlt k hk
        unfold World.keys at this ⊢
        rwa [i1, i1, a1, a1] at this
      rcases k3 m hlt2 k hk with hk | ⟨ha', hk⟩
      · exact (h2 k hk).imp_right .inr
      · rw [a2 m hma, a2 p hap.symm] at ha'
        refine .inr (.inl ⟨ha', ?_⟩)
        unfold World.keys at hk ⊢
        rw [p2] at hk
        simpa using hk
    case apart =>
      have h1 : KeepsApart w w1 := by
        intro m m' _ _ hne
        rwa [a1, a1]
      exact (h1.trans rfl (u2.keepsApart s1)).trans u2.nextNode (u3.keepsApart u2.sound)
    case sound => exact u3.sound

/-- The part of `node.rebalance` that collapses the root, from the state in which it has got its
child. -/
lemma collapseRoot_eq {r : NodeId} {w0 : World} (hw : w.Sound) (hc : c < w.nextNode)
    (hchild : Node.childAt r 0 w0 = (.ok c, w)) (hb : (w.nodes r).bucket = some b) (hrc : r ≠ c)
    (hkids : ∀ m, m = r ∨ m = c → some m ∉ (w.inodes c).map Inode.child) :
    ∃ w', Node.collapseRoot r w0 = (.ok (), w') ∧ Collapsed w b r c w' := by
  set nd := { w.nodes r with isLeaf := (w.nodes c).isLeaf, inodes := (w.nodes c).inodes } with hnd
  set w2 := w.setNode r nd with hw2
  have n2 : w2.nodes r = nd := by simp [hw2, World.setNode]
  have o2 : ∀ m, m ≠ r → w2.nodes m = w.nodes m := fun m hm => by simp [hw2, World.setNode, hm]
  have i2 : w2.inodes r = w.inodes c := by
    unfold World.inodes
    rw [n2]
    rfl
  have hb2 : (w2.nodes r).bucket = some b := by
    rw [n2]
    exact hb
  have s2 : w2.Sound := by
    refine ⟨hw.cut, fun m hm => ?_, fun m hm => ?_⟩ <;> unfold World.arr <;> by_cases hmr : m = r
    · rw [hmr, n2]
      exact hw.arr_lt c hc
    · rw [o2 m hmr]
      exact hw.arr_lt m hm
    · rw [hmr, n2]
      exact hw.len_le c hc
    · rw [o2 m hmr]
      exact hw.len_le m hm
  have s3 : (w2.reparented b r (w.inodes c)).Sound := s2.reparented
  set w3 := w2.reparented b r (w.inodes c) with hw3
  have o3 : ∀ m, m = r ∨ m = c → w3.nodes m = w2.nodes m :=
    fun m hm => World.reparented_other fun _ => hkids m hm
  obtain ⟨e4, s4, -⟩ := setFields_eq (n := c) (f := fun nd => { nd with parent := none }) s3 hc rfl
  set w4 := w3.setNode c { w3.nodes c with parent := none } with hw4
  have n4 : w4.nodes c = { w3.nodes c with parent := none } := by simp [hw4, World.setNode]
  have o4 : ∀ m, m ≠ c → w4.nodes m = w3.nodes m := fun m hm => by simp [hw4, World.setNode, hm]
  refine ⟨w4, ?_, ?_⟩
  · have e1 : modifyNode r (fun nd => { nd with isLeaf := (w.nodes c).isLeaf }) w =
        (.ok (), w.setNode r { w.nodes r with isLeaf := (w.nodes c).isLeaf }) := write_eq hw.cut
    have e2 : modifyNode r (fun nd => { nd with inodes := (w.nodes c).inodes })
        (w.setNode r { w.nodes r with isLeaf := (w.nodes c).isLeaf }) = (.ok (), w2) := by
      have hcut : (w.setNode r { w.nodes r with isLeaf := (w.nodes c).isLeaf }).cut = none := hw.cut
      refine (write_eq hcut).trans (congrArg (Prod.mk _) ?_)
      simp [hw2, hnd, World.setNode]
    unfold Node.collapseRoot
    rw [Prog.bind_ok hchild]
    unfold nodeOf inodesOf
    rw [Prog.read_bind, Prog.bind_ok e1, Prog.bind_ok e2, Prog.read_bind, i2,
      Prog.bind_ok (each_reparent_eq s2.cut hb2)]
    exact e4
  · constructor
    case rest => rfl
    case root => rw [o4 r hrc, o3 r (by simp), n2]
    case child => rw [n4, o3 c (by simp), o2 c hrc.symm]
    case kid =>
      intro m hm hk
      have hmr : m ≠ r := fun he => hkids m (by simp [he]) hk
      have hmc : m ≠ c := fun he => hkids m (by simp [he]) hk
      rw [o4 m hmc, ← o2 m hmr]
      exact World.reparented_self hm hk
    case other =>
      intro m hmr hmc hk
      rw [o4 m hmc, ← o2 m hmr]
      exact World.reparented_other hk
    case sound => exact s4

end

end Vmbolt
