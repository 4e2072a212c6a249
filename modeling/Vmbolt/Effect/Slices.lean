import Vmbolt.Model.Snapshot

/-!
# The effect of the slice operations

What Go's slice operations do to the inodes of a node, in a call that is not cut off. `Upd w n f ins
w'` says that the node `n` got the inodes `ins` and its other fields were changed by `f`, while
every node that does not share the backing array of `n` kept its fields and its inodes.
-/

namespace Vmbolt

/-- No call is about to be cut off, and every slice lies within its backing array. -/
structure World.Sound (w : World) : Prop where
  cut : w.cut = none
  arr_lt : ∀ n, n < w.nextNode → w.arr n < w.nextArr
  len_le : ∀ n, n < w.nextNode → (w.nodes n).inodes.len ≤ (w.arrays (w.arr n)).length

/-- From `w` to `w'` only the node `n` and its inodes have changed. -/
structure Upd (w : World) (n : NodeId) (f : Node → Node) (ins : List Inode) (w' : World) :
    Prop where
  rest : w' = { w with nodes := w'.nodes, arrays := w'.arrays, nextArr := w'.nextArr }
  self : w'.nodes n = { f (w.nodes n) with inodes := (w'.nodes n).inodes }
  other : ∀ m, m ≠ n → w'.nodes m = w.nodes m
  inodes : w'.inodes n = ins
  view : ∀ m, m ≠ n → m < w.nextNode → w.arr m ≠ w.arr n → w'.inodes m = w.inodes m
  arr : w'.arr n = w.arr n ∨ w.nextArr ≤ w'.arr n
  nextArr : w.nextArr ≤ w'.nextArr
  sound : w'.Sound

section
variable {w w' : World} {n : NodeId}

/-- A write of a call that is not cut off. -/
lemma write_eq {f : World → World} (h : w.cut = none) : write f w = (.ok (), f w) := by
  unfold write
  rw [h]

lemma World.Sound.length_inodes (h : w.Sound) (hn : n < w.nextNode) :
    (w.inodes n).length = (w.nodes n).inodes.len := by
  have := h.len_le n hn
  unfold World.arr at this
  simp [World.inodes, this]

namespace Upd
variable {f g : Node → Node} {ins ins' : List Inode} {w'' : World}

lemma nextNode (h : Upd w n f ins w') : w'.nextNode = w.nextNode := by rw [h.rest]

lemma buckets (h : Upd w n f ins w') : w'.buckets = w.buckets := by rw [h.rest]

lemma other_arr (h : Upd w n f ins w') {m : NodeId} (hm : m ≠ n) : w'.arr m = w.arr m := by
  unfold World.arr
  rw [h.other m hm]

/-- Two changes of one node make one. -/
lemma trans (h1 : Upd w n f ins w') (h2 : Upd w' n g ins' w'') (hw : w.Sound)
    (hg : ∀ nd s t, { g { nd with inodes := s } with inodes := t } = { g nd with inodes := t }) :
    Upd w n (fun nd => g (f nd)) ins' w'' where
  rest := by
    rw [h2.rest, h1.rest]
  self := by
    rw [h2.self, h1.self]
    exact hg _ _ _
  other m hm := (h2.other m hm).trans (h1.other m hm)
  inodes := h2.inodes
  view m hm hlt ha := by
    have hm' : w'.arr m ≠ w'.arr n := by
      rw [h1.other_arr hm]
      rcases h1.arr with e | e
      · rwa [e]
      · exact ((hw.arr_lt m hlt).trans_le e).ne
    rw [h2.view m hm (by rwa [h1.nextNode]) hm', h1.view m hm hlt ha]
  arr := by
    rcases h2.arr with e | e
    · rw [e]
      exact h1.arr
    · exact .inr (h1.nextArr.trans e)
  nextArr := h1.nextArr.trans h2.nextArr
  sound := h2.sound

end Upd

/-! ## Single operations -/

/-- A node is changed together with its backing array, which keeps its capacity. -/
lemma upd_inPlace {f : Node → Node} {l : List Inode} {k : Nat} (hw : w.Sound)
    (hl : l.length = (w.arrays (w.arr n)).length) (hk : k ≤ l.length) :
    Upd w n f (l.take k)
      { w with
        nodes := Function.update w.nodes n { f (w.nodes n) with inodes := ⟨w.arr n, k⟩ }
        arrays := Function.update w.arrays (w.arr n) l } where
  rest := rfl
  self := by simp
  other m hm := by simp [hm]
  inodes := by simp [World.inodes]
  view m hm _ ha := by
    have ha' : (w.nodes m).inodes.arr ≠ w.arr n := ha
    simp [World.inodes, hm, ha']
  arr := .inl (by simp [World.arr])
  nextArr := le_rfl
  sound := by
    refine ⟨hw.cut, fun m hm => ?_, fun m hm => ?_⟩ <;> by_cases e : m = n
    · subst e
      simpa [World.arr] using hw.arr_lt m hm
    · simpa [World.arr, e] using hw.arr_lt m hm
    · subst e
      simpa [World.arr] using hk
    · have hlen := hw.len_le m hm
      by_cases ea : w.arr m = w.arr n
      · rw [ea, ← hl] at hlen
        have ea' : (w.nodes m).inodes.arr = w.arr n := ea
        simp only [World.arr, Function.update_of_ne e]
        rw [show (w.nodes n).inodes.arr = (w.nodes m).inodes.arr from ea'.symm,
          Function.update_self]
        exact hlen
      · have ea' : (w.nodes m).inodes.arr ≠ (w.nodes n).inodes.arr := ea
        simpa [World.arr, e, ea'] using hlen

/-- A node is changed and gets a backing array of its own. -/
lemma upd_fresh {f : Node → Node} {l : List Inode} {k : Nat} (hw : w.Sound) (hk : k ≤ l.length) :
    Upd w n f (l.take k)
      { w with
        nodes := Function.update w.nodes n { f (w.nodes n) with inodes := ⟨w.nextArr, k⟩ }
        arrays := Function.update w.arrays w.nextArr l
        nextArr := w.nextArr + 1 } where
  rest := rfl
  self := by simp
  other m hm := by simp [hm]
  inodes := by simp [World.inodes]
  view m hm hlt _ := by
    have : (w.nodes m).inodes.arr ≠ w.nextArr := (hw.arr_lt m hlt).ne
    simp [World.inodes, hm, this]
  arr := .inr (by simp [World.arr])
  nextArr := Nat.le_succ _
  sound := by
    refine ⟨hw.cut, fun m hm => ?_, fun m hm => ?_⟩ <;> by_cases e : m = n
    · subst e
      simp [World.arr]
    · have := hw.arr_lt m hm
      simpa [World.arr, e] using this.trans (Nat.lt_succ_self _)
    · subst e
      simpa [World.arr] using hk
    · have h1 : (w.nodes m).inodes.arr ≠ w.nextArr := (hw.arr_lt m hm).ne
      simpa [World.arr, e, h1] using hw.len_le m hm

/-- A write to the backing array only. -/
lemma setArr_eq_update {l : List Inode} : w.setArr (w.arr n) l =
    { w with
      nodes := Function.update w.nodes n
        { w.nodes n with inodes := ⟨w.arr n, (w.nodes n).inodes.len⟩ }
      arrays := Function.update w.arrays (w.arr n) l } := by
  have : Function.update w.nodes n { w.nodes n with inodes := ⟨w.arr n, (w.nodes n).inodes.len⟩ } =
      w.nodes := Function.update_eq_self n w.nodes
  rw [this]
  rfl

/-- A write to the fields of a node only. -/
lemma setNode_eq_update {f : Node → Node} {k : Nat} :
    w.setNode n { f (w.nodes n) with inodes := ⟨w.arr n, k⟩ } =
    { w with
      nodes := Function.update w.nodes n { f (w.nodes n) with inodes := ⟨w.arr n, k⟩ }
      arrays := Function.update w.arrays (w.arr n) (w.arrays (w.arr n)) } := by
  rw [Function.update_eq_self]
  rfl

/-- Write fields other than the inodes. -/
lemma modifyNode_eq {f : Node → Node} (hw : w.Sound) (hn : n < w.nextNode)
    (hf : (f (w.nodes n)).inodes = (w.nodes n).inodes) :
    ∃ w', modifyNode n f w = (.ok (), w') ∧ Upd w n f (w.inodes n) w' := by
  refine ⟨_, write_eq hw.cut, ?_⟩
  have e : w.setNode n (f (w.nodes n)) =
      w.setNode n { f (w.nodes n) with inodes := ⟨w.arr n, (w.nodes n).inodes.len⟩ } := by
    congr 1
    rw [show (⟨w.arr n, (w.nodes n).inodes.len⟩ : Slice) = (w.nodes n).inodes from rfl, ← hf]
  rw [e, setNode_eq_update]
  exact upd_inPlace hw rfl (hw.len_le n hn)

/-- `n.inodes = n.inodes[:k]`. -/
lemma resliceInodes_eq {k : Nat} (hw : w.Sound) (hn : n < w.nextNode)
    (hk : k ≤ (w.inodes n).length) :
    ∃ w', resliceInodes n k w = (.ok (), w') ∧ Upd w n id ((w.inodes n).take k) w' := by
  unfold resliceInodes modifyNode
  refine ⟨_, write_eq hw.cut, ?_⟩
  rw [hw.length_inodes hn] at hk
  have e : (w.inodes n).take k = (w.arrays (w.arr n)).take k := by
    rw [World.inodes, List.take_take, min_eq_left hk]
    rfl
  rw [e]
  exact (setNode_eq_update (f := id)) ▸ upd_inPlace hw rfl (hk.trans (hw.len_le n hn))

/-- `copy(n.inodes[dst:], n.inodes[src:])`. -/
lemma copyInodes_eq (dst src : Nat) (hw : w.Sound) (hn : n < w.nextNode)
    (hd : dst ≤ (w.inodes n).length) (hs : src ≤ (w.inodes n).length) :
    ∃ w', copyInodes n dst src w = (.ok (), w') ∧
      Upd w n id ((w.inodes n).take dst ++
        ((w.inodes n).drop src).take
          (min ((w.inodes n).length - dst) ((w.inodes n).length - src)) ++
        (w.inodes n).drop (dst + min ((w.inodes n).length - dst) ((w.inodes n).length - src)))
          w' := by
  rw [hw.length_inodes hn] at hd hs ⊢
  have hlen : (w.nodes n).inodes.len ≤ (w.arrays (w.arr n)).length := hw.len_le n hn
  unfold copyInodes
  simp only [Prog.read_bind]
  rw [if_neg (by omega)]
  refine ⟨_, write_eq hw.cut, ?_⟩
  set len := (w.nodes n).inodes.len with hlen_def
  set cnt := min (len - dst) (len - src) with hcnt
  have e : (w.inodes n).take dst ++ ((w.inodes n).drop src).take cnt ++
      (w.inodes n).drop (dst + cnt) =
      ((w.arrays (w.arr n)).take dst ++ ((w.arrays (w.arr n)).drop src).take cnt ++
        (w.arrays (w.arr n)).drop (dst + cnt)).take len := by
    have h1 : w.inodes n = (w.arrays (w.arr n)).take len := rfl
    rw [h1, List.take_take, List.drop_take, List.drop_take, List.take_take, List.take_append,
      List.take_append]
    simp only [List.length_append, List.length_take, List.length_drop, List.take_take]
    congr 1
    · congr 1
      · congr 1
        omega
      · congr 1
        omega
    · congr 1
      omega
  rw [e]
  exact (setArr_eq_update (w := w)) ▸ upd_inPlace hw (by simp; omega) (by simp; omega)

/-- Write the fields of `n.inodes[i]`. -/
lemma modifyInode_eq {i : Nat} {f : Inode → Inode} (hw : w.Sound) (hn : n < w.nextNode)
    (hi : i < (w.inodes n).length) :
    ∃ w', modifyInode n i f w = (.ok (), w') ∧ Upd w n id ((w.inodes n).modify i f) w' := by
  rw [hw.length_inodes hn] at hi
  have hlen : (w.nodes n).inodes.len ≤ (w.arrays (w.arr n)).length := hw.len_le n hn
  unfold modifyInode
  simp only [Prog.read_bind]
  rw [if_pos hi]
  refine ⟨_, write_eq hw.cut, ?_⟩
  have e : (w.inodes n).modify i f =
      ((w.arrays (w.arr n)).modify i f).take (w.nodes n).inodes.len := by
    rw [List.take_modify]
    rfl
  rw [e]
  exact (setArr_eq_update (w := w)) ▸ upd_inPlace hw (by simp) (by simpa using hlen)

/-- Writing to an inode leaves the nodes alone, also the slice of the node. -/
lemma modifyInode_nodes {i : Nat} {f : Inode → Inode} (hw : w.Sound) :
    (modifyInode n i f w).2.nodes = w.nodes := by
  unfold modifyInode
  rw [Prog.read_bind]
  split
  · rw [write_eq hw.cut]
    rfl
  · rfl

/-- `append`. -/
lemma appendInodes_eq {l : List Inode} (hw : w.Sound) (hn : n < w.nextNode) :
    ∃ w', appendInodes n l w = (.ok (), w') ∧ Upd w n id (w.inodes n ++ l) w' := by
  have hlen : (w.nodes n).inodes.len ≤ (w.arrays (w.arr n)).length := hw.len_le n hn
  have take_eq : ∀ t : List Inode, w.inodes n ++ l =
      ((w.arrays (w.arr n)).take (w.nodes n).inodes.len ++ l ++ t).take
        ((w.nodes n).inodes.len + l.length) := by
    intro t
    rw [List.take_append_of_le_length (by simp [hlen]), List.take_of_length_le (by simp [hlen])]
    rfl
  unfold appendInodes
  simp only [Prog.read_bind]
  split
  next h =>
    change (w.nodes n).inodes.len + l.length ≤ (w.arrays (w.arr n)).length at h
    refine ⟨_, ?_, take_eq ((w.arrays (w.arr n)).drop ((w.nodes n).inodes.len + l.length)) ▸
      upd_inPlace hw (by simp; omega) (by simp; omega)⟩
    exact (Prog.bind_ok (write_eq hw.cut)).trans (write_eq hw.cut)
  next h =>
    refine ⟨_, ?_, take_eq (List.replicate (w.rt.spare (w.arrays (w.arr n)).length
      ((w.nodes n).inodes.len + l.length)) default) ▸ upd_fresh hw (by simp [hlen])⟩
    unfold newArr
    simp only [bind_assoc, pure_bind, Prog.read_bind]
    exact (Prog.bind_ok (write_eq hw.cut)).trans (write_eq hw.cut)

end

end Vmbolt
