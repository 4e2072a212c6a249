import Mathlib.Data.List.GetD
import Vmbolt.Effect.Slices

/-!
# The effect of `put` and `del`

`node.put` and `node.del` as functions on the list of inodes, and how they read on a list that is
cut at the key.
-/

namespace Vmbolt

/-- The inodes after `node.put`: the one with the old key is replaced, or a new one is inserted in
front of the first larger key. -/
def putInodes (ins : List Inode) (old : Bytes) (x : Inode) : List Inode :=
  let i := Node.childIndex ins old
  if 0 < ins.length ∧ i < ins.length ∧ (ins.getD i default).key = old then ins.set i x
  else ins.take i ++ x :: ins.drop i

/-- Whether `node.del` finds the key. -/
def hasKey (ins : List Inode) (key : Bytes) : Prop :=
  Node.childIndex ins key < ins.length ∧
    (ins.getD (Node.childIndex ins key) default).key = key

instance (ins : List Inode) (key : Bytes) : Decidable (hasKey ins key) :=
  inferInstanceAs (Decidable (_ ∧ _))

/-- The inodes after `node.del` of a key that is there. -/
def delInodes (ins : List Inode) (key : Bytes) : List Inode :=
  ins.eraseIdx (Node.childIndex ins key)

section Lists
variable {l1 l2 : List Inode} {k : Bytes} {x y : Inode}

/-- The index of a key in a list that is cut at it. -/
lemma childIndex_append (h1 : ∀ i ∈ l1, i.key < k) (h2 : ∀ i ∈ l2, k ≤ i.key) :
    Node.childIndex (l1 ++ l2) k = l1.length := lowerBound_append h1 h2

/-- Putting a key that is there replaces its inode. -/
lemma putInodes_replace (h1 : ∀ i ∈ l1, i.key < k) (h2 : ∀ i ∈ l2, k ≤ i.key) (hy : y.key = k) :
    putInodes (l1 ++ y :: l2) k x = l1 ++ x :: l2 := by
  have e : Node.childIndex (l1 ++ y :: l2) k = l1.length := by
    refine childIndex_append h1 fun i hi => ?_
    rcases List.mem_cons.1 hi with rfl | hi
    · exact hy.ge
    · exact h2 i hi
  unfold putInodes
  rw [e, if_pos ⟨by simp, by simp, by simp [hy]⟩]
  simp

/-- Putting a new key inserts its inode. -/
lemma putInodes_insert (h1 : ∀ i ∈ l1, i.key < k) (h2 : ∀ i ∈ l2, k < i.key) :
    putInodes (l1 ++ l2) k x = l1 ++ x :: l2 := by
  have e : Node.childIndex (l1 ++ l2) k = l1.length := childIndex_append h1 fun i hi => (h2 i hi).le
  unfold putInodes
  rw [e, if_neg]
  · simp
  · rintro ⟨-, hlt, hk⟩
    cases l2 with
    | nil => simp at hlt
    | cons z l2 =>
      simp only [List.getD_append_right _ _ _ _ le_rfl, Nat.sub_self, List.getD_cons_zero] at hk
      exact (h2 z (by simp)).ne' hk

lemma putInodes_ne_nil (ins : List Inode) (old : Bytes) (x : Inode) : putInodes ins old x ≠ [] := by
  unfold putInodes
  dsimp only
  split
  next h => simpa using List.length_pos_iff.1 h.1
  · simp

/-- Deleting a key that is there removes its inode. -/
lemma delInodes_append (h1 : ∀ i ∈ l1, i.key < k) (h2 : ∀ i ∈ l2, k ≤ i.key) (hy : y.key = k) :
    hasKey (l1 ++ y :: l2) k ∧ delInodes (l1 ++ y :: l2) k = l1 ++ l2 := by
  have e : Node.childIndex (l1 ++ y :: l2) k = l1.length := by
    refine childIndex_append h1 fun i hi => ?_
    rcases List.mem_cons.1 hi with rfl | hi
    · exact hy.ge
    · exact h2 i hi
  unfold hasKey delInodes
  rw [e]
  refine ⟨⟨by simp, by simp [hy]⟩, ?_⟩
  rw [List.eraseIdx_append_of_length_le le_rfl]
  simp

/-- A key that is not among the keys of a list is not found, sorted or not. -/
lemma not_hasKey {ins : List Inode} (h : ∀ i ∈ ins, i.key ≠ k) : ¬ hasKey ins k := by
  rintro ⟨hlt, hk⟩
  rw [List.getD_eq_getElem _ _ hlt] at hk
  exact h _ (List.getElem_mem hlt) hk

end Lists

section
variable {w : World} {n : NodeId}

/-- The shift of `node.put` makes room at the index. -/
lemma makeRoom_eq {key : Bytes} {i : Nat} (hw : w.Sound) (hn : n < w.nextNode)
    (hi : i ≤ (w.inodes n).length)
    (h : ¬ (0 < (w.inodes n).length ∧ i < (w.inodes n).length ∧
      ((w.inodes n).getD i default).key = key)) :
    ∃ w' y, Node.makeRoom n key i w = (.ok (), w') ∧
      Upd w n id ((w.inodes n).take i ++ y :: (w.inodes n).drop i) w' := by
  obtain ⟨w1, e1, u1⟩ := appendInodes_eq (l := [default]) hw hn
  have hn1 : n < w1.nextNode := by rwa [u1.nextNode]
  obtain ⟨w2, e2, u2⟩ := copyInodes_eq (i + 1) i u1.sound hn1
    (by rw [u1.inodes]; simpa using hi) (by rw [u1.inodes]; simp; omega)
  refine ⟨w2, (w1.inodes n).getD i default, ?_, ?_⟩
  · unfold Node.makeRoom inodesOf
    simp only [Prog.read_bind]
    rw [if_neg h, Prog.bind_ok e1, e2]
  · have u := u1.trans u2 hw fun _ _ _ => rfl
    have e : (w.inodes n).take i ++ (w1.inodes n).getD i default :: (w.inodes n).drop i =
        (w1.inodes n).take (i + 1) ++ ((w1.inodes n).drop i).take
          (min ((w1.inodes n).length - (i + 1)) ((w1.inodes n).length - i)) ++
          (w1.inodes n).drop (i + 1 + min ((w1.inodes n).length - (i + 1))
            ((w1.inodes n).length - i)) := by
      have hlt : i < (w1.inodes n).length := by rw [u1.inodes]; simp; omega
      have hmin : min ((w1.inodes n).length - (i + 1)) ((w1.inodes n).length - i) =
          (w.inodes n).length - i := by
        rw [u1.inodes]
        simp
        omega
      rw [hmin, List.take_succ_eq_append_getElem hlt, List.getD_eq_getElem _ _ hlt]
      simp only [u1.inodes, List.append_assoc, List.cons_append, List.nil_append]
      have hdrop : (w.inodes n ++ [default]).drop (i + 1 + ((w.inodes n).length - i)) = [] :=
        List.drop_eq_nil_of_le (by simp only [List.length_append, List.length_singleton]; omega)
      rw [List.take_append_of_le_length hi, List.drop_append_of_le_length hi,
        List.take_append_of_le_length (by simp), hdrop]
      simp
    rw [e]
    exact u

/-- `node.put` on non-empty keys. -/
lemma put_eq {old new : Bytes} {v : Option Bytes} {c : Option NodeId} (hw : w.Sound)
    (hn : n < w.nextNode) (ho : old ≠ []) (hnew : new ≠ []) :
    ∃ w', Node.put n old new v c w = (.ok (), w') ∧
      Upd w n id (putInodes (w.inodes n) old ⟨new, v, c⟩) w' := by
  have ho' : ¬ old.length ≤ 0 := by simpa using ho
  have hn' : ¬ new.length ≤ 0 := by simpa using hnew
  have hpos : 0 < new.length := by omega
  have hi : Node.childIndex (w.inodes n) old ≤ (w.inodes n).length := lowerBound_le _ _ _
  unfold Node.put inodesOf
  rw [if_neg ho', if_neg hn']
  simp only [Prog.read_bind]
  by_cases hx : 0 < (w.inodes n).length ∧ Node.childIndex (w.inodes n) old < (w.inodes n).length ∧
      ((w.inodes n).getD (Node.childIndex (w.inodes n) old) default).key = old
  · obtain ⟨w1, e1, u1⟩ := modifyInode_eq (f := fun _ => ⟨new, v, c⟩) hw hn hx.2.1
    refine ⟨w1, ?_, ?_⟩
    · have e0 : Node.makeRoom n old (Node.childIndex (w.inodes n) old) w = (.ok (), w) := by
        unfold Node.makeRoom inodesOf
        simp only [Prog.read_bind]
        rw [if_pos hx]
        rfl
      rw [Prog.bind_ok e0, Prog.bind_ok e1, Prog.assert_pos hpos]
      rfl
    · unfold putInodes
      rw [if_pos hx, List.set_eq_modify]
      exact u1
  · obtain ⟨w1, y, e1, u1⟩ := makeRoom_eq hw hn hi hx
    have hn1 : n < w1.nextNode := by rwa [u1.nextNode]
    obtain ⟨w2, e2, u2⟩ := modifyInode_eq (f := fun _ => ⟨new, v, c⟩)
      (i := Node.childIndex (w.inodes n) old) u1.sound hn1 (by rw [u1.inodes]; simp; omega)
    refine ⟨w2, ?_, ?_⟩
    · rw [Prog.bind_ok e1, Prog.bind_ok e2, Prog.assert_pos hpos]
      rfl
    · unfold putInodes
      rw [if_neg hx]
      have u := u1.trans u2 hw fun _ _ _ => rfl
      have e : (w.inodes n).take (Node.childIndex (w.inodes n) old) ++
          ⟨new, v, c⟩ :: (w.inodes n).drop (Node.childIndex (w.inodes n) old) =
          (w1.inodes n).modify (Node.childIndex (w.inodes n) old) fun _ => ⟨new, v, c⟩ := by
        have hl : ((w.inodes n).take (Node.childIndex (w.inodes n) old)).length =
            Node.childIndex (w.inodes n) old := by simpa using hi
        rw [u1.inodes, ← List.set_eq_modify, List.set_append_right _ _ hl.le, hl]
        simp
      rw [e]
      exact u

/-- `node.del` of a key that is not there. -/
lemma del_eq_of_not_hasKey {key : Bytes} (h : ¬ hasKey (w.inodes n) key) :
    Node.del n key w = (.ok (), w) := by
  unfold Node.del inodesOf
  simp only [Prog.read_bind]
  rw [if_pos]
  · rfl
  · unfold hasKey at h
    by_cases hlt : (w.inodes n).length ≤ Node.childIndex (w.inodes n) key
    · exact .inl hlt
    · exact .inr fun e => h ⟨by omega, e⟩

/-- `node.del` of a key that is there. -/
lemma del_eq {key : Bytes} (hw : w.Sound) (hn : n < w.nextNode) (h : hasKey (w.inodes n) key) :
    ∃ w', Node.del n key w = (.ok (), w') ∧
      Upd w n (fun nd => { nd with unbalanced := true }) (delInodes (w.inodes n) key) w' := by
  obtain ⟨hlt, hk⟩ := h
  set i := Node.childIndex (w.inodes n) key with hi
  obtain ⟨w1, e1, u1⟩ := copyInodes_eq i (i + 1) hw hn hlt.le hlt
  have hn1 : n < w1.nextNode := by rwa [u1.nextNode]
  have hmin : min ((w.inodes n).length - i) ((w.inodes n).length - (i + 1)) =
      (w.inodes n).length - (i + 1) := by omega
  have hlen : (w1.inodes n).length = (w.inodes n).length := by
    rw [u1.inodes, hmin]
    simp
    omega
  obtain ⟨w2, e2, u2⟩ := modifyInode_eq (f := fun _ => default) (i := (w.inodes n).length - 1)
    u1.sound hn1 (by omega)
  have hn2 : n < w2.nextNode := by rwa [u2.nextNode]
  obtain ⟨w3, e3, u3⟩ := resliceInodes_eq (k := (w.inodes n).length - 1) u2.sound hn2
    (by rw [u2.inodes]; simp; omega)
  have hn3 : n < w3.nextNode := by rwa [u3.nextNode]
  obtain ⟨w4, e4, u4⟩ :=
    modifyNode_eq (f := fun nd => { nd with unbalanced := true }) u3.sound hn3 rfl
  refine ⟨w4, ?_, ?_⟩
  · unfold Node.del inodesOf
    simp only [Prog.read_bind]
    rw [if_neg (by rw [not_or]; exact ⟨by omega, fun h => h hk⟩), Prog.bind_ok e1, Prog.bind_ok e2,
      Prog.bind_ok e3, e4]
  · have u := ((u1.trans u2 hw fun _ _ _ => rfl).trans u3 hw fun _ _ _ => rfl).trans u4 hw
      fun _ _ _ => rfl
    have e : delInodes (w.inodes n) key = w3.inodes n := by
      rw [u3.inodes, u2.inodes, List.take_modify, u1.inodes, hmin]
      unfold delInodes
      rw [← hi, List.eraseIdx_eq_take_drop_succ]
      have hl : ((w.inodes n).take i ++ ((w.inodes n).drop (i + 1)).take
          ((w.inodes n).length - (i + 1))).length = (w.inodes n).length - 1 := by
        simp
        omega
      rw [List.take_append_of_le_length hl.ge, List.take_of_length_le hl.le,
        List.modify_eq_self (by rw [hl]),
        List.take_of_length_le (l := List.drop (i + 1) _) (by simp)]
    rw [e]
    exact u

end

end Vmbolt
