import Vmbolt.Effect.Copies

/-!
# The effect of `split`

`node.split` cuts the inodes of a node into pieces. `Node.pieces` is the list of them as a function
of the inodes; `Cut` says what a split does to the heap: the node keeps the first piece, the others
become new nodes of the handle under the same parent.
-/

namespace Vmbolt

namespace Node

/-! ## The pieces -/

/-- The pieces of a list of inodes, with fuel. -/
def piecesLoop (isLeaf : Bool) (threshold : Int) : Nat → List Inode → List (List Inode)
  | 0, ins => [ins]
  | k + 1, ins =>
    if fitsOneNode isLeaf ins then [ins]
    else
      let index := (splitIndex isLeaf ins threshold).1
      ins.take index :: piecesLoop isLeaf threshold k (ins.drop index)

/-- The pieces `node.split` cuts the inodes of a node into. -/
def pieces (isLeaf : Bool) (threshold : Int) (ins : List Inode) : List (List Inode) :=
  piecesLoop isLeaf threshold ins.length ins

section
variable {isLeaf : Bool} {threshold : Int} {ins l : List Inode}

lemma minKeys_pos (isLeaf : Bool) : 0 < minKeys isLeaf := by
  unfold minKeys
  split <;> omega

/-- The loop stops within the list, behind the first `m` inodes or at the end. -/
lemma splitIndexLoop_bounds (m : Nat) (threshold : Int) (i index sz : Nat) (hl : l ≠ []) :
    i ≤ (splitIndexLoop m threshold l i index sz).1 ∧
      (splitIndexLoop m threshold l i index sz).1 < i + l.length ∧
      (m ≤ (splitIndexLoop m threshold l i index sz).1 ∨
        (splitIndexLoop m threshold l i index sz).1 + 1 = i + l.length) := by
  induction l generalizing i index sz with
  | nil => exact absurd rfl hl
  | cons x l ih =>
    unfold splitIndexLoop
    split
    next h => exact ⟨le_rfl, by simp, .inl h.1⟩
    next =>
      cases l with
      | nil => simp [splitIndexLoop]
      | cons y l =>
        obtain ⟨h1, h2, h3⟩ := ih (i + 1) i (sz + x.size) (by simp)
        simp only [List.length_cons] at h2 h3 ⊢
        refine ⟨by omega, by omega, h3.imp id fun h => by omega⟩

/-- A node that does not stay in one piece is longer than twice the minimum. -/
lemma two_mul_lt_of_not_fits (h : fitsOneNode isLeaf ins = false) :
    minKeys isLeaf * 2 < ins.length := by
  unfold fitsOneNode at h
  simp only [Bool.or_eq_false_iff, decide_eq_false_iff_not, not_le] at h
  exact h.1

/-- Both parts of a node that is cut keep the minimum number of inodes. -/
lemma splitIndex_bounds (threshold : Int) (h : fitsOneNode isLeaf ins = false) :
    minKeys isLeaf ≤ (splitIndex isLeaf ins threshold).1 ∧
      (splitIndex isLeaf ins threshold).1 + minKeys isLeaf + 1 ≤ ins.length := by
  have hlen := two_mul_lt_of_not_fits h
  have hpos := minKeys_pos isLeaf
  have hl : ins.take (ins.length - minKeys isLeaf) ≠ [] := by
    rw [← List.length_pos_iff, List.length_take]
    omega
  obtain ⟨-, h2, h3⟩ := splitIndexLoop_bounds (minKeys isLeaf) threshold 0 0
    nodeHeaderOverheadBytes hl
  rw [List.length_take] at h2 h3
  change (splitIndex isLeaf ins threshold).1 < _ at h2
  change minKeys isLeaf ≤ (splitIndex isLeaf ins threshold).1 ∨
    (splitIndex isLeaf ins threshold).1 + 1 = _ at h3
  omega

/-- The loop stops at or in front of the index `m`, or where what it has added up is within the
threshold. -/
lemma splitIndexLoop_size (m i index sz : Nat) (hi : i ≤ m ∨ (sz : Int) ≤ threshold) (hl : l ≠ []) :
    (splitIndexLoop m threshold l i index sz).1 ≤ m ∨
      (((l.take ((splitIndexLoop m threshold l i index sz).1 - i)).foldl
        (fun sz item => sz + item.size) sz : Nat) : Int) ≤ threshold := by
  induction l generalizing i index sz with
  | nil => exact absurd rfl hl
  | cons x l ih =>
    unfold splitIndexLoop
    split
    next => simpa using hi
    next h =>
      cases l with
      | nil => simpa [splitIndexLoop] using hi
      | cons y l =>
        have hi' : i + 1 ≤ m ∨ ((sz + x.size : Nat) : Int) ≤ threshold := by
          by_cases hm : m ≤ i
          · exact .inr (not_lt.1 fun hlt => h ⟨hm, hlt⟩)
          · exact .inl (by omega)
        obtain ⟨h1, -, -⟩ := splitIndexLoop_bounds m threshold (i + 1) i (sz + x.size)
          (List.cons_ne_nil y l)
        refine (ih (i + 1) i (sz + x.size) hi' (List.cons_ne_nil y l)).imp_right fun hle => ?_
        obtain ⟨j, hj⟩ := Nat.exists_eq_add_of_le h1
        rw [hj] at hle ⊢
        rwa [show i + 1 + j - i = j + 1 by omega, List.take_succ_cons, List.foldl_cons,
          show j = i + 1 + j - (i + 1) by omega]

/-- The first part of a node that is cut is within the threshold, or has the minimum number of
inodes. -/
lemma size_take_splitIndex (h : fitsOneNode isLeaf ins = false) {k : Nat}
    (hk : k = (splitIndex isLeaf ins threshold).1) :
    (size (ins.take k) : Int) ≤ threshold ∨ (ins.take k).length = minKeys isLeaf := by
  have hlen := two_mul_lt_of_not_fits h
  have hpos := minKeys_pos isLeaf
  obtain ⟨h1, h2⟩ := splitIndex_bounds threshold h
  have hl : ins.take (ins.length - minKeys isLeaf) ≠ [] := by
    rw [← List.length_pos_iff, List.length_take]
    omega
  have hsz := splitIndexLoop_size (minKeys isLeaf) 0 0 nodeHeaderOverheadBytes
    (.inl (Nat.zero_le _) : _ ∨ _ ≤ threshold) hl
  change (splitIndex isLeaf ins threshold).1 ≤ _ ∨
    (((List.take ((splitIndex isLeaf ins threshold).1 - 0) _).foldl _ _ : Nat) : Int) ≤ _ at hsz
  rw [← hk] at h1 h2 hsz
  rcases hsz with hle | hle
  · exact .inr (by rw [List.length_take]; omega)
  · rw [List.take_take, Nat.sub_zero, Nat.min_eq_left (by omega)] at hle
    exact .inl hle

lemma lt_of_sizeLessThanLoop {v sz : Nat} (hsz : sz < v) (h : sizeLessThanLoop v sz l = true) :
    l.foldl (fun sz item => sz + item.size) sz < v := by
  induction l generalizing sz with
  | nil => exact hsz
  | cons x l ih =>
    unfold sizeLessThanLoop at h
    split at h
    next => cases h
    next hlt => exact ih (not_le.1 hlt) h

/-- A node stays in one piece if it is small, or has few inodes. -/
lemma size_lt_of_fits (h : fitsOneNode isLeaf ins = true) :
    size ins < defaultMaxNodeSizeBytes ∨ ins.length ≤ 2 * minKeys isLeaf := by
  unfold fitsOneNode at h
  rw [Bool.or_eq_true, decide_eq_true_eq] at h
  rcases h with h | h
  · exact .inr (by omega)
  · exact .inl (lt_of_sizeLessThanLoop (by decide) h)

lemma pieces_of_fits (h : fitsOneNode isLeaf ins = true) : pieces isLeaf threshold ins = [ins] := by
  unfold pieces
  cases ins with
  | nil => rfl
  | cons x l => simp [piecesLoop, h]

/-- More fuel than inodes changes nothing. -/
lemma piecesLoop_stable {j k : Nat} (hj : ins.length ≤ j) (hk : ins.length ≤ k) :
    piecesLoop isLeaf threshold j ins = piecesLoop isLeaf threshold k ins := by
  induction j generalizing ins k with
  | zero =>
    obtain rfl : ins = [] := List.length_eq_zero_iff.1 (by omega)
    cases k <;> rfl
  | succ j ih =>
    cases hf : fitsOneNode isLeaf ins with
    | true => cases k <;> simp [piecesLoop, hf]
    | false =>
      obtain ⟨h1, h2⟩ := splitIndex_bounds threshold hf
      have hpos := minKeys_pos isLeaf
      obtain ⟨k, rfl⟩ : ∃ i, k = i + 1 := ⟨k - 1, by omega⟩
      have hlen : (ins.drop (splitIndex isLeaf ins threshold).1).length + 1 ≤ ins.length := by
        rw [List.length_drop]
        omega
      simp only [piecesLoop, hf, Bool.false_eq_true, if_false]
      rw [ih (by omega) (show _ ≤ k by omega)]

lemma pieces_of_not_fits (h : fitsOneNode isLeaf ins = false) :
    pieces isLeaf threshold ins = ins.take (splitIndex isLeaf ins threshold).1 ::
      pieces isLeaf threshold (ins.drop (splitIndex isLeaf ins threshold).1) := by
  obtain ⟨h1, h2⟩ := splitIndex_bounds threshold h
  have hpos := minKeys_pos isLeaf
  obtain ⟨k, hk⟩ : ∃ i, ins.length = i + 1 := ⟨ins.length - 1, by omega⟩
  conv_lhs => rw [pieces, hk]
  simp only [piecesLoop, h, Bool.false_eq_true, if_false]
  rw [pieces, piecesLoop_stable _ le_rfl]
  rw [List.length_drop]
  omega

/-- The rule for the pieces of a node: a node that fits, and one that is cut once. -/
lemma pieces_induction {P : List Inode → List (List Inode) → Prop}
    (fits : ∀ ins, fitsOneNode isLeaf ins = true → P ins [ins])
    (cut : ∀ ins k, k = (splitIndex isLeaf ins threshold).1 → fitsOneNode isLeaf ins = false →
      minKeys isLeaf ≤ k → k + minKeys isLeaf + 1 ≤ ins.length →
      P (ins.drop k) (pieces isLeaf threshold (ins.drop k)) →
      P ins (ins.take k :: pieces isLeaf threshold (ins.drop k)))
    (ins : List Inode) : P ins (pieces isLeaf threshold ins) := by
  induction hn : ins.length using Nat.strong_induction_on generalizing ins with
  | _ n ih =>
    cases hf : fitsOneNode isLeaf ins with
    | true =>
      rw [pieces_of_fits hf]
      exact fits ins hf
    | false =>
      obtain ⟨h1, h2⟩ := splitIndex_bounds threshold hf
      have hpos := minKeys_pos isLeaf
      rw [pieces_of_not_fits hf]
      refine cut ins _ rfl hf h1 h2 (ih _ ?_ _ rfl)
      rw [List.length_drop]
      omega

/-- The pieces make up the node. -/
lemma flatten_pieces (ins : List Inode) : (pieces isLeaf threshold ins).flatten = ins := by
  refine pieces_induction (P := fun ins ps => ps.flatten = ins) (fun ins _ => by simp) ?_ ins
  intro ins k _ _ _ _ ih
  rw [List.flatten_cons, ih, List.take_append_drop]

/-- The pieces of a node that is cut keep the minimum number of inodes, and one of them has more. -/
lemma length_le_of_mem_pieces (hne : minKeys isLeaf ≤ ins.length) :
    ∀ l ∈ pieces isLeaf threshold ins, minKeys isLeaf ≤ l.length := by
  refine pieces_induction (P := fun ins ps => minKeys isLeaf ≤ ins.length →
    ∀ l ∈ ps, minKeys isLeaf ≤ l.length) (fun ins _ h l hl => ?_) ?_ ins hne
  · rwa [List.mem_singleton.1 hl]
  · intro ins k _ _ hk hlen ih _ l hl
    rcases List.mem_cons.1 hl with rfl | hl
    · rw [List.length_take]
      omega
    · refine ih ?_ l hl
      rw [List.length_drop]
      omega

lemma ne_nil_of_mem_pieces (hne : ins ≠ []) : ∀ l ∈ pieces isLeaf threshold ins, l ≠ [] := by
  have hpos := minKeys_pos isLeaf
  refine pieces_induction (P := fun ins ps => ins ≠ [] → ∀ l ∈ ps, l ≠ [])
    (fun ins _ h l hl => ?_) ?_ ins hne
  · rwa [List.mem_singleton.1 hl]
  · intro ins k _ _ hk hlen ih _ l hl
    rcases List.mem_cons.1 hl with rfl | hl
    · rw [← List.length_pos_iff, List.length_take]
      omega
    · refine ih ?_ l hl
      rw [← List.length_pos_iff, List.length_drop]
      omega

/-- There are fewer pieces than inodes. -/
lemma length_pieces (h : 2 ≤ ins.length) :
    (pieces isLeaf threshold ins).length < ins.length := by
  refine pieces_induction (P := fun ins ps => 2 ≤ ins.length → ps.length < ins.length)
    (fun ins _ h => ?_) ?_ ins h
  · rw [List.length_singleton]
    omega
  · intro ins k _ _ hk hlen ih _
    have hpos := minKeys_pos isLeaf
    have := ih (by rw [List.length_drop]; omega)
    rw [List.length_drop] at this
    rw [List.length_cons]
    omega

lemma pieces_ne_nil (isLeaf : Bool) (threshold : Int) (ins : List Inode) :
    pieces isLeaf threshold ins ≠ [] := by
  refine pieces_induction (P := fun _ ps => ps ≠ []) ?_ ?_ ins <;> simp

lemma two_le_length_pieces (h : fitsOneNode isLeaf ins = false) :
    2 ≤ (pieces isLeaf threshold ins).length := by
  rw [pieces_of_not_fits h, List.length_cons]
  have := List.length_pos_iff.2 (pieces_ne_nil isLeaf threshold
    (ins.drop (splitIndex isLeaf ins threshold).1))
  omega

/-- Every piece but the last is within the threshold or has the minimum number of inodes. -/
lemma size_le_of_mem_dropLast_pieces (ins : List Inode) :
    ∀ l ∈ (pieces isLeaf threshold ins).dropLast,
      (size l : Int) ≤ threshold ∨ l.length = minKeys isLeaf := by
  refine pieces_induction (P := fun _ ps => ∀ l ∈ ps.dropLast,
    (size l : Int) ≤ threshold ∨ l.length = minKeys isLeaf) (fun ins _ l hl => by cases hl) ?_ ins
  intro ins k hk hf _ _ ih l hl
  rw [List.dropLast_cons_of_ne_nil (pieces_ne_nil _ _ _)] at hl
  rcases List.mem_cons.1 hl with rfl | hl
  · exact size_take_splitIndex hf hk
  · exact ih l hl

/-- The last piece stays in one piece. -/
lemma fits_of_getLast_pieces (ins : List Inode) :
    ∀ l ∈ (pieces isLeaf threshold ins).getLast?, fitsOneNode isLeaf l = true := by
  refine pieces_induction (P := fun _ ps => ∀ l ∈ ps.getLast?, fitsOneNode isLeaf l = true)
    (fun ins hf l hl => ?_) ?_ ins
  · cases hl
    exact hf
  · intro ins k _ _ _ _ ih l hl
    rw [List.getLast?_cons_of_ne_nil (pieces_ne_nil _ _ _)] at hl
    exact ih l hl

/-! Whether and where a node is cut depends on the sizes of its inodes only. -/

section
variable {f : Inode → Inode}

lemma sizeLessThanLoop_map {v sz : Nat} (hf : ∀ i ∈ ins, (f i).size = i.size) :
    sizeLessThanLoop v sz (ins.map f) = sizeLessThanLoop v sz ins := by
  induction ins generalizing sz with
  | nil => rfl
  | cons x l ih =>
    simp only [List.map_cons, sizeLessThanLoop, hf x (by simp),
      ih fun i hi => hf i (List.mem_cons_of_mem _ hi)]

lemma splitIndexLoop_map {m i index sz : Nat} (hf : ∀ i ∈ ins, (f i).size = i.size) :
    splitIndexLoop m threshold (ins.map f) i index sz =
      splitIndexLoop m threshold ins i index sz := by
  induction ins generalizing i index sz with
  | nil => rfl
  | cons x l ih =>
    simp only [List.map_cons, splitIndexLoop, hf x (by simp),
      ih fun i hi => hf i (List.mem_cons_of_mem _ hi)]

lemma fitsOneNode_map (hf : ∀ i ∈ ins, (f i).size = i.size) :
    fitsOneNode isLeaf (ins.map f) = fitsOneNode isLeaf ins := by
  unfold fitsOneNode sizeLessThan
  rw [List.length_map, sizeLessThanLoop_map hf]

lemma pieces_map (hf : ∀ i ∈ ins, (f i).size = i.size) :
    pieces isLeaf threshold (ins.map f) = (pieces isLeaf threshold ins).map (List.map f) := by
  unfold pieces
  rw [List.length_map]
  generalize ins.length = k
  induction k generalizing ins with
  | zero => rfl
  | succ k ih =>
    have hidx : splitIndex isLeaf (ins.map f) threshold = splitIndex isLeaf ins threshold := by
      unfold splitIndex
      rw [List.length_map, ← List.map_take, splitIndexLoop_map fun i hi =>
        hf i (List.mem_of_mem_take hi)]
    simp only [piecesLoop, fitsOneNode_map hf, hidx]
    split
    · rfl
    · rw [← List.map_drop, ih fun i hi => hf i (List.mem_of_mem_drop hi), List.map_cons,
        List.map_take]

end

end

end Node

/-- The node `n` keeps the inodes `left`, and the new node `w.nextNode` gets the inodes `right`. -/
structure Halved (w : World) (b : BucketId) (n p : NodeId) (left right : List Inode) (w' : World) :
    Prop where
  quiet : Quiet b w w'
  nextNode : w'.nextNode = w.nextNode + 1
  bucket : w'.buckets b = { w.buckets b with dirty := insert w.nextNode (w.buckets b).dirty }
  self : w'.nodes n = { w.nodes n with inodes := (w'.nodes n).inodes }
  next : w'.nodes w.nextNode =
    { bucket := some b, isLeaf := (w.nodes n).isLeaf, unbalanced := false, spilled := false
      key := [], parent := some p, inodes := (w'.nodes w.nextNode).inodes }
  other : ∀ m, m ≠ n → m ≠ w.nextNode → w'.nodes m = w.nodes m
  inodes_self : w'.inodes n = left
  inodes_next : w'.inodes w.nextNode = right
  view : ∀ m, m < w.nextNode → m ≠ n → w.arr m ≠ w.arr n → w'.inodes m = w.inodes m
  arr_self : w.nextArr ≤ w'.arr n
  arr_next : w.nextArr ≤ w'.arr w.nextNode
  arr_ne : w'.arr n ≠ w'.arr w.nextNode
  nextArr : w.nextArr ≤ w'.nextArr
  sound : w'.Sound

section
variable {w w' : World} {b : BucketId} {n p : NodeId} {fuel : Nat}

/-- A new backing array. -/
lemma cloneInodes_eq (l : List Inode) (hw : w.Sound) :
    ∃ a, cloneInodes l w = (.ok ⟨w.nextArr, l.length⟩,
      { w with arrays := Function.update w.arrays w.nextArr (l ++ a), nextArr := w.nextArr + 1 }) ∧
      World.Sound { w with arrays := Function.update w.arrays w.nextArr (l ++ a),
                           nextArr := w.nextArr + 1 } := by
  refine ⟨List.replicate (if l = [] then 0 else w.rt.spare 0 l.length) default, ?_, hw.cut,
    fun m hm => (hw.arr_lt m hm).trans (Nat.lt_succ_self _), fun m hm => ?_⟩
  · unfold cloneInodes newArr
    simp only [bind_assoc, pure_bind, Prog.read_bind]
    exact Prog.bind_ok (write_eq hw.cut)
  · have h1 : w.arr m ≠ w.nextArr := (hw.arr_lt m hm).ne
    change _ ≤ (Function.update w.arrays w.nextArr _ (w.arr m)).length
    rw [Function.update_of_ne h1]
    exact hw.len_le m hm

/-- Clearing the inodes of a node changes the slots of its backing array only. -/
lemma clearInodes_eq (hw : w.Sound) :
    ∃ l, clearInodes n w = (.ok (), w.setArr (w.arr n) l) ∧
      l.length = (w.arrays (w.arr n)).length := by
  have loop : ∀ (idx : List Nat) (l : List Inode), (∀ i ∈ idx, i < (w.nodes n).inodes.len) →
      l.length = (w.arrays (w.arr n)).length →
      ∃ l', Prog.each (fun i => modifyInode n i fun _ => default) idx (w.setArr (w.arr n) l) =
        (.ok (), w.setArr (w.arr n) l') ∧ l'.length = (w.arrays (w.arr n)).length := by
    intro idx
    induction idx with
    | nil => exact fun l _ hl => ⟨l, rfl, hl⟩
    | cons i idx ih =>
      intro l hi hl
      have e : modifyInode n i (fun _ => default) (w.setArr (w.arr n) l) =
          (.ok (), w.setArr (w.arr n) (l.modify i fun _ => default)) := by
        have hlt : i < ((w.setArr (w.arr n) l).nodes n).inodes.len := hi i (by simp)
        unfold modifyInode
        rw [Prog.read_bind, if_pos hlt]
        refine (write_eq (w := w.setArr (w.arr n) l) hw.cut).trans (congrArg (Prod.mk _) ?_)
        unfold World.setArr
        congr 1
        funext a
        by_cases ea : a = w.arr n
        · subst ea
          simp [World.arr]
        · have ea' : a ≠ (w.nodes n).inodes.arr := ea
          simp [World.arr, ea']
      obtain ⟨l', e', hl'⟩ := ih (l.modify i fun _ => default) (fun j hj => hi j (by simp [hj]))
        (by rwa [List.length_modify])
      exact ⟨l', (Prog.bind_ok e).trans e', hl'⟩
  obtain ⟨l, e, hl⟩ := loop (List.range (w.nodes n).inodes.len) (w.arrays (w.arr n))
    (fun i hi => List.mem_range.1 hi) rfl
  refine ⟨l, ?_, hl⟩
  have hself : w.setArr (w.arr n) (w.arrays (w.arr n)) = w := by
    unfold World.setArr
    rw [Function.update_eq_self]
  rw [hself] at e
  unfold clearInodes
  rw [Prog.read_bind]
  exact e

/-- The parent of a node that has one. -/
lemma parentForSplit_eq (hp : (w.nodes n).parent = some p) :
    Node.parentForSplit b n w = (.ok p, w) := by
  unfold Node.parentForSplit nodeOf
  rw [Prog.read_bind, hp]
  rfl

/-- `node.splitTwo` of a node that stays in one piece. -/
lemma splitTwo_eq_none (hf : Node.fitsOneNode (w.nodes n).isLeaf (w.inodes n) = true) :
    Node.splitTwo n w = (.ok none, w) := by
  unfold Node.splitTwo nodeOf inodesOf
  rw [Prog.read_bind, Prog.read_bind, if_pos hf]
  rfl

/-- `node.splitTwo` of a node with a parent that is cut. -/
lemma splitTwo_eq (hw : w.Sound) (hn : n < w.nextNode) (hb : (w.nodes n).bucket = some b)
    (hp : (w.nodes n).parent = some p)
    (hf : Node.fitsOneNode (w.nodes n).isLeaf (w.inodes n) = false) {k : Nat}
    (hk : k = (Node.splitIndex (w.nodes n).isLeaf (w.inodes n)
      (splitThreshold w.rt (w.buckets b).fillPercent)).1) :
    ∃ w', Node.splitTwo n w = (.ok (some w.nextNode), w') ∧
      Halved w b n p ((w.inodes n).take k) ((w.inodes n).drop k) w' := by
  have hne : n ≠ w.nextNode := hn.ne
  obtain ⟨w1, e1, h1⟩ := newNode_nil b (w.nodes n).isLeaf (some p) hw
  obtain ⟨w2, e2, s2, q2, r2, b2⟩ := markDirty_eq (b := b) (n := w.nextNode) h1.sound
  obtain ⟨a3, e3, s3⟩ := cloneInodes_eq ((w.inodes n).take k) s2
  obtain ⟨a4, e4, s4⟩ := cloneInodes_eq ((w.inodes n).drop k) s3
  set A := w2.nextArr with hA
  set w4 : World := { w2 with
    arrays := Function.update (Function.update w2.arrays A ((w.inodes n).take k ++ a3)) (A + 1)
      ((w.inodes n).drop k ++ a4)
    nextArr := A + 1 + 1 } with hw4
  obtain ⟨l5, e5, hl5⟩ := clearInodes_eq (n := n) s4
  have hnodes : w2.nodes = w1.nodes := by rw [r2]
  have harr2 : w2.arrays = w1.arrays := by rw [r2]
  have hnext2 : w2.nextArr = w1.nextArr := by rw [r2]
  have hnn2 : w2.nextNode = w.nextNode + 1 := by rw [r2]; exact h1.nextNode
  have hAle : w.nextArr ≤ A := by rw [hA, hnext2]; exact h1.nextArr
  have old : ∀ m, m < w.nextNode → w2.nodes m = w.nodes m ∧ w.arr m < A := fun m hm =>
    ⟨by rw [hnodes, h1.other m hm.ne], (hw.arr_lt m hm).trans_le hAle⟩
  have harrn : w4.arr n = w.arr n := by
    change ((w2.nodes n).inodes.arr) = _
    rw [(old n hn).1]
    rfl
  set L : Slice := ⟨A, ((w.inodes n).take k).length⟩ with hL
  set R : Slice := ⟨A + 1, ((w.inodes n).drop k).length⟩ with hR
  set w7 : World := { w4 with
    nodes := Function.update (Function.update w2.nodes n { w2.nodes n with inodes := L }) w.nextNode
      { w2.nodes w.nextNode with inodes := R }
    arrays := Function.update w4.arrays (w.arr n) l5 } with hw7
  have hn7 : w7.nodes n = { w2.nodes n with inodes := L } := by simp [hw7, hne]
  have hx7 : w7.nodes w.nextNode = { w2.nodes w.nextNode with inodes := R } := by simp [hw7]
  have ho7 : ∀ m, m ≠ n → m ≠ w.nextNode → w7.nodes m = w2.nodes m := fun m h1 h2 => by
    simp [hw7, h1, h2]
  have ha : ∀ a, a ≠ w.arr n → a ≠ A → a ≠ A + 1 → w7.arrays a = w2.arrays a := fun a h1 h2 h3 => by
    simp [hw7, hw4, h1, h2, h3]
  have haA : w7.arrays A = (w.inodes n).take k ++ a3 := by
    have : A ≠ w.arr n := (old n hn).2.ne'
    simp [hw7, hw4, this]
  have haA1 : w7.arrays (A + 1) = (w.inodes n).drop k ++ a4 := by
    have : A + 1 ≠ w.arr n := ((old n hn).2.trans (Nat.lt_succ_self _)).ne'
    simp [hw7, hw4, this]
  refine ⟨w7, ?_, ?_⟩
  · unfold Node.splitTwo nodeOf inodesOf bucketOf
    rw [Prog.read_bind, Prog.read_bind, if_neg (by simp [hf]), hb]
    change ((Node.parentForSplit b n >>= _) w) = _
    rw [Prog.bind_ok (parentForSplit_eq hp), ← bind_assoc, Prog.bind_ok e1, Prog.bind_ok e2, ← hk,
      Prog.bind_ok e3, Prog.bind_ok e4, Prog.bind_ok e5]
    have e6 : modifyNode n (fun nd => { nd with inodes := L }) (w4.setArr (w4.arr n) l5) =
        (.ok (), (w4.setArr (w4.arr n) l5).setNode n { w2.nodes n with inodes := L }) :=
        write_eq s4.cut
    have e7 : modifyNode w.nextNode (fun nd => { nd with inodes := R })
        ((w4.setArr (w4.arr n) l5).setNode n { w2.nodes n with inodes := L }) = (.ok (), w7) := by
      have hc : ((w4.setArr (w4.arr n) l5).setNode n { w2.nodes n with inodes := L }).cut =
          none := s4.cut
      refine (write_eq hc).trans (congrArg (Prod.mk _) ?_)
      have hx :
          ((w4.setArr (w4.arr n) l5).setNode n { w2.nodes n with inodes := L }).nodes w.nextNode =
          w2.nodes w.nextNode := Function.update_of_ne hne.symm _ _
      rw [hx, harrn]
      rfl
    rw [Prog.bind_ok e6, Prog.bind_ok e7]
    rfl
  · have hview : ∀ m, m < w.nextNode → m ≠ n → w.arr m ≠ w.arr n → w7.inodes m = w.inodes m := by
      intro m hm hmn hma
      obtain ⟨hnode, hlt⟩ := old m hm
      rw [← h1.view m hm, World.inodes, World.inodes, ho7 m hmn hm.ne, hnode, h1.other m hm.ne,
        show (w.nodes m).inodes.arr = w.arr m from rfl,
          ha _ hma hlt.ne (hlt.trans (Nat.lt_succ_self _)).ne, harr2]
    refine ⟨?_, ?_, ?_, ?_, ?_, fun m hmn hmx => ?_, ?_, ?_, hview, ?_, ?_, ?_, ?_, ?_⟩
    · exact (h1.quiet.trans q2).trans ⟨rfl, rfl, rfl, rfl, rfl, fun _ _ => rfl, rfl, rfl, rfl⟩
    · exact hnn2
    · exact b2.trans (by rw [h1.buckets])
    · rw [hn7, (old n hn).1]
    · rw [hx7, hnodes, h1.self]
    · rw [ho7 m hmn hmx, hnodes, h1.other m hmx]
    · rw [World.inodes, hn7]
      change (w7.arrays A).take _ = _
      rw [haA]
      simp [hL]
    · rw [World.inodes, hx7]
      change (w7.arrays (A + 1)).take _ = _
      rw [haA1]
      simp [hR]
    · rw [World.arr, hn7]
      exact hAle
    · rw [World.arr, hx7]
      exact hAle.trans (Nat.le_succ _)
    · rw [World.arr, World.arr, hn7, hx7]
      exact (Nat.lt_succ_self A).ne
    · exact hAle.trans (Nat.le_succ_of_le (Nat.le_succ _))
    · refine ⟨s4.cut, fun m hm => ?_, fun m hm => ?_⟩ <;> by_cases hmn : m = n
      · subst hmn
        rw [World.arr, hn7]
        exact Nat.lt_succ_of_lt (Nat.lt_succ_self A)
      · by_cases hmx : m = w.nextNode
        · subst hmx
          rw [World.arr, hx7]
          exact Nat.lt_succ_self (A + 1)
        · rw [World.arr, ho7 m hmn hmx]
          exact s4.arr_lt m hm
      · subst hmn
        rw [World.arr, hn7]
        change _ ≤ (w7.arrays A).length
        rw [haA, List.length_append]
        exact Nat.le_add_right _ _
      · by_cases hmx : m = w.nextNode
        · subst hmx
          rw [World.arr, hx7]
          change _ ≤ (w7.arrays (A + 1)).length
          rw [haA1, List.length_append]
          exact Nat.le_add_right _ _
        · rw [World.arr, ho7 m hmn hmx]
          have hlen := s4.len_le m hm
          change (w2.nodes m).inodes.len ≤ (w4.arrays (w2.nodes m).inodes.arr).length at hlen
          by_cases hma : (w2.nodes m).inodes.arr = w.arr n
          · rw [hma] at hlen ⊢
            rw [harrn] at hl5
            simp only [hw7, Function.update_self, hl5]
            exact hlen
          · simp only [hw7, Function.update_of_ne hma]
            exact hlen

/-! ## All pieces -/

/-- The fields of a node that a split has made. -/
def Node.sibling (nd : Node) (b : BucketId) (p : NodeId) : Node :=
  { bucket := some b, isLeaf := nd.isLeaf, unbalanced := false, spilled := false, key := [],
    parent := some p, inodes := default }

/-- The node `n` was cut into the pieces `ps`: it keeps the first one, the others are new nodes. -/
structure Cut (w : World) (b : BucketId) (n p : NodeId) (ps : List (NodeId × List Inode))
    (w' : World) : Prop where
  quiet : Quiet b w w'
  nextNode : w.nextNode ≤ w'.nextNode
  nextArr : w.nextArr ≤ w'.nextArr
  rootNode : (w'.buckets b).rootNode = (w.buckets b).rootNode
  dirty : ∀ m, m ∈ (w'.buckets b).dirty ↔ m ∈ (w.buckets b).dirty ∨ m ∈ ps.tail.map Prod.fst
  head : ∃ l, ps.head? = some (n, l)
  new : ∀ x ∈ ps.tail, w.nextNode ≤ x.1 ∧ x.1 < w'.nextNode
  nodup : (ps.map Prod.fst).Nodup
  self : w'.nodes n = { w.nodes n with inodes := (w'.nodes n).inodes }
  next : ∀ x ∈ ps.tail, w'.nodes x.1 =
    { (w.nodes n).sibling b p with inodes := (w'.nodes x.1).inodes }
  other : ∀ m, m < w.nextNode → m ≠ n → w'.nodes m = w.nodes m
  inodes : ∀ x ∈ ps, w'.inodes x.1 = x.2
  view : ∀ m, m < w.nextNode → m ≠ n → w.arr m ≠ w.arr n → w'.inodes m = w.inodes m
  arr : ∀ x ∈ ps, w'.arr x.1 = w.arr n ∨ w.nextArr ≤ w'.arr x.1
  sep : ps.Pairwise fun x y => w'.arr x.1 ≠ w'.arr y.1
  sound : w'.Sound

/-- A node that stays in one piece. -/
lemma Cut.single (hw : w.Sound) : Cut w b n p [(n, w.inodes n)] w where
  quiet := .refl b w
  nextNode := le_rfl
  nextArr := le_rfl
  rootNode := rfl
  dirty m := by simp
  head := ⟨_, rfl⟩
  new := by simp
  nodup := by simp
  self := rfl
  next := by simp
  other _ _ _ := rfl
  inodes := by simp
  view _ _ _ _ := rfl
  arr := by simp
  sep := by simp
  sound := hw

/-- One cut more in front. -/
lemma Halved.cut {w1 : World} {left right : List Inode} {ps : List (NodeId × List Inode)}
    (hw : w.Sound) (hn : n < w.nextNode) (h1 : Halved w b n p left right w1)
    (h2 : Cut w1 b w.nextNode p ps w') : Cut w b n p ((n, left) :: ps) w' := by
  obtain ⟨l, hl⟩ := h2.head
  obtain ⟨ps, rfl⟩ : ∃ qs, ps = (w.nextNode, l) :: qs := by
    cases ps with
    | nil => cases hl
    | cons x qs =>
      cases hl
      exact ⟨qs, rfl⟩
  have hne : n ≠ w.nextNode := hn.ne
  have hlt1 : ∀ m, m < w.nextNode → m < w1.nextNode := fun m hm => by
    rw [h1.nextNode]
    exact Nat.lt_succ_of_lt hm
  have hnode : w'.nodes n = w1.nodes n := h2.other n (hlt1 n hn) hne
  have hself : w'.inodes n = left := by
    rw [h2.view n (hlt1 n hn) hne h1.arr_ne, h1.inodes_self]
  have harrn : w'.arr n = w1.arr n := congrArg (fun nd : Node => nd.inodes.arr) hnode
  have hle : w.nextNode ≤ w1.nextNode := by
    rw [h1.nextNode]
    exact Nat.le_succ _
  -- the arrays of the other pieces are the new one of the second half, or newer
  have hnewArr : ∀ x ∈ (w.nextNode, l) :: ps, w.nextArr ≤ w'.arr x.1 ∧ w'.arr n ≠ w'.arr x.1 := by
    intro x hx
    rcases h2.arr x hx with e | e
    · rw [e, harrn]
      exact ⟨h1.arr_next, h1.arr_ne⟩
    · refine ⟨h1.nextArr.trans e, ?_⟩
      rw [harrn]
      exact ((h1.sound.arr_lt n (hlt1 n hn)).trans_le e).ne
  have hnew : ∀ x ∈ (w.nextNode, l) :: ps, w.nextNode ≤ x.1 ∧ x.1 < w'.nextNode := by
    intro x hx
    rcases List.mem_cons.1 hx with rfl | hx
    · refine ⟨le_rfl, ?_⟩
      have : w.nextNode < w1.nextNode := by
        rw [h1.nextNode]
        exact Nat.lt_succ_self _
      exact this.trans_le h2.nextNode
    · exact ⟨hle.trans (h2.new x hx).1, (h2.new x hx).2⟩
  refine ⟨h1.quiet.trans h2.quiet, hle.trans h2.nextNode, h1.nextArr.trans h2.nextArr, ?_,
    fun m => ?_, ⟨left, rfl⟩, hnew, ?_, ?_, fun x hx => ?_, fun m hm hmn => ?_, fun x hx => ?_,
    fun m hm hmn hma => ?_, fun x hx => ?_, ?_, h2.sound⟩
  · rw [h2.rootNode, h1.bucket]
  · rw [h2.dirty, h1.bucket]
    simp only [Finset.mem_insert, List.tail_cons, List.map_cons, List.mem_cons]
    tauto
  · rw [List.map_cons, List.nodup_cons]
    refine ⟨fun hm => ?_, h2.nodup⟩
    obtain ⟨x, hx, e⟩ := List.mem_map.1 hm
    exact absurd ((hnew x hx).1.trans_eq e) (not_le.2 hn)
  · rw [hnode, h1.self]
  · rcases List.mem_cons.1 hx with rfl | hx
    · rw [h2.self, h1.next]
      rfl
    · rw [h2.next x hx, h1.next]
      rfl
  · rw [h2.other m (hlt1 m hm) hm.ne, h1.other m hmn hm.ne]
  · rcases List.mem_cons.1 hx with rfl | hx
    · exact hself
    · exact h2.inodes x hx
  · have ha1 : w1.arr m ≠ w1.arr w.nextNode := by
      have : w1.arr m = w.arr m := congrArg (fun nd : Node => nd.inodes.arr) (h1.other m hmn hm.ne)
      rw [this]
      exact ((hw.arr_lt m hm).trans_le h1.arr_next).ne
    rw [h2.view m (hlt1 m hm) hm.ne ha1, h1.view m hm hmn hma]
  · rcases List.mem_cons.1 hx with rfl | hx
    · exact .inr (harrn ▸ h1.arr_self)
    · exact .inr (hnewArr x hx).1
  · exact List.pairwise_cons.2 ⟨fun x hx => (hnewArr x hx).2, h2.sep⟩

/-- `node.split` of a node with a parent. -/
lemma split_eq (hw : w.Sound) (hn : n < w.nextNode) (hb : (w.nodes n).bucket = some b)
    (hp : (w.nodes n).parent = some p) :
    ∃ ps w', Prog.Evals (fun k => Node.split k n) w (ps.map Prod.fst) w' ∧
      ps.map Prod.snd = Node.pieces (w.nodes n).isLeaf
        (splitThreshold w.rt (w.buckets b).fillPercent) (w.inodes n) ∧ Cut w b n p ps w' := by
  induction hl : (w.inodes n).length using Nat.strong_induction_on generalizing w n with
  | _ len ih =>
    cases hf : Node.fitsOneNode (w.nodes n).isLeaf (w.inodes n) with
    | true =>
      refine ⟨[(n, w.inodes n)], w, ?_, ?_, .single hw⟩
      · refine Prog.Evals.step (f := fun _ => pure [n]) (Prog.Evals.pure (s := w)) fun k => ?_
        rw [Node.split, Prog.bind_ok (splitTwo_eq_none hf)]
      · rw [Node.pieces_of_fits hf]
        rfl
    | false =>
      obtain ⟨w1, e1, h1⟩ := splitTwo_eq hw hn hb hp hf rfl
      obtain ⟨hk1, hk2⟩ := Node.splitIndex_bounds
        (splitThreshold w.rt (w.buckets b).fillPercent) hf
      set k := (Node.splitIndex (w.nodes n).isLeaf (w.inodes n)
        (splitThreshold w.rt (w.buckets b).fillPercent)).1 with hk
      have hpos := Node.minKeys_pos (w.nodes n).isLeaf
      have hlt : w.nextNode < w1.nextNode := by
        rw [h1.nextNode]
        exact Nat.lt_succ_self _
      obtain ⟨ps, w', e2, hps, h2⟩ := ih ((w.inodes n).drop k).length
        (by rw [List.length_drop]; omega) h1.sound hlt (by rw [h1.next]) (by rw [h1.next])
        (by rw [h1.inodes_next])
      refine ⟨(n, (w.inodes n).take k) :: ps, w', ?_, ?_, h1.cut hw hn h2⟩
      · refine Prog.Evals.step
          (f := fun k => Node.split k w.nextNode >>= fun rest => pure (n :: rest))
          (e2.bind Prog.Evals.pure) fun k => ?_
        rw [Node.split, Prog.bind_ok e1]
      · rw [List.map_cons, hps, Node.pieces_of_not_fits hf, h1.next, h1.inodes_next, h1.quiet.rt,
          h1.quiet.fillPercent]

end

end Vmbolt
