import Vmbolt.Effect.Split

/-!
# The effect of entering the pieces of a node into its parent

The second loop of `node.finalize` marks every piece of a node as spilled and enters it into the
parent under its first key. In a parent whose inodes leave room for the keys of the node, the pieces
stand one behind the other in place of the node.
-/

namespace Vmbolt

/-- The piece `x` with the first inode `i` was marked as spilled and entered into `p`. -/
structure Entered (w : World) (p x : NodeId) (i : Inode) (w' : World) : Prop where
  rest : w' = { w with nodes := w'.nodes, arrays := w'.arrays, nextArr := w'.nextArr }
  self : w'.nodes x = { w.nodes x with spilled := true, key := i.key }
  parent : w'.nodes p = { w.nodes p with inodes := (w'.nodes p).inodes }
  other : ∀ m, m ≠ x → m ≠ p → w'.nodes m = w.nodes m
  inodes_parent : w'.inodes p = putInodes (w.inodes p)
    (if (w.nodes x).key = [] then i.key else (w.nodes x).key) ⟨i.key, none, some x⟩
  view : ∀ m, m ≠ p → m < w.nextNode → w.arr m ≠ w.arr p → w'.inodes m = w.inodes m
  arr : w'.arr p = w.arr p ∨ w.nextArr ≤ w'.arr p
  nextArr : w.nextArr ≤ w'.nextArr
  sound : w'.Sound

/-- The key of the first inode. -/
def firstKey (l : List Inode) : Bytes := (l.headD default).key

/-- The inode of a parent for a piece. -/
def stub (x : NodeId × List Inode) : Inode := ⟨firstKey x.2, none, some x.1⟩

/-- The pieces `ps` were marked as spilled and entered into `p`. -/
structure EnteredAll (w : World) (p : NodeId) (ps : List (NodeId × List Inode)) (w' : World) :
    Prop where
  rest : w' = { w with nodes := w'.nodes, arrays := w'.arrays, nextArr := w'.nextArr }
  self : ∀ x ∈ ps, w'.nodes x.1 = { w.nodes x.1 with spilled := true, key := firstKey x.2 }
  parent : w'.nodes p = { w.nodes p with inodes := (w'.nodes p).inodes }
  other : ∀ m, m ∉ ps.map Prod.fst → m ≠ p → w'.nodes m = w.nodes m
  view : ∀ m, m ≠ p → m < w.nextNode → w.arr m ≠ w.arr p → w'.inodes m = w.inodes m
  arr : w'.arr p = w.arr p ∨ w.nextArr ≤ w'.arr p
  nextArr : w.nextArr ≤ w'.nextArr
  sound : w'.Sound

/-- The conditions on pieces that are to be entered into `p`. -/
structure Enterable (w : World) (p : NodeId) (ps : List (NodeId × List Inode)) : Prop where
  nodup : (ps.map Prod.fst).Nodup
  lt : ∀ x ∈ ps, x.1 < w.nextNode
  ne : ∀ x ∈ ps, x.1 ≠ p
  parent : ∀ x ∈ ps, (w.nodes x.1).parent = some p
  inodes : ∀ x ∈ ps, w.inodes x.1 = x.2
  nonempty : ∀ x ∈ ps, x.2 ≠ []
  key_ne : ∀ x ∈ ps, firstKey x.2 ≠ []
  arr : ∀ x ∈ ps, w.arr x.1 ≠ w.arr p

/-- The node `n` got the new node `w.nextNode` as its parent. -/
structure Planted (w : World) (b : BucketId) (n : NodeId) (w' : World) : Prop where
  quiet : Quiet b w w'
  nextNode : w'.nextNode = w.nextNode + 1
  bucket : w'.buckets b = { w.buckets b with dirty := insert w.nextNode (w.buckets b).dirty }
  self : w'.nodes n = { w.nodes n with parent := some w.nextNode }
  parent : w'.nodes w.nextNode =
    { bucket := some b, isLeaf := false, unbalanced := false, spilled := false, key := [],
      parent := none, inodes := (w'.nodes w.nextNode).inodes }
  other : ∀ m, m < w.nextNode → m ≠ n → w'.nodes m = w.nodes m
  empty : w'.inodes w.nextNode = []
  view : ∀ m, m < w.nextNode → w'.inodes m = w.inodes m
  arr : w.nextArr ≤ w'.arr w.nextNode
  sound : w'.Sound

/-- The node `n` was cut into the pieces `ps`, and these were entered into `p`. -/
structure Spilt (w : World) (b : BucketId) (n p : NodeId) (ps : List (NodeId × List Inode))
    (w' : World) : Prop where
  quiet : Quiet b w w'
  nextNode : w.nextNode ≤ w'.nextNode
  rootNode : (w'.buckets b).rootNode = (w.buckets b).rootNode
  dirty : ∀ m, m ∈ (w'.buckets b).dirty ↔ m ∈ (w.buckets b).dirty ∨ m ∈ ps.tail.map Prod.fst
  new : ∀ x ∈ ps.tail, w.nextNode ≤ x.1 ∧ x.1 < w'.nextNode
  nodup : (ps.map Prod.fst).Nodup
  piece : ∀ x ∈ ps, (w'.nodes x.1).bucket = some b ∧ (w'.nodes x.1).isLeaf = (w.nodes n).isLeaf ∧
    (w'.nodes x.1).spilled = true ∧ (w'.nodes x.1).key = firstKey x.2 ∧
    (w'.nodes x.1).parent = some p ∧ w'.inodes x.1 = x.2
  parent : w'.nodes p = { w.nodes p with inodes := (w'.nodes p).inodes }
  other : ∀ m, m < w.nextNode → m ≠ n → m ≠ p → w'.nodes m = w.nodes m
  view : ∀ m, m < w.nextNode → m ≠ n → m ≠ p → w.arr m ≠ w.arr n → w.arr m ≠ w.arr p →
    w'.inodes m = w.inodes m
  arr : w'.arr p = w.arr p ∨ w.nextArr ≤ w'.arr p
  arr_piece : ∀ x ∈ ps, w'.arr x.1 ≠ w'.arr p
  arr_new : ∀ x ∈ ps, w'.arr x.1 = w.arr n ∨ w.nextArr ≤ w'.arr x.1
  sound : w'.Sound

section
variable {w w' : World} {b : BucketId} {n p x : NodeId} {i : Inode} {l : List Inode}

/-- Write fields of a node other than its inodes. -/
lemma setFields_eq {f : Node → Node} (hw : w.Sound) (hn : n < w.nextNode)
    (hf : (f (w.nodes n)).inodes = (w.nodes n).inodes) :
    modifyNode n f w = (.ok (), w.setNode n (f (w.nodes n))) ∧
      (w.setNode n (f (w.nodes n))).Sound ∧
      ∀ m, (w.setNode n (f (w.nodes n))).inodes m = w.inodes m ∧
        (w.setNode n (f (w.nodes n))).arr m = w.arr m := by
  have e : modifyNode n f w = (.ok (), w.setNode n (f (w.nodes n))) := write_eq hw.cut
  obtain ⟨w', e', u⟩ := modifyNode_eq hw hn hf
  rw [e] at e'
  cases e'
  refine ⟨e, u.sound, fun m => ?_⟩
  have : ((w.setNode n (f (w.nodes n))).nodes m).inodes = (w.nodes m).inodes := by
    by_cases em : m = n
    · subst em
      simpa [World.setNode] using hf
    · simp [World.setNode, em]
  unfold World.inodes World.arr
  rw [this]
  exact ⟨rfl, rfl⟩

/-- The body of the second loop of `node.finalize`, for a piece with a parent. -/
lemma finalizePiece_eq (hw : w.Sound) (hx : x < w.nextNode) (hp : p < w.nextNode) (hne : x ≠ p)
    (hpar : (w.nodes x).parent = some p) (hins : w.inodes x = i :: l) (hkey : i.key ≠ [])
    (harr : w.arr x ≠ w.arr p) :
    ∃ w', Node.finalizePiece x w = (.ok (), w') ∧ Entered w p x i w' := by
  obtain ⟨e1, s1, v1⟩ := setFields_eq (f := fun nd => { nd with spilled := true }) hw hx rfl
  set w1 := w.setNode x { w.nodes x with spilled := true } with hw1
  have hx1 : w1.nodes x = { w.nodes x with spilled := true } := by simp [hw1, World.setNode]
  have ho1 : ∀ m, m ≠ x → w1.nodes m = w.nodes m := fun m hm => by simp [hw1, World.setNode, hm]
  have hold : (if (w.nodes x).key = [] then i.key else (w.nodes x).key) ≠ [] := by
    split
    · exact hkey
    next h => exact h
  obtain ⟨w2, e2, u2⟩ := put_eq (n := p) (v := none) (c := some x) s1 hp hold hkey
  have hx2 : w2.nodes x = w1.nodes x := u2.other x hne
  have hins2 : w2.inodes x = i :: l := by
    rw [u2.view x hne hx (by rw [(v1 x).2, (v1 p).2]; exact harr), (v1 x).1, hins]
  have hxlt2 : x < w2.nextNode := by
    rw [u2.nextNode]
    exact hx
  obtain ⟨e3, s3, v3⟩ := setFields_eq (f := fun nd => { nd with key := i.key }) u2.sound hxlt2 rfl
  set w3 := w2.setNode x { w2.nodes x with key := i.key } with hw3
  have hx3 : w3.nodes x = { w2.nodes x with key := i.key } := by simp [hw3, World.setNode]
  have ho3 : ∀ m, m ≠ x → w3.nodes m = w2.nodes m := fun m hm => by simp [hw3, World.setNode, hm]
  refine ⟨w3, ?_, ?_⟩
  · have hlen : ∀ k : Bytes, k.length = 0 ↔ k = [] := fun k => List.length_eq_zero_iff
    have hpos : 0 < i.key.length := List.length_pos_iff.2 hkey
    unfold Node.finalizePiece nodeOf inodesOf
    rw [Prog.bind_ok e1, Prog.read_bind, hx1, hpar]
    dsimp only
    rw [Prog.read_bind, (v1 x).1, hins, if_neg (by simp)]
    simp only [hlen, List.getD_cons_zero]
    rw [if_neg hold, if_neg (by simp), Prog.bind_ok e2, Prog.read_bind, hins2, if_neg (by simp)]
    refine (Prog.bind_ok e3).trans ?_
    rw [List.getD_cons_zero, Prog.assert_pos hpos]
    rfl
  · refine ⟨?_, ?_, ?_, fun m hmx hmp => ?_, ?_, fun m hmp hm hma => ?_, ?_, u2.nextArr, s3⟩
    · rw [hw3, u2.rest]
      rfl
    · rw [hx3, hx2, hx1]
    · rw [ho3 p hne.symm]
      have := u2.self
      rw [ho1 p hne.symm] at this
      exact this
    · rw [ho3 m hmx, u2.other m hmp, ho1 m hmx]
    · rw [(v3 p).1, u2.inodes, (v1 p).1]
    · rw [(v3 m).1, u2.view m hmp hm (by rw [(v1 m).2, (v1 p).2]; exact hma), (v1 m).1]
    · rw [(v3 p).2, ← (v1 p).2]
      exact u2.arr

variable {ps : List (NodeId × List Inode)} {y : NodeId × List Inode} {l1 l2 : List Inode}

namespace Entered

lemma nextNode (h : Entered w p x i w') : w'.nextNode = w.nextNode := by rw [h.rest]

lemma arr_other (h : Entered w p x i w') {m : NodeId} (hm : m ≠ p) : w'.arr m = w.arr m := by
  unfold World.arr
  by_cases e : m = x
  · rw [e, h.self]
  · rw [h.other m e hm]

/-- The array of the parent stays apart from the others. -/
lemma arr_ne (h : Entered w p x i w') (hw : w.Sound) {m : NodeId} (hm : m ≠ p)
    (hlt : m < w.nextNode) (ha : w.arr m ≠ w.arr p) : w'.arr m ≠ w'.arr p := by
  rw [h.arr_other hm]
  rcases h.arr with e | e
  · rwa [e]
  · exact ((hw.arr_lt m hlt).trans_le e).ne

/-- The pieces that are still to be entered. -/
lemma enterable (h : Entered w p x i w') (hw : w.Sound) (hx : x ∉ ps.map Prod.fst)
    (hps : Enterable w p ps) : Enterable w' p ps := by
  have hnode : ∀ y ∈ ps, w'.nodes y.1 = w.nodes y.1 := fun y hy =>
    h.other _ (fun e => hx (e ▸ List.mem_map_of_mem hy)) (hps.ne y hy)
  refine ⟨hps.nodup, fun y hy => ?_, hps.ne, fun y hy => ?_, fun y hy => ?_, hps.nonempty,
    hps.key_ne, fun y hy => h.arr_ne hw (hps.ne y hy) (hps.lt y hy) (hps.arr y hy)⟩
  · rw [h.nextNode]
    exact hps.lt y hy
  · rw [hnode y hy]
    exact hps.parent y hy
  · rw [h.view _ (hps.ne y hy) (hps.lt y hy) (hps.arr y hy)]
    exact hps.inodes y hy

end Entered

/-- One piece more in front. -/
lemma Entered.all (hw : w.Sound) {w1 : World} (h1 : Entered w p y.1 i w1)
    (hi : i.key = firstKey y.2) (hy : y.1 ∉ ps.map Prod.fst) (hyp : y.1 ≠ p)
    (hps : ∀ z ∈ ps, z.1 ≠ p) (h2 : EnteredAll w1 p ps w') : EnteredAll w p (y :: ps) w' := by
  refine ⟨?_, fun z hz => ?_, ?_, fun m hm hmp => ?_, fun m hmp hm hma => ?_, ?_,
    h1.nextArr.trans h2.nextArr, h2.sound⟩
  · rw [h2.rest, h1.rest]
  · rcases List.mem_cons.1 hz with rfl | hz
    · rw [h2.other _ hy hyp, h1.self, hi]
    · have hne : z.1 ≠ y.1 := fun e => hy (e ▸ List.mem_map_of_mem hz)
      rw [h2.self z hz, h1.other _ hne (hps z hz)]
  · rw [h2.parent, h1.parent]
  · simp only [List.map_cons, List.mem_cons, not_or] at hm
    rw [h2.other m hm.2 hmp, h1.other m hm.1 hmp]
  · rw [h2.view m hmp (by rw [h1.nextNode]; exact hm) (h1.arr_ne hw hmp hm hma),
      h1.view m hmp hm hma]
  · rcases h2.arr with e | e
    · rw [e]
      exact h1.arr
    · exact .inr (h1.nextArr.trans e)

lemma Enterable.tail (h : Enterable w p (y :: ps)) : Enterable w p ps :=
  ⟨(List.nodup_cons.1 h.nodup).2, fun x hx => h.lt x (.tail _ hx), fun x hx => h.ne x (.tail _ hx),
    fun x hx => h.parent x (.tail _ hx), fun x hx => h.inodes x (.tail _ hx),
    fun x hx => h.nonempty x (.tail _ hx), fun x hx => h.key_ne x (.tail _ hx),
    fun x hx => h.arr x (.tail _ hx)⟩

/-- The first piece is entered; the others wait. -/
lemma finalizePiece_head (hw : w.Sound) (hp : p < w.nextNode) (h : Enterable w p (y :: ps)) :
    ∃ i w1, i.key = firstKey y.2 ∧ Node.finalizePiece y.1 w = (.ok (), w1) ∧
      Entered w p y.1 i w1 ∧ Enterable w1 p ps ∧ p < w1.nextNode ∧
      (∀ x ∈ ps, w1.nodes x.1 = w.nodes x.1) ∧
      w1.inodes p = putInodes (w.inodes p)
        (if (w.nodes y.1).key = [] then firstKey y.2 else (w.nodes y.1).key) (stub y) := by
  obtain ⟨i, l, hl⟩ := List.exists_cons_of_ne_nil (h.nonempty y (by simp))
  have hi : i.key = firstKey y.2 := by rw [hl]; rfl
  have hy := (List.nodup_cons.1 h.nodup).1
  obtain ⟨w1, e1, h1⟩ := finalizePiece_eq hw (h.lt y (by simp)) hp (h.ne y (by simp))
    (h.parent y (by simp)) ((h.inodes y (by simp)).trans hl) (hi ▸ h.key_ne y (by simp))
    (h.arr y (by simp))
  refine ⟨i, w1, hi, e1, h1, h1.enterable hw hy h.tail, by rw [h1.nextNode]; exact hp,
    fun x hx => h1.other _ (fun e => hy (e ▸ List.mem_map_of_mem hx)) (h.tail.ne x hx), ?_⟩
  rw [h1.inodes_parent, hi]
  rfl

/-- Pieces without a key are inserted one behind the other. -/
lemma finalizePieces_insert (hw : w.Sound) (hp : p < w.nextNode) (hps : Enterable w p ps)
    (hkey : ∀ x ∈ ps, (w.nodes x.1).key = []) (hins : w.inodes p = l1 ++ l2)
    (hlt : ∀ x ∈ ps, ∀ j ∈ l1, j.key < firstKey x.2)
    (hgt : ∀ x ∈ ps, ∀ j ∈ l2, firstKey x.2 < j.key)
    (hsorted : ps.Pairwise fun x y => firstKey x.2 < firstKey y.2) :
    ∃ w', Prog.each Node.finalizePiece (ps.map Prod.fst) w = (.ok (), w') ∧ EnteredAll w p ps w' ∧
      w'.inodes p = l1 ++ ps.map stub ++ l2 := by
  induction ps generalizing w l1 with
  | nil =>
    refine ⟨w, rfl,
      ⟨rfl, by simp, rfl, fun _ _ _ => rfl, fun _ _ _ _ => rfl, .inl rfl, le_rfl, hw⟩, ?_⟩
    simpa using hins
  | cons y ps ih =>
    obtain ⟨hy1, hs⟩ := List.pairwise_cons.1 hsorted
    obtain ⟨i, w1, hi, e1, h1, htail, hp1, hsame, hput⟩ := finalizePiece_head hw hp hps
    have hins1 : w1.inodes p = (l1 ++ [stub y]) ++ l2 := by
      rw [hput, if_pos (hkey y (by simp)), hins,
        putInodes_insert (hlt y (by simp)) (hgt y (by simp))]
      simp
    have hkey1 : ∀ x ∈ ps, (w1.nodes x.1).key = [] := fun x hx => by
      rw [hsame x hx]
      exact hkey x (.tail _ hx)
    have hlt1 : ∀ x ∈ ps, ∀ j ∈ l1 ++ [stub y], j.key < firstKey x.2 := by
      intro x hx j hj
      rcases List.mem_append.1 hj with hj | hj
      · exact hlt x (.tail _ hx) j hj
      · rw [List.mem_singleton.1 hj]
        exact hy1 x hx
    obtain ⟨w', e2, h2, hins2⟩ :=
      ih h1.sound hp1 htail hkey1 hins1 hlt1 (fun x hx => hgt x (.tail _ hx)) hs
    refine ⟨w', (Prog.bind_ok e1).trans e2, h1.all hw hi (List.nodup_cons.1 hps.nodup).1
      (hps.ne y (by simp)) htail.ne h2, ?_⟩
    rw [hins2]
    simp

/-- The pieces of a node take the place of the node in its parent. -/
lemma finalizePieces_eq (l1 l2 : List Inode) (hw : w.Sound) (hp : p < w.nextNode)
    (hps : Enterable w p (y :: ps))
    (hput : putInodes (w.inodes p) (if (w.nodes y.1).key = [] then firstKey y.2
      else (w.nodes y.1).key) (stub y) = l1 ++ stub y :: l2)
    (hkey : ∀ x ∈ ps, (w.nodes x.1).key = []) (hlt : ∀ x ∈ ps, ∀ j ∈ l1, j.key < firstKey x.2)
    (hgt : ∀ x ∈ ps, ∀ j ∈ l2, firstKey x.2 < j.key)
    (hsorted : (y :: ps).Pairwise fun x y => firstKey x.2 < firstKey y.2) :
    ∃ w', Prog.each Node.finalizePiece ((y :: ps).map Prod.fst) w = (.ok (), w') ∧
      EnteredAll w p (y :: ps) w' ∧ w'.inodes p = l1 ++ (y :: ps).map stub ++ l2 := by
  obtain ⟨hy1, hs⟩ := List.pairwise_cons.1 hsorted
  obtain ⟨i, w1, hi, e1, h1, htail, hp1, hsame, hput1⟩ := finalizePiece_head hw hp hps
  have hins1 : w1.inodes p = (l1 ++ [stub y]) ++ l2 := by
    rw [hput1, hput]
    simp
  have hlt1 : ∀ x ∈ ps, ∀ j ∈ l1 ++ [stub y], j.key < firstKey x.2 := by
    intro x hx j hj
    rcases List.mem_append.1 hj with hj | hj
    · exact hlt x hx j hj
    · rw [List.mem_singleton.1 hj]
      exact hy1 x hx
  obtain ⟨w', e2, h2, hins2⟩ := finalizePieces_insert h1.sound hp1 htail
    (fun x hx => by rw [hsame x hx]; exact hkey x hx) hins1 hlt1 hgt hs
  refine ⟨w', (Prog.bind_ok e1).trans e2, h1.all hw hi (List.nodup_cons.1 hps.nodup).1
    (hps.ne y (by simp)) htail.ne h2, ?_⟩
  rw [hins2]
  simp

/-- `node.split` and the second loop of `node.finalize`, for a node with a parent in which the keys
of the node belong between `l1` and `l2`. -/
lemma splitAndEnter_eq (l1 l2 : List Inode) (hw : w.Sound) (hn : n < w.nextNode)
    (hp : p < w.nextNode) (hne : n ≠ p) (hb : (w.nodes n).bucket = some b)
    (hpar : (w.nodes n).parent = some p) (harr : w.arr n ≠ w.arr p) (hnil : w.inodes n ≠ [])
    (hkeys : ∀ i ∈ w.inodes n, i.key ≠ [])
    (hsorted : (w.inodes n).Pairwise fun i j => i.key < j.key)
    (hput : ∀ y : Inode, putInodes (w.inodes p)
      (if (w.nodes n).key = [] then firstKey (w.inodes n) else (w.nodes n).key) y = l1 ++ y :: l2)
    (hlt : ∀ i ∈ w.inodes n, ∀ j ∈ l1, j.key < i.key)
    (hgt : ∀ i ∈ w.inodes n, ∀ j ∈ l2, i.key < j.key) :
    ∃ x qs w',
      Prog.Evals (fun k => Node.split k n >>= fun nodes => Prog.each Node.finalizePiece nodes)
        w () w' ∧
      x :: qs.map Prod.snd = Node.pieces (w.nodes n).isLeaf
        (splitThreshold w.rt (w.buckets b).fillPercent) (w.inodes n) ∧
      Spilt w b n p ((n, x) :: qs) w' ∧ w'.inodes p = l1 ++ ((n, x) :: qs).map stub ++ l2 := by
  obtain ⟨ps, w1, e1, hps, hcut⟩ := split_eq hw hn hb hpar
  obtain ⟨x, hx⟩ := hcut.head
  obtain ⟨qs, rfl⟩ : ∃ qs, ps = (n, x) :: qs := by
    cases ps with
    | nil => cases hx
    | cons y qs =>
      cases hx
      exact ⟨qs, rfl⟩
  have hflat : ((((n, x) :: qs : List (NodeId × List Inode))).map Prod.snd).flatten =
      w.inodes n := by
    rw [hps, Node.flatten_pieces]
  have hpne : ∀ y ∈ (n, x) :: qs, y.2 ≠ [] := fun y hy =>
    Node.ne_nil_of_mem_pieces hnil y.2 (hps ▸ List.mem_map_of_mem hy)
  have hmem : ∀ y ∈ (n, x) :: qs, ∀ i ∈ y.2, i ∈ w.inodes n := by
    intro y hy i hi
    rw [← hflat]
    exact List.mem_flatten.2 ⟨y.2, List.mem_map_of_mem hy, hi⟩
  have hfirst : ∀ y ∈ (n, x) :: qs, ∃ i ∈ w.inodes n, i.key = firstKey y.2 := by
    intro y hy
    obtain ⟨i, l, hl⟩ := List.exists_cons_of_ne_nil (hpne y hy)
    exact ⟨i, hmem y hy i (by simp [hl]), by simp [firstKey, hl]⟩
  have hord : ((n, x) :: qs).Pairwise fun x y => firstKey x.2 < firstKey y.2 := by
    rw [← hflat] at hsorted
    have h2 := (List.pairwise_flatten.1 hsorted).2
    rw [List.pairwise_map] at h2
    refine h2.imp_of_mem fun {y z} hy hz hyz => ?_
    obtain ⟨i, l, hl⟩ := List.exists_cons_of_ne_nil (hpne y hy)
    obtain ⟨j, k, hk⟩ := List.exists_cons_of_ne_nil (hpne z hz)
    rw [hl, hk] at hyz ⊢
    exact hyz i (by simp) j (by simp)
  have hfx : firstKey (w.inodes n) = firstKey x := by
    rw [← hflat]
    obtain ⟨i, l, hl⟩ := List.exists_cons_of_ne_nil (hpne (n, x) (by simp))
    have hl : x = i :: l := hl
    rw [hl]
    rfl
  have hold : ∀ y ∈ qs, w.nextNode ≤ y.1 ∧ y.1 < w1.nextNode := hcut.new
  have hpnode : w1.nodes p = w.nodes p := hcut.other p hp hne.symm
  have hparr : w1.arr p = w.arr p := by
    unfold World.arr
    rw [hpnode]
  have hpins : w1.inodes p = w.inodes p := hcut.view p hp hne.symm harr.symm
  have hseln := hcut.self
  have hlt1 : ∀ y ∈ (n, x) :: qs, y.1 < w1.nextNode := by
    intro y hy
    rcases List.mem_cons.1 hy with rfl | hy
    · exact hn.trans_le hcut.nextNode
    · exact (hold y hy).2
  have hnep : ∀ y ∈ (n, x) :: qs, y.1 ≠ p := by
    intro y hy
    rcases List.mem_cons.1 hy with rfl | hy
    · exact hne
    · exact (hp.trans_le (hold y hy).1).ne'
  have hent : Enterable w1 p ((n, x) :: qs) := by
    refine ⟨hcut.nodup, hlt1, hnep, fun y hy => ?_, hcut.inodes, hpne, fun y hy => ?_,
      fun y hy => ?_⟩
    · rcases List.mem_cons.1 hy with rfl | hy
      · rw [hseln]
        exact hpar
      · rw [hcut.next y hy]
        rfl
    · obtain ⟨i, hi, e⟩ := hfirst y hy
      exact e ▸ hkeys i hi
    · rw [hparr]
      rcases hcut.arr y hy with e | e
      · rw [e]
        exact harr
      · exact ((hw.arr_lt p hp).trans_le e).ne'
  obtain ⟨w2, e2, h2, hins2⟩ := finalizePieces_eq l1 l2 hcut.sound
    (hp.trans_le hcut.nextNode) hent
    (by
      have : (w1.nodes n).key = (w.nodes n).key := by rw [hseln]
      rw [hpins]
      simp only [this, ← hfx]
      exact hput _)
    (fun y hy => by rw [hcut.next y hy]; rfl)
    (fun y hy j hj => by
      obtain ⟨i, hi, e⟩ := hfirst y (.tail _ hy)
      exact e ▸ hlt i hi j hj)
    (fun y hy j hj => by
      obtain ⟨i, hi, e⟩ := hfirst y (.tail _ hy)
      exact e ▸ hgt i hi j hj) hord
  have hrest := h2.rest
  have hnode2 : w2.nextNode = w1.nextNode := by rw [hrest]
  have hbuck2 : w2.buckets = w1.buckets := by rw [hrest]
  have hq2 : Quiet b w1 w2 := by
    rw [hrest]
    exact ⟨rfl, rfl, rfl, rfl, rfl, fun _ _ => rfl, rfl, rfl, rfl⟩
  have harr2 : ∀ y ∈ (n, x) :: qs, w2.arr y.1 = w1.arr y.1 := by
    intro y hy
    unfold World.arr
    rw [h2.self y hy]
  refine ⟨x, qs, w2, ?_, hps, ⟨hcut.quiet.trans hq2, by rw [hnode2]; exact hcut.nextNode,
    by rw [hbuck2]; exact hcut.rootNode, by rw [hbuck2]; exact hcut.dirty,
    by rw [hnode2]; exact hcut.new, hcut.nodup, fun y hy => ?_, ?_, fun m hm hmn hmp => ?_,
    fun m hm hmn hmp h1 h3 => ?_, ?_, fun y hy => ?_, fun y hy => ?_, h2.sound⟩, hins2⟩
  · filter_upwards [e1] with k hk
    rw [Prog.bind_ok hk]
    exact e2
  · have hnode := h2.self y hy
    have hin : w2.inodes y.1 = y.2 := by
      rw [h2.view y.1 (hnep y hy) (hlt1 y hy) (hent.arr y hy)]
      exact hcut.inodes y hy
    rw [hnode]
    rcases List.mem_cons.1 hy with rfl | hy
    · rw [hseln]
      exact ⟨hb, rfl, rfl, rfl, hpar, hin⟩
    · rw [hcut.next y hy]
      exact ⟨rfl, rfl, rfl, rfl, rfl, hin⟩
  · rw [h2.parent, hpnode]
  · rw [h2.other m _ hmp, hcut.other m hm hmn]
    intro hc
    obtain ⟨y, hy, rfl⟩ := List.mem_map.1 hc
    rcases List.mem_cons.1 hy with rfl | hy
    · exact hmn rfl
    · exact absurd hm (not_lt.2 (hold y hy).1)
  · have harr1 : w1.arr m = w.arr m := by
      unfold World.arr
      rw [hcut.other m hm hmn]
    rw [h2.view m hmp (hm.trans_le hcut.nextNode) (by rw [harr1, hparr]; exact h3),
      hcut.view m hm hmn h1]
  · rcases h2.arr with e | e
    · exact .inl (e.trans hparr)
    · exact .inr (hcut.nextArr.trans e)
  · rw [harr2 y hy]
    rcases h2.arr with e | e
    · rw [e]
      exact hent.arr y hy
    · exact ((hcut.sound.arr_lt y.1 (hlt1 y hy)).trans_le e).ne
  · rw [harr2 y hy]
    exact hcut.arr y hy

/-! ## A node without a parent -/

/-- `node.splitTwo` makes a parent for a node that has none. -/
lemma parentForSplit_root (hw : w.Sound) (hn : n < w.nextNode) (hp : (w.nodes n).parent = none) :
    ∃ w', Node.parentForSplit b n w = (.ok w.nextNode, w') ∧ Planted w b n w' := by
  obtain ⟨w1, e1, h1⟩ := newNode_nil b false none hw
  have hn1 : n < w1.nextNode := by
    rw [h1.nextNode]
    exact hn.trans (Nat.lt_succ_self _)
  obtain ⟨e2, s2, v2⟩ :=
    setFields_eq (f := fun nd => { nd with parent := some w.nextNode }) h1.sound hn1 rfl
  set w2 := w1.setNode n { w1.nodes n with parent := some w.nextNode } with hw2
  obtain ⟨w3, e3, s3, q3, r3, b3⟩ := markDirty_eq (b := b) (n := w.nextNode) s2
  have hnodes : w3.nodes = w2.nodes := by rw [r3]
  have hins : ∀ m, w3.inodes m = w1.inodes m := fun m => by rw [r3]; exact (v2 m).1
  have harr : ∀ m, w3.arr m = w1.arr m := fun m => by rw [r3]; exact (v2 m).2
  have hP : w2.nodes w.nextNode = w1.nodes w.nextNode := by simp [hw2, World.setNode, hn.ne']
  have hq2 : Quiet b w1 w2 := ⟨rfl, rfl, rfl, rfl, rfl, fun _ _ => rfl, rfl, rfl, rfl⟩
  refine ⟨w3, ?_, (h1.quiet.trans hq2).trans q3, ?_, ?_, ?_, ?_, fun m hm hmn => ?_, ?_,
    fun m hm => ?_, ?_, s3⟩
  · unfold Node.parentForSplit nodeOf
    rw [Prog.read_bind, hp]
    dsimp only
    rw [← bind_assoc, Prog.bind_ok e1]
    refine (Prog.bind_ok e2).trans ?_
    rw [Prog.bind_ok e3]
    rfl
  · rw [r3]
    exact h1.nextNode
  · have hb2 : w2.buckets b = w.buckets b := by
      change w1.buckets b = _
      rw [h1.buckets]
    rw [b3, hb2]
  · rw [hnodes, hw2]
    simp [World.setNode, h1.other n hn.ne]
  · rw [hnodes, hP]
    exact h1.self
  · rw [hnodes, hw2]
    simp [World.setNode, hmn, h1.other m hm.ne]
  · rw [hins]
    exact h1.inodes
  · rw [hins]
    exact h1.view m hm
  · rw [harr]
    exact h1.arr

/-- The node is then split as one that had the parent before. -/
lemma split_root {w1 : World} (hb : (w.nodes n).bucket = some b)
    (hf : Node.fitsOneNode (w.nodes n).isLeaf (w.inodes n) = false) (hn : n < w.nextNode)
    (e : Node.parentForSplit b n w = (.ok w.nextNode, w1)) (h : Planted w b n w1) (k : Nat) :
    Node.split (k + 1) n w = Node.split (k + 1) n w1 := by
  have h2 : Node.splitTwo n w = Node.splitTwo n w1 := by
    have hp1 : Node.parentForSplit b n w1 = (.ok w.nextNode, w1) :=
      parentForSplit_eq (by rw [h.self])
    have hb1 : (w1.nodes n).bucket = some b := by rw [h.self]; exact hb
    have hl1 : (w1.nodes n).isLeaf = (w.nodes n).isLeaf := by rw [h.self]
    have hfp : (w1.buckets b).fillPercent = (w.buckets b).fillPercent := by rw [h.bucket]
    unfold Node.splitTwo nodeOf inodesOf bucketOf
    simp only [Prog.read_bind, hb, hb1, hl1, h.view n hn, hf, Bool.false_eq_true, if_false]
    change (Node.parentForSplit b n >>= _) w = (Node.parentForSplit b n >>= _) w1
    rw [Prog.bind_ok e, Prog.bind_ok hp1, hfp, h.quiet.rt]
  unfold Node.split
  rw [Prog.bind_apply, Prog.bind_apply, h2]

/-! ## Every split -/

/-- `node.split` of any node of a handle: the pieces, and the nodes they are in. -/
lemma split_pieces (hw : w.Sound) (hn : n < w.nextNode) (hb : (w.nodes n).bucket = some b) :
    ∃ (ps : List (NodeId × List Inode)) (w' : World),
      Prog.Evals (fun k => Node.split k n) w (ps.map Prod.fst) w' ∧
      ps.map Prod.snd = Node.pieces (w.nodes n).isLeaf
        (splitThreshold w.rt (w.buckets b).fillPercent) (w.inodes n) ∧
      (ps.map Prod.fst).Nodup ∧ (∃ l, ps.head? = some (n, l)) ∧
      ∀ x ∈ ps, (w'.nodes x.1).isLeaf = (w.nodes n).isLeaf ∧ w'.inodes x.1 = x.2 := by
  have leaf : ∀ {w1 w' : World} {p : NodeId} {ps : List (NodeId × List Inode)}, Cut w1 b n p ps w' →
      ∀ x ∈ ps, (w'.nodes x.1).isLeaf = (w1.nodes n).isLeaf := by
    intro w1 w' p ps h x hx
    obtain ⟨l, hl⟩ := h.head
    rcases ps with _ | ⟨y, ps⟩
    · cases hl
    · cases hl
      rcases List.mem_cons.1 hx with rfl | hx
      · rw [h.self]
      · rw [h.next x hx]
        rfl
  rcases hp : (w.nodes n).parent with _ | p
  · cases hf : Node.fitsOneNode (w.nodes n).isLeaf (w.inodes n) with
    | true =>
      refine ⟨[(n, w.inodes n)], w, ?_, ?_, by simp, ⟨_, rfl⟩, by simp⟩
      · refine Prog.Evals.step (f := fun _ => pure [n]) (Prog.Evals.pure (s := w)) fun k => ?_
        rw [Node.split, Prog.bind_ok (splitTwo_eq_none hf)]
      · rw [Node.pieces_of_fits hf]
        rfl
    | false =>
      obtain ⟨w1, e1, h1⟩ := parentForSplit_root (b := b) hw hn hp
      have hn1 : n < w1.nextNode := by
        rw [h1.nextNode]
        exact Nat.lt_succ_of_lt hn
      obtain ⟨ps, w', e2, hps, hc⟩ := split_eq h1.sound hn1 (by rw [h1.self]; exact hb)
        (by rw [h1.self])
      have hl1 : (w1.nodes n).isLeaf = (w.nodes n).isLeaf := by rw [h1.self]
      refine ⟨ps, w', ?_, ?_, hc.nodup, hc.head,
        fun x hx => ⟨(leaf hc x hx).trans hl1, hc.inodes x hx⟩⟩
      · filter_upwards [e2, Filter.eventually_ge_atTop 1] with k hk hk1
        obtain ⟨k, rfl⟩ := Nat.exists_eq_add_of_le' hk1
        rwa [split_root hb hf hn e1 h1]
      · rw [hps, hl1, h1.view n hn, h1.quiet.rt, h1.bucket]
  · obtain ⟨ps, w', e, hps, hc⟩ := split_eq hw hn hb hp
    exact ⟨ps, w', e, hps, hc.nodup, hc.head, fun x hx => ⟨leaf hc x hx, hc.inodes x hx⟩⟩

/-- `node.split` of any node terminates and cuts its inodes into pieces: the node keeps the first
one, all pieces have its leaf flag, several pieces have `minKeys` inodes each, every piece but the
last is within the threshold or has `minKeys` inodes, and the last one is small or has at most twice
as many. -/
theorem split_partitions (hw : w.Sound) (hn : n < w.nextNode) (hb : (w.nodes n).bucket = some b) :
    ∃ ps w', Prog.Evals (fun k => Node.split k n) w ps w' ∧ ps.Nodup ∧
      (ps.map w'.inodes).flatten = w.inodes n ∧ ps.head? = some n ∧
      (∀ m ∈ ps, (w'.nodes m).isLeaf = (w.nodes n).isLeaf) ∧
      (2 ≤ ps.length → ∀ m ∈ ps, Node.minKeys (w.nodes n).isLeaf ≤ (w'.inodes m).length) ∧
      (∀ m ∈ ps.dropLast,
        (Node.size (w'.inodes m) : Int) ≤ splitThreshold w.rt (w.buckets b).fillPercent ∨
          (w'.inodes m).length = Node.minKeys (w.nodes n).isLeaf) ∧
      ∀ m ∈ ps.getLast?, Node.size (w'.inodes m) < defaultMaxNodeSizeBytes ∨
        (w'.inodes m).length ≤ 2 * Node.minKeys (w.nodes n).isLeaf := by
  obtain ⟨ps, w', e, hps, hnd, ⟨l, hl⟩, hx⟩ := split_pieces hw hn hb
  -- the inodes of the nodes are the pieces, in this order
  have hins : (ps.map Prod.fst).map w'.inodes = ps.map Prod.snd := by
    rw [List.map_map]
    exact List.map_congr_left fun x h => (hx x h).2
  have hpieces := hins.trans hps
  have mem : ∀ m ∈ ps.map Prod.fst, w'.inodes m ∈ Node.pieces (w.nodes n).isLeaf
      (splitThreshold w.rt (w.buckets b).fillPercent) (w.inodes n) := fun m hm =>
    hpieces ▸ List.mem_map_of_mem hm
  refine ⟨ps.map Prod.fst, w', e, hnd, ?_, ?_, ?_, fun hlen m hm => ?_, fun m hm => ?_,
    fun m hm => ?_⟩
  · rw [hpieces, Node.flatten_pieces]
  · rw [List.head?_map, hl]
    rfl
  · intro m hm
    obtain ⟨x, h, rfl⟩ := List.mem_map.1 hm
    exact (hx x h).1
  · refine Node.length_le_of_mem_pieces ?_ _ (mem m hm)
    cases hf : Node.fitsOneNode (w.nodes n).isLeaf (w.inodes n) with
    | true =>
      have h1 := congrArg List.length hps
      rw [Node.pieces_of_fits hf, List.length_map, List.length_singleton] at h1
      rw [List.length_map] at hlen
      omega
    | false =>
      have := Node.two_mul_lt_of_not_fits hf
      omega
  · refine Node.size_le_of_mem_dropLast_pieces (w.inodes n) _ ?_
    rw [← hpieces, ← List.map_dropLast]
    exact List.mem_map_of_mem hm
  · have hlast : w'.inodes m ∈ (Node.pieces (w.nodes n).isLeaf
        (splitThreshold w.rt (w.buckets b).fillPercent) (w.inodes n)).getLast? := by
      rw [← hpieces, List.getLast?_map, Option.mem_def.1 hm]
      rfl
    exact Node.size_lt_of_fits (Node.fits_of_getLast_pieces (w.inodes n) _ hlast)

/-- A write transaction has put three values into a new bucket, each larger than half a node. -/
def threeLargeValues : World where
  rt := default
  nodes _ := ⟨some 0, true, false, false, [], none, ⟨0, 3⟩⟩
  nextNode := 1
  arrays _ :=
    [⟨[1], some (List.replicate 70000 0), none⟩, ⟨[2], some (List.replicate 70000 0), none⟩,
    ⟨[3], some (List.replicate 70000 0), none⟩]
  nextArr := 1
  buckets _ := ⟨0, [9], some 0, {0}, defaultFillPercent⟩
  nextBucket := 1
  txs _ := ⟨true, false, true, some ⟨∅⟩, AList.singleton [9] 0, {[9]}, ∅⟩
  nextTx := 1
  db := ⟨false, true, some ⟨∅⟩, true⟩
  cut := none

theorem split_partitions_threeLargeValues :
    ∃ ps w', Prog.Evals (fun k => Node.split k 0) threeLargeValues ps w' ∧
      (ps.map w'.inodes).flatten = threeLargeValues.inodes 0 ∧ ps.head? = some 0 := by
  obtain ⟨ps, w', e, -, h1, h2, -⟩ := split_partitions (w := threeLargeValues) (n := 0) (b := 0)
    ⟨rfl, fun _ _ => Nat.one_pos, fun _ _ => le_rfl⟩ Nat.one_pos rfl
  exact ⟨ps, w', e, h1, h2⟩

end

end Vmbolt
