import Vmbolt.Check.Worklist
import Vmbolt.Effect.Entries
import Vmbolt.Model.Growing
import Vmbolt.Refinement.ArrayCursor
import Vmbolt.Tree.Search

/-!
# What a clean check is worth

The conditions `checkBucket` decides are local: the keys of a node ascend, and a separator is the
first key of its child. Nothing is compared across a branch, so the keys under a child may reach
beyond the next separator. If they do not (`Separated`), the whole tree is in order and a search
finds every key that is stored; and a tree that is in order is `Separated`.
-/

namespace Vmbolt
open Filter

/-- The leaf inodes under a node, in order, down to the depth `d`. -/
def inOrder (w : World) : Nat → Option NodeId → List Inode
  | 0, _ => []
  | _ + 1, none => []
  | d + 1, some n =>
    if (w.nodes n).isLeaf then w.inodes n else (w.inodes n).flatMap fun i => inOrder w d i.child

/-- The inode `x` stands in a leaf of the tree. -/
def Stores (w : World) (root : Option NodeId) (x : Inode) : Prop :=
  ∃ r p m, root = some r ∧ follow (kids w) r p = some m ∧ (w.nodes m).isLeaf = true ∧ x ∈ w.inodes m

/-- In every branch of the tree, what is stored under a child is below the next separator. -/
def Separated (w : World) (root : Option NodeId) : Prop :=
  ∀ r p n, root = some r → follow (kids w) r p = some n → (w.nodes n).isLeaf = false →
    ∀ l1 i j l2, w.inodes n = l1 ++ i :: j :: l2 → ∀ x, Stores w i.child x → x.key < j.key

/-- A tree of depth at most `d` whose nodes are fine. -/
inductive FineTree (w : World) : Nat → NodeId → Prop
  | leaf {d : Nat} {n : NodeId} : NodeFine w n → (w.nodes n).isLeaf = true → FineTree w (d + 1) n
  | branch {d : Nat} {n : NodeId} : NodeFine w n → (w.nodes n).isLeaf = false →
    (∀ i ∈ w.inodes n, ∀ c, i.child = some c → FineTree w d c) → FineTree w (d + 1) n

section
variable {w : World} {n : NodeId} {d : Nat} {x : Inode}

/-! ## Reading a tree from its root -/

lemma follow_leaf (h : (w.nodes n).isLeaf = true) {p : List Nat} {m : NodeId}
    (hp : follow (kids w) n p = some m) : p = [] ∧ m = n := by
  cases p with
  | nil =>
    cases hp
    exact ⟨rfl, rfl⟩
  | cons i p =>
    rw [follow, kids, h] at hp
    cases hp

lemma follow_branch (h : (w.nodes n).isLeaf = false) {j : Nat} {p : List Nat} {m : NodeId} :
    follow (kids w) n (j :: p) = some m ↔
      ∃ i c, (w.inodes n)[j]? = some i ∧ i.child = some c ∧ follow (kids w) c p = some m := by
  rw [follow, kids, h]
  simp only [Bool.false_eq_true, if_false, List.getElem?_map]
  rcases (w.inodes n)[j]? with _ | i
  · simp
  · rcases hc : i.child with _ | c <;> simp [hc]

lemma stores_leaf (h : (w.nodes n).isLeaf = true) : Stores w (some n) x ↔ x ∈ w.inodes n := by
  constructor
  · rintro ⟨r, p, m, e, hp, -, hx⟩
    cases e
    obtain ⟨-, rfl⟩ := follow_leaf h hp
    exact hx
  · exact fun hx => ⟨n, [], n, rfl, rfl, h, hx⟩

lemma stores_branch (h : (w.nodes n).isLeaf = false) :
    Stores w (some n) x ↔ ∃ i ∈ w.inodes n, Stores w i.child x := by
  constructor
  · rintro ⟨r, p, m, e, hp, hl, hx⟩
    cases e
    cases p with
    | nil =>
      cases hp
      rw [h] at hl
      cases hl
    | cons j p =>
      obtain ⟨i, c, hi, hc, hp⟩ := (follow_branch h).1 hp
      exact ⟨i, List.mem_of_getElem? hi, c, p, m, hc, hp, hl, hx⟩
  · rintro ⟨i, hi, c, p, m, hc, hp, hl, hx⟩
    obtain ⟨j, hj⟩ := List.mem_iff_getElem?.1 hi
    exact ⟨n, j :: p, m, rfl, (follow_branch h).2 ⟨i, c, hj, hc, hp⟩, hl, hx⟩

/-- The condition at one branch. -/
def SeparatedAt (w : World) (n : NodeId) : Prop :=
  ∀ l1 i j l2, w.inodes n = l1 ++ i :: j :: l2 → ∀ x, Stores w i.child x → x.key < j.key

lemma separated_leaf (h : (w.nodes n).isLeaf = true) : Separated w (some n) := by
  intro r p m e hp hl
  cases e
  obtain ⟨-, rfl⟩ := follow_leaf h hp
  rw [h] at hl
  cases hl

lemma separated_branch (h : (w.nodes n).isLeaf = false) :
    Separated w (some n) ↔ SeparatedAt w n ∧ ∀ i ∈ w.inodes n, Separated w i.child := by
  constructor
  · refine fun hs => ⟨hs n [] n rfl rfl h, fun i hi c p m hc hp => ?_⟩
    obtain ⟨j, hj⟩ := List.mem_iff_getElem?.1 hi
    exact hs n (j :: p) m rfl ((follow_branch h).2 ⟨i, c, hj, hc, hp⟩)
  · rintro ⟨hat, hall⟩ r p m e hp
    cases e
    cases p with
    | nil =>
      cases hp
      exact fun _ => hat
    | cons j p =>
      obtain ⟨i, c, hi, hc, hp⟩ := (follow_branch h).1 hp
      exact hall i (List.mem_of_getElem? hi) c p m hc hp

/-- A tree with paths of bounded length. -/
lemma fineTree_of_bounded (h : ∀ p m, follow (kids w) n p = some m → NodeFine w m ∧ p.length ≤ d) :
    FineTree w (d + 1) n := by
  induction d generalizing n with
  | zero =>
    have hn := (h [] n rfl).1
    rcases hl : (w.nodes n).isLeaf with _ | _
    · refine .branch hn hl fun i hi c hc => ?_
      obtain ⟨j, hj⟩ := List.mem_iff_getElem?.1 hi
      exact absurd (h [j] c ((follow_branch hl).2 ⟨i, c, hj, hc, rfl⟩)).2 (by simp)
    · exact .leaf hn hl
  | succ d ih =>
    have hn := (h [] n rfl).1
    rcases hl : (w.nodes n).isLeaf with _ | _
    · refine .branch hn hl fun i hi c hc => ih fun p m hp => ?_
      obtain ⟨j, hj⟩ := List.mem_iff_getElem?.1 hi
      obtain ⟨h1, h2⟩ := h (j :: p) m ((follow_branch hl).2 ⟨i, c, hj, hc, hp⟩)
      exact ⟨h1, by simpa using h2⟩
    · exact .leaf hn hl

namespace FineTree

/-- From some depth on the list of the leaf inodes is complete. -/
lemma inOrder_eq (h : FineTree w d n) {k : Nat} (hk : d ≤ k) :
    inOrder w k (some n) = inOrder w d (some n) := by
  induction h generalizing k with
  | leaf _ hl =>
    obtain ⟨j, rfl⟩ : ∃ j, k = j + 1 := ⟨k - 1, by omega⟩
    simp [inOrder, hl]
  | branch hn hl hkids ih =>
    obtain ⟨j, rfl⟩ : ∃ j, k = j + 1 := ⟨k - 1, by omega⟩
    simp only [inOrder, hl, Bool.false_eq_true, if_false]
    refine List.flatMap_congr fun i hi => ?_
    obtain ⟨c, y, l, hc, -⟩ := (hn.branch hl i hi).1
    rw [hc]
    exact ih i hi c hc (by omega)

lemma mem_inOrder (h : FineTree w d n) : x ∈ inOrder w d (some n) ↔ Stores w (some n) x := by
  induction h with
  | leaf _ hl =>
    rw [stores_leaf hl]
    simp [inOrder, hl]
  | branch hn hl hkids ih =>
    rw [stores_branch hl]
    simp only [inOrder, hl, Bool.false_eq_true, if_false, List.mem_flatMap]
    refine exists_congr fun i => and_congr_right fun hi => ?_
    obtain ⟨c, y, l, hc, -⟩ := (hn.branch hl i hi).1
    rw [hc]
    exact ih i hi c hc

/-- The first key of a node is stored under it. -/
lemma first_mem (h : FineTree w d n) {l : List Inode} (hins : w.inodes n = x :: l) :
    ∃ y, Stores w (some n) y ∧ y.key = x.key := by
  induction h generalizing x l with
  | leaf _ hl => exact ⟨x, (stores_leaf hl).2 (by simp [hins]), rfl⟩
  | @branch d n hn hl _ ih =>
    have hx : x ∈ w.inodes n := by simp [hins]
    obtain ⟨c, y, t, hc, hct, hk⟩ := (hn.branch hl x hx).1
    obtain ⟨z, hz, hzk⟩ := ih x hx c hc hct
    exact ⟨z, (stores_branch hl).2 ⟨x, hx, hc ▸ hz⟩, hzk.trans hk.symm⟩

/-- Nothing below the first key of a node is stored under it. -/
lemma first_le (h : FineTree w d n) (hs : Separated w (some n)) {l : List Inode} {y : Inode}
    (hins : w.inodes n = x :: l) (hy : Stores w (some n) y) : x.key ≤ y.key := by
  induction h generalizing x l with
  | leaf hn hl =>
    have hsorted := hn.sorted
    rw [stores_leaf hl, hins] at hy
    rw [hins, List.pairwise_cons] at hsorted
    rcases List.mem_cons.1 hy with rfl | hy
    · exact le_rfl
    · exact (hsorted.1 y hy).le
  | branch hn hl _ ih =>
    obtain ⟨i, hi, hy⟩ := (stores_branch hl).1 hy
    obtain ⟨c, z, t, hc, hct, hk⟩ := (hn.branch hl i hi).1
    have hle := ih i hi c hc (hc ▸ ((separated_branch hl).1 hs).2 i hi) hct (hc ▸ hy)
    have hsorted := hn.sorted
    rw [hins] at hi hsorted
    rw [List.pairwise_cons] at hsorted
    rw [← hk] at hle
    rcases List.mem_cons.1 hi with rfl | hi
    · exact hle
    · exact (hsorted.1 i hi).le.trans hle

/-- What is stored under an inode of a branch lies between its key and the separators behind it. -/
lemma between (hn : NodeFine w n) (hl : (w.nodes n).isLeaf = false)
    (hkids : ∀ i ∈ w.inodes n, ∀ c, i.child = some c → FineTree w d c) (hs : Separated w (some n))
    {l1 l2 : List Inode} {i y : Inode} (hins : w.inodes n = l1 ++ i :: l2)
      (hy : Stores w i.child y) :
    i.key ≤ y.key ∧ ∀ j ∈ l2, y.key < j.key := by
  obtain ⟨hat, hall⟩ := (separated_branch hl).1 hs
  have hi : i ∈ w.inodes n := by simp [hins]
  obtain ⟨c, z, t, hc, hct, hk⟩ := (hn.branch hl i hi).1
  refine ⟨?_, fun j hj => ?_⟩
  · rw [hk]
    exact (hkids i hi c hc).first_le (hc ▸ hall i hi) hct (hc ▸ hy)
  · cases l2 with
    | nil => cases hj
    | cons j0 l2 =>
      have hlt := hat l1 i j0 l2 hins y hy
      have hsorted := hn.sorted
      rw [hins, List.pairwise_append, List.pairwise_cons, List.pairwise_cons] at hsorted
      rcases List.mem_cons.1 hj with rfl | hj
      · exact hlt
      · exact hlt.trans (hsorted.2.1.2.1 j hj)

/-- The tree is in order exactly if its branches separate what is stored under them. -/
lemma sorted_iff (h : FineTree w d n) :
    ((inOrder w d (some n)).Pairwise fun x y => x.key < y.key) ↔ Separated w (some n) := by
  induction h with
  | leaf hn hl => exact iff_of_true (by simpa [inOrder, hl] using hn.sorted) (separated_leaf hl)
  | @branch d n hn hl hkids ih =>
    have hchild : ∀ i ∈ w.inodes n,
        ((inOrder w d i.child).Pairwise fun x y => x.key < y.key) ↔ Separated w i.child := by
      intro i hi
      obtain ⟨c, y, l, hc, -⟩ := (hn.branch hl i hi).1
      rw [hc]
      exact ih i hi c hc
    have hmem : ∀ i ∈ w.inodes n, ∀ y, y ∈ inOrder w d i.child ↔ Stores w i.child y := by
      intro i hi y
      obtain ⟨c, z, l, hc, -⟩ := (hn.branch hl i hi).1
      rw [hc]
      exact (hkids i hi c hc).mem_inOrder
    simp only [inOrder, hl, Bool.false_eq_true, if_false, List.pairwise_flatMap]
    constructor
    · rintro ⟨hall, hpair⟩
      refine (separated_branch hl).2
        ⟨fun l1 i j l2 hins y hy => ?_, fun i hi => (hchild i hi).1 (hall i hi)⟩
      have hi : i ∈ w.inodes n := by simp [hins]
      have hj : j ∈ w.inodes n := by simp [hins]
      -- the next separator is itself a key under the next child
      obtain ⟨c, z, t, hc, hct, hk⟩ := (hn.branch hl j hj).1
      obtain ⟨u, hu, huk⟩ := (hkids j hj c hc).first_mem hct
      rw [hins, List.pairwise_append, List.pairwise_cons] at hpair
      rw [hk, ← huk]
      exact hpair.2.1.1 j (by simp) y ((hmem i hi y).2 hy) u ((hmem j hj u).2 (hc ▸ hu))
    · intro hs
      refine ⟨fun i hi => (hchild i hi).2 (((separated_branch hl).1 hs).2 i hi), ?_⟩
      refine hn.sorted.imp_of_mem fun {i j} hi hj hij y hy u hu => ?_
      obtain ⟨l1, l2, hins⟩ := List.append_of_mem hi
      obtain ⟨l3, l4, hins'⟩ := List.append_of_mem hj
      have hj2 : j ∈ l2 := by
        have hsorted := hn.sorted
        rw [hins, List.pairwise_append] at hsorted
        rw [hins] at hj
        rcases List.mem_append.1 hj with hj | hj
        · exact absurd (hij.trans (hsorted.2.2 j hj i (by simp))) (lt_irrefl _)
        · exact (List.mem_cons.1 hj).resolve_left fun e => lt_irrefl _ (e ▸ hij)
      exact ((between hn hl hkids hs hins ((hmem i hi y).1 hy)).2 j hj2).trans_le
        (between hn hl hkids hs hins' ((hmem j hj u).1 hu)).1

/-- The index `searchNode` takes is that of the child that stores the key. -/
lemma searchIndex_eq {l1 l2 : List Inode} {i : Inode} {k : Bytes}
    (hsorted : (l1 ++ i :: l2).Pairwise fun x y => x.key < y.key) (hle : i.key ≤ k)
    (hlt : ∀ j ∈ l2, k < j.key) : Cursor.searchIndex (l1 ++ i :: l2) k = l1.length := by
  obtain ⟨l3, j, l4, e, hidx, hgt, hle'⟩ := searchIndex_split hsorted (by simp) k
  rw [hidx]
  rcases List.append_eq_append_iff.1 e with ⟨a, rfl, ha⟩ | ⟨a, rfl, ha⟩
  · cases a with
    | nil => simp
    | cons z a =>
      -- an inode behind `i` is above the key
      rw [List.cons_append, List.cons.injEq] at ha
      have hj := hlt j (by rw [ha.2]; simp)
      exact absurd (hle' (by simp)) (not_le.2 hj)
  · cases a with
    | nil => simp
    | cons z a =>
      rw [List.cons_append, List.cons.injEq] at ha
      exact absurd hle (not_le.2 (hgt i (by rw [ha.2]; simp)))

/-- A search for a stored key ends in the leaf that stores it. -/
lemma search_eq (h : FineTree w d n) (hs : Separated w (some n)) (hx : Stores w (some n) x)
    (st : List ElemRef) :
    ∃ m st', NodeFine w m ∧ x ∈ w.inodes m ∧ ∀ fuel, d ≤ fuel →
      Cursor.search fuel w x.key (some n) st =
      .ok (⟨m, (Node.childIndex (w.inodes m) x.key : Nat)⟩ :: st') := by
  induction h generalizing st with
  | @leaf d n hn hl =>
    refine ⟨n, st, hn, (stores_leaf hl).1 hx, fun fuel hf => ?_⟩
    obtain ⟨k, rfl⟩ : ∃ k, fuel = k + 1 := ⟨fuel - 1, by omega⟩
    simp [Cursor.search, hl]
  | @branch d n hn hl hkids ih =>
    obtain ⟨i, hi, hx⟩ := (stores_branch hl).1 hx
    obtain ⟨l1, l2, hins⟩ := List.append_of_mem hi
    obtain ⟨hle, hlt⟩ := between hn hl hkids hs hins hx
    have hidx : Cursor.searchIndex (w.inodes n) x.key = l1.length := by
      rw [hins]
      exact searchIndex_eq (hins ▸ hn.sorted) hle hlt
    have hget : (w.inodes n)[l1.length]? = some i := by simp [hins]
    obtain ⟨c, y, t, hc, -⟩ := (hn.branch hl i hi).1
    obtain ⟨m, st', hm, hxm, hgo⟩ :=
      ih i hi c hc (hc ▸ ((separated_branch hl).1 hs).2 i hi) (hc ▸ hx)
      (⟨n, (l1.length : Nat)⟩ :: st)
    refine ⟨m, st', hm, hxm, fun fuel hf => ?_⟩
    obtain ⟨k, rfl⟩ : ∃ k, fuel = k + 1 := ⟨fuel - 1, by omega⟩
    unfold Cursor.search
    simp only [hl, Bool.false_eq_true, if_false, hidx, hget, hc]
    exact hgo k (by omega)

/-- `Get` finds every stored key. -/
lemma get_eq (h : FineTree w d n) (hs : Separated w (some n)) (hx : Stores w (some n) x)
    {b : BucketId} (hr : Bucket.rootView w b = some n) {fuel : Nat} (hf : d ≤ fuel) :
    Bucket.get fuel w b x.key = .ok x.value := by
  obtain ⟨m, st, hm, hxm, hgo⟩ := h.search_eq hs hx []
  obtain ⟨l1, l2, hins⟩ := List.append_of_mem hxm
  have hsorted := hm.sorted
  rw [hins, List.pairwise_append, List.pairwise_cons] at hsorted
  have hidx : Node.childIndex (w.inodes m) x.key = l1.length := by
    rw [hins]
    refine childIndex_append (fun j hj => hsorted.2.2 j hj x (by simp)) fun j hj => ?_
    rcases List.mem_cons.1 hj with rfl | hj
    · exact le_rfl
    · exact (hsorted.2.1.1 j hj).le
  have hkv : Cursor.keyValue w (⟨m, (l1.length : Nat)⟩ :: st) = .ok (some x.key, x.value) := by
    have hlen : l1.length < (w.inodes m).length := by simp [hins]
    have hneg : ¬ ((l1.length : Int) < 0) := by omega
    rw [Cursor.keyValue, if_neg (by simp only [Cursor.count]; omega)]
    simp [atIndex, hneg, hins, keySlice, hm.key_ne x hxm]
  unfold Bucket.get Cursor.seekStack
  rw [hr, hgo fuel hf, hidx, Outcome.ok_bind, hkv]
  simp [bytesEqual]

end FineTree

/-- If `checkBucket` reports nothing, the leaf inodes of the tree are in strictly ascending order
exactly if in every branch what is stored under a child is below the next separator, and in that
case `Get` returns the value of every key that is stored. -/
theorem checked_tree_is_search_tree (w : World) (name : Name) (root : Option NodeId)
    (ks : KVStringer) (hfin : ∀ r, root = some r → {m | ∃ p, follow (kids w) r p = some m}.Finite)
    (hclean : ∀ᶠ fuel in atTop, checkBucket fuel w name (some ⟨root⟩) ks = .ok []) :
    ∃ l, (∀ᶠ d in atTop, inOrder w d root = l) ∧
      ((l.Pairwise fun x y => x.key < y.key) ↔ Separated w root) ∧
      (Separated w root → ∀ b, Bucket.rootView w b = root → ∀ x, Stores w root x →
        ∀ᶠ fuel in atTop, Bucket.get fuel w b x.key = .ok x.value) := by
  cases root with
  | none =>
    refine ⟨[], .of_forall fun d => ?_, iff_of_true .nil nofun, fun _ b _ x hx => ?_⟩
    · cases d <;> rfl
    · obtain ⟨r, p, m, e, -⟩ := hx
      cases e
  | some r =>
    obtain ⟨errs, hrun, hiff⟩ := checkLoop_root w name ks r (hfin r rfl)
    obtain ⟨fuel, e1, e2⟩ := (hrun.and hclean).exists
    obtain rfl : errs = [] := by
      have : Outcome.ok errs = .ok [] := e1.symm.trans e2
      simpa using this
    obtain ⟨hsimple, hfine⟩ := hiff.1 rfl
    obtain ⟨D, hD⟩ := hsimple.bounded (hfin r rfl)
    have htree : FineTree w (D + 1) r := fineTree_of_bounded fun p m hp => ⟨hfine p m hp, hD p m hp⟩
    refine ⟨inOrder w (D + 1) (some r), ?_, htree.sorted_iff, fun hs b hb x hx => ?_⟩
    · filter_upwards [eventually_ge_atTop (D + 1)] with d hd
      exact htree.inOrder_eq hd
    · filter_upwards [eventually_ge_atTop (D + 1)] with fuel hf
      exact htree.get_eq hs hx hb hf

/-- A branch over leaves has finitely many nodes. -/
lemma finite_of_leaves {r : NodeId} (hr : (w.nodes r).isLeaf = false)
    (hkids : ∀ i ∈ w.inodes r, ∀ c, i.child = some c → (w.nodes c).isLeaf = true) :
    {m | ∃ p, follow (kids w) r p = some m}.Finite := by
  refine (((w.inodes r).filterMap Inode.child).toFinset.finite_toSet.insert r).subset ?_
  rintro m ⟨p, hp⟩
  cases p with
  | nil =>
    cases hp
    exact .inl rfl
  | cons j p =>
    obtain ⟨i, c, hi, hc, hp⟩ := (follow_branch hr).1 hp
    have hmem := List.mem_of_getElem? hi
    obtain ⟨-, rfl⟩ := follow_leaf (hkids i hmem c hc) hp
    exact .inr (by simpa using ⟨i, hmem, hc⟩)

/-- The tree of three leaves passes the check, it is separated, and a key in its second leaf is
found. -/
theorem checked_tree_is_search_tree_threeLeaves : ∃ l,
    (∀ᶠ d in atTop, inOrder threeLeaves d (some 0) = l) ∧
    l.map Inode.key = [[1], [2], [3], [4], [5], [6]] ∧ Separated threeLeaves (some 0) ∧
    ∀ᶠ fuel in atTop, Bucket.get fuel threeLeaves 0 [4] = .ok (some []) := by
  obtain ⟨l, hl, hiff, hget⟩ := checked_tree_is_search_tree threeLeaves [9] (some 0) ⟨id⟩
    (fun r hr => by cases hr; exact finite_of_leaves rfl (by decide))
    ((checkLoop_growing threeLeaves [9] ⟨id⟩ _ _ _).eventually_eq_ok
      (by decide +kernel : checkBucket 10 threeLeaves [9] (some ⟨some 0⟩) ⟨id⟩ = .ok []))
  have hkeys : l.map Inode.key = [[1], [2], [3], [4], [5], [6]] := by
    obtain ⟨d, rfl, hd⟩ := (hl.and (eventually_ge_atTop 2)).exists
    obtain ⟨k, rfl⟩ : ∃ k, d = k + 2 := ⟨d - 2, by omega⟩
    rfl
  have hsep : Separated threeLeaves (some 0) := by
    refine hiff.1 (List.pairwise_map.1 ?_)
    rw [hkeys]
    decide
  exact ⟨l, hl, hkeys, hsep,
    hget hsep 0 rfl ⟨[4], some [], none⟩ ⟨0, [1], 2, rfl, rfl, rfl, by decide⟩⟩

/-- A transaction has opened a bucket whose root is a branch with the separators `[1]` and `[5]`;
the first leaf holds the keys `[1]` and `[9]`, the second one the key `[5]`. -/
def crossed : World :=
  { World.init default false with
    nodes := fun
      | 0 => ⟨none, false, false, false, [], none, ⟨0, 2⟩⟩
      | 1 => ⟨none, true, false, false, [1], none, ⟨1, 2⟩⟩
      | _ => ⟨none, true, false, false, [5], none, ⟨2, 1⟩⟩
    nextNode := 3
    arrays := fun
      | 0 => [⟨[1], none, some 1⟩, ⟨[5], none, some 2⟩]
      | 1 => [⟨[1], some [1], none⟩, ⟨[9], some [9], none⟩]
      | _ => [⟨[5], some [5], none⟩]
    buckets := fun _ => ⟨0, [7], none, ∅, defaultFillPercent⟩
    txs := fun _ => ⟨false, false, true, some ⟨AList.singleton [7] (some ⟨some 0⟩)⟩, ∅, ∅, ∅⟩ }

/-- A tree that passes the check although its keys are not in order; a key that is stored is not
found. -/
theorem checked_tree_loses_key :
    {m | ∃ p, follow (kids crossed) 0 p = some m}.Finite ∧
    (∀ᶠ fuel in atTop, checkBucket fuel crossed [7] (some ⟨some 0⟩) ⟨id⟩ = .ok []) ∧
    (∀ᶠ d in atTop, (inOrder crossed d (some 0)).map Inode.key = [[1], [9], [5]]) ∧
    Bucket.rootView crossed 0 = some 0 ∧ Stores crossed (some 0) ⟨[9], some [9], none⟩ ∧
    ∀ᶠ fuel in atTop, Bucket.get fuel crossed 0 [9] = .ok none := by
  have hcheck : checkLoop crossed [7] ⟨id⟩ 10 ∅ [some 0] [] = .ok [] := by decide +kernel
  have hget : Bucket.get 10 crossed 0 [9] = .ok none := by decide +kernel
  refine ⟨finite_of_leaves rfl (by decide),
    (checkLoop_growing crossed [7] ⟨id⟩ _ _ _).eventually_eq_ok hcheck, ?_, rfl,
    ⟨0, [0], 1, rfl, rfl, rfl, by decide⟩, (get_growing crossed 0 [9]).eventually_eq_ok hget⟩
  filter_upwards [eventually_ge_atTop 2] with d hd
  obtain ⟨k, rfl⟩ : ∃ k, d = k + 2 := ⟨d - 2, by omega⟩
  rfl

end

end Vmbolt
