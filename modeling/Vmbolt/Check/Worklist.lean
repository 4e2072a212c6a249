import Vmbolt.Lib.Fuel
import Vmbolt.Lib.Paths
import Vmbolt.Model.Check
import Vmbolt.Model.DB

/-!
# What a check decides

`checkBucket` is a worklist traversal with a set of visited nodes. It ends on every finite graph,
and it reports nothing exactly if no node is reached by two paths and every node that is reached
meets the local conditions `NodeFine`: a branch that is skipped because of an error has left an
error behind.
-/

namespace Vmbolt
open Filter

/-- The pointers of a node the walk goes through: those of the inodes of a branch. -/
def kids (w : World) (n : NodeId) : List (Option NodeId) :=
  if (w.nodes n).isLeaf then [] else (w.inodes n).map Inode.child

/-- An inode of a branch points to a node that begins with its key. -/
def Links (w : World) (i : Inode) : Prop :=
  ∃ c x l, i.child = some c ∧ w.inodes c = x :: l ∧ i.key = x.key

/-- The local conditions on a node. -/
structure NodeFine (w : World) (n : NodeId) : Prop where
  key_ne : ∀ i ∈ w.inodes n, i.key ≠ []
  sorted : (w.inodes n).Pairwise fun i j => i.key < j.key
  leaf : (w.nodes n).isLeaf = true → ∀ i ∈ w.inodes n, i.child = none
  branch : (w.nodes n).isLeaf = false → ∀ i ∈ w.inodes n, Links w i ∧ i.value.getD [] = []

section
variable {w : World} {name : Name} {ks : KVStringer} {n : NodeId}

/-! ## One node -/

lemma errIf_eq_nil {c : Prop} [Decidable c] {e : CheckErr} : errIf c e = [] ↔ ¬ c := by
  unfold errIf
  split <;> simp_all

/-- The shape `checkNode` asks of an inode. -/
def Shaped (isLeaf : Bool) (i : Inode) : Prop :=
  i.key ≠ [] ∧ if isLeaf then i.child = none else i.child ≠ none ∧ i.value.getD [] = []

lemma checkInode_eq_nil {isLeaf : Bool} {i : Nat} {prev : Bytes} {item : Inode} :
    checkInode name ks n isLeaf i prev item = [] ↔
      Shaped isLeaf item ∧ (0 < i → prev < item.key) := by
  unfold checkInode Shaped
  cases isLeaf <;>
    simp only [List.append_eq_nil_iff, errIf_eq_nil, not_and, not_le,
      List.length_eq_zero_iff, not_not, if_true, Bool.false_eq_true, if_false] <;>
    tauto

/-- The loop of `checkNode` behind the first inode. -/
lemma checkNodeLoop_eq_nil {isLeaf : Bool} {i : Nat} {prev : Bytes} {l : List Inode} (hi : 0 < i) :
    checkNodeLoop name ks n isLeaf i prev l = [] ↔
      (∀ x ∈ l, Shaped isLeaf x ∧ prev < x.key) ∧ l.Pairwise fun x y => x.key < y.key := by
  induction l generalizing i prev with
  | nil => simp [checkNodeLoop]
  | cons item l ih =>
    rw [checkNodeLoop, List.append_eq_nil_iff, checkInode_eq_nil, ih (Nat.succ_pos i),
      List.pairwise_cons, List.forall_mem_cons]
    constructor
    · rintro ⟨⟨hs, hp⟩, hall, hpair⟩
      exact ⟨⟨⟨hs, hp hi⟩, fun x hx => ⟨(hall x hx).1, (hp hi).trans (hall x hx).2⟩⟩,
        fun x hx => (hall x hx).2, hpair⟩
    · rintro ⟨⟨⟨hs, hp⟩, hall⟩, hlt, hpair⟩
      exact ⟨⟨hs, fun _ => hp⟩, fun x hx => ⟨(hall x hx).1, hlt x hx⟩, hpair⟩

lemma checkNode_eq_nil : checkNode w name ks n = [] ↔
    (∀ x ∈ w.inodes n, Shaped (w.nodes n).isLeaf x) ∧
      (w.inodes n).Pairwise fun x y => x.key < y.key := by
  unfold checkNode
  cases w.inodes n with
  | nil => simp [checkNodeLoop]
  | cons item l =>
    rw [checkNodeLoop, List.append_eq_nil_iff, checkInode_eq_nil, checkNodeLoop_eq_nil Nat.one_pos,
      List.pairwise_cons, List.forall_mem_cons]
    constructor
    · rintro ⟨⟨hs, -⟩, hall, hpair⟩
      exact ⟨⟨hs, fun x hx => (hall x hx).1⟩, fun x hx => (hall x hx).2, hpair⟩
    · rintro ⟨⟨hs, hall⟩, hlt, hpair⟩
      exact ⟨⟨hs, nofun⟩, fun x hx => ⟨hall x hx, hlt x hx⟩, hpair⟩

/-- The loop over the inodes of a branch reports nothing if they all link to a child, and then it
pushes all children. -/
lemma checkChildren_eq_nil {i : Nat} {l : List Inode} :
    ((checkChildren w name ks n i l).1 = [] ↔ ∀ x ∈ l, Links w x) ∧
      ((∀ x ∈ l, Links w x) → l.map Inode.child = (checkChildren w name ks n i l).2.map some) := by
  induction l generalizing i with
  | nil => simp [checkChildren]
  | cons item l ih =>
    obtain ⟨ih1, ih2⟩ := ih (i := i + 1)
    rw [List.forall_mem_cons]
    unfold checkChildren
    rcases hc : item.child with _ | c
    · have hno : ¬ Links w item := by
        rintro ⟨c, x, t, e, -⟩
        rw [hc] at e
        cases e
      simp [hno]
    · rcases hins : w.inodes c with _ | ⟨x, t⟩
      · have hno : ¬ Links w item := by
          rintro ⟨c', x, t, e, e', -⟩
          rw [hc] at e
          cases e
          rw [hins] at e'
          cases e'
        simp [hno, hins]
      · have hlink : Links w item ↔ item.key = x.key := by
          constructor
          · rintro ⟨c', x', t', e, e', hk⟩
            rw [hc] at e
            cases e
            rw [hins] at e'
            cases e'
            exact hk
          · exact fun hk => ⟨c, x, t, hc, hins, hk⟩
        simp only [hins, List.append_eq_nil_iff, errIf_eq_nil, not_not, hlink, ih1,
          List.map_cons, hc, true_and]
        rintro ⟨-, hall⟩
        rw [ih2 hall]

/-- What the walk pushes are children. -/
lemma mem_checkChildren {i : Nat} {l : List Inode} {c : NodeId}
    (h : c ∈ (checkChildren w name ks n i l).2) : some c ∈ l.map Inode.child := by
  induction l generalizing i with
  | nil => simp [checkChildren] at h
  | cons item l ih =>
    unfold checkChildren at h
    rcases hc : item.child with _ | d
    · simp only [hc] at h
      simpa [hc] using ih h
    · rcases hins : w.inodes d with _ | ⟨x, t⟩
      · simp only [hc, hins] at h
        exact List.mem_cons_of_mem _ (ih h)
      · simp only [hc, hins, List.mem_cons] at h
        rcases h with rfl | h
        · simp [hc]
        · exact List.mem_cons_of_mem _ (ih h)

/-- The check of one node reports nothing exactly if the node is fine, and then all its children are
pushed. -/
lemma nodeFine_iff (name : Name) (ks : KVStringer) :
    checkNode w name ks n = [] ∧ (checkLinks w name ks n).1 = [] ↔ NodeFine w n := by
  rw [checkNode_eq_nil, checkLinks]
  cases hl : (w.nodes n).isLeaf with
  | true =>
    simp only [if_true, and_true, Shaped]
    exact ⟨fun h =>
      ⟨fun i hi => (h.1 i hi).1, h.2, fun _ i hi => (h.1 i hi).2, fun e => by simp [hl] at e⟩,
      fun h => ⟨fun i hi => ⟨h.key_ne i hi, h.leaf hl i hi⟩, h.sorted⟩⟩
  | false =>
    simp only [Bool.false_eq_true, if_false, checkChildren_eq_nil.1, Shaped]
    constructor
    · rintro ⟨⟨hs, hp⟩, hlink⟩
      exact ⟨fun i hi => (hs i hi).1, hp, fun e => by simp [hl] at e,
        fun _ i hi => ⟨hlink i hi, (hs i hi).2.2⟩⟩
    · intro h
      refine ⟨⟨fun i hi => ⟨h.key_ne i hi, ?_, (h.branch hl i hi).2⟩, h.sorted⟩,
        fun i hi => (h.branch hl i hi).1⟩
      obtain ⟨c, x, l, e, -⟩ := (h.branch hl i hi).1
      simp [e]

lemma NodeFine.kids_eq (h : NodeFine w n) (name : Name) (ks : KVStringer) :
    kids w n = (checkLinks w name ks n).2.map some := by
  unfold kids checkLinks
  cases hl : (w.nodes n).isLeaf with
  | true => rfl
  | false => exact checkChildren_eq_nil.2 fun i hi => (h.branch hl i hi).1

lemma mem_checkLinks {c : NodeId} (h : c ∈ (checkLinks w name ks n).2) : some c ∈ kids w n := by
  unfold checkLinks at h
  unfold kids
  cases hl : (w.nodes n).isLeaf with
  | true => simp [hl] at h
  | false =>
    rw [hl] at h
    exact mem_checkChildren h

/-! ## The walk -/

variable {visited : Finset NodeId} {stack : List NodeId} {errs r : List CheckErr} {fuel : Nat}

lemma checkLoop_growing (w : World) (name : Name) (ks : KVStringer) (visited : Finset NodeId)
    (stack : List (Option NodeId)) (errs : List CheckErr) :
    Outcome.Growing fun k => checkLoop w name ks k visited stack errs := by
  intro k
  induction k generalizing visited stack errs with
  | zero => exact .inl rfl
  | succ k ih =>
    rcases stack with _ | ⟨_ | n, stack⟩
    · exact .refl _
    · exact ih _ _ _
    · simp only [checkLoop]
      split
      · exact ih _ _ _
      · exact ih _ _ _

/-- Errors that were found stay. -/
lemma checkLoop_prefix {stack : List (Option NodeId)}
    (h : checkLoop w name ks fuel visited stack errs = .ok r) : errs <+: r := by
  induction fuel generalizing visited stack errs with
  | zero => cases h
  | succ fuel ih =>
    rcases stack with _ | ⟨_ | n, stack⟩
    · cases h
      exact List.prefix_rfl
    · exact (List.prefix_append _ _).trans (ih h)
    · simp only [checkLoop] at h
      split at h
      · exact (List.prefix_append _ _).trans (ih h)
      · refine List.IsPrefix.trans ?_ (ih h)
        rw [List.append_assoc]
        exact List.prefix_append _ _

/-- The walk reports nothing exactly if nothing is met twice and every node is fine. -/
lemma checkLoop_eq_nil (h : checkLoop w name ks fuel visited (stack.map some) errs = .ok r) :
    r = [] ↔ errs = [] ∧ Pending (kids w) (NodeFine w) ↑visited stack := by
  induction fuel generalizing visited stack errs with
  | zero => cases h
  | succ fuel ih =>
    cases stack with
    | nil =>
      cases h
      exact (and_iff_left .nil).symm
    | cons n stack =>
      simp only [List.map_cons, checkLoop] at h
      split at h
      next hn =>
        -- a node that is met again
        have hne : r ≠ [] := by
          rintro rfl
          simpa using checkLoop_prefix h
        refine iff_of_false hne fun hp => ?_
        exact (hp.2.reach n (by simp) [] n rfl).2 hn
      next hn =>
        by_cases hfine : NodeFine w n
        · obtain ⟨h1, h2⟩ := (nodeFine_iff name ks).2 hfine
          rw [h1, h2, List.append_nil, List.append_nil, ← List.map_append] at h
          rw [ih h, pending_cons_iff (hfine.kids_eq name ks) hfine, Finset.coe_insert]
          simp [hn]
        · have hne : r ≠ [] := by
            rintro rfl
            have := checkLoop_prefix h
            simp only [List.prefix_nil, List.append_eq_nil_iff] at this
            exact hfine ((nodeFine_iff name ks).1 ⟨this.1.2, this.2⟩)
          refine iff_of_false hne fun hp => hfine ?_
          exact (hp.2.reach n (by simp) [] n rfl).1

/-- The walk ends if the nodes it can meet are finitely many. -/
lemma checkLoop_ends (name : Name) (ks : KVStringer) (visited : Finset NodeId)
    (errs : List CheckErr) {R : Finset NodeId} (hR : ∀ n ∈ R, ∀ c, some c ∈ kids w n → c ∈ R)
    (hs : ∀ c ∈ stack, c ∈ R) :
    ∃ fuel r, checkLoop w name ks fuel visited (stack.map some) errs = .ok r := by
  induction hk : (R \ visited).card using Nat.strong_induction_on
    generalizing visited stack errs with
  | _ k ih =>
    induction stack generalizing errs with
    | nil => exact ⟨1, errs, rfl⟩
    | cons n stack ihs =>
      by_cases hn : n ∈ visited
      · obtain ⟨fuel, r, h⟩ := ihs (errs ++ [.multipleParents name n])
          fun c hc => hs c (List.mem_cons_of_mem _ hc)
        exact ⟨fuel + 1, r, by simp only [List.map_cons, checkLoop, if_pos hn]; exact h⟩
      · have hnR := hs n (by simp)
        have hlt : (R \ insert n visited).card < k := by
          rw [← hk]
          refine Finset.card_lt_card
            ⟨Finset.sdiff_subset_sdiff subset_rfl (Finset.subset_insert _ _), ?_⟩
          intro hsub
          have := hsub (Finset.mem_sdiff.2 ⟨hnR, hn⟩)
          simp at this
        have hstack : ∀ c ∈ (checkLinks w name ks n).2.reverse ++ stack, c ∈ R := by
          intro c hc
          rcases List.mem_append.1 hc with hc | hc
          · exact hR n hnR c (mem_checkLinks (List.mem_reverse.1 hc))
          · exact hs c (List.mem_cons_of_mem _ hc)
        obtain ⟨fuel, r, h⟩ := ih _ hlt (insert n visited)
          (errs ++ checkNode w name ks n ++ (checkLinks w name ks n).1) hstack rfl
        refine ⟨fuel + 1, r, ?_⟩
        simp only [List.map_cons, checkLoop, if_neg hn]
        rwa [List.map_append] at h

/-- The walk from a root. -/
lemma checkLoop_root (w : World) (name : Name) (ks : KVStringer) (root : NodeId)
    (hfin : {m | ∃ p, follow (kids w) root p = some m}.Finite) :
    ∃ errs, (∀ᶠ fuel in atTop, checkLoop w name ks fuel ∅ [some root] [] = .ok errs) ∧
      (errs = [] ↔ Simple (kids w) root ∧ ∀ p m, follow (kids w) root p = some m →
        NodeFine w m) := by
  have hclosed : ∀ n ∈ hfin.toFinset, ∀ c, some c ∈ kids w n → c ∈ hfin.toFinset := by
    intro n hn c hc
    rw [Set.Finite.mem_toFinset] at hn ⊢
    obtain ⟨p, hp⟩ := hn
    obtain ⟨i, hi⟩ := List.mem_iff_getElem?.1 hc
    refine ⟨p ++ [i], ?_⟩
    rw [follow_append hp, follow, hi]
    rfl
  have hroot : ∀ c ∈ [root], c ∈ hfin.toFinset := by
    intro c hc
    rw [List.mem_singleton.1 hc, Set.Finite.mem_toFinset]
    exact ⟨[], rfl⟩
  obtain ⟨fuel, errs, h⟩ := checkLoop_ends name ks ∅ [] hclosed hroot
  refine ⟨errs, (checkLoop_growing w name ks _ _ _).eventually_eq_ok h, ?_⟩
  rw [checkLoop_eq_nil h, and_iff_right rfl]
  constructor
  · intro hp
    exact ⟨hp.simple root (by simp), fun p m hm => (hp.reach root (by simp) p m hm).1⟩
  · rintro ⟨hs, hg⟩
    exact ⟨fun c hc p m hm => ⟨hg p m (List.mem_singleton.1 hc ▸ hm), by simp⟩,
      fun c hc => List.mem_singleton.1 hc ▸ hs, List.pairwise_singleton _ _⟩

/-- `checkBucket` on a finite graph returns, and it returns no errors exactly if the root is nil, or
no node is reached by two paths and every node that is reached is fine. -/
theorem checkBucket_clean_iff (w : World) (name : Name) (root : Option NodeId) (ks : KVStringer)
    (hfin : ∀ r, root = some r → {m | ∃ p, follow (kids w) r p = some m}.Finite) :
    ∃ errs, (∀ᶠ fuel in atTop, checkBucket fuel w name (some ⟨root⟩) ks = .ok errs) ∧
      (errs = [] ↔ ∀ r, root = some r →
        (∀ p q m, follow (kids w) r p = some m → follow (kids w) r q = some m → p = q) ∧
          ∀ p m, follow (kids w) r p = some m → NodeFine w m) := by
  cases root with
  | none => exact ⟨[], .of_forall fun _ => rfl, by simp⟩
  | some root =>
    obtain ⟨errs, h, hiff⟩ := checkLoop_root w name ks root (hfin root rfl)
    refine ⟨errs, h, hiff.trans ?_⟩
    simp only [Option.some.injEq, forall_eq']
    rfl

/-- A branch whose only inode points back to it. -/
def selfLoop : World :=
  { World.init default false with
    nodes := fun _ => ⟨none, false, false, false, [], none, ⟨0, 1⟩⟩
    arrays := fun _ => [⟨[97], none, some 0⟩] }

theorem checkBucket_clean_iff_selfLoop :
    ∃ errs, (∀ᶠ fuel in atTop, checkBucket fuel selfLoop [98] (some ⟨some 0⟩) ⟨id⟩ = .ok errs) ∧
      (errs = [] ↔ ∀ r, some 0 = some r →
        (∀ p q m, follow (kids selfLoop) r p = some m →
          follow (kids selfLoop) r q = some m → p = q) ∧
          ∀ p m, follow (kids selfLoop) r p = some m → NodeFine selfLoop m) := by
  refine checkBucket_clean_iff selfLoop [98] (some 0) ⟨id⟩ fun r hr => ?_
  cases hr
  refine (Set.finite_singleton (0 : NodeId)).subset ?_
  rintro m ⟨p, hp⟩
  have hall : ∀ p m, follow (kids selfLoop) 0 p = some m → m = 0 := by
    intro p
    induction p with
    | nil =>
      rintro m hm
      exact (Option.some.inj hm).symm
    | cons i p ih =>
      intro m hm
      cases i with
      | zero => exact ih m hm
      | succ i => cases hm
  exact hall p m hp

end

end Vmbolt
