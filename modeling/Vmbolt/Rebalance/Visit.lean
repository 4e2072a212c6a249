import Vmbolt.Rebalance.Calm

/-!
# A visit of `node.rebalance`

A visit clears the flag of its node. Then it is finished (`Tidied`), or it drops or merges the node
and goes on with the parent, one level higher (`Risen`). At the root it comes to an end. The
invariant of the visit is `Rebalancing` with the node it has reached as the exception. All that is
asked of the tree is `VisitFits`, which every node of a `Spaced` tree satisfies; and a tree that is
`Spaced` stays so.
-/

namespace Vmbolt
open Prog

/-- What `node.rebalance` does after it has cleared the flag of the node. -/
def Node.rebalanceRest (fuel : Nat) (n : NodeId) (nd : Node) (ins : List Inode) : Go Unit :=
  if defaultMinNodeMergeBytes < size ins ∧ minKeys nd.isLeaf < ins.length then pure ()
  else
    match nd.parent with
    | none => if nd.isLeaf = false ∧ ins.length = 1 then collapseRoot n else pure ()
    | some p =>
      if ins.length = 0 then do
        del p nd.key
        let p ← parentOf n
        rebalance fuel p
      else do
        let pins ← inodesOf p
        Prog.assert (1 < pins.length) .parentMustHaveAtLeast2Children
        let (left, right) ← mergePair n p
        mergeSiblings n left right
        let p ← parentOf n
        rebalance fuel p

/-- The visit to the node `n` is over. -/
structure Tidied (b : BucketId) (r n : NodeId) (w : World) (g : Layout) (H : Nat) (w' : World)
    (g' : Layout) (H' : Nat) : Prop where
  rebalancing : Rebalancing w' b g' r H' none
  spaced : Spaced w b g → Spaced w' b g'
  contents : contents w' H' r = contents w H r
  quiet : Quiet b w w'
  flags : ∀ m ∈ (w'.buckets b).dirty, (w'.nodes m).unbalanced = true →
    m ≠ n ∧ m ∈ (w.buckets b).dirty ∧ (w.nodes m).unbalanced = true

/-- The visit to the node `n` of level `d` has gone on to its parent `p`. -/
structure Risen (b : BucketId) (r n p : NodeId) (H d : Nat) (w : World) (g : Layout) (w' : World)
    (g' : Layout) : Prop where
  rebalancing : Rebalancing w' b g' r H (some p)
  spaced : Spaced w b g → Spaced w' b g'
  dirty : p ∈ (w'.buckets b).dirty
  lvl : g'.lvl p = some (d + 1)
  flag : (w'.nodes p).unbalanced = true
  contents : contents w' H r = contents w H r
  quiet : Quiet b w w'
  flags : ∀ m ∈ (w'.buckets b).dirty, (w'.nodes m).unbalanced = true →
    m = p ∨ (m ≠ n ∧ m ∈ (w.buckets b).dirty ∧ (w.nodes m).unbalanced = true)

/-- The child of `y` at an index of `p` was fetched for writing; it is `s` now. -/
structure Fetched (b : BucketId) (r n p : NodeId) (H idx : Nat) (y : Inode) (w : World) (g : Layout)
    (s : NodeId) (w' : World) (g' : Layout) : Prop where
  rebalancing : Rebalancing w' b g' r H (some n)
  calmer : Calmer b w g w' g'
  contents : contents w' H r = contents w H r
  quiet : Quiet b w w'
  flags : NoneFlagged b w w'
  dirty : ∀ m ∈ (w.buckets b).dirty, m ∈ (w'.buckets b).dirty ∧ g'.lvl m = g.lvl m ∧
    w'.nodes m = w.nodes m
  fetched : s ∈ (w'.buckets b).dirty
  old : s ∈ (w.buckets b).dirty → s = y.kid
  inodes_parent : w'.inodes p = (w.inodes p).modify idx fun i => { i with child := some s }
  view : ∀ m e, g.lvl m = some e → m ≠ p → w'.inodes m = w.inodes m
  begun : ∀ w0 g0, g.lvl n = some 0 → Begun b r n H w0 g0 w g → Begun b r n H w0 g0 w' g'

section
variable {w w' w0 : World} {b : BucketId} {g g' g0 : Layout} {r n p q m c s : NodeId}
  {H d e idx fuel : Nat} {i j y : Inode} {l1 l2 : List Inode} {x : Option NodeId}

/-! ## The function -/

lemma rebalance_of_unflagged (hf : (w.nodes n).unbalanced = false) (fuel : Nat) :
    Node.rebalance (fuel + 1) n w = (.ok (), w) := by
  unfold Node.rebalance nodeOf
  rw [Prog.read_bind, hf]
  rfl

lemma rebalance_of_flagged (hw : w.Sound) (hb : (w.nodes n).bucket = some b)
    (hf : (w.nodes n).unbalanced = true) (fuel : Nat) :
    Node.rebalance (fuel + 1) n w =
      Node.rebalanceRest fuel n (w.nodes n) (w.inodes n) (w.unflag n) := by
  have hunflag : modifyNode n (fun nd => { nd with unbalanced := false }) w =
      (.ok (), w.unflag n) :=
    write_eq hw.cut
  rw [Node.rebalance]
  unfold nodeOf inodesOf
  rw [Prog.read_bind, hf, if_neg (by simp), Prog.bind_ok hunflag, hb, deref, pure_bind,
    Prog.read_bind, World.unflag_inodes]
  rfl

lemma rest_large (hl : Large w n) : Node.rebalanceRest fuel n (w.nodes n) (w.inodes n) = pure () :=
  if_pos hl

lemma rest_root (hl : ¬ Large w n) (hp : (w.nodes n).parent = none)
    (hn : ¬ ((w.nodes n).isLeaf = false ∧ (w.inodes n).length = 1)) :
    Node.rebalanceRest fuel n (w.nodes n) (w.inodes n) = pure () := by
  unfold Large at hl
  unfold Node.rebalanceRest
  rw [if_neg hl, hp]
  exact if_neg hn

lemma rest_collapse (hl : ¬ Large w n) (hp : (w.nodes n).parent = none)
    (hn : (w.nodes n).isLeaf = false ∧ (w.inodes n).length = 1) :
    Node.rebalanceRest fuel n (w.nodes n) (w.inodes n) = Node.collapseRoot n := by
  unfold Large at hl
  unfold Node.rebalanceRest
  rw [if_neg hl, hp]
  exact if_pos hn

lemma parentOf_eq (hp : (w.nodes n).parent = some p) : Node.parentOf n w = (.ok p, w) := by
  unfold Node.parentOf nodeOf
  rw [Prog.read_bind, hp]
  rfl

lemma rest_empty {w1 w2 : World} (hp : (w.nodes n).parent = some p) (hins : w.inodes n = [])
    (hdel : Node.del p (w.nodes n).key w1 = (.ok (), w2)) (hq : (w2.nodes n).parent = some q) :
    Node.rebalanceRest fuel n (w.nodes n) (w.inodes n) w1 = Node.rebalance fuel q w2 := by
  have hl : ¬ (defaultMinNodeMergeBytes < Node.size [] ∧
      Node.minKeys (w.nodes n).isLeaf < ([] : List Inode).length) := by
    rintro ⟨-, h⟩
    exact Nat.not_lt_zero _ h
  unfold Node.rebalanceRest
  rw [hins, if_neg hl, hp]
  dsimp only
  rw [if_pos List.length_nil, Prog.bind_ok hdel, Prog.bind_ok (parentOf_eq hq)]

lemma rest_merge {w1 w2 w3 : World} (hl : ¬ Large w n) (hp : (w.nodes n).parent = some p)
    (hins : w.inodes n ≠ []) (hlen : 1 < (w1.inodes p).length)
    (hpair : Node.mergePair n p w1 = (.ok (s, c), w2))
    (hmerge : Node.mergeSiblings n s c w2 = (.ok (), w3)) (hq : (w3.nodes n).parent = some q) :
    Node.rebalanceRest fuel n (w.nodes n) (w.inodes n) w1 = Node.rebalance fuel q w3 := by
  unfold Large at hl
  unfold Node.rebalanceRest
  rw [if_neg hl, hp]
  dsimp only
  rw [if_neg (by simpa using hins)]
  unfold inodesOf
  rw [Prog.read_bind, Prog.assert_pos hlen, pure_bind, Prog.bind_ok hpair]
  dsimp only
  rw [Prog.bind_ok hmerge, Prog.bind_ok (parentOf_eq hq)]

/-! ## Siblings -/

lemma takenOver_unflag : Node.takenOver (w.unflag n) n = Node.takenOver w n := by
  unfold Node.takenOver
  simp only [World.unflag_inodes]
  rw [World.unflag_fields n]

/-- A child of a branch of the handle is fetched for writing. -/
lemma Rebalancing.fetch (h : Rebalancing w b g r H (some n)) (hn : n ∈ (w.buckets b).dirty)
    (hp : p ∈ (w.buckets b).dirty) (hpl : g.lvl p = some (d + 1))
      (hy : (w.inodes p)[idx]? = some y) :
    ∃ s w' g', Node.childAt p idx w = (.ok s, w') ∧ Fetched b r n p H idx y w g s w' g' := by
  have hc := (h.tree.branch p d hpl).child y (List.mem_of_getElem? hy)
  have hat : Node.childAt p idx w = Bucket.childForWrite b p idx w := by
    unfold Node.childAt nodeOf
    simp only [Prog.read_bind, h.tree.isLeaf_false hpl, Bool.false_eq_true, if_false,
      (h.dirty p hp).owned]
    rfl
  rw [hat]
  by_cases hd : y.kid ∈ (w.buckets b).dirty
  · refine ⟨y.kid, w, g, ?_, h, .refl b w g, rfl, .refl b w, .refl b w,
      fun m hm => ⟨hm, rfl, rfl⟩, hd, fun _ => rfl, ?_, fun _ _ _ _ => rfl, fun _ _ _ hs => hs⟩
    · unfold Bucket.childForWrite inodesOf bucketOf
      simp only [Prog.read_bind, hy, hc, if_pos hd]
      rfl
    · -- the child is written where it stands
      have hself : ({ y with child := some y.kid } : Inode) = y := by rw [← hc]
      obtain ⟨hlt, hx⟩ := List.getElem?_eq_some_iff.1 hy
      rw [List.modify_eq_take_cons_drop hlt, hx, hself, ← hx, List.getElem_cons_drop,
        List.take_append_drop]
  · obtain ⟨w', he, hcop⟩ := childForWrite_eq h.sound (h.tree.alloc p _ hpl) hy hc hd
    have hmoved := h.moved hp hpl hy hcop
    have hx : ∀ m, some n = some m → m ∈ (w.buckets b).dirty := by
      intro m hm
      cases hm
      exact hn
    have hsub : ∀ {m}, m ∈ (w.buckets b).dirty → subst y.kid w.nextNode m = m :=
      fun hm => if_neg fun (heq : _ = y.kid) => hd (heq ▸ hm)
    refine ⟨w.nextNode, w', _, he, h.copied hx hp hpl hy hd hcop he,
      .copied h.toHandleBut hp hpl hy hcop,
      ?_, hcop.quiet, hcop.noneFlagged fun m hm => (h.dirty m hm).alloc,
      fun m hm => ⟨?_, ?_, ?_⟩, ?_, fun hm => absurd (h.dirty _ hm).alloc (lt_irrefl _),
      hcop.inodes_parent, fun m e hm hmp => ?_,
      fun w0 g0 hl hs => hs.copied h.toHandleBut hl hn hp hpl hy hd hcop⟩
    · have := hmoved.contents_eq h.tree h.tree.lvl_root
      rwa [hsub h.root_dirty] at this
    · rw [hcop.bucket]
      exact Finset.mem_insert_of_mem hm
    · rcases hl : g.lvl m with _ | e
      · rcases hl' : (g.move y.kid w.nextNode).lvl m with _ | e
        · rfl
        · -- only the copy is new in the tree
          obtain ⟨m', hm', hsm⟩ := Moved.exists_subst hl'
          by_cases hm'y : m' = y.kid
          · rw [show subst y.kid w.nextNode m' = w.nextNode from if_pos hm'y] at hsm
            exact absurd (h.dirty m hm).alloc (by rw [← hsm]; exact lt_irrefl _)
          · rw [show subst y.kid w.nextNode m' = m' from if_neg hm'y] at hsm
            rw [hsm, hl] at hm'
            cases hm'
      · have := hmoved.lvl_subst hl
        rwa [hsub hm] at this
    · exact hcop.other m (h.dirty m hm).alloc
    · rw [hcop.bucket]
      exact Finset.mem_insert_self _ _
    · exact hcop.view m (h.tree.alloc m e hm) hmp (h.sep p hp _ hpl m e hm hmp)

/-- The place of a node in its parent, and the index under which `node.rebalance` finds it. -/
lemma HandleBut.place (h : HandleBut w b g r H x) (hn : n ∈ (w.buckets b).dirty)
    (hnl : g.lvl n = some d) (hnr : n ≠ r) :
    ∃ p l1 i l2, (w.nodes n).parent = some p ∧ p ∈ (w.buckets b).dirty ∧
      g.lvl p = some (d + 1) ∧ w.inodes p = l1 ++ i :: l2 ∧ i.kid = n ∧ p ≠ n ∧
      Node.childIndex (w.inodes p) (w.nodes n).key = l1.length := by
  obtain ⟨hp, l1, i, l2, hins, rfl⟩ := h.tree.place hnl hnr
  obtain ⟨h1, h2⟩ := h.parent _ hn d hnl hnr
  have hb := h.tree.branch _ d hp
  have hs := hb.sorted
  rw [hins, List.pairwise_append, List.pairwise_cons] at hs
  refine ⟨_, l1, i, l2, h1, h2, hp, hins, rfl, h.tree.par_ne hnl hnr, ?_⟩
  rw [hb.key i (by rw [hins]; simp), hins]
  refine childIndex_append (fun y hy => hs.2.2 y hy i (by simp)) fun y hy => ?_
  rcases List.mem_cons.1 hy with rfl | hy
  · exact le_rfl
  · exact (hs.2.1.1 y hy).le

/-- `node.rebalance` gets the node and a sibling: the right one of a first child, the left one
otherwise. -/
lemma Rebalancing.pair (h : Rebalancing w b g r H (some n)) (hn : n ∈ (w.buckets b).dirty)
    (hnl : g.lvl n = some d) (hnr : n ≠ r) (hf : (w.nodes n).unbalanced = false)
    (hne : w.inodes n ≠ []) (hpar : (w.nodes n).parent = some p) :
    ∃ l1 i j l2 idx y s w' g', Node.mergePair n p w = (.ok (i.kid, j.kid), w') ∧
      Beside w' b g' r H n p d l1 i j l2 ∧
      (n = i.kid → Node.takenOver w n = some y.kid ∧ j.kid = s) ∧
      Fetched b r n p H idx y w g s w' g' := by
  obtain ⟨p', a1, z, a2, h1, hp, hpl, hins, rfl, hpn, hidx⟩ := h.toHandleBut.place hn hnl hnr
  obtain rfl : p' = p := Option.some.inj (h1.symm.trans hpar)
  have hlen := h.two p' d hpl fun he => hpn (Option.some.inj he).symm
  have hbeside : ∀ {l1 i j l2 idx y s w' g'}, Fetched b r z.kid p' H idx y w g s w' g' →
      w'.inodes p' = l1 ++ i :: j :: l2 → i.kid = s ∧ j = z ∨ i = z ∧ j.kid = s →
      Beside w' b g' r H z.kid p' d l1 i j l2 := by
    intro l1 i j l2 idx y s w' g' hfe hins' hij
    have hz := hfe.dirty _ hn
    have hp' := hfe.dirty _ hp
    refine ⟨hfe.rebalancing.toHandleBut, hp'.2.1.trans hpl, hp'.1, hins', ?_, ?_, ?_, ?_, ?_⟩
    · rcases hij with ⟨h1, -⟩ | ⟨rfl, -⟩
      · rw [h1]
        exact hfe.fetched
      · exact hz.1
    · rcases hij with ⟨-, rfl⟩ | ⟨-, h1⟩
      · exact hz.1
      · rw [h1]
        exact hfe.fetched
    · rcases hij with ⟨-, rfl⟩ | ⟨rfl, -⟩
      · exact .inr rfl
      · exact .inl rfl
    · rw [hz.2.2]
      exact hf
    · rw [hfe.view _ d hnl hpn.symm]
      exact hne
  rcases List.eq_nil_or_concat a1 with rfl | ⟨t, y, rfl⟩
  · -- a first child: the right sibling
    rcases a2 with _ | ⟨y, a2⟩
    · rw [hins] at hlen
      simp at hlen
    have hy : (w.inodes p')[1]? = some y := by rw [hins]; simp
    obtain ⟨s, w', g', he, hfe⟩ := h.fetch hn hp hpl hy
    have hins' : w'.inodes p' = [] ++ z :: { y with child := some s } :: a2 := by
      rw [hfe.inodes_parent, hins]
      rfl
    refine ⟨[], z, { y with child := some s }, a2, 1, y, s, w', g', ?_,
      hbeside hfe hins' (.inr ⟨rfl, rfl⟩), fun _ => ⟨?_, rfl⟩, hfe⟩
    have hnext : Node.nextSibling z.kid w = (.ok (some s), w') := by
      unfold Node.nextSibling nodeOf inodesOf
      simp only [Prog.read_bind, hpar, hidx]
      rw [if_neg (by simp only [List.length_nil]; omega), List.length_nil, Nat.zero_add,
        Prog.bind_ok he]
      rfl
    · unfold Node.mergePair nodeOf inodesOf
      simp only [Prog.read_bind, hidx]
      rw [if_pos List.length_nil, Prog.bind_ok hnext]
      rfl
    · have hc := (h.tree.branch p' d hpl).child y (List.mem_of_getElem? hy)
      unfold Node.takenOver
      rw [hpar, Option.bind_eq_bind, Option.bind_some, if_pos (hidx.trans List.length_nil), hy]
      exact hc
  · -- the left sibling
    rw [List.concat_eq_append] at hins hidx
    have hy : (w.inodes p')[t.length]? = some y := by rw [hins]; simp
    obtain ⟨s, w', g', he, hfe⟩ := h.fetch hn hp hpl hy
    have hins' : w'.inodes p' = t ++ { y with child := some s } :: z :: a2 := by
      rw [hfe.inodes_parent, hins, List.modify_eq_take_cons_drop (by simp)]
      simp
    have hb := hbeside hfe hins' (.inl ⟨rfl, rfl⟩)
    refine ⟨t, { y with child := some s }, z, a2, t.length, y, s, w', g', ?_, hb,
      fun heq => absurd heq.symm hb.left_ne_right, hfe⟩
    have hprev : Node.prevSibling z.kid w = (.ok (some s), w') := by
      unfold Node.prevSibling nodeOf inodesOf
      simp only [Prog.read_bind, hpar, hidx]
      rw [if_neg (by simp), List.length_append, List.length_singleton, Nat.add_sub_cancel,
        Prog.bind_ok he]
      rfl
    unfold Node.mergePair nodeOf inodesOf
    simp only [Prog.read_bind, hidx]
    rw [if_neg (by simp), Prog.bind_ok hprev]
    rfl

/-! ## Going up -/

/-- Clearing a flag keeps the contents. -/
lemma TreeOK.contents_unflag (h : TreeOK w g r H) : contents (w.unflag n) H r = contents w H r :=
  h.contents_same unflag_sameBut h.lvl_root

/-- An underfull node that is not empty is merged with a sibling. -/
lemma Rebalancing.merge_up (h : Rebalancing w b g r H (some n))
    (hfits : g.lvl n = some 0 → VisitFits w b n) (hn : n ∈ (w.buckets b).dirty)
    (hnl : g.lvl n = some d) (hnr : n ≠ r) (hf : (w.nodes n).unbalanced = true)
    (hlarge : ¬ Large w n) (hne : w.inodes n ≠ []) :
    ∃ p w' g', (∀ fuel, Node.rebalance (fuel + 1) n w = Node.rebalance fuel p w') ∧
      Risen b r n p H d w g w' g' := by
  have h1 := h.unflag
  have hf1 : ((w.unflag n).nodes n).unbalanced = false := World.unflag_self
  have hne1 : (w.unflag n).inodes n ≠ [] := by rwa [World.unflag_inodes]
  obtain ⟨p, l1', z, l2', hpar, hp, hpl, hins, hz, hpn, -⟩ := h.toHandleBut.place hn hnl hnr
  have hpar1 : ((w.unflag n).nodes n).parent = some p := by
    rw [World.unflag_fields]
    exact hpar
  obtain ⟨l1, i, j, l2, idx, y, s, w2, g2, hpair, hb, hfirst, hfe⟩ :=
    h1.pair hn hnl hnr hf1 hne1 hpar1
  obtain ⟨w3, hmerge, hm⟩ := hb.merge
  have hcalm : Calmer b w g w2 g2 := Calmer.unflag.trans hfe.calmer
  have hbegun : d = 0 → Begun b r n H w g w2 g2 := by
    rintro rfl
    exact hfe.begun w g hnl (.start h.tree hnl ⟨hn, hf, hlarge⟩)
  -- the node on the right is not going to be merged any more
  have hright : (w2.nodes j.kid).unbalanced = true → Large w2 j.kid ∨ w2.inodes j.kid = [] := by
    intro hfj
    have hnj : n ≠ j.kid := by
      rintro rfl
      rw [hb.unflagged] at hfj
      cases hfj
    have hni := hb.one.resolve_right hnj
    cases d with
    | zero =>
      -- a leaf that was flagged before: not the one that `hfits` excludes
      obtain ⟨htaken, rfl⟩ := hfirst hni
      obtain ⟨hj, hfj⟩ := hfe.flags _ hb.right_dirty hfj
      obtain ⟨-, hfj⟩ := World.of_unflag_flagged hfj
      obtain ⟨-, hlj, hnode⟩ := hfe.dirty _ hj
      have hview : w2.inodes j.kid = w.inodes j.kid := by
        rw [hfe.view _ 0 (hlj ▸ hb.right_lvl) (hb.ne_parent hb.right_lvl), World.unflag_inodes]
      by_cases hlarge2 : Large w2 j.kid
      · exact .inl hlarge2
      · refine .inr (hview.trans (hfits hnl ⟨hn, hf, hlarge⟩ hne _ ?_ ⟨hj, hfj, ?_⟩))
        · rw [Option.mem_def, hfe.old hj, ← htaken, takenOver_unflag]
        · rwa [← Large.congr (by rw [hnode, World.unflag_fields]) hview]
    | succ d =>
      have := hb.handle.unflagged hb.right_dirty hb.right_lvl fun he => hnj (Option.some.inj he)
      rw [this] at hfj
      cases hfj
  have hspaced : Spaced w b g → Spaced w3 b (g2.join i.kid j.kid) := by
    cases d with
    | zero =>
      rcases hb.one with hni | hnj
      · exact hb.spaced_right hm hni (hbegun rfl)
      · exact (hb.calmer_left hm hnj (hbegun rfl)).spaced
    | succ d => exact (hcalm.trans (.merged hb hm)).spaced
  have hpar3 : (w3.nodes n).parent = some p := by
    have hk : some n ∉ (w2.inodes j.kid).map Inode.child := by
      intro hk
      have h2 := (hb.handle.tree.mem_children hb.right_lvl hb.one_lvl).1 hk
      have h3 := (hb.handle.tree.up n d hb.one_lvl h2.1).2.1
      rw [h2.2, hb.right_lvl] at h3
      simp at h3
    rw [hm.parent_eq fun _ => hk, (hfe.dirty n hn).2.2]
    exact hpar1
  refine ⟨p, w3, g2.join i.kid j.kid, fun fuel => ?_, hfe.rebalancing.merged hb hm hright, hspaced,
    ?_, ?_, ?_, ?_, ?_, fun m hmem hfm => ?_⟩
  · rw [rebalance_of_flagged h.sound (h.dirty n hn).owned hf]
    refine rest_merge hlarge hpar hne ?_ hpair hmerge hpar3
    rw [World.unflag_inodes]
    exact h.two p d hpl fun he => hpn (Option.some.inj he).symm
  · rw [hm.buckets]
    exact hb.parent_dirty
  · exact Layout.join_lvl.2 ⟨(hb.ne_parent hb.right_lvl).symm, hb.lvl⟩
  · rw [hm.parent]
  · rw [(hb.joins hm).contents_eq hb.handle.tree hb.lvl, hfe.contents, h.tree.contents_unflag]
  · exact (Quiet.unflag.trans hfe.quiet).trans hm.quiet
  · by_cases hmp : m = p
    · exact .inl hmp
    · rw [hm.buckets] at hmem
      rw [hm.flag hmp] at hfm
      obtain ⟨h2, h3⟩ := hfe.flags m hmem hfm
      obtain ⟨h4, h5⟩ := World.of_unflag_flagged h3
      exact .inr ⟨h4, h2, h5⟩

/-- An empty leaf is dropped. -/
lemma Rebalancing.drop_up (h : Rebalancing w b g r H (some n)) (hn : n ∈ (w.buckets b).dirty)
    (hnl : g.lvl n = some d) (hnr : n ≠ r) (hf : (w.nodes n).unbalanced = true)
    (hempty : w.inodes n = []) :
    ∃ p w' g', (∀ fuel, Node.rebalance (fuel + 1) n w = Node.rebalance fuel p w') ∧
      Risen b r n p H d w g w' g' := by
  obtain rfl : d = 0 := by
    cases d with
    | zero => rfl
    | succ d => exact absurd hempty (h.tree.branch n d hnl).ne
  obtain ⟨p, l1, i, l2, hpar, hp, hpl, hins, rfl, hpn, -⟩ := h.toHandleBut.place hn hnl hnr
  have h1 := h.unflag
  have hh : Hollow (w.unflag i.kid) b g r H p l1 i l2 :=
    ⟨h1.toHandleBut, hpl, hp, by rwa [World.unflag_inodes], World.unflag_self,
      by rwa [World.unflag_inodes]⟩
  obtain ⟨w2, hdel, hu, hk⟩ := hh.del
  have hkey : ((w.unflag i.kid).nodes i.kid).key = (w.nodes i.kid).key := by
    rw [World.unflag_fields]
  rw [hkey] at hdel
  refine ⟨p, w2, g.drop i.kid, fun fuel => ?_, h1.dropped hh hu hk,
    (Calmer.unflag.trans (.dropped hh hu)).spaced, ?_, Layout.drop_lvl.2 ⟨hpn, hpl⟩, ?_, ?_,
    Quiet.unflag.trans hu.quiet, fun m hmem hfm => ?_⟩
  · rw [rebalance_of_flagged h.sound (h.dirty _ hn).owned hf]
    refine rest_empty hpar hempty hdel ?_
    rw [hu.other _ hpn.symm, World.unflag_fields]
    exact hpar
  · rw [hu.buckets]
    exact hp
  · rw [hu.self]
  · rw [Drops.contents_eq h1.tree hpl (hh.drops hu) hh.empty, h.tree.contents_unflag]
  · by_cases hmp : m = p
    · exact .inl hmp
    · rw [hu.buckets] at hmem
      rw [hu.other m hmp] at hfm
      obtain ⟨h2, h3⟩ := World.of_unflag_flagged hfm
      exact .inr ⟨h2, hmem, h3⟩

/-! ## Coming to an end -/

/-- A visit that only clears the flag. -/
lemma Rebalancing.tidied (h : Rebalancing w b g r H (some n))
    (htwo : ∀ d, g.lvl n = some (d + 1) → 2 ≤ (w.inodes n).length)
    (hne : g.lvl n = some 0 → n ≠ r → w.inodes n ≠ []) : Tidied b r n w g H (w.unflag n) g H := by
  refine ⟨h.unflag.settle World.unflag_self ?_ ?_, Calmer.unflag.spaced, h.tree.contents_unflag,
    Quiet.unflag, fun m hm hf => ?_⟩
  · rwa [World.unflag_inodes]
  · rwa [World.unflag_inodes]
  · obtain ⟨h1, h2⟩ := World.of_unflag_flagged hf
    exact ⟨h1, hm, h2⟩

/-- The only child of the root moves up. -/
lemma Rebalancing.collapse (h : Rebalancing w b g r (d + 1) (some r))
    (hf : (w.nodes r).unbalanced = true) (hlarge : ¬ Large w r) (hone : (w.inodes r).length = 1) :
    ∃ w' g', (∀ fuel, Node.rebalance (fuel + 1) r w = (.ok (), w')) ∧
      Tidied b r r w g (d + 1) w' g' d := by
  have h1 := h.unflag
  have hlvl := h.tree.lvl_root
  obtain ⟨y, hy⟩ := List.length_eq_one_iff.1 hone
  have hy1 : (w.unflag r).inodes r = [y] := by rw [World.unflag_inodes, hy]
  have hy0 : ((w.unflag r).inodes r)[0]? = some y := by rw [hy1]; rfl
  obtain ⟨s, w2, g2, hat, hfe⟩ := h1.fetch h1.root_dirty h1.root_dirty hlvl hy0
  have hr := hfe.dirty r h1.root_dirty
  have hlone : Lone w2 b g2 r d { y with child := some s } := by
    refine ⟨hfe.rebalancing.toHandleBut, ?_, ?_, hfe.fetched⟩
    · rw [hfe.inodes_parent, hy1]
      rfl
    · rw [hr.2.2]
      exact World.unflag_self
  have ht := hlone.handle.tree
  have hs : g2.lvl s = some d := hlone.child_lvl
  have hkids : ∀ m, m = r ∨ m = s → some m ∉ (w2.inodes s).map Inode.child := by
    rintro m (rfl | rfl) hk
    · exact ((ht.mem_children hs ht.lvl_root).1 hk).1 rfl
    · obtain ⟨h2, h3⟩ := (ht.mem_children hs hs).1 hk
      exact ht.par_ne hs h2 h3
  obtain ⟨w3, hcol, hc⟩ := collapseRoot_eq hlone.handle.sound (ht.alloc s d hs) hat
    (hlone.handle.dirty r hr.1).owned hlone.child_ne_root.symm hkids
  refine ⟨w3, g2.collapse r s d, fun fuel => ?_, hfe.rebalancing.collapsed hlone hc,
    ((Calmer.unflag.trans hfe.calmer).trans (.collapsed hlone hc)).spaced, ?_,
    (Quiet.unflag.trans hfe.quiet).trans hc.quiet, fun m hmem hfm => ?_⟩
  · rw [rebalance_of_flagged h.sound (h.dirty r h.root_dirty).owned hf,
      rest_collapse hlarge h.root_parent ⟨h.tree.isLeaf_false hlvl, hone⟩]
    exact hcol
  · rw [(hlone.collapses hc).contents_eq ht, hfe.contents, h.tree.contents_unflag]
  · rw [hc.buckets] at hmem
    rw [(hc.fields m).2.2.2] at hfm
    obtain ⟨h2, h3⟩ := hfe.flags m hmem hfm
    obtain ⟨h4, h5⟩ := World.of_unflag_flagged h3
    exact ⟨h4, h2, h5⟩

/-- The visit to a flagged node of the tree, on whatever level. -/
lemma Rebalancing.visit_tree (h : Rebalancing w b g r H (some n))
    (hfits : g.lvl n = some 0 → VisitFits w b n) (hn : n ∈ (w.buckets b).dirty)
    (hnl : g.lvl n = some d) (hf : (w.nodes n).unbalanced = true) :
    ∃ w' g' H', Evals (fun k => Node.rebalance k n) w () w' ∧ Tidied b r n w g H w' g' H' := by
  have hd := h.tree.le_height hnl
  -- climb to the root
  obtain ⟨k, hk⟩ : ∃ k, d + k = H := ⟨H - d, by omega⟩
  induction k generalizing w g n d with
  | zero =>
    obtain rfl : d = H := hk
    obtain rfl := h.tree.eq_root hnl
    have hfl := fun fuel => rebalance_of_flagged h.sound (h.dirty n hn).owned hf fuel
    by_cases hone : (w.nodes n).isLeaf = false ∧ (w.inodes n).length = 1 ∧ ¬ Large w n
    · obtain ⟨e, rfl⟩ : ∃ e, d = e + 1 := by
        cases d with
        | zero =>
          rw [h.tree.isLeaf_true hnl] at hone
          cases hone.1
        | succ e => exact ⟨e, rfl⟩
      obtain ⟨w', g', he, ht⟩ := h.collapse hf hone.2.2 hone.2.1
      exact ⟨w', g', e, Evals.step .pure fun fuel => he fuel, ht⟩
    · have hrest : ∀ fuel, Node.rebalanceRest fuel n (w.nodes n) (w.inodes n) = pure () := by
        intro fuel
        by_cases hlarge : Large w n
        · exact rest_large hlarge
        · exact rest_root hlarge h.root_parent fun hc => hone ⟨hc.1, hc.2, hlarge⟩
      refine ⟨_, g, d, Evals.step .pure fun fuel => ?_, h.tidied (fun e he => ?_) fun _ hr =>
        absurd rfl hr⟩
      · rw [hfl, hrest]
      · have hpos := List.length_pos_iff.2 (h.tree.branch n e he).ne
        by_contra hlt
        have h1 : (w.inodes n).length = 1 := by omega
        refine hone ⟨h.tree.isLeaf_false he, h1, fun hlarge => ?_⟩
        have := hlarge.2
        rw [h.tree.isLeaf_false he, h1] at this
        simp [Node.minKeys] at this
  | succ k ih =>
    have hnr : n ≠ r := h.tree.ne_root hnl (by omega)
    have hup : ∀ {p w1 g1}, (∀ fuel, Node.rebalance (fuel + 1) n w = Node.rebalance fuel p w1) →
        Risen b r n p H d w g w1 g1 →
        ∃ w' g' H', Evals (fun k => Node.rebalance k n) w () w' ∧ Tidied b r n w g H w' g' H' := by
      intro p w1 g1 he hrise
      have hleaf : ¬ g1.lvl p = some 0 := by simp [hrise.lvl]
      obtain ⟨w', g', H', hev, ht⟩ := ih hrise.rebalancing (fun hl => absurd hl hleaf) hrise.dirty
        hrise.lvl hrise.flag (by omega) (by omega)
      refine ⟨w', g', H', Evals.step hev he, ht.rebalancing, fun hsp => ht.spaced (hrise.spaced hsp),
        ht.contents.trans hrise.contents, hrise.quiet.trans ht.quiet, fun m hm hfm => ?_⟩
      obtain ⟨h1, h2, h3⟩ := ht.flags m hm hfm
      exact (hrise.flags m h2 h3).resolve_left h1
    by_cases hlarge : Large w n
    · refine ⟨_, g, H, Evals.step .pure fun fuel => ?_, h.tidied (fun e he => ?_)
        fun _ _ hempty => ?_⟩
      · rw [rebalance_of_flagged h.sound (h.dirty n hn).owned hf, rest_large hlarge]
      · have := hlarge.2
        rw [h.tree.isLeaf_false he] at this
        simp only [Node.minKeys, Bool.false_eq_true, if_false] at this
        omega
      · have := hlarge.2
        rw [hempty] at this
        exact Nat.not_lt_zero _ this
    by_cases hempty : w.inodes n = []
    · obtain ⟨p, w1, g1, he, hrise⟩ := h.drop_up hn hnl hnr hf hempty
      exact hup he hrise
    · obtain ⟨p, w1, g1, he, hrise⟩ := h.merge_up hfits hn hnl hnr hf hlarge hempty
      exact hup he hrise

/-- The visit to a flagged node that has left the tree. -/
lemma Rebalancing.visit_stale (h : Rebalancing w b g r H none) (hn : n ∈ (w.buckets b).dirty)
    (hnl : g.lvl n = none) (hf : (w.nodes n).unbalanced = true) :
    ∃ w' g' H', Evals (fun k => Node.rebalance k n) w () w' ∧ Tidied b r n w g H w' g' H' := by
  have hleaf : (w.nodes n).isLeaf = true := h.flagged n hn (by rintro ⟨⟩) hf
  have hfl := fun fuel => rebalance_of_flagged h.sound (h.dirty n hn).owned hf fuel
  have ht : Tidied b r n w g H (w.unflag n) g H := by
    refine (h.except n).tidied (fun d hd => ?_) fun hd => ?_ <;> rw [hnl] at hd <;> cases hd
  by_cases hlarge : Large w n
  · exact ⟨_, g, H, Evals.step .pure fun fuel => by rw [hfl, rest_large hlarge], ht⟩
  rcases hpar : (w.nodes n).parent with _ | q
  · refine ⟨_, g, H, Evals.step .pure fun fuel => ?_, ht⟩
    rw [hfl, rest_root hlarge hpar (by simp [hleaf])]
  · -- it is empty, and its old parent does not know it
    have hharm := h.stale n hn hnl hf
    unfold Harmless at hharm
    rw [hpar] at hharm
    obtain ⟨hempty, habs⟩ := ((hharm.resolve_left (by rintro ⟨⟩)).2).resolve_left hlarge
    have habs := habs q rfl
    have hcalm := (h.calm n hn q hpar).2 (by rintro ⟨⟩)
    have hdel : Node.del q (w.nodes n).key (w.unflag n) = (.ok (), w.unflag n) := by
      refine del_eq_of_not_hasKey (not_hasKey fun y hy hkey => habs.self ?_)
      rw [World.unflag_inodes] at hy
      exact hkey ▸ List.mem_map_of_mem hy
    have hpar1 : ((w.unflag n).nodes n).parent = some q := by
      rw [World.unflag_fields]
      exact hpar
    have hq : ((w.unflag n).nodes q).unbalanced = false := by
      by_cases hqn : q = n
      · rw [hqn]
        exact World.unflag_self
      · rw [World.unflag_other hqn]
        exact hcalm
    have hstop : Evals (fun k => Node.rebalance k q) (w.unflag n) () (w.unflag n) :=
      Evals.step .pure fun fuel => rebalance_of_unflagged hq fuel
    refine ⟨_, g, H, hstop.step fun fuel => ?_, ht⟩
    rw [hfl, rest_empty hpar hempty hdel hpar1]

/-- In a spaced tree every visit fits. -/
lemma Rebalancing.visitFits (h : Rebalancing w b g r H none) (hsp : Spaced w b g) :
    VisitFits w b n := by
  intro hu hne m hm hum
  have hroot : (w.nodes n).parent ≠ none := by
    intro hpar
    rw [Node.takenOver, hpar] at hm
    cases hm
  rcases hl : g.lvl n with _ | d
  · -- a node that has left the tree is large or empty
    rcases h.stale n hu.1 hl hu.2.1 with hpar | ⟨-, hlarge | ⟨hempty, -⟩⟩
    · exact absurd hpar hroot
    · exact absurd hlarge hu.2.2
    · exact absurd hempty hne
  obtain rfl : d = 0 := by
    cases d with
    | zero => rfl
    | succ d =>
      have := h.flagged n hu.1 (by rintro ⟨⟩) hu.2.1
      rw [h.tree.isLeaf_false hl] at this
      cases this
  have hnr : n ≠ r := by
    rintro rfl
    exact hroot h.root_parent
  obtain ⟨p, l1, i, l2, hpar, -, hpl, hins, rfl, -, hidx⟩ := h.toHandleBut.place hu.1 hl hnr
  rw [Node.takenOver, hpar, Option.bind_eq_bind, Option.bind_some, hidx] at hm
  split at hm
  next hl1 =>
    obtain rfl := List.length_eq_zero_iff.1 hl1
    obtain ⟨j, hj, hjm⟩ := Option.bind_eq_some_iff.1 hm
    cases l2 with
    | nil =>
      rw [hins] at hj
      cases hj
    | cons j' l2 =>
      rw [hins] at hj
      cases hj
      by_contra hmne
      obtain rfl : j.kid = m := by
        unfold Inode.kid
        rw [hjm]
        rfl
      obtain ⟨s, ⟨m, hm, hm_ne, -, rfl⟩, h1, h2⟩ := hsp _
        ⟨_, hl, hne, ⟨hu, p, [], i, j :: l2, hpl, hins, rfl, by simp⟩, rfl⟩ _
        ⟨_, h.tree.kid hpl (by rw [hins]; simp), hmne, hum, rfl⟩
        (h.tree.firstKey_lt hpl hins hne hmne)
      have hmi : m ≠ i.kid := by
        rintro rfl
        exact lt_irrefl _ h1
      exact lt_asymm h1 (h.tree.firstKey_lt_left hpl hins hne hmne hm hm_ne hmi h2)
  next => cases hm

/-- The visit to any node of the working set. -/
lemma Rebalancing.visit (h : Rebalancing w b g r H none) (hfits : VisitFits w b n)
    (hn : n ∈ (w.buckets b).dirty) :
    ∃ w' g' H', Evals (fun k => Node.rebalance k n) w () w' ∧ Tidied b r n w g H w' g' H' := by
  rcases hf : (w.nodes n).unbalanced with _ | _
  · refine ⟨w, g, H, Evals.step .pure fun fuel => rebalance_of_unflagged hf fuel, h, id, rfl,
      .refl b w, fun m hm hfm => ⟨?_, hm, hfm⟩⟩
    rintro rfl
    rw [hf] at hfm
    cases hfm
  · rcases hl : g.lvl n with _ | d
    · exact h.visit_stale hn hl hf
    · exact (h.except n).visit_tree (fun _ => hfits) hn hl hf

end

end Vmbolt
