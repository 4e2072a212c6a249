import Mathlib.Data.Set.Finite.Lattice
import Mathlib.Order.Bounds.Basic
import Mathlib.Tactic.Lemma

/-!
# Paths in a graph of pointers

A graph is given by the pointers of its nodes, in order, where a pointer may be nil. A path is a
list of pointer indices, so two pointers to one node give two paths. `Simple n` says that different
paths from `n` end in different nodes: what is reached from `n` is a tree. `Pending` is the
invariant of a worklist traversal that has met nothing twice and has nothing to meet twice; one step
of the traversal neither gains nor loses it.
-/

namespace Vmbolt

section
variable {N : Type} (kids : N → List (Option N))

/-- The node at the end of a path. -/
def follow : N → List ℕ → Option N
  | n, [] => some n
  | n, i :: p =>
    match (kids n)[i]? with
    | some (some c) => follow c p
    | _ => none

/-- Different paths from the node end in different nodes. -/
def Simple (n : N) : Prop :=
  ∀ p q m, follow kids n p = some m → follow kids n q = some m → p = q

/-- No node is reached from both. -/
def Separate (a b : N) : Prop :=
  ∀ p q m, follow kids a p = some m → follow kids b q ≠ some m

/-- What is reached from the stack is good, is not in `visited` and is reached by one path only. -/
structure Pending (good : N → Prop) (visited : Set N) (stack : List N) : Prop where
  reach : ∀ c ∈ stack, ∀ p m, follow kids c p = some m → good m ∧ m ∉ visited
  simple : ∀ c ∈ stack, Simple kids c
  separate : stack.Pairwise (Separate kids)

variable {kids} {good : N → Prop} {visited : Set N} {n m : N} {cs stack : List N}

/-- A path goes on through one of the children. -/
lemma follow_cons_iff (hk : kids n = cs.map some) {i : ℕ} {p : List ℕ} :
    follow kids n (i :: p) = some m ↔ ∃ c, cs[i]? = some c ∧ follow kids c p = some m := by
  rw [follow, hk, List.getElem?_map]
  rcases cs[i]? with _ | c <;> simp

/-- Paths one after the other. -/
lemma follow_append {p q : List ℕ} (hp : follow kids n p = some m) :
    follow kids n (p ++ q) = follow kids m q := by
  induction p generalizing n with
  | nil =>
    cases hp
    rfl
  | cons i p ih =>
    rw [follow] at hp
    rw [List.cons_append, follow]
    split at hp
    · exact ih hp
    · cases hp

/-- Nothing is left. -/
lemma Pending.nil : Pending kids good visited [] := ⟨by simp, by simp, .nil⟩

/-- One step of the traversal: a good node is visited and its children go on the stack. -/
lemma pending_cons_iff (hk : kids n = cs.map some) (hg : good n) :
    Pending kids good visited (n :: stack) ↔
      n ∉ visited ∧ Pending kids good (insert n visited) (cs.reverse ++ stack) := by
  have hcons : ∀ {i p m c}, cs[i]? = some c → follow kids c p = some m →
      follow kids n (i :: p) = some m := fun hc hp => (follow_cons_iff hk).2 ⟨_, hc, hp⟩
  constructor
  · intro h
    obtain ⟨hn, hstack⟩ := List.pairwise_cons.1 h.separate
    have hsimple := h.simple n (by simp)
    refine ⟨(h.reach n (by simp) [] n rfl).2, fun c hc p m hp => ?_, fun c hc => ?_, ?_⟩
    · rcases List.mem_append.1 hc with hc | hc
      · obtain ⟨i, hi⟩ := List.mem_iff_getElem?.1 (List.mem_reverse.1 hc)
        have hp' := hcons hi hp
        obtain ⟨h1, h2⟩ := h.reach n (by simp) _ m hp'
        refine ⟨h1, fun hm => hm.elim (fun e => ?_) h2⟩
        subst e
        cases hsimple (i :: p) [] m hp' rfl
      · obtain ⟨h1, h2⟩ := h.reach c (by simp [hc]) p m hp
        refine ⟨h1, fun hm => hm.elim (fun e => ?_) h2⟩
        subst e
        exact hn c hc [] p m rfl hp
    · rcases List.mem_append.1 hc with hc | hc
      · obtain ⟨i, hi⟩ := List.mem_iff_getElem?.1 (List.mem_reverse.1 hc)
        intro p q m hp hq
        exact (List.cons.inj (hsimple _ _ m (hcons hi hp) (hcons hi hq))).2
      · exact h.simple c (by simp [hc])
    · refine List.pairwise_append.2 ⟨List.pairwise_reverse.2 ?_, hstack, fun c hc s hs => ?_⟩
      · rw [List.pairwise_iff_getElem]
        intro i j hi hj hij p q m hp hq
        have := hsimple _ _ m (hcons (List.getElem?_eq_getElem hi) hq)
          (hcons (List.getElem?_eq_getElem hj) hp)
        have := (List.cons.inj this).1
        omega
      · obtain ⟨i, hi⟩ := List.mem_iff_getElem?.1 (List.mem_reverse.1 hc)
        exact fun p q m hp => hn s hs _ q m (hcons hi hp)
  · rintro ⟨hnew, h⟩
    obtain ⟨hcs, hstack, hcross⟩ := List.pairwise_append.1 h.separate
    have hmem : ∀ {i c}, cs[i]? = some c → c ∈ cs.reverse ++ stack := fun hi =>
      List.mem_append_left _ (List.mem_reverse.2 (List.mem_of_getElem? hi))
    have hself : ∀ c ∈ cs.reverse ++ stack, ∀ p, follow kids c p ≠ some n := fun c hc p hp =>
      (h.reach c hc p n hp).2 (Set.mem_insert _ _)
    refine ⟨fun c hc p m hp => ?_, fun c hc => ?_, List.pairwise_cons.2 ⟨fun s hs => ?_, hstack⟩⟩
    · rcases List.mem_cons.1 hc with rfl | hc
      · cases p with
        | nil =>
          cases hp
          exact ⟨hg, hnew⟩
        | cons i p =>
          obtain ⟨d, hi, hp⟩ := (follow_cons_iff hk).1 hp
          obtain ⟨h1, h2⟩ := h.reach d (hmem hi) p m hp
          exact ⟨h1, fun hm => h2 (Set.mem_insert_of_mem _ hm)⟩
      · obtain ⟨h1, h2⟩ := h.reach c (List.mem_append_right _ hc) p m hp
        exact ⟨h1, fun hm => h2 (Set.mem_insert_of_mem _ hm)⟩
    · rcases List.mem_cons.1 hc with rfl | hc
      · intro p q m hp hq
        rcases p with _ | ⟨i, p⟩ <;> rcases q with _ | ⟨j, q⟩
        · rfl
        · cases hp
          obtain ⟨d, hj, hq⟩ := (follow_cons_iff hk).1 hq
          exact absurd hq (hself d (hmem hj) q)
        · cases hq
          obtain ⟨d, hi, hp⟩ := (follow_cons_iff hk).1 hp
          exact absurd hp (hself d (hmem hi) p)
        · obtain ⟨d, hi, hp⟩ := (follow_cons_iff hk).1 hp
          obtain ⟨e, hj, hq⟩ := (follow_cons_iff hk).1 hq
          by_cases hij : i = j
          · subst hij
            rw [hi] at hj
            cases hj
            rw [h.simple d (hmem hi) p q m hp hq]
          · -- two children that lead to one node
            have hpair := List.pairwise_iff_getElem.1 (List.pairwise_reverse.1 hcs)
            obtain ⟨hil, rfl⟩ := List.getElem?_eq_some_iff.1 hi
            obtain ⟨hjl, rfl⟩ := List.getElem?_eq_some_iff.1 hj
            rcases Nat.lt_or_gt_of_ne hij with hlt | hlt
            · exact absurd hp (hpair i j hil hjl hlt q p m hq)
            · exact absurd hq (hpair j i hjl hil hlt p q m hp)
      · exact h.simple c (List.mem_append_right _ hc)
    · intro p q m hp hq
      cases p with
      | nil =>
        cases hp
        exact hself s (List.mem_append_right _ hs) q hq
      | cons i p =>
        obtain ⟨d, hi, hp⟩ := (follow_cons_iff hk).1 hp
        exact hcross d (List.mem_reverse.2 (List.mem_of_getElem? hi)) s hs p q m hp hq

/-- The paths from a node that reaches finitely many nodes, each by one path, have bounded
length. -/
lemma Simple.bounded (h : Simple kids n) (hfin : {m | ∃ p, follow kids n p = some m}.Finite) :
    ∃ D, ∀ p m, follow kids n p = some m → p.length ≤ D := by
  have hpaths : {p | ∃ m, follow kids n p = some m}.Finite := by
    refine Set.Finite.of_injOn (f := follow kids n)
      (t := some '' {m | ∃ p, follow kids n p = some m})
      (fun p hp => ?_) (fun p hp q _ e => ?_) (hfin.image _)
    · obtain ⟨m, hm⟩ := hp
      exact ⟨m, ⟨p, hm⟩, hm.symm⟩
    · obtain ⟨m, hm⟩ := hp
      exact h p q m hm (e ▸ hm)
  obtain ⟨D, hD⟩ := (hpaths.image List.length).bddAbove
  exact ⟨D, fun p m hp => hD ⟨p, ⟨m, hp⟩, rfl⟩⟩

end

end Vmbolt
