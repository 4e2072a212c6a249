import Mathlib.Algebra.BigOperators.Group.Finset.Basic
import Mathlib.Logic.Relation
import Mathlib.Tactic.Lemma

/-!
# Transition systems

Rules for a system that is given by its step relation `r`: what every step keeps holds along every
run, a system whose steps lower a number comes to rest, a run whose steps can be matched one by one
by another system is matched as a whole, and the sum over the parts of a state follows the one part
that a step changes.
-/

namespace Vmbolt.Systems

section Runs
variable {S : Type} {r : S → S → Prop} {P : S → Prop} {s t : S}

/-- What every step keeps holds along every run. -/
lemma run_keeps (keep : ∀ ⦃s t⦄, P s → r s t → P t) (hs : P s)
    (hrun : Relation.ReflTransGen r s t) :
    P t := by
  induction hrun with
  | refl => exact hs
  | tail _ hstep ih => exact keep ih hstep

/-- Steps that lower a number cannot go on for ever. -/
lemma acc_of_measure (keep : ∀ ⦃s t⦄, P s → r s t → P t) (m : S → ℕ)
    (lower : ∀ ⦃s t⦄, P s → r s t → m t < m s) (hs : P s) : Acc (fun t' t => r t t') s := by
  induction hn : m s using Nat.strong_induction_on generalizing s with
  | _ n ih =>
    subst hn
    exact ⟨s, fun t hstep => ih (m t) (lower hs hstep) (keep hs hstep) rfl⟩

/-- Forward simulation along a run `x`: if from every match `u` of a state of the run a match of the
next state can be found, then the whole run is matched, step by step. -/
lemma path_simulates {T : Type} {R : S → T → Prop} {Q : ℕ → T → T → Prop} {x : ℕ → S} {n : ℕ}
    (sim : ∀ i, i < n → ∀ u, R (x i) u → ∃ u', R (x (i + 1)) u' ∧ Q i u u') {u₀ : T}
    (h₀ : R (x 0) u₀) : ∃ u : ℕ → T, u 0 = u₀ ∧ (∀ i, i ≤ n → R (x i) (u i)) ∧
      ∀ i, i < n → Q i (u i) (u (i + 1)) := by
  induction n with
  | zero =>
    refine ⟨fun _ => u₀, rfl, fun i hi => ?_, fun i hi => absurd hi (Nat.not_lt_zero i)⟩
    rw [Nat.le_zero.1 hi]
    exact h₀
  | succ n ih =>
    obtain ⟨u, hu₀, hR, hQ⟩ := ih fun i hi => sim i (hi.trans (Nat.lt_succ_self n))
    obtain ⟨u', hR', hQ'⟩ := sim n (Nat.lt_succ_self n) (u n) (hR n le_rfl)
    have hold : ∀ {i}, i ≤ n → Function.update u (n + 1) u' i = u i := fun hi =>
      Function.update_of_ne (Nat.lt_succ_of_le hi).ne u' u
    have hnew : Function.update u (n + 1) u' (n + 1) = u' := Function.update_self ..
    refine ⟨Function.update u (n + 1) u', (hold (Nat.zero_le n)).trans hu₀, fun i hi => ?_,
      fun i hi => ?_⟩
    · rcases Nat.lt_or_eq_of_le hi with hlt | rfl
      · rw [hold (Nat.lt_succ_iff.1 hlt)]
        exact hR i (Nat.lt_succ_iff.1 hlt)
      · rw [hnew]
        exact hR'
    · rw [hold (Nat.lt_succ_iff.1 hi)]
      rcases Nat.lt_or_eq_of_le (Nat.lt_succ_iff.1 hi) with hlt | rfl
      · rw [hold hlt]
        exact hQ i hlt
      · rw [hnew]
        exact hQ'

end Runs

section Sums
variable {α M : Type} [AddCommMonoid M] (f : ℕ → α) (g : α → M) {n i : ℕ}

/-- Replacing one of `n` parts replaces its share of the sum. -/
lemma sum_range_update (hi : i < n) (a : α) :
    ∑ j ∈ Finset.range n, g (Function.update f i a j) + g (f i) =
      ∑ j ∈ Finset.range n, g (f j) + g a := by
  have hmem : i ∈ Finset.range n := Finset.mem_range.mpr hi
  rw [← Finset.add_sum_erase _ _ hmem, ← Finset.add_sum_erase _ (fun j => g (f j)) hmem,
    Function.update_self]
  have hrest : ∑ j ∈ (Finset.range n).erase i, g (Function.update f i a j) =
      ∑ j ∈ (Finset.range n).erase i, g (f j) :=
    Finset.sum_congr rfl fun j hj => by rw [Function.update_of_ne (Finset.ne_of_mem_erase hj)]
  rw [hrest, add_right_comm, add_comm (g a), add_right_comm]

/-- A new part adds its share. -/
lemma sum_range_succ_update (a : α) :
    ∑ j ∈ Finset.range (n + 1), g (Function.update f n a j) = ∑ j ∈ Finset.range n,
      g (f j) + g a := by
  rw [Finset.sum_range_succ, Function.update_self]
  congr 1
  apply Finset.sum_congr rfl
  intro j hj
  rw [Function.update_of_ne (Finset.mem_range.mp hj).ne]

end Sums

end Vmbolt.Systems
