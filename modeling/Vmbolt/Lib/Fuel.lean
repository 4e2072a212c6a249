import Vmbolt.Lib.Prog

/-!
# More fuel does not change a result

A family of programs indexed by fuel is `Growing` if a member that has not run out of fuel ends as
the next one does. Then one run that returns, or panics, says what happens from some fuel on, so
that a concrete run can be evaluated with some concrete fuel.
-/

namespace Vmbolt
open Filter

variable {ε σ α β : Type}

namespace Outcome

/-- `x` ran out of fuel, or it ended as `y`. -/
def Below (x y : Outcome ε α) : Prop := x = .hang ∨ x = y

/-- A computation that has not run out of fuel keeps its outcome with one more unit. -/
def Growing (f : ℕ → Outcome ε α) : Prop := ∀ k, Below (f k) (f (k + 1))

lemma Below.refl (x : Outcome ε α) : Below x x := .inr rfl

lemma Below.bind {x y : Outcome ε α} {f g : α → Outcome ε β} (h : Below x y)
    (hf : ∀ a, Below (f a) (g a)) : Below (x >>= f) (y >>= g) := by
  rcases h with rfl | rfl
  · exact .inl rfl
  · rcases x with a | e | _
    · exact hf a
    · exact .inr rfl
    · exact .inl rfl

/-- The outcome stays from some fuel on. -/
lemma Growing.eventually {f : ℕ → Outcome ε α} (h : Growing f) {k : ℕ} (hk : f k ≠ .hang) :
    ∀ᶠ j in atTop, f j = f k := by
  refine eventually_atTop.2 ⟨k, fun j hj => ?_⟩
  induction j, hj using Nat.le_induction with
  | base => rfl
  | succ j _ ih =>
    rcases h j with e | e
    · exact absurd (ih.symm.trans e) hk
    · rw [← e, ih]

/-- One computation that returns. -/
lemma Growing.eventually_eq_ok {f : ℕ → Outcome ε α} (h : Growing f) {k : ℕ} {a : α}
    (hk : f k = .ok a) : ∀ᶠ j in atTop, f j = .ok a :=
  (h.eventually (by rw [hk]; nofun)).mono fun _ e => e.trans hk

end Outcome

namespace Prog

/-- `p` runs out of fuel, or it ends as `q`. -/
def Below (p q : Prog ε σ α) : Prop := ∀ s, (p s).1 = .hang ∨ p s = q s

/-- A program that has not run out of fuel ends in the same way with one more unit. -/
def Growing (f : ℕ → Prog ε σ α) : Prop := ∀ k, Below (f k) (f (k + 1))

lemma Below.refl (p : Prog ε σ α) : Below p p := fun _ => .inr rfl

lemma Below.hang (q : Prog ε σ α) : Below Prog.hang q := fun _ => .inl rfl

lemma Below.bind {p q : Prog ε σ α} {f g : α → Prog ε σ β} (h : Below p q)
    (hf : ∀ a, Below (f a) (g a)) : Below (p >>= f) (q >>= g) := by
  intro s
  rcases h s with e | e
  · refine .inl ?_
    rw [bind_apply]
    rcases hp : p s with ⟨x, s'⟩
    rw [hp] at e
    cases e
    rfl
  · rw [bind_apply, bind_apply, ← e]
    rcases p s with ⟨_ | _ | _, s'⟩
    · exact hf _ s'
    · exact .inr rfl
    · exact .inl rfl

lemma Below.query {f g : σ → Outcome ε α} (h : ∀ s, (f s).Below (g s)) :
    Below (query f) (query g) := by
  intro s
  rcases h s with e | e
  · exact .inl e
  · exact .inr (by rw [query_apply, query_apply, e])

lemma Below.each {ι : Type} {f g : ι → Prog ε σ Unit} (h : ∀ x, Below (f x) (g x)) (l : List ι) :
    Below (each f l) (each g l) := by
  induction l with
  | nil => exact .refl _
  | cons x l ih => exact (h x).bind fun _ => ih

/-- The run stays from some fuel on. -/
lemma Growing.eventually {f : ℕ → Prog ε σ α} (h : Growing f) {s : σ} {k : ℕ}
    (hk : (f k s).1 ≠ .hang) : ∀ᶠ j in atTop, f j s = f k s := by
  refine eventually_atTop.2 ⟨k, fun j hj => ?_⟩
  induction j, hj using Nat.le_induction with
  | base => rfl
  | succ j _ ih =>
    rcases h j s with e | e
    · rw [ih] at e
      exact absurd e hk
    · rw [← e, ih]

/-- One run that returns. -/
lemma Growing.evals {f : ℕ → Prog ε σ α} (h : Growing f) {s s' : σ} {a : α} {k : ℕ}
    (hk : f k s = (.ok a, s')) : Evals f s a s' :=
  (h.eventually (by rw [hk]; nofun)).mono fun _ e => e.trans hk

/-- The same for a run whose state is not looked at. -/
lemma Growing.evals_of_fst {f : ℕ → Prog ε σ α} (h : Growing f) {s : σ} {a : α} {k : ℕ}
    (hk : (f k s).1 = .ok a) : Evals f s a (f k s).2 :=
  h.evals (Prod.ext hk rfl)

/-- One run that panics. -/
lemma Growing.panics {f : ℕ → Prog ε σ α} (h : Growing f) {s s' : σ} {e : ε} {k : ℕ}
    (hk : f k s = (.panic e, s')) : Panics f s e s' :=
  (h.eventually (by rw [hk]; nofun)).mono fun _ e => e.trans hk

end Prog

end Vmbolt
