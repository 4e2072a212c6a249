import Mathlib.Order.Filter.AtTopBot.Basic
import Mathlib.Tactic.Lemma

/-!
# Programs with state, panics and fuel

A small library for programs that thread a state `σ`, can stop with a panic `ε` and can run for
ever. `Outcome` is how a computation ends, `Prog` a state transformer with an outcome. On a panic
the state reached so far is kept: whoever recovers from the panic goes on from it.

A loop or a recursion of the program is a family `ℕ → Prog ε σ α` indexed by fuel, which answers
`hang` when the fuel is used up. `Evals f s a s'` says that from some fuel on the family returns `a`
in the state `s'`. `Stays R s m Q` says that `m` moves the state along `R`, however it ends, and
returns only with `Q`. Both, and other properties of programs, are kept by sequencing
(`Compositional`).
-/

namespace Vmbolt
open Filter

/-- How a computation ends: with a value, with a panic, or not at all. -/
inductive Outcome (ε α : Type) where
  | ok (a : α)
  | panic (e : ε)
  | hang
  deriving DecidableEq, Repr

namespace Outcome

/-- Run `f` on the value of `x`, if there is one. -/
def bind {ε α β : Type} (x : Outcome ε α) (f : α → Outcome ε β) : Outcome ε β :=
  match x with
  | .ok a => f a
  | .panic e => .panic e
  | .hang => .hang

instance {ε : Type} : Monad (Outcome ε) where
  pure := .ok
  bind := Outcome.bind

@[simp] lemma pure_eq {ε α : Type} (a : α) : (pure a : Outcome ε α) = .ok a := rfl

@[simp] lemma ok_bind {ε α β : Type} (a : α) (f : α → Outcome ε β) :
    (Outcome.ok a >>= f) = f a := rfl

@[simp] lemma panic_bind {ε α β : Type} (e : ε) (f : α → Outcome ε β) :
    (Outcome.panic e >>= f) = .panic e := rfl

@[simp] lemma hang_bind {ε α β : Type} (f : α → Outcome ε β) :
    (Outcome.hang >>= f) = .hang := rfl

/-- A sequence returns only if its first part does. -/
lemma bind_eq_ok {ε α β : Type} {x : Outcome ε α} {f : α → Outcome ε β} {b : β} :
    (x >>= f) = .ok b ↔ ∃ a, x = .ok a ∧ f a = .ok b := by
  cases x <;> simp

end Outcome

/-- A program over the state `σ`: the outcome together with the state it leaves. -/
def Prog (ε σ α : Type) : Type := σ → Outcome ε α × σ

namespace Prog
variable {ε σ α β γ : Type}

/-- Sequencing: a panic or a hang keeps the state reached so far. -/
def bind (m : Prog ε σ α) (f : α → Prog ε σ β) : Prog ε σ β := fun s =>
  match m s with
  | (.ok a, s') => f a s'
  | (.panic e, s') => (.panic e, s')
  | (.hang, s') => (.hang, s')

instance : Monad (Prog ε σ) where
  pure a := fun s => (.ok a, s)
  bind := Prog.bind

/-- Stop with a panic. -/
def panic (e : ε) : Prog ε σ α := fun s => (.panic e, s)

/-- Never return. -/
def hang : Prog ε σ α := fun s => (.hang, s)

/-- Compute from the state without changing it. -/
def read (f : σ → α) : Prog ε σ α := fun s => (.ok (f s), s)

/-- Run a computation that only looks at the state. -/
def query (f : σ → Outcome ε α) : Prog ε σ α := fun s => (f s, s)

/-- Do nothing if `c` holds and panic with `e` otherwise. -/
def assert (c : Prop) [Decidable c] (e : ε) : Prog ε σ Unit := if c then pure () else panic e

/-- Run `f` on the elements of a list, one after the other. -/
def each {ι : Type} (f : ι → Prog ε σ Unit) : List ι → Prog ε σ Unit
  | [] => pure ()
  | x :: l => f x >>= fun _ => each f l

/-- Run `d` after `m`, also when `m` panics; what `m` returned or panicked with is kept, unless `d`
panics itself. -/
def defer (m : Prog ε σ α) (d : Prog ε σ Unit) : Prog ε σ α := fun s =>
  match m s with
  | (.ok a, s') => (d >>= fun _ => pure a) s'
  | (.panic e, s') => (d >>= fun _ => panic e) s'
  | (.hang, s') => (.hang, s')

@[simp] lemma query_apply (f : σ → Outcome ε α) (s : σ) : query f s = (f s, s) := rfl

lemma bind_apply (m : Prog ε σ α) (f : α → Prog ε σ β) (s : σ) :
    (m >>= f) s = match m s with
      | (.ok a, s') => f a s'
      | (.panic e, s') => (.panic e, s')
      | (.hang, s') => (.hang, s') := rfl

lemma bind_ok {m : Prog ε σ α} {f : α → Prog ε σ β} {s s' : σ} {a : α}
    (h : m s = (.ok a, s')) : (m >>= f) s = f a s' := by
  rw [bind_apply, h]

lemma bind_panic {m : Prog ε σ α} {f : α → Prog ε σ β} {s s' : σ} {e : ε}
    (h : m s = (.panic e, s')) : (m >>= f) s = (.panic e, s') := by
  rw [bind_apply, h]

/-- A sequence returns only if its first part does. -/
lemma bind_eq_ok {m : Prog ε σ α} {f : α → Prog ε σ β} {s s'' : σ} {b : β}
    (h : (m >>= f) s = (.ok b, s'')) : ∃ a s', m s = (.ok a, s') ∧ f a s' = (.ok b, s'') := by
  rw [bind_apply] at h
  rcases e : m s with ⟨a | _ | _, s'⟩ <;> rw [e] at h
  · exact ⟨a, s', rfl, h⟩
  · cases h
  · cases h

lemma pure_bind_apply (a : α) (g : α → Prog ε σ β) (s : σ) : (pure a >>= g) s = g a s := rfl

@[simp] lemma read_bind (f : σ → α) (g : α → Prog ε σ β) (s : σ) :
    (read f >>= g) s = g (f s) s := rfl

/-- A query that returns hands its value on. -/
lemma query_bind {f : σ → Outcome ε α} {g : α → Prog ε σ β} {s : σ} {a : α} (h : f s = .ok a) :
    (query f >>= g) s = g a s := by
  rw [bind_apply, query_apply, h]

/-- A deferred call after a program that returned. -/
lemma defer_ok {m : Prog ε σ α} {d : Prog ε σ Unit} {s s1 s2 : σ} {a : α} (h : m s = (.ok a, s1))
    (hd : d s1 = (.ok (), s2)) : defer m d s = (.ok a, s2) := by
  unfold defer
  rw [h]
  exact bind_ok hd

/-- A deferred call after a program that panicked. -/
lemma defer_panic {m : Prog ε σ α} {d : Prog ε σ Unit} {s s1 s2 : σ} {e : ε}
    (h : m s = (.panic e, s1)) (hd : d s1 = (.ok (), s2)) : defer m d s = (.panic e, s2) := by
  unfold defer
  rw [h]
  exact bind_ok hd

/-- A loop whose passes do nothing. -/
lemma each_noop {ι : Type} {f : ι → Prog ε σ Unit} {l : List ι} {s : σ}
    (h : ∀ x ∈ l, f x s = (.ok (), s)) : each f l s = (.ok (), s) := by
  induction l with
  | nil => rfl
  | cons x l ih =>
    rw [each, bind_ok (h x (by simp))]
    exact ih fun y hy => h y (by simp [hy])

/-- A loop over two lists, one after the other. -/
lemma each_append {ι : Type} (f : ι → Prog ε σ Unit) (l1 l2 : List ι) :
    each f (l1 ++ l2) = each f l1 >>= fun _ => each f l2 := by
  induction l1 with
  | nil => rfl
  | cons x l ih =>
    funext s
    simp only [List.cons_append, each, ih, bind_apply]
    rcases f x s with ⟨_ | _ | _, _⟩ <;> rfl

@[simp] lemma assert_pos {c : Prop} [Decidable c] {e : ε} (h : c) :
    (assert c e : Prog ε σ Unit) = pure () := if_pos h

lemma assert_neg {c : Prop} [Decidable c] {e : ε} (h : ¬c) :
    (assert c e : Prog ε σ Unit) = panic e := if_neg h

instance : LawfulMonad (Prog ε σ) := by
  refine LawfulMonad.mk' (Prog ε σ) ?_ ?_ ?_
  · intro α x
    funext s
    change (x >>= fun a => pure a) s = x s
    rw [bind_apply]
    rcases x s with ⟨_ | _ | _, _⟩ <;> rfl
  · intros
    rfl
  · intro α β γ x f g
    funext s
    simp only [bind_apply]
    rcases x s with ⟨_ | _ | _, _⟩ <;> rfl

/-! ## Total correctness -/

/-- From some fuel on, `f` returns `a` in the state `s'`. -/
def Evals (f : ℕ → Prog ε σ α) (s : σ) (a : α) (s' : σ) : Prop :=
  ∀ᶠ k in atTop, f k s = (.ok a, s')

/-- From some fuel on, `f` stops with the panic `e` in the state `s'`. -/
def Panics (f : ℕ → Prog ε σ α) (s : σ) (e : ε) (s' : σ) : Prop :=
  ∀ᶠ k in atTop, f k s = (.panic e, s')

/-- What holds from some fuel on holds for one more unit of fuel. -/
lemma eventually_succ {P Q : ℕ → Prop} (h : ∀ᶠ k in atTop, P k) (hs : ∀ k, P k → Q (k + 1)) :
    ∀ᶠ k in atTop, Q k := by
  obtain ⟨F, hF⟩ := eventually_atTop.1 h
  refine eventually_atTop.2 ⟨F + 1, fun k hk => ?_⟩
  obtain ⟨j, rfl⟩ : ∃ j, k = j + 1 := ⟨k - 1, by omega⟩
  exact hs j (hF j (by omega))

/-- A program without fuel that returns. -/
lemma Evals.of_eq {m : Prog ε σ α} {s s' : σ} {a : α} (h : m s = (.ok a, s')) :
    Evals (fun _ => m) s a s' :=
  Eventually.of_forall fun _ => h

/-- A program that returns, returns one value in one state. -/
lemma Evals.unique {f : ℕ → Prog ε σ α} {s s1 s2 : σ} {a1 a2 : α}
    (h1 : Evals f s a1 s1) (h2 : Evals f s a2 s2) : a1 = a2 ∧ s1 = s2 := by
  obtain ⟨k, e1, e2⟩ := (h1.and h2).exists
  rw [e1] at e2
  cases e2
  exact ⟨rfl, rfl⟩

lemma Evals.pure {s : σ} {a : α} : Evals (fun _ => (Pure.pure a : Prog ε σ α)) s a s :=
  .of_eq rfl

lemma Evals.bind {f : ℕ → Prog ε σ α} {g : ℕ → α → Prog ε σ β} {s s' s'' : σ} {a : α} {b : β}
    (h1 : Evals f s a s') (h2 : Evals (fun k => g k a) s' b s'') :
    Evals (fun k => f k >>= g k) s b s'' := by
  filter_upwards [h1, h2] with k e1 e2
  rw [bind_ok e1, e2]

/-- With one more unit of fuel, `g` goes on from `s` like `f` from `s1`. -/
lemma Evals.step {f g : ℕ → Prog ε σ α} {s s1 s' : σ} {a : α}
    (h : Evals f s1 a s') (e : ∀ k, g (k + 1) s = f k s1) : Evals g s a s' :=
  eventually_succ h fun k hk => by rw [e k]; exact hk

/-! ## Properties that sequencing keeps -/

/-- A property that the programs that only look at the state have, and that sequencing keeps. -/
structure Compositional (P : ∀ {α : Type}, Prog ε σ α → Prop) : Prop where
  query : ∀ {α : Type} {f : σ → Outcome ε α}, P (Prog.query f)
  bind : ∀ {α β : Type} {m : Prog ε σ α} {f : α → Prog ε σ β}, P m → (∀ a, P (f a)) → P (m >>= f)

namespace Compositional
variable {P : ∀ {α : Type}, Prog ε σ α → Prop}

lemma pure (h : Compositional P) {a : α} : P (Pure.pure a : Prog ε σ α) :=
  h.query (f := fun _ => .ok a)

lemma panic (h : Compositional P) {e : ε} : P (Prog.panic e : Prog ε σ α) :=
  h.query (f := fun _ => .panic e)

lemma hang (h : Compositional P) : P (Prog.hang : Prog ε σ α) := h.query (f := fun _ => .hang)

lemma read_bind (h : Compositional P) {f : σ → α} {g : α → Prog ε σ β} (hg : ∀ a, P (g a)) :
    P (Prog.read f >>= g) :=
  h.bind (h.query (f := fun s => .ok (f s))) hg

lemma ite (_ : Compositional P) {c : Prop} [Decidable c] {m1 m2 : Prog ε σ α} (h1 : P m1)
    (h2 : P m2) : P (if c then m1 else m2) := by
  split
  · exact h1
  · exact h2

lemma assert (h : Compositional P) {c : Prop} [Decidable c] {e : ε} :
    P (Prog.assert c e : Prog ε σ Unit) :=
  h.ite h.pure h.panic

/-- The rule for a loop over a list. -/
lemma each (h : Compositional P) {ι : Type} {f : ι → Prog ε σ Unit} {l : List ι}
    (hf : ∀ x ∈ l, P (f x)) : P (Prog.each f l) := by
  induction l with
  | nil => exact h.pure
  | cons x l ih => exact h.bind (hf x (by simp)) fun _ => ih fun y hy => hf y (by simp [hy])

end Compositional

/-! ## What holds however a program ends -/

/-- A relation along which a program may move the state: it is transitive, and a state that has been
reached is related to itself. -/
class Track (R : σ → σ → Prop) : Prop where
  trans {s1 s2 s3 : σ} : R s1 s2 → R s2 s3 → R s1 s3
  refl_right {s1 s2 : σ} : R s1 s2 → R s2 s2

/-- Run from `s`, the program moves the state along `R`, also if it panics or hangs; if it returns,
then with `Q`. -/
def Stays (R : σ → σ → Prop) (s : σ) (m : Prog ε σ α) (Q : α → σ → Prop) : Prop :=
  R s (m s).2 ∧ ∀ a, (m s).1 = .ok a → Q a (m s).2

namespace Stays
variable {R : σ → σ → Prop} {s : σ}

lemma pure {a : α} {Q : α → σ → Prop} (hR : R s s) (h : Q a s) :
    Stays R s (Pure.pure a : Prog ε σ α) Q :=
  ⟨hR, fun _ e => by cases e; exact h⟩

lemma panic {e : ε} {Q : α → σ → Prop} (hR : R s s) : Stays R s (Prog.panic e) Q :=
  ⟨hR, fun _ e => by cases e⟩

lemma hang {Q : α → σ → Prop} (hR : R s s) : Stays R s (Prog.hang : Prog ε σ α) Q :=
  ⟨hR, fun _ e => by cases e⟩

lemma query {f : σ → Outcome ε α} {Q : α → σ → Prop} (hR : R s s)
    (h : ∀ a, f s = .ok a → Q a s) : Stays R s (Prog.query f) Q :=
  ⟨hR, h⟩

lemma assert {c : Prop} [Decidable c] {e : ε} {Q : Unit → σ → Prop} (hR : R s s)
    (h : c → Q () s) : Stays R s (Prog.assert c e) Q := by
  unfold Prog.assert
  split
  · exact .pure hR (h ‹_›)
  · exact .panic hR

lemma mono {m : Prog ε σ α} {P Q : α → σ → Prop} (hm : Stays R s m P)
    (h : ∀ a s', R s s' → P a s' → Q a s') : Stays R s m Q :=
  ⟨hm.1, fun a e => h a _ hm.1 (hm.2 a e)⟩

/-- A stronger relation may be weakened. -/
lemma imp {R' : σ → σ → Prop} {m : Prog ε σ α} {Q : α → σ → Prop} (hm : Stays R s m Q)
    (h : ∀ s', R s s' → R' s s') : Stays R' s m Q :=
  ⟨h _ hm.1, hm.2⟩

/-- Two descriptions of one run. -/
lemma both {R' : σ → σ → Prop} {m : Prog ε σ α} {P Q : α → σ → Prop} (hm : Stays R s m P)
    (hm' : Stays R' s m Q) : Stays R s m fun a s' => P a s' ∧ Q a s' ∧ R' s s' :=
  ⟨hm.1, fun a e => ⟨hm.2 a e, hm'.2 a e, hm'.1⟩⟩

/-- Sequencing: what follows starts where the first part returned. -/
lemma bind [Track R] {m : Prog ε σ α} {f : α → Prog ε σ β} {P : α → σ → Prop}
    {Q : β → σ → Prop} (hm : Stays R s m P)
    (hf : ∀ a s', R s s' → P a s' → Stays R s' (f a) Q) : Stays R s (m >>= f) Q := by
  obtain ⟨h1, h2⟩ := hm
  unfold Stays
  rw [bind_apply]
  rcases e : m s with ⟨_ | _ | _, s'⟩
  · rename_i a
    simp only [e] at h1 h2
    obtain ⟨h3, h4⟩ := hf a s' h1 (h2 a rfl)
    exact ⟨Track.trans h1 h3, h4⟩
  · rw [e] at h1
    exact ⟨h1, fun _ e => by cases e⟩
  · rw [e] at h1
    exact ⟨h1, fun _ e => by cases e⟩

/-- A read is replaced by what it gives. -/
lemma read_bind {f : σ → α} {g : α → Prog ε σ β} {Q : β → σ → Prop} (h : Stays R s (g (f s)) Q) :
    Stays R s (Prog.read f >>= g) Q := h

/-- A check that ends the program where it is if it fails. -/
lemma guard {c : Prop} [Decidable c] {a : α} {m : Prog ε σ α} {Q : α → σ → Prop} (hR : R s s)
    (hQ : Q a s) (h : ¬ c → Stays R s m Q) : Stays R s (if c then Pure.pure a else m) Q := by
  split
  · exact .pure hR hQ
  · exact h ‹_›

lemma query_bind [Track R] {f : σ → Outcome ε α} {g : α → Prog ε σ β} {Q : β → σ → Prop}
    (hR : R s s) (h : ∀ a, f s = .ok a → Stays R s (g a) Q) : Stays R s (Prog.query f >>= g) Q := by
  refine .bind (P := fun a s' => s' = s ∧ f s = .ok a) (.query hR fun a e => ⟨rfl, e⟩) ?_
  rintro a s' - ⟨rfl, e⟩
  exact h a e

lemma assert_bind {c : Prop} [Decidable c] {e : ε} {g : Unit → Prog ε σ β} {Q : β → σ → Prop}
    (hR : R s s) (h : c → Stays R s (g ()) Q) : Stays R s (Prog.assert c e >>= g) Q := by
  by_cases hc : c
  · rw [assert_pos hc]
    exact h hc
  · rw [assert_neg hc]
    exact .panic hR

/-- The rule for a loop over a list. -/
lemma each [Track R] {ι : Type} {f : ι → Prog ε σ Unit} {l : List ι} (hR : R s s)
    (h : ∀ x ∈ l, ∀ s', R s s' → Stays R s' (f x) fun _ _ => True) :
    Stays R s (Prog.each f l) fun _ _ => True := by
  induction l generalizing s with
  | nil => exact .pure hR trivial
  | cons x l ih =>
    refine .bind (h x (by simp) s hR) fun _ s' h1 _ => ?_
    exact ih (Track.refl_right h1) fun y hy s'' h2 => h y (by simp [hy]) s'' (Track.trans h1 h2)

end Stays

/-- From every state that can be on its way, the program moves along `R`. -/
def Tracks (R : σ → σ → Prop) (m : Prog ε σ α) : Prop := ∀ s, R s s → Stays R s m fun _ _ => True

lemma Tracks.compositional {R : σ → σ → Prop} [Track R] : Compositional (ε := ε) (Tracks R) where
  query _ hs := .query hs fun _ _ => trivial
  bind hm hf s hs := .bind (hm s hs) fun a s' h _ => hf a s' (Track.refl_right h)

/-! ## What a program that returns has done -/

/-- Whenever the program returns, it has moved the state along `R`. -/
def Moves (R : σ → σ → Prop) (m : Prog ε σ α) : Prop := ∀ s a s', m s = (.ok a, s') → R s s'

namespace Moves
variable {R : σ → σ → Prop}

lemma panic {e : ε} : Moves R (Prog.panic e : Prog ε σ α) := nofun

lemma read_bind {f : σ → α} {g : α → Prog ε σ β} (h : ∀ a, Moves R (g a)) :
    Moves R (Prog.read f >>= g) :=
  fun s b s' e => h (f s) s b s' e

lemma bind [IsTrans σ R] {m : Prog ε σ α} {f : α → Prog ε σ β} (hm : Moves R m)
    (hf : ∀ a, Moves R (f a)) : Moves R (m >>= f) := by
  intro s b s'' e
  obtain ⟨a, s', e1, e2⟩ := bind_eq_ok e
  exact trans_of R (hm s a s' e1) (hf a s' b s'' e2)

variable [Std.Refl R]

lemma pure {a : α} : Moves R (Pure.pure a : Prog ε σ α) := by
  intro s b s' e
  cases e
  exact refl_of R s

lemma query {f : σ → Outcome ε α} : Moves R (Prog.query f) := by
  intro s a s' e
  cases (Prod.mk.inj e).2
  exact refl_of R s

end Moves

end Prog

end Vmbolt
