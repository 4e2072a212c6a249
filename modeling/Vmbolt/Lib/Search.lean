import Mathlib.Order.Lattice
import Mathlib.Tactic.Lemma
import Mathlib.Tactic.Common

/-!
# Binary search

`sort.Search` of the Go standard library, for a predicate that may carry a state `τ` along (a
closure that writes to a captured variable). `sortSearch_eq` is its contract for a predicate that is
false up to a boundary and true from it on, `sortSearchS_eq` adds what a flag raised by the probes
is worth at the end, and `lowerBound_append` and `lowerBoundExact_append` read the result on a list
sorted by a key.
-/

namespace Vmbolt

section Search
variable {τ : Type}

/-- The loop of `sort.Search` on the interval `[i, j)`. -/
def searchLoop (f : Nat → τ → Bool × τ) : Nat → Nat → Nat → τ → Nat × τ
  | 0, i, _, t => (i, t)
  | fuel + 1, i, j, t =>
    if i < j then
      let h := (i + j) / 2
      if (f h t).1 then searchLoop f fuel i h (f h t).2
      else searchLoop f fuel (h + 1) j (f h t).2
    else (i, t)

/-- `sort.Search(n, f)` for a predicate with state. -/
def sortSearchS (n : Nat) (f : Nat → τ → Bool × τ) (t : τ) : Nat × τ := searchLoop f n 0 n t

/-- `sort.Search(n, p)`. -/
def sortSearch (n : Nat) (p : Nat → Bool) : Nat := (sortSearchS n (fun i _ => (p i, ())) ()).1

/-- The loop finds the boundary, and a flag raised by the probes that satisfy `q` ends up raised iff
the boundary satisfies `q`: indices below it do not, and it is probed unless it is the end. -/
lemma searchLoop_flag {p q : Nat → Bool} {b : Nat} (hq : ∀ i, i < b → q i = false)
    (hlt : ∀ i, i < b → p i = false) :
    ∀ (fuel i j : Nat) (e : Bool), j ≤ i + fuel → i ≤ b → b ≤ j →
      (∀ x, b ≤ x → x < j → p x = true) → (∀ x, b < x → x < j → q x = false) →
      searchLoop (fun x e => (p x, e || q x)) fuel i j e = (b, e || (decide (b < j) && q b)) := by
  intro fuel
  induction fuel with
  | zero =>
    intro i j e hf hi hj _ _
    obtain rfl : i = b := by omega
    have h : ¬ i < j := by omega
    simp [searchLoop, h]
  | succ fuel ih =>
    intro i j e hf hi hj hge hgt
    unfold searchLoop
    by_cases hij : i < j
    · rw [if_pos hij]
      by_cases hb : (i + j) / 2 < b
      · have hp := hlt _ hb
        have hqf := hq _ hb
        simp only [hp, hqf, Bool.or_false]
        rw [if_neg (by simp)]
        exact ih _ _ _ (by omega) (by omega) hj hge hgt
      · have hp : p ((i + j) / 2) = true := hge _ (by omega) (by omega)
        simp only [hp, if_true]
        rw [ih _ _ _ (by omega) hi (by omega) (fun x h1 h2 => hge x h1 (by omega))
          (fun x h1 h2 => hgt x h1 (by omega))]
        rcases Nat.eq_or_lt_of_le (Nat.not_lt.1 hb) with h | h
        · have h1 : b < j := by omega
          rw [← h]
          simp [h1]
        · have h1 : b < j := by omega
          have h2 : q ((i + j) / 2) = false := hgt _ h (by omega)
          simp [h, h1, h2]
    · obtain rfl : i = b := by omega
      rw [if_neg hij]
      simp [hij]

/-- The flag version of the contract of `sort.Search`. -/
lemma sortSearchS_eq {n b : Nat} {p q : Nat → Bool} (hb : b ≤ n)
    (hlt : ∀ i, i < b → p i = false ∧ q i = false)
    (hge : ∀ i, b ≤ i → i < n → p i = true) (hgt : ∀ i, b < i → i < n → q i = false) :
    sortSearchS n (fun i e => (p i, e || q i)) false = (b, decide (b < n) && q b) := by
  unfold sortSearchS
  rw [searchLoop_flag (fun i hi => (hlt i hi).2) (fun i hi => (hlt i hi).1) n 0 n false
    (by omega) (by omega) hb hge hgt]
  simp

/-- A predicate without state searches like one that ignores its state. -/
lemma searchLoop_fst {p : Nat → Bool} {f : Nat → τ → Bool × τ} (hf : ∀ i t, (f i t).1 = p i) :
    ∀ (fuel i j : Nat) (t : τ),
      (searchLoop f fuel i j t).1 = (searchLoop (fun x (_ : Unit) => (p x, ())) fuel i j ()).1 := by
  intro fuel
  induction fuel with
  | zero => intros; rfl
  | succ fuel ih =>
    intro i j t
    unfold searchLoop
    split
    · simp only [hf]
      split
      · exact ih _ _ _
      · exact ih _ _ _
    · rfl

/-- The contract of `sort.Search`: the boundary of a predicate that is false below it and true from
it on. -/
lemma sortSearch_eq {n b : Nat} {p : Nat → Bool} (hb : b ≤ n) (hlt : ∀ i, i < b → p i = false)
    (hge : ∀ i, b ≤ i → i < n → p i = true) : sortSearch n p = b := by
  have h := sortSearchS_eq (q := fun _ => false) hb (fun i hi => ⟨hlt i hi, rfl⟩) hge
    (fun _ _ _ => rfl)
  unfold sortSearch
  unfold sortSearchS at h ⊢
  rw [← searchLoop_fst (f := fun i e => (p i, e || false)) (fun _ _ => rfl) n 0 n false, h]

/-- The loop stays in its interval. -/
lemma searchLoop_le {f : Nat → τ → Bool × τ} :
    ∀ (fuel i j : Nat) (t : τ), i ≤ j → (searchLoop f fuel i j t).1 ≤ j := by
  intro fuel
  induction fuel with
  | zero => intro i j t h; exact h
  | succ fuel ih =>
    intro i j t h
    unfold searchLoop
    split
    next hij =>
      have h1 : i ≤ (i + j) / 2 := by omega
      have h2 : (i + j) / 2 < j := by omega
      dsimp only
      split
      · exact Nat.le_trans (ih _ _ _ h1) (Nat.le_of_lt h2)
      · exact ih _ _ _ h2
    · exact h

/-- `sort.Search` returns an index up to `n`, whatever the predicate. -/
lemma sortSearch_le (n : Nat) (p : Nat → Bool) : sortSearch n p ≤ n :=
  searchLoop_le n 0 n () (Nat.zero_le n)

end Search

section LowerBound
variable {α K : Type} [LinearOrder K]

/-- A list sorted by its keys splits at any key. -/
lemma sorted_split {key : α → K} {l : List α} (hs : l.Pairwise fun x y => key x < key y) (k : K) :
    ∃ l1 l2, l = l1 ++ l2 ∧ (∀ x ∈ l1, key x < k) ∧ ∀ x ∈ l2, k ≤ key x := by
  induction l with
  | nil => exact ⟨[], [], rfl, by simp, by simp⟩
  | cons a l ih =>
    obtain ⟨ha, hl⟩ := List.pairwise_cons.1 hs
    by_cases h : key a < k
    · obtain ⟨l1, l2, rfl, h1, h2⟩ := ih hl
      refine ⟨a :: l1, l2, rfl, ?_, h2⟩
      intro x hx
      rcases List.mem_cons.1 hx with rfl | hx
      · exact h
      · exact h1 x hx
    · refine ⟨[], a :: l, rfl, by simp, ?_⟩
      intro x hx
      rcases List.mem_cons.1 hx with rfl | hx
      · exact not_lt.1 h
      · exact (not_lt.1 h).trans (ha x hx).le

variable [Inhabited α]

/-- The index `sort.Search` gives for the first element whose key is not below `k`. -/
def lowerBound (key : α → K) (l : List α) (k : K) : Nat :=
  sortSearch l.length fun i => compare (key (l.getD i default)) k != .lt

lemma lowerBound_le (key : α → K) (l : List α) (k : K) : lowerBound key l k ≤ l.length :=
  sortSearch_le _ _

/-- On a list sorted by its keys the lower bound cuts it in front of the first key at or above
`k`. -/
lemma lowerBound_append {key : α → K} {l1 l2 : List α} {k : K} (h1 : ∀ x ∈ l1, key x < k)
    (h2 : ∀ x ∈ l2, k ≤ key x) : lowerBound key (l1 ++ l2) k = l1.length := by
  refine sortSearch_eq (by simp) (fun i hi => ?_) (fun i hi hn => ?_)
  · have hx := h1 (l1[i]) (List.getElem_mem hi)
    have e : (l1 ++ l2).getD i default = l1[i] := by
      simp [List.getD_eq_getElem?_getD, List.getElem?_append_left hi, hi]
    rw [e, compare_lt_iff_lt.2 hx]
    rfl
  · have hj : i - l1.length < l2.length := by simp at hn; omega
    have hx := h2 (l2[i - l1.length]) (List.getElem_mem hj)
    have e : (l1 ++ l2).getD i default = l2[i - l1.length] := by
      simp [List.getD_eq_getElem?_getD, List.getElem?_append_right hi, hj]
    rw [e]
    simpa using fun hlt => absurd (compare_lt_iff_lt.1 hlt) (not_lt.2 hx)

/-- The lower bound of a sorted list, together with the two parts it cuts the list into. -/
lemma lowerBound_split {key : α → K} {l : List α} (hs : l.Pairwise fun x y => key x < key y)
    (k : K) : ∃ l1 l2, l = l1 ++ l2 ∧ lowerBound key l k = l1.length ∧
      (∀ x ∈ l1, key x < k) ∧ ∀ x ∈ l2, k ≤ key x := by
  obtain ⟨l1, l2, rfl, h1, h2⟩ := sorted_split hs k
  exact ⟨l1, l2, rfl, lowerBound_append h1 h2, h1, h2⟩

/-- The lower bound together with a flag that the search raises when it meets the key. -/
def lowerBoundExact (key : α → K) (l : List α) (k : K) : Nat × Bool :=
  sortSearchS l.length (fun i (exact : Bool) =>
    (compare (key (l.getD i default)) k != .lt,
      exact || compare (key (l.getD i default)) k == .eq)) false

/-- The flag tells whether the lower bound has the key. -/
lemma lowerBoundExact_append {key : α → K} {l1 l2 : List α} {k : K} (h1 : ∀ x ∈ l1, key x < k)
    (h2 : ∀ x ∈ l2, k ≤ key x) (hs : l2.Pairwise fun x y => key x < key y) :
    lowerBoundExact key (l1 ++ l2) k =
      (l1.length, match l2 with
        | [] => false
        | x :: _ => key x = k) := by
  have hleft : ∀ i, i < l1.length → key ((l1 ++ l2).getD i default) < k := by
    intro i hi
    have e : (l1 ++ l2).getD i default = l1[i] := by
      simp [List.getD_eq_getElem?_getD, List.getElem?_append_left hi, hi]
    rw [e]
    exact h1 _ (List.getElem_mem hi)
  have hright : ∀ i, l1.length ≤ i → i < (l1 ++ l2).length →
      ∃ h : i - l1.length < l2.length, (l1 ++ l2).getD i default = l2[i - l1.length] := by
    intro i hi hn
    have hj : i - l1.length < l2.length := by simp at hn; omega
    exact ⟨hj, by simp [List.getD_eq_getElem?_getD, List.getElem?_append_right hi, hj]⟩
  unfold lowerBoundExact
  rw [sortSearchS_eq (b := l1.length)]
  · cases l2 with
    | nil => simp
    | cons x l2 => by_cases hx : key x = k <;> simp [List.getD_eq_getElem?_getD, hx]
  · simp
  · intro i hi
    have hlt := hleft i hi
    exact ⟨by simp only [compare_lt_iff_lt.2 hlt]; rfl, by simp only [compare_lt_iff_lt.2 hlt]; rfl⟩
  · intro i hi hn
    obtain ⟨hj, e⟩ := hright i hi hn
    rw [e]
    simpa using fun hlt => absurd (compare_lt_iff_lt.1 hlt) (not_lt.2 (h2 _ (List.getElem_mem hj)))
  · intro i hi hn
    obtain ⟨hj, e⟩ := hright i (Nat.le_of_lt hi) hn
    have hlt : key l2[0] < key l2[i - l1.length] :=
      List.pairwise_iff_getElem.1 hs 0 (i - l1.length) (by omega) hj (by omega)
    have hk := (h2 _ (List.getElem_mem (by omega : 0 < l2.length))).trans_lt hlt
    rw [e]
    simpa using hk.ne'

end LowerBound

end Vmbolt
