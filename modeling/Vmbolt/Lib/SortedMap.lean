import Mathlib.Data.List.Pairwise
import Mathlib.Order.Lattice
import Mathlib.Tactic.Common
import Mathlib.Tactic.Lemma

/-!
# Sorted maps

Finite maps as lists of entries in strictly ascending order of their keys, the reference model of an
ordered store. The order is a field of `SortedMap`, so an unsorted map cannot be built. The lemmas
`*_mid` say what an operation on one stretch of the entries does to the whole list, if the key
belongs to that stretch.
-/

namespace Vmbolt

section Entries
variable {K V : Type} [LinearOrder K]

/-- Insert an entry, replacing the one with the same key. -/
def insertEntry (k : K) (v : V) : List (K × V) → List (K × V)
  | [] => [(k, v)]
  | x :: l =>
    if k < x.1 then (k, v) :: x :: l
    else if x.1 < k then x :: insertEntry k v l
    else (k, v) :: l

/-- Remove the entry with a key. -/
def eraseEntry (k : K) (l : List (K × V)) : List (K × V) := l.filter fun x => x.1 ≠ k

/-- The value of a key. -/
def findEntry (k : K) (l : List (K × V)) : Option V := (l.find? fun x => x.1 = k).map Prod.snd

/-- The first entry whose key is not below `k`. -/
def seekEntry (k : K) (l : List (K × V)) : Option (K × V) := l.find? fun x => k ≤ x.1

variable {k : K} {v : V} {l l1 l2 l3 : List (K × V)}

/-- Entries below the key stay in front. -/
lemma insertEntry_append (h : ∀ x ∈ l1, x.1 < k) :
    insertEntry k v (l1 ++ l2) = l1 ++ insertEntry k v l2 := by
  induction l1 with
  | nil => rfl
  | cons x l1 ih =>
    have hx : x.1 < k := h x (by simp)
    simp [insertEntry, hx, not_lt_of_gt hx, ih fun y hy => h y (by simp [hy])]

/-- Entries above the key stay behind. -/
lemma insertEntry_append_right (h : ∀ x ∈ l2, k < x.1) :
    insertEntry k v (l1 ++ l2) = insertEntry k v l1 ++ l2 := by
  induction l1 with
  | nil =>
    cases l2 with
    | nil => rfl
    | cons y l2 => simp [insertEntry, h y (by simp)]
  | cons x l1 ih =>
    simp only [List.cons_append, insertEntry, ih]
    split
    · rfl
    · split <;> rfl

lemma insertEntry_mid (h1 : ∀ x ∈ l1, x.1 < k) (h3 : ∀ x ∈ l3, k < x.1) :
    insertEntry k v (l1 ++ l2 ++ l3) = l1 ++ insertEntry k v l2 ++ l3 := by
  rw [insertEntry_append_right h3, insertEntry_append h1]

/-- Removing a key that is not there changes nothing. -/
lemma eraseEntry_of_not_mem (h : ∀ x ∈ l, x.1 ≠ k) : eraseEntry k l = l :=
  List.filter_eq_self.2 (by simpa using h)

lemma eraseEntry_append : eraseEntry k (l1 ++ l2) = eraseEntry k l1 ++ eraseEntry k l2 :=
  List.filter_append ..

lemma eraseEntry_mid (h1 : ∀ x ∈ l1, x.1 ≠ k) (h3 : ∀ x ∈ l3, x.1 ≠ k) :
    eraseEntry k (l1 ++ l2 ++ l3) = l1 ++ eraseEntry k l2 ++ l3 := by
  rw [eraseEntry_append, eraseEntry_append, eraseEntry_of_not_mem h1, eraseEntry_of_not_mem h3]

lemma findEntry_append_left (h1 : ∀ x ∈ l1, x.1 ≠ k) :
    findEntry k (l1 ++ l2) = findEntry k l2 := by
  unfold findEntry
  rw [List.find?_append, List.find?_eq_none.2 (by simpa using h1), Option.none_or]

lemma findEntry_append_right (h2 : ∀ x ∈ l2, x.1 ≠ k) :
    findEntry k (l1 ++ l2) = findEntry k l1 := by
  have h : l2.find? (fun x => decide (x.1 = k)) = none := List.find?_eq_none.2 (by simpa using h2)
  unfold findEntry
  rw [List.find?_append, h, Option.or_none]

lemma findEntry_mid (h1 : ∀ x ∈ l1, x.1 ≠ k) (h3 : ∀ x ∈ l3, x.1 ≠ k) :
    findEntry k (l1 ++ l2 ++ l3) = findEntry k l2 := by
  rw [findEntry_append_right h3, findEntry_append_left h1]

/-- Every entry of the new list is the new one or an old one with another key. -/
lemma mem_insertEntry {x : K × V} (hs : l.Pairwise fun x y => x.1 < y.1) :
    x ∈ insertEntry k v l ↔ x = (k, v) ∨ (x ∈ l ∧ x.1 ≠ k) := by
  induction l with
  | nil => simp [insertEntry]
  | cons y l ih =>
    obtain ⟨hy, hl⟩ := List.pairwise_cons.1 hs
    unfold insertEntry
    split
    next h =>
      constructor
      · intro hx
        rcases List.mem_cons.1 hx with rfl | hx
        · exact .inl rfl
        · refine .inr ⟨hx, ?_⟩
          rcases List.mem_cons.1 hx with rfl | hx
          · exact h.ne'
          · exact (h.trans (hy x hx)).ne'
      · rintro (rfl | ⟨hx, -⟩)
        · simp
        · exact List.mem_cons_of_mem _ hx
    next h =>
      split
      next h' =>
        rw [List.mem_cons, ih hl, List.mem_cons]
        constructor
        · rintro (rfl | rfl | ⟨hx, hk⟩)
          · exact .inr ⟨.inl rfl, h'.ne⟩
          · exact .inl rfl
          · exact .inr ⟨.inr hx, hk⟩
        · rintro (rfl | ⟨rfl | hx, hk⟩)
          · exact .inr (.inl rfl)
          · exact .inl rfl
          · exact .inr (.inr ⟨hx, hk⟩)
      next h' =>
        have e : y.1 = k := le_antisymm (not_lt.1 h) (not_lt.1 h')
        rw [List.mem_cons, List.mem_cons]
        constructor
        · rintro (rfl | hx)
          · exact .inl rfl
          · exact .inr ⟨.inr hx, by rw [← e]; exact (hy x hx).ne'⟩
        · rintro (rfl | ⟨rfl | hx, hk⟩)
          · exact .inl rfl
          · exact absurd e hk
          · exact .inr hx

lemma insertEntry_sorted (hs : l.Pairwise fun x y => x.1 < y.1) :
    (insertEntry k v l).Pairwise fun x y => x.1 < y.1 := by
  induction l with
  | nil => simp [insertEntry]
  | cons y l ih =>
    obtain ⟨hy, hl⟩ := List.pairwise_cons.1 hs
    unfold insertEntry
    split
    next h =>
      refine List.pairwise_cons.2 ⟨fun x hx => ?_, hs⟩
      rcases List.mem_cons.1 hx with rfl | hx
      · exact h
      · exact h.trans (hy x hx)
    next h =>
      split
      next h' =>
        refine List.pairwise_cons.2 ⟨fun x hx => ?_, ih hl⟩
        rcases (mem_insertEntry hl).1 hx with rfl | ⟨hx, -⟩
        · exact h'
        · exact hy x hx
      next h' =>
        have e : y.1 = k := le_antisymm (not_lt.1 h) (not_lt.1 h')
        exact List.pairwise_cons.2 ⟨fun x hx => by simpa [← e] using hy x hx, hl⟩

lemma eraseEntry_sorted (hs : l.Pairwise fun x y => x.1 < y.1) :
    (eraseEntry k l).Pairwise fun x y => x.1 < y.1 := hs.filter _

lemma findEntry_eq_some (hs : l.Pairwise fun x y => x.1 < y.1) :
    findEntry k l = some v ↔ (k, v) ∈ l := by
  induction l with
  | nil => simp [findEntry]
  | cons y l ih =>
    obtain ⟨hy, hl⟩ := List.pairwise_cons.1 hs
    by_cases h : y.1 = k
    · subst h
      have hn : ∀ u, (y.1, u) ∉ l := fun u hu => (hy _ hu).ne rfl
      simp only [findEntry, List.find?_cons, decide_true, Option.map_some, List.mem_cons, hn,
        or_false, Option.some.injEq]
      constructor
      · rintro rfl
        rfl
      · intro e
        rw [← e]
    · have hd : decide (y.1 = k) = false := by simpa using h
      have hne : (k, v) ≠ y := fun e => h (by rw [← e])
      have := ih hl
      simp only [findEntry, List.find?_cons, hd, List.mem_cons, hne, false_or] at this ⊢
      exact this

end Entries

/-- A finite map with entries in strictly ascending order of their keys. -/
structure SortedMap (K V : Type) [LinearOrder K] where
  entries : List (K × V)
  sorted : entries.Pairwise fun x y => x.1 < y.1

namespace SortedMap
variable {K V : Type} [LinearOrder K]

@[ext] lemma ext {m1 m2 : SortedMap K V} (h : m1.entries = m2.entries) : m1 = m2 := by
  cases m1
  cases m2
  cases h
  rfl

/-- The map without entries. -/
def empty : SortedMap K V := ⟨[], List.Pairwise.nil⟩

/-- Set the value of a key. -/
def insert (m : SortedMap K V) (k : K) (v : V) : SortedMap K V :=
  ⟨insertEntry k v m.entries, insertEntry_sorted m.sorted⟩

/-- Remove a key. -/
def erase (m : SortedMap K V) (k : K) : SortedMap K V :=
  ⟨eraseEntry k m.entries, eraseEntry_sorted m.sorted⟩

/-- The value of a key. -/
def get (m : SortedMap K V) (k : K) : Option V := findEntry k m.entries

/-- The first entry whose key is not below `k`. -/
def seek (m : SortedMap K V) (k : K) : Option (K × V) := seekEntry k m.entries

/-- The entries whose key satisfies `p`. -/
def restrict (m : SortedMap K V) (p : K → Bool) : SortedMap K V :=
  ⟨m.entries.filter fun x => p x.1, m.sorted.filter _⟩

/-- A key has one entry. -/
lemma entry_eq (m : SortedMap K V) {x y : K × V} (hx : x ∈ m.entries) (hy : y ∈ m.entries)
    (h : x.1 = y.1) : x = y := by
  have ex := (findEntry_eq_some m.sorted).2 hx
  have ey := (findEntry_eq_some m.sorted).2 hy
  rw [h, ey] at ex
  exact Prod.ext h (Option.some.inj ex).symm

lemma get_eq_some {m : SortedMap K V} {k : K} {v : V} : m.get k = some v ↔ (k, v) ∈ m.entries :=
  findEntry_eq_some m.sorted

@[simp] lemma get_empty (k : K) : (empty : SortedMap K V).get k = none := rfl

lemma get_insert (m : SortedMap K V) (k : K) (v : V) (k' : K) :
    (m.insert k v).get k' = if k' = k then some v else m.get k' := by
  refine Option.ext fun u => ?_
  rw [get_eq_some]
  change (k', u) ∈ insertEntry k v m.entries ↔ _
  rw [mem_insertEntry m.sorted, ← get_eq_some]
  split
  next h =>
    subst h
    simp [eq_comm]
  next h => simp [h]

@[simp] lemma get_insert_self (m : SortedMap K V) (k : K) (v : V) :
    (m.insert k v).get k = some v := by
  rw [get_insert, if_pos rfl]

lemma get_insert_of_ne (m : SortedMap K V) {k k' : K} (h : k' ≠ k) (v : V) :
    (m.insert k v).get k' = m.get k' := by
  rw [get_insert, if_neg h]

/-- Maps with the same values are equal. -/
lemma ext_get {m1 m2 : SortedMap K V} (h : ∀ k, m1.get k = m2.get k) : m1 = m2 := by
  have hnd : ∀ m : SortedMap K V, m.entries.Nodup := fun m => m.sorted.imp fun hlt e => by
    rw [e] at hlt
    exact lt_irrefl _ hlt
  refine SortedMap.ext
    (List.Perm.eq_of_pairwise (fun x y _ _ h1 h2 => absurd h1 (lt_asymm h2)) m1.sorted
    m2.sorted ((List.perm_ext_iff_of_nodup (hnd m1) (hnd m2)).2 fun x => ?_))
  rw [← get_eq_some, ← get_eq_some, h]

/-- Setting a key twice. -/
lemma insert_insert (m : SortedMap K V) (k : K) (v v' : V) :
    (m.insert k v).insert k v' = m.insert k v' := by
  refine ext_get fun k' => ?_
  simp only [get_insert]
  split <;> rfl

/-- Setting a key to the value it has. -/
lemma insert_get {m : SortedMap K V} {k : K} {v : V} (h : m.get k = some v) : m.insert k v = m := by
  refine ext_get fun k' => ?_
  rw [get_insert]
  split
  next e => rw [e, h]
  next => rfl

/-- Enter the entries of a list, one after the other. -/
def insertAll (m : SortedMap K V) (l : List (K × V)) : SortedMap K V :=
  l.foldl (fun m x => m.insert x.1 x.2) m

lemma get_insertAll_of_notMem (m : SortedMap K V) {l : List (K × V)} {k : K}
    (h : k ∉ l.map Prod.fst) : (m.insertAll l).get k = m.get k := by
  induction l generalizing m with
  | nil => rfl
  | cons x l ih =>
    rw [List.map_cons, List.mem_cons, not_or] at h
    exact (ih (m.insert x.1 x.2) h.2).trans (m.get_insert_of_ne h.1 x.2)

/-- Entering the entries of a map one after the other gives the map. -/
lemma insertAll_entries (m : SortedMap K V) : insertAll empty m.entries = m := by
  suffices h : ∀ (l1 l2 : List (K × V)) (hs : (l1 ++ l2).Pairwise fun x y => x.1 < y.1),
      insertAll ⟨l1, (List.pairwise_append.1 hs).1⟩ l2 = ⟨l1 ++ l2, hs⟩ from h [] m.entries m.sorted
  intro l1 l2
  induction l2 generalizing l1 with
  | nil =>
    intro hs
    exact SortedMap.ext (List.append_nil l1).symm
  | cons x l2 ih =>
    intro hs
    have hlt : ∀ y ∈ l1, y.1 < x.1 := fun y hy => (List.pairwise_append.1 hs).2.2 y hy x (by simp)
    have e : (⟨l1, (List.pairwise_append.1 hs).1⟩ : SortedMap K V).insert x.1 x.2 =
        ⟨l1 ++ [x],
          (List.pairwise_append.1 (by simpa using hs : ((l1 ++ [x]) ++ l2).Pairwise _)).1⟩ := by
      refine SortedMap.ext ?_
      have : insertEntry x.1 x.2 (l1 ++ []) = l1 ++ [x] := insertEntry_append hlt
      rwa [List.append_nil] at this
    have := ih (l1 ++ [x]) (by simpa using hs)
    rw [insertAll, List.foldl_cons, e]
    refine this.trans (SortedMap.ext ?_)
    simp

/-- Erasing a key that is not there changes nothing. -/
lemma erase_of_get_none {m : SortedMap K V} {k : K} (h : m.get k = none) : m.erase k = m := by
  refine SortedMap.ext (eraseEntry_of_not_mem fun x hx e => ?_)
  simp only [get, findEntry, Option.map_eq_none_iff, List.find?_eq_none, decide_eq_true_eq] at h
  exact h x hx e

lemma get_erase (m : SortedMap K V) (k k' : K) :
    (m.erase k).get k' = if k' = k then none else m.get k' := by
  refine Option.ext fun u => ?_
  rw [get_eq_some]
  change (k', u) ∈ m.entries.filter _ ↔ _
  rw [List.mem_filter, decide_eq_true_eq, ← get_eq_some]
  split
  next h => simp [h]
  next h => simp [h]

/-- Erasing the key of an entry takes the entry out. -/
lemma erase_entries {m : SortedMap K V} {pre post : List (K × V)} {x : K × V}
    (h : m.entries = pre ++ x :: post) : (m.erase x.1).entries = pre ++ post := by
  have hs := m.sorted
  rw [h, List.pairwise_append, List.pairwise_cons] at hs
  obtain ⟨-, ⟨hgt, -⟩, hlt⟩ := hs
  change eraseEntry x.1 m.entries = _
  have hpre : eraseEntry x.1 pre = pre :=
    eraseEntry_of_not_mem fun y hy => (hlt y hy x (by simp)).ne
  have hpost : eraseEntry x.1 post = post := eraseEntry_of_not_mem fun y hy => (hgt y hy).ne'
  have hx : eraseEntry x.1 (x :: post) = eraseEntry x.1 post := by simp [eraseEntry]
  rw [h, eraseEntry_append, hpre, hx, hpost]

end SortedMap

end Vmbolt
