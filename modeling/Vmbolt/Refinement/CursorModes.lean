import Vmbolt.Refinement.ArrayCursor

/-!
# The two modes of a cursor

The directory cursor of `Tx.Cursor` moves an index that runs beyond either end of the names; the
cursor of a bucket stops there. `NeverTurnsBack` says of a sequence of calls that none of them leads
back from beyond an end, and the two cursors return the same keys for exactly these sequences.
-/

namespace Vmbolt
open Filter

namespace CursorOp

/-- The index of a directory cursor after a call. -/
def onDir (names : List Name) (d : Int) : CursorOp → Int
  | first => 0
  | last => if names.length = 0 then 0 else names.length - 1
  | next => d + 1
  | prev => d - 1
  | seek key => (names.countP fun k => k < key : Nat)

/-- The index of a cursor of a bucket with these keys after a call. -/
def onKeys (names : List Name) (p : Int) : CursorOp → Int
  | first => 0
  | last => names.length - 1
  | next => if p + 1 < names.length then p + 1 else p
  | prev => if 0 < p then p - 1 else 0
  | seek key => (names.countP fun k => k < key : Nat)

/-- The key a cursor of a bucket with these keys returns. -/
def keyOnKeys (names : List Name) (p : Int) : CursorOp → Option Bytes
  | first => atIndex names 0
  | last => atIndex names (names.length - 1)
  | next => if p + 1 < names.length then atIndex names (p + 1) else none
  | prev => if 0 < p then atIndex names (p - 1) else none
  | seek key => atIndex names (names.countP fun k => k < key : Nat)

/-- The bucket cursor stands at the index `p` of `n` keys, the directory cursor `e` further, and the
call leads back. From the only name the bucket cursor returns nothing in both directions, so there
only the call that leads back onto the name counts. -/
def TurnsBack (n : Nat) (p e : Int) : CursorOp → Prop
  | next => e < 0 ∧ (1 < n ∨ e = -1)
  | prev => 0 < e ∧ (0 < p ∨ e = 1)
  | _ => False

instance (n : Nat) (p e : Int) : (op : CursorOp) → Decidable (op.TurnsBack n p e)
  | next => inferInstanceAs (Decidable (e < 0 ∧ (1 < n ∨ e = -1)))
  | prev => inferInstanceAs (Decidable (0 < e ∧ (0 < p ∨ e = 1)))
  | first | last | seek _ => inferInstanceAs (Decidable False)

end CursorOp

/-- No call leads back from beyond an end, before `First`, `Last` or `Seek` sets the cursors
anew. -/
def NeverTurnsBack (names : List Name) : Int → Int → List CursorOp → Prop
  | _, _, [] => True
  | p, e, op :: ops => ¬ op.TurnsBack names.length p e ∧
    NeverTurnsBack names (op.onKeys names p) (op.onDir names (p + e) - op.onKeys names p) ops

instance decidableNeverTurnsBack (names : List Name) : (p e : Int) → (ops : List CursorOp) →
    Decidable (NeverTurnsBack names p e ops)
  | _, _, [] => inferInstanceAs (Decidable True)
  | p, e, op :: ops =>
    have := decidableNeverTurnsBack names (op.onKeys names p)
      (op.onDir names (p + e) - op.onKeys names p) ops
    inferInstanceAs (Decidable (¬ _ ∧ _))

/-- Where the two cursors stand after calls that have not led back. -/
structure Strays (n : Nat) (p e : Int) : Prop where
  nonneg : 0 ≤ p
  le : p ≤ n
  right : 0 < e → (n : Int) - 1 ≤ p
  left : e < 0 → p ≤ 0

/-- The keys a sequence of calls on a directory cursor returns. -/
def dirKeys (names : List Name) : Int → List CursorOp → List (Option Bytes)
  | _, [] => []
  | d, op :: ops => atIndex names (op.onDir names d) :: dirKeys names (op.onDir names d) ops

section
variable {names : List Name} {p e d : Int}

/-! ## The indices -/

lemma atIndex_eq_none {α : Type} {l : List α} {i : Int} :
    atIndex l i = none ↔ i < 0 ∨ (l.length : Int) ≤ i := by
  unfold atIndex
  split
  next h => simp [h]
  next h =>
    rw [List.getElem?_eq_none_iff]
    omega

/-- Different indices give different names. -/
lemma atIndex_inj (hnd : names.Nodup) {i j : Int} (h0 : 0 ≤ i) (h1 : i < names.length) :
    atIndex names i = atIndex names j ↔ i = j := by
  refine ⟨fun h => ?_, fun h => by rw [h]⟩
  have hi : atIndex names i ≠ none := fun e => by
    rw [atIndex_eq_none] at e
    omega
  have hj : ¬ (j < 0 ∨ (names.length : Int) ≤ j) := fun e => hi (h.trans (atIndex_eq_none.2 e))
  push Not at hj
  have hlt : i.toNat < names.length := by omega
  unfold atIndex at h
  rw [if_neg (not_lt.2 h0), if_neg (not_lt.2 hj.1), List.getElem?_inj hlt hnd] at h
  omega

/-- One call returns the same key, if it does not lead back. -/
lemma Strays.key_eq_iff (hne : names ≠ []) (hnd : names.Nodup) {op : CursorOp}
    (h : op.Sets ∨ Strays names.length p e) :
    op.keyOnKeys names p = atIndex names (op.onDir names (p + e)) ↔
      ¬ op.TurnsBack names.length p e := by
  have hpos : 0 < names.length := List.length_pos_iff.2 hne
  cases op with
  | first => simp [CursorOp.keyOnKeys, CursorOp.onDir, CursorOp.TurnsBack]
  | last => simp [CursorOp.keyOnKeys, CursorOp.onDir, CursorOp.TurnsBack, hne]
  | seek key => simp [CursorOp.keyOnKeys, CursorOp.onDir, CursorOp.TurnsBack]
  | next =>
    obtain ⟨h0, h1, hr, hl⟩ := h.resolve_left id
    simp only [CursorOp.keyOnKeys, CursorOp.onDir, CursorOp.TurnsBack]
    split
    next hlt =>
      rw [atIndex_inj hnd (by omega) hlt]
      omega
    next hge =>
      rw [eq_comm, atIndex_eq_none]
      omega
  | prev =>
    obtain ⟨h0, h1, hr, hl⟩ := h.resolve_left id
    simp only [CursorOp.keyOnKeys, CursorOp.onDir, CursorOp.TurnsBack]
    split
    next hlt =>
      rw [atIndex_inj hnd (by omega) (by omega)]
      omega
    next hge =>
      rw [eq_comm, atIndex_eq_none]
      omega

/-- Where the cursors stand after a call that does not lead back. -/
lemma Strays.step (hne : names ≠ []) {op : CursorOp} (h : op.Sets ∨ Strays names.length p e)
    (ht : ¬ op.TurnsBack names.length p e) :
    Strays names.length (op.onKeys names p) (op.onDir names (p + e) - op.onKeys names p) := by
  have hpos : 0 < names.length := List.length_pos_iff.2 hne
  cases op with
  | first => exact ⟨le_rfl, by simp [CursorOp.onKeys], by simp [CursorOp.onKeys, CursorOp.onDir],
      by simp [CursorOp.onKeys]⟩
  | last =>
    have e' : CursorOp.onDir names (p + e) .last - CursorOp.onKeys names p .last = 0 := by
      simp [CursorOp.onKeys, CursorOp.onDir, hpos.ne']
    rw [e']
    refine ⟨?_, ?_, by omega, by omega⟩ <;> simp only [CursorOp.onKeys] <;> omega
  | seek key =>
    have hle : (names.countP fun k => k < key) ≤ names.length := List.countP_le_length
    have e' :
        CursorOp.onDir names (p + e) (.seek key) - CursorOp.onKeys names p (.seek key) = 0 := by
      simp [CursorOp.onKeys, CursorOp.onDir]
    rw [e']
    refine ⟨?_, ?_, by omega, by omega⟩ <;> simp only [CursorOp.onKeys] <;> omega
  | next =>
    obtain ⟨h0, h1, hr, hl⟩ := h.resolve_left id
    simp only [CursorOp.TurnsBack] at ht
    simp only [CursorOp.onKeys, CursorOp.onDir]
    split <;> constructor <;> omega
  | prev =>
    obtain ⟨h0, h1, hr, hl⟩ := h.resolve_left id
    simp only [CursorOp.TurnsBack] at ht
    simp only [CursorOp.onKeys, CursorOp.onDir]
    split <;> constructor <;> omega

/-! ## Runs -/

/-- The keys a sequence of calls on a cursor of a bucket returns. -/
def treeKeys (names : List Name) : Int → List CursorOp → List (Option Bytes)
  | _, [] => []
  | p, op :: ops => op.keyOnKeys names p :: treeKeys names (op.onKeys names p) ops

/-- The index into the entries of a bucket, in terms of the keys. -/
lemma CursorOp.onArray_eq (es : List (Bytes × Bytes)) (p : Int) (op : CursorOp) :
    (op.onArray es p).1.1 = op.keyOnKeys (es.map Prod.fst) p ∧
      (op.onArray es p).2 = op.onKeys (es.map Prod.fst) p := by
  have key : ∀ i, (itemOf (atIndex es i)).1 = atIndex (es.map Prod.fst) i := by
    intro i
    unfold atIndex
    split
    · rfl
    · rw [List.getElem?_map]
      rcases es[i.toNat]? with _ | ⟨k, v⟩ <;> rfl
  have hcount : ∀ k : Bytes, (es.map Prod.fst).countP (fun x => decide (x < k)) =
      es.countP fun x => decide (x.1 < k) := fun k => by
    rw [List.countP_map]
    rfl
  cases op with
  | first => exact ⟨key 0, rfl⟩
  | last => simp [CursorOp.onArray, CursorOp.keyOnKeys, CursorOp.onKeys, key]
  | seek k => simp [CursorOp.onArray, CursorOp.keyOnKeys, CursorOp.onKeys, key, hcount]
  | next =>
    simp only [CursorOp.onArray, CursorOp.keyOnKeys, CursorOp.onKeys, List.length_map]
    split
    · exact ⟨key _, rfl⟩
    · exact ⟨rfl, rfl⟩
  | prev =>
    simp only [CursorOp.onArray, CursorOp.keyOnKeys, CursorOp.onKeys]
    split
    · exact ⟨key _, rfl⟩
    · exact ⟨rfl, rfl⟩

lemma arrayItems_keys (es : List (Bytes × Bytes)) (p : Int) (ops : List CursorOp) :
    (Cursor.arrayItems es p ops).map Prod.fst = treeKeys (es.map Prod.fst) p ops := by
  induction ops generalizing p with
  | nil => rfl
  | cons op ops ih =>
    obtain ⟨h1, h2⟩ := op.onArray_eq es p
    rw [Cursor.arrayItems, List.map_cons, ih, h1, h2]
    rfl

/-- A call on a directory cursor. -/
lemma CursorOp.run_dir {fuel : Nat} {w : World} {c : Cursor} (op : CursorOp) (hc : c.bucket = none)
    (hs : c.dir.Pairwise (· < ·)) :
    op.run fuel w c = .ok ((atIndex c.dir (op.onDir c.dir c.dirIdx), none),
      { c with dirIdx := op.onDir c.dir c.dirIdx }) := by
  obtain ⟨_, stk, dir, i⟩ := c
  cases hc
  have hkv : ∀ i, (⟨none, stk, dir, i⟩ : Cursor).dirKeyValue = (atIndex dir i, none) := by
    intro i
    unfold Cursor.dirKeyValue
    dsimp only
    rcases atIndex dir i with _ | k <;> rfl
  cases op with
  | first => simp only [CursorOp.run, Cursor.First, hkv, CursorOp.onDir]
  | next => simp only [CursorOp.run, Cursor.Next, hkv, CursorOp.onDir]
  | prev => simp only [CursorOp.run, Cursor.Prev, hkv, CursorOp.onDir]
  | last =>
    simp only [CursorOp.run, Cursor.Last, hkv, CursorOp.onDir]
    split
    next h => simp [List.length_eq_zero_iff.1 h, atIndex]
    next => rfl
  | seek key =>
    have hlb : lowerBound id dir key = dir.countP fun k => k < key := by
      obtain ⟨l1, l2, e, hlb, h1, h2⟩ :=
        lowerBound_split (show dir.Pairwise fun x y => id x < id y from hs) key
      rw [hlb, e, List.countP_append, List.countP_eq_length.2 fun k hk => by simpa using h1 k hk,
        List.countP_eq_zero.2 fun k hk => by simpa using h2 k hk, Nat.add_zero]
    simp only [CursorOp.run, Cursor.Seek, hkv, CursorOp.onDir, hlb]

/-- A sequence of calls on a directory cursor. -/
lemma runAll_dir {fuel : Nat} {w : World} {c : Cursor} (hc : c.bucket = none)
    (hs : c.dir.Pairwise (· < ·)) (ops : List CursorOp) :
    c.runAll fuel w ops = .ok ((dirKeys c.dir c.dirIdx ops).map fun k => (k, none)) := by
  induction ops generalizing c with
  | nil => rfl
  | cons op ops ih =>
    rw [Cursor.runAll, op.run_dir hc hs, Outcome.ok_bind,
      ih (c := { c with dirIdx := op.onDir c.dir c.dirIdx }) hc hs]
    rfl

lemma Tx.pairwise_cursor_dir (tx : Tx) : tx.cursor.dir.Pairwise (· < ·) := by
  unfold Tx.cursor
  split
  · exact List.Pairwise.nil
  · exact (Finset.sortedLT_sort _).pairwise

/-- The names are the only ascending list of these names. -/
lemma Tx.cursor_dir_eq (tx : Tx) (hs : names.Pairwise (· < ·))
    (h : ∀ k, k ∈ tx.cursor.dir ↔ k ∈ names) : tx.cursor.dir = names :=
  List.Perm.eq_of_pairwise (fun _ _ _ _ h1 h2 => absurd h1 (lt_asymm h2)) tx.pairwise_cursor_dir hs
    ((List.perm_ext_iff_of_nodup (tx.pairwise_cursor_dir.imp ne_of_lt) (hs.imp ne_of_lt)).2 h)

lemma Tx.cursor_bucket (tx : Tx) : tx.cursor.bucket = none := by
  unfold Tx.cursor
  split <;> rfl

/-- Without names, both cursors return nothing. -/
lemma treeKeys_nil (p d : Int) (ops : List CursorOp) : dirKeys [] d ops = treeKeys [] p ops := by
  have hnil : ∀ i, atIndex ([] : List Name) i = none := fun i => by simp [atIndex]
  induction ops generalizing p d with
  | nil => rfl
  | cons op ops ih =>
    rw [dirKeys, treeKeys, ih (op.onKeys [] p)]
    congr 1
    cases op <;> simp [CursorOp.keyOnKeys, hnil]

/-- A sequence of calls returns the same keys, if no call leads back. -/
lemma dirKeys_eq_iff (hne : names ≠ []) (hnd : names.Nodup) (ops : List CursorOp)
    (h : (∀ op ∈ ops.head?, op.Sets) ∨ Strays names.length p e) :
    dirKeys names (p + e) ops = treeKeys names p ops ↔ NeverTurnsBack names p e ops := by
  induction ops generalizing p e with
  | nil => simp [dirKeys, treeKeys, NeverTurnsBack]
  | cons op ops ih =>
    have h' : op.Sets ∨ Strays names.length p e := h.imp_left fun h => h op rfl
    rw [dirKeys, treeKeys, List.cons.injEq, eq_comm,
      Strays.key_eq_iff hne hnd h', NeverTurnsBack]
    refine and_congr_right fun ht => ?_
    rw [← ih (.inr (Strays.step hne h' ht)), add_sub_cancel]

end

section
variable {w : World} {b : BucketId} {g : Layout} {root : NodeId} {H : Nat}

/-- The directory cursor over the names of a transaction and a cursor of a committed bucket with
these keys return the same keys, call by call, exactly if no call leads back from beyond an end. -/
theorem cursor_modes_agree_iff (h : Untouched w b g root H)
    (ho : (w.txs (w.buckets b).tx).db = true) (w1 : World) (tx : Tx)
    (hnames : ∀ k, k ∈ tx.cursor.dir ↔ k ∈ (contents w H root).map Prod.fst) (op : CursorOp)
    (hop : op.Sets) (ops : List CursorOp) :
    ∃ l1 l2, (∀ᶠ fuel in atTop, tx.cursor.runAll fuel w1 (op :: ops) = .ok l1) ∧
      (∀ᶠ fuel in atTop, (Bucket.cursor b).runAll fuel w (op :: ops) = .ok l2) ∧
      (l1.map Prod.fst = l2.map Prod.fst ↔
        tx.cursor.dir = [] ∨ NeverTurnsBack tx.cursor.dir 0 0 (op :: ops)) := by
  have hs := tx.pairwise_cursor_dir
  have hsorted : ((contents w H root).map Prod.fst).Pairwise (· < ·) :=
    List.pairwise_map.2 (h.tree.tree.contents_sorted h.tree.tree.lvl_root)
  have hdir := tx.cursor_dir_eq hsorted hnames
  refine ⟨_, Cursor.arrayItems (contents w H root) 0 (op :: ops),
    .of_forall fun fuel => runAll_dir tx.cursor_bucket hs (op :: ops), ?_, ?_⟩
  · filter_upwards [eventually_ge_atTop (H + (leaves w H root).length + 2)] with fuel hf
    exact h.runAll ho hf (op :: ops) rfl (.inl fun o ho => by cases ho; exact hop)
  · rw [arrayItems_keys, ← hdir, List.map_map]
    change (dirKeys tx.cursor.dir tx.cursor.dirIdx (op :: ops)).map id = _ ↔ _
    rw [List.map_id]
    by_cases hne : tx.cursor.dir = []
    · rw [hne]
      simp [treeKeys_nil 0]
    · have hset : dirKeys tx.cursor.dir tx.cursor.dirIdx (op :: ops) =
          dirKeys tx.cursor.dir (0 + 0) (op :: ops) := by
        rw [dirKeys, dirKeys]
        cases op with
        | next => cases hop
        | prev => cases hop
        | _ => rfl
      rw [hset,
        dirKeys_eq_iff hne (hs.imp ne_of_lt) (op :: ops) (.inl fun o ho => by cases ho; exact hop)]
      simp [hne]

end

-- the second `Next` keeps the directory cursor off its only name for one `Prev` more
example : NeverTurnsBack [[1]] 0 0 [.first, .next, .next, .prev] := by decide

example : ¬ NeverTurnsBack [[1]] 0 0 [.first, .next, .prev] := by decide

/-- A transaction with the keys of the bucket `threeLeaves` as its bucket names. -/
def sixNames : Tx :=
  ⟨true, false, true, some ⟨∅⟩, ∅, {[1], [2], [3], [4], [5], [6]}, ∅⟩

lemma sixNames_dir : sixNames.cursor.dir = [[1], [2], [3], [4], [5], [6]] := by
  refine sixNames.cursor_dir_eq (by decide) fun k => ?_
  simp [Tx.cursor, sixNames, Tx.baseNames]

theorem cursor_modes_agree_iff_sixNames :
    ∃ l1 l2, (∀ᶠ fuel in atTop,
      sixNames.cursor.runAll fuel threeLeaves [.seek [3], .prev, .next] = .ok l1) ∧
      (∀ᶠ fuel in atTop,
        (Bucket.cursor 0).runAll fuel threeLeaves [.seek [3], .prev, .next] = .ok l2) ∧
      (l1.map Prod.fst = l2.map Prod.fst ↔
        sixNames.cursor.dir = [] ∨
          NeverTurnsBack sixNames.cursor.dir 0 0 [.seek [3], .prev, .next]) :=
  cursor_modes_agree_iff threeLeaves_untouched rfl threeLeaves sixNames
    (fun k => by rw [sixNames_dir]; exact Iff.rfl) (.seek [3]) trivial _

/-- Behind the last name, `Prev` of the directory cursor returns the last name again; a cursor of a
bucket with these keys returns the one before it. -/
theorem cursor_modes_disagree :
    Untouched threeLeaves 0 threeLeavesLayout 0 1 ∧
    sixNames.cursor.dir = (contents threeLeaves 1 0).map Prod.fst ∧
    ∃ l1 l2, (∀ᶠ fuel in atTop,
      sixNames.cursor.runAll fuel threeLeaves [.last, .next, .prev] = .ok l1) ∧
      (∀ᶠ fuel in atTop, (Bucket.cursor 0).runAll fuel threeLeaves [.last, .next, .prev] = .ok l2) ∧
      l1.map Prod.fst = [some [6], none, some [6]] ∧
        l2.map Prod.fst = [some [6], none, some [5]] := by
  refine ⟨threeLeaves_untouched, sixNames_dir, _,
    Cursor.arrayItems (contents threeLeaves 1 0) 0 [.last, .next, .prev],
    .of_forall fun fuel => runAll_dir sixNames.cursor_bucket sixNames.pairwise_cursor_dir _,
    ?_, ?_, ?_⟩
  · filter_upwards [eventually_ge_atTop (1 + (leaves threeLeaves 1 0).length + 2)] with fuel hf
    exact threeLeaves_untouched.runAll rfl hf _ rfl (.inl fun o ho => by cases ho; trivial)
  · rw [sixNames_dir]
    decide +kernel
  · decide +kernel

end Vmbolt
