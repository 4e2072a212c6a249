import Mathlib.Data.Set.Basic
import Vmbolt.Model.DB

/-!
# What a read depends on

A cursor looks at the kind and the inodes of the nodes it meets and at nothing else. If two heaps
agree on a set of nodes that is closed under children, every cursor whose stack lies in the set
moves in the same way in both, and its stack stays in the set.
-/

namespace Vmbolt

/-- The two heaps agree on the nodes of `R`, whose children are in `R` again. -/
structure Agree (R : Set NodeId) (w w' : World) : Prop where
  isLeaf : ∀ n ∈ R, (w'.nodes n).isLeaf = (w.nodes n).isLeaf
  inodes : ∀ n ∈ R, w'.inodes n = w.inodes n
  kids : ∀ n ∈ R, ∀ i ∈ w.inodes n, ∀ c, i.child = some c → c ∈ R

/-- The stack lies in `R`. -/
def StackIn (R : Set NodeId) (st : List ElemRef) : Prop := ∀ ref ∈ st, ref.node ∈ R

/-- The second computation ends like the first one, whose value satisfies `P`. -/
def Same {α : Type} (P : α → Prop) (x y : Outcome Panic α) : Prop := y = x ∧ ∀ a, x = .ok a → P a

namespace Same
variable {α β : Type} {P : α → Prop} {Q : β → Prop}

lemma ok {a : α} (h : P a) : Same P (.ok a) (.ok a) := ⟨rfl, fun _ e => by cases e; exact h⟩

lemma panic {e : Panic} : Same P (.panic e) (.panic e) := ⟨rfl, nofun⟩

lemma hang : Same P .hang .hang := ⟨rfl, nofun⟩

lemma bind {x y : Outcome Panic α} {f g : α → Outcome Panic β} (h : Same P x y)
    (hf : ∀ a, P a → Same Q (f a) (g a)) : Same Q (x >>= f) (y >>= g) := by
  obtain ⟨rfl, hx⟩ := h
  cases y with
  | ok a => exact hf a (hx a rfl)
  | panic e => exact panic
  | hang => exact hang

end Same

/-- The root of a bucket of a published state. -/
def DbState.rootOf (st : DbState) (name : Name) : Option NodeId :=
  (st.buckets.lookup name).join.bind BucketState.root

/-- `Bucket.Get` on a bucket of a published state. -/
def DbState.get (fuel : Nat) (w : World) (st : DbState) (name : Name) (key : Bytes) :
    Outcome Panic (Option Bytes) := do
  let r ← Cursor.seekStack fuel w (st.rootOf name) key
  if bytesEqual key r.1.1 then pure r.1.2 else pure none

/-- The calls that move a cursor. -/
inductive CursorOp where
  | first
  | last
  | next
  | prev
  | seek (key : Bytes)
  deriving DecidableEq, Repr

namespace CursorOp

/-- Move a cursor. -/
def run (fuel : Nat) (w : World) (c : Cursor) : CursorOp → Outcome Panic (Item × Cursor)
  | first => c.First fuel w
  | last => c.Last fuel w
  | next => c.Next fuel w
  | prev => c.Prev fuel w
  | seek key => c.Seek fuel w key

/-- Move the stack of a cursor of a tree with the given root. -/
def onTree (fuel : Nat) (w : World) (root : Option NodeId) (st : List ElemRef) :
    CursorOp → Outcome Panic (Item × List ElemRef)
  | first => Cursor.firstStack fuel w root
  | last => Cursor.lastStack fuel w root
  | next => Cursor.nextStack fuel w st
  | prev => Cursor.prevStack fuel w root st
  | seek key => do
    let r ← Cursor.seekStack fuel w root key
    if Cursor.topAtEnd w r.2 then Cursor.nextStack fuel w r.2 else pure r

/-- A cursor of an open transaction moves its stack on the tree its bucket shows. -/
lemma run_eq {fuel : Nat} {w : World} {c : Cursor} {b : BucketId} (op : CursorOp)
    (hc : c.bucket = some b) (ho : (w.txs (w.buckets b).tx).db = true) :
    op.run fuel w c = (do
      let r ← op.onTree fuel w (Bucket.rootView w b) c.stack
      pure (r.1, { c with stack := r.2 })) := by
  have hopen : Cursor.openRoot w b = .ok (Bucket.rootView w b) := by
    unfold Cursor.openRoot
    rw [if_pos ho]
  cases op <;>
    simp only [run, onTree, Cursor.First, Cursor.Last, Cursor.Next, Cursor.Prev, Cursor.Seek,
      hc, hopen, Outcome.ok_bind]
  next key =>
    rcases Cursor.seekStack fuel w (Bucket.rootView w b) key with r | e | _
    · rfl
    · rfl
    · rfl

end CursorOp

section
variable {w w' : World} {R : Set NodeId} {st : List ElemRef} {ref : ElemRef} {n : NodeId}

namespace Agree

/-- The stack of a cursor that has found an item. -/
def ItemIn (R : Set NodeId) (r : Item × List ElemRef) : Prop := StackIn R r.2

lemma push (hs : StackIn R st) (hn : n ∈ R) {i : Int} : StackIn R (⟨n, i⟩ :: st) := by
  intro ref hr
  rcases List.mem_cons.1 hr with rfl | hr
  · exact hn
  · exact hs ref hr

variable {fuel : Nat} {root : Option NodeId} {key : Bytes} (h : Agree R w w')
include h

lemma count_eq (hr : ref.node ∈ R) : Cursor.count w' ref = Cursor.count w ref := by
  unfold Cursor.count
  rw [h.inodes _ hr]

lemma keyValue (hs : StackIn R st) :
    Same (fun _ => True) (Cursor.keyValue w st) (Cursor.keyValue w' st) := by
  refine ⟨?_, fun _ _ => trivial⟩
  cases st with
  | nil => rfl
  | cons ref st =>
    have hr := hs ref (by simp)
    simp only [Cursor.keyValue]
    rw [h.count_eq hr, h.inodes _ hr]

lemma childOf (hr : ref.node ∈ R) :
    Same (· ∈ R) (Cursor.childOf w ref) (Cursor.childOf w' ref) := by
  unfold Cursor.childOf
  rw [h.inodes _ hr]
  split
  · exact .panic
  next i hi =>
    split
    · exact .panic
    next c hc =>
      refine .ok (h.kids _ hr i ?_ c hc)
      unfold atIndex at hi
      split at hi
      · cases hi
      · exact List.mem_of_getElem? hi

lemma goToFirst (hs : StackIn R st) :
    Same (StackIn R) (Cursor.goToFirstElementOnTheStack fuel w st)
      (Cursor.goToFirstElementOnTheStack fuel w' st) := by
  induction fuel generalizing st with
  | zero => exact .hang
  | succ fuel ih =>
    cases st with
    | nil => exact .panic
    | cons ref st =>
      have hr := hs ref (by simp)
      unfold Cursor.goToFirstElementOnTheStack
      rw [h.isLeaf _ hr]
      split
      · exact .ok hs
      · exact (h.childOf hr).bind fun n hn => ih (push hs hn)

lemma last (hs : StackIn R st) :
    Same (StackIn R) (Cursor.last fuel w st) (Cursor.last fuel w' st) := by
  induction fuel generalizing st with
  | zero => exact .hang
  | succ fuel ih =>
    cases st with
    | nil => exact .panic
    | cons ref st =>
      have hr := hs ref (by simp)
      unfold Cursor.last
      rw [h.isLeaf _ hr]
      split
      · exact .ok hs
      · refine (h.childOf hr).bind fun n hn => ?_
        rw [h.inodes n hn]
        exact ih (push hs hn)

lemma moveOver (hs : StackIn R st) :
    Cursor.moveOver w' st = Cursor.moveOver w st ∧ ∀ st', Cursor.moveOver w st = some st' →
      StackIn R st' := by
  induction st with
  | nil => exact ⟨rfl, nofun⟩
  | cons ref st ih =>
    have hr := hs ref (by simp)
    have hs' : StackIn R st := fun x hx => hs x (by simp [hx])
    unfold Cursor.moveOver
    rw [h.count_eq hr]
    split
    · exact ⟨rfl, fun st' e => by cases e; exact push hs' hr⟩
    · exact ih hs'

lemma topEmpty (hs : StackIn R st) : Cursor.topEmpty w' st = Cursor.topEmpty w st := by
  cases st with
  | nil => rfl
  | cons ref st =>
    simp only [Cursor.topEmpty]
    rw [h.count_eq (hs ref (by simp))]

lemma nextStack (hs : StackIn R st) :
    Same (ItemIn R) (Cursor.nextStack fuel w st) (Cursor.nextStack fuel w' st) := by
  induction fuel generalizing st with
  | zero => exact .hang
  | succ fuel ih =>
    unfold Cursor.nextStack
    obtain ⟨e, hm⟩ := h.moveOver hs
    rw [e]
    split
    · exact .ok hs
    next st' hst =>
      refine (h.goToFirst (hm st' hst)).bind fun st2 h2 => ?_
      rw [h.topEmpty h2]
      split
      · exact ih h2
      · exact (h.keyValue h2).bind fun kv _ => .ok h2

section
variable (hr : ∀ n ∈ root, n ∈ R)
include hr

lemma firstStack :
    Same (ItemIn R) (Cursor.firstStack fuel w root) (Cursor.firstStack fuel w' root) := by
  unfold Cursor.firstStack
  cases root with
  | none => exact .panic
  | some n =>
    have hn : StackIn R [⟨n, 0⟩] := push (by simp [StackIn]) (hr n rfl)
    refine (h.goToFirst hn).bind fun st hs => ?_
    have hst : Same (StackIn R)
        (if Cursor.topEmpty w st then do let r ← Cursor.nextStack fuel w st; pure r.2 else pure st)
        (if Cursor.topEmpty w' st then do let r ← Cursor.nextStack fuel w' st; pure r.2
          else pure st) := by
      rw [h.topEmpty hs]
      split
      · exact (h.nextStack hs).bind fun r hr => .ok hr
      · exact .ok hs
    exact hst.bind fun st2 h2 => (h.keyValue h2).bind fun kv _ => .ok h2

lemma prevStack (hs : StackIn R st) :
    Same (ItemIn R) (Cursor.prevStack fuel w root st) (Cursor.prevStack fuel w' root st) := by
  have hback : ∀ l : List ElemRef, StackIn R l → ∀ l', Cursor.moveBack l = some l' →
      StackIn R l' := by
    intro l
    induction l with
    | nil => exact nofun
    | cons ref l ih =>
      intro hl l' e
      have hl' : StackIn R l := fun x hx => hl x (by simp [hx])
      unfold Cursor.moveBack at e
      split at e
      · cases e
        exact push hl' (hl ref (by simp))
      · exact ih hl' l' e
  unfold Cursor.prevStack
  split
  · exact .ok hs
  split
  · exact (h.firstStack hr).bind fun r hr => .ok hr
  next st' e =>
    exact (h.last (hback _ hs st' e)).bind fun st2 h2 => (h.keyValue h2).bind fun kv _ => .ok h2

lemma lastStack :
    Same (ItemIn R) (Cursor.lastStack fuel w root) (Cursor.lastStack fuel w' root) := by
  have hloop : ∀ k st, StackIn R st →
      Same (StackIn R) (Cursor.lastLoop k w root st) (Cursor.lastLoop k w' root st) := by
    intro k
    induction k with
    | zero => exact fun _ _ => .hang
    | succ k ih =>
      intro st hs
      unfold Cursor.lastLoop
      rw [h.topEmpty hs]
      split
      · exact (h.prevStack hr hs).bind fun r hr => ih r.2 hr
      · exact .ok hs
  unfold Cursor.lastStack
  cases root with
  | none => exact .panic
  | some n =>
    have hn := hr n rfl
    dsimp only
    rw [h.inodes n hn]
    refine (h.last (push (by simp [StackIn]) hn)).bind fun st hs => (hloop fuel st hs).bind
      fun st2 h2 => ?_
    cases st2 with
    | nil => exact .ok h2
    | cons ref st2 => exact (h.keyValue h2).bind fun kv _ => .ok h2

lemma search (hs : StackIn R st) :
    Same (StackIn R) (Cursor.search fuel w key root st) (Cursor.search fuel w' key root st) := by
  induction fuel generalizing root st with
  | zero => exact .hang
  | succ fuel ih =>
    cases root with
    | none => exact .panic
    | some n =>
      have hn := hr n rfl
      unfold Cursor.search
      dsimp only
      rw [h.inodes n hn, h.isLeaf n hn]
      split
      · exact .ok (push hs hn)
      split
      · exact .panic
      next i hi =>
        exact ih (fun c hc => h.kids n hn i (List.mem_of_getElem? hi) c hc) (push hs hn)

lemma seekStack :
    Same (ItemIn R) (Cursor.seekStack fuel w root key) (Cursor.seekStack fuel w' root key) :=
  (h.search hr (by simp [StackIn])).bind fun st hs => (h.keyValue hs).bind fun kv _ => .ok hs

lemma onTree (hs : StackIn R st) (op : CursorOp) :
    Same (ItemIn R) (op.onTree fuel w root st) (op.onTree fuel w' root st) := by
  cases op with
  | first => exact h.firstStack hr
  | last => exact h.lastStack hr
  | next => exact h.nextStack hs
  | prev => exact h.prevStack hr hs
  | seek key =>
    refine (h.seekStack hr).bind fun r hs => ?_
    have htop : Cursor.topAtEnd w' r.2 = Cursor.topAtEnd w r.2 := by
      rcases e : r.2 with _ | ⟨ref, st⟩
      · rfl
      · simp only [Cursor.topAtEnd]
        rw [h.count_eq (hs ref (by simp [e]))]
    rw [htop]
    split
    · exact h.nextStack hs
    · exact .ok hs

end

lemma get {pub : DbState} {name : Name} (hr : ∀ n ∈ pub.rootOf name, n ∈ R) :
    pub.get fuel w' name key = pub.get fuel w name key := by
  unfold DbState.get
  rw [(h.seekStack hr).1]

end Agree

end

end Vmbolt
