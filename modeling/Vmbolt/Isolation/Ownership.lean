import Mathlib.Data.Set.Basic
import Vmbolt.Model.DB

/-!
# The writes of one bucket handle

A node belongs to the handle `b` while its field `bucket` points to it. `Within w0 b F w` says that
`w` can be reached from `w0` by writes to the nodes of `b`, to their backing arrays, to objects that
were allocated since and to the handle itself; `F` is a set of nodes that trees of `b` may share
with others. The lemmas `Prog.Stays (Along w0 b F) w m Q` show this for every function of `node.go`
and of `bucket.go` that works on one handle, whatever the shape of the tree and however the call
ends.
-/

namespace Vmbolt
open Prog

/-- The node `n` belongs to the handle `b`. -/
def Own (w : World) (b : BucketId) (n : NodeId) : Prop :=
  n < w.nextNode ∧ (w.nodes n).bucket = some b

/-- The backing array `a` is used by a node of the handle `b`. -/
def OwnArr (w : World) (b : BucketId) (a : ArrId) : Prop := ∃ n, Own w b n ∧ w.arr n = a

/-- A node the handle may write to in a call that starts in `w0`. -/
def Mine (w0 : World) (b : BucketId) (n : NodeId) : Prop := Own w0 b n ∨ w0.nextNode ≤ n

/-- A backing array the handle may write to in a call that starts in `w0`. -/
def MineArr (w0 : World) (b : BucketId) (a : ArrId) : Prop := OwnArr w0 b a ∨ w0.nextArr ≤ a

/-- A node of the handle that has been allocated, where `N` is the next node to be allocated. -/
def Known (w0 : World) (b : BucketId) (N : NodeId) (n : NodeId) : Prop := Mine w0 b n ∧ n < N

/-- The child of an inode, if there is one, belongs to the handle or to `F`. -/
def KidOK (w0 : World) (b : BucketId) (F : Set NodeId) (N : NodeId) (i : Inode) : Prop :=
  ∀ c, i.child = some c → Known w0 b N c ∨ c ∈ F

/-- A slice the nodes of the handle may have, where `A` is the next array to be allocated. -/
def MineSlice (w0 : World) (b : BucketId) (A : ArrId) (s : Slice) : Prop :=
  MineArr w0 b s.arr ∧ s.arr < A

/-- The fields of a node of the handle. -/
structure MineNode (w0 : World) (b : BucketId) (N : NodeId) (A : ArrId) (nd : Node) : Prop where
  bucket : nd.bucket = some b
  inodes : MineSlice w0 b A nd.inodes
  parent : ∀ p, nd.parent = some p → Known w0 b N p

/-- `w` is reached from `w0` by writes of the handle `b`. -/
structure Within (w0 : World) (b : BucketId) (F : Set NodeId) (w : World) : Prop where
  rt : w.rt = w0.rt
  nextNode : w0.nextNode ≤ w.nextNode
  nextArr : w0.nextArr ≤ w.nextArr
  node : ∀ n, ¬ Mine w0 b n → w.nodes n = w0.nodes n
  array : ∀ a, ¬ MineArr w0 b a → w.arrays a = w0.arrays a
  mine : ∀ n, Known w0 b w.nextNode n → MineNode w0 b w.nextNode w.nextArr (w.nodes n)
  dirty : ∀ n ∈ (w.buckets b).dirty, Known w0 b w.nextNode n
  root : ∀ r, (w.buckets b).rootNode = some r → Known w0 b w.nextNode r
  kids : ∀ a, MineArr w0 b a → a < w.nextArr → ∀ i ∈ w.arrays a, KidOK w0 b F w.nextNode i
  bucket : ∀ b', b' ≠ b → w.buckets b' = w0.buckets b'
  handle_tx : (w.buckets b).tx = (w0.buckets b).tx
  handle_name : (w.buckets b).name = (w0.buckets b).name
  nextBucket : w.nextBucket = w0.nextBucket
  txs : w.txs = w0.txs
  nextTx : w.nextTx = w0.nextTx
  db : w.db = w0.db

/-- One stretch of a call of the handle, from `w` to `w'`. -/
structure Along (w0 : World) (b : BucketId) (F : Set NodeId) (w w' : World) : Prop where
  within : Within w0 b F w'
  nextNode : w.nextNode ≤ w'.nextNode
  nextArr : w.nextArr ≤ w'.nextArr

section
variable {w0 w w' : World} {b : BucketId} {F : Set NodeId} {n : NodeId}

instance : Track (Along w0 b F) where
  trans h1 h2 := ⟨h2.within, h1.nextNode.trans h2.nextNode, h1.nextArr.trans h2.nextArr⟩
  refl_right h := ⟨h.within, le_rfl, le_rfl⟩

/-- A call starts with the empty stretch. -/
lemma Within.along (h : Within w0 b F w) : Along w0 b F w w := ⟨h, le_rfl, le_rfl⟩

/-- Known nodes stay known. -/
lemma Known.mono {N N' : NodeId} (h : Known w0 b N n) (hN : N ≤ N') : Known w0 b N' n :=
  ⟨h.1, h.2.trans_le hN⟩

lemma KidOK.mono {i : Inode} {N N' : NodeId} (h : KidOK w0 b F N i) (hN : N ≤ N') :
    KidOK w0 b F N' i :=
  fun c hc => (h c hc).imp (·.mono hN) id

lemma MineNode.mono {nd : Node} {N N' : NodeId} {A A' : ArrId} (h : MineNode w0 b N A nd)
    (hN : N ≤ N') (hA : A ≤ A') : MineNode w0 b N' A' nd :=
  ⟨h.bucket, ⟨h.inodes.1, h.inodes.2.trans_le hA⟩, fun p hp => (h.parent p hp).mono hN⟩

/-- The zero inode has no child. -/
lemma kidOK_default {N : NodeId} : KidOK w0 b F N default := nofun

/-- The slots of the backing array of a node of the handle. -/
lemma Within.kids_array (h : Within w0 b F w) (hn : Known w0 b w.nextNode n) :
    ∀ i ∈ w.arrays (w.nodes n).inodes.arr, KidOK w0 b F w.nextNode i :=
  h.kids _ (h.mine n hn).inodes.1 (h.mine n hn).inodes.2

/-- The inodes of a node of the handle. -/
lemma Within.kids_inodes (h : Within w0 b F w) (hn : Known w0 b w.nextNode n) :
    ∀ i ∈ w.inodes n, KidOK w0 b F w.nextNode i :=
  fun i hi => h.kids_array hn i (List.mem_of_mem_take hi)

/-- Where the cut-off counter stands does not matter. -/
lemma Within.setCut (h : Within w0 b F w) (c : Option Nat) : Within w0 b F { w with cut := c } :=
  ⟨h.rt, h.nextNode, h.nextArr, h.node, h.array, h.mine, h.dirty, h.root, h.kids, h.bucket,
    h.handle_tx, h.handle_name, h.nextBucket, h.txs, h.nextTx, h.db⟩

/-! ## Single writes -/

/-- A heap write, in front of which the call may be cut off. -/
lemma stays_write_of {R : World → World → Prop} {f : World → World} {Q : Unit → World → Prop}
    (hcut : R w { w with cut := none })
    (hf : ∀ c, R w (f { w with cut := c }) ∧ Q () (f { w with cut := c })) :
    Stays R w (write f) Q := by
  unfold Stays write
  rcases hc : w.cut with _ | _ | j
  · have e : { w with cut := none } = w := by rw [← hc]
    have := hf none
    rw [e] at this
    exact ⟨this.1, fun _ _ => this.2⟩
  · exact ⟨hcut, fun _ e => by cases e⟩
  · exact ⟨(hf (some j)).1, fun _ _ => (hf (some j)).2⟩

section
variable (h : Within w0 b F w)
include h

lemma stays_write {f : World → World} {Q : Unit → World → Prop}
    (hf : ∀ c, Along w0 b F w (f { w with cut := c }) ∧ Q () (f { w with cut := c })) :
    Stays (Along w0 b F) w (write f) Q :=
  stays_write_of ⟨h.setCut none, le_rfl, le_rfl⟩ hf

lemma stays_deref {α : Type} {p : Option α} :
    Stays (Along w0 b F) w (deref p) fun a w' => p = some a ∧ w' = w := by
  cases p with
  | none => exact .panic h.along
  | some a => exact .pure h.along ⟨rfl, rfl⟩

/-- Write fields of a node of the handle. -/
lemma stays_modifyNode {f : Node → Node} (hn : Known w0 b w.nextNode n)
    (hf : MineNode w0 b w.nextNode w.nextArr (f (w.nodes n))) :
    Stays (Along w0 b F) w (modifyNode n f) fun _ _ => True := by
  refine stays_write h fun c => ⟨⟨?_, le_rfl, le_rfl⟩, trivial⟩
  refine ⟨h.rt, h.nextNode, h.nextArr, ?_, h.array, ?_, h.dirty, h.root, h.kids, h.bucket,
    h.handle_tx, h.handle_name, h.nextBucket, h.txs, h.nextTx, h.db⟩
  · intro m hm
    have : m ≠ n := fun e => hm (e ▸ hn.1)
    simpa [World.setNode, this] using h.node m hm
  · intro m hm
    by_cases e : m = n
    · subst e
      simpa [World.setNode] using hf
    · simpa [World.setNode, e] using h.mine m hm

/-- Write to a backing array of the handle. -/
lemma stays_setArr {g : World → List Inode} {a : ArrId} (ha : MineArr w0 b a)
    (hg : ∀ c, ∀ i ∈ g { w with cut := c }, KidOK w0 b F w.nextNode i) :
    Stays (Along w0 b F) w (write fun v => v.setArr a (g v)) fun _ _ => True := by
  refine stays_write h fun c => ⟨⟨?_, le_rfl, le_rfl⟩, trivial⟩
  refine ⟨h.rt, h.nextNode, h.nextArr, h.node, ?_, h.mine, h.dirty, h.root, ?_, h.bucket,
    h.handle_tx, h.handle_name, h.nextBucket, h.txs, h.nextTx, h.db⟩
  · intro a' ha'
    have : a' ≠ a := fun e => ha' (e ▸ ha)
    simpa [World.setArr, this] using h.array a' ha'
  · intro a' ha' hlt i hi
    by_cases e : a' = a
    · subst e
      simp only [World.setArr, Function.update_self] at hi
      exact hg c i hi
    · simp only [World.setArr, Function.update_of_ne e] at hi
      exact h.kids a' ha' hlt i hi

/-- Write fields of the handle. -/
lemma stays_modifyBucket {f : Bucket → Bucket} (htx : (f (w.buckets b)).tx = (w.buckets b).tx)
    (hname : (f (w.buckets b)).name = (w.buckets b).name)
    (hd : ∀ n ∈ (f (w.buckets b)).dirty, Known w0 b w.nextNode n)
    (hr : ∀ r, (f (w.buckets b)).rootNode = some r → Known w0 b w.nextNode r) :
    Stays (Along w0 b F) w (modifyBucket b f) fun _ _ => True := by
  refine stays_write h fun c => ⟨⟨?_, le_rfl, le_rfl⟩, trivial⟩
  refine ⟨h.rt, h.nextNode, h.nextArr, h.node, h.array, h.mine, ?_, ?_, h.kids, ?_, ?_, ?_,
    h.nextBucket, h.txs, h.nextTx, h.db⟩
  · simpa [World.setBucket] using hd
  · simpa [World.setBucket] using hr
  · intro b' hb'
    simpa [World.setBucket, hb'] using h.bucket b' hb'
  · simpa [World.setBucket, htx] using h.handle_tx
  · simpa [World.setBucket, hname] using h.handle_name

lemma stays_markDirty (hn : Known w0 b w.nextNode n) :
    Stays (Along w0 b F) w (markDirty b n) fun _ _ => True := by
  refine stays_modifyBucket h rfl rfl (fun m hm => ?_) h.root
  rcases Finset.mem_insert.1 hm with rfl | hm
  · exact hn
  · exact h.dirty m hm

/-- Allocate a backing array. -/
lemma stays_newArr {l : List Inode} (hl : ∀ i ∈ l, KidOK w0 b F w.nextNode i) :
    Stays (Along w0 b F) w (newArr l) fun a w' => MineArr w0 b a ∧ a < w'.nextArr := by
  have ha : MineArr w0 b w.nextArr := .inr h.nextArr
  refine .read_bind (.bind (P := fun _ w' => w.nextArr < w'.nextArr) (stays_write h fun c => ⟨⟨?_,
    le_rfl, Nat.le_succ _⟩, Nat.lt_succ_self _⟩) fun _ w' hw hlt => .pure hw.within.along ⟨ha, hlt⟩)
  refine ⟨h.rt, h.nextNode, h.nextArr.trans (Nat.le_succ _), h.node, ?_, fun n hn => ?_, h.dirty,
    h.root, ?_, h.bucket, h.handle_tx, h.handle_name, h.nextBucket, h.txs, h.nextTx, h.db⟩
  · intro a' ha'
    have : a' ≠ w.nextArr := fun e => ha' (e ▸ ha)
    simpa [World.setArr, this] using h.array a' ha'
  · exact (h.mine n hn).mono le_rfl (Nat.le_succ _)
  · intro a' ha' hlt i hi
    by_cases e : a' = w.nextArr
    · subst e
      simp only [World.setArr, Function.update_self] at hi
      exact hl i hi
    · simp only [World.setArr, Function.update_of_ne e] at hi
      exact h.kids a' ha' (lt_of_le_of_ne (Nat.lt_succ_iff.1 hlt) e) i hi

/-- Allocate a node. -/
lemma stays_newNode {nd : Node} (hnd : MineNode w0 b w.nextNode w.nextArr nd) :
    Stays (Along w0 b F) w (newNode nd) fun n w' => Known w0 b w'.nextNode n := by
  have hn : Mine w0 b w.nextNode := .inr h.nextNode
  have hle : w.nextNode ≤ w.nextNode + 1 := Nat.le_succ _
  refine .read_bind (.bind (P := fun _ w' => w.nextNode < w'.nextNode) (stays_write h fun c => ⟨⟨?_,
    hle, le_rfl⟩, Nat.lt_succ_self _⟩) fun _ w' hw hlt => .pure hw.within.along ⟨hn, hlt⟩)
  refine ⟨h.rt, h.nextNode.trans hle, h.nextArr, ?_, h.array, ?_,
    fun n hn => (h.dirty n hn).mono hle,
    fun r hr => (h.root r hr).mono hle, fun a ha hlt i hi =>
      (h.kids a ha hlt i hi).mono hle, h.bucket,
    h.handle_tx, h.handle_name, h.nextBucket, h.txs, h.nextTx, h.db⟩
  · intro m hm
    have : m ≠ w.nextNode := fun e => hm (e ▸ hn)
    simpa [World.setNode, this] using h.node m hm
  · intro m hm
    by_cases e : m = w.nextNode
    · subst e
      simpa [World.setNode] using hnd.mono hle le_rfl
    · have hlt : m < w.nextNode := lt_of_le_of_ne (Nat.lt_succ_iff.1 hm.2) e
      simpa [World.setNode, e] using (h.mine m ⟨hm.1, hlt⟩).mono hle le_rfl

end

end

end Vmbolt
