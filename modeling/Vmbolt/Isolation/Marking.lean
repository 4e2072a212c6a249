import Vmbolt.Isolation.Ownership
import Vmbolt.Isolation.Writes

/-!
# New nodes are marked

A node enters the heap at five places: the root of a new bucket, the copy of a root, the copy of a
child, the second half of a split and the parent made for one. Each of them enters the node into the
dirty set of its handle before the call returns, and no function but `detachPublishedNodes` takes a
node out of its handle or out of a dirty set. `Marks none w w'` is what every function leaves behind
when it returns.
-/

namespace Vmbolt
open Prog

/-- What a write may do to a handle. -/
structure KeepsHandle (bk bk' : Bucket) : Prop where
  name : bk'.name = bk.name
  dirty : bk.dirty ⊆ bk'.dirty
  root : bk.rootNode.isSome → bk'.rootNode.isSome

/-- From `w` to `w'` the directories stayed as they are, and a call that is not to be cut off still
is not. -/
structure SameDir (w w' : World) : Prop where
  txs : w'.txs = w.txs
  db : w'.db = w.db
  nextBucket : w'.nextBucket = w.nextBucket
  cut : w.cut = none → w'.cut = none

/-- From `w` to `w'` every node has kept its handle, no node was taken out of a dirty set, no handle
has lost its root, and every new node but `x` is in the dirty set of its handle. -/
structure Marks (x : Option NodeId) (w w' : World) : Prop extends SameDir w w' where
  nextNode : w.nextNode ≤ w'.nextNode
  bucket : ∀ n, n < w.nextNode → (w'.nodes n).bucket = (w.nodes n).bucket
  handle : ∀ b, KeepsHandle (w.buckets b) (w'.buckets b)
  new : ∀ n, w.nextNode ≤ n → n < w'.nextNode → x ≠ some n →
    ∀ b, (w'.nodes n).bucket = some b → n ∈ (w'.buckets b).dirty

section
variable {w w' w'' : World} {x : Option NodeId} {b : BucketId} {n : NodeId} {fuel : Nat}

lemma KeepsHandle.refl (bk : Bucket) : KeepsHandle bk bk := ⟨rfl, subset_rfl, id⟩

lemma KeepsHandle.trans {bk bk' bk'' : Bucket} (h1 : KeepsHandle bk bk')
    (h2 : KeepsHandle bk' bk'') :
    KeepsHandle bk bk'' :=
  ⟨h2.name.trans h1.name, h1.dirty.trans h2.dirty, fun h => h2.root (h1.root h)⟩

lemma SameDir.refl (w : World) : SameDir w w := ⟨rfl, rfl, rfl, id⟩

lemma SameDir.trans (h1 : SameDir w w') (h2 : SameDir w' w'') : SameDir w w'' :=
  ⟨h2.txs.trans h1.txs, h2.db.trans h1.db, h2.nextBucket.trans h1.nextBucket,
    fun h => h2.cut (h1.cut h)⟩

lemma Marks.refl (w : World) : Marks none w w :=
  ⟨.refl w, le_rfl, fun _ _ => rfl, fun _ => .refl _, fun _ h1 h2 => absurd h1 (not_le.2 h2)⟩

/-- Two stretches, of which one has marked all its nodes. -/
lemma Marks.comp {y z : Option NodeId} (h1 : Marks x w w') (h2 : Marks y w' w'')
    (hz : ∀ n, z ≠ some n → x ≠ some n ∧ y ≠ some n) : Marks z w w'' := by
  refine ⟨h1.toSameDir.trans h2.toSameDir, h1.nextNode.trans h2.nextNode, fun n hn => ?_,
    fun b => (h1.handle b).trans (h2.handle b), fun n hle hlt hx b hb => ?_⟩
  · rw [h2.bucket n (hn.trans_le h1.nextNode), h1.bucket n hn]
  · by_cases hn : n < w'.nextNode
    · rw [h2.bucket n hn] at hb
      exact (h2.handle b).dirty (h1.new n hle hn (hz n hx).1 b hb)
    · exact h2.new n (not_lt.1 hn) hlt (hz n hx).2 b hb

lemma Marks.trans (h1 : Marks x w w') (h2 : Marks none w' w'') : Marks x w w'' :=
  h1.comp h2 fun _ hx => ⟨hx, nofun⟩

instance : Std.Refl (Marks none) := ⟨.refl⟩

instance : IsTrans World (Marks none) := ⟨fun _ _ _ => .trans⟩

lemma compositional_marks : Compositional (ε := Panic) (Moves (Marks none)) := ⟨.query, .bind⟩

/-! ## Single writes -/

/-- A write that returned, with the number of writes that are left. -/
lemma write_eq_ok_cut {f : World → World} {a : Unit} (e : write f w = (.ok a, w')) :
    ∃ c, w' = f { w with cut := c } ∧ (w.cut = none → c = none) := by
  unfold write at e
  split at e
  next hc =>
    cases e
    exact ⟨none, by rw [← hc], fun _ => rfl⟩
  next => cases e
  next j hc =>
    cases e
    exact ⟨some j, rfl, fun h => absurd (h.symm.trans hc) (by simp)⟩

/-- A write that returned. -/
lemma write_eq_ok {f : World → World} {a : Unit} (e : write f w = (.ok a, w')) :
    ∃ c, w' = f { w with cut := c } :=
  (write_eq_ok_cut e).imp fun _ h => h.1

/-- A write that leaves the nodes with their handles. -/
lemma moves_write {f : World → World} (hd : ∀ w, SameDir w (f w))
    (hf : ∀ w, (f w).nextNode = w.nextNode ∧ (∀ n, ((f w).nodes n).bucket = (w.nodes n).bucket) ∧
      ∀ b, KeepsHandle (w.buckets b) ((f w).buckets b)) : Moves (Marks none) (write f) := by
  intro w a w' e
  obtain ⟨c, rfl, hc⟩ := write_eq_ok_cut e
  obtain ⟨h1, h2, h3⟩ := hf { w with cut := c }
  have hdir := hd { w with cut := c }
  exact ⟨⟨hdir.txs, hdir.db, hdir.nextBucket, fun h => hdir.cut (hc h)⟩, h1.ge, fun n _ => h2 n, h3,
    fun n hle hlt => absurd hle (not_le.2 (h1 ▸ hlt))⟩

lemma moves_modifyNode {f : Node → Node} (hf : ∀ nd, (f nd).bucket = nd.bucket) :
    Moves (Marks none) (modifyNode n f) := by
  refine moves_write (fun _ => ⟨rfl, rfl, rfl, id⟩) fun w => ⟨rfl, fun m => ?_, fun _ => .refl _⟩
  by_cases e : m = n
  · subst e
    simp [World.setNode, hf]
  · simp [World.setNode, e]

lemma moves_setParent {p : NodeId} :
    Moves (Marks none) (modifyNode n fun nd => { nd with parent := some p }) :=
  moves_modifyNode fun _ => rfl

lemma moves_modifyBucket {f : Bucket → Bucket} (hf : ∀ bk, KeepsHandle bk (f bk)) :
    Moves (Marks none) (modifyBucket b f) := by
  refine moves_write (fun _ => ⟨rfl, rfl, rfl, id⟩) fun w => ⟨rfl, fun _ => rfl, fun b' => ?_⟩
  by_cases e : b' = b
  · subst e
    simpa [World.setBucket] using hf (w.buckets b')
  · simpa [World.setBucket, e] using KeepsHandle.refl (w.buckets b')

/-- A handle gets another root. -/
lemma moves_setRoot {r : NodeId} :
    Moves (Marks none) (modifyBucket b fun bk => { bk with rootNode := some r }) :=
  moves_modifyBucket fun _ => ⟨rfl, subset_rfl, fun _ => rfl⟩

lemma moves_markDirty : Moves (Marks none) (markDirty b n) :=
  moves_modifyBucket fun _ => ⟨rfl, Finset.subset_insert _ _, id⟩

lemma moves_setArr {a : World → ArrId} {g : World → List Inode} :
    Moves (Marks none) (write fun w => w.setArr (a w) (g w)) :=
  moves_write (fun _ => ⟨rfl, rfl, rfl, id⟩) fun _ => ⟨rfl, fun _ => rfl, fun _ => .refl _⟩

lemma moves_newArr {l : List Inode} : Moves (Marks none) (newArr l) :=
  .read_bind fun _ => .bind (moves_write (fun _ => ⟨rfl, rfl, rfl, id⟩)
    fun _ => ⟨rfl, fun _ => rfl, fun _ => .refl _⟩) fun _ => .pure

/-- A new node is still to be marked. -/
lemma newNode_marks {nd : Node} (e : newNode nd w = (.ok n, w')) :
    Marks (some n) w w' ∧ n < w'.nextNode ∧ (w'.nodes n).bucket = nd.bucket := by
  unfold newNode at e
  rw [Prog.read_bind] at e
  obtain ⟨a, w1, e1, e2⟩ := Prog.bind_eq_ok e
  obtain ⟨c, rfl, hc⟩ := write_eq_ok_cut e1
  cases e2
  refine ⟨⟨⟨rfl, rfl, rfl, hc⟩, Nat.le_succ _, fun m hm => ?_, fun _ => .refl _,
    fun m hle hlt hx => ?_⟩, Nat.lt_succ_self _, by simp [World.setNode]⟩
  · simp [World.setNode, hm.ne]
  · exact absurd (le_antisymm hle (Nat.lt_succ_iff.1 hlt)) fun h => hx (congrArg some h)

/-- Entering the new node into the dirty set of its handle. -/
lemma Marks.mark (h : Marks (some n) w w') (hn : n < w'.nextNode)
    (hb : (w'.nodes n).bucket = some b) {a : Unit} (e : markDirty b n w' = (.ok a, w'')) :
    Marks none w w'' := by
  have h2 := h.trans (moves_markDirty w' a w'' e)
  refine ⟨h2.toSameDir, h2.nextNode, h2.bucket, h2.handle, fun m hle hlt _ b' hb' => ?_⟩
  by_cases hm : m = n
  · subst hm
    unfold markDirty modifyBucket at e
    obtain ⟨c, rfl⟩ := write_eq_ok e
    obtain rfl : b = b' := Option.some.inj (hb.symm.trans hb')
    simp [World.setBucket]
  · exact h2.new m hle hlt (fun e => hm (Option.some.inj e).symm) b' hb'

/-! ## Slices -/

lemma moves_cloneInodes {l : List Inode} : Moves (Marks none) (cloneInodes l) :=
  .read_bind fun _ => .bind moves_newArr fun _ => .pure

lemma moves_nilInodes : Moves (Marks none) nilInodes := moves_cloneInodes

lemma moves_appendInodes {l : List Inode} : Moves (Marks none) (appendInodes n l) := by
  refine .read_bind fun _ => .read_bind fun _ => .read_bind fun _ => ?_
  split
  · exact .bind moves_setArr fun _ => moves_modifyNode fun _ => rfl
  · exact .bind moves_newArr fun _ => moves_modifyNode fun _ => rfl

lemma moves_copyInodes {dst src : Nat} : Moves (Marks none) (copyInodes n dst src) := by
  refine .read_bind fun _ => ?_
  split
  · exact .panic
  · exact moves_setArr

lemma moves_modifyInode {i : Nat} {f : Inode → Inode} : Moves (Marks none) (modifyInode n i f) := by
  refine .read_bind fun _ => ?_
  split
  · exact moves_setArr
  · exact .panic

lemma moves_clearInodes : Moves (Marks none) (clearInodes n) :=
  .read_bind fun _ => compositional_marks.each fun _ _ => moves_modifyInode

/-! ## Copies and children -/

lemma copyNode_marks {c : NodeId} (e : Bucket.copyNode b n w = (.ok c, w')) :
    Marks (some c) w w' ∧ c < w'.nextNode ∧ (w'.nodes c).bucket = some b := by
  unfold Bucket.copyNode nodeOf inodesOf at e
  rw [Prog.read_bind, Prog.read_bind] at e
  obtain ⟨s, w1, e1, e2⟩ := Prog.bind_eq_ok e
  have h1 := moves_cloneInodes w s w1 e1
  obtain ⟨h2, hc, hb⟩ := newNode_marks e2
  exact ⟨h1.comp h2 fun _ hx => ⟨nofun, hx⟩, hc, hb⟩

lemma moves_childForWrite {p : NodeId} {idx : Nat} :
    Moves (Marks none) (Bucket.childForWrite b p idx) := by
  refine .read_bind fun ins => ?_
  split
  · exact .panic
  refine .read_bind fun bk => ?_
  split
  · exact .panic
  next child _ =>
  split
  · exact .pure
  -- the copy is marked before anything can go wrong
  intro w c w' e
  obtain ⟨c', w1, e1, e⟩ := Prog.bind_eq_ok e
  obtain ⟨a2, w2, e2, e⟩ := Prog.bind_eq_ok e
  obtain ⟨a3, w3, e3, e⟩ := Prog.bind_eq_ok e
  obtain ⟨h1, hc, hb⟩ := copyNode_marks e1
  have h2 := moves_setParent w1 a2 w2 e2
  have h3 := (h1.trans h2).mark (hc.trans_le h2.nextNode) ((h2.bucket c' hc).trans hb) e3
  exact h3.trans ((Moves.bind moves_modifyInode fun _ => .pure) w3 c w' e)

lemma moves_del {key : Bytes} : Moves (Marks none) (Node.del n key) := by
  refine .read_bind fun ins => ?_
  dsimp only
  split
  · exact .pure
  · exact .bind moves_copyInodes fun _ => .bind moves_modifyInode fun _ =>
      .bind (moves_modifyNode fun _ => rfl) fun _ => moves_modifyNode fun _ => rfl

/-! ## Splitting -/

lemma moves_parentForSplit : Moves (Marks none) (Node.parentForSplit b n) := by
  refine .read_bind fun nd => ?_
  split
  · exact .pure
  refine .bind moves_nilInodes fun s => ?_
  intro w c w' e
  obtain ⟨p, w1, e1, e⟩ := Prog.bind_eq_ok e
  obtain ⟨a2, w2, e2, e⟩ := Prog.bind_eq_ok e
  obtain ⟨a3, w3, e3, e⟩ := Prog.bind_eq_ok e
  obtain ⟨h1, hp, hb⟩ := newNode_marks e1
  have h2 := moves_setParent w1 a2 w2 e2
  cases e
  exact (h1.trans h2).mark (hp.trans_le h2.nextNode) ((h2.bucket _ hp).trans hb) e3

lemma moves_splitTwo : Moves (Marks none) (Node.splitTwo n) := by
  refine .read_bind fun nd => .read_bind fun ins => ?_
  split
  · exact .pure
  refine .bind compositional_marks.deref fun b => .read_bind fun bk => .read_bind fun rt => ?_
  refine .bind moves_parentForSplit fun p => .bind moves_nilInodes fun s => ?_
  intro w c w' e
  obtain ⟨next, w1, e1, e⟩ := Prog.bind_eq_ok e
  obtain ⟨a2, w2, e2, e⟩ := Prog.bind_eq_ok e
  obtain ⟨h1, hn, hb⟩ := newNode_marks e1
  refine (h1.mark hn hb e2).trans (Moves.bind moves_cloneInodes (fun left => ?_) w2 c w' e)
  refine .bind moves_cloneInodes fun right => .bind moves_clearInodes fun _ => ?_
  exact .bind (moves_modifyNode fun _ => rfl) fun _ =>
    .bind (moves_modifyNode fun _ => rfl) fun _ =>
    .pure

/-! ## Roots -/

/-- The copy of the committed root, or a new root, is marked. -/
lemma moves_writableRoot : Moves (Marks none) (Bucket.writableRoot b) := by
  refine .read_bind fun bk => ?_
  split
  · exact .pure
  refine .read_bind fun bs => ?_
  intro w r w' e
  obtain ⟨root, w1, e1, e⟩ := Prog.bind_eq_ok e
  obtain ⟨a2, w2, e2, e⟩ := Prog.bind_eq_ok e
  have h1 : Marks (some root) w w1 ∧ root < w1.nextNode ∧ (w1.nodes root).bucket = some b := by
    rcases hbs : bs.bind BucketState.root with _ | r0 <;> rw [hbs] at e1
    swap
    · exact copyNode_marks e1
    · obtain ⟨s, w0, e0, e1⟩ := Prog.bind_eq_ok e1
      obtain ⟨h, hr, hb⟩ := newNode_marks e1
      exact ⟨(moves_nilInodes w s w0 e0).comp h fun _ hx => ⟨nofun, hx⟩, hr, hb⟩
  exact (h1.1.mark h1.2.1 h1.2.2 e2).trans (Moves.bind moves_setRoot (fun _ => .pure) w2 r w' e)

lemma nodeWrites_marks : NodeWrites (Moves (Marks none)) where
  toCompositional := compositional_marks
  modifyField hf := moves_modifyNode fun nd => (hf nd).2
  setRoot := moves_setRoot
  appendInodes := moves_appendInodes
  copyInodes := moves_copyInodes
  modifyInode := moves_modifyInode
  del := moves_del
  childForWrite := moves_childForWrite
  splitTwo := moves_splitTwo
  writableRoot := moves_writableRoot

/-- Every function on nodes marks the nodes it makes. -/
lemma treeWrites_marks : TreeWrites (Moves (Marks none)) where
  toNodeWrites := nodeWrites_marks
  collapseRoot := by
    refine .bind nodeWrites_marks.childAt fun c => .read_bind fun cd => ?_
    refine .bind (moves_modifyNode fun _ => rfl) fun _ => .bind (moves_modifyNode fun _ => rfl)
      fun _ => ?_
    exact .read_bind fun ins =>
      .bind (nodeWrites_marks.each fun _ _ => nodeWrites_marks.reparent) fun _ =>
      moves_modifyNode fun _ => rfl

lemma moves_setFillPercent {f : Float64} : Moves (Marks none) (Bucket.setFillPercent b f) :=
  moves_modifyBucket fun _ => ⟨rfl, subset_rfl, id⟩

end

end Vmbolt
