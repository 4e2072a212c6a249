import Vmbolt.Effect.Slices
import Vmbolt.Isolation.Context

/-!
# Slices stay within their arrays

The inodes of a node are a slice of a backing array, and a reslice or a copy of a slice header could
make it longer than the array. `Fits` says that no slice is, and that the arrays that are still to
be allocated are empty. Every single write keeps it, so it holds at every moment of every run: a
state of a run in which no call is about to be cut off is sound.
-/

namespace Vmbolt
open Prog Relation

/-- The slice lies within its array. -/
def SliceFits (w : World) (s : Slice) : Prop := s.len ≤ (w.arrays s.arr).length

/-- Every slice lies within its array. -/
structure Fits (w : World) : Prop where
  slice : ∀ n, SliceFits w (w.nodes n).inodes
  spare : ∀ a, w.nextArr ≤ a → w.arrays a = []

/-- From `w` to `w'` no array became shorter, and every slice lies within its array. -/
structure Widened (w w' : World) : Prop where
  fits : Fits w'
  len : ∀ a, (w.arrays a).length ≤ (w'.arrays a).length

section
variable {w w' : World} {b : BucketId} {n : NodeId} {fuel : Nat} {s : Slice} {l : List Inode}
  {t : TxId} {name : Name}

instance : Track Widened where
  trans h1 h2 := ⟨h2.fits, fun a => (h1.len a).trans (h2.len a)⟩
  refl_right h := ⟨h.fits, fun _ => le_rfl⟩

lemma Fits.refl (h : Fits w) : Widened w w := ⟨h, fun _ => le_rfl⟩

lemma compositional_widened : Compositional (ε := Panic) (Tracks Widened) := Tracks.compositional

lemma Widened.slice (h : Widened w w') (hs : SliceFits w s) : SliceFits w' s :=
  le_trans hs (h.len s.arr)

section
variable (h : Fits w)
include h

lemma Fits.length_inodes : (w.inodes n).length = (w.nodes n).inodes.len := by
  unfold World.inodes
  rw [List.length_take, Nat.min_eq_left (h.slice n)]

/-! ## Single writes -/

/-- A write that leaves the nodes with their slices and the arrays alone. -/
lemma Fits.write {f : World → World} (hn : ∀ w n, ((f w).nodes n).inodes = (w.nodes n).inodes)
    (ha : ∀ w, (f w).arrays = w.arrays ∧ (f w).nextArr = w.nextArr) :
    Stays Widened w (write f) fun _ _ => True := by
  refine stays_write_of ⟨⟨h.slice, h.spare⟩, fun _ => le_rfl⟩ fun c => ⟨?_, trivial⟩
  obtain ⟨h1, h2⟩ := ha { w with cut := c }
  refine ⟨⟨fun n => ?_, fun a ha => ?_⟩, fun a => by rw [h1]⟩
  · unfold SliceFits
    rw [hn, h1]
    exact h.slice n
  · rw [h1]
    exact h.spare a (h2 ▸ ha)

/-- Writes to one node. -/
lemma Fits.modifyNode {f : Node → Node} (hf : SliceFits w (f (w.nodes n)).inodes) :
    Stays Widened w (modifyNode n f) fun _ w' => w'.arrays = w.arrays := by
  refine stays_write_of ⟨⟨h.slice, h.spare⟩, fun _ => le_rfl⟩ fun c =>
    ⟨⟨⟨fun m => ?_, h.spare⟩, fun _ => le_rfl⟩, rfl⟩
  by_cases e : m = n
  · subst e
    simpa [World.setNode, SliceFits] using hf
  · simpa [World.setNode, SliceFits, e] using h.slice m

/-- Writes to the other fields of a node. -/
lemma Fits.modifyField {f : Node → Node} (hf : ∀ nd, (f nd).inodes = nd.inodes) :
    Stays Widened w (Vmbolt.modifyNode n f) fun _ _ => True :=
  (h.modifyNode (by rw [hf]; exact h.slice n)).mono fun _ _ _ _ => trivial

lemma Fits.modifyBucket {f : Bucket → Bucket} :
    Stays Widened w (modifyBucket b f) fun _ _ => True :=
  h.write (fun _ _ => rfl) fun _ => ⟨rfl, rfl⟩

lemma Fits.markDirty : Stays Widened w (markDirty b n) fun _ _ => True := h.modifyBucket

/-- A write to an array that keeps its length. -/
lemma Fits.setArr {a : World → ArrId} {g : World → List Inode}
    (hc : ∀ c, a { w with cut := c } = a w ∧ g { w with cut := c } = g w)
    (hg : (g w).length = (w.arrays (a w)).length) :
    Stays Widened w (Vmbolt.write fun w => w.setArr (a w) (g w)) fun _ w' =>
      w'.nodes = w.nodes := by
  have hlen : ∀ x, (Function.update w.arrays (a w) (g w) x).length = (w.arrays x).length := by
    intro x
    by_cases e : x = a w
    · subst e
      rw [Function.update_self, hg]
    · rw [Function.update_of_ne e]
  refine stays_write_of ⟨⟨h.slice, h.spare⟩, fun _ => le_rfl⟩ fun c => ⟨?_, rfl⟩
  rw [(hc c).1, (hc c).2]
  refine ⟨⟨fun m => ?_, fun x hx => ?_⟩, fun x => (hlen x).ge⟩
  · exact le_trans (h.slice m) (hlen _).ge
  · refine List.eq_nil_of_length_eq_zero ((hlen x).trans ?_)
    rw [h.spare x hx]
    rfl

lemma Fits.newArr :
    Stays Widened w (newArr l) fun a w' => w'.arrays a = l ∧ w'.nodes = w.nodes := by
  refine .read_bind (.bind (P := fun _ w' => w'.arrays w.nextArr = l ∧ w'.nodes = w.nodes)
    (stays_write_of ⟨⟨h.slice, h.spare⟩, fun _ => le_rfl⟩ fun c => ?_) fun _ w' h' e =>
      .pure h'.fits.refl e)
  have hlen : ∀ x, (w.arrays x).length ≤ (Function.update w.arrays w.nextArr l x).length := by
    intro x
    by_cases e : x = w.nextArr
    · subst e
      rw [h.spare _ le_rfl]
      exact Nat.zero_le _
    · rw [Function.update_of_ne e]
  refine ⟨⟨⟨fun m => le_trans (h.slice m) (hlen _), fun x hx => ?_⟩, hlen⟩,
    Function.update_self .., rfl⟩
  have hlt : w.nextArr < x := hx
  exact (Function.update_of_ne hlt.ne' _ _).trans (h.spare x hlt.le)

lemma Fits.newNode {nd : Node} (hs : SliceFits w nd.inodes) :
    Stays Widened w (newNode nd) fun _ _ => True := by
  refine .read_bind (.bind (P := fun _ _ => True)
    (stays_write_of ⟨⟨h.slice, h.spare⟩, fun _ => le_rfl⟩ fun c =>
      ⟨⟨⟨fun m => ?_, h.spare⟩, fun _ => le_rfl⟩, trivial⟩) fun _ w' h' _ =>
        .pure h'.fits.refl trivial)
  by_cases e : m = w.nextNode
  · subst e
    simpa [World.setNode, SliceFits] using hs
  · simpa [World.setNode, SliceFits, e] using h.slice m

/-! ## Slices -/

lemma Fits.cloneInodes : Stays Widened w (cloneInodes l) fun s w' => SliceFits w' s := by
  refine .read_bind (.bind h.newArr fun a w' h' e => .pure h'.fits.refl ?_)
  unfold SliceFits
  rw [e.1]
  simp

lemma Fits.nilInodes : Stays Widened w nilInodes fun s w' => SliceFits w' s := h.cloneInodes

lemma Fits.appendInodes : Stays Widened w (appendInodes n l) fun _ _ => True := by
  refine .read_bind (.read_bind (.read_bind ?_))
  have hs : (w.nodes n).inodes.len ≤ (w.arrays (w.nodes n).inodes.arr).length := h.slice n
  split
  next hle =>
    refine .bind (h.setArr (a := fun _ => (w.nodes n).inodes.arr)
      (g := fun _ => _ ++ l ++ _) (fun _ => ⟨rfl, rfl⟩) ?_) fun _ w1 h1 _ => ?_
    · simp only [List.length_append, List.length_take, List.length_drop]
      omega
    · exact (h1.fits.modifyNode (le_trans hle (h1.len _))).mono fun _ _ _ _ => trivial
  · refine .bind h.newArr fun a w1 h1 e => ?_
    refine (h1.fits.modifyNode ?_).mono fun _ _ _ _ => trivial
    unfold SliceFits
    dsimp only
    rw [e.1]
    simp only [List.length_append, List.length_take, List.length_replicate]
    omega

lemma Fits.copyInodes {dst src : Nat} :
    Stays Widened w (copyInodes n dst src) fun _ w' => w'.nodes = w.nodes := by
  refine .read_bind ?_
  split
  · exact .panic h.refl
  next hne =>
    have hs : (w.nodes n).inodes.len ≤ (w.arrays (w.nodes n).inodes.arr).length := h.slice n
    refine h.setArr (a := fun _ => (w.nodes n).inodes.arr) (g := fun w' =>
      (w'.arrays (w.nodes n).inodes.arr).take dst ++ _ ++ _) (fun _ => ⟨rfl, rfl⟩) ?_
    simp only [List.length_append, List.length_take, List.length_drop]
    omega

lemma Fits.modifyInode {i : Nat} {f : Inode → Inode} :
    Stays Widened w (modifyInode n i f) fun _ w' => w'.nodes = w.nodes := by
  refine .read_bind ?_
  split
  · exact h.setArr (a := fun _ => (w.nodes n).inodes.arr)
      (g := fun w' => (w'.arrays (w.nodes n).inodes.arr).modify i f) (fun _ => ⟨rfl, rfl⟩) (by simp)
  · exact .panic h.refl

lemma Fits.clearInodes : Stays Widened w (clearInodes n) fun _ _ => True :=
  .read_bind (.each h.refl fun _ _ _ h' => h'.fits.modifyInode.mono fun _ _ _ _ => trivial)

/-! ## Copies and children -/

lemma Fits.copyNode : Stays Widened w (Bucket.copyNode b n) fun _ _ => True :=
  .read_bind (.read_bind (.bind h.cloneInodes fun _ _ h1 hs => h1.fits.newNode hs))

lemma Fits.childForWrite {p : NodeId} {idx : Nat} :
    Stays Widened w (Bucket.childForWrite b p idx) fun _ _ => True := by
  refine .read_bind ?_
  split
  · exact .panic h.refl
  refine .read_bind ?_
  split
  · exact .panic h.refl
  split
  · exact .pure h.refl trivial
  · refine .bind h.copyNode fun c _ h1 _ => .bind (h1.fits.modifyField fun _ => rfl)
      fun _ _ h2 _ => ?_
    exact .bind h2.fits.markDirty fun _ _ h3 _ => .bind h3.fits.modifyInode fun _ _ h4 _ =>
      .pure h4.fits.refl trivial

/-- The reslice makes the slice shorter: no write in between has touched its header. -/
lemma Fits.del {key : Bytes} : Stays Widened w (Node.del n key) fun _ _ => True := by
  refine .read_bind ?_
  dsimp only
  split
  · exact .pure h.refl trivial
  refine .bind h.copyInodes fun _ w1 h1 e1 => .bind h1.fits.modifyInode fun _ w2 h2 e2 => ?_
  refine .bind (h2.fits.modifyNode ?_) fun _ _ h3 _ => h3.fits.modifyField fun _ => rfl
  have hs := h2.fits.slice n
  rw [e2, e1] at hs ⊢
  rw [h.length_inodes]
  exact le_trans (Nat.sub_le _ _) hs

lemma Fits.parentForSplit : Stays Widened w (Node.parentForSplit b n) fun _ _ => True := by
  refine .read_bind ?_
  split
  · exact .pure h.refl trivial
  refine .bind h.nilInodes fun s _ h1 hs => .bind (h1.fits.newNode hs) fun p _ h2 _ => ?_
  exact .bind (h2.fits.modifyField fun _ => rfl) fun _ _ h3 _ => .bind h3.fits.markDirty
    fun _ _ h4 _ =>
    .pure h4.fits.refl trivial

lemma Fits.splitTwo : Stays Widened w (Node.splitTwo n) fun _ _ => True := by
  refine .read_bind (.read_bind ?_)
  split
  · exact .pure h.refl trivial
  refine .bind (compositional_widened.deref w h.refl) fun b _ h1 _ => .read_bind (.read_bind ?_)
  refine .bind h1.fits.parentForSplit fun p _ h2 _ => .bind h2.fits.nilInodes fun s _ h3 hs => ?_
  refine .bind (h3.fits.newNode hs) fun next _ h4 _ => .bind h4.fits.markDirty fun _ _ h5 _ => ?_
  refine .bind h5.fits.cloneInodes fun left _ h6 hl => .bind h6.fits.cloneInodes
    fun right _ h7 hr => ?_
  refine .bind h7.fits.clearInodes fun _ w8 h8 _ => ?_
  refine .bind (h8.fits.modifyNode (h8.slice (h7.slice hl))) fun _ _ h9 _ => ?_
  exact .bind (h9.fits.modifyNode (h9.slice (h8.slice hr))) fun _ _ h10 _ =>
    .pure h10.fits.refl trivial

lemma Fits.writableRoot : Stays Widened w (Bucket.writableRoot b) fun _ _ => True := by
  refine .read_bind ?_
  split
  · exact .pure h.refl trivial
  refine .read_bind (.bind (P := fun _ _ => True) ?_ fun root _ h1 _ => ?_)
  · split
    · exact h.copyNode
    · exact .bind h.nilInodes fun s _ h1 hs => h1.fits.newNode hs
  · exact .bind h1.fits.markDirty fun _ _ h2 _ => .bind h2.fits.modifyBucket fun _ _ h3 _ =>
      .pure h3.fits.refl trivial

end

lemma nodeWrites_widened : NodeWrites (Tracks Widened) where
  toCompositional := compositional_widened
  modifyField hf _ h := h.fits.modifyField fun nd => (hf nd).1
  setRoot _ h := h.fits.modifyBucket
  appendInodes _ h := h.fits.appendInodes
  copyInodes _ h := h.fits.copyInodes.mono fun _ _ _ _ => trivial
  modifyInode _ h := h.fits.modifyInode.mono fun _ _ _ _ => trivial
  del _ h := h.fits.del
  childForWrite _ h := h.fits.childForWrite
  splitTwo _ h := h.fits.splitTwo
  writableRoot _ h := h.fits.writableRoot

/-- Every function on nodes keeps the slices within their arrays. -/
lemma treeWrites_widened : TreeWrites (Tracks Widened) where
  toNodeWrites := nodeWrites_widened
  collapseRoot w h := by
    refine .bind (nodeWrites_widened.childAt w h) fun c w1 h1 _ => .read_bind ?_
    refine .bind (h1.fits.modifyField fun _ => rfl) fun _ _ h2 _ => ?_
    refine .bind (h2.fits.modifyNode (h2.slice (h1.fits.slice c))) fun _ _ h3 _ => .read_bind ?_
    exact .bind (.each h3.fits.refl fun _ _ _ h4 => nodeWrites_widened.reparent _ h4.fits.refl)
      fun _ _ h4 _ => h4.fits.modifyField fun _ => rfl

/-! ## Calls -/

lemma Idle.widened (h : Fits w) (hi : Idle w w') : Widened w w' := by
  refine ⟨⟨fun n => ?_, fun a ha => ?_⟩, fun a => by rw [hi.arrays]⟩
  · unfold SliceFits
    rw [hi.nodes, hi.arrays]
    exact h.slice n
  · rw [hi.arrays]
    exact h.spare a (hi.nextArr ▸ ha)

lemma widened_idle {α : Type} {m : Go α} (hm : Tracks Idle m) : Tracks Widened m :=
  fun w h => (hm w (.refl w)).imp fun _ hi => hi.widened h.fits

lemma widened_createBucket : Tracks Widened (Tx.createBucket t name) := by
  have c := compositional_widened
  refine c.read_bind fun tx => c.ite c.pure (c.ite c.pure (c.ite c.pure (c.ite c.pure ?_)))
  refine c.bind (widened_idle dirWrites_idle.newBucket) fun b w h => ?_
  refine .bind h.fits.nilInodes fun s _ h2 hs => .bind (h2.fits.newNode hs) fun root _ h3 _ => ?_
  refine .bind h3.fits.modifyBucket fun _ _ h4 _ => .bind h4.fits.markDirty fun _ w5 h5 _ => ?_
  refine widened_idle ?_ w5 h5.fits.refl
  exact dirWrites_idle.bind idle_modify fun _ => dirWrites_idle.bind idle_modify fun _ =>
    dirWrites_idle.bind idle_modify fun _ => dirWrites_idle.pure

lemma widened_publishRoot : Tracks Widened (Bucket.publishRoot b) := by
  have c := compositional_widened
  refine c.read_bind fun bk => ?_
  split
  · exact c.query (f := fun w => .ok (Bucket.baseState w b))
  refine c.bind (c.read_bind fun bk => c.bind ?_ fun _ _ h => h.fits.modifyBucket) fun _ => c.pure
  refine fun w h => h.fits.write (fun w1 n => ?_) fun _ => ⟨rfl, rfl⟩
  dsimp only
  split <;> rfl

lemma widened_publishAll {names : List Name} {m : AList fun _ : Name => Option BucketState} :
    Tracks Widened (Tx.publishAll t names m) := by
  have c := compositional_widened
  induction names generalizing m with
  | nil => exact c.pure
  | cons name names ih =>
    refine c.read_bind fun tx => ?_
    split
    · exact ih
    · exact c.ite ih (c.bind widened_publishRoot fun _ => ih)

lemma widened_publish {order : Tx.Order} : Tracks Widened (Tx.publish fuel t order) := by
  have c := compositional_widened
  refine c.read_bind fun tx => c.bind c.assert fun _ =>
    c.ite c.pure (c.ite c.pure (c.bind ?_ fun st =>
    c.bind (fun _ h => h.fits.write (fun _ _ => rfl) fun _ => ⟨rfl, rfl⟩) fun _ => c.pure))
  unfold Tx.build
  rw [← bind_assoc]
  exact c.bind treeWrites_widened.phases fun _ => c.read_bind fun tx =>
    c.bind widened_publishAll fun _ => c.pure

lemma Call.widened (fuel : Nat) (c : Call) : Tracks Widened (c.run fuel) := by
  have done : ∀ {α : Type} {m : Go α} {f : α → Bool}, Tracks Widened m →
      Tracks Widened (m >>= fun a => pure (f a)) := fun hm =>
    compositional_widened.bind hm fun _ => compositional_widened.pure
  cases c with
  | begin_ writable => exact done (widened_idle (idle_begin writable))
  | bucket t name => exact done (widened_idle dirWrites_idle.bucket)
  | createBucket t name => exact done widened_createBucket
  | createBucketIfNotExists t name =>
    exact done (compositional_widened.createBucketIfNotExists (widened_idle dirWrites_idle.bucket)
      widened_createBucket)
  | deleteBucket t name => exact done (widened_idle dirWrites_idle.deleteBucket)
  | put b key value => exact done treeWrites_widened.bucketPut
  | delete b key => exact done treeWrites_widened.bucketDelete
  | cursorDelete c => exact done treeWrites_widened.cursorDelete
  | setFillPercent b f => exact done fun _ h => h.fits.modifyBucket
  | publish t order => exact done widened_publish
  | close t => exact done (widened_idle idle_close)
  | rollback t => exact done (widened_idle idle_rollback)

lemma Steps.fits {rt : Runtime} {readOnly : Bool} {s : Sys} (h : Steps (Sys.init rt readOnly) s) :
    Fits s.world := by
  induction h with
  | refl => exact ⟨fun _ => Nat.zero_le _, fun _ _ => rfl⟩
  | @tail s _ _ hstep ih =>
    obtain ⟨c, cut, fuel, -⟩ := hstep
    have hcut : Fits { s.world with cut := cut } := ⟨ih.slice, ih.spare⟩
    have hrun := (c.widened fuel _ hcut.refl).1.fits
    exact ⟨hrun.slice, hrun.spare⟩

/-- No state of a run is about to be cut off. -/
lemma Steps.cut {rt : Runtime} {readOnly : Bool} {s : Sys} (h : Steps (Sys.init rt readOnly) s) :
    s.world.cut = none := by
  cases h with
  | refl => rfl
  | tail _ hstep =>
    obtain ⟨c, cut, fuel, -⟩ := hstep
    rfl

/-- The states of a run are sound. -/
lemma Steps.sound {rt : Runtime} {readOnly : Bool} {s : Sys} (h : Steps (Sys.init rt readOnly) s) :
    s.world.Sound := by
  obtain ⟨-, F, -, hi⟩ := h.frozen (iso_init rt readOnly)
  exact ⟨h.cut, hi.arr_lt, fun n _ => h.fits.slice n⟩

end

end Vmbolt
