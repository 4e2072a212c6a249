import Vmbolt.Lib.Fuel
import Vmbolt.Model.Tx

/-!
# Fuel in the model

None of the functions of the engine that take fuel changes its answer with more of it.
-/

namespace Vmbolt

section Cursors
open Outcome

lemma goToFirst_growing (w : World) (st : List ElemRef) :
    Growing fun k => Cursor.goToFirstElementOnTheStack k w st := by
  intro k
  induction k generalizing st with
  | zero => exact .inl rfl
  | succ k ih =>
    cases st with
    | nil => exact .refl _
    | cons ref st =>
      simp only [Cursor.goToFirstElementOnTheStack]
      split
      · exact .refl _
      · exact (Below.refl _).bind fun n => ih _

lemma last_growing (w : World) (st : List ElemRef) : Growing fun k => Cursor.last k w st := by
  intro k
  induction k generalizing st with
  | zero => exact .inl rfl
  | succ k ih =>
    cases st with
    | nil => exact .refl _
    | cons ref st =>
      simp only [Cursor.last]
      split
      · exact .refl _
      · exact (Below.refl _).bind fun n => ih _

lemma nextStack_growing (w : World) (st : List ElemRef) :
    Growing fun k => Cursor.nextStack k w st := by
  intro k
  induction k generalizing st with
  | zero => exact .inl rfl
  | succ k ih =>
    simp only [Cursor.nextStack]
    split
    · exact .refl _
    · refine (goToFirst_growing w _ k).bind fun st => ?_
      split
      · exact ih st
      · exact .refl _

lemma firstStack_growing (w : World) (root : Option NodeId) :
    Growing fun k => Cursor.firstStack k w root := by
  intro k
  cases root with
  | none => exact .refl _
  | some n =>
    simp only [Cursor.firstStack]
    refine (goToFirst_growing w _ k).bind fun st => Below.bind ?_ fun _ => .refl _
    split
    · exact (nextStack_growing w st k).bind fun _ => .refl _
    · exact .refl _

lemma prevStack_growing (w : World) (root : Option NodeId) (st : List ElemRef) :
    Growing fun k => Cursor.prevStack k w root st := by
  intro k
  cases st with
  | nil => exact .refl _
  | cons ref st =>
    simp only [Cursor.prevStack]
    split
    · exact (firstStack_growing w root k).bind fun _ => .refl _
    · exact (last_growing w _ k).bind fun _ => .refl _

lemma lastLoop_growing (w : World) (root : Option NodeId) (st : List ElemRef) :
    Growing fun k => Cursor.lastLoop k w root st := by
  intro k
  induction k generalizing st with
  | zero => exact .inl rfl
  | succ k ih =>
    simp only [Cursor.lastLoop]
    split
    · exact (prevStack_growing w root st k).bind fun r => ih r.2
    · exact .refl _

lemma lastStack_growing (w : World) (root : Option NodeId) :
    Growing fun k => Cursor.lastStack k w root := by
  intro k
  cases root with
  | none => exact .refl _
  | some n =>
    simp only [Cursor.lastStack]
    exact (last_growing w _ k).bind fun st => (lastLoop_growing w _ st k).bind fun _ => .refl _

lemma search_growing (w : World) (key : Bytes) (n : Option NodeId) (st : List ElemRef) :
    Growing fun k => Cursor.search k w key n st := by
  intro k
  induction k generalizing n st with
  | zero => exact .inl rfl
  | succ k ih =>
    cases n with
    | none => exact .refl _
    | some n =>
      simp only [Cursor.search]
      split
      · exact .refl _
      · split
        · exact .refl _
        · exact ih _ _

lemma seekStack_growing (w : World) (root : Option NodeId) (key : Bytes) :
    Growing fun k => Cursor.seekStack k w root key := fun k =>
  (search_growing w key root [] k).bind fun _ => .refl _

lemma First_growing (w : World) (c : Cursor) : Growing fun k => Cursor.First k w c := by
  intro k
  simp only [Cursor.First]
  split
  · exact .refl _
  · exact (Below.refl _).bind fun root => (firstStack_growing w root k).bind fun _ => .refl _

lemma Last_growing (w : World) (c : Cursor) : Growing fun k => Cursor.Last k w c := by
  intro k
  simp only [Cursor.Last]
  split
  · exact .refl _
  · exact (Below.refl _).bind fun root => (lastStack_growing w root k).bind fun _ => .refl _

lemma Next_growing (w : World) (c : Cursor) : Growing fun k => Cursor.Next k w c := by
  intro k
  simp only [Cursor.Next]
  split
  · exact .refl _
  · exact (Below.refl _).bind fun _ => (nextStack_growing w c.stack k).bind fun _ => .refl _

lemma Prev_growing (w : World) (c : Cursor) : Growing fun k => Cursor.Prev k w c := by
  intro k
  simp only [Cursor.Prev]
  split
  · exact .refl _
  · exact (Below.refl _).bind fun root => (prevStack_growing w root c.stack k).bind fun _ => .refl _

lemma Seek_growing (w : World) (c : Cursor) (key : Bytes) :
    Growing fun k => Cursor.Seek k w c key := by
  intro k
  simp only [Cursor.Seek]
  split
  · exact .refl _
  · refine (Below.refl _).bind fun root => (seekStack_growing w root key k).bind fun r => ?_
    refine Below.bind ?_ fun _ => .refl _
    split
    · exact nextStack_growing w r.2 k
    · exact .refl _

lemma get_growing (w : World) (b : BucketId) (key : Bytes) :
    Growing fun k => Bucket.get k w b key := fun k =>
  (seekStack_growing w _ key k).bind fun _ => .refl _

lemma topOf_growing (w : World) (n : NodeId) : Growing fun k => Bucket.topOf k w n := by
  intro k
  induction k generalizing n with
  | zero => exact .inl rfl
  | succ k ih =>
    simp only [Bucket.topOf]
    split
    · exact .refl _
    · exact ih _

end Cursors

section Programs
open Prog

lemma put_growing (b : BucketId) (key : Bytes) (value : Option Bytes) :
    Growing fun k => Bucket.put k b key value := by
  intro k
  refine (Below.refl _).bind fun tx => ?_
  split_ifs
  iterate 5 exact .refl _
  exact (Below.query fun w => seekStack_growing w _ key k).bind fun _ => .refl _

lemma delete_growing (b : BucketId) (key : Bytes) : Growing fun k => Bucket.delete k b key := by
  intro k
  refine (Below.refl _).bind fun tx => ?_
  split_ifs
  iterate 2 exact .refl _
  exact (Below.query fun w => seekStack_growing w _ key k).bind fun _ => .refl _

lemma split_growing (n : NodeId) : Growing fun k => Node.split k n := by
  intro k
  induction k generalizing n with
  | zero => exact .hang _
  | succ k ih =>
    simp only [Node.split]
    refine (Below.refl _).bind fun next => ?_
    cases next with
    | none => exact .refl _
    | some next => exact (ih next).bind fun _ => .refl _

lemma finalize_growing (n : NodeId) : Growing fun k => Node.finalize k n := by
  intro k
  induction k generalizing n with
  | zero => exact .hang _
  | succ k ih =>
    simp only [Node.finalize]
    refine (Below.refl _).bind fun nd => (Below.refl _).bind fun _ => ?_
    split
    · exact .refl _
    · refine (Below.refl _).bind fun ins => Below.bind (.each (fun i => ?_) _) fun _ =>
        (split_growing n k).bind fun nodes => (Below.refl _).bind fun _ =>
          (Below.refl _).bind fun nd => ?_
      · refine (Below.refl _).bind fun ins => ?_
        cases ins[i]? with
        | none => exact .refl _
        | some inode =>
          dsimp only
          cases inode.child with
          | none => exact .refl _
          | some c =>
            refine (Below.refl _).bind fun nd => (Below.refl _).bind fun b =>
              (Below.refl _).bind fun bk => ?_
            split
            · exact ih c
            · exact .refl _
      · cases nd.parent with
        | none => exact .refl _
        | some p =>
          refine (Below.refl _).bind fun pd => ?_
          split
          · exact .refl _
          · exact ih p

lemma node_rebalance_growing (n : NodeId) : Growing fun k => Node.rebalance k n := by
  intro k
  induction k generalizing n with
  | zero => exact .hang _
  | succ k ih =>
    simp only [Node.rebalance]
    refine (Below.refl _).bind fun nd => ?_
    split
    · exact .refl _
    · refine (Below.refl _).bind fun _ => (Below.refl _).bind fun _ => (Below.refl _).bind
        fun ins => ?_
      split
      · exact .refl _
      · cases nd.parent with
        | none => exact .refl _
        | some p =>
          dsimp only
          split
          · exact (Below.refl _).bind fun _ => (Below.refl _).bind fun q => ih q
          · refine (Below.refl _).bind fun pins => (Below.refl _).bind fun _ =>
              (Below.refl _).bind fun lr => (Below.refl _).bind fun _ => (Below.refl _).bind
                fun q => ih q

lemma rebalance_growing (b : BucketId) (order : List NodeId) :
    Growing fun k => Bucket.rebalance k b order := by
  refine fun k => .each (fun n => (Below.refl _).bind fun bk => ?_) order
  split
  · exact node_rebalance_growing n k
  · exact .refl _

lemma spill_growing (b : BucketId) : Growing fun k => Bucket.spill k b := by
  intro k
  refine (Below.refl _).bind fun bk => ?_
  cases bk.rootNode with
  | none => exact .refl _
  | some r =>
    exact (finalize_growing r k).bind fun _ => (Below.refl _).bind fun bk =>
      (Below.refl _).bind fun r =>
      (Below.query fun w => topOf_growing w r k).bind fun _ => .refl _

lemma build_growing (t : TxId) (order : Tx.Order) : Growing fun k => Tx.build k t order := by
  intro k
  refine Below.bind (.each (fun o => (Below.refl _).bind fun tx => ?_) _) fun _ =>
    Below.bind (.each (fun name => (Below.refl _).bind fun tx => ?_) _) fun _ => .refl _
  · cases tx.bctx.lookup o.1 with
    | none => exact .refl _
    | some b => exact rebalance_growing b o.2 k
  · cases tx.bctx.lookup name with
    | none => exact .refl _
    | some b => exact spill_growing b k

lemma commit_growing (t : TxId) (order : Tx.Order) : Growing fun k => Tx.commit k t order := by
  intro k
  refine (Below.refl _).bind fun tx => (Below.refl _).bind fun _ => ?_
  split_ifs
  iterate 2 exact .refl _
  exact (build_growing t order k).bind fun _ => .refl _

end Programs

end Vmbolt
