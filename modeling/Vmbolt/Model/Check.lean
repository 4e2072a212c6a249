import Vmbolt.Model.World

/-!
# Checking a published tree

The functions `checkBucket` and `checkNode` of `tx_check.go`. A finding is a `CheckErr` with the
arguments of its message; keys stand in it as the `KVStringer` renders them. The walk over the nodes
is a loop with a stack and a set of visited nodes, so it is given fuel.
-/

namespace Vmbolt

/-- How keys are rendered in messages; `ValueToString` is never called. -/
structure KVStringer where
  keyToString : Bytes → Bytes

/-- The findings of a check. -/
inductive CheckErr where
  /-- The message "bucket %q has nil state". -/
  | nilState (name : Name)
  /-- The message "bucket %q encountered nil node during walk". -/
  | nilNode (name : Name)
  /-- The message "bucket %q node %p reachable via multiple parents (cycle or shared child)". -/
  | multipleParents (name : Name) (n : NodeId)
  /-- The message "bucket %q branch node %p inode %d has nil child". -/
  | nilChild (name : Name) (n : NodeId) (i : Nat)
  /-- The message "bucket %q child %p has no inodes (parent %p, sep %q)". -/
  | noInodes (name : Name) (child parent : NodeId) (sep : Bytes)
  /-- The message "bucket %q branch separator %q != child %p first key %q". -/
  | separator (name : Name) (sep : Bytes) (child : NodeId) (first : Bytes)
  /-- The message "bucket %q node %p has empty key at index %d". -/
  | emptyKey (name : Name) (n : NodeId) (i : Nat)
  /-- The message "bucket %q node %p keys not strictly ascending at index %d (%q <= %q)". -/
  | notAscending (name : Name) (n : NodeId) (i : Nat) (prev key : Bytes)
  /-- The message "bucket %q leaf node %p inode %d has a non-nil child". -/
  | leafChild (name : Name) (n : NodeId) (i : Nat)
  /-- The message "bucket %q branch node %p inode %d carries a value". -/
  | branchValue (name : Name) (n : NodeId) (i : Nat)
  deriving DecidableEq, Repr

/-- The error `e` if `c` holds. -/
def errIf (c : Prop) [Decidable c] (e : CheckErr) : List CheckErr := if c then [e] else []

/-- The body of the loop of `checkNode`. -/
def checkInode (name : Name) (ks : KVStringer) (n : NodeId) (isLeaf : Bool) (i : Nat) (prev : Bytes)
    (item : Inode) : List CheckErr :=
  errIf (item.key.length = 0) (.emptyKey name n i) ++
  errIf (0 < i ∧ item.key ≤ prev)
    (.notAscending name n i (ks.keyToString prev) (ks.keyToString item.key)) ++
  if isLeaf then errIf (item.child ≠ none) (.leafChild name n i)
  else errIf (item.child = none) (.nilChild name n i) ++
    errIf ((item.value.getD []).length ≠ 0) (.branchValue name n i)

/-- The loop of `checkNode` from the index `i` on. -/
def checkNodeLoop (name : Name) (ks : KVStringer) (n : NodeId) (isLeaf : Bool) :
    Nat → Bytes → List Inode → List CheckErr
  | _, _, [] => []
  | i, prev, item :: rest =>
    checkInode name ks n isLeaf i prev item ++ checkNodeLoop name ks n isLeaf (i + 1) item.key rest

/-- `checkNode`. -/
def checkNode (w : World) (name : Name) (ks : KVStringer) (n : NodeId) : List CheckErr :=
  checkNodeLoop name ks n (w.nodes n).isLeaf 0 [] (w.inodes n)

/-- The loop of `checkBucket` over the inodes of a branch, from the index `i` on: what it reports,
and the children it pushes. -/
def checkChildren (w : World) (name : Name) (ks : KVStringer) (n : NodeId) :
    Nat → List Inode → List CheckErr × List NodeId
  | _, [] => ([], [])
  | i, item :: rest =>
    let r := checkChildren w name ks n (i + 1) rest
    match item.child with
    | none => (.nilChild name n i :: r.1, r.2)
    | some child =>
      match w.inodes child with
      | [] => (.noInodes name child n (ks.keyToString item.key) :: r.1, r.2)
      | first :: _ =>
        (errIf (item.key ≠ first.key)
          (.separator name (ks.keyToString item.key) child (ks.keyToString first.key)) ++ r.1,
          child :: r.2)

/-- What `checkBucket` reports about the children of a node, and what it pushes. -/
def checkLinks (w : World) (name : Name) (ks : KVStringer) (n : NodeId) :
    List CheckErr × List NodeId :=
  if (w.nodes n).isLeaf then ([], []) else checkChildren w name ks n 0 (w.inodes n)

/-- The loop of `checkBucket`; the stack has its top first. -/
def checkLoop (w : World) (name : Name) (ks : KVStringer) :
    Nat → Finset NodeId → List (Option NodeId) → List CheckErr → Outcome Panic (List CheckErr)
  | 0, _, _, _ => .hang
  | _ + 1, _, [], errs => .ok errs
  | fuel + 1, visited, none :: stack, errs =>
    checkLoop w name ks fuel visited stack (errs ++ [.nilNode name])
  | fuel + 1, visited, some n :: stack, errs =>
    if n ∈ visited then checkLoop w name ks fuel visited stack (errs ++ [.multipleParents name n])
    else
      let r := checkLinks w name ks n
      checkLoop w name ks fuel (insert n visited) (r.2.reverse.map some ++ stack)
        (errs ++ checkNode w name ks n ++ r.1)

/-- `checkBucket`. -/
def checkBucket (fuel : Nat) (w : World) (name : Name) (bs : Option BucketState) (ks : KVStringer) :
    Outcome Panic (List CheckErr) :=
  match bs with
  | none => .ok [.nilState name]
  | some bs =>
    match bs.root with
    | none => .ok []
    | some root => checkLoop w name ks fuel ∅ [some root] []

end Vmbolt
