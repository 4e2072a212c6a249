import Mathlib.Logic.Function.Basic
import Vmbolt.Model.World

/-!
# Heap primitives

The single steps from which the engine's programs are built: reading and writing a field of a node
or of a handle, allocating, and Go's slice operations on the inodes of a node. Every step that
changes the heap goes through `write`, so a panic can cut a program off between any two of them.
-/

namespace Vmbolt

namespace World

/-- Replace a node. -/
def setNode (w : World) (n : NodeId) (nd : Node) : World :=
  { w with nodes := Function.update w.nodes n nd }

/-- Replace the content of a backing array. -/
def setArr (w : World) (a : ArrId) (l : List Inode) : World :=
  { w with arrays := Function.update w.arrays a l }

/-- Replace a bucket handle. -/
def setBucket (w : World) (b : BucketId) (bk : Bucket) : World :=
  { w with buckets := Function.update w.buckets b bk }

/-- Replace a transaction. -/
def setTx (w : World) (t : TxId) (tx : Tx) : World :=
  { w with txs := Function.update w.txs t tx }

end World

/-- One heap write, unless the call is cut off in front of it. -/
def write (f : World → World) : Go Unit := fun w =>
  match w.cut with
  | none => (.ok (), f w)
  | some 0 => (.panic .cutOff, { w with cut := none })
  | some (j + 1) => (.ok (), f { w with cut := some j })

/-- Follow a pointer; a nil pointer panics. -/
def deref {α : Type} (p : Option α) : Go α :=
  match p with
  | some a => pure a
  | none => Prog.panic .nilDereference

/-- Read a node. -/
def nodeOf (n : NodeId) : Go Node := Prog.read fun w => w.nodes n

/-- Read the inodes of a node. -/
def inodesOf (n : NodeId) : Go (List Inode) := Prog.read fun w => w.inodes n

/-- Read a bucket handle. -/
def bucketOf (b : BucketId) : Go Bucket := Prog.read fun w => w.buckets b

/-- Write fields of a node. -/
def modifyNode (n : NodeId) (f : Node → Node) : Go Unit :=
  write fun w => w.setNode n (f (w.nodes n))

/-- Write fields of a bucket handle. -/
def modifyBucket (b : BucketId) (f : Bucket → Bucket) : Go Unit :=
  write fun w => w.setBucket b (f (w.buckets b))

/-- `b.dirty[n] = true`. -/
def markDirty (b : BucketId) (n : NodeId) : Go Unit :=
  modifyBucket b fun bk => { bk with dirty := insert n bk.dirty }

/-- Allocate a backing array; the slots behind the slice that is made of it are spare capacity. -/
def newArr (l : List Inode) : Go ArrId := do
  let a ← Prog.read World.nextArr
  write fun w => { w.setArr a l with nextArr := a + 1 }
  pure a

/-- `append([]inode(nil), l...)`. -/
def cloneInodes (l : List Inode) : Go Slice := do
  let rt ← Prog.read World.rt
  let a ← newArr (l ++ List.replicate (if l = [] then 0 else rt.spare 0 l.length) default)
  pure ⟨a, l.length⟩

/-- `&node{...}`. -/
def newNode (nd : Node) : Go NodeId := do
  let n ← Prog.read World.nextNode
  write fun w => { w.setNode n nd with nextNode := n + 1 }
  pure n

/-- The nil inode slice of a new node. -/
def nilInodes : Go Slice := cloneInodes []

/-- `n.inodes = append(n.inodes, l...)`: in place while the backing array has room. -/
def appendInodes (n : NodeId) (l : List Inode) : Go Unit := do
  let rt ← Prog.read World.rt
  let s ← Prog.read fun w => (w.nodes n).inodes
  let a ← Prog.read fun w => w.arrays s.arr
  if s.len + l.length ≤ a.length then do
    write fun w => w.setArr s.arr (a.take s.len ++ l ++ a.drop (s.len + l.length))
    modifyNode n fun nd => { nd with inodes := ⟨s.arr, s.len + l.length⟩ }
  else do
    let a' ← newArr (a.take s.len ++ l ++
      List.replicate (rt.spare a.length (s.len + l.length)) default)
    modifyNode n fun nd => { nd with inodes := ⟨a', s.len + l.length⟩ }

/-- `copy(n.inodes[dst:], n.inodes[src:])`. -/
def copyInodes (n : NodeId) (dst src : Nat) : Go Unit := do
  let s ← Prog.read fun w => (w.nodes n).inodes
  if s.len < dst ∨ s.len < src then Prog.panic .indexOutOfRange
  else write fun w =>
    let a := w.arrays s.arr
    let cnt := min (s.len - dst) (s.len - src)
    w.setArr s.arr (a.take dst ++ (a.drop src).take cnt ++ a.drop (dst + cnt))

/-- Write the fields of `n.inodes[i]`. -/
def modifyInode (n : NodeId) (i : Nat) (f : Inode → Inode) : Go Unit := do
  let s ← Prog.read fun w => (w.nodes n).inodes
  if i < s.len then write fun w => w.setArr s.arr ((w.arrays s.arr).modify i f)
  else Prog.panic .indexOutOfRange

/-- `n.inodes = n.inodes[:len]` for a `len` within the slice. -/
def resliceInodes (n : NodeId) (len : Nat) : Go Unit :=
  modifyNode n fun nd => { nd with inodes := ⟨nd.inodes.arr, len⟩ }

/-- `for i := range n.inodes { n.inodes[i] = inode{} }`. -/
def clearInodes (n : NodeId) : Go Unit := do
  let s ← Prog.read fun w => (w.nodes n).inodes
  Prog.each (fun i => modifyInode n i fun _ => default) (List.range s.len)

end Vmbolt
