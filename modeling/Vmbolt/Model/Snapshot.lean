import Vmbolt.Lib.LittleEndian
import Vmbolt.Model.DB

/-!
# Snapshots

The functions of `snapshot.go`: `Tx.serializeSnapshot`, which `Tx.WriteTo` returns, and
`DB.Restore`. A reader is the list of the bytes that are still to come.
-/

namespace Vmbolt

/-- `snapshotMagicBytes`. -/
def snapshotMagicBytes : Bytes := [0x42, 0x4d, 0x53, 0x50]

/-- `snapshotVersion`. -/
def snapshotVersion : Nat := 1

/-- An `io.Writer` that takes `cap` bytes in all (`none`: any number): a write that would go over it
takes what fits and fails. It keeps the bytes it took and the arguments it was called with. -/
structure Writer where
  cap : Option Nat
  out : Bytes
  calls : List Bytes
  deriving DecidableEq, Repr

/-- How many bytes of a write of `len` bytes the writer takes. -/
def Writer.takes (w : Writer) (len : Nat) : Nat :=
  match w.cap with
  | none => len
  | some cap => min len (cap - w.out.length)

/-- `io.Writer.Write`. -/
def Writer.write (w : Writer) (p : Bytes) : Writer × Nat × Option Err :=
  let nn := w.takes p.length
  ({ w with out := w.out ++ p.take nn, calls := w.calls ++ [p] }, nn,
    if nn < p.length then some .writer else none)

/-- A `byteCounter`. -/
structure ByteCounter where
  w : Writer
  n : Nat
  deriving DecidableEq, Repr

/-- `byteCounter.Write`. -/
def ByteCounter.write (c : ByteCounter) (p : Bytes) : ByteCounter × Option Err :=
  let r := c.w.write p
  ({ w := r.1, n := c.n + r.2.1 }, r.2.2)

/-- Write one field after the other, up to the first error. -/
def ByteCounter.writeAll (c : ByteCounter) : List Bytes → ByteCounter × Option Err
  | [] => (c, none)
  | p :: ps =>
    match c.write p with
    | (c, some e) => (c, some e)
    | (c, none) => c.writeAll ps

/-- `binary.LittleEndian.PutUint32(buf4[:], uint32(v))`. -/
def putUint32 (v : Nat) : Bytes := leEncode 4 v

/-- `binary.LittleEndian.PutUint64(buf8[:], uint64(v))`. -/
def putUint64 (v : Nat) : Bytes := leEncode 8 v

/-- The header. -/
def snapshotHeader : Bytes :=
  snapshotMagicBytes ++ putUint32 snapshotVersion ++ putUint32 0 ++ putUint32 0

namespace Tx

/-- The callback of `Tx.serializeSnapshot` for one pair. -/
def writePair (c : ByteCounter) (k : Bytes) (v : Option Bytes) : Go (ByteCounter × Option Err) :=
  pure (c.writeAll [putUint32 k.length, k, putUint64 (lenBytes v), v.getD []])

/-- The body of the loop of `Tx.serializeSnapshot` for one name. -/
def writeBucket (fuel : Nat) (t : TxId) (c : ByteCounter) (name : Name) :
    Go (ByteCounter × Option Err) := do
  let b ← bucket t name
  match b with
  | none => pure (c, none)
  | some b =>
    match c.writeAll [putUint32 name.length, name] with
    | (c, some e) => pure (c, some e)
    | (c, none) => do
      let r ← Bucket.forEach fuel b writePair c
      match r with
      | (c, some e) => pure (c, some e)
      | (c, none) => pure (c.write (putUint32 0))

/-- The loop of `Tx.serializeSnapshot` over the directory cursor. -/
def writeBuckets (t : TxId) : Nat → Cursor → Item → ByteCounter → Go (ByteCounter × Option Err)
  | 0, _, _, _ => Prog.hang
  | fuel + 1, cur, (name, _), c =>
    match name with
    | none => pure (c, none)
    | some name => do
      let r ← writeBucket fuel t c name
      match r with
      | (c, some e) => pure (c, some e)
      | (c, none) => do
        let nx ← Prog.query fun w => Cursor.Next fuel w cur
        writeBuckets t fuel nx.2 nx.1 c

/-- `Tx.serializeSnapshot`: the writer afterwards, the number of bytes and the error. -/
def serializeSnapshot (fuel : Nat) (t : TxId) (w : Writer) : Go (Writer × Nat × Option Err) := do
  match (ByteCounter.mk w 0).write snapshotHeader with
  | (c, some e) => pure (c.w, c.n, some e)
  | (c, none) => do
    let tx ← get t
    let f ← Prog.query fun w => Cursor.First fuel w tx.cursor
    let r ← writeBuckets t fuel f.2 f.1 c
    match r with
    | (c, some e) => pure (c.w, c.n, some e)
    | (c, none) =>
      let r := c.write (putUint32 0)
      pure (r.1.w, r.1.n, r.2)

/-- `Tx.WriteTo`. -/
def writeTo (fuel : Nat) (t : TxId) (w : Writer) : Go (Writer × Nat × Option Err) :=
  serializeSnapshot fuel t w

end Tx

/-- `io.ReadFull` of `k` bytes: the bytes and the rest of the stream. -/
def readFull (r : Bytes) (k : Nat) : Except ReadErr (Bytes × Bytes) :=
  if k ≤ r.length then .ok (r.take k, r.drop k)
  else if r.length = 0 then .error .eof else .error .unexpectedEOF

/-- `make([]byte, n)`. -/
def makeSlice (n : Nat) : Go Unit := do
  let rt ← Prog.read World.rt
  if n ≤ rt.maxSliceLen then pure () else Prog.panic .makesliceLenOutOfRange

/-- The fill percentage of a restored bucket: the `float64` next to 0.9. -/
def restoreFillPercent : Float64 := .fin (8106479329266893 / 2 ^ 53)

namespace DB

/-- The inner loop of `DB.Restore`: the pairs of one bucket, and the rest of the stream. -/
def restorePairs : Nat → BucketId → Bytes → Go (Except Err Bytes)
  | 0, _, _ => Prog.hang
  | fuel + 1, b, r =>
    match readFull r 4 with
    | .error e => pure (.error (.snapshotKeyLen e))
    | .ok (buf4, r) =>
      if leDecode buf4 = 0 then pure (.ok r)
      else do
        makeSlice (leDecode buf4)
        match readFull r (leDecode buf4) with
        | .error e => pure (.error (.snapshotKey e))
        | .ok (key, r) =>
          match readFull r 8 with
          | .error e => pure (.error (.snapshotValLen e))
          | .ok (buf8, r) => do
            makeSlice (leDecode buf8)
            match readFull r (leDecode buf8) with
            | .error e => pure (.error (.snapshotVal e))
            | .ok (val, r) => do
              let err ← Bucket.put fuel b key (some val)
              match err with
              | some e => pure (.error (.restorePut key e))
              | none => restorePairs fuel b r

/-- The outer loop of `DB.Restore`. -/
def restoreBuckets : Nat → TxId → Bytes → Go (Option Err)
  | 0, _, _ => Prog.hang
  | fuel + 1, t, r =>
    match readFull r 4 with
    | .error e => pure (some (.snapshotBucketNameLen e))
    | .ok (buf4, r) =>
      if leDecode buf4 = 0 then pure none
      else do
        makeSlice (leDecode buf4)
        match readFull r (leDecode buf4) with
        | .error e => pure (some (.snapshotBucketName e))
        | .ok (name, r) => do
          let b ← Tx.createBucket t name
          match b with
          | .error e => pure (some (.restoreBucket name e))
          | .ok b => do
            Bucket.setFillPercent b restoreFillPercent
            let rest ← restorePairs fuel b r
            match rest with
            | .error e => pure (some e)
            | .ok r => restoreBuckets fuel t r

/-- `DB.Restore`. -/
def restore (fuel : Nat) (order : World → Tx.Order) (r : Bytes) : Go (Option Err) :=
  match readFull r 16 with
  | .error e => pure (some (.snapshotHeader e))
  | .ok (hdr, r) =>
    if hdr.take 4 ≠ snapshotMagicBytes then pure (some (.notSnapshot (hdr.take 4)))
    else if leDecode ((hdr.drop 4).take 4) ≠ snapshotVersion then
      pure (some (.unsupportedVersion (leDecode ((hdr.drop 4).take 4))))
    else update fuel order fun t => restoreBuckets fuel t r

end DB

end Vmbolt
