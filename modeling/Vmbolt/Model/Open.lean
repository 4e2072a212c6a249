import Vmbolt.Model.Snapshot

/-!
# Opening a database

`Open` and `DB.maybeRestore` of `db.go`, and `Tx.CopyFile`, over the contents of the files. A file
that is open for reading returns its bytes, and its first read fills the buffer as far as the file
goes.
-/

namespace Vmbolt

/-- The fields of `Options` that `Open` reads. -/
structure Options where
  readOnly : Bool
  noStatistics : Bool
  deriving DecidableEq, Repr

/-- `DefaultOptions`. -/
def defaultOptions : Options := { readOnly := false, noStatistics := false }

/-- The contents of the files. No file has the empty path. -/
structure FileSys where
  files : String → Option Bytes
  files_empty : files "" = none

/-- `os.OpenFile` for writing from the start, and the bytes that are written then. The empty path is
refused. -/
def FileSys.write (fs : FileSys) (path : String) (data : Bytes) : Option FileSys :=
  if h : path = "" then none
  else some { files := Function.update fs.files path (some data)
              files_empty := by rw [Function.update_of_ne (Ne.symm h)]; exact fs.files_empty }

/-- `Tx.CopyFile`, on a file system that takes every byte. -/
def Tx.copyFile (fuel : Nat) (t : TxId) (fs : FileSys) (path : String) :
    Go (FileSys × Option Err) :=
  match fs.write path [] with
  | none => pure (fs, some .writer)
  | some _ => do
    let r ← Tx.writeTo fuel t { cap := none, out := [], calls := [] }
    match fs.write path r.1.out with
    | none => pure (fs, some .writer)
    | some fs => pure (fs, r.2.2)

/-- The error of `DB.maybeRestore`. -/
structure RestoreErr where
  path : String
  err : Err
  deriving DecidableEq, Repr

/-- What `f.Read(magic[:])` leaves in the buffer of four zeros. -/
def readMagic (data : Bytes) : Bytes := data.take 4 ++ List.replicate (4 - data.length) 0

namespace DB

/-- `DB.maybeRestore`. Reading an empty file fails. -/
def maybeRestore (fuel : Nat) (order : World → Tx.Order) (fs : FileSys) (path : String) :
    Go (Option RestoreErr) :=
  match fs.files path with
  | none => pure none
  | some data =>
    if data = [] then pure none
    else if readMagic data ≠ snapshotMagicBytes then pure none
    else do
      let err ← restore fuel order data
      match err with
      | some e => pure (some { path := path, err := e })
      | none => pure none

end DB

/-- A database that was opened: its state, and whether it collects statistics. -/
structure OpenedDB where
  world : World
  stats : Bool

/-- `Open`. Its database is a new one. -/
def open_ (fuel : Nat) (order : World → Tx.Order) (rt : Runtime) (fs : FileSys) (path : String)
    (options : Option Options) : Outcome Panic (Except RestoreErr OpenedDB) :=
  let options := options.getD defaultOptions
  let world := World.init rt options.readOnly
  if path = "" then .ok (.ok { world := world, stats := !options.noStatistics })
  else
    match DB.maybeRestore fuel order fs path world with
    | (.ok none, world) => .ok (.ok { world := world, stats := !options.noStatistics })
    | (.ok (some e), _) => .ok (.error e)
    | (.panic e, _) => .panic e
    | (.hang, _) => .hang

end Vmbolt
