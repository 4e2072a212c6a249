import Vmbolt.Model.Open
import Vmbolt.Snapshot.RoundTrip

/-!
# Saving and opening again

`Open` of a file that `Tx.CopyFile` has written restores it in a write transaction. So it succeeds
exactly if the options let write transactions begin, and then readers see what was saved.
-/

namespace Vmbolt
open Filter Prog

section
variable {w w' : World} {V : SortedMap Name (SortedMap Bytes Bytes)} {t : TxId} {rt : Runtime}
  {order : World → Tx.Order} {fs fs' : FileSys} {path : String} {data : Bytes}

lemma FileSys.write_eq (h : path ≠ "") (fs : FileSys) (data : Bytes) :
    ∃ fs', fs.write path data = some fs' ∧ fs'.files path = some data := by
  unfold FileSys.write
  rw [dif_neg h]
  exact ⟨_, rfl, Function.update_self ..⟩

/-- `Tx.CopyFile` on a path that is not empty writes the snapshot. -/
lemma copyFile_eq (h : TxView w t V) (hp : path ≠ "") (fs : FileSys) :
    ∃ fs' w', Evals (fun k => Tx.copyFile k t fs path) w (fs', none) w' ∧
      fs'.files path = some (encode V) := by
  obtain ⟨fs1, h1, -⟩ := fs.write_eq hp []
  obtain ⟨fs2, h2, hfile⟩ := fs.write_eq hp (encode V)
  obtain ⟨out, n, w', ev, -, hout⟩ := writeTo_all h
  refine ⟨fs2, w', ev.mono fun k hk => ?_, hfile⟩
  dsimp only at hk ⊢
  unfold Tx.copyFile
  rw [h1]
  dsimp only
  rw [Prog.bind_ok hk, hout, h2]
  rfl

/-- If `Tx.CopyFile` returns nil then the file holds the snapshot. -/
lemma copyFile_file (h : TxView w t V)
    (hc : Evals (fun k => Tx.copyFile k t fs path) w (fs', none) w') :
    path ≠ "" ∧ fs'.files path = some (encode V) := by
  by_cases hp : path = ""
  · obtain ⟨k, hk⟩ := hc.exists
    dsimp only at hk
    unfold Tx.copyFile FileSys.write at hk
    rw [dif_pos hp] at hk
    cases hk
  obtain ⟨fs2, w2, ev, hfile⟩ := copyFile_eq h hp fs
  obtain ⟨k, h1, h2⟩ := (hc.and ev).exists
  rw [h1] at h2
  cases h2
  exact ⟨hp, hfile⟩

/-- A snapshot is recognised. -/
lemma maybeRestore_eq (h : fs.files path = some (encode V)) (fuel : Nat)
    (order : World → Tx.Order) :
    DB.maybeRestore fuel order fs path =
      DB.restore fuel order (encode V) >>= fun err => pure (err.map (RestoreErr.mk path)) := by
  have henc : encode V = snapshotMagicBytes ++ (putUint32 1 ++ putUint32 0 ++ putUint32 0 ++
      V.entries.flatMap encodeBucket ++ putUint32 0) := by
    simp only [encode, snapshotHeader, snapshotVersion, List.append_assoc]
  have hne : encode V ≠ [] := by
    rw [henc]
    exact List.cons_ne_nil _ _
  have hmagic : readMagic (encode V) = snapshotMagicBytes := by
    have htake : (encode V).take 4 = snapshotMagicBytes := by
      rw [henc]
      exact List.take_left' rfl
    have hlen : 4 ≤ (encode V).length := by
      rw [henc, List.length_append]
      exact Nat.le_add_right _ _
    unfold readMagic
    rw [htake, Nat.sub_eq_zero_of_le hlen]
    exact List.append_nil _
  unfold DB.maybeRestore
  rw [h]
  dsimp only
  rw [if_neg hne, if_neg fun hc => hc hmagic]
  refine congrArg (Bind.bind _) (funext fun err => ?_)
  cases err <;> rfl

/-- A database that takes write transactions restores the snapshot. -/
lemma open_eq {options : Option Options} (hW : Writes V) (hp : path ≠ "")
    (h : fs.files path = some (encode V)) (hr : (options.getD defaultOptions).readOnly = false)
    (rt : Runtime) (hv : ∀ v, (order v).Valid v 0) :
    ∃ db, (∀ᶠ k in atTop, open_ k order rt fs path options = .ok (.ok db)) ∧
      ReadsAs db.world V := by
  obtain ⟨w', hres, t, w'', hbegin, -, hans⟩ := restore_encode hW rt hv
  refine ⟨⟨w', !(options.getD defaultOptions).noStatistics⟩, hres.mono fun k hk => ?_, t, w'',
    hbegin, hans⟩
  dsimp only at hk
  unfold open_
  dsimp only
  rw [if_neg hp, hr, maybeRestore_eq h, Prog.bind_ok hk]
  rfl

/-- A read-only database refuses the transaction of the restore. -/
lemma open_readOnly {options : Option Options} (hW : Writes V) (hp : path ≠ "")
    (h : fs.files path = some (encode V)) (hr : (options.getD defaultOptions).readOnly = true)
    (rt : Runtime) (fuel : Nat) (order : World → Tx.Order) :
    open_ fuel order rt fs path options = .ok (.error ⟨path, .databaseReadOnly⟩) := by
  have hrun : DB.restore fuel order (encode V) (World.init rt true) =
      (.ok (some .databaseReadOnly), World.init rt true) := by
    rcases header_cases (encode V) with ⟨-, r, -, -, hrun⟩ | ⟨e, he, -⟩
    · rw [hrun]
      exact update_eq_error (begin_eq_readOnly rfl)
    · have hok : parseSnapshot rt.maxSliceLen (fun _ => false) (encode V) = .ok _ :=
        (parseSnapshot_eq_ok (Runtime.maxSliceLen_ge rt)).2
          ⟨_, _, _, encode_bmsp hW, fun _ _ => rfl, rfl⟩
      rw [he] at hok
      cases hok
  unfold open_
  dsimp only
  rw [if_neg hp, hr, maybeRestore_eq h, Prog.bind_ok hrun]
  rfl

/-- `Open` of a file that `Tx.CopyFile` has written succeeds and shows the buckets that were saved,
exactly if the options are not read-only. With read-only options it fails. -/
theorem reopen_iff {readOnly : Bool} {sys : Sys} (h : GoSteps (Sys.init rt readOnly) sys)
    (ht : t ∉ sys.ended) (hV : TxView sys.world t V) (hlen : ∀ y ∈ V.entries, y.1.length < 2 ^ 32)
    (hc : Evals (fun k => Tx.copyFile k t fs path) sys.world (fs', none) w') {fs'' : FileSys}
    (hfile : fs''.files path = fs'.files path) (options : Option Options) (rt' : Runtime)
    (hv : ∀ v, (order v).Valid v 0) :
    ((∃ db, (∀ᶠ k in atTop, open_ k order rt' fs'' path options = .ok (.ok db)) ∧
      ReadsAs db.world V) ↔
      (options.getD defaultOptions).readOnly = false) ∧
    ((options.getD defaultOptions).readOnly = true →
      ∀ k, open_ k order rt' fs'' path options = .ok (.error ⟨path, .databaseReadOnly⟩)) := by
  obtain ⟨hp, hfs⟩ := copyFile_file hV hc
  have hW := hV.writes h ht hlen
  rw [hfs] at hfile
  refine ⟨⟨?_, fun hr => open_eq hW hp hfile hr rt' hv⟩,
    fun hr k => open_readOnly hW hp hfile hr rt' k order⟩
  rintro ⟨db, hopen, -⟩
  by_contra hr
  obtain ⟨k, hk⟩ := hopen.exists
  rw [open_readOnly hW hp hfile (Bool.eq_true_of_not_eq_false hr) rt' k order] at hk
  cases hk

/-- The file system without files. -/
def FileSys.empty : FileSys := ⟨fun _ => none, rfl⟩

/-- A committed bucket and a new one are saved with their pairs, and the default options show them
again. -/
theorem reopen_iff_mixed : ∃ fs' w', Evals (fun k => Tx.copyFile k 1 .empty "db") mixedNames.world
      (fs', none) w' ∧
    ∃ db, (∀ᶠ k in atTop, open_ k (fun v => Tx.Order.sorted v 0) default fs' "db" none =
      .ok (.ok db)) ∧
      ReadsAs db.world twoBuckets := by
  obtain ⟨ht, hV⟩ := mixedNames_view
  obtain ⟨fs', w', hc, -⟩ := copyFile_eq hV (by decide : "db" ≠ "") .empty
  refine ⟨fs', w', hc, (reopen_iff mixedNames_steps ht hV ?_ hc rfl none default
    fun v => Tx.Order.sorted_valid v 0).1.2 rfl⟩
  decide

/-- A new bucket is saved, and the file is opened with read-only options. -/
theorem reopen_readOnly_fails :
    ∃ fs' w', Evals (fun k => Tx.copyFile k 0 .empty "db") (createdBucket [1]).world
      (fs', none) w' ∧
    ∀ k, open_ k (fun v => Tx.Order.sorted v 0) default fs' "db" (some ⟨true, false⟩) =
      .ok (.error ⟨"db", .databaseReadOnly⟩) := by
  obtain ⟨ht, hV⟩ := createdBucket_view (List.cons_ne_nil 1 [])
  obtain ⟨fs', w', hc, hfile⟩ := copyFile_eq hV (by decide : "db" ≠ "") .empty
  refine ⟨fs', w', hc,
    fun k => open_readOnly (hV.writes (createdBucket_steps [1]) ht fun y hy => ?_) (by decide)
    hfile rfl default k _⟩
  obtain rfl := List.mem_singleton.1 hy
  simp

end

end Vmbolt
