import Vmbolt.Refinement.ReadYourWrites
import Vmbolt.Snapshot.WriteTo

/-!
# The snapshot format as a grammar

`parseSnapshot` is what `DB.Restore` makes of a byte string, without a database: it reads the header
and the records one after the other and collects the maps, up to the first thing that stops it.
`Bmsp` is the grammar in the comment of `snapshot.go`. The parser accepts exactly the strings of the
grammar, and a string has one decomposition.
-/

namespace Vmbolt

/-- Why `DB.Restore` stops before the end: it returns an error, or `make` panics. -/
inductive Stop where
  | err (e : Err)
  | overlong
  deriving DecidableEq, Repr

/-- `io.ReadFull`, with the error `DB.Restore` makes of a short read. -/
def readBytes (err : ReadErr → Err) (r : Bytes) (k : Nat) : Except Stop (Bytes × Bytes) :=
  match readFull r k with
  | .error e => .error (.err (err e))
  | .ok x => .ok x

/-- A field: a length of `width` bytes, which must not exceed `lim`, and as many bytes. -/
def readField (lim width : Nat) (lenErr bodyErr : ReadErr → Err) (r : Bytes) :
    Except Stop (Bytes × Bytes) := do
  let x ← readBytes lenErr r width
  if lim < leDecode x.1 then .error .overlong
  else readBytes bodyErr x.2 (leDecode x.1)

/-- The next pair of a bucket, or the end of the bucket. -/
def nextPair (lim : Nat) (r : Bytes) : Except Stop (Option (Bytes × Bytes) × Bytes) := do
  let k ← readField lim 4 .snapshotKeyLen .snapshotKey r
  if k.1 = [] then .ok (none, k.2)
  else do
    let v ← readField lim 8 .snapshotValLen .snapshotVal k.2
    .ok (some (k.1, v.1), v.2)

/-- The name of the next bucket, or the end of the buckets. -/
def nextName (lim : Nat) (r : Bytes) : Except Stop (Option Name × Bytes) := do
  let x ← readField lim 4 .snapshotBucketNameLen .snapshotBucketName r
  .ok (if x.1 = [] then none else some x.1, x.2)

section
variable {lim width : Nat} {e e' : ReadErr → Err} {r rest k v : Bytes} {name : Name} {s : Stop}

/-! ## Fields -/

lemma readFull_append (p rest : Bytes) : readFull (p ++ rest) p.length = .ok (p, rest) := by
  simp [readFull]

lemma readBytes_eq_ok {n : Nat} {x : Bytes × Bytes} (h : readBytes e r n = .ok x) :
    r = x.1 ++ x.2 ∧ x.1.length = n := by
  unfold readBytes readFull at h
  split at h
  · cases h
  next hx =>
    split at hx
    next hle =>
      cases hx
      cases h
      exact ⟨(List.take_append_drop n r).symm, by simpa using hle⟩
    · split at hx <;> cases hx

lemma readField_of_error {x : ReadErr} (h : readFull r width = .error x) :
    readField lim width e e' r = .error (.err (e x)) := by
  unfold readField readBytes
  rw [h]
  rfl

lemma readField_of_ok {x : Bytes × Bytes} (h : readFull r width = .ok x) :
    readField lim width e e' r =
    if lim < leDecode x.1 then .error .overlong else readBytes e' x.2 (leDecode x.1) := by
  unfold readField
  conv_lhs => rw [readBytes, h]
  rfl

/-- A field is read exactly if it is there in full and its length is not over the limit. -/
lemma readField_eq_ok : readField lim width e e' r = .ok (k, rest) ↔
    r = leEncode width k.length ++ k ++ rest ∧ k.length < 256 ^ width ∧ k.length ≤ lim := by
  constructor
  · intro h
    rcases hx : readFull r width with x | x
    · rw [readField_of_error hx] at h
      cases h
    · obtain ⟨hr, hl⟩ := readBytes_eq_ok (e := e) (x := x) (by rw [readBytes, hx])
      rw [readField_of_ok hx] at h
      split at h
      · cases h
      next hlim =>
        obtain ⟨hr2, hl2⟩ := readBytes_eq_ok h
        dsimp only at hr2 hl2
        have hlt := leDecode_lt x.1
        refine ⟨?_, by rw [hl2, ← hl]; exact hlt, by rw [hl2]; omega⟩
        rw [hr, hr2, hl2, ← hl, leEncode_leDecode, List.append_assoc]
  · rintro ⟨rfl, hlt, hlim⟩
    have h1 := readFull_append (leEncode width k.length) (k ++ rest)
    rw [length_leEncode, ← List.append_assoc] at h1
    rw [readField_of_ok h1, leDecode_leEncode_of_lt hlt, if_neg (by omega), readBytes,
      readFull_append]

/-- A field is over the limit exactly if its length is there and says so. -/
lemma readField_eq_overlong : readField lim width e e' r = .error .overlong ↔
    ∃ buf rest, r = buf ++ rest ∧ buf.length = width ∧ lim < leDecode buf := by
  constructor
  · intro h
    rcases hx : readFull r width with x | x
    · rw [readField_of_error hx] at h
      cases h
    · obtain ⟨hr, hl⟩ := readBytes_eq_ok (e := e) (x := x) (by rw [readBytes, hx])
      rw [readField_of_ok hx] at h
      split at h
      next hlt => exact ⟨x.1, x.2, hr, hl, hlt⟩
      · unfold readBytes at h
        split at h <;> cases h
  · rintro ⟨buf, rest, rfl, rfl, hlt⟩
    rw [readField_of_ok (readFull_append buf rest), if_pos hlt]

/-! ## Pairs and names -/

lemma nextPair_of_error (h : readField lim 4 .snapshotKeyLen .snapshotKey r = .error s) :
    nextPair lim r = .error s := by
  unfold nextPair
  rw [h]
  rfl

lemma nextPair_of_nil (h : readField lim 4 .snapshotKeyLen .snapshotKey r = .ok ([], rest)) :
    nextPair lim r = .ok (none, rest) := by
  unfold nextPair
  rw [h]
  rfl

lemma nextPair_of_ok (h : readField lim 4 .snapshotKeyLen .snapshotKey r = .ok (k, rest))
    (hk : k ≠ []) : nextPair lim r = match readField lim 8 .snapshotValLen .snapshotVal rest with
      | .error s => .error s
      | .ok v => .ok (some (k, v.1), v.2) := by
  unfold nextPair
  rw [h]
  refine (if_neg hk).trans ?_
  rcases readField lim 8 .snapshotValLen .snapshotVal rest with s | v <;> rfl

lemma nextPair_eq_none : nextPair lim r = .ok (none, rest) ↔ r = putUint32 0 ++ rest := by
  constructor
  · intro h
    rcases hk : readField lim 4 .snapshotKeyLen .snapshotKey r with s | ⟨k, r1⟩
    · rw [nextPair_of_error hk] at h
      cases h
    by_cases hn : k = []
    · subst hn
      rw [nextPair_of_nil hk] at h
      cases h
      exact (readField_eq_ok.1 hk).1
    · rw [nextPair_of_ok hk hn] at h
      split at h <;> cases h
  · intro h
    exact nextPair_of_nil (readField_eq_ok.2 ⟨h, by simp, Nat.zero_le _⟩)

lemma nextPair_eq_some : nextPair lim r = .ok (some (k, v), rest) ↔
    r = encodePair (k, v) ++ rest ∧ k ≠ [] ∧ k.length < 2 ^ 32 ∧ v.length < 2 ^ 64 ∧
      k.length ≤ lim ∧
      v.length ≤ lim := by
  have hp4 : (256 : Nat) ^ 4 = 2 ^ 32 := by norm_num
  have hp8 : (256 : Nat) ^ 8 = 2 ^ 64 := by norm_num
  constructor
  · intro h
    rcases hk : readField lim 4 .snapshotKeyLen .snapshotKey r with s | ⟨k1, r1⟩
    · rw [nextPair_of_error hk] at h
      cases h
    by_cases hn : k1 = []
    · subst hn
      rw [nextPair_of_nil hk] at h
      cases h
    · rw [nextPair_of_ok hk hn] at h
      split at h
      · cases h
      next v1 hv =>
        cases h
        obtain ⟨h1, h2, h3⟩ := readField_eq_ok.1 hk
        obtain ⟨h4, h5, h6⟩ := readField_eq_ok.1 hv
        refine ⟨?_, hn, hp4 ▸ h2, hp8 ▸ h5, h3, h6⟩
        rw [h1, h4]
        simp [encodePair, putUint32, putUint64]
  · rintro ⟨h, hn, h2, h5, h3, h6⟩
    have hk : readField lim 4 .snapshotKeyLen .snapshotKey r =
        .ok (k, putUint64 v.length ++ v ++ rest) := by
      refine readField_eq_ok.2 ⟨?_, hp4.symm ▸ h2, h3⟩
      rw [h]
      simp [encodePair, putUint32]
    have hv : readField lim 8 .snapshotValLen .snapshotVal (putUint64 v.length ++ v ++ rest) =
        .ok (v, rest) := readField_eq_ok.2 ⟨rfl, hp8.symm ▸ h5, h6⟩
    rw [nextPair_of_ok hk hn, hv]

/-- A length of four bytes is never over the limit. -/
lemma readField_ne_overlong (hlim : 2 ^ 32 ≤ lim) : readField lim 4 e e' r ≠ .error .overlong := by
  intro h
  obtain ⟨buf, rest, -, hl, hlt⟩ := readField_eq_overlong.1 h
  have := leDecode_lt buf
  rw [hl] at this
  omega

/-- Of a pair only the length of the value can be over the limit. -/
lemma nextPair_eq_overlong (hlim : 2 ^ 32 ≤ lim) : nextPair lim r = .error .overlong ↔
    ∃ k buf rest, r = putUint32 k.length ++ k ++ buf ++ rest ∧ k ≠ [] ∧ k.length < 2 ^ 32 ∧
      buf.length = 8 ∧ lim < leDecode buf := by
  have hp4 : (256 : Nat) ^ 4 = 2 ^ 32 := by norm_num
  constructor
  · intro h
    rcases hk : readField lim 4 .snapshotKeyLen .snapshotKey r with s | ⟨k, r1⟩
    · rw [nextPair_of_error hk] at h
      cases h
      exact absurd hk (readField_ne_overlong hlim)
    by_cases hn : k = []
    · subst hn
      rw [nextPair_of_nil hk] at h
      cases h
    · rw [nextPair_of_ok hk hn] at h
      split at h
      next s hv =>
        cases h
        obtain ⟨h1, h2, -⟩ := readField_eq_ok.1 hk
        obtain ⟨buf, rest, h3, h4, h5⟩ := readField_eq_overlong.1 hv
        refine ⟨k, buf, rest, ?_, hn, hp4 ▸ h2, h4, h5⟩
        rw [h1, h3]
        simp [putUint32]
      · cases h
  · rintro ⟨k, buf, rest, rfl, hn, hk, hl, hlt⟩
    have hread :
        readField lim 4 .snapshotKeyLen .snapshotKey (putUint32 k.length ++ k ++ buf ++ rest) =
        .ok (k, buf ++ rest) :=
      readField_eq_ok.2 ⟨by simp [putUint32], hp4.symm ▸ hk, by omega⟩
    have hover : readField lim 8 .snapshotValLen .snapshotVal (buf ++ rest) = .error .overlong :=
      readField_eq_overlong.2 ⟨buf, rest, rfl, hl, hlt⟩
    rw [nextPair_of_ok hread hn, hover]

lemma nextName_of_error
    (h : readField lim 4 .snapshotBucketNameLen .snapshotBucketName r = .error s) :
    nextName lim r = .error s := by
  unfold nextName
  rw [h]
  rfl

lemma nextName_of_ok
    (h : readField lim 4 .snapshotBucketNameLen .snapshotBucketName r = .ok (k, rest)) :
    nextName lim r = .ok (if k = [] then none else some k, rest) := by
  unfold nextName
  rw [h]
  rfl

lemma nextName_eq_ok {x : Option Name} : nextName lim r = .ok (x, rest) ↔
    ∃ k, readField lim 4 .snapshotBucketNameLen .snapshotBucketName r = .ok (k, rest) ∧
      (if k = [] then none else some k) = x := by
  rcases hx : readField lim 4 .snapshotBucketNameLen .snapshotBucketName r with s | ⟨k, r1⟩
  · simp [nextName_of_error hx]
  · rw [nextName_of_ok hx]
    constructor
    · rintro ⟨⟩
      exact ⟨k, rfl, rfl⟩
    · rintro ⟨k, ⟨⟩, rfl⟩
      rfl

lemma nextName_ne_overlong (hlim : 2 ^ 32 ≤ lim) : nextName lim r ≠ .error .overlong := by
  intro h
  rcases hx : readField lim 4 .snapshotBucketNameLen .snapshotBucketName r with s | ⟨k, r1⟩
  · rw [nextName_of_error hx] at h
    cases h
    exact readField_ne_overlong hlim hx
  · rw [nextName_of_ok hx] at h
    cases h

lemma nextName_eq_none : nextName lim r = .ok (none, rest) ↔ r = putUint32 0 ++ rest := by
  rw [nextName_eq_ok]
  constructor
  · rintro ⟨k, hk, hn⟩
    split at hn
    next hnil =>
      have := (readField_eq_ok.1 hk).1
      rwa [hnil] at this
    · cases hn
  · exact fun h => ⟨[], readField_eq_ok.2 ⟨h, by simp, Nat.zero_le _⟩, rfl⟩

lemma nextName_eq_some : nextName lim r = .ok (some name, rest) ↔
    r = putUint32 name.length ++ name ++ rest ∧ name ≠ [] ∧ name.length < 2 ^ 32 ∧
      name.length ≤ lim := by
  have hp4 : (256 : Nat) ^ 4 = 2 ^ 32 := by norm_num
  rw [nextName_eq_ok]
  constructor
  · rintro ⟨k, hk, hn⟩
    split at hn
    · cases hn
    next hne =>
      cases hn
      obtain ⟨h1, h2, h3⟩ := readField_eq_ok.1 hk
      exact ⟨h1, hne, hp4 ▸ h2, h3⟩
  · rintro ⟨h, hn, h2, h3⟩
    exact ⟨name, readField_eq_ok.2 ⟨h, hp4.symm ▸ h2, h3⟩, if_neg hn⟩

lemma length_nextPair {x : Option (Bytes × Bytes)} (h : nextPair lim r = .ok (x, rest)) :
    rest.length < r.length := by
  rcases x with _ | ⟨k, v⟩
  · rw [nextPair_eq_none.1 h]
    simp [putUint32]
  · rw [(nextPair_eq_some.1 h).1]
    simp [encodePair, putUint32]
    omega

lemma length_nextName {x : Option Name} (h : nextName lim r = .ok (x, rest)) :
    rest.length < r.length := by
  rcases x with _ | name
  · rw [nextName_eq_none.1 h]
    simp [putUint32]
  · rw [(nextName_eq_some.1 h).1]
    simp [putUint32]
    omega

end

/-! ## The parser -/

/-- The pairs of a bucket, entered into `m`, and the rest of the stream. A pair that `Bucket.Put`
refuses ends the parse. -/
def parsePairs (lim : Nat) (m : SortedMap Bytes Bytes) (r : Bytes) :
    Except Stop (SortedMap Bytes Bytes × Bytes) :=
  match _h : nextPair lim r with
  | .error s => .error s
  | .ok (none, rest) => .ok (m, rest)
  | .ok (some (k, v), rest) =>
    match (BucketOp.put k (some v)).result with
    | some e => .error (.err (.restorePut k e))
    | none => parsePairs lim (m.insert k v) rest
termination_by r.length
decreasing_by exact length_nextPair _h

section
variable {lim : Nat} {m m' : SortedMap Bytes Bytes} {r rest : Bytes}

lemma length_parsePairs (h : parsePairs lim m r = .ok (m', rest)) : rest.length < r.length := by
  fun_induction parsePairs lim m r with
  | case1 => cases h
  | case2 m r rest hn =>
    cases h
    exact length_nextPair hn
  | case3 => cases h
  | case4 m r k v rest hn hp ih => exact (ih h).trans (length_nextPair hn)

end

/-- The buckets of a snapshot, entered into `V`. A name that is taken ends the parse. -/
def parseBuckets (lim : Nat) (taken : Name → Bool) (V : SortedMap Name (SortedMap Bytes Bytes))
    (r : Bytes) : Except Stop (SortedMap Name (SortedMap Bytes Bytes)) :=
  match _h : nextName lim r with
  | .error s => .error s
  | .ok (none, _) => .ok V
  | .ok (some name, rest) =>
    if taken name || (V.get name).isSome then .error (.err (.restoreBucket name .bucketExists))
    else
      match _hp : parsePairs lim .empty rest with
      | .error s => .error s
      | .ok (m, rest') => parseBuckets lim taken (V.insert name m) rest'
termination_by r.length
decreasing_by exact (length_parsePairs _hp).trans (length_nextName _h)

/-- A whole snapshot. -/
def parseSnapshot (lim : Nat) (taken : Name → Bool) (s : Bytes) :
    Except Stop (SortedMap Name (SortedMap Bytes Bytes)) :=
  match readFull s 16 with
  | .error e => .error (.err (.snapshotHeader e))
  | .ok (hdr, r) =>
    if hdr.take 4 ≠ snapshotMagicBytes then .error (.err (.notSnapshot (hdr.take 4)))
    else if leDecode ((hdr.drop 4).take 4) ≠ snapshotVersion then
      .error (.err (.unsupportedVersion (leDecode ((hdr.drop 4).take 4))))
    else parseBuckets lim taken .empty r

/-! ## The grammar -/

/-- One bucket record with its pairs in file order. -/
def encodeRecord (x : Name × List (Bytes × Bytes)) : Bytes :=
  putUint32 x.1.length ++ x.1 ++ x.2.flatMap encodePair ++ putUint32 0

/-- A record as the format admits it. -/
structure RecordOK (x : Name × List (Bytes × Bytes)) : Prop where
  name : x.1 ≠ []
  nameLen : x.1.length < 2 ^ 32
  pairs : ∀ p ∈ x.2, 1 ≤ p.1.length ∧ p.1.length ≤ 32768 ∧ p.2.length ≤ 2 ^ 31 - 2

/-- The string `s` is a snapshot with the reserved bytes `res`, the records `L` and the trailing
bytes `tail`. -/
structure Bmsp (s res : Bytes) (L : List (Name × List (Bytes × Bytes))) (tail : Bytes) : Prop where
  eq : s = snapshotMagicBytes ++ putUint32 1 ++ res ++ L.flatMap encodeRecord ++ putUint32 0 ++ tail
  reserved : res.length = 8
  records : ∀ x ∈ L, RecordOK x
  distinct : (L.map Prod.fst).Nodup

/-- The maps that the records stand for: the pairs of each are applied in file order. -/
def recordMaps (V : SortedMap Name (SortedMap Bytes Bytes))
    (L : List (Name × List (Bytes × Bytes))) :
    SortedMap Name (SortedMap Bytes Bytes) :=
  V.insertAll (L.map fun x => (x.1, SortedMap.empty.insertAll x.2))

section
variable {lim : Nat} {taken : Name → Bool} {m m' : SortedMap Bytes Bytes}
  {s r rest res tail k v : Bytes}
  {V V' : SortedMap Name (SortedMap Bytes Bytes)} {l : List (Bytes × Bytes)}
  {L : List (Name × List (Bytes × Bytes))} {name : Name}

/-- `Bucket.Put` takes exactly the pairs the format admits. -/
lemma put_result_eq_none : (BucketOp.put k (some v)).result = none ↔
    1 ≤ k.length ∧ k.length ≤ 32768 ∧ v.length ≤ 2 ^ 31 - 2 := by
  unfold BucketOp.result maxKeySize maxValueSize lenBytes
  dsimp only [Option.getD_some]
  split
  · simp only [reduceCtorEq, false_iff]
    omega
  split
  · simp only [reduceCtorEq, false_iff]
    omega
  split
  · simp only [reduceCtorEq, false_iff]
    omega
  · simp only [true_iff]
    omega

/-- The pairs that are accepted. -/
lemma parsePairs_eq_ok (hlim : 2 ^ 32 ≤ lim) : parsePairs lim m r = .ok (m', rest) ↔
    ∃ l, r = l.flatMap encodePair ++ putUint32 0 ++ rest ∧ m' = m.insertAll l ∧
      ∀ p ∈ l, 1 ≤ p.1.length ∧ p.1.length ≤ 32768 ∧ p.2.length ≤ 2 ^ 31 - 2 := by
  constructor
  · intro h
    fun_induction parsePairs lim m r with
    | case1 => cases h
    | case2 m r rest hn =>
      cases h
      exact ⟨[], nextPair_eq_none.1 hn, rfl, nofun⟩
    | case3 => cases h
    | case4 m r k v rest' hn hp ih =>
      obtain ⟨l, h1, h2, h3⟩ := ih h
      refine ⟨(k, v) :: l, ?_, h2, fun p hp' => ?_⟩
      · rw [(nextPair_eq_some.1 hn).1, h1]
        simp
      · rcases List.mem_cons.1 hp' with rfl | hp'
        · exact put_result_eq_none.1 hp
        · exact h3 p hp'
  · rintro ⟨l, hr, rfl, hl⟩
    induction l generalizing m r with
    | nil =>
      have hn : nextPair lim r = .ok (none, rest) := nextPair_eq_none.2 hr
      rw [parsePairs]
      split <;> simp_all [SortedMap.insertAll]
    | cons p l ih =>
      obtain ⟨k, v⟩ := p
      obtain ⟨h1, h2, h3⟩ := hl (k, v) (by simp)
      dsimp only at h1 h2 h3
      have hn :
          nextPair lim r = .ok (some (k, v), l.flatMap encodePair ++ putUint32 0 ++ rest) := by
        refine nextPair_eq_some.2 ⟨by rw [hr]; simp, ?_, by omega, by omega, by omega, by omega⟩
        rintro rfl
        simp at h1
      have := ih (m := m.insert k v) rfl fun p hp => hl p (by simp [hp])
      rw [parsePairs]
      split
      next e => rw [hn] at e; cases e
      next e => rw [hn] at e; cases e
      next e =>
        rw [hn] at e
        cases e
        rw [put_result_eq_none.2 ⟨h1, h2, h3⟩]
        exact this

/-- A name that is new leads to its pairs. -/
lemma parseBuckets_name {x : Name × List (Bytes × Bytes)} (hlim : 2 ^ 32 ≤ lim) (hx : RecordOK x)
    (ht : taken x.1 = false) (hV : V.get x.1 = none) :
    parseBuckets lim taken V (putUint32 x.1.length ++ x.1 ++ r) =
      match parsePairs lim .empty r with
      | .error s => .error s
      | .ok y => parseBuckets lim taken (V.insert x.1 y.1) y.2 := by
  have hlen := hx.nameLen
  have hn : nextName lim (putUint32 x.1.length ++ x.1 ++ r) = .ok (some x.1, r) :=
    nextName_eq_some.2 ⟨rfl, hx.name, hlen, by omega⟩
  rw [parseBuckets]
  split
  next e => rw [hn] at e; cases e
  next e => rw [hn] at e; cases e
  next e =>
    rw [hn] at e
    cases e
    rw [if_neg (by simp [ht, hV])]
    rcases hp : parsePairs lim .empty r with s | y <;> split <;> simp_all

/-- Records that are in order are entered. -/
lemma parseBuckets_records (hlim : 2 ^ 32 ≤ lim)
    (hL : ∀ x ∈ L, RecordOK x ∧ taken x.1 = false ∧ V.get x.1 = none)
      (hnd : (L.map Prod.fst).Nodup) :
    parseBuckets lim taken V (L.flatMap encodeRecord ++ r) =
      parseBuckets lim taken (recordMaps V L) r := by
  induction L generalizing V with
  | nil => rfl
  | cons x L ih =>
    obtain ⟨hx, ht, hV⟩ := hL x (by simp)
    rw [List.map_cons, List.nodup_cons] at hnd
    have hp : parsePairs lim .empty
        (x.2.flatMap encodePair ++ putUint32 0 ++ (L.flatMap encodeRecord ++ r)) =
        .ok (SortedMap.empty.insertAll x.2, L.flatMap encodeRecord ++ r) :=
      (parsePairs_eq_ok hlim).2 ⟨x.2, rfl, rfl, hx.pairs⟩
    have hr : (x :: L).flatMap encodeRecord ++ r = putUint32 x.1.length ++ x.1 ++
        (x.2.flatMap encodePair ++ putUint32 0 ++ (L.flatMap encodeRecord ++ r)) := by
      simp [encodeRecord]
    rw [hr, parseBuckets_name hlim hx ht hV, hp]
    refine ih (fun y hy => ?_) hnd.2
    obtain ⟨h1, h2, h3⟩ := hL y (by simp [hy])
    refine ⟨h1, h2, ?_⟩
    rw [SortedMap.get_insert_of_ne _ (fun e => hnd.1 (List.mem_map.2 ⟨y, hy, e⟩))]
    exact h3

/-- The buckets that are accepted. -/
lemma parseBuckets_eq_ok (hlim : 2 ^ 32 ≤ lim) : parseBuckets lim taken V r = .ok V' ↔
    ∃ L tail, r = L.flatMap encodeRecord ++ putUint32 0 ++ tail ∧ V' = recordMaps V L ∧
      (∀ x ∈ L, RecordOK x ∧ taken x.1 = false ∧ V.get x.1 = none) ∧ (L.map Prod.fst).Nodup := by
  constructor
  · intro h
    fun_induction parseBuckets lim taken V r with
    | case1 => cases h
    | case2 V r rest hn =>
      cases h
      exact ⟨[], rest, nextName_eq_none.1 hn, rfl, nofun, List.nodup_nil⟩
    | case3 => cases h
    | case4 => cases h
    | case5 V r name rest hn ht m rest' hp ih =>
      obtain ⟨L, tail, h1, h2, h3, h4⟩ := ih h
      obtain ⟨l, hl1, hl2, hl3⟩ := (parsePairs_eq_ok hlim).1 hp
      obtain ⟨hr, hname, hlen, -⟩ := nextName_eq_some.1 hn
      simp only [Bool.or_eq_true, Option.isSome_iff_ne_none, not_or, Bool.not_eq_true,
        not_not] at ht
      have hne : ∀ x ∈ L, x.1 ≠ name ∧ V.get x.1 = none := by
        intro x hx
        have hx' := (h3 x hx).2.2
        rw [SortedMap.get_insert] at hx'
        split at hx'
        · cases hx'
        next hxn => exact ⟨hxn, hx'⟩
      refine ⟨(name, l) :: L, tail, ?_, ?_, fun x hx => ?_, ?_⟩
      · rw [hr, hl1, h1]
        simp [encodeRecord]
      · rw [h2, hl2]
        rfl
      · rcases List.mem_cons.1 hx with rfl | hx
        · exact ⟨⟨hname, hlen, hl3⟩, ht.1, ht.2⟩
        · exact ⟨(h3 x hx).1, (h3 x hx).2.1, (hne x hx).2⟩
      · rw [List.map_cons, List.nodup_cons]
        refine ⟨fun hm => ?_, h4⟩
        obtain ⟨x, hx, e⟩ := List.mem_map.1 hm
        exact (hne x hx).1 e
  · rintro ⟨L, tail, rfl, rfl, hL, hnd⟩
    have hn : nextName lim (putUint32 0 ++ tail) = .ok (none, tail) := nextName_eq_none.2 rfl
    rw [List.append_assoc, parseBuckets_records hlim hL hnd, parseBuckets]
    split <;> simp_all

/-- A header that is in order leads to the buckets. -/
lemma parseSnapshot_eq (hres : res.length = 8) :
    parseSnapshot lim taken (snapshotMagicBytes ++ putUint32 1 ++ res ++ r) =
      parseBuckets lim taken .empty r := by
  have hmagic : snapshotMagicBytes.length = 4 := rfl
  have hhdr : (snapshotMagicBytes ++ putUint32 1 ++ res).length = 16 := by
    simp [hmagic, putUint32, hres]
  have hread := readFull_append (snapshotMagicBytes ++ putUint32 1 ++ res) r
  rw [hhdr] at hread
  have h1 : (snapshotMagicBytes ++ putUint32 1 ++ res).take 4 = snapshotMagicBytes := by
    rw [List.append_assoc]
    exact List.take_left' hmagic
  have h2 : leDecode (((snapshotMagicBytes ++ putUint32 1 ++ res).drop 4).take 4) =
      snapshotVersion := by
    have : ((snapshotMagicBytes ++ putUint32 1 ++ res).drop 4).take 4 = putUint32 1 := by
      rw [List.append_assoc, List.drop_left' hmagic]
      exact List.take_left' (by simp [putUint32])
    rw [this]
    exact leDecode_leEncode_of_lt (by norm_num)
  unfold parseSnapshot
  rw [hread]
  dsimp only
  rw [if_neg fun hc => hc h1, if_neg fun hc => hc h2]

/-- A header of 16 bytes with the magic and the version. -/
lemma header_eq {hdr : Bytes} (hlen : hdr.length = 16) (hm : hdr.take 4 = snapshotMagicBytes)
    (hv : leDecode ((hdr.drop 4).take 4) = snapshotVersion) :
    hdr = snapshotMagicBytes ++ putUint32 1 ++ hdr.drop 8 := by
  have h4 : putUint32 1 = (hdr.drop 4).take 4 := by
    have := leEncode_leDecode ((hdr.drop 4).take 4)
    rw [hv] at this
    rw [← this]
    simp [putUint32, snapshotVersion, hlen]
  have h8 : (hdr.drop 4).take 4 ++ hdr.drop 8 = hdr.drop 4 := by
    rw [show hdr.drop 8 = (hdr.drop 4).drop 4 by rw [List.drop_drop], List.take_append_drop]
  rw [← hm, h4, List.append_assoc, h8, List.take_append_drop]

/-- Either the header is in order, or `DB.Restore` stops at it. -/
lemma header_cases (s : Bytes) :
    (∃ res r, s = snapshotMagicBytes ++ putUint32 1 ++ res ++ r ∧ res.length = 8 ∧
      ∀ k order, DB.restore k order s = DB.update k order fun t => DB.restoreBuckets k t r) ∨
    ∃ e, (∀ lim taken, parseSnapshot lim taken s = .error (.err e)) ∧
      ∀ k order, DB.restore k order s = pure (some e) := by
  unfold parseSnapshot DB.restore
  rcases hr : readFull s 16 with e | ⟨hdr, r⟩
  · exact .inr ⟨_, fun _ _ => rfl, fun _ _ => rfl⟩
  dsimp only
  by_cases hm : hdr.take 4 = snapshotMagicBytes
  swap
  · exact .inr ⟨_, fun _ _ => if_pos hm, fun _ _ => if_pos hm⟩
  simp only [ne_eq, hm, not_true_eq_false, if_false]
  by_cases hv : leDecode ((hdr.drop 4).take 4) = snapshotVersion
  swap
  · exact .inr ⟨_, fun _ _ => if_pos hv, fun _ _ => if_pos hv⟩
  have hr' : readBytes .snapshotHeader s 16 = .ok (hdr, r) := by rw [readBytes, hr]
  obtain ⟨hs, hlen⟩ := readBytes_eq_ok hr'
  refine .inl ⟨hdr.drop 8, r, ?_, by simp [show hdr.length = 16 from hlen],
    fun _ _ => if_neg fun hc => hc hv⟩
  rw [← header_eq hlen hm hv]
  exact hs

/-- The snapshots that are accepted. -/
lemma parseSnapshot_eq_ok (hlim : 2 ^ 32 ≤ lim) : parseSnapshot lim taken s = .ok V ↔
    ∃ res L tail, Bmsp s res L tail ∧ (∀ x ∈ L, taken x.1 = false) ∧ V = recordMaps .empty L := by
  constructor
  · intro h
    rcases header_cases s with ⟨res, r, rfl, hres, -⟩ | ⟨e, he, -⟩
    · rw [parseSnapshot_eq hres] at h
      obtain ⟨L, tail, rfl, h2, h3, h4⟩ := (parseBuckets_eq_ok hlim).1 h
      exact ⟨res, L, tail, ⟨by simp, hres, fun x hx => (h3 x hx).1, h4⟩,
        fun x hx => (h3 x hx).2.1, h2⟩
    · rw [he] at h
      cases h
  · rintro ⟨res, L, tail, ⟨rfl, hres, hrec, hnd⟩, ht, rfl⟩
    rw [List.append_assoc, List.append_assoc, ← List.append_assoc (L.flatMap _),
      parseSnapshot_eq hres]
    exact (parseBuckets_eq_ok hlim).2
      ⟨L, tail, rfl, rfl, fun x hx => ⟨hrec x hx, ht x hx, rfl⟩, hnd⟩

/-! ## Lengths over the limit -/

/-- A stretch of pairs that is followed by a value whose length is over the limit. -/
def OverlongPairs (lim : Nat) (l : List (Bytes × Bytes)) (r : Bytes) : Prop :=
  ∃ k buf rest, r = l.flatMap encodePair ++ (putUint32 k.length ++ k ++ buf ++ rest) ∧ k ≠ [] ∧
    k.length < 2 ^ 32 ∧ buf.length = 8 ∧ lim < leDecode buf

/-- A snapshot up to a value whose length is over the limit: the header, the records `L` and the
pairs of the record `x` in front of the value are in order, and the names are new. -/
def Overlong (lim : Nat) (taken : Name → Bool) (s : Bytes) : Prop :=
  ∃ res L x r, s = snapshotMagicBytes ++ putUint32 1 ++ res ++ L.flatMap encodeRecord ++
      putUint32 x.1.length ++ x.1 ++ r ∧ res.length = 8 ∧ OverlongPairs lim x.2 r ∧
    (∀ y ∈ L ++ [x], RecordOK y ∧ taken y.1 = false) ∧ ((L ++ [x]).map Prod.fst).Nodup

lemma parsePairs_eq_overlong (hlim : 2 ^ 32 ≤ lim) : parsePairs lim m r = .error .overlong ↔
    ∃ l, OverlongPairs lim l r ∧
      ∀ p ∈ l, 1 ≤ p.1.length ∧ p.1.length ≤ 32768 ∧ p.2.length ≤ 2 ^ 31 - 2 := by
  constructor
  · intro h
    fun_induction parsePairs lim m r with
    | case1 m r s hn =>
      cases h
      obtain ⟨k, buf, rest, hr, hk⟩ := (nextPair_eq_overlong hlim).1 hn
      exact ⟨[], ⟨k, buf, rest, hr, hk⟩, nofun⟩
    | case2 => cases h
    | case3 => cases h
    | case4 m r k v rest' hn hp ih =>
      obtain ⟨l, ⟨k', buf, rest, hr, hk⟩, hl⟩ := ih h
      refine ⟨(k, v) :: l, ⟨k', buf, rest, ?_, hk⟩, fun p hp' => ?_⟩
      · rw [(nextPair_eq_some.1 hn).1, hr]
        simp
      · rcases List.mem_cons.1 hp' with rfl | hp'
        · exact put_result_eq_none.1 hp
        · exact hl p hp'
  · rintro ⟨l, ⟨k', buf, rest, hr, hk⟩, hl⟩
    induction l generalizing m r with
    | nil =>
      have hn : nextPair lim r = .error .overlong :=
        (nextPair_eq_overlong hlim).2 ⟨k', buf, rest, hr, hk⟩
      rw [parsePairs]
      split <;> simp_all
    | cons p l ih =>
      obtain ⟨k, v⟩ := p
      obtain ⟨h1, h2, h3⟩ := hl (k, v) (by simp)
      dsimp only at h1 h2 h3
      have hn : nextPair lim r =
          .ok (some (k, v),
            l.flatMap encodePair ++ (putUint32 k'.length ++ k' ++ buf ++ rest)) := by
        refine nextPair_eq_some.2 ⟨by rw [hr]; simp, ?_, by omega, by omega, by omega, by omega⟩
        rintro rfl
        simp at h1
      have := ih (m := m.insert k v) (fun p hp => hl p (by simp [hp])) rfl
      rw [parsePairs]
      split
      next e => rw [hn] at e; cases e
      next e => rw [hn] at e; cases e
      next e =>
        rw [hn] at e
        cases e
        rw [put_result_eq_none.2 ⟨h1, h2, h3⟩]
        exact this

lemma get_recordMaps (hV : V.get name = none) (hL : ∀ x ∈ L, x.1 ≠ name) :
    (recordMaps V L).get name = none := by
  unfold recordMaps
  rw [SortedMap.get_insertAll_of_notMem _ fun hm => ?_, hV]
  rw [List.map_map] at hm
  obtain ⟨x, hx, e⟩ := List.mem_map.1 hm
  exact hL x hx e

lemma parseBuckets_eq_overlong (hlim : 2 ^ 32 ≤ lim) :
    parseBuckets lim taken V r = .error .overlong ↔
    ∃ L x r', r = L.flatMap encodeRecord ++ (putUint32 x.1.length ++ x.1 ++ r') ∧
      OverlongPairs lim x.2 r' ∧
      (∀ y ∈ L ++ [x], RecordOK y ∧ taken y.1 = false ∧ V.get y.1 = none) ∧
      ((L ++ [x]).map Prod.fst).Nodup := by
  constructor
  · intro h
    fun_induction parseBuckets lim taken V r with
    | case1 V r s hn =>
      cases h
      exact absurd hn (nextName_ne_overlong hlim)
    | case2 => cases h
    | case3 => cases h
    | case4 V r name rest hn ht s hp =>
      cases h
      obtain ⟨l, ho, hl⟩ := (parsePairs_eq_overlong hlim).1 hp
      obtain ⟨hr, hname, hlen, -⟩ := nextName_eq_some.1 hn
      simp only [Bool.or_eq_true, Option.isSome_iff_ne_none, not_or, Bool.not_eq_true,
        not_not] at ht
      refine ⟨[], (name, l), rest, hr, ho, fun y hy => ?_, by simp⟩
      obtain rfl := List.mem_singleton.1 hy
      exact ⟨⟨hname, hlen, hl⟩, ht⟩
    | case5 V r name rest hn ht m rest' hp ih =>
      obtain ⟨L, x, r', h1, h2, h3, h4⟩ := ih h
      obtain ⟨l, hl1, hl2, hl3⟩ := (parsePairs_eq_ok hlim).1 hp
      obtain ⟨hr, hname, hlen, -⟩ := nextName_eq_some.1 hn
      simp only [Bool.or_eq_true, Option.isSome_iff_ne_none, not_or, Bool.not_eq_true,
        not_not] at ht
      have hne : ∀ y ∈ L ++ [x], y.1 ≠ name ∧ V.get y.1 = none := by
        intro y hy
        have hy' := (h3 y hy).2.2
        rw [SortedMap.get_insert] at hy'
        split at hy'
        · cases hy'
        next hyn => exact ⟨hyn, hy'⟩
      refine ⟨(name, l) :: L, x, r', ?_, h2, fun y hy => ?_, ?_⟩
      · rw [hr, hl1, h1]
        simp [encodeRecord]
      · rcases List.mem_cons.1 hy with rfl | hy
        · exact ⟨⟨hname, hlen, hl3⟩, ht⟩
        · exact ⟨(h3 y hy).1, (h3 y hy).2.1, (hne y hy).2⟩
      · rw [List.cons_append, List.map_cons, List.nodup_cons]
        refine ⟨fun hm => ?_, h4⟩
        obtain ⟨y, hy, e⟩ := List.mem_map.1 hm
        exact (hne y hy).1 e
  · rintro ⟨L, x, r', rfl, ho, hL, hnd⟩
    rw [List.map_append, List.nodup_append] at hnd
    obtain ⟨hx, ht, hV⟩ := hL x (by simp)
    rw [parseBuckets_records hlim (fun y hy => hL y (by simp [hy])) hnd.1,
      parseBuckets_name hlim hx ht (get_recordMaps hV fun y hy =>
        hnd.2.2 y.1 (List.mem_map_of_mem hy) x.1 (by simp)),
      (parsePairs_eq_overlong hlim).2 ⟨x.2, ho, hx.pairs⟩]

/-- The snapshots at which `make` panics. -/
lemma parseSnapshot_eq_overlong (hlim : 2 ^ 32 ≤ lim) :
    parseSnapshot lim taken s = .error .overlong ↔ Overlong lim taken s := by
  constructor
  · intro h
    rcases header_cases s with ⟨res, r, rfl, hres, -⟩ | ⟨e, he, -⟩
    · rw [parseSnapshot_eq hres] at h
      obtain ⟨L, x, r', rfl, h2, h3, h4⟩ := (parseBuckets_eq_overlong hlim).1 h
      exact ⟨res, L, x, r', by simp, hres, h2, fun y hy => ⟨(h3 y hy).1, (h3 y hy).2.1⟩, h4⟩
    · rw [he] at h
      cases h
  · rintro ⟨res, L, x, r, rfl, hres, ho, hL, hnd⟩
    rw [List.append_assoc, List.append_assoc, List.append_assoc, ← List.append_assoc (putUint32 _),
      parseSnapshot_eq hres]
    exact (parseBuckets_eq_overlong hlim).2 ⟨L, x, r, rfl, ho,
      fun y hy => ⟨(hL y hy).1, (hL y hy).2, rfl⟩, hnd⟩

/-! ## One decomposition only -/

/-- The pairs of a record and what follows it are determined. -/
lemma pairs_unique {l1 l2 : List (Bytes × Bytes)} {r1 r2 : Bytes}
    (h1 : ∀ p ∈ l1, 1 ≤ p.1.length ∧ p.1.length ≤ 32768 ∧ p.2.length ≤ 2 ^ 31 - 2)
    (h2 : ∀ p ∈ l2, 1 ≤ p.1.length ∧ p.1.length ≤ 32768 ∧ p.2.length ≤ 2 ^ 31 - 2)
    (e : l1.flatMap encodePair ++ putUint32 0 ++ r1 = l2.flatMap encodePair ++ putUint32 0 ++ r2) :
    l1 = l2 ∧ r1 = r2 := by
  have hend : ∀ r, nextPair (2 ^ 32) (putUint32 0 ++ r) = .ok (none, r) :=
    fun r => nextPair_eq_none.2 rfl
  have hcons : ∀ (p : Bytes × Bytes) (r : Bytes),
      (1 ≤ p.1.length ∧ p.1.length ≤ 32768 ∧ p.2.length ≤ 2 ^ 31 - 2) →
      nextPair (2 ^ 32) (encodePair p ++ r) = .ok (some p, r) := by
    rintro ⟨k, v⟩ r ⟨hk, hk', hv⟩
    dsimp only at hk hk' hv
    refine nextPair_eq_some.2 ⟨rfl, ?_, by omega, by omega, by omega, by omega⟩
    rintro rfl
    simp at hk
  induction l1 generalizing l2 with
  | nil =>
    cases l2 with
    | nil => exact ⟨rfl, List.append_cancel_left e⟩
    | cons p l2 =>
      have ha := hend r1
      rw [show putUint32 0 ++ r1 = encodePair p ++ (l2.flatMap encodePair ++ putUint32 0 ++ r2) by
        simpa using e, hcons p _ (h2 p (by simp))] at ha
      cases ha
  | cons q l1 ih =>
    cases l2 with
    | nil =>
      have ha := hend r2
      rw [show putUint32 0 ++ r2 = encodePair q ++ (l1.flatMap encodePair ++ putUint32 0 ++ r1) by
        simpa using e.symm, hcons q _ (h1 q (by simp))] at ha
      cases ha
    | cons p l2 =>
      have ha := hcons q (l1.flatMap encodePair ++ putUint32 0 ++ r1) (h1 q (by simp))
      rw [show encodePair q ++ (l1.flatMap encodePair ++ putUint32 0 ++ r1) =
        encodePair p ++ (l2.flatMap encodePair ++ putUint32 0 ++ r2) by simpa using e,
        hcons p _ (h2 p (by simp))] at ha
      injection ha with ha
      injection ha with hp hr
      cases hp
      obtain ⟨rfl, rfl⟩ :=
        ih (fun x hx => h1 x (by simp [hx])) (fun x hx => h2 x (by simp [hx])) hr.symm
      exact ⟨rfl, rfl⟩

/-- The records and the trailing bytes are determined. -/
lemma records_unique {L1 L2 : List (Name × List (Bytes × Bytes))} {t1 t2 : Bytes}
    (h1 : ∀ x ∈ L1, RecordOK x) (h2 : ∀ x ∈ L2, RecordOK x)
    (e : L1.flatMap encodeRecord ++ putUint32 0 ++ t1 =
      L2.flatMap encodeRecord ++ putUint32 0 ++ t2) :
    L1 = L2 ∧ t1 = t2 := by
  have hend : ∀ r, nextName (2 ^ 32) (putUint32 0 ++ r) = .ok (none, r) :=
    fun r => nextName_eq_none.2 rfl
  have hcons : ∀ (x : Name × List (Bytes × Bytes)) (r : Bytes), RecordOK x →
      nextName (2 ^ 32) (encodeRecord x ++ r) =
        .ok (some x.1, x.2.flatMap encodePair ++ putUint32 0 ++ r) := fun x r hx =>
    nextName_eq_some.2 ⟨by simp [encodeRecord], hx.name, hx.nameLen, hx.nameLen.le⟩
  induction L1 generalizing L2 with
  | nil =>
    cases L2 with
    | nil => exact ⟨rfl, List.append_cancel_left e⟩
    | cons x L2 =>
      have ha := hend t1
      rw [show putUint32 0 ++ t1 =
        encodeRecord x ++ (L2.flatMap encodeRecord ++ putUint32 0 ++ t2) by
        simpa using e, hcons x _ (h2 x (by simp))] at ha
      cases ha
  | cons y L1 ih =>
    cases L2 with
    | nil =>
      have ha := hend t2
      rw [show putUint32 0 ++ t2 =
        encodeRecord y ++ (L1.flatMap encodeRecord ++ putUint32 0 ++ t1) by
        simpa using e.symm, hcons y _ (h1 y (by simp))] at ha
      cases ha
    | cons x L2 =>
      have ha := hcons y (L1.flatMap encodeRecord ++ putUint32 0 ++ t1) (h1 y (by simp))
      rw [show encodeRecord y ++ (L1.flatMap encodeRecord ++ putUint32 0 ++ t1) =
        encodeRecord x ++ (L2.flatMap encodeRecord ++ putUint32 0 ++ t2) by simpa using e,
        hcons x _ (h2 x (by simp))] at ha
      injection ha with ha
      injection ha with hn hr
      obtain ⟨hl, hr⟩ := pairs_unique (h2 x (by simp)).pairs (h1 y (by simp)).pairs hr
      obtain ⟨rfl, rfl⟩ :=
        ih (fun z hz => h1 z (by simp [hz])) (fun z hz => h2 z (by simp [hz])) hr.symm
      exact ⟨by rw [Prod.ext (Option.some.inj hn).symm hl.symm], rfl⟩

/-- A string has one decomposition. -/
lemma Bmsp.unique {res1 res2 tail1 tail2 : Bytes} {L1 L2 : List (Name × List (Bytes × Bytes))}
    (h1 : Bmsp s res1 L1 tail1) (h2 : Bmsp s res2 L2 tail2) :
    res1 = res2 ∧ L1 = L2 ∧ tail1 = tail2 := by
  have e := h1.eq.symm.trans h2.eq
  simp only [List.append_assoc] at e
  have e := List.append_cancel_left (List.append_cancel_left e)
  obtain ⟨hres, e⟩ := List.append_inj e (h1.reserved.trans h2.reserved.symm)
  obtain ⟨hL, htail⟩ := records_unique h1.records h2.records (by simpa using e)
  exact ⟨hres, hL, htail⟩

/-! ## What `Tx.WriteTo` produces -/

/-- The buckets can be written down: a name has a length that fits, and the pairs have sizes that
`Bucket.Put` admits. -/
def Writes (V : SortedMap Name (SortedMap Bytes Bytes)) : Prop :=
  ∀ x ∈ V.entries, RecordOK (x.1, x.2.entries)

lemma encode_bmsp (h : Writes V) : Bmsp (encode V) (putUint32 0 ++ putUint32 0)
    (V.entries.map fun x => (x.1, x.2.entries)) [] where
  eq := by
    simp only [encode, snapshotHeader, snapshotVersion, List.flatMap_map, List.append_assoc,
      List.append_nil]
    rfl
  reserved := by simp [putUint32]
  records x hx := by
    obtain ⟨y, hy, rfl⟩ := List.mem_map.1 hx
    exact h y hy
  distinct := by
    rw [List.map_map]
    exact (List.pairwise_map.2 (V.sorted.imp fun h => h.ne) : (V.entries.map Prod.fst).Nodup)

/-- The records of a snapshot that was written stand for the buckets. -/
lemma recordMaps_encode : recordMaps .empty (V.entries.map fun x => (x.1, x.2.entries)) = V := by
  have : (V.entries.map fun x => (x.1, x.2.entries)).map
      (fun x => (x.1, SortedMap.empty.insertAll x.2)) = V.entries := by
    rw [List.map_map]
    conv_rhs => rw [← List.map_id V.entries]
    refine List.map_congr_left fun x _ => ?_
    exact Prod.ext rfl x.2.insertAll_entries
  unfold recordMaps
  rw [this]
  exact V.insertAll_entries

/-- No strict prefix of a snapshot that was written is a snapshot. -/
lemma encode_no_strict_prefix (h : Writes V) (hs : s <+: encode V) (hne : s ≠ encode V) :
    ¬ Bmsp s res L tail := by
  intro hb
  obtain ⟨q, hq⟩ := hs
  have hb' : Bmsp (encode V) res L (tail ++ q) :=
    ⟨by rw [← hq, hb.eq, List.append_assoc], hb.reserved, hb.records, hb.distinct⟩
  have := (hb'.unique (encode_bmsp h)).2.2
  obtain ⟨-, rfl⟩ := List.append_eq_nil_iff.1 this
  exact hne (by rw [← hq, List.append_nil])

end

end Vmbolt
