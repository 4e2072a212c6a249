import Mathlib.Algebra.Order.Ring.Nat
import Mathlib.Data.Nat.Digits.Defs
import Mathlib.Tactic.Lemma
import Mathlib.Tactic.Ring

/-!
# Little-endian numbers

Fixed-width little-endian encoding of natural numbers into bytes, and its two round trips.
-/

namespace Vmbolt

/-- The low `k` bytes of `v`, least significant first. -/
def leEncode : Nat → Nat → List (Fin 256)
  | 0, _ => []
  | k + 1, v => ⟨v % 256, Nat.mod_lt _ (by decide)⟩ :: leEncode k (v / 256)

/-- The number a list of bytes stands for, least significant first. -/
def leDecode : List (Fin 256) → Nat
  | [] => 0
  | b :: l => b.val + 256 * leDecode l

@[simp] lemma length_leEncode (k v : Nat) : (leEncode k v).length = k := by
  induction k generalizing v with
  | zero => rfl
  | succ k ih => simp [leEncode, ih]

/-- Decoding an encoded number gives it back up to the width. -/
lemma leDecode_leEncode (k v : Nat) : leDecode (leEncode k v) = v % 256 ^ k := by
  induction k generalizing v with
  | zero => simp [leEncode, leDecode, Nat.mod_one]
  | succ k ih =>
    simp only [leEncode, leDecode, ih]
    rw [pow_succ', Nat.mod_mul]

/-- A number that fits is decoded unchanged. -/
lemma leDecode_leEncode_of_lt {k v : Nat} (h : v < 256 ^ k) : leDecode (leEncode k v) = v := by
  rw [leDecode_leEncode, Nat.mod_eq_of_lt h]

/-- Encoding a decoded number gives the bytes back. -/
lemma leEncode_leDecode (l : List (Fin 256)) : leEncode l.length (leDecode l) = l := by
  induction l with
  | nil => rfl
  | cons b l ih =>
    have h1 : (b.val + 256 * leDecode l) % 256 = b.val := by omega
    have h2 : (b.val + 256 * leDecode l) / 256 = leDecode l := by omega
    simp only [List.length_cons, leEncode, leDecode, h1, h2, ih]

/-- Bytes stand for a number below the width. -/
lemma leDecode_lt (l : List (Fin 256)) : leDecode l < 256 ^ l.length := by
  induction l with
  | nil => simp [leDecode]
  | cons b l ih =>
    simp only [leDecode, List.length_cons, pow_succ']
    omega

end Vmbolt
