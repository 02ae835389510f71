import Mathlib.Data.Nat.Basic
import Mathlib.Tactic.Ring

/-!
# Little-endian bytes

Naturals as lists of bytes, least significant byte first. A number that fits into `k` bytes
survives the encoding (`decode_encode_of_lt`); a larger one loses its high part (`decode_encode`).
Bytes always survive the decoding (`encode_decode`).

The length of the encoding is a parameter and not computed from the number: a record has room for so
many bytes, whatever is stored in it. `encode` and `decode` are structural in the number of bytes,
and so are the proofs.
-/

namespace LittleEndian

/-- The `k` low bytes of a number, least significant first. -/
def encode : ℕ → ℕ → List UInt8
  | 0, _ => []
  | k + 1, n => .ofNat n :: encode k (n / 256)

/-- The number written in a list of bytes. -/
def decode : List UInt8 → ℕ
  | [] => 0
  | b :: bs => b.toNat + 256 * decode bs

/-- The encoding has as many bytes as it has room for. -/
@[simp] theorem length_encode (k n : ℕ) : (encode k n).length = k := by
  induction k generalizing n with
  | zero => rfl
  | succ k ih => rw [encode, List.length_cons, ih]

/-- **Decoding undoes encoding**, up to the part that the bytes have no room for. -/
theorem decode_encode (k n : ℕ) : decode (encode k n) = n % 256 ^ k := by
  induction k generalizing n with
  | zero => rw [pow_zero, Nat.mod_one]; rfl
  | succ k ih =>
    have hbyte : (UInt8.ofNat n).toNat = n % 256 := rfl
    rw [encode, decode, ih, hbyte, pow_succ', Nat.mod_mul]

theorem decode_encode_of_lt {k n : ℕ} (h : n < 256 ^ k) : decode (encode k n) = n := by
  rw [decode_encode, Nat.mod_eq_of_lt h]

/-- So many bytes hold a number below that power of 256. -/
theorem decode_lt (bytes : List UInt8) : decode bytes < 256 ^ bytes.length := by
  induction bytes with
  | nil => exact Nat.one_pos
  | cons b bytes ih =>
    have hbyte := b.toNat_lt
    rw [decode, List.length_cons, pow_succ']
    omega

/-- **Encoding undoes decoding**, on as many bytes as were decoded. -/
theorem encode_decode (bytes : List UInt8) : encode bytes.length (decode bytes) = bytes := by
  -- on the bytes: the first one is the remainder by 256, the others are the quotient
  induction bytes with
  | nil => rfl
  | cons b bytes ih =>
    have hlow : UInt8.ofNat (b.toNat + 256 * decode bytes) = b := by
      rw [← UInt8.toNat_inj, UInt8.toNat_ofNat']
      have := b.toNat_lt
      omega
    have hhigh : (b.toNat + 256 * decode bytes) / 256 = decode bytes := by
      have := b.toNat_lt
      omega
    rw [List.length_cons, decode, encode, hlow, hhigh, ih]

end LittleEndian
