import Mathlib.Data.Nat.Basic
import Mathlib.Tactic

/-!
# Big-endian byte strings of fixed width

`encode w n` : the `w` low base-256 digits of `n`, most significant first; `decode` reads a byte string as a
base-256 numeral. `decode_encode` and `encode_decode` are the two round trips.
-/

namespace BigEndian

def encode : Nat → Nat → List UInt8
  | 0, _ => []
  | w + 1, n => encode w (n / 256) ++ [UInt8.ofNat n]

def decode (bs : List UInt8) : Nat := bs.foldl (fun acc b => acc * 256 + b.toNat) 0

@[simp] theorem length_encode (w n : Nat) : (encode w n).length = w := by
  induction w generalizing n with
  | zero => rfl
  | succ w ih => simp [encode, ih]

theorem decode_concat (bs : List UInt8) (b : UInt8) : decode (bs ++ [b]) = decode bs * 256 + b.toNat := by
  simp [decode]

theorem decode_lt (bs : List UInt8) : decode bs < 256 ^ bs.length := by
  induction bs using List.reverseRecOn with
  | nil => simp [decode]
  | append_singleton bs b ih =>
    have hb := b.toNat_lt
    rw [decode_concat, List.length_append, List.length_singleton, pow_succ]
    omega

theorem decode_encode_mod (w n : Nat) : decode (encode w n) = n % 256 ^ w := by
  induction w generalizing n with
  | zero => simp [encode, decode, Nat.mod_one]
  | succ w ih =>
    have hsplit : n % 256 ^ (w + 1) = n % 256 + 256 * (n / 256 % 256 ^ w) := by
      rw [pow_succ, Nat.mul_comm, Nat.mod_mul]
    rw [encode, decode_concat, ih, hsplit, UInt8.toNat_ofNat']
    omega

theorem decode_encode {w n : Nat} (h : n < 256 ^ w) : decode (encode w n) = n := by
  rw [decode_encode_mod, Nat.mod_eq_of_lt h]

theorem encode_decode (bs : List UInt8) : encode bs.length (decode bs) = bs := by
  induction bs using List.reverseRecOn with
  | nil => rfl
  | append_singleton bs b ih =>
    have hb := b.toNat_lt
    have hdiv : (decode bs * 256 + b.toNat) / 256 = decode bs := by omega
    have hbyte : UInt8.ofNat (decode bs * 256 + b.toNat) = b := by
      apply UInt8.toNat_inj.mp
      rw [UInt8.toNat_ofNat']
      omega
    rw [List.length_append, List.length_singleton, encode, decode_concat, hdiv, ih, hbyte]

end BigEndian
