import Mathlib

/-! Integers packed into bytes: the little-endian value of a list of bytes, bit fields of it,
and two's complement of any width. -/

namespace ByteField

/-- The value of the bytes, least significant first. -/
def little : List (BitVec 8) → Nat
  | [] => 0
  | b :: bytes => b.toNat + 256 * little bytes

def unsigned (bytes : List (BitVec 8)) (start length : Nat) : Nat :=
  (little bytes >>> start) &&& (1 <<< length - 1)

def signedOf (length raw : Nat) : Int :=
  if raw ≥ 1 <<< (length - 1) then (raw : Int) - 2 ^ length else raw

def signed (bytes : List (BitVec 8)) (start length : Nat) : Int :=
  signedOf length (unsigned bytes start length)

def low (n : Nat) (x : Int) : Nat := (x % 2 ^ n).toNat

theorem low_lt (n : Nat) (x : Int) : low n x < 2 ^ n := by
  have hpos : (0 : Int) < 2 ^ n := by positivity
  have hlt := Int.emod_lt_of_pos x hpos
  have hnn := Int.emod_nonneg x hpos.ne'
  rw [low, Int.toNat_lt hnn]
  exact_mod_cast hlt

theorem low_of_nonneg {n : Nat} {x : Int} (h0 : 0 ≤ x) (hx : x < 2 ^ n) : (low n x : Int) = x := by
  rw [low, Int.emod_eq_of_lt h0 hx, Int.toNat_of_nonneg h0]

theorem low_of_neg {n : Nat} {x : Int} (h0 : x < 0) (hx : -2 ^ n ≤ x) :
    (low n x : Int) = x + 2 ^ n := by
  have hemod : x % 2 ^ n = x + 2 ^ n := by
    rw [← Int.add_emod_right, Int.emod_eq_of_lt (by omega) (by omega)]
  rw [low, hemod, Int.toNat_of_nonneg (by omega)]

/-- A number within range survives the wrap to two's complement and back. -/
theorem signedOf_low {n : Nat} {x : Int} (h : -2 ^ n ≤ x ∧ x < 2 ^ n) :
    signedOf (n + 1) (low (n + 1) x) = x := by
  have hpow : (2 : Int) ^ (n + 1) = 2 * 2 ^ n := by ring
  have hsign : low (n + 1) x ≥ 1 <<< n ↔ (2 : Int) ^ n ≤ low (n + 1) x := by
    rw [Nat.shiftLeft_eq, one_mul, ge_iff_le, ← Int.ofNat_le]
    push_cast
    rfl
  unfold signedOf
  rw [Nat.add_sub_cancel]
  rcases lt_or_ge x 0 with h0 | h0
  · have hlow := low_of_neg (n := n + 1) h0 (by omega)
    rw [if_pos (hsign.mpr (by omega)), hlow]
    omega
  · have hlow := low_of_nonneg (n := n + 1) h0 (by omega)
    rw [if_neg (fun hh => absurd (hsign.mp hh) (by omega)), hlow]

theorem unsigned_eq (bytes : List (BitVec 8)) (start length : Nat) :
    unsigned bytes start length = little bytes / 2 ^ start % 2 ^ length := by
  rw [unsigned, Nat.shiftRight_eq_div_pow, Nat.shiftLeft_eq, one_mul,
    Nat.and_two_pow_sub_one_eq_mod]

theorem little_pair (a b : BitVec 8) : little [a, b] = a.toNat + 256 * b.toNat := by
  simp [little]

theorem or_shift (a b : BitVec 8) : a.toNat ||| (b.toNat <<< 8) = a.toNat + 256 * b.toNat := by
  have ha := a.isLt
  rw [Nat.or_comm, ← Nat.shiftLeft_add_eq_or_of_lt ha, Nat.shiftLeft_eq]
  omega

end ByteField
