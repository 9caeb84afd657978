import Mathlib

set_option autoImplicit false

/-!
# Bit fields of a number

A number split at bit `k` into a high part `a >>> k` and a low part `a &&& m`, with
`m + 1 = 2 ^ k`, and two parts joined as `high <<< k ||| low`. A codec that regroups
bits, bytes into five- or six-bit digits and back, is made of such splits and joins;
each lemma here says that a split undoes the join it faces, or bounds a part.
-/

namespace BitFields

variable {a b k m : Nat}

theorem shiftLeft_or_eq (small : b < 2 ^ k) (a : Nat) : a <<< k ||| b = a * 2 ^ k + b := by
  rw [← Nat.shiftLeft_add_eq_or_of_lt small a, Nat.shiftLeft_eq]

theorem and_mask_eq (mask : m + 1 = 2 ^ k) (a : Nat) : a &&& m = a % 2 ^ k := by
  rw [show m = 2 ^ k - 1 by omega, Nat.and_two_pow_sub_one_eq_mod]

theorem shiftRight_join (small : b < 2 ^ k) (a : Nat) : (a <<< k ||| b) >>> k = a := by
  rw [shiftLeft_or_eq small, Nat.shiftRight_eq_div_pow, Nat.mul_comm,
    Nat.mul_add_div (Nat.two_pow_pos k), Nat.div_eq_of_lt small, Nat.add_zero]

theorem and_join (mask : m + 1 = 2 ^ k) (small : b < 2 ^ k) (a : Nat) : (a <<< k ||| b) &&& m = b := by
  rw [and_mask_eq mask, shiftLeft_or_eq small, Nat.mul_comm, Nat.mul_add_mod, Nat.mod_eq_of_lt small]

theorem and_shiftLeft (mask : m + 1 = 2 ^ k) (a : Nat) : a <<< k &&& m = 0 := by
  rw [and_mask_eq mask, Nat.shiftLeft_eq, Nat.mul_mod_left]

theorem join_split (mask : m + 1 = 2 ^ k) (a : Nat) : a >>> k <<< k ||| a &&& m = a := by
  rw [and_mask_eq mask, shiftLeft_or_eq (Nat.mod_lt _ (Nat.two_pow_pos k)), Nat.shiftRight_eq_div_pow,
    Nat.div_add_mod']

theorem join_lt {j : Nat} (high : a < 2 ^ j) (small : b < 2 ^ k) : a <<< k ||| b < 2 ^ (j + k) := by
  rw [shiftLeft_or_eq small, pow_add]
  calc a * 2 ^ k + b < (a + 1) * 2 ^ k := by rw [Nat.add_mul, Nat.one_mul]; omega
    _ ≤ 2 ^ j * 2 ^ k := Nat.mul_le_mul_right _ high

theorem shiftRight_lt {w : Nat} (fits : a < 2 ^ (w + k)) : a >>> k < 2 ^ w := by
  rw [Nat.shiftRight_eq_div_pow, Nat.div_lt_iff_lt_mul (Nat.two_pow_pos k), ← pow_add]
  exact fits

theorem and_lt (mask : m + 1 = 2 ^ k) (a : Nat) : a &&& m < 2 ^ k := by
  rw [and_mask_eq mask]
  exact Nat.mod_lt _ (Nat.two_pow_pos k)

end BitFields
