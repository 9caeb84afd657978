import Mathlib

set_option autoImplicit false

/-!
# Bits of a 32-bit counter

A loop that walks up the bits of a `uint32_t` counter tests `count & (1 << level)`
and adds `1 << level` to it. Read through `toNat`, the test is `Nat.testBit` and
the sum is taken modulo `2 ^ 32`; the lemmas on multiples of powers of two are
what tells where such a walk stops and when the counter wraps.
-/

namespace Bits

theorem toNat_one_shiftLeft {level : Nat} (below : level < 32) :
    ((1 : UInt32) <<< level.toUInt32).toNat = 2 ^ level := by
  have small : 2 ^ level < 2 ^ 32 := Nat.pow_lt_pow_right (by decide) below
  rw [UInt32.toNat_shiftLeft]
  simp only [UInt32.toNat_one, Nat.toUInt32, UInt32.toNat_ofNat']
  rw [Nat.mod_eq_of_lt (by omega : level < 2 ^ 32), Nat.mod_eq_of_lt below, Nat.one_shiftLeft,
    Nat.mod_eq_of_lt small]

theorem and_one_shiftLeft_eq_zero {level : Nat} (below : level < 32) (count : UInt32) :
    (count &&& (1 : UInt32) <<< level.toUInt32 == 0) = !count.toNat.testBit level := by
  have masked : (count &&& (1 : UInt32) <<< level.toUInt32).toNat =
      (count.toNat.testBit level).toNat * 2 ^ level := by
    rw [UInt32.toNat_and, toNat_one_shiftLeft below, Nat.and_two_pow]
  cases set : count.toNat.testBit level with
  | false =>
    rw [set] at masked
    simp only [Bool.toNat_false, zero_mul] at masked
    simp [← UInt32.toNat_inj, masked]
  | true =>
    rw [set] at masked
    simp only [Bool.toNat_true, one_mul] at masked
    simp [← UInt32.toNat_inj, masked]

theorem toNat_add_one_shiftLeft {level : Nat} (below : level < 32) (count : UInt32) :
    (count + (1 : UInt32) <<< level.toUInt32).toNat = (count.toNat + 2 ^ level) % 2 ^ 32 := by
  rw [UInt32.toNat_add, toNat_one_shiftLeft below]

theorem ne_one_shiftLeft_iff {level : Nat} (below : level < 32) (count : UInt32) :
    (count != (1 : UInt32) <<< level.toUInt32) = true ↔ count.toNat ≠ 2 ^ level := by
  rw [bne_iff_ne, ne_eq, ← UInt32.toNat_inj, toNat_one_shiftLeft below]

theorem mod_two_pow_succ_eq_zero {count level : Nat} (aligned : count % 2 ^ level = 0)
    (clear : count.testBit level = false) : count % 2 ^ (level + 1) = 0 := by
  rw [Nat.mod_pow_succ, aligned]
  have even : count / 2 ^ level % 2 = 0 := by
    rw [Nat.testBit_eq_decide_div_mod_eq] at clear
    simp only [decide_eq_false_iff_not] at clear
    omega
  rw [even, Nat.mul_zero]

theorem add_two_pow_mod_succ {count level : Nat} (aligned : count % 2 ^ level = 0)
    (set : count.testBit level = true) : (count + 2 ^ level) % 2 ^ (level + 1) = 0 := by
  have odd : count / 2 ^ level % 2 = 1 := by
    rw [Nat.testBit_eq_decide_div_mod_eq] at set
    simpa using set
  obtain ⟨q, rfl⟩ := Nat.dvd_of_mod_eq_zero aligned
  have positive : 0 < 2 ^ level := Nat.two_pow_pos level
  rw [Nat.mul_div_cancel_left q positive] at odd
  rw [Nat.pow_succ, show 2 ^ level * q + 2 ^ level = 2 ^ level * (q + 1) by ring,
    Nat.mul_mod_mul_left]
  have carried : (q + 1) % 2 = 0 := by omega
  rw [carried, Nat.mul_zero]

theorem add_two_pow_le {count level width : Nat} (aligned : count % 2 ^ level = 0)
    (fits : count < 2 ^ width) (within : level ≤ width) : count + 2 ^ level ≤ 2 ^ width := by
  obtain ⟨q, rfl⟩ := Nat.dvd_of_mod_eq_zero aligned
  have split : 2 ^ width = 2 ^ level * 2 ^ (width - level) := by
    rw [← Nat.pow_add, Nat.add_sub_cancel' within]
  rw [split] at fits ⊢
  have fewer : q < 2 ^ (width - level) := Nat.lt_of_mul_lt_mul_left fits
  calc 2 ^ level * q + 2 ^ level = 2 ^ level * (q + 1) := by ring
    _ ≤ 2 ^ level * 2 ^ (width - level) := Nat.mul_le_mul_left _ fewer

theorem lt_of_testBit {count level width : Nat} (fits : count < 2 ^ width)
    (set : count.testBit level = true) : level < width := by
  by_contra above
  have clear := Nat.testBit_lt_two_pow (lt_of_lt_of_le fits
    (Nat.pow_le_pow_right (by decide) (Nat.le_of_not_lt above)))
  rw [clear] at set
  cases set

theorem eq_of_testBit_two_pow {level width : Nat} (set : (2 ^ width).testBit level = true) :
    level = width := by
  rw [Nat.testBit_two_pow] at set
  simpa [eq_comm] using set

theorem testBit_add_two_pow {count level : Nat} (aligned : count % 2 ^ (level + 1) = 0) (i : Nat) :
    (count + 2 ^ level).testBit i = (count.testBit i || decide (i = level)) := by
  obtain ⟨q, rfl⟩ := Nat.dvd_of_mod_eq_zero aligned
  have small : 2 ^ level < 2 ^ (level + 1) := Nat.pow_lt_pow_succ (by norm_num)
  rw [Nat.testBit_two_pow_mul_add q small, Nat.testBit_two_pow_mul]
  by_cases low : i < level + 1
  · rw [if_pos low, Nat.testBit_two_pow, decide_eq_false (by omega : ¬i ≥ level + 1), Bool.false_and,
      Bool.false_or]
    simp only [eq_comm]
  · rw [if_neg low, decide_eq_true (by omega : i ≥ level + 1), Bool.true_and,
      decide_eq_false (by omega : ¬i = level), Bool.or_false]

theorem testBit_add_two_pow_iff {count level : Nat} (aligned : count % 2 ^ (level + 1) = 0) (i : Nat) :
    (count + 2 ^ level).testBit i = true ↔ i = level ∨ count.testBit i = true := by
  rw [testBit_add_two_pow aligned, Bool.or_eq_true, decide_eq_true_iff, or_comm]

theorem two_pow_le_of_aligned {count level : Nat} (aligned : count % 2 ^ level = 0)
    (nonzero : count ≠ 0) : 2 ^ level ≤ count :=
  Nat.le_of_dvd (Nat.pos_of_ne_zero nonzero) (Nat.dvd_of_mod_eq_zero aligned)

theorem lt_of_testBit_of_aligned {count level i : Nat} (aligned : count % 2 ^ (level + 1) = 0)
    (set : count.testBit i = true) : level < i := by
  by_contra low
  have clear : (count % 2 ^ (level + 1)).testBit i = true := by
    rw [Nat.testBit_mod_two_pow, set]
    simp
    omega
  rw [aligned, Nat.zero_testBit] at clear
  cases clear

theorem exists_add_two_pow {count level : Nat} (aligned : count % 2 ^ level = 0)
    (set : count.testBit level = true) : ∃ d, count = d + 2 ^ level ∧ d % 2 ^ (level + 1) = 0 := by
  have odd : count / 2 ^ level % 2 = 1 := by
    rw [Nat.testBit_eq_decide_div_mod_eq] at set
    simpa using set
  obtain ⟨q, rfl⟩ := Nat.dvd_of_mod_eq_zero aligned
  rw [Nat.mul_div_cancel_left q (Nat.two_pow_pos level)] at odd
  refine ⟨2 ^ level * (q - 1), ?_, ?_⟩
  · rw [Nat.mul_sub, Nat.mul_one, Nat.sub_add_cancel (Nat.le_mul_of_pos_right _ (by omega))]
  · rw [Nat.pow_succ, Nat.mul_mod_mul_left]
    have even : (q - 1) % 2 = 0 := by omega
    rw [even, Nat.mul_zero]

theorem testBit_add_two_pow_self (count level : Nat) :
    (count + 2 ^ level).testBit level = !count.testBit level := by
  rw [Nat.add_comm, Nat.testBit_two_pow_add_eq]

end Bits
