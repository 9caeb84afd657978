import Gaiacoin.Arith.BaseUint
import Gaiacoin.Primitives.Transaction

set_option autoImplicit false

/-!
# `base_uint::operator/=`

Long division by shift and subtract. The divisor is shifted up until its top bit
meets the dividend's; each round subtracts it where it fits, sets that bit of the
quotient and shifts it one place back down. `DivideInvariant` is what holds
between rounds: the dividend is the quotient so far times the divisor plus what
is left, what is left is below twice the shifted divisor, and no quotient bit is
set at or below the current position.
-/

namespace Gaiacoin

namespace BaseUint

variable {WIDTH : Nat}

/-- `pn[shift / 32] |= (1 << (shift & 31))`: bit `shift` of the quotient. -/
def setBit (q : BaseUint WIDTH) (shift : Nat) : BaseUint WIDTH :=
  ⟨Limbs.orAt q.pn (shift / 32) ((1 : UInt32) <<< (shift &&& 31).toUInt32), by simp [q.length_pn]⟩

/-- The loop `while (shift >= 0)` with `count` rounds left, the next one for
`shift = count - 1`: where the shifted divisor fits, subtract it and set the
quotient bit; then shift it one place down. -/
def divideLoop : Nat → BaseUint WIDTH → BaseUint WIDTH → BaseUint WIDTH → BaseUint WIDTH
  | 0, _, _, quotient => quotient
  | shift + 1, num, div, quotient =>
    if num.ge div then
      divideLoop shift (num.subAssign div) (div.shiftRightAssign 1) (quotient.setBit shift)
    else divideLoop shift num (div.shiftRightAssign 1) quotient

/-- `operator/=`: `uint_error` for a zero divisor, zero for a divisor with more
bits than the dividend, and otherwise the loop from the aligned divisor. -/
def divAssign (a b : BaseUint WIDTH) : Checked (BaseUint WIDTH) :=
  let num_bits := a.bits
  let div_bits := b.bits
  if div_bits = 0 then throw (.thrown "Division by zero")
  else if div_bits > num_bits then pure zero
  else
    let shift := num_bits - div_bits
    pure (divideLoop (shift + 1) a (b.shiftLeftAssign shift) zero)

theorem value_setBit (q : BaseUint WIDTH) {shift : Nat} (inside : shift < 32 * WIDTH)
    (clear : q.value.testBit shift = false) : (q.setBit shift).value = q.value + 2 ^ shift := by
  have low : shift &&& 31 = shift % 32 := by
    rw [show (31 : Nat) = 2 ^ 5 - 1 from rfl, Nat.and_two_pow_sub_one_eq_mod]
  show Limbs.value (Limbs.orAt q.pn (shift / 32) ((1 : UInt32) <<< (shift &&& 31).toUInt32)) = _
  rw [low, Limbs.value_orAt_bit _ (by rw [q.length_pn]; exact inside) clear]
  rfl

theorem value_subAssign_of_le {a b : BaseUint WIDTH} (fits : b.value ≤ a.value) :
    (a.subAssign b).value = a.value - b.value := by
  have exact := value_subAssign a b
  have below := value_lt a
  have cast : ((2 ^ (32 * WIDTH) : Nat) : Int) = (2 : Int) ^ (32 * WIDTH) := by norm_num
  rw [Int.emod_eq_of_lt (by omega) (by omega)] at exact
  omega

structure DivideInvariant (A B count : Nat) (num div quotient : BaseUint WIDTH) : Prop where
  divisor : 0 < count → div.value = B * 2 ^ (count - 1)
  accounted : num.value + quotient.value * B = A
  remainder : num.value < B * 2 ^ count
  aligned : quotient.value % 2 ^ count = 0

theorem DivideInvariant.step {A B shift : Nat} {num div quotient : BaseUint WIDTH}
    (positive : 0 < B) (holds : DivideInvariant A B (shift + 1) num div quotient) :
    if num.ge div then
      DivideInvariant A B shift (num.subAssign div) (div.shiftRightAssign 1) (quotient.setBit shift)
    else DivideInvariant A B shift num (div.shiftRightAssign 1) quotient := by
  have divisor := holds.divisor (by omega)
  rw [Nat.add_sub_cancel] at divisor
  have twice : B * 2 ^ (shift + 1) = 2 * (B * 2 ^ shift) := by ring
  have remainder := holds.remainder
  rw [twice] at remainder
  -- the divisor shifted one place down, for the rounds that are left
  have down : 0 < shift → (div.shiftRightAssign 1).value = B * 2 ^ (shift - 1) := by
    intro more
    rw [value_shiftRightAssign, divisor, pow_one,
      show B * 2 ^ shift = B * 2 ^ (shift - 1) * 2 by rw [Nat.mul_assoc, ← pow_succ]; congr 2; omega,
      Nat.mul_div_cancel _ (by norm_num)]
  have lowAligned : quotient.value % 2 ^ shift = 0 :=
    Nat.mod_eq_zero_of_dvd (Nat.dvd_trans (pow_dvd_pow 2 (Nat.le_succ shift))
      (Nat.dvd_of_mod_eq_zero holds.aligned))
  rw [ge_eq, divisor]
  by_cases fits : B * 2 ^ shift ≤ num.value
  · -- the shifted divisor fits: subtract it and set quotient bit `shift`
    rw [decide_eq_true fits, if_pos rfl]
    have reach : shift < 32 * WIDTH := by
      have : 2 ^ shift < 2 ^ (32 * WIDTH) :=
        calc 2 ^ shift ≤ B * 2 ^ shift := Nat.le_mul_of_pos_left _ positive
          _ ≤ num.value := fits
          _ < 2 ^ (32 * WIDTH) := value_lt num
      exact (Nat.pow_lt_pow_iff_right (by norm_num)).mp this
    have clear : quotient.value.testBit shift = false := by
      have bit := Nat.testBit_mod_two_pow quotient.value (shift + 1) shift
      rw [holds.aligned, Nat.zero_testBit, decide_eq_true (Nat.lt_succ_self shift),
        Bool.true_and] at bit
      exact bit.symm
    have subtracted : (num.subAssign div).value = num.value - B * 2 ^ shift := by
      rw [value_subAssign_of_le (by rw [divisor]; exact fits), divisor]
    have accounted := holds.accounted
    refine ⟨down, ?_, ?_, ?_⟩
    · rw [subtracted, value_setBit _ reach clear, Nat.add_mul, Nat.mul_comm (2 ^ shift) B]
      omega
    · rw [subtracted]
      omega
    · rw [value_setBit _ reach clear, Nat.add_mod, lowAligned, Nat.mod_self, Nat.add_zero,
        Nat.zero_mod]
  · -- the shifted divisor does not fit: only shift it down
    rw [decide_eq_false fits]
    exact ⟨down, holds.accounted, by omega, lowAligned⟩

theorem value_divideLoop {A B : Nat} (positive : 0 < B) (count : Nat)
    {num div quotient : BaseUint WIDTH} (holds : DivideInvariant A B count num div quotient) :
    (divideLoop count num div quotient).value = A / B := by
  -- induction over the rounds left, with the whole state generalized
  induction count generalizing num div quotient with
  | zero =>
    have remainder := holds.remainder
    rw [pow_zero, Nat.mul_one] at remainder
    rw [divideLoop, ← holds.accounted, Nat.add_mul_div_right _ _ positive,
      Nat.div_eq_of_lt remainder, Nat.zero_add]
  | succ shift ih =>
    have step := holds.step positive
    rw [divideLoop]
    split
    next fits =>
      rw [if_pos fits] at step
      exact ih step
    next short =>
      rw [if_neg short] at step
      exact ih step

theorem divideInvariant_start (a b : BaseUint WIDTH) (positive : 0 < b.value)
    (reach : Nat.size b.value ≤ Nat.size a.value) :
    DivideInvariant a.value b.value (Nat.size a.value - Nat.size b.value + 1) a
      (b.shiftLeftAssign (Nat.size a.value - Nat.size b.value)) zero := by
  set shift := Nat.size a.value - Nat.size b.value
  have topB : 2 ^ (Nat.size b.value - 1) ≤ b.value :=
    Nat.lt_size.mp (by have := Nat.size_pos.mpr positive; omega)
  have belowB : b.value < 2 ^ Nat.size b.value := Nat.lt_size_self _
  have belowA : a.value < 2 ^ Nat.size a.value := Nat.lt_size_self _
  have sizeA : Nat.size a.value ≤ 32 * WIDTH := Nat.size_le.mpr (value_lt a)
  have aligned : Nat.size b.value + shift = Nat.size a.value := by omega
  -- the shifted divisor stays below the dividend's top bit, so nothing is lost
  have fits : b.value * 2 ^ shift < 2 ^ (32 * WIDTH) :=
    calc b.value * 2 ^ shift < 2 ^ Nat.size b.value * 2 ^ shift :=
          Nat.mul_lt_mul_of_pos_right belowB (by positivity)
      _ = 2 ^ Nat.size a.value := by rw [← pow_add, aligned]
      _ ≤ 2 ^ (32 * WIDTH) := Nat.pow_le_pow_right (by norm_num) sizeA
  refine ⟨fun _ => ?_, by simp, ?_, by simp⟩
  · rw [value_shiftLeftAssign, Nat.mod_eq_of_lt fits, Nat.add_sub_cancel]
  · calc a.value < 2 ^ Nat.size a.value := belowA
      _ = 2 ^ (Nat.size b.value - 1) * 2 ^ (shift + 1) := by
        rw [← pow_add]
        congr 1
        have := Nat.size_pos.mpr positive
        omega
      _ ≤ b.value * 2 ^ (shift + 1) := Nat.mul_le_mul_right _ topB

theorem divAssign_map_value (a b : BaseUint WIDTH) :
    (a.divAssign b).map value =
      if b.value = 0 then .error (.thrown "Division by zero") else .ok (a.value / b.value) := by
  rw [divAssign]
  simp only [bits_eq, Nat.size_eq_zero]
  by_cases divByZero : b.value = 0
  · rw [if_pos divByZero, if_pos divByZero]
    rfl
  rw [if_neg divByZero, if_neg divByZero]
  by_cases more : Nat.size b.value > Nat.size a.value
  · -- a divisor with more bits is above the dividend
    rw [if_pos more]
    have below : a.value < b.value :=
      calc a.value < 2 ^ Nat.size a.value := Nat.lt_size_self _
        _ ≤ 2 ^ (Nat.size b.value - 1) := Nat.pow_le_pow_right (by norm_num) (by omega)
        _ ≤ b.value := Nat.lt_size.mp (by omega)
    show Except.ok zero.value = _
    rw [value_zero, Nat.div_eq_of_lt below]
  · rw [if_neg more]
    show Except.ok (divideLoop _ a _ zero).value = _
    rw [value_divideLoop (by omega) _ (divideInvariant_start a b (by omega) (by omega))]

theorem divAssign_of_pos (a b : BaseUint WIDTH) (positive : 0 < b.value) :
    ∃ q, a.divAssign b = .ok q ∧ q.value = a.value / b.value := by
  have spec := divAssign_map_value a b
  rw [if_neg (Nat.pos_iff_ne_zero.mp positive)] at spec
  cases result : a.divAssign b with
  | error e =>
    rw [result] at spec
    cases spec
  | ok q =>
    rw [result] at spec
    exact ⟨q, rfl, Except.ok.inj spec⟩

end BaseUint

end Gaiacoin
