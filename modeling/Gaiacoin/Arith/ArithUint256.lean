import Gaiacoin.Arith.Divide
import Gaiacoin.Shared.Wire

set_option autoImplicit false

/-!
# `arith_uint256`

`base_uint<256>`, eight limbs, and its compact form: `SetCompact` and
`GetCompact`, a base-256 float with a 23-bit mantissa and a sign bit, which the
difficulty targets go through.
-/

namespace Gaiacoin

/-- `arith_uint256`: `base_uint<256>`. -/
abbrev ArithUint256 := BaseUint 8

theorem ArithUint256.wide : 2 ≤ 8 := by decide

theorem arithUint256_refines_mod_two_pow (a b : ArithUint256) (c : UInt32) (s : Nat) :
    (a.addAssign b).value = (a.value + b.value) % 2 ^ 256 ∧
    ((a.subAssign b).value : Int) = ((a.value : Int) - b.value) % 2 ^ 256 ∧
    (a.mulAssign32 c).value = a.value * c.toNat % 2 ^ 256 ∧
    (a.mulAssign b).value = a.value * b.value % 2 ^ 256 ∧
    (a.shiftLeftAssign s).value = a.value * 2 ^ s % 2 ^ 256 ∧
    (a.shiftRightAssign s).value = a.value / 2 ^ s ∧
    (a.divAssign b).map BaseUint.value =
      (if b.value = 0 then .error (.thrown "Division by zero") else .ok (a.value / b.value)) ∧
    a.compareTo b = (if a.value < b.value then -1 else if b.value < a.value then 1 else 0) ∧
    a.bits = Nat.size a.value := by
  refine ⟨BaseUint.value_addAssign a b, ?_, ?_, BaseUint.value_mulAssign a b,
    BaseUint.value_shiftLeftAssign a s, BaseUint.value_shiftRightAssign a s,
    BaseUint.divAssign_map_value a b, BaseUint.compareTo_eq a b, BaseUint.bits_eq a⟩
  · rw [BaseUint.value_subAssign]
  · rw [BaseUint.value_mulAssign32, Nat.mul_comm]

namespace BaseUint

variable {WIDTH : Nat}

/-- `GetLow64`: the two lowest limbs. It asserts `WIDTH >= 2`, which holds for
`arith_uint256`; a missing limb reads as zero here. -/
def getLow64 (a : BaseUint WIDTH) : UInt64 :=
  (a.pn.getD 0 0).toUInt64 ||| (a.pn.getD 1 0).toUInt64 <<< 32

theorem toNat_getLow64 (a : BaseUint WIDTH) : a.getLow64.toNat = a.value % 2 ^ 64 := by
  obtain ⟨pn, _⟩ := a
  simp only [getLow64, value]
  rcases pn with _ | ⟨x0, _ | ⟨x1, rest⟩⟩
  · rfl
  · simp only [List.getD_cons_zero, List.getD_cons_succ, List.getD_nil, Limbs.value_cons,
      Limbs.value_nil, Nat.mul_zero, Nat.add_zero, UInt64.toNat_or, UInt32.toNat_toUInt64,
      UInt64.toNat_shiftLeft]
    simp
  · -- the low limb and the next one, 32 places up
    have low := x0.toNat_lt
    have high := x1.toNat_lt
    have split : 2 ^ 32 * x1.toNat + x0.toNat = 2 ^ 32 * x1.toNat ||| x0.toNat :=
      Nat.two_pow_add_eq_or_of_lt low _
    simp only [List.getD_cons_zero, List.getD_cons_succ, Limbs.value_cons, UInt64.toNat_or,
      UInt32.toNat_toUInt64, UInt64.toNat_shiftLeft, show (32 : UInt64).toNat % 64 = 32 from rfl,
      Nat.shiftLeft_eq]
    rw [Nat.mod_eq_of_lt (show x1.toNat * 2 ^ 32 < 2 ^ 64 by omega), Nat.mul_comm, Nat.or_comm,
      ← split]
    omega

end BaseUint

/-- `(bits() + 7) / 8`: the number of bytes of `v`. -/
def byteSize (v : Nat) : Nat := (Nat.size v + 7) / 8

/-- The top three bytes of `v`, which `GetCompact` takes for the mantissa. -/
def topBytes (v : Nat) : Nat :=
  if byteSize v ≤ 3 then v * 256 ^ (3 - byteSize v) else v / 256 ^ (byteSize v - 3)

def compactMantissa (v : Nat) : Nat := if 2 ^ 23 ≤ topBytes v then topBytes v / 256 else topBytes v

def compactExponent (v : Nat) : Nat := if 2 ^ 23 ≤ topBytes v then byteSize v + 1 else byteSize v

/-- The compact form `GetCompact` gives a nonnegative value. -/
def compactOf (v : Nat) : Nat := compactMantissa v + compactExponent v * 2 ^ 24

/-- The value `SetCompact` reads from mantissa `m` and byte count `e`. -/
def compactValue (m e : Nat) : Nat := if e ≤ 3 then m / 256 ^ (3 - e) else m * 256 ^ (e - 3)

def compactRounded (v : Nat) : Nat :=
  let kept := if 0x80 ≤ v / 256 ^ (byteSize v - 1) then 2 else 3
  v / 256 ^ (byteSize v - kept) * 256 ^ (byteSize v - kept)

theorem lt_byteSize (v : Nat) : v < 256 ^ byteSize v := by
  have bits := Nat.lt_size_self v
  calc v < 2 ^ Nat.size v := bits
    _ ≤ 2 ^ (8 * byteSize v) := Nat.pow_le_pow_right (by norm_num) (by unfold byteSize; omega)
    _ = 256 ^ byteSize v := by rw [pow_mul]; norm_num

theorem byteSize_le (v : Nat) (positive : 0 < v) : 256 ^ (byteSize v - 1) ≤ v := by
  have top : 2 ^ (Nat.size v - 1) ≤ v := Nat.lt_size.mp (by have := Nat.size_pos.mpr positive; omega)
  calc 256 ^ (byteSize v - 1) = 2 ^ (8 * (byteSize v - 1)) := by rw [pow_mul]; norm_num
    _ ≤ 2 ^ (Nat.size v - 1) := Nat.pow_le_pow_right (by norm_num) (by unfold byteSize; omega)
    _ ≤ v := top

theorem byteSize_pos (v : Nat) (positive : 0 < v) : 0 < byteSize v := by
  have := Nat.size_pos.mpr positive
  unfold byteSize
  omega

theorem byteSize_eq {w L : Nat} (positive : 0 < L) (lower : 256 ^ (L - 1) ≤ w) (upper : w < 256 ^ L) :
    byteSize w = L := by
  have above : Nat.size w ≤ 8 * L := Nat.size_le.mpr (by rw [pow_mul]; norm_num; exact upper)
  have below : 8 * (L - 1) < Nat.size w :=
    Nat.lt_size.mpr (by rw [pow_mul]; norm_num; exact lower)
  unfold byteSize
  omega

theorem topBytes_of_three_le {v : Nat} (long : 3 ≤ byteSize v) :
    topBytes v = v / 256 ^ (byteSize v - 3) := by
  unfold topBytes
  split_ifs with short
  · rw [show byteSize v = 3 by omega]
    simp
  · rfl

theorem topBytes_lt (v : Nat) : topBytes v < 2 ^ 24 := by
  have upper := lt_byteSize v
  unfold topBytes
  split_ifs with short
  · calc v * 256 ^ (3 - byteSize v) < 256 ^ byteSize v * 256 ^ (3 - byteSize v) :=
          Nat.mul_lt_mul_of_pos_right upper (by positivity)
      _ = 2 ^ 24 := by rw [← pow_add, show byteSize v + (3 - byteSize v) = 3 by omega]; norm_num
  · rw [Nat.div_lt_iff_lt_mul (by positivity), show (2 : Nat) ^ 24 = 256 ^ 3 by norm_num, ← pow_add,
      show 3 + (byteSize v - 3) = byteSize v by omega]
    exact upper

theorem topBytes_div (v : Nat) : topBytes v / 2 ^ 16 = v / 256 ^ (byteSize v - 1) := by
  rcases Nat.eq_zero_or_pos v with rfl | positive
  · simp [topBytes]
  have count := byteSize_pos v positive
  unfold topBytes
  split_ifs with short
  · rw [show (2 : Nat) ^ 16 = 256 ^ (3 - byteSize v) * 256 ^ (byteSize v - 1) by
        rw [← pow_add, show 3 - byteSize v + (byteSize v - 1) = 2 by omega]; norm_num,
      Nat.mul_comm v, Nat.mul_div_mul_left _ _ (by positivity)]
  · rw [Nat.div_div_eq_div_mul, show (2 : Nat) ^ 16 = 256 ^ 2 by norm_num, ← pow_add,
      show byteSize v - 3 + 2 = byteSize v - 1 by omega]

theorem compactMantissa_lt (v : Nat) : compactMantissa v < 2 ^ 23 := by
  have := topBytes_lt v
  unfold compactMantissa
  split_ifs <;> omega

theorem byteSize_le_32 {v : Nat} (fits : v < 2 ^ 256) : byteSize v ≤ 32 := by
  have := Nat.size_le.mpr fits
  unfold byteSize
  omega

theorem compactExponent_le {v : Nat} (fits : v < 2 ^ 256) : compactExponent v ≤ 33 := by
  have := byteSize_le_32 fits
  unfold compactExponent
  split_ifs <;> omega

theorem compactMantissa_lt_of_compactExponent {v : Nat} (fits : v < 2 ^ 256)
    (top : compactExponent v = 33) : compactMantissa v < 2 ^ 16 := by
  have := byteSize_le_32 fits
  have := topBytes_lt v
  unfold compactExponent at top
  unfold compactMantissa
  split_ifs at top ⊢ <;> omega

theorem compactValue_eq (v : Nat) :
    compactValue (compactMantissa v) (compactExponent v) = compactRounded v := by
  have topByte := topBytes_div v
  have upper := topBytes_lt v
  -- the sign-bit test on the mantissa is the high-bit test on the top byte
  have kept : (0x80 ≤ v / 256 ^ (byteSize v - 1)) ↔ 2 ^ 23 ≤ topBytes v := by omega
  unfold compactValue compactMantissa compactExponent compactRounded
  simp only [kept]
  by_cases signed : 2 ^ 23 ≤ topBytes v
  · rw [if_pos signed, if_pos signed, if_pos signed]
    by_cases short : byteSize v ≤ 2
    · -- at most two bytes: nothing is cleared
      have shifted : topBytes v = v * 256 ^ (2 - byteSize v) * 256 := by
        rw [topBytes, if_pos (by omega), Nat.mul_assoc, ← pow_succ,
          show 2 - byteSize v + 1 = 3 - byteSize v by omega]
      rw [if_pos (by omega), shifted, Nat.mul_div_cancel _ (by norm_num),
        show 3 - (byteSize v + 1) = 2 - byteSize v by omega, Nat.mul_div_cancel _ (by positivity),
        show byteSize v - 2 = 0 by omega, pow_zero, Nat.div_one, Nat.mul_one]
    · rw [if_neg (by omega), topBytes_of_three_le (by omega), Nat.div_div_eq_div_mul, ← pow_succ,
        show byteSize v - 3 + 1 = byteSize v - 2 by omega, show byteSize v + 1 - 3 = byteSize v - 2
          by omega]
  · rw [if_neg signed, if_neg signed, if_neg signed]
    by_cases short : byteSize v ≤ 3
    · rw [if_pos short, topBytes, if_pos short, Nat.mul_div_cancel _ (by positivity),
        show byteSize v - 3 = 0 by omega, pow_zero, Nat.div_one, Nat.mul_one]
    · rw [if_neg short, topBytes_of_three_le (by omega)]

theorem compactRounded_le (v : Nat) : compactRounded v ≤ v := Nat.div_mul_le_self _ _

theorem byteSize_round {v j : Nat} (positive : 0 < v) (below : j < byteSize v) :
    byteSize (v / 256 ^ j * 256 ^ j) = byteSize v := by
  have lower := byteSize_le v positive
  apply byteSize_eq (byteSize_pos v positive)
  · rw [show byteSize v - 1 = (byteSize v - 1 - j) + j by omega, pow_add]
    apply Nat.mul_le_mul_right
    rw [Nat.le_div_iff_mul_le (by positivity), ← pow_add,
      show byteSize v - 1 - j + j = byteSize v - 1 by omega]
    exact lower
  · exact lt_of_le_of_lt (Nat.div_mul_le_self _ _) (lt_byteSize v)

theorem compactOf_compactRounded (v : Nat) : compactOf (compactRounded v) = compactOf v := by
  rcases Nat.eq_zero_or_pos v with rfl | positive
  · rfl
  have count := byteSize_pos v positive
  have topByte := topBytes_div v
  have upper := topBytes_lt v
  have kept : (0x80 ≤ v / 256 ^ (byteSize v - 1)) ↔ 2 ^ 23 ≤ topBytes v := by omega
  unfold compactRounded
  simp only [kept]
  unfold compactOf compactMantissa compactExponent
  by_cases signed : 2 ^ 23 ≤ topBytes v
  · rw [if_pos signed]
    have size := byteSize_round positive (j := byteSize v - 2) (by omega)
    by_cases short : byteSize v ≤ 2
    · rw [show byteSize v - 2 = 0 by omega, pow_zero, Nat.div_one, Nat.mul_one]
    -- three bytes or more: the mantissa of the rounded value is the top two bytes, then zero
    have mantissa : topBytes (v / 256 ^ (byteSize v - 2) * 256 ^ (byteSize v - 2)) =
        topBytes v / 256 * 256 := by
      rw [topBytes_of_three_le (by omega), size, topBytes_of_three_le (by omega),
        Nat.div_div_eq_div_mul, ← pow_succ, show byteSize v - 3 + 1 = byteSize v - 2 by omega,
        show byteSize v - 2 = byteSize v - 3 + 1 by omega, pow_succ,
        Nat.mul_comm (256 ^ (byteSize v - 3)) 256, ← Nat.mul_assoc,
        Nat.mul_div_cancel _ (by positivity)]
    have stillSigned : 2 ^ 23 ≤ topBytes v / 256 * 256 := by omega
    simp only [mantissa, size, if_pos stillSigned, if_pos signed,
      Nat.mul_div_cancel _ (show 0 < 256 by norm_num)]
  · rw [if_neg signed]
    by_cases short : byteSize v ≤ 3
    · rw [show byteSize v - 3 = 0 by omega, pow_zero, Nat.div_one, Nat.mul_one]
    have size := byteSize_round positive (j := byteSize v - 3) (by omega)
    have mantissa : topBytes (v / 256 ^ (byteSize v - 3) * 256 ^ (byteSize v - 3)) =
        topBytes v := by
      rw [topBytes_of_three_le (by omega), size, topBytes_of_three_le (by omega),
        Nat.mul_div_cancel _ (by positivity)]
    rw [mantissa, size]

theorem compactOf_lt {v : Nat} (fits : v < 2 ^ 256) : compactOf v < 2 ^ 32 := by
  have := compactMantissa_lt v
  have := compactExponent_le fits
  unfold compactOf
  omega

theorem toNat_and_mantissa (c : UInt32) : (c &&& 0x007fffff).toNat = c.toNat % 2 ^ 23 := by
  rw [UInt32.toNat_and, show (0x007fffff : UInt32).toNat = 2 ^ 23 - 1 from rfl,
    Nat.and_two_pow_sub_one_eq_mod]

theorem and_not_mantissa_eq_zero {m : UInt32} (small : m.toNat < 2 ^ 23) :
    (m &&& ~~~0x007fffff != 0) = false := by
  have high : (~~~(0x007fffff : UInt32)).toNat = 2 ^ 23 * 0x1ff := by decide
  have clear : (m &&& ~~~0x007fffff).toNat = 0 := by
    rw [UInt32.toNat_and, high]
    apply Nat.eq_of_testBit_eq
    intro i
    rw [Nat.testBit_and, Nat.zero_testBit]
    by_cases low : i < 23
    · rw [← Nat.add_zero (2 ^ 23 * 0x1ff), Nat.testBit_two_pow_mul_add _ (by positivity), if_pos low,
        Nat.zero_testBit, Bool.and_false]
    · rw [Nat.testBit_lt_two_pow (lt_of_lt_of_le small (Nat.pow_le_pow_right (by norm_num) (by omega))),
        Bool.false_and]
  rw [bne_eq_false_iff_eq, ← UInt32.toNat_inj, clear, UInt32.toNat_zero]

theorem toNat_or_size {m : UInt32} {nSize : Nat} (small : m.toNat < 2 ^ 24) (count : nSize < 256) :
    (m ||| (nSize <<< 24).toUInt32).toNat = m.toNat + nSize * 2 ^ 24 := by
  have placed : (nSize <<< 24).toUInt32.toNat = 2 ^ 24 * nSize := by
    rw [Nat.toUInt32, UInt32.toNat_ofNat', Nat.shiftLeft_eq, Nat.mod_eq_of_lt (by omega),
      Nat.mul_comm]
  rw [UInt32.toNat_or, placed, Nat.or_comm, ← Nat.two_pow_add_eq_or_of_lt small]
  ring

/-- What `SetCompact` leaves: `*this`, and the flags it writes through
`pfNegative` and `pfOverflow`. -/
structure SetCompactResult where
  bn : ArithUint256
  fNegative : Bool
  fOverflow : Bool

namespace ArithUint256

/-- `arith_uint256::SetCompact`. -/
def setCompact (nCompact : UInt32) : SetCompactResult :=
  let nSize := (nCompact >>> 24).toNat
  let nWord := nCompact &&& 0x007fffff
  -- `nWord >>= 8 * (3 - nSize)` in the branch for at most three bytes
  let nWord := if nSize ≤ 3 then nWord >>> (8 * (3 - nSize)).toUInt32 else nWord
  let bn : ArithUint256 := if nSize ≤ 3 then BaseUint.ofUInt64 nWord.toUInt64 ArithUint256.wide
    else (BaseUint.ofUInt64 nWord.toUInt64 ArithUint256.wide).shiftLeftAssign (8 * (nSize - 3))
  { bn
    fNegative := nWord != 0 && nCompact &&& 0x00800000 != 0
    fOverflow := nWord != 0 &&
      (nSize > 34 || (nWord > 0xff && nSize > 33) || (nWord > 0xffff && nSize > 32)) }

/-- The mantissa `GetCompact` starts from: the value moved so that its top three
bytes are the low three, through `GetLow64`. -/
def getCompactWord (x : ArithUint256) (nSize : Nat) : UInt32 :=
  if nSize ≤ 3 then (x.getLow64 <<< (8 * (3 - nSize)).toUInt64).toUInt32
  else (x.shiftRightAssign (8 * (nSize - 3))).getLow64.toUInt32

/-- `arith_uint256::GetCompact`, with its two `assert`s. -/
def getCompact (x : ArithUint256) (fNegative : Bool) : Checked UInt32 := do
  let nSize := (x.bits + 7) / 8
  let nCompact := x.getCompactWord nSize
  -- the 0x00800000 bit is the sign: give up the low byte and count one more
  let signTaken := nCompact &&& 0x00800000 != 0
  let nCompact := if signTaken then nCompact >>> 8 else nCompact
  let nSize := if signTaken then nSize + 1 else nSize
  if nCompact &&& ~~~0x007fffff != 0 then throw .assertion
  if ¬ nSize < 256 then throw .assertion
  let nCompact := nCompact ||| (nSize <<< 24).toUInt32
  pure (nCompact ||| if fNegative && nCompact &&& 0x007fffff != 0 then 0x00800000 else 0)

theorem toNat_getCompactWord (x : ArithUint256) :
    (x.getCompactWord (byteSize x.value)).toNat = topBytes x.value := by
  have upper := lt_byteSize x.value
  have mantissa := topBytes_lt x.value
  unfold getCompactWord
  split_ifs with short
  · -- at most three bytes: shifted up into place
    have small : x.value < 2 ^ 24 :=
      lt_of_lt_of_le upper (by rw [show (2 : Nat) ^ 24 = 256 ^ 3 by norm_num]
                               exact Nat.pow_le_pow_right (by norm_num) short)
    have shift : (8 * (3 - byteSize x.value)).toUInt64.toNat % 64 = 8 * (3 - byteSize x.value) := by
      rw [Nat.toUInt64, UInt64.toNat_ofNat']
      omega
    have placed : x.value * 2 ^ (8 * (3 - byteSize x.value)) = topBytes x.value := by
      rw [topBytes, if_pos short, pow_mul]
      norm_num
    rw [UInt64.toNat_toUInt32, UInt64.toNat_shiftLeft, BaseUint.toNat_getLow64, shift,
      Nat.mod_eq_of_lt (by omega : x.value < 2 ^ 64), Nat.shiftLeft_eq, placed]
    omega
  · -- more than three bytes: shifted down into place
    have placed : (x.shiftRightAssign (8 * (byteSize x.value - 3))).value = topBytes x.value := by
      rw [BaseUint.value_shiftRightAssign, topBytes, if_neg short, pow_mul]
      norm_num
    rw [UInt64.toNat_toUInt32, BaseUint.toNat_getLow64, placed]
    omega

theorem getCompact_eq (x : ArithUint256) (fNegative : Bool) :
    x.getCompact fNegative =
      .ok ((compactOf x.value).toUInt32 |||
        if fNegative && compactMantissa x.value != 0 then 0x00800000 else 0) := by
  have bytes : (x.bits + 7) / 8 = byteSize x.value := by rw [BaseUint.bits_eq]; rfl
  have fits : x.value < 2 ^ 256 := BaseUint.value_lt x
  have word := toNat_getCompactWord x
  have top := topBytes_lt x.value
  have count := compactExponent_le fits
  -- the sign test is a test of bit 23 of the mantissa
  have signTaken : (x.getCompactWord (byteSize x.value) &&& 0x00800000 != 0) =
      decide (2 ^ 23 ≤ topBytes x.value) := by
    have bit : (x.getCompactWord (byteSize x.value) &&& 0x00800000).toNat =
        Bool.toNat ((topBytes x.value).testBit 23) * 2 ^ 23 := by
      rw [UInt32.toNat_and, word, show (0x00800000 : UInt32).toNat = 2 ^ 23 from rfl, Nat.and_two_pow]
    rw [Nat.testBit_eq_decide_div_mod_eq] at bit
    by_cases signed : 2 ^ 23 ≤ topBytes x.value
    · rw [decide_eq_true signed, bne_iff_ne, ne_eq, ← UInt32.toNat_inj, bit, UInt32.toNat_zero]
      simp only [decide_eq_true (show topBytes x.value / 2 ^ 23 % 2 = 1 by omega)]
      decide
    · rw [decide_eq_false signed, bne_eq_false_iff_eq, ← UInt32.toNat_inj, bit, UInt32.toNat_zero]
      simp only [decide_eq_false (show ¬ topBytes x.value / 2 ^ 23 % 2 = 1 by omega)]
      decide
  -- the mantissa and byte count after the test, and the word they make
  have mantissa : (if 2 ^ 23 ≤ topBytes x.value then x.getCompactWord (byteSize x.value) >>> 8
      else x.getCompactWord (byteSize x.value)).toNat = compactMantissa x.value := by
    unfold compactMantissa
    split_ifs
    · rw [UInt32.toNat_shiftRight, word]
      show topBytes x.value >>> 8 = topBytes x.value / 256
      rw [Nat.shiftRight_eq_div_pow]
    · exact word
  have size : (if 2 ^ 23 ≤ topBytes x.value then byteSize x.value + 1 else byteSize x.value) =
      compactExponent x.value := rfl
  have small := compactMantissa_lt x.value
  have joined : ((if 2 ^ 23 ≤ topBytes x.value then x.getCompactWord (byteSize x.value) >>> 8
      else x.getCompactWord (byteSize x.value)) |||
        ((if 2 ^ 23 ≤ topBytes x.value then byteSize x.value + 1 else byteSize x.value) <<< 24
          ).toUInt32) = (compactOf x.value).toUInt32 := by
    apply UInt32.toNat_inj.mp
    rw [toNat_or_size (by omega) (by omega), mantissa, size, Nat.toUInt32, UInt32.toNat_ofNat',
      Nat.mod_eq_of_lt (compactOf_lt fits)]
    rfl
  have signField : ((compactOf x.value).toUInt32 &&& 0x007fffff != 0) =
      (compactMantissa x.value != 0) := by
    have field := toNat_and_mantissa (compactOf x.value).toUInt32
    have whole : (compactOf x.value).toUInt32.toNat = compactOf x.value := by
      rw [Nat.toUInt32, UInt32.toNat_ofNat', Nat.mod_eq_of_lt (compactOf_lt fits)]
    have low : compactOf x.value % 2 ^ 23 = compactMantissa x.value := by
      rw [compactOf, show (2 : Nat) ^ 24 = 2 * 2 ^ 23 by norm_num, ← Nat.mul_assoc,
        Nat.add_mul_mod_self_right, Nat.mod_eq_of_lt small]
    rw [whole, low] at field
    rw [Bool.eq_iff_iff, bne_iff_ne, bne_iff_ne, ne_eq, ne_eq, ← UInt32.toNat_inj, field,
      UInt32.toNat_zero]
  have noHighBits := and_not_mantissa_eq_zero (m := if 2 ^ 23 ≤ topBytes x.value then
    x.getCompactWord (byteSize x.value) >>> 8 else x.getCompactWord (byteSize x.value))
    (by rw [mantissa]; exact small)
  have counted : (if 2 ^ 23 ≤ topBytes x.value then byteSize x.value + 1 else byteSize x.value) < 256 := by
    rw [size]
    omega
  unfold getCompact
  simp only [bytes, signTaken, decide_eq_true_eq, noHighBits, Bool.false_eq_true, if_false,
    counted, not_true_eq_false, joined, signField]
  rfl

/-- The mantissa `SetCompact` keeps, after its shift in the branch for at most
three bytes, of a compact word `n`. -/
def compactWordOf (n : Nat) : Nat :=
  if n / 2 ^ 24 ≤ 3 then n % 2 ^ 23 / 256 ^ (3 - n / 2 ^ 24) else n % 2 ^ 23

theorem toNat_sizeField (nCompact : UInt32) : (nCompact >>> 24).toNat = nCompact.toNat / 2 ^ 24 := by
  rw [UInt32.toNat_shiftRight, Nat.shiftRight_eq_div_pow]
  rfl

theorem toNat_setCompactWord (nCompact : UInt32) :
    (if nCompact.toNat / 2 ^ 24 ≤ 3 then
        (nCompact &&& 0x007fffff) >>> (8 * (3 - nCompact.toNat / 2 ^ 24)).toUInt32
      else nCompact &&& 0x007fffff).toNat = compactWordOf nCompact.toNat := by
  unfold compactWordOf
  split_ifs with short
  · have shift : (8 * (3 - nCompact.toNat / 2 ^ 24)).toUInt32.toNat % 32 =
        8 * (3 - nCompact.toNat / 2 ^ 24) := by
      rw [Nat.toUInt32, UInt32.toNat_ofNat']
      omega
    rw [UInt32.toNat_shiftRight, shift, toNat_and_mantissa, Nat.shiftRight_eq_div_pow, pow_mul]
    norm_num
  · exact toNat_and_mantissa nCompact

theorem bne_zero_eq (w : UInt32) : (w != 0) = decide (w.toNat ≠ 0) := by
  rw [Bool.eq_iff_iff, bne_iff_ne, ne_eq, ← UInt32.toNat_inj, UInt32.toNat_zero, decide_eq_true_iff]

theorem value_setCompact (nCompact : UInt32) :
    (setCompact nCompact).bn.value =
      compactValue (nCompact.toNat % 2 ^ 23) (nCompact.toNat / 2 ^ 24) % 2 ^ 256 := by
  have word := toNat_setCompactWord nCompact
  have small : nCompact.toNat % 2 ^ 23 < 2 ^ 23 := Nat.mod_lt _ (by positivity)
  unfold setCompact compactValue
  simp only [toNat_sizeField]
  unfold compactWordOf at word
  split_ifs at word ⊢ with short
  · -- at most three bytes: the shifted word is the value
    rw [BaseUint.value_ofUInt64, UInt32.toNat_toUInt64, word]
    have : nCompact.toNat % 2 ^ 23 / 256 ^ (3 - nCompact.toNat / 2 ^ 24) < 2 ^ 256 :=
      lt_of_le_of_lt (Nat.div_le_self _ _) (by omega)
    rw [Nat.mod_eq_of_lt this]
  · -- more bytes: the word shifted up, within the width
    rw [BaseUint.value_shiftLeftAssign, BaseUint.value_ofUInt64, UInt32.toNat_toUInt64, word,
      pow_mul]
    norm_num

theorem fNegative_setCompact (nCompact : UInt32) :
    (setCompact nCompact).fNegative =
      (decide (compactWordOf nCompact.toNat ≠ 0) && nCompact.toNat.testBit 23) := by
  have sign : (nCompact &&& 0x00800000 != 0) = nCompact.toNat.testBit 23 := by
    rw [bne_zero_eq, UInt32.toNat_and, show (0x00800000 : UInt32).toNat = 2 ^ 23 from rfl,
      Nat.and_two_pow]
    cases nCompact.toNat.testBit 23 <;> decide
  unfold setCompact
  simp only [toNat_sizeField, bne_zero_eq, toNat_setCompactWord, ← sign]

theorem fOverflow_setCompact (nCompact : UInt32) :
    (setCompact nCompact).fOverflow =
      decide (compactWordOf nCompact.toNat ≠ 0 ∧ (34 < nCompact.toNat / 2 ^ 24 ∨
        (0xff < compactWordOf nCompact.toNat ∧ 33 < nCompact.toNat / 2 ^ 24) ∨
        (0xffff < compactWordOf nCompact.toNat ∧ 32 < nCompact.toNat / 2 ^ 24))) := by
  unfold setCompact
  simp only [toNat_sizeField, bne_zero_eq, gt_iff_lt, UInt32.lt_iff_toNat_lt, toNat_setCompactWord,
    UInt32.reduceToNat, Bool.decide_and, Bool.decide_or, Bool.or_assoc]

theorem compactOf_fields {v : Nat} (fits : v < 2 ^ 256) :
    (compactOf v).toUInt32.toNat / 2 ^ 24 = compactExponent v ∧
      (compactOf v).toUInt32.toNat % 2 ^ 23 = compactMantissa v ∧
      (compactOf v).toUInt32.toNat.testBit 23 = false := by
  have small := compactMantissa_lt v
  have whole : (compactOf v).toUInt32.toNat = 2 ^ 24 * compactExponent v + compactMantissa v := by
    rw [Nat.toUInt32, UInt32.toNat_ofNat', Nat.mod_eq_of_lt (compactOf_lt fits), compactOf]
    ring
  rw [whole]
  refine ⟨by omega, by omega, ?_⟩
  rw [Nat.testBit_two_pow_mul_add _ (by omega), if_pos (by norm_num)]
  exact Nat.testBit_lt_two_pow small

theorem getCompact_false (x : ArithUint256) : x.getCompact false = .ok (compactOf x.value).toUInt32 := by
  rw [getCompact_eq, Bool.false_and, if_neg Bool.false_ne_true, UInt32.or_zero]

theorem value_setCompact_compactOf {v : Nat} (fits : v < 2 ^ 256) :
    (setCompact (compactOf v).toUInt32).bn.value = compactRounded v := by
  obtain ⟨size, mantissa, _⟩ := compactOf_fields fits
  rw [value_setCompact, mantissa, size, compactValue_eq,
    Nat.mod_eq_of_lt (lt_of_le_of_lt (compactRounded_le _) fits)]

theorem fNegative_setCompact_compactOf {v : Nat} (fits : v < 2 ^ 256) :
    (setCompact (compactOf v).toUInt32).fNegative = false := by
  obtain ⟨_, _, sign⟩ := compactOf_fields fits
  rw [fNegative_setCompact, sign, Bool.and_false]

theorem fOverflow_setCompact_compactOf {v : Nat} (fits : v < 2 ^ 256) :
    (setCompact (compactOf v).toUInt32).fOverflow = false := by
  obtain ⟨size, mantissa, _⟩ := compactOf_fields fits
  -- a count of 33 comes only with a mantissa of two bytes
  have count := compactExponent_le fits
  have top := compactMantissa_lt_of_compactExponent fits
  rw [fOverflow_setCompact, size, decide_eq_false_iff_not]
  unfold compactWordOf
  rw [size, mantissa]
  split_ifs <;> omega

theorem compact_round_trip (x : ArithUint256) :
    ∃ nCompact, x.getCompact false = .ok nCompact ∧
      (setCompact nCompact).fNegative = false ∧ (setCompact nCompact).fOverflow = false ∧
      (setCompact nCompact).bn.value = compactRounded x.value ∧
      (setCompact nCompact).bn.value ≤ x.value ∧
      (setCompact nCompact).bn.getCompact false = .ok nCompact := by
  have fits : x.value < 2 ^ 256 := BaseUint.value_lt x
  have value := value_setCompact_compactOf fits
  refine ⟨_, getCompact_false x, fNegative_setCompact_compactOf fits,
    fOverflow_setCompact_compactOf fits, value, value ▸ compactRounded_le _, ?_⟩
  rw [getCompact_false, value, compactOf_compactRounded]

end ArithUint256

/-- `UintToArith256`: limb `x` is `ReadLE32` of bytes `4x` to `4x + 3`. -/
def uintToArith256 (a : Uint256) : ArithUint256 :=
  ⟨(List.range 8).map fun x => (Wire.readLE ((a.data.drop (x * 4)).take 4)).toUInt32, by simp⟩

theorem value_readLE32s (k : Nat) (bytes : List UInt8) (length : bytes.length = 4 * k) :
    Limbs.value ((List.range k).map fun x => (Wire.readLE ((bytes.drop (x * 4)).take 4)).toUInt32) =
      Wire.readLE bytes := by
  induction k generalizing bytes with
  | zero =>
    rw [List.length_eq_zero_iff.mp (by omega : bytes.length = 0)]
    rfl
  | succ k ih =>
    have four : min 4 bytes.length = 4 := by omega
    have word : (Wire.readLE (bytes.take 4)).toUInt32.toNat = Wire.readLE (bytes.take 4) := by
      have below := Wire.readLE_lt (bytes.take 4)
      rw [List.length_take, four] at below
      rw [Nat.toUInt32, UInt32.toNat_ofNat']
      exact Nat.mod_eq_of_lt below
    have split := Wire.readLE_append (bytes.take 4) (bytes.drop 4)
    rw [List.take_append_drop, List.length_take, four] at split
    -- the later words read from byte 4 on
    have later : (fun x => (Wire.readLE ((bytes.drop (x * 4)).take 4)).toUInt32) ∘ Nat.succ =
        fun x => (Wire.readLE (((bytes.drop 4).drop (x * 4)).take 4)).toUInt32 := by
      funext x
      simp only [Function.comp, List.drop_drop, Nat.succ_mul, Nat.add_comm]
    rw [List.range_succ_eq_map, List.map_cons, List.map_map, later, Limbs.value_cons,
      ih (bytes.drop 4) (by rw [List.length_drop]; omega), Nat.zero_mul, List.drop_zero, word, split]
    norm_num

theorem value_uintToArith256 (a : Uint256) : (uintToArith256 a).value = Wire.readLE a.data :=
  value_readLE32s 8 a.data (by rw [a.size_eq])

end Gaiacoin
