import Gaiacoin.Shared.Limbs
import Gaiacoin.Shared.Bits

set_option autoImplicit false

/-!
# `base_uint`

`base_uint<BITS>` of `arith_uint256.h`: `WIDTH = BITS / 32` limbs of 32 bits,
least significant first. Each operator is written as its loop runs, over the
limbs and the 64-bit accumulator the source uses, and a `value_` lemma says what
it computes on the number the limbs stand for: arithmetic modulo
`2 ^ (32 * WIDTH)`.
-/

namespace Gaiacoin

structure BaseUint (WIDTH : Nat) where
  pn : List UInt32
  length_pn : pn.length = WIDTH

namespace BaseUint

variable {WIDTH : Nat}

def value (a : BaseUint WIDTH) : Nat := Limbs.value a.pn

theorem value_lt (a : BaseUint WIDTH) : a.value < 2 ^ (32 * WIDTH) := by
  have bound := Limbs.value_lt a.pn
  rwa [a.length_pn] at bound

/-- `base_uint()`. -/
def zero : BaseUint WIDTH := ⟨List.replicate WIDTH 0, List.length_replicate⟩

@[simp] theorem value_zero : (zero : BaseUint WIDTH).value = 0 := Limbs.value_replicate_zero WIDTH

/-- `base_uint(uint64_t b)`: the low and high halves of `b` in the first two limbs. -/
def ofUInt64 (b : UInt64) (wide : 2 ≤ WIDTH) : BaseUint WIDTH :=
  ⟨b.toUInt32 :: (b >>> 32).toUInt32 :: List.replicate (WIDTH - 2) 0, by simp; omega⟩

theorem value_ofUInt64 (b : UInt64) (wide : 2 ≤ WIDTH) : (ofUInt64 b wide).value = b.toNat := by
  have high : (b >>> 32).toUInt32.toNat = b.toNat / 2 ^ 32 := by
    rw [UInt64.toNat_toUInt32, Limbs.toNat_highHalf]
    exact Nat.mod_eq_of_lt (by have := b.toNat_lt; omega)
  simp only [value, ofUInt64, Limbs.value_cons, Limbs.value_replicate_zero, UInt64.toNat_toUInt32,
    high, Nat.mul_zero, Nat.add_zero]
  omega

/-- `operator+=`: `n = carry + pn[i] + b.pn[i]`, whose low half is the limb and
high half the next carry. -/
def addAssign (a b : BaseUint WIDTH) : BaseUint WIDTH :=
  ⟨Limbs.carryLoop (fun limbs => limbs.1.toUInt64 + limbs.2.toUInt64) 0 (a.pn.zip b.pn),
    by simp [a.length_pn, b.length_pn]⟩

theorem value_addAssign (a b : BaseUint WIDTH) :
    (a.addAssign b).value = (a.value + b.value) % 2 ^ (32 * WIDTH) := by
  -- two limbs and a carry below `2 ^ 32` never wrap the accumulator
  have sum : ∀ limbs : UInt32 × UInt32,
      (limbs.1.toUInt64 + limbs.2.toUInt64).toNat = limbs.1.toNat + 1 * limbs.2.toNat := by
    intro limbs
    rw [UInt64.toNat_add, UInt32.toNat_toUInt64, UInt32.toNat_toUInt64, Nat.one_mul]
    exact Nat.mod_eq_of_lt (by have := limbs.1.toNat_lt; have := limbs.2.toNat_lt; omega)
  have bounded : ∀ limbs ∈ a.pn.zip b.pn,
      (limbs.1.toUInt64 + limbs.2.toUInt64).toNat ≤ 2 ^ 64 - 2 ^ 32 := by
    intro limbs _
    have := limbs.1.toNat_lt
    have := limbs.2.toNat_lt
    rw [sum]
    omega
  have sameLength : a.pn.length ≤ b.pn.length := by rw [a.length_pn, b.length_pn]
  have sameLength' : b.pn.length ≤ a.pn.length := by rw [a.length_pn, b.length_pn]
  rw [value, addAssign, Limbs.value_carryLoop _ _ _ (by decide) bounded, funext sum,
    Limbs.ofDigits_zip_add_mul 1 sameLength, List.take_of_length_le sameLength', List.length_zip,
    a.length_pn, b.length_pn, Nat.min_self]
  simp [value]

/-- `operator~`. -/
def complement (a : BaseUint WIDTH) : BaseUint WIDTH :=
  ⟨a.pn.map (~~~ ·), by simp [a.length_pn]⟩

theorem value_complement (a : BaseUint WIDTH) :
    a.complement.value + a.value + 1 = 2 ^ (32 * WIDTH) := by
  have whole := Limbs.value_map_complement a.pn
  rwa [a.length_pn] at whole

/-- The loop of `operator++()`: `while (++pn[i] == 0 && i < WIDTH-1) i++`. The
last limb is incremented and the loop stops whatever it becomes. -/
def incrementLoop : List UInt32 → List UInt32
  | [] => []
  | x :: xs => (x + 1) :: if x + 1 = 0 ∧ xs ≠ [] then incrementLoop xs else xs

@[simp] theorem length_incrementLoop (xs : List UInt32) : (incrementLoop xs).length = xs.length := by
  induction xs with
  | nil => rfl
  | cons x xs ih =>
    simp only [incrementLoop, List.length_cons]
    split <;> simp [ih]

theorem value_incrementLoop (xs : List UInt32) :
    Limbs.value (incrementLoop xs) = (Limbs.value xs + 1) % 2 ^ (32 * xs.length) := by
  -- induction over the limbs the carry of the increment runs through
  induction xs with
  | nil => simp [incrementLoop]
  | cons x xs ih =>
    have low := Limbs.value_lt xs
    have limb := x.toNat_lt
    have sum : (x + 1).toNat = (x.toNat + 1) % 2 ^ 32 := by
      rw [UInt32.toNat_add]
      rfl
    simp only [incrementLoop, List.length_cons, Nat.mul_succ, pow_add]
    split
    next carried =>
      -- the limb wrapped to zero and the carry moves on
      obtain ⟨wrapped, more⟩ := carried
      have top : x.toNat = 2 ^ 32 - 1 := by
        have := congrArg UInt32.toNat wrapped
        rw [sum, UInt32.toNat_zero] at this
        omega
      rw [Limbs.value_cons, Limbs.value_cons, ih, wrapped, UInt32.toNat_zero, top,
        show 2 ^ 32 - 1 + 2 ^ 32 * Limbs.value xs + 1 = 2 ^ 32 * (Limbs.value xs + 1) by omega,
        Nat.mul_comm (2 ^ (32 * xs.length)), Nat.mul_mod_mul_left]
      simp
    next stopped =>
      rw [Limbs.value_cons, Limbs.value_cons, sum]
      by_cases last : xs = []
      · subst last
        simp
      · -- the limb did not wrap, so nothing is carried out
        have noWrap : x.toNat + 1 < 2 ^ 32 := by
          by_contra wraps
          apply stopped
          refine ⟨?_, last⟩
          apply UInt32.toNat_inj.mp
          rw [sum, UInt32.toNat_zero]
          omega
        rw [Nat.mod_eq_of_lt noWrap, Nat.mod_eq_of_lt]
        · omega
        · have : 2 ^ 32 * (Limbs.value xs + 1) ≤ 2 ^ 32 * 2 ^ (32 * xs.length) :=
            Nat.mul_le_mul_left _ low
          rw [Nat.mul_comm (2 ^ (32 * xs.length))]
          omega

/-- `operator++()`. -/
def increment (a : BaseUint WIDTH) : BaseUint WIDTH :=
  ⟨incrementLoop a.pn, by simp [a.length_pn]⟩

theorem value_increment (a : BaseUint WIDTH) :
    a.increment.value = (a.value + 1) % 2 ^ (32 * WIDTH) := by
  rw [value, increment, value_incrementLoop, a.length_pn]
  rfl

/-- `operator-()`: the complement, incremented. -/
def neg (a : BaseUint WIDTH) : BaseUint WIDTH := a.complement.increment

theorem value_neg (a : BaseUint WIDTH) :
    a.neg.value = (2 ^ (32 * WIDTH) - a.value) % 2 ^ (32 * WIDTH) := by
  rw [neg, value_increment]
  have := value_complement a
  congr 1
  omega

/-- `operator-=`: `*this += -b`. -/
def subAssign (a b : BaseUint WIDTH) : BaseUint WIDTH := a.addAssign b.neg

theorem value_subAssign (a b : BaseUint WIDTH) :
    ((a.subAssign b).value : Int) = ((a.value : Int) - b.value) % 2 ^ (32 * WIDTH) := by
  have below := value_lt b
  rw [subAssign, value_addAssign, value_neg, Nat.add_mod_mod]
  push_cast [Nat.cast_sub below.le]
  rw [show (a.value : Int) + (2 ^ (32 * WIDTH) - b.value) = (a.value - b.value) + 2 ^ (32 * WIDTH) * 1
    by ring, Int.add_mul_emod_self_left]

/-- `operator*=(uint32_t b32)`: `n = carry + (uint64_t)b32 * pn[i]`. -/
def mulAssign32 (a : BaseUint WIDTH) (b32 : UInt32) : BaseUint WIDTH :=
  ⟨Limbs.carryLoop (fun limb => b32.toUInt64 * limb.toUInt64) 0 a.pn, by simp [a.length_pn]⟩

theorem value_mulAssign32 (a : BaseUint WIDTH) (b32 : UInt32) :
    (a.mulAssign32 b32).value = b32.toNat * a.value % 2 ^ (32 * WIDTH) := by
  have bounded : ∀ limb ∈ a.pn, (b32.toUInt64 * limb.toUInt64).toNat ≤ 2 ^ 64 - 2 ^ 32 := by
    intro limb _
    rw [Limbs.toNat_toUInt64_mul]
    have := Limbs.mul_add_le b32 limb 0
    simpa using this
  rw [value, mulAssign32, Limbs.value_carryLoop _ _ _ (by decide) bounded,
    funext (fun limb => Limbs.toNat_toUInt64_mul b32 limb), Limbs.ofDigits_map_mul, a.length_pn]
  simp [value]

/-- One round `j` of the outer loop of `operator*=(const base_uint& b)`: for
`i + j < WIDTH`, `n = carry + pn[i + j] + (uint64_t)a.pn[j] * b.pn[i]`. The limbs
below `j` are left as they are. -/
def mulRow (aj : UInt32) (b pn : List UInt32) (j : Nat) : List UInt32 :=
  pn.take j ++
    Limbs.carryLoop (fun limbs => limbs.1.toUInt64 + aj.toUInt64 * limbs.2.toUInt64) 0
      ((pn.drop j).zip b)

/-- The outer loop, over the limbs `a.pn[j]` of the left factor. -/
def mulLoop (b : List UInt32) : Nat → List UInt32 → List UInt32 → List UInt32
  | _, [], pn => pn
  | j, aj :: as, pn => mulLoop b (j + 1) as (mulRow aj b pn j)

theorem length_mulRow (aj : UInt32) {b pn : List UInt32} (j : Nat) (long : pn.length ≤ b.length) :
    (mulRow aj b pn j).length = pn.length := by
  simp only [mulRow, List.length_append, List.length_take, Limbs.length_carryLoop,
    List.length_zip, List.length_drop]
  omega

theorem length_mulLoop {b : List UInt32} (j : Nat) (as : List UInt32) {pn : List UInt32}
    (long : pn.length ≤ b.length) : (mulLoop b j as pn).length = pn.length := by
  induction as generalizing j pn with
  | nil => rfl
  | cons aj as ih =>
    rw [mulLoop, ih _ (by rw [length_mulRow aj j long]; exact long), length_mulRow aj j long]

theorem value_mulRow (aj : UInt32) {b pn : List UInt32} {j : Nat} (inside : j ≤ pn.length)
    (long : pn.length ≤ b.length) :
    Limbs.value (mulRow aj b pn j) =
      (Limbs.value pn + 2 ^ (32 * j) * aj.toNat * Limbs.value b) % 2 ^ (32 * pn.length) := by
  set rest := pn.length - j
  have restLong : (pn.drop j).length ≤ b.length := by simp; omega
  have bounded : ∀ limbs ∈ (pn.drop j).zip b,
      (limbs.1.toUInt64 + aj.toUInt64 * limbs.2.toUInt64).toNat ≤ 2 ^ 64 - 2 ^ 32 := by
    intro limbs _
    rw [UInt64.toNat_add, UInt32.toNat_toUInt64, Limbs.toNat_toUInt64_mul]
    have := Limbs.mul_add_le aj limbs.2 limbs.1
    rw [Nat.mod_eq_of_lt (by omega)]
    exact this
  have term : ∀ limbs : UInt32 × UInt32,
      (limbs.1.toUInt64 + aj.toUInt64 * limbs.2.toUInt64).toNat =
        limbs.1.toNat + aj.toNat * limbs.2.toNat := by
    intro limbs
    have := Limbs.mul_add_le aj limbs.2 limbs.1
    rw [UInt64.toNat_add, UInt32.toNat_toUInt64, Limbs.toNat_toUInt64_mul,
      Nat.mod_eq_of_lt (by omega)]
  -- the limbs of `pn` below and from `j`, and those of `b` that reach the top
  have low := Limbs.value_lt (pn.take j)
  have splitPn := Limbs.value_append (pn.take j) (pn.drop j)
  have splitB := Limbs.value_append (b.take rest) (b.drop rest)
  rw [List.take_append_drop] at splitPn splitB
  have lengthTake : (pn.take j).length = j := by simp; omega
  have lengthDrop : (pn.drop j).length = rest := by simp [rest]
  have lengthTakeB : (b.take rest).length = rest := by simp; omega
  rw [lengthTake] at low splitPn
  rw [lengthTakeB] at splitB
  rw [mulRow, Limbs.value_append, Limbs.value_carryLoop _ _ _ (by decide) bounded, funext term,
    Limbs.ofDigits_zip_add_mul _ restLong, List.length_zip, lengthTake, lengthDrop,
    Nat.min_eq_left (by omega), splitPn, splitB]
  simp only [UInt64.toNat_zero, Nat.zero_add]
  have whole : 32 * pn.length = 32 * j + 32 * rest := by omega
  rw [whole, pow_add]
  -- the part of `b` above the width drops out, and what is left splits at limb `j`
  calc Limbs.value (pn.take j) + 2 ^ (32 * j) *
        ((Limbs.value (pn.drop j) + aj.toNat * Limbs.value (b.take rest)) % 2 ^ (32 * rest))
      = (Limbs.value (pn.take j) + 2 ^ (32 * j) *
          (Limbs.value (pn.drop j) + aj.toNat * Limbs.value (b.take rest))) %
            (2 ^ (32 * j) * 2 ^ (32 * rest)) := by
        rw [Limbs.add_mul_mod_mul, Nat.mod_eq_of_lt low, Nat.div_eq_of_lt low, Nat.zero_add]
    _ = (Limbs.value (pn.take j) + 2 ^ (32 * j) * Limbs.value (pn.drop j) +
          2 ^ (32 * j) * aj.toNat * (Limbs.value (b.take rest) +
            2 ^ (32 * rest) * Limbs.value (b.drop rest))) %
            (2 ^ (32 * j) * 2 ^ (32 * rest)) := by
        rw [show Limbs.value (pn.take j) + 2 ^ (32 * j) * Limbs.value (pn.drop j) +
            2 ^ (32 * j) * aj.toNat * (Limbs.value (b.take rest) +
              2 ^ (32 * rest) * Limbs.value (b.drop rest)) =
            Limbs.value (pn.take j) + 2 ^ (32 * j) *
              (Limbs.value (pn.drop j) + aj.toNat * Limbs.value (b.take rest)) +
                2 ^ (32 * j) * 2 ^ (32 * rest) * (aj.toNat * Limbs.value (b.drop rest)) by ring,
          Nat.add_mul_mod_self_left]

theorem value_mulLoop {b : List UInt32} (j : Nat) (as : List UInt32) {pn : List UInt32}
    (rounds : j + as.length = pn.length) (long : pn.length ≤ b.length) :
    Limbs.value (mulLoop b j as pn) =
      (Limbs.value pn + 2 ^ (32 * j) * Limbs.value as * Limbs.value b) %
        2 ^ (32 * pn.length) := by
  -- induction over the rounds, with the partial product generalized
  induction as generalizing j pn with
  | nil =>
    rw [mulLoop, Limbs.value_nil, Nat.mul_zero, Nat.zero_mul, Nat.add_zero,
      Nat.mod_eq_of_lt (Limbs.value_lt pn)]
  | cons aj as ih =>
    have sameLength := length_mulRow aj j (b := b) long
    rw [List.length_cons] at rounds
    rw [mulLoop, ih (j + 1) (by omega) (by omega), sameLength, value_mulRow aj (by omega) long,
      Nat.mod_add_mod, Limbs.value_cons]
    congr 1
    rw [Nat.mul_succ, pow_add]
    ring

/-- `operator*=(const base_uint& b)`: the product is built in `*this`, which
starts at zero, from a copy `a` of it. -/
def mulAssign (a b : BaseUint WIDTH) : BaseUint WIDTH :=
  ⟨mulLoop b.pn 0 a.pn (List.replicate WIDTH 0), by
    rw [length_mulLoop 0 a.pn (by simp [b.length_pn]), List.length_replicate]⟩

theorem value_mulAssign (a b : BaseUint WIDTH) :
    (a.mulAssign b).value = a.value * b.value % 2 ^ (32 * WIDTH) := by
  rw [value, mulAssign, value_mulLoop 0 a.pn (by simp [a.length_pn]) (by simp [b.length_pn])]
  simp [value]

/-- `CompareTo`'s loop, from the most significant limb down. -/
def compareLoop : List UInt32 → List UInt32 → Int
  | x :: xs, y :: ys => if x < y then -1 else if x > y then 1 else compareLoop xs ys
  | _, _ => 0

/-- `CompareTo`: `-1`, `0` or `1` as `*this` is below, equal to or above `b`. -/
def compareTo (a b : BaseUint WIDTH) : Int := compareLoop a.pn.reverse b.pn.reverse

theorem compareLoop_eq {xs ys : List UInt32} (same : xs.length = ys.length) :
    compareLoop xs ys =
      if Limbs.value xs.reverse < Limbs.value ys.reverse then -1
      else if Limbs.value ys.reverse < Limbs.value xs.reverse then 1 else 0 := by
  -- induction from the most significant limb, which is the head of the reversed list
  induction xs generalizing ys with
  | nil =>
    obtain rfl : ys = [] := List.eq_nil_of_length_eq_zero same.symm
    simp [compareLoop]
  | cons x xs ih =>
    obtain ⟨y, ys, rfl⟩ : ∃ y rest, ys = y :: rest := by
      cases ys with
      | nil => simp at same
      | cons y rest => exact ⟨y, rest, rfl⟩
    have rest : xs.reverse.length = ys.reverse.length := by simpa using same
    simp only [compareLoop, List.reverse_cons, Limbs.value_concat_lt_iff x y rest,
      Limbs.value_concat_lt_iff y x rest.symm, UInt32.lt_iff_toNat_lt, gt_iff_lt,
      ih (by simpa using same)]
    by_cases below : x.toNat < y.toNat
    · simp [below]
    by_cases above : y.toNat < x.toNat
    · have differ : x ≠ y := fun same => by subst same; omega
      simp [below, above, differ]
    have equal : x = y := UInt32.toNat_inj.mp (by omega)
    subst equal
    simp

theorem compareTo_eq (a b : BaseUint WIDTH) :
    a.compareTo b = if a.value < b.value then -1 else if b.value < a.value then 1 else 0 := by
  rw [compareTo, compareLoop_eq (by rw [List.length_reverse, List.length_reverse, a.length_pn,
    b.length_pn]), List.reverse_reverse, List.reverse_reverse]
  rfl

/-- `operator>=`, `operator>` and `operator<=`: `CompareTo` against zero. -/
def ge (a b : BaseUint WIDTH) : Bool := a.compareTo b ≥ 0

def gt (a b : BaseUint WIDTH) : Bool := a.compareTo b > 0

def le (a b : BaseUint WIDTH) : Bool := a.compareTo b ≤ 0

theorem ge_eq (a b : BaseUint WIDTH) : a.ge b = decide (b.value ≤ a.value) := by
  rw [ge, compareTo_eq]
  split_ifs <;> simp <;> omega

theorem gt_eq (a b : BaseUint WIDTH) : a.gt b = decide (b.value < a.value) := by
  rw [gt, compareTo_eq]
  split_ifs <;> simp <;> omega

theorem le_eq (a b : BaseUint WIDTH) : a.le b = decide (a.value ≤ b.value) := by
  rw [le, compareTo_eq]
  split_ifs <;> simp <;> omega

/-- The inner loop of `bits()`, over bits 31 down to 1 of a nonzero limb; the
`return 32 * pos + 1` after it stands for bit 0. -/
def topBit (x : UInt32) : Nat → Nat
  | 0 => 1
  | bits + 1 =>
    if x &&& (1 : UInt32) <<< (bits + 1).toUInt32 != 0 then bits + 2 else topBit x bits

/-- The outer loop of `bits()`, over the limbs from the most significant one down;
`rest` holds those below, so `pos = rest.length`. -/
def bitsLoop : List UInt32 → Nat
  | [] => 0
  | x :: rest => if x ≠ 0 then 32 * rest.length + topBit x 31 else bitsLoop rest

/-- `bits()`: the position of the highest bit set, plus one. -/
def bits (a : BaseUint WIDTH) : Nat := bitsLoop a.pn.reverse

theorem topBit_eq (x : UInt32) {b : Nat} (small : b < 32) (nonzero : x ≠ 0)
    (fits : x.toNat < 2 ^ (b + 1)) : topBit x b = Nat.size x.toNat := by
  -- the loop looks at bit `b` and, if it is clear, at the bits below it
  induction b with
  | zero =>
    have one : x.toNat = 1 := by
      have : x.toNat ≠ 0 := fun isZero => nonzero (UInt32.toNat_inj.mp isZero)
      omega
    rw [topBit, one, Nat.size_one]
  | succ b ih =>
    have bit : (x &&& (1 : UInt32) <<< (b + 1).toUInt32 != 0) = x.toNat.testBit (b + 1) := by
      rw [bne, Bits.and_one_shiftLeft_eq_zero small, Bool.not_not]
    simp only [topBit, bit]
    cases set : x.toNat.testBit (b + 1)
    · -- bit `b + 1` is clear, so the limb is below `2 ^ (b + 1)`
      have below : x.toNat < 2 ^ (b + 1) := by
        apply Nat.lt_pow_two_of_testBit
        intro i atLeast
        rcases Nat.eq_or_lt_of_le atLeast with rfl | above
        · exact set
        · exact Nat.testBit_lt_two_pow (lt_of_lt_of_le fits (Nat.pow_le_pow_right (by norm_num) above))
      simp only [Bool.false_eq_true, if_false]
      exact ih (by omega) below
    · simp only [if_true]
      exact (Limbs.size_eq_of_testBit fits set).symm

theorem bitsLoop_eq (xs : List UInt32) : bitsLoop xs = Nat.size (Limbs.value xs.reverse) := by
  -- induction from the most significant limb down to the first nonzero one
  induction xs with
  | nil => simp [bitsLoop]
  | cons x rest ih =>
    rw [bitsLoop, List.reverse_cons, Limbs.value_append, Limbs.value_cons, Limbs.value_nil,
      Nat.mul_zero, Nat.add_zero, List.length_reverse]
    by_cases zero : x = 0
    · subst zero
      simp [ih]
    · have nonzero : x.toNat ≠ 0 := fun isZero => zero (UInt32.toNat_inj.mp isZero)
      rw [if_pos zero, Limbs.size_add_two_pow_mul (by simpa using Limbs.value_lt rest.reverse)
        nonzero, topBit_eq x (by norm_num) zero x.toNat_lt]

theorem bits_eq (a : BaseUint WIDTH) : a.bits = Nat.size a.value := by
  rw [bits, bitsLoop_eq, List.reverse_reverse]
  rfl

/-- One round `i` of the loop of `operator<<=`, with `k = shift / 32` and
`r = shift % 32`: the top `r` bits of `a.pn[i]` go into limb `i + k + 1`, the
others into limb `i + k`. -/
def shiftLeftRound (a : BaseUint WIDTH) (k r : Nat) (pn : List UInt32) (i : Nat) : List UInt32 :=
  let pn := if i + k + 1 < WIDTH ∧ r ≠ 0 then
      Limbs.orAt pn (i + k + 1) (a.pn.getD i 0 >>> (32 - r).toUInt32) else pn
  if i + k < WIDTH then Limbs.orAt pn (i + k) (a.pn.getD i 0 <<< r.toUInt32) else pn

theorem length_shiftLeftRound (a : BaseUint WIDTH) (k r : Nat) (pn : List UInt32) (i : Nat) :
    (a.shiftLeftRound k r pn i).length = pn.length := by
  simp only [shiftLeftRound]
  split_ifs <;> simp

theorem length_foldl_shiftLeftRound (a : BaseUint WIDTH) (k r : Nat) (rounds pn : List _) :
    (rounds.foldl (a.shiftLeftRound k r) pn).length = pn.length := by
  induction rounds generalizing pn with
  | nil => rfl
  | cons i rounds ih => rw [List.foldl_cons, ih, length_shiftLeftRound]

/-- `operator<<=(unsigned int shift)`: `*this` is cleared and each limb of the
copy `a` is ORed into place. -/
def shiftLeftAssign (a : BaseUint WIDTH) (shift : Nat) : BaseUint WIDTH :=
  ⟨(List.range WIDTH).foldl (a.shiftLeftRound (shift / 32) (shift % 32)) (List.replicate WIDTH 0),
    by rw [length_foldl_shiftLeftRound, List.length_replicate]⟩

theorem getD_shiftLeftRound (a : BaseUint WIDTH) (k r : Nat) {pn : List UInt32}
    (length : pn.length = WIDTH) (i : Nat) {j : Nat} (inside : j < WIDTH) :
    (a.shiftLeftRound k r pn i).getD j 0 =
      (pn.getD j 0 ||| if j = i + k + 1 ∧ r ≠ 0 then a.pn.getD i 0 >>> (32 - r).toUInt32 else 0) |||
        if j = i + k then a.pn.getD i 0 <<< r.toUInt32 else 0 := by
  have hiLength : (if i + k + 1 < WIDTH ∧ r ≠ 0 then
      Limbs.orAt pn (i + k + 1) (a.pn.getD i 0 >>> (32 - r).toUInt32) else pn).length = WIDTH := by
    split <;> simp [length]
  simp only [shiftLeftRound]
  rw [Limbs.getD_orAt_if _ _ _ _ (by omega), Limbs.getD_orAt_if _ _ _ _ (by omega)]
  -- a target inside the limbs makes the bound in each condition redundant
  have hi : (j = i + k + 1 ∧ i + k + 1 < WIDTH ∧ r ≠ 0) ↔ (j = i + k + 1 ∧ r ≠ 0) := by omega
  have lo : (j = i + k ∧ i + k < WIDTH) ↔ j = i + k := by omega
  simp only [hi, lo]

/-- Limb `j` after the rounds `0` to `m - 1` of `operator<<=`. -/
def shiftedUpTo (a : BaseUint WIDTH) (k r m j : Nat) : UInt32 :=
  (if k + 1 ≤ j ∧ j < m + k + 1 ∧ r ≠ 0 then a.pn.getD (j - k - 1) 0 >>> (32 - r).toUInt32
    else 0) |||
    if k ≤ j ∧ j < m + k then a.pn.getD (j - k) 0 <<< r.toUInt32 else 0

theorem getD_shiftLeftRounds (a : BaseUint WIDTH) (k r : Nat) {m : Nat} (rounds : m ≤ WIDTH)
    {j : Nat} (inside : j < WIDTH) :
    ((List.range m).foldl (a.shiftLeftRound k r) (List.replicate WIDTH 0)).getD j 0 =
      a.shiftedUpTo k r m j := by
  -- induction over the rounds; round `m` only writes limbs `m + k` and `m + k + 1`
  induction m with
  | zero =>
    rw [List.range_zero, List.foldl_nil, List.getD_replicate _ inside, shiftedUpTo,
      if_neg (by omega), if_neg (by omega), UInt32.or_zero]
  | succ m ih =>
    rw [List.range_succ, List.foldl_concat,
      getD_shiftLeftRound a k r (by rw [length_foldl_shiftLeftRound, List.length_replicate]) m inside,
      ih (by omega)]
    simp only [shiftedUpTo]
    by_cases top : j = m + k + 1
    · -- the first write to limb `j`: the top bits of `a.pn[m]`
      subst top
      have oldHi : ¬ (k + 1 ≤ m + k + 1 ∧ m + k + 1 < m + k + 1 ∧ r ≠ 0) := by omega
      have oldLo : ¬ (k ≤ m + k + 1 ∧ m + k + 1 < m + k) := by omega
      have writeLo : ¬ m + k + 1 = m + k := by omega
      have newHi : (k + 1 ≤ m + k + 1 ∧ m + k + 1 < m + 1 + k + 1 ∧ r ≠ 0) ↔
          (m + k + 1 = m + k + 1 ∧ r ≠ 0) := by omega
      have newLo : ¬ (k ≤ m + k + 1 ∧ m + k + 1 < m + 1 + k) := by omega
      have index : m + k + 1 - k - 1 = m := by omega
      simp only [if_neg oldHi, if_neg oldLo, if_neg writeLo, newHi, if_neg newLo, index,
        UInt32.zero_or, UInt32.or_zero]
    by_cases low : j = m + k
    · -- the second write to limb `j`: the low bits of `a.pn[m]`
      subst low
      have oldLo : ¬ (k ≤ m + k ∧ m + k < m + k) := by omega
      have hiSame : (k + 1 ≤ m + k ∧ m + k < m + k + 1 ∧ r ≠ 0) ↔
          (k + 1 ≤ m + k ∧ m + k < m + 1 + k + 1 ∧ r ≠ 0) := by omega
      have newLo : k ≤ m + k ∧ m + k < m + 1 + k := by omega
      have writeHi : ¬ (m + k = m + k + 1 ∧ r ≠ 0) := fun write => top write.1
      have index : m + k - k = m := by omega
      simp only [if_neg oldLo, hiSame, if_neg writeHi, if_pos newLo, index, if_true,
        UInt32.or_zero]
    -- no write to limb `j` in this round
    have hiSame : (k + 1 ≤ j ∧ j < m + k + 1 ∧ r ≠ 0) ↔ (k + 1 ≤ j ∧ j < m + 1 + k + 1 ∧ r ≠ 0) := by
      omega
    have loSame : (k ≤ j ∧ j < m + k) ↔ (k ≤ j ∧ j < m + 1 + k) := by omega
    have writeHi : ¬ (j = m + k + 1 ∧ r ≠ 0) := fun write => top write.1
    simp only [hiSame, loSame, if_neg writeHi, if_neg low, UInt32.or_zero]

theorem testBit_shiftedUp (a : BaseUint WIDTH) (k : Nat) {r : Nat} (small : r < 32) {j : Nat}
    (limb : j < WIDTH) {t : Nat} (inside : t < 32) :
    (a.shiftedUpTo k r WIDTH j).toNat.testBit t =
      ((decide (k + 1 ≤ j ∧ r ≠ 0) && (a.pn.getD (j - k - 1) 0).toNat.testBit (32 - r + t)) ||
        (decide (k ≤ j ∧ r ≤ t) && (a.pn.getD (j - k) 0).toNat.testBit (t - r))) := by
  rw [shiftedUpTo, UInt32.toNat_or, Nat.testBit_or]
  congr 1
  · by_cases high : k + 1 ≤ j ∧ r ≠ 0
    · rw [if_pos ⟨high.1, by omega, high.2⟩, Limbs.testBit_shiftRight_limb _ (by omega),
        decide_eq_true high, Bool.true_and]
    · rw [if_neg (fun written => high ⟨written.1, written.2.2⟩), decide_eq_false high,
        Bool.false_and, UInt32.toNat_zero, Nat.zero_testBit]
  · by_cases reach : k ≤ j
    · rw [if_pos ⟨reach, by omega⟩, Limbs.testBit_shiftLeft_limb _ small inside]
      simp [reach]
    · rw [if_neg (fun written => reach written.1), UInt32.toNat_zero, Nat.zero_testBit]
      simp [reach]

theorem value_shiftLeftAssign (a : BaseUint WIDTH) (shift : Nat) :
    (a.shiftLeftAssign shift).value = a.value * 2 ^ shift % 2 ^ (32 * WIDTH) := by
  apply Nat.eq_of_testBit_eq
  intro n
  -- bit `n` of the number is bit `t` of limb `j`
  obtain ⟨j, t, inside, rfl⟩ : ∃ j t, t < 32 ∧ n = 32 * j + t :=
    ⟨n / 32, n % 32, Nat.mod_lt _ (by norm_num), (Nat.div_add_mod n 32).symm⟩
  rw [Nat.testBit_mod_two_pow, ← Nat.shiftLeft_eq, Nat.testBit_shiftLeft]
  by_cases limb : j < WIDTH
  · have small : shift % 32 < 32 := Nat.mod_lt _ (by norm_num)
    have split := Nat.div_add_mod shift 32
    rw [value, Limbs.testBit_value _ _ inside, shiftLeftAssign,
      getD_shiftLeftRounds _ _ _ le_rfl limb, testBit_shiftedUp _ _ small limb inside,
      decide_eq_true (by omega : 32 * j + t < 32 * WIDTH), Bool.true_and]
    by_cases low : shift % 32 ≤ t
    · -- the bit comes from limb `j - k`, `r` places lower
      have highClear : (a.pn.getD (j - shift / 32 - 1) 0).toNat.testBit (32 - shift % 32 + t) = false :=
        Limbs.testBit_limb_of_le _ (by omega)
      rw [highClear, Bool.and_false, Bool.false_or]
      by_cases reach : shift / 32 ≤ j
      · rw [show 32 * j + t - shift = 32 * (j - shift / 32) + (t - shift % 32) by omega, value,
          Limbs.testBit_value _ _ (by omega)]
        simp [reach, low, show shift ≤ 32 * j + t by omega]
      · simp [reach, show ¬ shift ≤ 32 * j + t by omega]
    · -- the bit comes from the top of limb `j - k - 1`
      by_cases reach : shift / 32 + 1 ≤ j
      · rw [show 32 * j + t - shift = 32 * (j - shift / 32 - 1) + (32 - shift % 32 + t) by omega,
          value, Limbs.testBit_value _ _ (by omega)]
        simp [reach, low, show shift % 32 ≠ 0 by omega, show shift ≤ 32 * j + t by omega]
      · simp [low, show ¬ (shift / 32 + 1 ≤ j) by omega, show ¬ shift ≤ 32 * j + t by omega]
  · -- past the limbs both numbers are clear
    rw [value, Limbs.testBit_value_of_le _ (by rw [length_pn]; omega)]
    simp [show ¬ 32 * j + t < 32 * WIDTH by omega]

/-- One round `i` of the loop of `operator>>=`: the low `r` bits of `a.pn[i]` go
into limb `i - k - 1`, the others into limb `i - k`. -/
def shiftRightRound (a : BaseUint WIDTH) (k r : Nat) (pn : List UInt32) (i : Nat) : List UInt32 :=
  let pn := if k + 1 ≤ i ∧ r ≠ 0 then
      Limbs.orAt pn (i - k - 1) (a.pn.getD i 0 <<< (32 - r).toUInt32) else pn
  if k ≤ i then Limbs.orAt pn (i - k) (a.pn.getD i 0 >>> r.toUInt32) else pn

theorem length_shiftRightRound (a : BaseUint WIDTH) (k r : Nat) (pn : List UInt32) (i : Nat) :
    (a.shiftRightRound k r pn i).length = pn.length := by
  simp only [shiftRightRound]
  split_ifs <;> simp

theorem length_foldl_shiftRightRound (a : BaseUint WIDTH) (k r : Nat) (rounds pn : List _) :
    (rounds.foldl (a.shiftRightRound k r) pn).length = pn.length := by
  induction rounds generalizing pn with
  | nil => rfl
  | cons i rounds ih => rw [List.foldl_cons, ih, length_shiftRightRound]

/-- `operator>>=(unsigned int shift)`. -/
def shiftRightAssign (a : BaseUint WIDTH) (shift : Nat) : BaseUint WIDTH :=
  ⟨(List.range WIDTH).foldl (a.shiftRightRound (shift / 32) (shift % 32)) (List.replicate WIDTH 0),
    by rw [length_foldl_shiftRightRound, List.length_replicate]⟩

theorem getD_shiftRightRound (a : BaseUint WIDTH) (k r : Nat) {pn : List UInt32}
    (length : pn.length = WIDTH) (i : Nat) {j : Nat} (inside : j < WIDTH) :
    (a.shiftRightRound k r pn i).getD j 0 =
      (pn.getD j 0 ||| if j + k + 1 = i ∧ r ≠ 0 then a.pn.getD i 0 <<< (32 - r).toUInt32 else 0) |||
        if j + k = i then a.pn.getD i 0 >>> r.toUInt32 else 0 := by
  have hiLength : (if k + 1 ≤ i ∧ r ≠ 0 then
      Limbs.orAt pn (i - k - 1) (a.pn.getD i 0 <<< (32 - r).toUInt32) else pn).length = WIDTH := by
    split <;> simp [length]
  simp only [shiftRightRound]
  rw [Limbs.getD_orAt_if _ _ _ _ (by omega), Limbs.getD_orAt_if _ _ _ _ (by omega)]
  -- the source limb of a target is found by adding `k` back
  have hi : (j = i - k - 1 ∧ k + 1 ≤ i ∧ r ≠ 0) ↔ (j + k + 1 = i ∧ r ≠ 0) := by omega
  have lo : (j = i - k ∧ k ≤ i) ↔ j + k = i := by omega
  simp only [hi, lo]

/-- Limb `j` after the rounds `0` to `m - 1` of `operator>>=`. -/
def shiftedDownTo (a : BaseUint WIDTH) (k r m j : Nat) : UInt32 :=
  (if j + k < m then a.pn.getD (j + k) 0 >>> r.toUInt32 else 0) |||
    if j + k + 1 < m ∧ r ≠ 0 then a.pn.getD (j + k + 1) 0 <<< (32 - r).toUInt32 else 0

theorem getD_shiftRightRounds (a : BaseUint WIDTH) (k r : Nat) {m : Nat} (rounds : m ≤ WIDTH)
    {j : Nat} (inside : j < WIDTH) :
    ((List.range m).foldl (a.shiftRightRound k r) (List.replicate WIDTH 0)).getD j 0 =
      a.shiftedDownTo k r m j := by
  -- induction over the rounds; round `m` only writes limbs `m - k` and `m - k - 1`
  induction m with
  | zero =>
    rw [List.range_zero, List.foldl_nil, List.getD_replicate _ inside, shiftedDownTo,
      if_neg (by omega), if_neg (by omega), UInt32.or_zero]
  | succ m ih =>
    rw [List.range_succ, List.foldl_concat,
      getD_shiftRightRound a k r (by rw [length_foldl_shiftRightRound, List.length_replicate]) m
        inside, ih (by omega)]
    simp only [shiftedDownTo]
    by_cases first : j + k = m
    · -- the first write to limb `j`: the high bits of `a.pn[m]`
      subst first
      have oldLo : ¬ j + k < j + k := by omega
      have oldHi : ¬ (j + k + 1 < j + k ∧ r ≠ 0) := by omega
      have writeHi : ¬ (j + k + 1 = j + k ∧ r ≠ 0) := by omega
      have newLo : j + k < j + k + 1 := by omega
      have newHi : ¬ (j + k + 1 < j + k + 1 ∧ r ≠ 0) := by omega
      simp only [if_neg oldLo, if_neg oldHi, if_neg writeHi, if_pos newLo, if_neg newHi, if_true,
        UInt32.zero_or, UInt32.or_zero]
    by_cases second : j + k + 1 = m
    · -- the second write to limb `j`: the low bits of `a.pn[m]`
      subst second
      have oldLo : j + k < j + k + 1 := by omega
      have oldHi : ¬ (j + k + 1 < j + k + 1 ∧ r ≠ 0) := by omega
      have newLo : j + k < j + k + 1 + 1 := by omega
      have newHi : (j + k + 1 < j + k + 1 + 1 ∧ r ≠ 0) ↔ (j + k + 1 = j + k + 1 ∧ r ≠ 0) := by
        omega
      simp only [if_pos oldLo, if_neg oldHi, if_neg first, if_pos newLo, newHi, UInt32.or_zero]
    -- no write to limb `j` in this round
    have loSame : j + k < m ↔ j + k < m + 1 := by omega
    have hiSame : (j + k + 1 < m ∧ r ≠ 0) ↔ (j + k + 1 < m + 1 ∧ r ≠ 0) := by omega
    have writeHi : ¬ (j + k + 1 = m ∧ r ≠ 0) := fun write => second write.1
    simp only [loSame, hiSame, if_neg writeHi, if_neg first, UInt32.or_zero]

theorem testBit_shiftedDown (a : BaseUint WIDTH) (k : Nat) {r : Nat} (small : r < 32) (j : Nat)
    {t : Nat} (inside : t < 32) :
    (a.shiftedDownTo k r WIDTH j).toNat.testBit t =
      ((a.pn.getD (j + k) 0).toNat.testBit (r + t) ||
        (decide (r ≠ 0 ∧ 32 - r ≤ t) && (a.pn.getD (j + k + 1) 0).toNat.testBit (t - (32 - r)))) := by
  have beyond : ∀ i, WIDTH ≤ i → a.pn.getD i 0 = 0 := fun i above =>
    List.getD_eq_default _ _ (by rw [length_pn]; exact above)
  rw [shiftedDownTo, UInt32.toNat_or, Nat.testBit_or]
  congr 1
  · by_cases within : j + k < WIDTH
    · rw [if_pos within, Limbs.testBit_shiftRight_limb _ small]
    · rw [if_neg within, beyond _ (by omega), UInt32.toNat_zero, Nat.zero_testBit, Nat.zero_testBit]
  · by_cases within : j + k + 1 < WIDTH ∧ r ≠ 0
    · rw [if_pos within, Limbs.testBit_shiftLeft_limb _ (by omega) inside]
      simp [within.2]
    · rw [if_neg within, UInt32.toNat_zero, Nat.zero_testBit]
      by_cases shifted : r = 0
      · simp [shifted]
      · rw [beyond _ (by omega), UInt32.toNat_zero, Nat.zero_testBit, Bool.and_false]

theorem value_shiftRightAssign (a : BaseUint WIDTH) (shift : Nat) :
    (a.shiftRightAssign shift).value = a.value / 2 ^ shift := by
  apply Nat.eq_of_testBit_eq
  intro n
  obtain ⟨j, t, inside, rfl⟩ : ∃ j t, t < 32 ∧ n = 32 * j + t :=
    ⟨n / 32, n % 32, Nat.mod_lt _ (by norm_num), (Nat.div_add_mod n 32).symm⟩
  rw [Nat.testBit_div_two_pow]
  by_cases limb : j < WIDTH
  · have small : shift % 32 < 32 := Nat.mod_lt _ (by norm_num)
    have split := Nat.div_add_mod shift 32
    rw [value, Limbs.testBit_value _ _ inside, shiftRightAssign,
      getD_shiftRightRounds _ _ _ le_rfl limb, testBit_shiftedDown _ _ small _ inside]
    by_cases low : t + shift % 32 < 32
    · -- the bit comes from limb `j + k`
      have notHigh : ¬ (shift % 32 ≠ 0 ∧ 32 - shift % 32 ≤ t) := by omega
      rw [show 32 * j + t + shift = 32 * (j + shift / 32) + (shift % 32 + t) by omega, value,
        Limbs.testBit_value _ _ (by omega), decide_eq_false notHigh, Bool.false_and, Bool.or_false]
    · -- the bit comes from the bottom of limb `j + k + 1`
      have lowClear : (a.pn.getD (j + shift / 32) 0).toNat.testBit (shift % 32 + t) = false :=
        Limbs.testBit_limb_of_le _ (by omega)
      rw [show 32 * j + t + shift = 32 * (j + shift / 32 + 1) + (t - (32 - shift % 32)) by omega,
        value, Limbs.testBit_value _ _ (by omega), lowClear, Bool.false_or]
      simp [show shift % 32 ≠ 0 by omega, show 32 - shift % 32 ≤ t by omega]
  · -- past the limbs both numbers are clear
    rw [value, Limbs.testBit_value_of_le _ (by rw [length_pn]; omega), value,
      Limbs.testBit_value_of_le _ (by rw [length_pn]; omega)]

end BaseUint

end Gaiacoin
