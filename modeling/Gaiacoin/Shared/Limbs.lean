import Mathlib
import Gaiacoin.Shared.Bits

set_option autoImplicit false

/-!
# Little-endian 32-bit limbs

A number kept as a list of 32-bit limbs, least significant first, and what
big-integer code does with such lists: a carry chain through a 64-bit
accumulator (`value_carryLoop`), a comparison that decides at the most
significant limb that differs (`value_concat_lt_iff`), and the bit of the number
that a limb's bit stands for (`testBit_value`).
-/

namespace Limbs

def value (limbs : List UInt32) : Nat := Nat.ofDigits (2 ^ 32) (limbs.map UInt32.toNat)

@[simp] theorem value_nil : value [] = 0 := rfl

@[simp] theorem value_cons (x : UInt32) (xs : List UInt32) :
    value (x :: xs) = x.toNat + 2 ^ 32 * value xs := by
  simp [value, Nat.ofDigits_cons]

theorem value_append (xs ys : List UInt32) :
    value (xs ++ ys) = value xs + 2 ^ (32 * xs.length) * value ys := by
  rw [value, List.map_append, Nat.ofDigits_append, List.length_map, pow_mul]
  rfl

@[simp] theorem value_replicate_zero (n : Nat) : value (List.replicate n 0) = 0 := by
  induction n with
  | zero => rfl
  | succ n ih => simp [List.replicate_succ, ih]

theorem value_lt (xs : List UInt32) : value xs < 2 ^ (32 * xs.length) := by
  have digits : ∀ d ∈ xs.map UInt32.toNat, d < 2 ^ 32 := by
    simp only [List.mem_map]
    rintro _ ⟨x, -, rfl⟩
    exact x.toNat_lt
  have bound := Nat.ofDigits_lt_base_pow_length (by norm_num) digits
  rwa [List.length_map, ← pow_mul] at bound

/-- A carry chain: each limb is the low half of `carry + term x` in a 64-bit
accumulator, and the high half is carried into the next limb. The last carry is
dropped. -/
def carryLoop {α : Type} (term : α → UInt64) : UInt64 → List α → List UInt32
  | _, [] => []
  | carry, x :: xs =>
    let n := carry + term x
    (n &&& 0xffffffff).toUInt32 :: carryLoop term (n >>> 32) xs

@[simp] theorem length_carryLoop {α : Type} (term : α → UInt64) (carry : UInt64) (xs : List α) :
    (carryLoop term carry xs).length = xs.length := by
  induction xs generalizing carry with
  | nil => rfl
  | cons x xs ih => simp [carryLoop, ih]

theorem toNat_lowHalf (n : UInt64) : (n &&& 0xffffffff).toUInt32.toNat = n.toNat % 2 ^ 32 := by
  rw [UInt64.toNat_toUInt32, UInt64.toNat_and,
    show (0xffffffff : UInt64).toNat = 2 ^ 32 - 1 from rfl, Nat.and_two_pow_sub_one_eq_mod,
    Nat.mod_mod]

theorem toNat_highHalf (n : UInt64) : (n >>> 32).toNat = n.toNat / 2 ^ 32 := by
  rw [UInt64.toNat_shiftRight, Nat.shiftRight_eq_div_pow]
  rfl

theorem toNat_toUInt64_mul (x y : UInt32) :
    (x.toUInt64 * y.toUInt64).toNat = x.toNat * y.toNat := by
  have bound : x.toNat * y.toNat < 2 ^ 64 :=
    calc x.toNat * y.toNat < 2 ^ 32 * 2 ^ 32 := Nat.mul_lt_mul'' x.toNat_lt y.toNat_lt
      _ = 2 ^ 64 := by norm_num
  rw [UInt64.toNat_mul, UInt32.toNat_toUInt64, UInt32.toNat_toUInt64, Nat.mod_eq_of_lt bound]

theorem mul_add_le (x y z : UInt32) : z.toNat + x.toNat * y.toNat ≤ 2 ^ 64 - 2 ^ 32 := by
  have product : x.toNat * y.toNat ≤ (2 ^ 32 - 1) * (2 ^ 32 - 1) :=
    Nat.mul_le_mul (Nat.le_pred_of_lt x.toNat_lt) (Nat.le_pred_of_lt y.toNat_lt)
  have := z.toNat_lt
  norm_num at product ⊢
  omega

theorem add_mul_mod_mul (n s B M : Nat) :
    (n + B * s) % (B * M) = n % B + B * ((n / B + s) % M) := by
  rcases Nat.eq_zero_or_pos B with rfl | positive
  · simp
  rw [Nat.mod_mul, Nat.add_mul_mod_self_left, Nat.add_mul_div_left _ _ positive]

theorem value_carryLoop {α : Type} (term : α → UInt64) (carry : UInt64) (xs : List α)
    (small : carry.toNat < 2 ^ 32) (bounded : ∀ x ∈ xs, (term x).toNat ≤ 2 ^ 64 - 2 ^ 32) :
    value (carryLoop term carry xs) =
      (carry.toNat + Nat.ofDigits (2 ^ 32) (xs.map fun x => (term x).toNat)) %
        2 ^ (32 * xs.length) := by
  -- induction over the limbs, with the carry into each limb generalized
  induction xs generalizing carry with
  | nil => simp [carryLoop, Nat.mod_one]
  | cons x xs ih =>
    have fits := bounded x List.mem_cons_self
    have sum : (carry + term x).toNat = carry.toNat + (term x).toNat := by
      rw [UInt64.toNat_add]
      exact Nat.mod_eq_of_lt (by omega)
    have carried : ((carry + term x) >>> 32).toNat < 2 ^ 32 := by
      rw [toNat_highHalf, sum, Nat.div_lt_iff_lt_mul (by norm_num)]
      omega
    have rest := ih ((carry + term x) >>> 32) carried
      (fun y mem => bounded y (List.mem_cons_of_mem x mem))
    simp only [carryLoop, value_cons, rest, toNat_lowHalf, toNat_highHalf, sum, List.map_cons,
      Nat.ofDigits_cons, List.length_cons, Nat.mul_succ, pow_add, ← Nat.add_assoc]
    rw [Nat.mul_comm (2 ^ (32 * xs.length)), add_mul_mod_mul]

theorem ofDigits_zip_add_mul (c : Nat) {xs ys : List UInt32} (long : xs.length ≤ ys.length) :
    Nat.ofDigits (2 ^ 32) ((xs.zip ys).map fun p => p.1.toNat + c * p.2.toNat) =
      value xs + c * value (ys.take xs.length) := by
  induction xs generalizing ys with
  | nil => simp
  | cons x xs ih =>
    obtain ⟨y, ys, rfl⟩ : ∃ y rest, ys = y :: rest := by
      cases ys with
      | nil => simp at long
      | cons y rest => exact ⟨y, rest, rfl⟩
    have rest := ih (show xs.length ≤ ys.length by simpa using long)
    simp only [List.zip_cons_cons, List.map_cons, Nat.ofDigits_cons, rest, value_cons,
      List.length_cons, List.take_succ_cons]
    ring

theorem ofDigits_map_mul (c : Nat) (xs : List UInt32) :
    Nat.ofDigits (2 ^ 32) (xs.map fun x => c * x.toNat) = c * value xs := by
  induction xs with
  | nil => simp
  | cons x xs ih =>
    simp only [List.map_cons, Nat.ofDigits_cons, ih, value_cons]
    ring

theorem value_map_complement (xs : List UInt32) :
    value (xs.map (~~~ ·)) + value xs + 1 = 2 ^ (32 * xs.length) := by
  induction xs with
  | nil => simp
  | cons x xs ih =>
    have limb : (~~~x).toNat + x.toNat + 1 = 2 ^ 32 := by
      rw [UInt32.toNat_not]
      have := x.toNat_lt
      simp only [UInt32.size]
      omega
    simp only [List.map_cons, value_cons, List.length_cons, Nat.mul_succ, pow_add]
    calc (~~~x).toNat + 2 ^ 32 * value (xs.map (~~~ ·)) + (x.toNat + 2 ^ 32 * value xs) + 1
        = ((~~~x).toNat + x.toNat + 1) + 2 ^ 32 * (value (xs.map (~~~ ·)) + value xs) := by ring
      _ = 2 ^ 32 + 2 ^ 32 * (2 ^ (32 * xs.length) - 1) := by rw [limb, ← ih]; simp
      _ = 2 ^ (32 * xs.length) * 2 ^ 32 := by
        have := Nat.one_le_two_pow (n := 32 * xs.length)
        rw [Nat.mul_sub, Nat.mul_one, Nat.mul_comm]
        omega

theorem value_concat_lt_iff {xs ys : List UInt32} (x y : UInt32) (same : xs.length = ys.length) :
    value (xs ++ [x]) < value (ys ++ [y]) ↔
      x.toNat < y.toNat ∨ (x = y ∧ value xs < value ys) := by
  have lowX := value_lt xs
  have lowY := value_lt ys
  rw [value_append, value_append, same, value_cons, value_cons, value_nil, Nat.mul_zero,
    Nat.add_zero, Nat.add_zero]
  rw [same] at lowX
  set B := 2 ^ (32 * ys.length)
  constructor
  · intro less
    rcases Nat.lt_trichotomy x.toNat y.toNat with below | equal | above
    · exact Or.inl below
    · have sameTop : x = y := UInt32.toNat_inj.mp equal
      subst sameTop
      exact Or.inr ⟨rfl, by omega⟩
    · have step : B * (y.toNat + 1) ≤ B * x.toNat := Nat.mul_le_mul_left B above
      rw [Nat.mul_succ] at step
      omega
  · rintro (below | ⟨rfl, less⟩)
    · have step : B * (x.toNat + 1) ≤ B * y.toNat := Nat.mul_le_mul_left B below
      rw [Nat.mul_succ] at step
      omega
    · omega

theorem testBit_value (xs : List UInt32) (j : Nat) {t : Nat} (inside : t < 32) :
    (value xs).testBit (32 * j + t) = (xs.getD j 0).toNat.testBit t := by
  induction xs generalizing j with
  | nil => simp
  | cons x xs ih =>
    rw [value_cons, Nat.add_comm x.toNat, Nat.testBit_two_pow_mul_add _ x.toNat_lt]
    cases j with
    | zero => simp [inside]
    | succ j =>
      rw [if_neg (by omega), show 32 * (j + 1) + t - 32 = 32 * j + t by omega, ih,
        List.getD_cons_succ]

theorem value_set (xs : List UInt32) {j : Nat} (x : UInt32) (inside : j < xs.length) :
    value (xs.set j x) + 2 ^ (32 * j) * (xs.getD j 0).toNat =
      value xs + 2 ^ (32 * j) * x.toNat := by
  induction xs generalizing j with
  | nil => cases inside
  | cons y ys ih =>
    cases j with
    | zero => simp only [List.set_cons_zero, value_cons, List.getD_cons_zero]; ring
    | succ j =>
      have rest := ih (j := j) (by simpa using inside)
      simp only [List.set_cons_succ, value_cons, List.getD_cons_succ, Nat.mul_succ, pow_add]
      calc y.toNat + 2 ^ 32 * value (ys.set j x) + 2 ^ (32 * j) * 2 ^ 32 * (ys.getD j 0).toNat
          = y.toNat + 2 ^ 32 * (value (ys.set j x) + 2 ^ (32 * j) * (ys.getD j 0).toNat) := by ring
        _ = y.toNat + 2 ^ 32 * (value ys + 2 ^ (32 * j) * x.toNat) := by rw [rest]
        _ = y.toNat + 2 ^ 32 * value ys + 2 ^ (32 * j) * 2 ^ 32 * x.toNat := by ring

/-- `pn[index] |= bits`. -/
def orAt (pn : List UInt32) (index : Nat) (bits : UInt32) : List UInt32 :=
  pn.modify index (· ||| bits)

@[simp] theorem length_orAt (pn : List UInt32) (index : Nat) (bits : UInt32) :
    (orAt pn index bits).length = pn.length :=
  List.length_modify _ _ _

theorem getD_orAt (pn : List UInt32) (index : Nat) (bits : UInt32) {j : Nat} (inside : j < pn.length) :
    (orAt pn index bits).getD j 0 = pn.getD j 0 ||| if j = index then bits else 0 := by
  rw [orAt, List.getD_eq_getElem?_getD, List.getElem?_modify, List.getD_eq_getElem?_getD,
    List.getElem?_eq_getElem inside]
  by_cases same : j = index
  · simp [same]
  · simp [same, Ne.symm same]

theorem getD_orAt_if (c : Prop) [Decidable c] (pn : List UInt32) (index : Nat) (bits : UInt32)
    {j : Nat} (inside : j < pn.length) :
    (if c then orAt pn index bits else pn).getD j 0 =
      pn.getD j 0 ||| if j = index ∧ c then bits else 0 := by
  by_cases holds : c
  · simp only [holds, if_true, and_true, getD_orAt pn index bits inside]
  · simp [holds]

theorem testBit_shiftLeft_limb (x : UInt32) {r : Nat} (small : r < 32) {t : Nat} (inside : t < 32) :
    (x <<< r.toUInt32).toNat.testBit t = (decide (r ≤ t) && x.toNat.testBit (t - r)) := by
  have amount : r.toUInt32.toNat % 32 = r := by
    rw [Nat.toUInt32, UInt32.toNat_ofNat']
    omega
  rw [UInt32.toNat_shiftLeft, amount, Nat.testBit_mod_two_pow, Nat.testBit_shiftLeft]
  simp [inside]

theorem testBit_shiftRight_limb (x : UInt32) {r : Nat} (small : r < 32) (t : Nat) :
    (x >>> r.toUInt32).toNat.testBit t = x.toNat.testBit (r + t) := by
  have amount : r.toUInt32.toNat % 32 = r := by
    rw [Nat.toUInt32, UInt32.toNat_ofNat']
    omega
  rw [UInt32.toNat_shiftRight, amount, Nat.testBit_shiftRight]

theorem testBit_limb_of_le (x : UInt32) {n : Nat} (outside : 32 ≤ n) : x.toNat.testBit n = false :=
  Nat.testBit_lt_two_pow (lt_of_lt_of_le x.toNat_lt (Nat.pow_le_pow_right (by norm_num) outside))

theorem testBit_value_of_le (xs : List UInt32) {n : Nat} (outside : 32 * xs.length ≤ n) :
    (value xs).testBit n = false :=
  Nat.testBit_lt_two_pow (lt_of_lt_of_le (value_lt xs) (Nat.pow_le_pow_right (by norm_num) outside))

theorem or_two_pow_eq_add {x i : Nat} (clear : x.testBit i = false) : x ||| 2 ^ i = x + 2 ^ i := by
  -- below bit `i`, and the bits from `i + 1` up
  have low : x % 2 ^ (i + 1) < 2 ^ i := by
    rw [Nat.mod_pow_succ]
    have : x / 2 ^ i % 2 = 0 := by
      rw [Nat.testBit_eq_decide_div_mod_eq, decide_eq_false_iff_not] at clear
      omega
    rw [this, Nat.mul_zero, Nat.add_zero]
    exact Nat.mod_lt _ (by positivity)
  have split := Nat.div_add_mod x (2 ^ (i + 1))
  have below : 2 ^ i + x % 2 ^ (i + 1) < 2 ^ (i + 1) := by
    have double : 2 ^ (i + 1) = 2 * 2 ^ i := by ring
    omega
  calc x ||| 2 ^ i
      = (2 ^ (i + 1) * (x / 2 ^ (i + 1)) ||| x % 2 ^ (i + 1)) ||| 2 ^ i := by
        rw [← Nat.two_pow_add_eq_or_of_lt (Nat.mod_lt _ (by positivity)), split]
    _ = 2 ^ (i + 1) * (x / 2 ^ (i + 1)) ||| (2 ^ i * 1 ||| x % 2 ^ (i + 1)) := by
        rw [Nat.or_assoc, Nat.mul_one, Nat.or_comm (x % 2 ^ (i + 1))]
    _ = 2 ^ (i + 1) * (x / 2 ^ (i + 1)) + (2 ^ i + x % 2 ^ (i + 1)) := by
        rw [← Nat.two_pow_add_eq_or_of_lt low, Nat.mul_one,
          ← Nat.two_pow_add_eq_or_of_lt below]
    _ = x + 2 ^ i := by omega

theorem value_orAt_bit (xs : List UInt32) {s : Nat} (inside : s < 32 * xs.length)
    (clear : (value xs).testBit s = false) :
    value (orAt xs (s / 32) ((1 : UInt32) <<< (s % 32).toUInt32)) = value xs + 2 ^ s := by
  have limb : s / 32 < xs.length := by omega
  have split := Nat.div_add_mod s 32
  have bit := Bits.toNat_one_shiftLeft (Nat.mod_lt s (by norm_num) : s % 32 < 32)
  have limbClear : (xs.getD (s / 32) 0).toNat.testBit (s % 32) = false := by
    rw [← testBit_value _ _ (Nat.mod_lt _ (by norm_num)), split]
    exact clear
  have set := value_set xs (((xs.getD (s / 32) 0)) ||| (1 : UInt32) <<< (s % 32).toUInt32) limb
  rw [UInt32.toNat_or, bit, or_two_pow_eq_add limbClear, Nat.mul_add] at set
  rw [orAt, List.modify_eq_set, ← List.getD_eq_getElem?_getD]
  have weight : 2 ^ (32 * (s / 32)) * 2 ^ (s % 32) = 2 ^ s := by rw [← pow_add, split]
  change value (xs.set (s / 32) (xs.getD (s / 32) 0 ||| (1 : UInt32) <<< (s % 32).toUInt32)) = _
  rw [← weight]
  omega

theorem size_add_two_pow_mul {low high n : Nat} (below : low < 2 ^ n) (nonzero : high ≠ 0) :
    Nat.size (low + 2 ^ n * high) = n + Nat.size high := by
  have positive : 0 < Nat.size high := Nat.size_pos.mpr (Nat.pos_of_ne_zero nonzero)
  have fits : high < 2 ^ Nat.size high := Nat.lt_size_self high
  have reaches : 2 ^ (Nat.size high - 1) ≤ high := Nat.lt_size.mp (by omega)
  apply le_antisymm
  · rw [Nat.size_le, pow_add]
    have : 2 ^ n * (high + 1) ≤ 2 ^ n * 2 ^ Nat.size high := Nat.mul_le_mul_left _ fits
    rw [Nat.mul_succ] at this
    omega
  · have top : n + Nat.size high - 1 < Nat.size (low + 2 ^ n * high) := by
      rw [Nat.lt_size, show n + Nat.size high - 1 = n + (Nat.size high - 1) by omega, pow_add]
      have := Nat.mul_le_mul_left (2 ^ n) reaches
      omega
    omega

theorem size_eq_of_testBit {x b : Nat} (fits : x < 2 ^ (b + 1)) (set : x.testBit b = true) :
    Nat.size x = b + 1 := by
  apply le_antisymm (Nat.size_le.mpr fits)
  exact Nat.lt_size.mpr (Nat.ge_two_pow_of_testBit set)

end Limbs
