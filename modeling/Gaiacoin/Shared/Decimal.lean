import Mathlib

set_option autoImplicit false

/-!
# Decimal digit strings

Numbers written as decimal digit characters, most significant first: the value a
reader accumulates from left to right, the digits of a number in a field of fixed
width, and the zero padding of a `%0*d` field. `Nat.toDigits 10` is the unpadded
form.
-/

namespace Decimal

/-- `c - '0'`. -/
def digitValue (c : Char) : Nat := c.toNat - '0'.toNat

/-- `acc = 10 * acc + (c - '0')` over the characters, from zero. -/
def value (ds : List Char) : Nat := ds.foldl (fun acc c => 10 * acc + digitValue c) 0

def fixedDigits : Nat → Nat → List Char
  | 0, _ => []
  | width + 1, n => Nat.digitChar (n / 10 ^ width % 10) :: fixedDigits width n

/-- A `%0*d` field: the digits behind enough `'0'`s to fill `width`. -/
def zeroPad (width : Nat) (ds : List Char) : List Char :=
  List.replicate (width - ds.length) '0' ++ ds

@[simp] theorem digitValue_digitChar {d : Nat} (small : d < 10) : digitValue (Nat.digitChar d) = d :=
  Nat.toNat_digitChar_sub_48_of_lt_ten small

theorem value_concat (ds : List Char) (c : Char) :
    value (ds ++ [c]) = 10 * value ds + digitValue c := by
  simp [value, List.foldl_append]

theorem value_toDigits (n : Nat) : value (Nat.toDigits 10 n) = n := by
  induction n using Nat.strong_induction_on with
  | _ n ih =>
    rw [Nat.toDigits_eq_if (by norm_num)]
    split
    next small => simp [value, digitValue_digitChar small]
    next large =>
      rw [value_concat, ih (n / 10) (by omega), digitValue_digitChar (Nat.mod_lt n (by norm_num))]
      omega

theorem isDigit_of_mem_toDigits {n : Nat} {c : Char} (mem : c ∈ Nat.toDigits 10 n) :
    c.isDigit = true :=
  Nat.isDigit_of_mem_toDigits (by norm_num) (by norm_num) mem

@[simp] theorem length_fixedDigits (width n : Nat) : (fixedDigits width n).length = width := by
  induction width with
  | zero => rfl
  | succ width ih => simp [fixedDigits, ih]

theorem isDigit_of_mem_fixedDigits {width n : Nat} {c : Char} (mem : c ∈ fixedDigits width n) :
    c.isDigit = true := by
  induction width with
  | zero => simp [fixedDigits] at mem
  | succ width ih =>
    rcases List.mem_cons.mp mem with rfl | rest
    next => simp [Nat.isDigit_digitChar, Nat.mod_lt]
    next => exact ih rest

theorem fixedDigits_zero (width : Nat) : fixedDigits width 0 = List.replicate width '0' := by
  induction width with
  | zero => rfl
  | succ width ih => simp [fixedDigits, ih, List.replicate_succ]

theorem fixedDigits_succ_right (width n : Nat) :
    fixedDigits (width + 1) n = fixedDigits width (n / 10) ++ [Nat.digitChar (n % 10)] := by
  induction width with
  | zero => simp [fixedDigits]
  | succ width ih =>
    have shift : n / 10 ^ (width + 1) = n / 10 / 10 ^ width := by
      rw [Nat.div_div_eq_div_mul, pow_succ, mul_comm]
    rw [fixedDigits, ih, fixedDigits, shift, List.cons_append]

theorem zeroPad_concat (width : Nat) (ds : List Char) (c : Char) :
    zeroPad (width + 1) (ds ++ [c]) = zeroPad width ds ++ [c] := by
  simp [zeroPad]

theorem zeroPad_toDigits {width n : Nat} (positive : 0 < width) (fits : n < 10 ^ width) :
    zeroPad width (Nat.toDigits 10 n) = fixedDigits width n := by
  obtain ⟨width, rfl⟩ : ∃ w, width = w + 1 := ⟨width - 1, by omega⟩
  clear positive
  -- the last digit is written last by both, and the field is filled from the left
  induction width generalizing n with
  | zero =>
    rw [Nat.toDigits_of_lt_base (by simpa using fits)]
    simp [zeroPad, fixedDigits, Nat.mod_eq_of_lt (show n < 10 by simpa using fits)]
  | succ width ih =>
    rw [fixedDigits_succ_right]
    by_cases small : n < 10
    next =>
      rw [Nat.toDigits_of_lt_base small, Nat.div_eq_of_lt small, fixedDigits_zero,
        Nat.mod_eq_of_lt small]
      simp [zeroPad, List.replicate_succ']
    next =>
      have fitsTen : n / 10 < 10 ^ (width + 1) := by
        rw [pow_succ] at fits
        omega
      rw [Nat.toDigits_of_base_le (by norm_num) (by omega), zeroPad_concat, ih fitsTen]

end Decimal
