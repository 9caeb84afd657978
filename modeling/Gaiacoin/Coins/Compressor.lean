import Gaiacoin.Primitives.Transaction

set_option autoImplicit false

/-!
# Amount compression (`compressor.cpp`)

`CompressAmount` and `DecompressAmount` on `uint64_t`. Their divisions never
overflow, and what they add and multiply is reduced modulo `2 ^ 64`, so each is
the map of values that the comment above them describes, taken modulo `2 ^ 64`.
The two maps of values invert each other; with `MAX_MONEY` equal to
`INT64_MAX`, `CompressAmount` of an amount in range can pass `2 ^ 64`.
-/

namespace Gaiacoin

namespace CTxOutCompressor

/-- The `while` loop of `CompressAmount`: at most nine trailing zeros come off. -/
def stripZeros (n : UInt64) (e : Nat) : UInt64 × Nat :=
  if n % 10 = 0 ∧ e < 9 then stripZeros (n / 10) (e + 1) else (n, e)
termination_by 9 - e

def compressAmount (n : UInt64) : Checked UInt64 :=
  if n = 0 then pure 0
  else
    let (n, e) := stripZeros n 0
    if e < 9 then
      let d := (n % 10).toNat
      if ¬(d ≥ 1 ∧ d ≤ 9) then throw .assertion
      else
        let n := n / 10
        pure (1 + (n * 9 + UInt64.ofNat d - 1) * 10 + UInt64.ofNat e)
    else pure (1 + (n - 1) * 10 + 9)

/-- The `while (e)` loop of `DecompressAmount`. -/
def timesTen (n : UInt64) : Nat → UInt64
  | 0 => n
  | e + 1 => timesTen (n * 10) e

def decompressAmount (x : UInt64) : UInt64 :=
  if x = 0 then 0
  else
    let x := x - 1
    let e := (x % 10).toNat
    let x := x / 10
    let n := if e < 9 then x / 9 * 10 + (x % 9 + 1) else x + 1
    timesTen n e

section Values

def stripTens (n e : Nat) : Nat × Nat :=
  if n % 10 = 0 ∧ e < 9 then stripTens (n / 10) (e + 1) else (n, e)
termination_by 9 - e

/-- `1 + 10*(9*n + d - 1) + e`, or `1 + 10*(n - 1) + 9` once nine zeros came
off. -/
def compressValue (n : Nat) : Nat :=
  if n = 0 then 0
  else
    let (m, e) := stripTens n 0
    if e < 9 then 1 + (m / 10 * 9 + m % 10 - 1) * 10 + e else 1 + (m - 1) * 10 + 9

def decompressValue (x : Nat) : Nat :=
  if x = 0 then 0
  else
    let e := (x - 1) % 10
    let a := (x - 1) / 10
    (if e < 9 then a / 9 * 10 + (a % 9 + 1) else a + 1) * 10 ^ e

theorem stripTens_spec (n e₀ : Nat) (start : e₀ ≤ 9) :
    ∃ m e, stripTens n e₀ = (m, e) ∧ m * 10 ^ (e - e₀) = n ∧ e₀ ≤ e ∧ e ≤ 9 ∧
      (e < 9 → m % 10 ≠ 0) := by
  induction n, e₀ using stripTens.induct with
  | case1 n e₀ strip ih =>
    obtain ⟨m, e, eq, value, low, high, last⟩ := ih (by omega)
    refine ⟨m, e, by rw [stripTens, if_pos strip, eq], ?_, by omega, high, last⟩
    -- one zero more than from `e₀ + 1`
    have more : e - e₀ = (e - (e₀ + 1)) + 1 := by omega
    rw [more, Nat.pow_succ, ← Nat.mul_assoc, value]
    omega
  | case2 n e₀ keep =>
    refine ⟨n, e₀, by rw [stripTens, if_neg keep], by simp, le_rfl, start, ?_⟩
    intro below
    exact fun zero => keep ⟨zero, below⟩

theorem stripTens_of_mantissa (m : Nat) :
    ∀ e k, k + e ≤ 9 → (k + e < 9 → m % 10 ≠ 0) → stripTens (m * 10 ^ e) k = (m, k + e) := by
  intro e
  induction e with
  | zero =>
    intro k bound last
    rw [stripTens, if_neg]
    · simp
    · intro ⟨zero, below⟩
      exact last (by omega) (by simpa using zero)
  | succ e ih =>
    intro k bound last
    have zero : m * 10 ^ (e + 1) % 10 = 0 := by
      rw [Nat.pow_succ, ← Nat.mul_assoc, Nat.mul_mod_left]
    rw [stripTens, if_pos ⟨zero, by omega⟩,
      show m * 10 ^ (e + 1) / 10 = m * 10 ^ e by rw [Nat.pow_succ, ← Nat.mul_assoc]; omega,
      ih (k + 1) (by omega) (fun below => last (by omega))]
    rw [Nat.add_assoc, Nat.add_comm 1 e]

theorem decompressValue_compressValue (n : Nat) : decompressValue (compressValue n) = n := by
  by_cases zero : n = 0
  · simp [compressValue, decompressValue, zero]
  obtain ⟨m, e, eq, value, -, high, last⟩ := stripTens_spec n 0 (by norm_num)
  rw [Nat.sub_zero] at value
  have positive : m ≠ 0 := by
    rintro rfl
    exact zero (by rw [← value, Nat.zero_mul])
  unfold compressValue decompressValue
  simp only [zero, if_false, eq]
  by_cases nine : e < 9
  · -- the last digit `d` of the mantissa is in `1..9`
    have digit := last nine
    simp only [nine, if_true]
    have code : (1 + (m / 10 * 9 + m % 10 - 1) * 10 + e - 1) % 10 = e := by omega
    have rest : (1 + (m / 10 * 9 + m % 10 - 1) * 10 + e - 1) / 10 = m / 10 * 9 + m % 10 - 1 := by
      omega
    rw [if_neg (by omega), code, rest, if_pos nine, ← value]
    congr 1
    omega
  · have all : e = 9 := by omega
    simp only [nine, if_false]
    rw [if_neg (by omega), show (1 + (m - 1) * 10 + 9 - 1) % 10 = 9 by omega, if_neg (by omega),
      show (1 + (m - 1) * 10 + 9 - 1) / 10 = m - 1 by omega, Nat.sub_add_cancel (by omega),
      ← value, all]

theorem compressValue_decompressValue (x : Nat) : compressValue (decompressValue x) = x := by
  by_cases zero : x = 0
  · simp [compressValue, decompressValue, zero]
  unfold decompressValue
  simp only [zero, if_false]
  by_cases nine : (x - 1) % 10 < 9
  · simp only [nine, if_true]
    -- the mantissa ends in the digit `a % 9 + 1`
    have strip := stripTens_of_mantissa ((x - 1) / 10 / 9 * 10 + ((x - 1) / 10 % 9 + 1))
      ((x - 1) % 10) 0 (by omega) (fun _ => by omega)
    rw [Nat.zero_add] at strip
    have nonzero : ((x - 1) / 10 / 9 * 10 + ((x - 1) / 10 % 9 + 1)) * 10 ^ ((x - 1) % 10) ≠ 0 :=
      Nat.mul_ne_zero (by omega) (by positivity)
    unfold compressValue
    simp only [nonzero, if_false, strip, nine, if_true]
    omega
  · simp only [nine, if_false]
    have all : (x - 1) % 10 = 9 := by omega
    rw [all]
    -- all nine zeros come off again, and the mantissa is `a + 1`
    have strip := stripTens_of_mantissa ((x - 1) / 10 + 1) 9 0 (by omega) (fun below => by omega)
    have positive : 1 ≤ (x - 1) / 10 + 1 := by omega
    have value : x = 1 + ((x - 1) / 10 + 1 - 1) * 10 + 9 := by omega
    generalize (x - 1) / 10 + 1 = m at strip positive value
    subst value
    unfold compressValue
    rw [if_neg (Nat.mul_ne_zero (by omega) (by norm_num)), strip]
    rfl

theorem compressValue_le (n : Nat) : compressValue n ≤ 9 * n + 99 := by
  by_cases zero : n = 0
  · simp [compressValue, zero]
  obtain ⟨m, e, eq, value, -, high, -⟩ := stripTens_spec n 0 (by norm_num)
  rw [Nat.sub_zero] at value
  have mantissa : m ≤ n := by
    rw [← value]
    exact Nat.le_mul_of_pos_right m (by positivity)
  unfold compressValue
  simp only [zero, if_false, eq]
  split_ifs with nine
  · omega
  · -- nine zeros came off: ten times the mantissa is at most the amount
    have all : e = 9 := by omega
    rw [all, show (10 : Nat) ^ 9 = 1000000000 by norm_num] at value
    omega

end Values

section Refinement

theorem stripZeros_eq (n : UInt64) (e : Nat) :
    ((stripZeros n e).1.toNat, (stripZeros n e).2) = stripTens n.toNat e := by
  induction n, e using stripZeros.induct with
  | case1 n e strip ih =>
    have strip' : n.toNat % 10 = 0 ∧ e < 9 := by
      refine ⟨?_, strip.2⟩
      have := congrArg UInt64.toNat strip.1
      simpa using this
    rw [stripZeros, if_pos strip, stripTens, if_pos strip', ih, UInt64.toNat_div]
    rfl
  | case2 n e keep =>
    have keep' : ¬(n.toNat % 10 = 0 ∧ e < 9) := by
      intro ⟨zero, below⟩
      apply keep
      refine ⟨UInt64.toNat_inj.mp ?_, below⟩
      simpa using zero
    rw [stripZeros, if_neg keep, stripTens, if_neg keep']

theorem compressAmount_eq (n : UInt64) :
    compressAmount n = .ok (UInt64.ofNat (compressValue n.toNat)) := by
  by_cases zero : n = 0
  · subst zero
    rfl
  have nonzero : n.toNat ≠ 0 := fun h => zero (UInt64.toNat_inj.mp h)
  obtain ⟨m, e, eq, value, -, high, last⟩ := stripTens_spec n.toNat 0 (by norm_num)
  have loop := stripZeros_eq n 0
  rw [eq] at loop
  simp only [Prod.mk.injEq] at loop
  obtain ⟨mantissa, exponent⟩ := loop
  unfold compressAmount compressValue
  simp only [zero, nonzero, if_false, eq]
  generalize stripZeros n 0 = r at mantissa exponent
  obtain ⟨r, e'⟩ := r
  simp only at mantissa exponent
  subst exponent
  by_cases nine : e' < 9
  · have digit := last nine
    have low : (r % 10).toNat = m % 10 := by rw [UInt64.toNat_mod, mantissa]; rfl
    simp only [nine, if_true, low]
    rw [if_neg (by omega)]
    -- each operation of the code is the operation on values, modulo `2 ^ 64`
    have quotient : r / 10 = UInt64.ofNat (m / 10) := by
      rw [← UInt64.ofNat_toNat (x := r / 10), UInt64.toNat_div, mantissa]
      rfl
    rw [quotient]
    simp only [UInt64.ofNat_add, UInt64.ofNat_mul]
    rw [UInt64.ofNat_sub (by omega)]
    simp only [UInt64.ofNat_add, UInt64.ofNat_mul]
    rfl
  · have positive : 1 ≤ m := by
      rcases Nat.eq_zero_or_pos m with rfl | pos
      · exact absurd (by rw [← value, Nat.zero_mul]) nonzero
      · exact pos
    simp only [nine, if_false]
    have whole : r = UInt64.ofNat m := by
      rw [← UInt64.ofNat_toNat (x := r), mantissa]
    rw [whole, UInt64.ofNat_add, UInt64.ofNat_add, UInt64.ofNat_mul, UInt64.ofNat_sub positive]
    rfl

theorem timesTen_ofNat (a : Nat) : ∀ e, timesTen (UInt64.ofNat a) e = UInt64.ofNat (a * 10 ^ e) := by
  intro e
  induction e generalizing a with
  | zero => simp [timesTen]
  | succ e ih =>
    rw [timesTen, show UInt64.ofNat a * 10 = UInt64.ofNat (a * 10) by rw [UInt64.ofNat_mul]; rfl, ih,
      Nat.pow_succ, Nat.mul_comm (10 ^ e) 10, Nat.mul_assoc]

theorem decompressAmount_eq (x : UInt64) :
    decompressAmount x = UInt64.ofNat (decompressValue x.toNat) := by
  by_cases zero : x = 0
  · subst zero
    rw [decompressAmount, if_pos rfl]
    simp [decompressValue]
  have nonzero : x.toNat ≠ 0 := fun h => zero (UInt64.toNat_inj.mp h)
  have pred : (x - 1).toNat = x.toNat - 1 := by
    rw [UInt64.toNat_sub_of_le]
    · rfl
    · rw [UInt64.le_iff_toNat_le]
      simp only [UInt64.reduceToNat]
      omega
  have code : ((x - 1) % 10).toNat = (x.toNat - 1) % 10 := by rw [UInt64.toNat_mod, pred]; rfl
  have rest : (x - 1) / 10 = UInt64.ofNat ((x.toNat - 1) / 10) := by
    rw [← UInt64.ofNat_toNat (x := (x - 1) / 10), UInt64.toNat_div, pred]
    rfl
  unfold decompressAmount decompressValue
  simp only [zero, nonzero, if_false, code, rest]
  rw [← timesTen_ofNat]
  congr 1
  split_ifs
  · -- `x / 9 * 10 + (x % 9 + 1)` on the quotient, which is far below `2 ^ 64`
    have small : (x.toNat - 1) / 10 < 2 ^ 64 := by have := x.toNat_lt; omega
    apply UInt64.toNat_inj.mp
    simp only [UInt64.toNat_add, UInt64.toNat_mul, UInt64.toNat_div, UInt64.toNat_mod,
      UInt64.toNat_ofNat', UInt64.reduceToNat, Nat.mod_eq_of_lt small]
    have := x.toNat_lt
    omega
  · rw [UInt64.ofNat_add]
    rfl

end Refinement

theorem decompressAmount_compressAmount {n : UInt64} (fits : compressValue n.toNat < 2 ^ 64) :
    ∃ x, compressAmount n = .ok x ∧ decompressAmount x = n := by
  refine ⟨_, compressAmount_eq n, ?_⟩
  rw [decompressAmount_eq, UInt64.toNat_ofNat', Nat.mod_eq_of_lt fits,
    decompressValue_compressValue, UInt64.ofNat_toNat]

theorem decompressAmount_compressAmount_of_le {n : UInt64} (small : n.toNat ≤ 2 * 10 ^ 18) :
    ∃ x, compressAmount n = .ok x ∧ decompressAmount x = n :=
  decompressAmount_compressAmount (lt_of_le_of_lt (compressValue_le n.toNat) (by omega))

theorem compressAmount_decompressAmount {x : UInt64} (fits : decompressValue x.toNat < 2 ^ 64) :
    compressAmount (decompressAmount x) = .ok x := by
  rw [decompressAmount_eq, compressAmount_eq, UInt64.toNat_ofNat', Nat.mod_eq_of_lt fits,
    compressValue_decompressValue, UInt64.ofNat_toNat]

theorem compressAmount_maxMoney :
    compressValue maxMoney.toUInt64.toNat = 83010348331692982261 ∧
      compressAmount maxMoney.toUInt64 = .ok 9223372036854775797 ∧
      decompressAmount 9223372036854775797 = 10248191152058973120 := by
  have amount : maxMoney.toUInt64.toNat = 9223372036854775807 := by decide
  -- the amount ends in `7`: no zero comes off
  have strip : stripTens 9223372036854775807 0 = (9223372036854775807, 0) := by
    simpa using stripTens_of_mantissa 9223372036854775807 0 0 (by norm_num) (fun _ => by norm_num)
  have code : compressValue 9223372036854775807 = 83010348331692982261 := by
    unfold compressValue
    rw [if_neg (by norm_num), strip]
    norm_num
  refine ⟨by rw [amount, code], by rw [compressAmount_eq, amount, code]; decide, ?_⟩
  rw [decompressAmount_eq]
  have back : decompressValue (UInt64.toNat 9223372036854775797) = 1024819115206086199000000 := by
    simp only [UInt64.reduceToNat, decompressValue]
    norm_num
  rw [back]
  decide

end CTxOutCompressor

end Gaiacoin
