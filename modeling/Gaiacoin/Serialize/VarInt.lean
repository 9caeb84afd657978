import Gaiacoin.Serialize.Basic

set_option autoImplicit false

/-!
# Variable-length integers (`serialize.h`)

MSB base-128 digits, with one subtracted from every digit but the last. The
writer and `GetSizeOfVarInt` only ever shrink the value, so they are modelled on
`Nat`; `ReadVarInt<I>` shifts into an `I` of `width` bits with no check, and its
accumulator wraps modulo `2 ^ width`.
-/

namespace Gaiacoin

open Wire

/-- `tmp[len]`, `tmp[len + 1]`, ... of `WriteVarInt`, from the value `n` left at
digit `len`. -/
def varIntDigits (n len : Nat) : List UInt8 :=
  let tmp := UInt8.ofNat (n &&& 0x7F ||| (if len ≠ 0 then 0x80 else 0x00))
  if last : n ≤ 0x7F then [tmp] else tmp :: varIntDigits ((n >>> 7) - 1) (len + 1)
termination_by n
decreasing_by
  rw [Nat.shiftRight_eq_div_pow]
  omega

/-- The digits go out from `tmp[len]` down to `tmp[0]`. -/
def writeVarInt {S : Type} [Sink S] (os : S) (n : Nat) : S :=
  (varIntDigits n 0).reverse.foldl (fun os b => serWritedata8 os b.toNat) os

def getSizeOfVarIntLoop (nRet n : Nat) : Nat :=
  if last : n ≤ 0x7F then nRet + 1 else getSizeOfVarIntLoop (nRet + 1) ((n >>> 7) - 1)
termination_by n
decreasing_by
  rw [Nat.shiftRight_eq_div_pow]
  omega

def getSizeOfVarInt (n : Nat) : Nat := getSizeOfVarIntLoop 0 n

/-- The loop of `ReadVarInt<I>` from the accumulator `n`; a byte is one
`ser_readdata8`. -/
def readVarIntFrom (width n : Nat) : List UInt8 → Except String (Nat × List UInt8)
  | [] => .error endOfData
  | chData :: rest =>
    let n := (n <<< 7 ||| (chData &&& 0x7F).toNat) % 2 ^ width
    if chData &&& 0x80 ≠ 0 then readVarIntFrom width ((n + 1) % 2 ^ width) rest
    else .ok (n, rest)

def readVarInt (width : Nat) : Reader Nat := readVarIntFrom width 0

/-- What `VARINT(n)` writes to a byte vector. -/
def varInt (n : Nat) : Bytes := writeVarInt ([] : Bytes) n

section Digits

set_option maxRecDepth 8000 in
theorem byte_fin : ∀ i : Fin 256, ((UInt8.ofNat i.val) &&& 0x7F).toNat = i.val % 128 ∧
    (UInt8.ofNat i.val &&& 0x80 ≠ 0 ↔ 128 ≤ i.val) := by
  decide

theorem toNat_and_low (b : UInt8) : (b &&& 0x7F).toNat = b.toNat % 128 := by
  simpa [UInt8.ofNat_toNat] using (byte_fin ⟨b.toNat, b.toNat_lt⟩).1

theorem and_high_ne_zero (b : UInt8) : b &&& 0x80 ≠ 0 ↔ 128 ≤ b.toNat := by
  simpa [UInt8.ofNat_toNat] using (byte_fin ⟨b.toNat, b.toNat_lt⟩).2

theorem shift_or (a y : Nat) (small : y < 128) : a <<< 7 ||| y = a * 128 + y := by
  rw [← Nat.shiftLeft_add_eq_or_of_lt (i := 7) small a, Nat.shiftLeft_eq]

theorem toNat_tmp (n : Nat) (flag : Bool) :
    (UInt8.ofNat (n &&& 0x7F ||| (if flag then 0x80 else 0x00))).toNat =
      n % 128 + if flag then 128 else 0 := by
  have low : n &&& 0x7F = n % 2 ^ 7 := Nat.and_two_pow_sub_one_eq_mod n 7
  have digit : n % 2 ^ 7 < 2 ^ 7 := Nat.mod_lt _ (by norm_num)
  rw [UInt8.toNat_ofNat', low]
  cases flag
  · simp only [Bool.false_eq_true, if_false, Nat.or_zero, Nat.add_zero]
    omega
  · simp only [if_true]
    rw [Nat.or_comm, show (0x80 : Nat) = 2 ^ 7 * 1 from rfl,
      ← Nat.two_pow_add_eq_or_of_lt digit]
    omega

/-- The value of flagged digits, the last read first: each adds the one that
`n++` adds. -/
def flaggedValue : List UInt8 → Nat
  | [] => 0
  | c :: cs => flaggedValue cs * 128 + c.toNat % 128 + 1

theorem varIntDigits_of_le {n len : Nat} (last : n ≤ 0x7F) :
    varIntDigits n len = [UInt8.ofNat (n &&& 0x7F ||| (if len ≠ 0 then 0x80 else 0x00))] := by
  rw [varIntDigits, dif_pos last]

theorem varIntDigits_of_lt {n len : Nat} (more : 0x7F < n) :
    varIntDigits n len = UInt8.ofNat (n &&& 0x7F ||| (if len ≠ 0 then 0x80 else 0x00)) ::
      varIntDigits (n / 128 - 1) (len + 1) := by
  rw [varIntDigits, dif_neg (by omega), Nat.shiftRight_eq_div_pow]

theorem flagged_varIntDigits (n len : Nat) (later : len ≠ 0) :
    ∀ c ∈ varIntDigits n len, 128 ≤ c.toNat := by
  induction n using Nat.strongRecOn generalizing len with
  | ind n ih =>
    have flag : ∀ m, 128 ≤ (UInt8.ofNat (m &&& 0x7F ||| (if len ≠ 0 then 0x80 else 0x00))).toNat := by
      intro m
      have := toNat_tmp m true
      simp only [if_true] at this
      simp only [later, ne_eq, not_false_eq_true, if_true, this]
      omega
    intro c mem
    by_cases last : n ≤ 0x7F
    · rw [varIntDigits_of_le last, List.mem_singleton] at mem
      exact mem ▸ flag n
    · rw [varIntDigits_of_lt (by omega)] at mem
      rcases List.mem_cons.mp mem with rfl | later'
      · exact flag n
      · exact ih (n / 128 - 1) (by omega) (len + 1) (by omega) c later'

theorem flaggedValue_varIntDigits (n len : Nat) (later : len ≠ 0) :
    flaggedValue (varIntDigits n len) = n + 1 := by
  induction n using Nat.strongRecOn generalizing len with
  | ind n ih =>
    have digit := toNat_tmp n true
    simp only [if_true] at digit
    by_cases last : n ≤ 0x7F
    · rw [varIntDigits_of_le last]
      simp only [flaggedValue, later, ne_eq, not_false_eq_true, if_true, digit]
      omega
    · rw [varIntDigits_of_lt (by omega)]
      simp only [flaggedValue, later, ne_eq, not_false_eq_true, if_true, digit,
        ih (n / 128 - 1) (by omega) (len + 1) (by omega)]
      omega

theorem varIntDigits_flaggedValue (len : Nat) (later : len ≠ 0) :
    ∀ cs : List UInt8, cs ≠ [] → (∀ c ∈ cs, 128 ≤ c.toNat) →
      varIntDigits (flaggedValue cs - 1) len = cs := by
  intro cs
  induction cs generalizing len with
  | nil => intro nonempty; exact absurd rfl nonempty
  | cons c cs ih =>
    intro _ flagged
    have high := flagged c List.mem_cons_self
    -- the written digit is `c` again: its low bits and the flag
    have same : UInt8.ofNat ((flaggedValue (c :: cs) - 1) &&& 0x7F |||
        (if len ≠ 0 then 0x80 else 0x00)) = c := by
      apply UInt8.toNat_inj.mp
      have digit := toNat_tmp (flaggedValue (c :: cs) - 1) true
      simp only [if_true] at digit
      rw [if_pos later, digit]
      simp only [flaggedValue]
      have := c.toNat_lt
      omega
    cases cs with
    | nil =>
      rw [varIntDigits_of_le (by simp only [flaggedValue]; omega), same]
    | cons d ds =>
      have positive : 1 ≤ flaggedValue (d :: ds) := by simp only [flaggedValue]; omega
      rw [varIntDigits_of_lt (by simp only [flaggedValue] at positive ⊢; omega), same]
      have next : (flaggedValue (c :: d :: ds) - 1) / 128 - 1 = flaggedValue (d :: ds) - 1 := by
        simp only [flaggedValue] at positive ⊢
        omega
      rw [next, ih (len + 1) (by omega) (List.cons_ne_nil d ds)
        (fun x mem => flagged x (List.mem_cons_of_mem c mem))]

theorem varIntDigits_ne_nil (n len : Nat) : varIntDigits n len ≠ [] := by
  rw [varIntDigits]
  split <;> simp

theorem varInt_eq_reverse (n : Nat) : varInt n = (varIntDigits n 0).reverse := by
  -- one `ser_writedata8` a digit
  have written : ∀ (bs acc : Bytes),
      bs.foldl (fun os b => serWritedata8 os b.toNat) acc = acc ++ bs := by
    intro bs
    induction bs with
    | nil => intro acc; simp
    | cons b bs ih =>
      intro acc
      have one : serWritedata8 acc b.toNat = acc ++ [b] := by
        simp [serWritedata8, Sink.write, leBytes, UInt8.ofNat_toNat]
      rw [List.foldl_cons, one, ih, List.append_assoc, List.singleton_append]
  rw [varInt, writeVarInt, written, List.nil_append]

theorem varInt_eq (n : Nat) :
    varInt n = (if n ≤ 0x7F then [] else (varIntDigits (n / 128 - 1) 1).reverse) ++
      [UInt8.ofNat (n % 128)] := by
  have first : UInt8.ofNat (n &&& 0x7F ||| (if (0 : Nat) ≠ 0 then 0x80 else 0x00)) =
      UInt8.ofNat (n % 128) := by
    simp only [ne_eq, not_true_eq_false, if_false, Nat.or_zero]
    rw [Nat.and_two_pow_sub_one_eq_mod n 7]
  rw [varInt_eq_reverse]
  split_ifs with last
  · rw [varIntDigits_of_le last, first]
    rfl
  · rw [varIntDigits_of_lt (by omega), first, List.reverse_cons]

end Digits

section Read

variable (width : Nat)

theorem wrap_mul_add (x y : Nat) : (x % 2 ^ width * 128 + y) % 2 ^ width = (x * 128 + y) % 2 ^ width := by
  simp [Nat.add_mod, Nat.mul_mod]

theorem readVarIntFrom_final (a : Nat) {f : UInt8} (small : f.toNat < 128) (rest : Bytes) :
    readVarIntFrom width a (f :: rest) = .ok ((a * 128 + f.toNat) % 2 ^ width, rest) := by
  have unflagged : ¬(f &&& 0x80 ≠ 0) := by rw [and_high_ne_zero]; omega
  simp only [readVarIntFrom, unflagged, if_false, toNat_and_low, Nat.mod_eq_of_lt small,
    shift_or a f.toNat small]

theorem readVarIntFrom_flagged :
    ∀ (cs : List UInt8) (rest : Bytes), (∀ c ∈ cs, 128 ≤ c.toNat) →
      readVarIntFrom width 0 (cs.reverse ++ rest) =
        readVarIntFrom width (flaggedValue cs % 2 ^ width) rest := by
  intro cs
  induction cs with
  | nil => intro rest _; simp [flaggedValue]
  | cons c cs ih =>
    intro rest flagged
    have high : c &&& 0x80 ≠ 0 := (and_high_ne_zero c).mpr (flagged c List.mem_cons_self)
    rw [List.reverse_cons, List.append_assoc, List.singleton_append,
      ih (c :: rest) (fun x mem => flagged x (List.mem_cons_of_mem c mem))]
    simp only [readVarIntFrom, high, ne_eq, not_false_eq_true, if_true, toNat_and_low,
      shift_or _ _ (Nat.mod_lt c.toNat (by norm_num : 0 < 128)), flaggedValue]
    -- the wrapped accumulator agrees with the value modulo `2 ^ width`
    rw [wrap_mul_add, Nat.mod_add_mod]

theorem readVarIntFrom_split {a : Nat} {input rest : Bytes} {m : Nat}
    (read : readVarIntFrom width a input = .ok (m, rest)) :
    ∃ (cs : List UInt8) (f : UInt8), input = cs.reverse ++ f :: rest ∧
      (∀ c ∈ cs, 128 ≤ c.toNat) ∧ f.toNat < 128 := by
  induction input generalizing a with
  | nil => cases read
  | cons b input ih =>
    simp only [readVarIntFrom] at read
    split_ifs at read with flag
    · obtain ⟨cs, f, split, flagged, final⟩ := ih read
      refine ⟨cs ++ [b], f, by simp [split], ?_, final⟩
      intro c mem
      rcases List.mem_append.mp mem with old | new
      · exact flagged c old
      · rw [List.mem_singleton.mp new]
        exact (and_high_ne_zero b).mp flag
    · cases read
      refine ⟨[], b, rfl, by simp, ?_⟩
      have := (and_high_ne_zero b).not.mp flag
      omega

theorem readVarInt_value {cs : List UInt8} {f : UInt8} (flagged : ∀ c ∈ cs, 128 ≤ c.toNat)
    (small : f.toNat < 128) (rest : Bytes) :
    readVarInt width (cs.reverse ++ f :: rest) =
      .ok ((flaggedValue cs * 128 + f.toNat) % 2 ^ width, rest) := by
  rw [readVarInt, readVarIntFrom_flagged width cs (f :: rest) flagged,
    readVarIntFrom_final width _ small, wrap_mul_add]

end Read

theorem length_varIntDigits (n len nRet : Nat) :
    getSizeOfVarIntLoop nRet n = nRet + (varIntDigits n len).length := by
  induction n using Nat.strongRecOn generalizing len nRet with
  | ind n ih =>
    by_cases last : n ≤ 0x7F
    · rw [getSizeOfVarIntLoop, dif_pos last, varIntDigits_of_le last, List.length_singleton]
    · have next : n >>> 7 = n / 128 := Nat.shiftRight_eq_div_pow n 7
      rw [getSizeOfVarIntLoop, dif_neg last, varIntDigits_of_lt (by omega), next,
        ih _ (by omega) (len + 1), List.length_cons]
      omega

theorem length_varInt (n : Nat) : (varInt n).length = getSizeOfVarInt n := by
  rw [getSizeOfVarInt, length_varIntDigits n 0 0, varInt_eq_reverse, List.length_reverse,
    Nat.zero_add]

theorem varInt_inverse (width : Nat) : Inverse varInt (readVarInt width) (· < 2 ^ width) := by
  intro n fits rest
  have digit : (UInt8.ofNat (n % 128)).toNat = n % 128 := by
    rw [UInt8.toNat_ofNat']
    omega
  rw [varInt_eq, List.append_assoc, List.singleton_append]
  split_ifs with last
  · rw [← List.reverse_nil, readVarInt_value width (by simp) (by omega), digit, flaggedValue]
    simp [Nat.mod_eq_of_lt (show n < 128 by omega), Nat.mod_eq_of_lt fits]
  · rw [readVarInt_value width (flagged_varIntDigits _ 1 (by omega)) (by omega),
      flaggedValue_varIntDigits _ 1 (by omega), digit, Nat.sub_add_cancel (by omega),
      Nat.div_add_mod', Nat.mod_eq_of_lt fits]

theorem flaggedValue_bound (cs : List UInt8) :
    flaggedValue cs * 127 + 128 ≤ 128 ^ (cs.length + 1) := by
  induction cs with
  | nil => simp [flaggedValue]
  | cons c cs ih =>
    have digit : c.toNat % 128 < 128 := Nat.mod_lt _ (by norm_num)
    simp only [flaggedValue, List.length_cons, Nat.pow_succ] at ih ⊢
    nlinarith

theorem varInt_flaggedValue {cs : List UInt8} {f : UInt8} (flagged : ∀ c ∈ cs, 128 ≤ c.toNat)
    (small : f.toNat < 128) : varInt (flaggedValue cs * 128 + f.toNat) = cs.reverse ++ [f] := by
  rw [varInt_eq]
  cases cs with
  | nil =>
    have lone : flaggedValue [] * 128 + f.toNat = f.toNat := by simp [flaggedValue]
    rw [lone, if_pos (by omega), Nat.mod_eq_of_lt small, UInt8.ofNat_toNat]
    rfl
  | cons c cs =>
    have positive : 1 ≤ flaggedValue (c :: cs) := by simp only [flaggedValue]; omega
    have next : (flaggedValue (c :: cs) * 128 + f.toNat) / 128 - 1 = flaggedValue (c :: cs) - 1 := by
      omega
    rw [if_neg (by omega), next, varIntDigits_flaggedValue 1 (by omega) _ (List.cons_ne_nil c cs)
      flagged, show (flaggedValue (c :: cs) * 128 + f.toNat) % 128 = f.toNat by omega,
      UInt8.ofNat_toNat]

theorem readVarInt_exact_of_short (width : Nat) (input : Bytes) (m : Nat) (rest : Bytes)
    (read : readVarInt width input = .ok (m, rest)) (short : 7 * (input.length - rest.length) < width) :
    varInt m ++ rest = input := by
  obtain ⟨cs, f, rfl, flagged, small⟩ := readVarIntFrom_split width read
  rw [readVarInt_value width flagged small] at read
  simp only [Except.ok.injEq, Prod.mk.injEq, and_true] at read
  have consumed : (cs.reverse ++ f :: rest).length - rest.length = cs.length + 1 := by
    simp only [List.length_append, List.length_reverse, List.length_cons]
    omega
  rw [consumed] at short
  -- the value is below `2 ^ width`, so nothing wrapped
  have bound := flaggedValue_bound cs
  have room : 128 ^ (cs.length + 1) * 2 ≤ 2 ^ width := by
    rw [show (128 : Nat) = 2 ^ 7 from rfl, ← Nat.pow_mul, ← Nat.pow_succ]
    exact Nat.pow_le_pow_right (by norm_num) (by omega)
  have fits : flaggedValue cs * 128 + f.toNat < 2 ^ width := by nlinarith
  rw [Nat.mod_eq_of_lt fits] at read
  rw [← read, varInt_flaggedValue flagged small, List.append_assoc, List.singleton_append]

theorem pow_le_flaggedValue : ∀ cs : List UInt8, cs ≠ [] → 128 ^ (cs.length - 1) ≤ flaggedValue cs
  | [], nonempty => absurd rfl nonempty
  | [c], _ => by simp [flaggedValue]
  | c :: d :: ds, _ => by
    have ih := pow_le_flaggedValue (d :: ds) (List.cons_ne_nil d ds)
    simp only [List.length_cons, Nat.add_sub_cancel] at ih ⊢
    simp only [flaggedValue] at ih ⊢
    rw [Nat.pow_succ]
    omega

theorem length_varIntDigits_le {width n : Nat} (positive : 0 < width) (fits : n < 2 ^ width) :
    (varIntDigits n 0).length ≤ (width + 6) / 7 := by
  by_cases last : n ≤ 0x7F
  · rw [varIntDigits_of_le last, List.length_singleton]
    omega
  · rw [varIntDigits_of_lt (by omega), List.length_cons]
    have value : flaggedValue (varIntDigits (n / 128 - 1) 1) = n / 128 := by
      rw [flaggedValue_varIntDigits _ 1 one_ne_zero]
      omega
    obtain ⟨k, length⟩ : ∃ k, (varIntDigits (n / 128 - 1) 1).length = k + 1 :=
      Nat.exists_eq_add_one.mpr (List.length_pos_of_ne_nil (varIntDigits_ne_nil _ 1))
    have low := pow_le_flaggedValue _ (varIntDigits_ne_nil (n / 128 - 1) 1)
    rw [value, length, Nat.add_sub_cancel] at low
    -- the digits after the first already make `n` at least `2 ^ (7 * (k + 1))`
    have below : 2 ^ (7 * (k + 1)) < 2 ^ width := by
      calc 2 ^ (7 * (k + 1)) = 128 * 128 ^ k := by rw [Nat.pow_mul, Nat.pow_succ, Nat.mul_comm]
        _ ≤ 128 * (n / 128) := Nat.mul_le_mul_left _ low
        _ ≤ n := Nat.mul_div_le n 128
        _ < 2 ^ width := fits
    have := (Nat.pow_lt_pow_iff_right (by norm_num)).mp below
    rw [length]
    omega

theorem readVarInt_wraps :
    readVarInt 32 [0x80, 0x80, 0x80, 0x80, 0x80, 0x00] = .ok (270549120, []) ∧
      varInt 270549120 = [0x80, 0x80, 0x80, 0x80, 0x00] := by
  have read := @readVarInt_value 32 [0x80, 0x80, 0x80, 0x80, 0x80] 0x00 (by simp) (by simp) []
  have value : (flaggedValue [0x80, 0x80, 0x80, 0x80, 0x80] * 128 + (0x00 : UInt8).toNat) %
      2 ^ 32 = 270549120 := by
    simp only [flaggedValue, UInt8.reduceToNat]
    norm_num
  have written := @varInt_flaggedValue [0x80, 0x80, 0x80, 0x80] 0x00 (by simp) (by simp)
  have five : flaggedValue [0x80, 0x80, 0x80, 0x80] * 128 + (0x00 : UInt8).toNat = 270549120 := by
    simp only [flaggedValue, UInt8.reduceToNat]
  rw [value] at read
  rw [five] at written
  simp only [List.reverse_cons, List.reverse_nil, List.nil_append, List.cons_append] at read written
  exact ⟨read, written⟩

end Gaiacoin
