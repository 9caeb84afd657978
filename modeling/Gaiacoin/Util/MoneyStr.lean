import Gaiacoin.Shared.Decimal
import Gaiacoin.Address.DstEncode

set_option autoImplicit false

/-!
# `utilmoneystr.cpp`

`FormatMoney` writes an amount as `strprintf("%d.%08d")` of its coins and
satoshis and trims the zeros after the second decimal; `ParseMoney` reads at most
ten digits of coins and eight decimals. Every amount from zero to `10^18 - 1`
reads back as itself, and every larger one, whose coins take eleven digits, is
refused (`parseMoney_formatMoney`); `MAX_MONEY` is `INT64_MAX` here.
-/

namespace Gaiacoin

def cent : CAmount := 1000000

/-- The count of `for (int i = str.size()-1; (str[i] == '0' && isdigit(str[i-2])); --i)`,
over the string reversed. Where `str[i-2]` would be before the string the count
stops; the point of `"%d.%08d"` stops it before that. -/
def trimZeros : List Char → Nat
  | c :: rest@(_ :: d :: _) => if c == '0' && d.isDigit then trimZeros rest + 1 else 0
  | _ => 0

def formatMoney (n : CAmount) : Checked (List Char) := do
  -- `n > 0 ? n : -n`, which overflows for `INT64_MIN`
  if n.toInt = int64Min then throw .overflow
  let nAbs := n.toInt.natAbs
  let quotient := nAbs / coin.toInt.toNat
  let remainder := nAbs % coin.toInt.toNat
  let str := Nat.toDigits 10 quotient ++ '.' :: Decimal.zeroPad 8 (Nat.toDigits 10 remainder)
  let nTrim := trimZeros str.reverse
  let str := str.take (str.length - nTrim)
  pure (if n < 0 then '-' :: str else str)

/-- The digits after the point: `nUnits += nMult * (*p++ - '0'); nMult /= 10` while
a digit follows and `nMult > 0`. What is left follows the units. -/
def parseFraction : Nat → Nat → List Char → Nat × List Char
  | nMult, nUnits, c :: rest =>
    if c.isDigit && decide (nMult > 0) then
      parseFraction (nMult / 10) (nUnits + nMult * Decimal.digitValue c) rest
    else (nUnits, c :: rest)
  | _, nUnits, [] => (nUnits, [])

/-- The loop over the characters after the leading spaces: `strWhole`, `nUnits` and
what is left after a point or a space, or `none` where it returns `false` at another
character that is not a digit. -/
def parseWhole (strWhole : List Char) : List Char → Option (List Char × Nat × List Char)
  | [] => some (strWhole, 0, [])
  | c :: rest =>
    if c = '.' then some (strWhole, parseFraction (cent.toInt.toNat * 10) 0 rest)
    else if Base58.isSpace c then some (strWhole, 0, c :: rest)
    else if !c.isDigit then none
    else parseWhole (strWhole ++ [c]) rest

/-- `strtoll(psz, NULL, 10)`: spaces, a sign and the decimal digits that follow,
saturated to the range of `long long`. -/
def strtoll (psz : List Char) : Int :=
  let psz := psz.dropWhile Base58.isSpace
  let signed := psz.head? = some '-' ∨ psz.head? = some '+'
  let digits := (if signed then psz.tail else psz).takeWhile Char.isDigit
  let magnitude : Int := Decimal.value digits
  max int64Min (min int64Max (if psz.head? = some '-' then -magnitude else magnitude))

def atoi64 (str : List Char) : Int := strtoll (cStr str)

/-- `ParseMoney(const char* pszIn, CAmount& nRet)`, with `none` for `false`. -/
def parseMoneyPsz (psz : List Char) : Checked (Option CAmount) :=
  match parseWhole [] (psz.dropWhile Base58.isSpace) with
  | none => pure none
  | some (strWhole, nUnits, rest) =>
    if !rest.all Base58.isSpace then pure none
    -- guard against 63 bit overflow
    else if strWhole.length > 10 then pure none
    else if (nUnits : Int) < 0 ∨ (nUnits : Int) > coin.toInt then pure none
    else
      let nValue := atoi64 strWhole * coin.toInt + nUnits
      if InInt64 nValue then pure (some (Int64.ofInt nValue)) else throw .overflow

def parseMoney (str : List Char) : Checked (Option CAmount) := parseMoneyPsz (cStr str)

theorem take_trimZeros : ∀ s : List Char, s.take (trimZeros s) = List.replicate (trimZeros s) '0'
  | c :: e :: d :: more => by
    rw [trimZeros]
    split_ifs with zero
    next =>
      have isZero : c = '0' := (by simpa using zero : c = '0' ∧ d.isDigit = true).1
      rw [List.take_succ_cons, take_trimZeros (e :: d :: more), isZero, List.replicate_succ]
    next => rfl
  | [] | [_] | [_, _] => by simp [trimZeros]

theorem trimZeros_le : ∀ (n : Nat) (s : List Char),
    (∀ c, s[n + 2]? = some c → c.isDigit = false) → trimZeros s ≤ n
  | n, c :: e :: d :: more, stop => by
    rw [trimZeros]
    split_ifs with zero
    next =>
      cases n with
      | zero => simp [stop d rfl] at zero
      | succ n =>
        have rest := trimZeros_le n (e :: d :: more) (fun c' found => stop c' (by simpa using found))
        omega
    next => omega
  | _, [], _ | _, [_], _ | _, [_, _], _ => by simp [trimZeros]

theorem trimZeros_point (whole frac : List Char) (two : 2 ≤ frac.length) :
    trimZeros (whole ++ '.' :: frac).reverse ≤ frac.length - 2 ∧
      frac.drop (frac.length - trimZeros (whole ++ '.' :: frac).reverse) =
        List.replicate (trimZeros (whole ++ '.' :: frac).reverse) '0' := by
  have reversed : (whole ++ '.' :: frac).reverse = frac.reverse ++ '.' :: whole.reverse := by simp
  have bound : trimZeros (whole ++ '.' :: frac).reverse ≤ frac.length - 2 := by
    apply trimZeros_le
    intro c found
    rw [reversed, List.getElem?_append_right (by simp; omega),
      show frac.length - 2 + 2 - frac.reverse.length = 0 by simp; omega] at found
    cases found
    rfl
  refine ⟨bound, ?_⟩
  have zeros := take_trimZeros (whole ++ '.' :: frac).reverse
  generalize trimZeros (whole ++ '.' :: frac).reverse = t at bound zeros ⊢
  rw [reversed, List.take_append_of_le_length (by simp; omega), List.take_reverse] at zeros
  simpa using congrArg List.reverse zeros

theorem coin_toNat : coin.toInt.toNat = 10 ^ 8 := by decide

theorem formatMoney_of_nonneg {n : CAmount} (nonneg : 0 ≤ n) :
    ∃ t ≤ 6, formatMoney n = .ok (Nat.toDigits 10 (n.toInt.toNat / 10 ^ 8) ++
        '.' :: (Decimal.fixedDigits 8 (n.toInt.toNat % 10 ^ 8)).take (8 - t)) ∧
      (Decimal.fixedDigits 8 (n.toInt.toNat % 10 ^ 8)).drop (8 - t) = List.replicate t '0' := by
  have positive : 0 ≤ n.toInt := Int64.le_iff_toInt_le.mp nonneg
  have notMin : n.toInt ≠ int64Min := by
    simp only [int64Min]
    omega
  have notNegative : ¬ n < 0 := fun negative => by
    have := Int64.lt_iff_toInt_lt.mp negative
    simp at this
    omega
  have abs : n.toInt.natAbs = n.toInt.toNat := by omega
  have padded : Decimal.zeroPad 8 (Nat.toDigits 10 (n.toInt.toNat % 10 ^ 8)) =
      Decimal.fixedDigits 8 (n.toInt.toNat % 10 ^ 8) :=
    Decimal.zeroPad_toDigits (by norm_num) (Nat.mod_lt _ (by norm_num))
  obtain ⟨bound, zeros⟩ := trimZeros_point (Nat.toDigits 10 (n.toInt.toNat / 10 ^ 8))
    (Decimal.fixedDigits 8 (n.toInt.toNat % 10 ^ 8)) (by simp)
  simp only [Decimal.length_fixedDigits] at bound zeros
  refine ⟨_, bound, ?_, zeros⟩
  unfold formatMoney
  rw [if_neg notMin]
  simp only [abs, coin_toNat, padded, if_neg notNegative]
  have eight := Decimal.length_fixedDigits 8 (n.toInt.toNat % 10 ^ 8)
  generalize Nat.toDigits 10 (n.toInt.toNat / 10 ^ 8) = whole at bound ⊢
  generalize Decimal.fixedDigits 8 (n.toInt.toNat % 10 ^ 8) = frac at bound eight ⊢
  generalize trimZeros (whole ++ '.' :: frac).reverse = t at bound ⊢
  have count : (whole ++ '.' :: frac).length - t = whole.length + (8 - t + 1) := by
    simp only [List.length_append, List.length_cons, eight]
    omega
  rw [count, List.take_append, List.take_of_length_le (by omega), Nat.add_sub_cancel_left,
    List.take_succ_cons]
  rfl

theorem isSpace_of_isDigit {c : Char} (digit : c.isDigit = true) : Base58.isSpace c = false := by
  simp only [Char.isDigit, Bool.and_eq_true, decide_eq_true_eq] at digit
  have low : 48 ≤ c.toNat := digit.1
  have high : c.toNat ≤ 57 := digit.2
  simp only [Base58.isSpace, Bool.or_eq_false_iff, beq_eq_false_iff_ne, Bool.and_eq_false_iff,
    decide_eq_false_iff_not]
  omega

theorem parseFraction_fixedDigits (k nUnits r : Nat) :
    parseFraction (10 ^ k) nUnits (Decimal.fixedDigits (k + 1) r) = (nUnits + r % 10 ^ (k + 1), []) := by
  induction k generalizing nUnits with
  | zero =>
    have small : r % 10 < 10 := Nat.mod_lt r (by norm_num)
    simp [Decimal.fixedDigits, parseFraction, Nat.isDigit_digitChar, small]
  | succ k ih =>
    have digit : r / 10 ^ (k + 1) % 10 < 10 := Nat.mod_lt _ (by norm_num)
    have lower : 10 ^ (k + 1) / 10 = 10 ^ k := by
      rw [pow_succ, Nat.mul_div_cancel _ (by norm_num)]
    rw [Decimal.fixedDigits, parseFraction, if_pos (by simp [Nat.isDigit_digitChar, digit]),
      Decimal.digitValue_digitChar digit, lower, ih, pow_succ 10 (k + 1), Nat.mod_mul]
    simp only [Prod.mk.injEq, and_true]
    omega

theorem parseFraction_zeros (nMult nUnits z : Nat) :
    (parseFraction nMult nUnits (List.replicate z '0')).1 = nUnits := by
  induction z generalizing nMult with
  | zero => rfl
  | succ z ih =>
    rw [List.replicate_succ, parseFraction]
    split_ifs
    next => simpa [Decimal.digitValue] using ih (nMult / 10)
    next => rfl

theorem parseFraction_append_zeros (nMult nUnits : Nat) (ds : List Char) (z : Nat) :
    (parseFraction nMult nUnits (ds ++ List.replicate z '0')).1 =
      (parseFraction nMult nUnits ds).1 := by
  induction ds generalizing nMult nUnits with
  | nil => simp [parseFraction_zeros, parseFraction]
  | cons c ds ih =>
    rw [List.cons_append, parseFraction, parseFraction]
    split_ifs
    next => exact ih _ _
    next => rfl

theorem parseFraction_digits_snd {ds : List Char} (digits : ∀ c ∈ ds, c.isDigit = true) :
    ∀ (k nUnits : Nat), ds.length ≤ k + 1 → (parseFraction (10 ^ k) nUnits ds).2 = [] := by
  induction ds with
  | nil => intro k nUnits _; rfl
  | cons c ds ih =>
    intro k nUnits short
    have digit := digits c (by simp)
    rw [parseFraction, if_pos (by simp [digit])]
    cases k with
    | zero =>
      have empty : ds = [] := List.eq_nil_of_length_eq_zero (by simp only [List.length_cons] at short; omega)
      subst empty
      rfl
    | succ k =>
      rw [pow_succ, Nat.mul_div_cancel _ (by norm_num)]
      exact ih (fun c mem => digits c (by simp [mem])) k _ (by simp only [List.length_cons] at short; omega)

theorem parseFraction_trimmed {k r t : Nat}
    (zeros : (Decimal.fixedDigits (k + 1) r).drop (k + 1 - t) = List.replicate t '0') :
    parseFraction (10 ^ k) 0 ((Decimal.fixedDigits (k + 1) r).take (k + 1 - t)) =
      (r % 10 ^ (k + 1), []) := by
  have whole := parseFraction_fixedDigits k 0 r
  have split : Decimal.fixedDigits (k + 1) r =
      (Decimal.fixedDigits (k + 1) r).take (k + 1 - t) ++ List.replicate t '0' := by
    rw [← zeros, List.take_append_drop]
  apply Prod.ext
  next => rw [← parseFraction_append_zeros _ _ _ t, ← split, whole, Nat.zero_add]
  next =>
    exact parseFraction_digits_snd
      (fun c mem => Decimal.isDigit_of_mem_fixedDigits (List.mem_of_mem_take mem)) k 0 (by simp)

theorem cent_mul_ten : cent.toInt.toNat * 10 = 10 ^ 7 := by decide

theorem parseWhole_point {ds : List Char} (digits : ∀ c ∈ ds, c.isDigit = true)
    (strWhole rest : List Char) :
    parseWhole strWhole (ds ++ '.' :: rest) = some (strWhole ++ ds, parseFraction (10 ^ 7) 0 rest) := by
  induction ds generalizing strWhole with
  | nil => rw [List.nil_append, parseWhole, if_pos rfl, cent_mul_ten, List.append_nil]
  | cons c ds ih =>
    have digit := digits c (by simp)
    have notPoint : c ≠ '.' := by
      rintro rfl
      exact absurd digit (by decide)
    rw [List.cons_append, parseWhole, if_neg notPoint, if_neg (by simp [isSpace_of_isDigit digit]),
      if_neg (by simp [digit]), ih (fun c mem => digits c (by simp [mem]))]
    simp

theorem strtoll_digits {ds : List Char} (digits : ∀ c ∈ ds, c.isDigit = true) :
    strtoll ds = max int64Min (min int64Max (Decimal.value ds)) := by
  cases ds with
  | nil => simp [strtoll, Decimal.value]
  | cons c cs =>
    have digit := digits c (by simp)
    have notMinus : c ≠ '-' := by
      rintro rfl
      exact absurd digit (by decide)
    have notPlus : c ≠ '+' := by
      rintro rfl
      exact absurd digit (by decide)
    unfold strtoll
    rw [List.dropWhile_cons_of_neg (by simp [isSpace_of_isDigit digit])]
    simp only [List.head?_cons, Option.some.injEq, notMinus, notPlus, or_self, if_false]
    rw [List.takeWhile_eq_self_iff.mpr (fun c mem => by simpa using digits c mem)]

theorem atoi64_toDigits {q : Nat} (small : q < 10 ^ 10) : atoi64 (Nat.toDigits 10 q) = q := by
  have digits : ∀ c ∈ Nat.toDigits 10 q, c.isDigit = true :=
    fun c mem => Decimal.isDigit_of_mem_toDigits mem
  have noNul : ∀ c ∈ Nat.toDigits 10 q, c ≠ Char.ofNat 0 := by
    rintro c mem rfl
    exact absurd (digits _ mem) (by decide)
  rw [atoi64, cStr_of_ne noNul, strtoll_digits digits, Decimal.value_toDigits]
  simp only [int64Min, int64Max]
  omega

theorem parseMoney_formatMoney (n : CAmount) (nonneg : 0 ≤ n) :
    ∃ str, formatMoney n = .ok str ∧
      parseMoney str = .ok (if n.toInt < 10 ^ 18 then some n else none) := by
  obtain ⟨t, bound, formatted, zeros⟩ := formatMoney_of_nonneg nonneg
  refine ⟨_, formatted, ?_⟩
  have positive : 0 ≤ n.toInt := Int64.le_iff_toInt_le.mp nonneg
  have fraction := parseFraction_trimmed (k := 7) zeros
  rw [Nat.mod_mod] at fraction
  have value : n.toInt = ((n.toInt.toNat / 10 ^ 8 * 10 ^ 8 + n.toInt.toNat % 10 ^ 8 : Nat) : Int) := by
    rw [Nat.div_add_mod', Int.toNat_of_nonneg positive]
  have remainder : n.toInt.toNat % 10 ^ 8 < 10 ^ 8 := Nat.mod_lt _ (by norm_num)
  generalize n.toInt.toNat / 10 ^ 8 = q at value ⊢
  generalize n.toInt.toNat % 10 ^ 8 = r at value fraction remainder ⊢
  have wholeDigits : ∀ c ∈ Nat.toDigits 10 q, c.isDigit = true :=
    fun c mem => Decimal.isDigit_of_mem_toDigits mem
  have notNul : ∀ {c : Char}, c.isDigit = true → c ≠ Char.ofNat 0 := by
    rintro c digit rfl
    exact absurd digit (by decide)
  have noNul : ∀ c ∈ Nat.toDigits 10 q ++ '.' :: (Decimal.fixedDigits 8 r).take (8 - t),
      c ≠ Char.ofNat 0 := by
    intro c mem
    rcases List.mem_append.mp mem with whole | rest
    next => exact notNul (wholeDigits c whole)
    next =>
      rcases List.mem_cons.mp rest with rfl | frac
      next => decide
      next => exact notNul (Decimal.isDigit_of_mem_fixedDigits (List.mem_of_mem_take frac))
  obtain ⟨d, ds, first⟩ := List.exists_cons_of_ne_nil (Nat.toDigits_ne_nil (b := 10) (n := q))
  have start : (Nat.toDigits 10 q ++ '.' :: (Decimal.fixedDigits 8 r).take (8 - t)).dropWhile
      Base58.isSpace = Nat.toDigits 10 q ++ '.' :: (Decimal.fixedDigits 8 r).take (8 - t) := by
    have digit := wholeDigits d (first ▸ List.mem_cons_self)
    rw [first, List.cons_append, List.dropWhile_cons_of_neg (by simp [isSpace_of_isDigit digit])]
  unfold parseMoney parseMoneyPsz
  rw [cStr_of_ne noNul, start, parseWhole_point wholeDigits, fraction]
  have coinInt : coin.toInt = 10 ^ 8 := by decide
  simp only [List.nil_append, List.all_nil, Bool.not_true, Bool.false_eq_true, if_false, coinInt]
  by_cases fits : q < 10 ^ 10
  next =>
    have short : ¬ (Nat.toDigits 10 q).length > 10 := by
      rw [not_lt, Nat.length_toDigits_le_iff (by norm_num) (by norm_num)]
      exact fits
    have inRange : InInt64 (atoi64 (Nat.toDigits 10 q) * 10 ^ 8 + r) := by
      rw [atoi64_toDigits fits]
      simp only [InInt64, int64Min, int64Max]
      omega
    rw [if_neg short, if_neg (by omega), if_pos inRange, if_pos (by omega), atoi64_toDigits fits]
    have whole : (q : Int) * 10 ^ 8 + r = n.toInt := by
      rw [value]
      push_cast
      rfl
    rw [whole, Int64.ofInt_toInt]
    rfl
  next =>
    have long : (Nat.toDigits 10 q).length > 10 := by
      rw [gt_iff_lt, ← not_le, Nat.length_toDigits_le_iff (by norm_num) (by norm_num)]
      exact fits
    rw [if_pos long, if_neg (by omega)]
    rfl

theorem parseMoney_formatMoney_maxMoney :
    0 ≤ maxMoney ∧ ∃ str, formatMoney maxMoney = .ok str ∧
      parseMoney str = .ok (if maxMoney.toInt < 10 ^ 18 then some maxMoney else none) :=
  ⟨by decide, parseMoney_formatMoney maxMoney (by decide)⟩

example : parseMoney "92233720368.54775807".toList = .ok none := by decide

example : parseMoney " 0.00000001 ".toList = .ok (some 1) := by decide

end Gaiacoin
