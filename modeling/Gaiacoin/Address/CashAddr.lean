import Gaiacoin.Primitives.Transaction
import Gaiacoin.Address.ConvertBits

set_option autoImplicit false

/-!
# `cashaddr.cpp`

The cashaddr string: a prefix, a `:` and base-32 characters, the last eight of
them a BCH checksum over the prefix and the values. `PolyMod` keeps the
remainder of the value polynomial modulo the generator in a 40-bit word, five
bits a coefficient; the checksum is chosen to make that remainder `1`.

A `std::string` is a list of characters. `Decode` reads them as bytes, but it
rejects every character outside `[0-9A-Za-z:]` in its first pass, so a character
that is not ASCII is rejected whichever way it is read.
-/

namespace Gaiacoin

namespace CashAddr

def charset : List Char := "qpzry9x8gf2tvdw0s3jn54khce6mua7l".toList

def charsetRev : List Int :=
  [-1, -1, -1, -1, -1, -1, -1, -1, -1, -1, -1, -1, -1, -1, -1, -1,
   -1, -1, -1, -1, -1, -1, -1, -1, -1, -1, -1, -1, -1, -1, -1, -1,
   -1, -1, -1, -1, -1, -1, -1, -1, -1, -1, -1, -1, -1, -1, -1, -1,
   15, -1, 10, 17, 21, 20, 26, 30, 7, 5, -1, -1, -1, -1, -1, -1,
   -1, 29, -1, 24, 13, 25, 9, 8, 23, -1, 18, 22, 31, 27, 19, -1,
   1, 0, 3, 16, 11, 28, 12, 14, 6, 4, 2, -1, -1, -1, -1, -1,
   -1, 29, -1, 24, 13, 25, 9, 8, 23, -1, 18, 22, 31, 27, 19, -1,
   1, 0, 3, 16, 11, 28, 12, 14, 6, 4, 2, -1, -1, -1, -1, -1]

/-- `CHARSET[c]`: the literal's 32 characters, then its terminating NUL, and
past that outside the array. -/
def charsetAt (c : UInt8) : Checked Char :=
  if c.toNat < 32 then pure (charset.getD c.toNat 'q')
  else if c.toNat = 32 then pure (Char.ofNat 0)
  else throw .outOfRange

/-- One round of `PolyMod`: the remainder times `x` plus `d`, reduced by the
multiples of the generator that the top coefficient `c0` selects. -/
def polyModStep (c : UInt64) (d : UInt8) : UInt64 :=
  let c0 := (c >>> 35).toUInt8
  let c := ((c &&& 0x07ffffffff) <<< 5) ^^^ d.toUInt64
  let c := if c0 &&& 0x01 != 0 then c ^^^ 0x98f2bc8e61 else c
  let c := if c0 &&& 0x02 != 0 then c ^^^ 0x79b76d99e2 else c
  let c := if c0 &&& 0x04 != 0 then c ^^^ 0xf33e5fb3c4 else c
  let c := if c0 &&& 0x08 != 0 then c ^^^ 0xae2eabe2a8 else c
  if c0 &&& 0x10 != 0 then c ^^^ 0x1e4f43e470 else c

def polyMod (v : List UInt8) : UInt64 := v.foldl polyModStep 1

def lowerCase (c : Char) : Char := Char.ofNat (c.toNat ||| 0x20)

def expandPrefix (pfx : List Char) : List UInt8 :=
  pfx.map (fun c => UInt8.ofNat (c.toNat &&& 0x1f)) ++ [0]

def verifyChecksum (pfx : List Char) (values : List UInt8) : Bool :=
  polyMod (expandPrefix pfx ++ values) == 1

def createChecksum (pfx : List Char) (values : List UInt8) : List UInt8 :=
  let enc := expandPrefix pfx ++ values ++ List.replicate 8 0
  let mod := polyMod enc ^^^ 1
  (List.range 8).map fun i => ((mod >>> (5 * (7 - i)).toUInt64) &&& 0x1f).toUInt8

def encode (pfx : List Char) (values : List UInt8) : Checked (List Char) := do
  let checksum := createChecksum pfx values
  let combined := values ++ checksum
  let chars ← combined.mapM charsetAt
  pure (pfx ++ ':' :: chars)

/-- What the first pass of `Decode` records. -/
structure Scan where
  lower : Bool
  upper : Bool
  hasNumber : Bool
  prefixSize : Nat

def scanStep (i : Nat) (c : Char) (s : Scan) : Option Scan :=
  if 'a' ≤ c ∧ c ≤ 'z' then some { s with lower := true }
  else if 'A' ≤ c ∧ c ≤ 'Z' then some { s with upper := true }
  else if '0' ≤ c ∧ c ≤ '9' then some { s with hasNumber := true }
  else if c = ':' then
    -- the separator cannot come first, after a digit, or twice
    if s.hasNumber || i == 0 || s.prefixSize != 0 then none
    else some { s with prefixSize := i }
  else none

def scan : Nat → List Char → Scan → Option Scan
  | _, [], s => some s
  | i, c :: rest, s => (scanStep i c s).bind (scan (i + 1) rest)

def valueOf (c : Char) : Option UInt8 :=
  if c.toNat > 127 ∨ charsetRev.getD c.toNat (-1) = -1 then none
  else some (UInt8.ofNat (charsetRev.getD c.toNat (-1)).toNat)

/-- `cashaddr::Decode`: the lower-cased prefix and the values without the
checksum, or an empty prefix for a malformed string. A checksum that passes on
fewer than eight values leaves `values.end() - 8` before `values.begin()`. -/
def decode (str defaultPrefix : List Char) : Checked (List Char × List UInt8) :=
  match scan 0 str ⟨false, false, false, 0⟩ with
  | none => pure ([], [])
  | some s =>
    if s.upper && s.lower then pure ([], [])
    else
      let (pfx, prefixSize) :=
        if s.prefixSize = 0 then (defaultPrefix, 0)
        else ((str.take s.prefixSize).map lowerCase, s.prefixSize + 1)
      match (str.drop prefixSize).mapM valueOf with
      | none => pure ([], [])
      | some values =>
        if !verifyChecksum pfx values then pure ([], [])
        else if values.length < 8 then throw .outOfRange
        else pure (pfx, values.take (values.length - 8))

theorem charsetAt_of_lt {c : UInt8} (small : c.toNat < 32) :
    charsetAt c = .ok (charset.getD c.toNat 'q') := by
  rw [charsetAt, if_pos small]
  rfl

theorem mapM_charsetAt (values : List UInt8) (small : ∀ v ∈ values, v.toNat < 32) :
    values.mapM charsetAt = .ok (values.map fun v => charset.getD v.toNat 'q') := by
  induction values with
  | nil => rfl
  | cons v vs ih =>
    rw [List.mapM_cons, charsetAt_of_lt (small v List.mem_cons_self),
      ih (fun w mem => small w (List.mem_cons_of_mem v mem))]
    rfl

theorem createChecksum_lt (pfx : List Char) (values : List UInt8) :
    ∀ v ∈ createChecksum pfx values, v.toNat < 32 := by
  intro v mem
  simp only [createChecksum, List.mem_map, List.mem_range] at mem
  obtain ⟨i, _, rfl⟩ := mem
  have masked := Nat.and_le_right (n := ((polyMod (expandPrefix pfx ++ values ++ List.replicate 8 0) ^^^ 1) >>>
    (5 * (7 - i)).toUInt64).toNat) (m := 31)
  rw [UInt64.toNat_toUInt8, UInt64.toNat_and, show (0x1f : UInt64).toNat = 31 from rfl]
  omega

theorem append_createChecksum_lt (pfx : List Char) {values : List UInt8}
    (small : ∀ v ∈ values, v.toNat < 32) :
    ∀ v ∈ values ++ createChecksum pfx values, v.toNat < 32 := by
  intro v mem
  rcases List.mem_append.mp mem with given | check
  · exact small v given
  · exact createChecksum_lt pfx values v check

theorem encode_eq (pfx : List Char) {values : List UInt8} (small : ∀ v ∈ values, v.toNat < 32) :
    encode pfx values = .ok (pfx ++ ':' ::
      (values ++ createChecksum pfx values).map fun v => charset.getD v.toNat 'q') := by
  simp only [encode, mapM_charsetAt _ (append_createChecksum_lt pfx small), Checked.ok_bind]
  rfl

section Checksum

def generatorMultiple (c0 : UInt8) : UInt64 :=
  (if c0 &&& 0x01 != 0 then 0x98f2bc8e61 else 0) ^^^
    (if c0 &&& 0x02 != 0 then 0x79b76d99e2 else 0) ^^^
    (if c0 &&& 0x04 != 0 then 0xf33e5fb3c4 else 0) ^^^
    (if c0 &&& 0x08 != 0 then 0xae2eabe2a8 else 0) ^^^
    (if c0 &&& 0x10 != 0 then 0x1e4f43e470 else 0)

theorem ite_xor (p : Prop) [Decidable p] (x k : UInt64) :
    (if p then x ^^^ k else x) = x ^^^ (if p then k else 0) := by
  split <;> simp

theorem polyModStep_eq (c : UInt64) (d : UInt8) :
    polyModStep c d =
      ((c &&& 0x07ffffffff) <<< 5) ^^^ d.toUInt64 ^^^ generatorMultiple (c >>> 35).toUInt8 := by
  -- each conditional xor becomes an xor with a conditional term, innermost first
  simp only [polyModStep, ite_xor]
  simp only [generatorMultiple, UInt64.xor_assoc]

theorem polyModStep_value (c : UInt64) (d : UInt8) :
    polyModStep c d = polyModStep c 0 ^^^ d.toUInt64 := by
  rw [polyModStep_eq, polyModStep_eq, show (0 : UInt8).toUInt64 = 0 from rfl, UInt64.xor_zero]
  ac_rfl

theorem polyModStep_xor (a b : UInt64) (small : b.toNat < 2 ^ 35) :
    polyModStep (a ^^^ b) 0 = polyModStep a 0 ^^^ (b <<< 5) := by
  have top : b >>> 35 = 0 := UInt64.toNat_inj.mp (by
    simpa [Nat.shiftRight_eq_div_pow] using small)
  have low : b &&& 0x07ffffffff = b := UInt64.toNat_inj.mp (by
    rw [UInt64.toNat_and, show (0x07ffffffff : UInt64).toNat = 2 ^ 35 - 1 from rfl,
      Nat.and_two_pow_sub_one_eq_mod, Nat.mod_eq_of_lt small])
  have distrib : (a ^^^ b) &&& 0x07ffffffff = (a &&& 0x07ffffffff) ^^^ (b &&& 0x07ffffffff) :=
    UInt64.toNat_inj.mp (by simp only [UInt64.toNat_and, UInt64.toNat_xor, Nat.and_xor_distrib_right])
  rw [polyModStep_eq, polyModStep_eq, UInt64.shiftRight_xor, top, UInt64.xor_zero, distrib, low,
    UInt64.shiftLeft_xor]
  ac_rfl

theorem mul_two_pow_xor {x d n : Nat} (digit : d < 2 ^ n) : x * 2 ^ n ^^^ d = x * 2 ^ n + d := by
  have low : (x * 2 ^ n ^^^ d) % 2 ^ n = d := by
    rw [Nat.xor_mod_two_pow, Nat.mul_mod_left, Nat.mod_eq_of_lt digit, Nat.zero_xor]
  have high : (x * 2 ^ n ^^^ d) / 2 ^ n = x := by
    rw [Nat.xor_div_two_pow, Nat.mul_div_cancel _ (Nat.two_pow_pos n), Nat.div_eq_of_lt digit,
      Nat.xor_zero]
  calc x * 2 ^ n ^^^ d = 2 ^ n * ((x * 2 ^ n ^^^ d) / 2 ^ n) + (x * 2 ^ n ^^^ d) % 2 ^ n :=
        (Nat.div_add_mod _ _).symm
    _ = x * 2 ^ n + d := by rw [high, low, Nat.mul_comm]

theorem toNat_shift_xor {b : UInt64} {d : UInt8} (small : b.toNat < 2 ^ 59)
    (digit : d.toNat < 32) :
    ((b <<< 5) ^^^ d.toUInt64).toNat = b.toNat * 2 ^ 5 + d.toNat := by
  have fits : b.toNat * 2 ^ 5 < 2 ^ 64 := by omega
  rw [UInt64.toNat_xor, UInt64.toNat_shiftLeft, UInt8.toNat_toUInt64,
    show (5 : UInt64).toNat % 64 = 5 from rfl, Nat.shiftLeft_eq, Nat.mod_eq_of_lt fits]
  exact mul_two_pow_xor digit

theorem shift_xor_lt {b : UInt64} {d : UInt8} {n : Nat} (short : n + 1 ≤ 8)
    (small : b.toNat < 2 ^ (40 - 5 * (n + 1))) (digit : d.toNat < 32) :
    ((b <<< 5) ^^^ d.toUInt64).toNat < 2 ^ (40 - 5 * n) := by
  have below : b.toNat < 2 ^ 59 :=
    lt_of_lt_of_le small (Nat.pow_le_pow_right (by norm_num) (by omega))
  rw [toNat_shift_xor below digit]
  calc b.toNat * 2 ^ 5 + d.toNat
      < 2 ^ (40 - 5 * (n + 1)) * 2 ^ 5 := by omega
    _ = 2 ^ (40 - 5 * n) := by rw [← pow_add]; congr 1; omega

theorem generatorMultiple_lt (c0 : UInt8) : (generatorMultiple c0).toNat < 2 ^ 40 := by
  unfold generatorMultiple
  simp only [UInt64.toNat_xor]
  refine Nat.xor_lt_two_pow (Nat.xor_lt_two_pow (Nat.xor_lt_two_pow
    (Nat.xor_lt_two_pow ?_ ?_) ?_) ?_) ?_ <;> split <;> decide

def spread (b : UInt64) (ds : List UInt8) : UInt64 :=
  ds.foldl (fun b d => (b <<< 5) ^^^ d.toUInt64) b

theorem foldl_polyModStep_xor (ds : List UInt8) (short : ds.length ≤ 8)
    (digits : ∀ d ∈ ds, d.toNat < 32) :
    ∀ (a b : UInt64), b.toNat < 2 ^ (40 - 5 * ds.length) →
      ds.foldl polyModStep (a ^^^ b) =
        (List.replicate ds.length 0).foldl polyModStep a ^^^ spread b ds := by
  induction ds with
  | nil => intro a b _; rfl
  | cons d ds ih =>
    intro a b small
    simp only [List.length_cons] at short small
    have below : b.toNat < 2 ^ 35 :=
      lt_of_lt_of_le small (Nat.pow_le_pow_right (by norm_num) (by omega))
    have next := shift_xor_lt short small (digits d List.mem_cons_self)
    rw [List.foldl_cons, polyModStep_value, polyModStep_xor a b below, UInt64.xor_assoc,
      ih (by omega) (fun e mem => digits e (List.mem_cons_of_mem d mem)) _ _ next]
    rfl

theorem toNat_spread (ds : List UInt8) (short : ds.length ≤ 8)
    (digits : ∀ d ∈ ds, d.toNat < 32) :
    ∀ b : UInt64, b.toNat < 2 ^ (40 - 5 * ds.length) →
      (spread b ds).toNat = b.toNat * 2 ^ (5 * ds.length) + ConvertBits.groupValue 5 ds := by
  induction ds with
  | nil => intro b _; simp [spread, ConvertBits.groupValue]
  | cons d ds ih =>
    intro b small
    simp only [List.length_cons] at short small
    have digit := digits d List.mem_cons_self
    have below : b.toNat < 2 ^ 59 :=
      lt_of_lt_of_le small (Nat.pow_le_pow_right (by norm_num) (by omega))
    have next := shift_xor_lt short small digit
    show (spread ((b <<< 5) ^^^ d.toUInt64) ds).toNat = _
    rw [ih (by omega) (fun e mem => digits e (List.mem_cons_of_mem d mem)) _ next,
      toNat_shift_xor below digit, ConvertBits.groupValue_cons, List.length_cons]
    ring

theorem polyModStep_lt (c : UInt64) (d : UInt8) : (polyModStep c d).toNat < 2 ^ 40 := by
  rw [polyModStep_eq, UInt64.toNat_xor, UInt64.toNat_xor]
  refine Nat.xor_lt_two_pow (Nat.xor_lt_two_pow ?_ ?_) (generatorMultiple_lt _)
  · -- the low 35 bits moved up five places
    have low := Nat.mod_lt c.toNat (Nat.two_pow_pos 35)
    rw [UInt64.toNat_shiftLeft, UInt64.toNat_and,
      show (0x07ffffffff : UInt64).toNat = 2 ^ 35 - 1 from rfl, Nat.and_two_pow_sub_one_eq_mod,
      show (5 : UInt64).toNat % 64 = 5 from rfl, Nat.shiftLeft_eq]
    omega
  · have := d.toNat_lt
    rw [UInt8.toNat_toUInt64]
    omega

theorem polyMod_lt (v : List UInt8) : (polyMod v).toNat < 2 ^ 40 := by
  have rounds : ∀ (v : List UInt8) (c : UInt64), c.toNat < 2 ^ 40 →
      (v.foldl polyModStep c).toNat < 2 ^ 40 := by
    intro v
    induction v with
    | nil => exact fun c small => small
    | cons d v ih => exact fun c _ => ih _ (polyModStep_lt c d)
  exact rounds v 1 (by decide)

theorem toNat_checksumValue (mod : UInt64) (i : Nat) :
    ((mod >>> (5 * (7 - i)).toUInt64) &&& 0x1f).toUInt8.toNat =
      mod.toNat / 2 ^ (5 * (7 - i)) % 32 := by
  have small : 5 * (7 - i) < 2 ^ 64 := by omega
  have within : 5 * (7 - i) < 64 := by omega
  rw [UInt64.toNat_toUInt8, UInt64.toNat_and, UInt64.toNat_shiftRight, Nat.toUInt64_eq,
    UInt64.toNat_ofNat', Nat.mod_eq_of_lt small, Nat.mod_eq_of_lt within,
    show (0x1f : UInt64).toNat = 2 ^ 5 - 1 from rfl, Nat.and_two_pow_sub_one_eq_mod,
    Nat.shiftRight_eq_div_pow]
  exact Nat.mod_eq_of_lt (lt_of_lt_of_le (Nat.mod_lt _ (by norm_num)) (by norm_num))

theorem groupValue_checksumValues (mod : UInt64) (fits : mod.toNat < 2 ^ 40) :
    ConvertBits.groupValue 5
      ((List.range 8).map fun i => ((mod >>> (5 * (7 - i)).toUInt64) &&& 0x1f).toUInt8) =
      mod.toNat := by
  simp only [List.range_succ, List.range_zero, List.nil_append, List.cons_append, List.map_cons,
    List.map_nil, ConvertBits.groupValue, List.foldl_cons, List.foldl_nil, toNat_checksumValue]
  norm_num
  omega

theorem polyMod_append (v w : List UInt8) : polyMod (v ++ w) = w.foldl polyModStep (polyMod v) :=
  List.foldl_append

theorem verifyChecksum_createChecksum (pfx : List Char) (values : List UInt8) :
    verifyChecksum pfx (values ++ createChecksum pfx values) = true := by
  have length : (createChecksum pfx values).length = 8 := by simp [createChecksum]
  have zeros := foldl_polyModStep_xor (createChecksum pfx values) length.le
    (createChecksum_lt pfx values) (polyMod (expandPrefix pfx ++ values)) 0 (by simp)
  -- the checksum, read as one number, is the remainder over zeros xor `1`
  have spelled : spread 0 (createChecksum pfx values) =
      polyMod (expandPrefix pfx ++ values ++ List.replicate 8 0) ^^^ 1 := by
    have fits : (polyMod (expandPrefix pfx ++ values ++ List.replicate 8 0) ^^^ 1).toNat <
        2 ^ 40 := by
      rw [UInt64.toNat_xor]
      exact Nat.xor_lt_two_pow (polyMod_lt _) (by decide)
    apply UInt64.toNat_inj.mp
    rw [toNat_spread _ length.le (createChecksum_lt pfx values) 0 (by simp), createChecksum,
      groupValue_checksumValues _ fits]
    simp
  rw [UInt64.xor_zero] at zeros
  rw [verifyChecksum, ← List.append_assoc, polyMod_append (expandPrefix pfx ++ values), zeros,
    length, spelled, polyMod_append (expandPrefix pfx ++ values) (List.replicate 8 0),
    ← UInt64.xor_assoc, UInt64.xor_self, UInt64.zero_xor]
  rfl

end Checksum

theorem scanStep_keeps {i : Nat} {c : Char} {s s' : Scan} (step : scanStep i c s = some s') :
    (s.lower = true → s'.lower = true) ∧ (s.upper = true → s'.upper = true) := by
  unfold scanStep at step
  split_ifs at step <;> cases step <;> simp

theorem scan_keeps (str : List Char) :
    ∀ (i : Nat) (s s' : Scan), scan i str s = some s' →
      (s.lower = true → s'.lower = true) ∧ (s.upper = true → s'.upper = true) := by
  induction str with
  | nil =>
    intro i s s' done
    cases done
    exact ⟨id, id⟩
  | cons c rest ih =>
    intro i s s' done
    rw [scan] at done
    obtain ⟨next, step, later⟩ := Option.bind_eq_some_iff.mp done
    have first := scanStep_keeps step
    have second := ih (i + 1) next s' later
    exact ⟨fun lower => second.1 (first.1 lower), fun upper => second.2 (first.2 upper)⟩

theorem decode_of_mixed {str : List Char} (defaultPrefix : List Char)
    (mixed : ∀ s, scan 0 str ⟨false, false, false, 0⟩ = some s → s.upper = true ∧ s.lower = true) :
    decode str defaultPrefix = .ok ([], []) := by
  unfold decode
  cases scanned : scan 0 str ⟨false, false, false, 0⟩ with
  | none => rfl
  | some s =>
    obtain ⟨upper, lower⟩ := mixed s scanned
    simp only [upper, lower, Bool.and_self, if_true]
    rfl

theorem decode_upper_lower (upper lower : Char) (rest defaultPrefix : List Char)
    (isUpper : 'A' ≤ upper ∧ upper ≤ 'Z') (isLower : 'a' ≤ lower ∧ lower ≤ 'z') :
    decode (upper :: lower :: rest) defaultPrefix = .ok ([], []) := by
  have notLower : ¬('a' ≤ upper ∧ upper ≤ 'z') :=
    fun inside => absurd (le_trans inside.1 isUpper.2) (by decide)
  apply decode_of_mixed
  intro s scanned
  simp only [scan, scanStep, if_neg notLower, if_pos isUpper, if_pos isLower, Option.bind_some]
    at scanned
  have kept := scan_keeps rest 2 _ s scanned
  exact ⟨kept.2 rfl, kept.1 rfl⟩

section RoundTrip

theorem valueOf_charset_fin :
    ∀ v : Fin 32, valueOf (charset.getD v.val 'q') = some (UInt8.ofNat v.val) := by
  decide

theorem charset_plain_fin : ∀ v : Fin 32,
    ('a' ≤ charset.getD v.val 'q' ∧ charset.getD v.val 'q' ≤ 'z') ∨
      ('0' ≤ charset.getD v.val 'q' ∧ charset.getD v.val 'q' ≤ '9') := by
  decide

theorem valueOf_charset {v : UInt8} (small : v.toNat < 32) :
    valueOf (charset.getD v.toNat 'q') = some v := by
  simpa using valueOf_charset_fin ⟨v.toNat, small⟩

theorem mapM_valueOf (values : List UInt8) (small : ∀ v ∈ values, v.toNat < 32) :
    (values.map fun v => charset.getD v.toNat 'q').mapM valueOf = some values := by
  induction values with
  | nil => rfl
  | cons v vs ih =>
    rw [List.map_cons, List.mapM_cons, valueOf_charset (small v List.mem_cons_self),
      ih (fun w mem => small w (List.mem_cons_of_mem v mem))]
    rfl

theorem lowerCase_of_lower {c : Char} (lower : 'a' ≤ c ∧ c ≤ 'z') : lowerCase c = c := by
  -- a lower case letter has the bit `0x20` already
  have bit : c.toNat ||| 0x20 = c.toNat := by
    have low : 97 ≤ c.toNat := lower.1
    have high : c.toNat ≤ 122 := lower.2
    generalize c.toNat = n at low high ⊢
    interval_cases n <;> rfl
  rw [lowerCase, bit, Char.ofNat_toNat]

theorem scanStep_lower {i : Nat} {c : Char} (lower : 'a' ≤ c ∧ c ≤ 'z') (s : Scan) :
    scanStep i c s = some { s with lower := true } := by
  rw [scanStep, if_pos lower]

theorem scanStep_digit {i : Nat} {c : Char} (digit : '0' ≤ c ∧ c ≤ '9') (s : Scan) :
    scanStep i c s = some { s with hasNumber := true } := by
  have notLower : ¬('a' ≤ c ∧ c ≤ 'z') :=
    fun inside => absurd (le_trans inside.1 digit.2) (by decide)
  have notUpper : ¬('A' ≤ c ∧ c ≤ 'Z') :=
    fun inside => absurd (le_trans inside.1 digit.2) (by decide)
  rw [scanStep, if_neg notLower, if_neg notUpper, if_pos digit]

theorem scanStep_separator {i : Nat} (positive : 0 < i) (s : Scan) (noNumber : s.hasNumber = false)
    (first : s.prefixSize = 0) :
    scanStep i ':' s = some { s with prefixSize := i } := by
  rw [scanStep, if_neg (by decide), if_neg (by decide), if_neg (by decide), if_pos rfl]
  simp [noNumber, first, positive.ne']

theorem scan_append (xs ys : List Char) :
    ∀ (i : Nat) (s : Scan), scan i (xs ++ ys) s = (scan i xs s).bind (scan (i + xs.length) ys) := by
  induction xs with
  | nil => intro i s; rfl
  | cons x xs ih =>
    intro i s
    simp only [List.cons_append, scan, Option.bind_assoc, ih, List.length_cons]
    congr
    funext next
    rw [Nat.add_assoc, Nat.add_comm 1]

theorem scan_plain (cs : List Char)
    (plain : ∀ c ∈ cs, ('a' ≤ c ∧ c ≤ 'z') ∨ ('0' ≤ c ∧ c ≤ '9')) :
    ∀ (i : Nat) (s : Scan), ∃ lower hasNumber,
      scan i cs s = some { s with lower := lower, hasNumber := hasNumber } ∧
      ((∀ c ∈ cs, 'a' ≤ c ∧ c ≤ 'z') → hasNumber = s.hasNumber) := by
  induction cs with
  | nil => intro i s; exact ⟨s.lower, s.hasNumber, rfl, fun _ => rfl⟩
  | cons c cs ih =>
    intro i s
    have rest : ∀ d ∈ cs, ('a' ≤ d ∧ d ≤ 'z') ∨ ('0' ≤ d ∧ d ≤ '9') :=
      fun d mem => plain d (List.mem_cons_of_mem c mem)
    rcases plain c List.mem_cons_self with lower | digit
    · obtain ⟨l, n, run, letters⟩ := ih rest (i + 1) { s with lower := true }
      refine ⟨l, n, by rw [scan, scanStep_lower lower, Option.bind_some, run], fun all => ?_⟩
      exact letters (fun d mem => all d (List.mem_cons_of_mem c mem))
    · obtain ⟨l, n, run, -⟩ := ih rest (i + 1) { s with hasNumber := true }
      refine ⟨l, n, by rw [scan, scanStep_digit digit, Option.bind_some, run], fun all => ?_⟩
      -- a digit is no letter
      exact absurd (le_trans (all c List.mem_cons_self).1 digit.2) (by decide)

theorem scan_encoded {pfx : List Char} (nonempty : pfx ≠ [])
    (lower : ∀ c ∈ pfx, 'a' ≤ c ∧ c ≤ 'z') {values : List UInt8}
    (small : ∀ v ∈ values, v.toNat < 32) :
    ∃ s, scan 0 (pfx ++ ':' :: values.map fun v => charset.getD v.toNat 'q')
        ⟨false, false, false, 0⟩ = some s ∧ s.upper = false ∧ s.prefixSize = pfx.length := by
  have chars : ∀ c ∈ values.map (fun v => charset.getD v.toNat 'q'),
      ('a' ≤ c ∧ c ≤ 'z') ∨ ('0' ≤ c ∧ c ≤ '9') := by
    intro c mem
    obtain ⟨v, given, rfl⟩ := List.mem_map.mp mem
    exact charset_plain_fin ⟨v.toNat, small v given⟩
  obtain ⟨l, n, run, letters⟩ :=
    scan_plain pfx (fun c mem => .inl (lower c mem)) 0 ⟨false, false, false, 0⟩
  obtain ⟨l', n', run', -⟩ := scan_plain _ chars (0 + pfx.length + 1)
    { (⟨l, false, n, 0⟩ : Scan) with prefixSize := 0 + pfx.length }
  have noNumber : n = false := letters lower
  rw [scan_append, run, Option.bind_some, scan,
    scanStep_separator (by simpa using List.length_pos_iff.mpr nonempty) _ noNumber rfl,
    Option.bind_some, run']
  exact ⟨_, rfl, rfl, Nat.zero_add _⟩

theorem decode_encode {pfx : List Char} (nonempty : pfx ≠ [])
    (lower : ∀ c ∈ pfx, 'a' ≤ c ∧ c ≤ 'z') (defaultPrefix : List Char) {values : List UInt8}
    (small : ∀ v ∈ values, v.toNat < 32) :
    decode (pfx ++ ':' :: (values ++ createChecksum pfx values).map
      fun v => charset.getD v.toNat 'q') defaultPrefix = .ok (pfx, values) := by
  have all := append_createChecksum_lt pfx small
  obtain ⟨s, scanned, upper, size⟩ := scan_encoded nonempty lower all
  have named : pfx.length ≠ 0 := (List.length_pos_iff.mpr nonempty).ne'
  have lowered : pfx.map lowerCase = pfx := by
    rw [List.map_congr_left (fun c mem => lowerCase_of_lower (lower c mem)), List.map_id']
  have payload : (pfx ++ ':' :: (values ++ createChecksum pfx values).map
      fun v => charset.getD v.toNat 'q').drop (pfx.length + 1) =
      (values ++ createChecksum pfx values).map fun v => charset.getD v.toNat 'q' := by
    simp
  have length : (values ++ createChecksum pfx values).length = values.length + 8 := by
    simp [createChecksum]
  unfold decode
  rw [scanned]
  simp only [upper, Bool.false_and, Bool.false_eq_true, if_false, size, named, List.take_left' rfl,
    lowered, payload, mapM_valueOf _ all, verifyChecksum_createChecksum, Bool.not_true, length]
  rw [if_neg (by omega), Nat.add_sub_cancel, List.take_left' rfl]
  rfl

end RoundTrip

section NoSeparator

theorem charsetRev_fin : ∀ i : Fin 128, charsetRev.getD i.val (-1) = -1 ∨
    (0 ≤ charsetRev.getD i.val (-1) ∧ charsetRev.getD i.val (-1) < 32) := by
  decide

theorem valueOf_lt {c : Char} {v : UInt8} (read : valueOf c = some v) : v.toNat < 32 := by
  unfold valueOf at read
  split_ifs at read with outside
  cases read
  push Not at outside
  rcases charsetRev_fin ⟨c.toNat, by omega⟩ with missing | ⟨low, high⟩
  · exact absurd missing outside.2
  · dsimp only at low high
    rw [UInt8.toNat_ofNat']
    omega

theorem mapM_valueOf_spec (str : List Char) :
    ∀ values, str.mapM valueOf = some values →
      values.length = str.length ∧ ∀ v ∈ values, v.toNat < 32 := by
  induction str with
  | nil => intro values read; cases read; simp
  | cons c cs ih =>
    intro values read
    rw [List.mapM_cons] at read
    obtain ⟨v, first, later⟩ := Option.bind_eq_some_iff.mp read
    obtain ⟨vs, rest, done⟩ := Option.bind_eq_some_iff.mp later
    cases done
    obtain ⟨length, small⟩ := ih vs rest
    refine ⟨by simp [length], fun w mem => ?_⟩
    rcases List.mem_cons.mp mem with rfl | old
    · exact valueOf_lt first
    · exact small w old

theorem scanStep_prefixSize {i : Nat} {c : Char} {s s' : Scan} (step : scanStep i c s = some s')
    (notSep : c ≠ ':') : s'.prefixSize = s.prefixSize := by
  unfold scanStep at step
  split_ifs at step
  all_goals first
    | exact absurd ‹c = ':'› notSep
    | (cases step; rfl)

theorem scan_prefixSize (str : List Char) (noSep : ':' ∉ str) :
    ∀ (i : Nat) (s s' : Scan), scan i str s = some s' → s'.prefixSize = s.prefixSize := by
  induction str with
  | nil => intro i s s' done; cases done; rfl
  | cons c rest ih =>
    intro i s s' done
    rw [scan] at done
    obtain ⟨next, step, later⟩ := Option.bind_eq_some_iff.mp done
    rw [ih (fun mem => noSep (List.mem_cons_of_mem c mem)) (i + 1) next s' later,
      scanStep_prefixSize step (fun sep => noSep (sep ▸ List.mem_cons_self))]

theorem decode_no_separator {str : List Char} (defaultPrefix : List Char) (noSep : ':' ∉ str)
    (long : 8 ≤ str.length) :
    decode str defaultPrefix = .ok ([], []) ∨
      ∃ values : List UInt8, values.length = str.length ∧ (∀ v ∈ values, v.toNat < 32) ∧
        decode str defaultPrefix = .ok (defaultPrefix, values.take (values.length - 8)) := by
  unfold decode
  cases scanned : scan 0 str ⟨false, false, false, 0⟩ with
  | none => exact .inl rfl
  | some s =>
    have unnamed : s.prefixSize = 0 := scan_prefixSize str noSep 0 _ s scanned
    by_cases mixed : (s.upper && s.lower) = true
    · left
      simp only [mixed, if_true]
      rfl
    · simp only [mixed, Bool.false_eq_true, if_false, unnamed, if_true, List.drop_zero]
      cases read : str.mapM valueOf with
      | none => exact .inl rfl
      | some values =>
        obtain ⟨length, small⟩ := mapM_valueOf_spec str values read
        by_cases passes : verifyChecksum defaultPrefix values = true
        · right
          refine ⟨values, length, small, ?_⟩
          simp only [passes, Bool.not_true, Bool.false_eq_true, if_false,
            if_neg (show ¬values.length < 8 by omega)]
          rfl
        · left
          simp only [passes, Bool.not_false, if_true]
          rfl

end NoSeparator

section Short

theorem decode_of_prefixSize {str : List Char} {s : Scan}
    (scanned : scan 0 str ⟨false, false, false, 0⟩ = some s) (named : s.prefixSize ≠ 0)
    (defaultPrefix other : List Char) : decode str defaultPrefix = decode str other := by
  unfold decode
  rw [scanned]
  simp only [named, if_false]

theorem decode_scykycsa (defaultPrefix : List Char) :
    decode "scykycsa:p".toList defaultPrefix = .error .outOfRange := by
  rw [decode_of_prefixSize (s := ⟨true, false, false, 8⟩) rfl (by decide) defaultPrefix []]
  decide +kernel

end Short

end CashAddr

end Gaiacoin
