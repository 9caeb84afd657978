import Gaiacoin.Primitives.Transaction
import Gaiacoin.Shared.Sha256

set_option autoImplicit false

/-!
# `base58.cpp`

`EncodeBase58` and `DecodeBase58` convert in place between a big-endian base-256
and a big-endian base-58 buffer, sized by the ratios `138/100` and `733/1000` of
the two logarithms, and `assert` that no carry is left after a digit. Leading
zero bytes are the leading `'1'`s. The buffers are kept here least significant
digit first, so that a buffer is read with `Nat.ofDigits`; each digit is below
its base, so an `unsigned char` holds it.

`DecodeBase58` reads a C string: `psz` are the characters before its
terminator.
-/

namespace Gaiacoin

namespace Base58

def pszBase58 : List Char := "123456789ABCDEFGHJKLMNPQRSTUVWXYZabcdefghijkmnopqrstuvwxyz".toList

/-- `isspace` in the C locale: the space and `\t`, `\n`, `\v`, `\f`, `\r`. -/
def isSpace (c : Char) : Bool := c.toNat == 32 || (decide (9 ≤ c.toNat) && decide (c.toNat ≤ 13))

/-- `b256 = b256 * 58 + ch` over the whole buffer, least significant byte first. -/
def decodeCarry : (carry : Nat) → List Nat → List Nat × Nat
  | carry, [] => ([], carry)
  | carry, b :: bs =>
    let carry := carry + 58 * b
    let rest := decodeCarry (carry / 256) bs
    (carry % 256 :: rest.1, rest.2)

/-- The characters up to the first space or the end: each a base-58 digit
folded into `b256`, or the call fails. What is left is returned. -/
def decodeDigits (b256 : List Nat) : List Char → Checked (Option (List Nat × List Char))
  | [] => pure (some (b256, []))
  | c :: rest =>
    if isSpace c then pure (some (b256, c :: rest))
    else
      match pszBase58.idxOf? c with
      | none => pure none
      | some ch =>
        let next := decodeCarry ch b256
        if next.2 ≠ 0 then throw .assertion
        else decodeDigits next.1 rest

def decodeBase58 (psz : List Char) : Checked (Option (List UInt8)) := do
  -- skip leading spaces, then count the leading '1's in the `int` `zeroes`
  let psz := psz.dropWhile isSpace
  let zeroes := (psz.takeWhile (· == '1')).length
  if 2 ^ 31 ≤ zeroes then throw .overflow
  let psz := psz.drop zeroes
  let b256 := List.replicate (psz.length * 733 / 1000 + 1) 0
  match ← decodeDigits b256 psz with
  | none => pure none
  | some (b256, rest) =>
    -- only trailing spaces may follow the digits
    if rest.dropWhile isSpace ≠ [] then pure none
    else
      let digits := b256.reverse.dropWhile (· == 0)
      pure (some (List.replicate zeroes 0 ++ digits.map UInt8.ofNat))

/-- `b58 = b58 * 256 + ch`, least significant digit first, over the `length`
digits in use and on while a carry is left. Returns the buffer, the carry and
the digits now in use. -/
def encodeCarry (length : Nat) : (carry i : Nat) → List Nat → List Nat × Nat × Nat
  | carry, i, [] => ([], carry, i)
  | carry, i, d :: ds =>
    if carry ≠ 0 ∨ i < length then
      let carry := carry + 256 * d
      let rest := encodeCarry length (carry / 58) (i + 1) ds
      (carry % 58 :: rest.1, rest.2.1, rest.2.2)
    else (d :: ds, carry, i)

def encodeByte (acc : List Nat × Nat) (byte : UInt8) : Checked (List Nat × Nat) :=
  let next := encodeCarry acc.2 byte.toNat 0 acc.1
  if next.2.1 ≠ 0 then throw .assertion else pure (next.1, next.2.2)

/-- `EncodeBase58`. `zeroes` and `size` are `int`s: `size` keeps the low 32 bits of
the `ptrdiff_t` it is computed in, and a negative `size` converts to a `size_t`
past what a vector can hold. -/
def encodeBase58 (input : List UInt8) : Checked (List Char) := do
  let zeroes := (input.takeWhile (· == 0)).length
  if 2 ^ 31 ≤ zeroes then throw .overflow
  let bytes := input.drop zeroes
  let size := Int32.ofNat (bytes.length * 138 / 100 + 1)
  if size < 0 then throw (.thrown "cannot create std::vector larger than max_size()")
  let (b58, length) ← bytes.foldlM encodeByte (List.replicate size.toNatClampNeg 0, 0)
  -- the digits in use, without their leading zeroes
  let digits := (b58.reverse.drop (size.toNatClampNeg - length)).dropWhile (· == 0)
  pure (List.replicate zeroes '1' ++ digits.map fun d => pszBase58.getD d '1')

/-- Four bytes of `Hash` (double SHA-256) appended as a checksum. -/
def encodeBase58Check (vchIn : List UInt8) : Checked (List Char) :=
  encodeBase58 (vchIn ++ (Sha256.hash256 vchIn).take 4)

def decodeBase58Check (psz : List Char) : Checked (Option (List UInt8)) := do
  match ← decodeBase58 psz with
  | none => pure none
  | some vchRet =>
    if vchRet.length < 4 then pure none
    else
      let body := vchRet.take (vchRet.length - 4)
      if (Sha256.hash256 body).take 4 ≠ vchRet.drop (vchRet.length - 4) then pure none
      else pure (some body)

theorem encodeCapacity (n : Nat) : 256 ^ n ≤ 58 ^ (n * 138 / 100 + 1) := by
  have ratio : 256 ^ 100 ≤ 58 ^ 138 := by norm_num
  have enough : 138 * n ≤ 100 * (n * 138 / 100 + 1) := by omega
  rw [← Nat.pow_le_pow_iff_left (by norm_num : (100 : Nat) ≠ 0)]
  calc (256 ^ n) ^ 100 = (256 ^ 100) ^ n := by rw [← pow_mul, ← pow_mul, Nat.mul_comm]
    _ ≤ (58 ^ 138) ^ n := Nat.pow_le_pow_left ratio n
    _ = 58 ^ (138 * n) := by rw [← pow_mul]
    _ ≤ 58 ^ (100 * (n * 138 / 100 + 1)) := Nat.pow_le_pow_right (by norm_num) enough
    _ = (58 ^ (n * 138 / 100 + 1)) ^ 100 := by rw [← pow_mul, Nat.mul_comm]

theorem decodeCapacity (L : Nat) : 58 ^ L ≤ 256 ^ (L * 733 / 1000 + 1) := by
  have ratio : 58 ^ 71 ≤ 256 ^ 52 := by norm_num
  have enough : 52 * L ≤ 71 * (L * 733 / 1000 + 1) := by omega
  rw [← Nat.pow_le_pow_iff_left (by norm_num : (71 : Nat) ≠ 0)]
  calc (58 ^ L) ^ 71 = (58 ^ 71) ^ L := by rw [← pow_mul, ← pow_mul, Nat.mul_comm]
    _ ≤ (256 ^ 52) ^ L := Nat.pow_le_pow_left ratio L
    _ = 256 ^ (52 * L) := by rw [← pow_mul]
    _ ≤ 256 ^ (71 * (L * 733 / 1000 + 1)) := Nat.pow_le_pow_right (by norm_num) enough
    _ = (256 ^ (L * 733 / 1000 + 1)) ^ 71 := by rw [← pow_mul, Nat.mul_comm]

def bigEndian (base : Nat) (ds : List Nat) : Nat := Nat.ofDigits base ds.reverse

theorem bigEndian_cons (base d : Nat) (ds : List Nat) :
    bigEndian base (d :: ds) = d * base ^ ds.length + bigEndian base ds := by
  rw [bigEndian, bigEndian, List.reverse_cons, Nat.ofDigits_append, List.length_reverse]
  simp [Nat.ofDigits, Nat.add_comm, Nat.mul_comm]

theorem dropWhile_reverse_eq_digits {base : Nat} (wide : 1 < base) (l : List Nat)
    (small : ∀ d ∈ l, d < base) :
    l.reverse.dropWhile (· == 0) = (Nat.digits base (Nat.ofDigits base l)).reverse := by
  have split : l.rdropWhile (· == 0) ++ l.rtakeWhile (· == 0) = l :=
    List.rdropWhile_append_rtakeWhile
  have zeros : Nat.ofDigits base (l.rtakeWhile (· == 0)) = 0 := by
    have allZero : l.rtakeWhile (· == 0) = List.replicate (l.rtakeWhile (· == 0)).length 0 :=
      List.eq_replicate_iff.mpr ⟨rfl, fun x mem => by simpa using List.mem_rtakeWhile_imp mem⟩
    rw [allZero, Nat.ofDigits_replicate_zero]
  have kept : Nat.ofDigits base l = Nat.ofDigits base (l.rdropWhile (· == 0)) := by
    conv_lhs => rw [← split]
    rw [Nat.ofDigits_append, zeros, Nat.mul_zero, Nat.add_zero]
  have canonical : Nat.digits base (Nat.ofDigits base (l.rdropWhile (· == 0))) =
      l.rdropWhile (· == 0) := by
    apply Nat.digits_ofDigits base wide
    · exact fun d mem => small d ((List.rdropWhile_prefix (· == 0) l).subset mem)
    · intro nonempty
      simpa using List.rdropWhile_last_not (· == 0) l nonempty
  rw [kept, canonical, List.rdropWhile, List.reverse_reverse]

structure Buffer (base size : Nat) (buf : List Nat) : Prop where
  length : buf.length = size
  digits : ∀ d ∈ buf, d < base

theorem Buffer.value_lt {base size : Nat} {buf : List Nat} (holds : Buffer base size buf)
    (wide : 1 < base) : Nat.ofDigits base buf < base ^ size := by
  rw [← holds.length]
  exact Nat.ofDigits_lt_base_pow_length wide holds.digits

theorem buffer_replicate (base size : Nat) (positive : 0 < base) :
    Buffer base size (List.replicate size 0) :=
  ⟨List.length_replicate, fun d mem => by rw [List.eq_of_mem_replicate mem]; exact positive⟩

section Decode

theorem length_decodeCarry (bs : List Nat) :
    ∀ carry, (decodeCarry carry bs).1.length = bs.length := by
  induction bs with
  | nil => intro carry; rfl
  | cons b bs ih => intro carry; simp [decodeCarry, ih]

theorem decodeCarry_lt (bs : List Nat) : ∀ carry, ∀ d ∈ (decodeCarry carry bs).1, d < 256 := by
  induction bs with
  | nil => intro carry d mem; cases mem
  | cons b bs ih =>
    intro carry d mem
    rcases List.mem_cons.mp mem with rfl | later
    · exact Nat.mod_lt _ (by norm_num)
    · exact ih _ d later

theorem value_decodeCarry (bs : List Nat) :
    ∀ carry, Nat.ofDigits 256 (decodeCarry carry bs).1 + 256 ^ bs.length * (decodeCarry carry bs).2 =
      carry + 58 * Nat.ofDigits 256 bs := by
  induction bs with
  | nil => intro carry; simp [decodeCarry]
  | cons b bs ih =>
    intro carry
    have rest := ih ((carry + 58 * b) / 256)
    simp only [decodeCarry, Nat.ofDigits_cons, List.length_cons, pow_succ]
    calc (carry + 58 * b) % 256 + 256 * Nat.ofDigits 256 (decodeCarry ((carry + 58 * b) / 256) bs).1 +
          256 ^ bs.length * 256 * (decodeCarry ((carry + 58 * b) / 256) bs).2
        = (carry + 58 * b) % 256 + 256 * (Nat.ofDigits 256 (decodeCarry ((carry + 58 * b) / 256) bs).1 +
            256 ^ bs.length * (decodeCarry ((carry + 58 * b) / 256) bs).2) := by ring
      _ = carry + 58 * (b + 256 * Nat.ofDigits 256 bs) := by rw [rest]; omega

theorem decodeCarry_fits {size : Nat} {b256 : List Nat} (holds : Buffer 256 size b256) {ch : Nat}
    (fits : Nat.ofDigits 256 b256 * 58 + ch < 256 ^ size) :
    (decodeCarry ch b256).2 = 0 ∧ Buffer 256 size (decodeCarry ch b256).1 ∧
      Nat.ofDigits 256 (decodeCarry ch b256).1 = Nat.ofDigits 256 b256 * 58 + ch := by
  have value := value_decodeCarry b256 ch
  rw [holds.length] at value
  have noCarry : (decodeCarry ch b256).2 = 0 := by
    by_contra carried
    have : 256 ^ size ≤ 256 ^ size * (decodeCarry ch b256).2 :=
      Nat.le_mul_of_pos_right _ (Nat.pos_of_ne_zero carried)
    omega
  refine ⟨noCarry, ⟨by rw [length_decodeCarry, holds.length], decodeCarry_lt b256 ch⟩, ?_⟩
  rw [noCarry, Nat.mul_zero, Nat.add_zero] at value
  omega

end Decode

section Encode

def ZeroFrom (n : Nat) (ds : List Nat) : Prop := ∀ d ∈ ds.drop n, d = 0

theorem ZeroFrom.tail {n : Nat} {d : Nat} {ds : List Nat} (zero : ZeroFrom n (d :: ds)) :
    ZeroFrom (n - 1) ds := by
  intro x mem
  cases n with
  | zero => exact zero x (List.mem_cons_of_mem d (by simpa using mem))
  | succ n => exact zero x (by simpa using mem)

theorem ofDigits_of_zeroFrom {b : Nat} {ds : List Nat} (zero : ZeroFrom 0 ds) :
    Nat.ofDigits b ds = 0 := by
  have zeros : ds = List.replicate ds.length 0 :=
    List.eq_replicate_iff.mpr ⟨rfl, fun x mem => zero x (by simpa using mem)⟩
  rw [zeros, Nat.ofDigits_replicate_zero]

theorem encodeCarry_spec (length : Nat) (ds : List Nat) :
    ∀ carry i, ZeroFrom (length - i) ds → (∀ d ∈ ds, d < 58) →
      Nat.ofDigits 58 (encodeCarry length carry i ds).1 +
          58 ^ ds.length * (encodeCarry length carry i ds).2.1 = carry + 256 * Nat.ofDigits 58 ds ∧
        (encodeCarry length carry i ds).1.length = ds.length ∧
        (∀ d ∈ (encodeCarry length carry i ds).1, d < 58) ∧
        i ≤ (encodeCarry length carry i ds).2.2 ∧
        ZeroFrom ((encodeCarry length carry i ds).2.2 - i) (encodeCarry length carry i ds).1 := by
  induction ds with
  | nil => intro carry i _ _; simp [encodeCarry, ZeroFrom]
  | cons d ds ih =>
    intro carry i zero digits
    by_cases going : carry ≠ 0 ∨ i < length
    · obtain ⟨value, written, small, later, rest⟩ :=
        ih ((carry + 256 * d) / 58) (i + 1) (by simpa [Nat.sub_add_eq] using zero.tail)
          (fun x mem => digits x (List.mem_cons_of_mem d mem))
      simp only [encodeCarry, if_pos going, Nat.ofDigits_cons, List.length_cons, pow_succ]
      refine ⟨?_, by rw [written], ?_, by omega, ?_⟩
      · calc (carry + 256 * d) % 58 +
              58 * Nat.ofDigits 58 (encodeCarry length ((carry + 256 * d) / 58) (i + 1) ds).1 +
              58 ^ ds.length * 58 * (encodeCarry length ((carry + 256 * d) / 58) (i + 1) ds).2.1
            = (carry + 256 * d) % 58 +
              58 * (Nat.ofDigits 58 (encodeCarry length ((carry + 256 * d) / 58) (i + 1) ds).1 +
                58 ^ ds.length * (encodeCarry length ((carry + 256 * d) / 58) (i + 1) ds).2.1) := by
              ring
          _ = carry + 256 * (d + 58 * Nat.ofDigits 58 ds) := by rw [value]; omega
      · intro x mem
        rcases List.mem_cons.mp mem with rfl | old
        · exact Nat.mod_lt _ (by norm_num)
        · exact small x old
      · -- the written digit is below the digits now in use
        have shifted : (encodeCarry length ((carry + 256 * d) / 58) (i + 1) ds).2.2 - i =
            (encodeCarry length ((carry + 256 * d) / 58) (i + 1) ds).2.2 - (i + 1) + 1 := by omega
        intro x mem
        rw [shifted, List.drop_succ_cons] at mem
        exact rest x mem
    · -- no carry and past the digits in use: the rest of the buffer is zero
      have stop : carry = 0 ∧ length ≤ i := by omega
      have allZero : ZeroFrom 0 (d :: ds) := by
        rwa [Nat.sub_eq_zero_of_le stop.2] at zero
      simp only [encodeCarry, if_neg going, Nat.sub_self]
      refine ⟨?_, trivial, digits, le_rfl, allZero⟩
      rw [stop.1, ofDigits_of_zeroFrom allZero]
      simp

end Encode

section Runs

theorem fits_step {value v n bound base : Nat} (digit : v < base)
    (fits : (value + 1) * base ^ (n + 1) ≤ bound) :
    value * base + v < bound ∧ (value * base + v + 1) * base ^ n ≤ bound := by
  have next : (value * base + v + 1) * base ^ n ≤ (value + 1) * base ^ (n + 1) := by
    rw [pow_succ]
    calc (value * base + v + 1) * base ^ n ≤ (value + 1) * base * base ^ n :=
          Nat.mul_le_mul_right _ (by rw [Nat.add_mul, Nat.one_mul]; omega)
      _ = (value + 1) * (base ^ n * base) := by ring
  have positive : 0 < base ^ n := Nat.pow_pos (by omega)
  refine ⟨?_, le_trans next fits⟩
  calc value * base + v < value * base + v + 1 := Nat.lt_succ_self _
    _ ≤ (value * base + v + 1) * base ^ n := Nat.le_mul_of_pos_right _ positive
    _ ≤ bound := le_trans next fits

/-- The state of `EncodeBase58` between bytes: a buffer of `size` digits, none
in use from the count kept with it on, of value `value`. -/
structure Encoding (size value : Nat) (acc : List Nat × Nat) : Prop where
  buffer : Buffer 58 size acc.1
  inUse : ZeroFrom acc.2 acc.1
  value : Nat.ofDigits 58 acc.1 = value

theorem encodeByte_spec {size value : Nat} {acc : List Nat × Nat}
    (holds : Encoding size value acc) (byte : UInt8)
    (fits : value * 256 + byte.toNat < 58 ^ size) :
    ∃ acc', encodeByte acc byte = .ok acc' ∧ Encoding size (value * 256 + byte.toNat) acc' := by
  obtain ⟨written, length, small, -, inUse⟩ :=
    encodeCarry_spec acc.2 acc.1 byte.toNat 0 (by simpa using holds.inUse) holds.buffer.digits
  rw [holds.buffer.length, holds.value] at written
  have noCarry : (encodeCarry acc.2 byte.toNat 0 acc.1).2.1 = 0 := by
    by_contra carried
    have : 58 ^ size ≤ 58 ^ size * (encodeCarry acc.2 byte.toNat 0 acc.1).2.1 :=
      Nat.le_mul_of_pos_right _ (Nat.pos_of_ne_zero carried)
    omega
  refine ⟨_, by simp only [encodeByte, noCarry, ne_eq, not_true_eq_false, if_false]; rfl, ?_⟩
  refine ⟨⟨by rw [length, holds.buffer.length], small⟩, by simpa using inUse, ?_⟩
  rw [noCarry, Nat.mul_zero, Nat.add_zero] at written
  dsimp only
  omega

theorem foldlM_encodeByte (size : Nat) (bytes : List UInt8) :
    ∀ (value : Nat) (acc : List Nat × Nat), Encoding size value acc →
      (value + 1) * 256 ^ bytes.length ≤ 58 ^ size →
      ∃ acc', bytes.foldlM encodeByte acc = .ok acc' ∧
        Encoding size (value * 256 ^ bytes.length + bigEndian 256 (bytes.map UInt8.toNat)) acc' := by
  induction bytes with
  | nil => intro value acc holds _; exact ⟨acc, rfl, by simpa [bigEndian] using holds⟩
  | cons x xs ih =>
    intro value acc holds fits
    obtain ⟨first, rest⟩ := fits_step x.toNat_lt fits
    obtain ⟨next, step, stepped⟩ := encodeByte_spec holds x first
    obtain ⟨final, run, ran⟩ := ih _ next stepped rest
    refine ⟨final, by rw [List.foldlM_cons, step]; exact run, ?_⟩
    rw [List.map_cons, bigEndian_cons, List.length_map, List.length_cons, pow_succ]
    convert ran using 1
    ring

/-- A base-58 digit as `pszBase58` writes it. -/
def digitChar (d : Nat) : Char := pszBase58.getD d '1'

theorem digitChar_fin : ∀ d : Fin 58,
    isSpace (digitChar d.val) = false ∧ pszBase58.idxOf? (digitChar d.val) = some d.val ∧
      (digitChar d.val = '1' ↔ d.val = 0) := by
  decide

theorem decodeDigits_digits {size : Nat} (rest : List Char)
    (stop : ∀ c ∈ rest.head?, isSpace c = true) (vs : List Nat) (small : ∀ v ∈ vs, v < 58) :
    ∀ (b256 : List Nat) (value : Nat), Buffer 256 size b256 → Nat.ofDigits 256 b256 = value →
      (value + 1) * 58 ^ vs.length ≤ 256 ^ size →
      ∃ b', decodeDigits b256 (vs.map digitChar ++ rest) = .ok (some (b', rest)) ∧
        Buffer 256 size b' ∧ Nat.ofDigits 256 b' = value * 58 ^ vs.length + bigEndian 58 vs := by
  induction vs with
  | nil =>
    intro b256 value holds read _
    refine ⟨b256, ?_, holds, by simp [read, bigEndian]⟩
    cases rest with
    | nil => rfl
    | cons c t =>
      simp only [List.map_nil, List.nil_append, decodeDigits, stop c (by simp), if_true]
      rfl
  | cons v vs ih =>
    intro b256 value holds read fits
    have digit := small v List.mem_cons_self
    obtain ⟨notSpace, index, -⟩ := digitChar_fin ⟨v, digit⟩
    obtain ⟨first, later⟩ := fits_step digit fits
    rw [← read] at first
    obtain ⟨noCarry, stepped, value'⟩ := decodeCarry_fits holds first
    obtain ⟨b', run, ran, read'⟩ := ih (fun w mem => small w (List.mem_cons_of_mem v mem))
      _ _ stepped (by rw [value', read]) later
    refine ⟨b', ?_, ran, ?_⟩
    · simp only [List.map_cons, List.cons_append, decodeDigits, notSpace, index, noCarry,
        Bool.false_eq_true, if_false, ne_eq, not_true_eq_false]
      exact run
    · rw [read', bigEndian_cons, List.length_cons, pow_succ]
      ring

theorem decodeDigits_cases {size : Nat} (cs : List Char) :
    ∀ (b256 : List Nat) (value : Nat), Buffer 256 size b256 → Nat.ofDigits 256 b256 = value →
      (value + 1) * 58 ^ cs.length ≤ 256 ^ size →
      decodeDigits b256 cs = .ok none ∨
        ∃ vs rest b', cs = vs.map digitChar ++ rest ∧ (∀ v ∈ vs, v < 58) ∧
          (∀ c ∈ rest.head?, isSpace c = true) ∧ decodeDigits b256 cs = .ok (some (b', rest)) ∧
          Nat.ofDigits 256 b' = value * 58 ^ vs.length + bigEndian 58 vs ∧ Buffer 256 size b' := by
  induction cs with
  | nil =>
    intro b256 value holds read _
    exact .inr ⟨[], [], b256, rfl, by simp, by simp, rfl, by simp [read, bigEndian], holds⟩
  | cons c cs ih =>
    intro b256 value holds read fits
    by_cases space : isSpace c = true
    · refine .inr ⟨[], c :: cs, b256, rfl, by simp, by simpa using space, ?_,
        by simp [read, bigEndian], holds⟩
      simp only [decodeDigits, space, if_true]
      rfl
    · cases found : pszBase58.idxOf? c with
      | none =>
        left
        simp only [decodeDigits, space, Bool.false_eq_true, if_false, found]
        rfl
      | some v =>
        -- the character is the digit `v` of the alphabet
        obtain ⟨inside, atV, -⟩ := List.idxOf?_eq_some_iff.mp found
        have digit : v < 58 := inside
        have isDigit : c = digitChar v := by
          rw [digitChar, List.getD_eq_getElem _ _ inside, atV]
        obtain ⟨first, later⟩ := fits_step digit fits
        rw [← read] at first
        obtain ⟨noCarry, stepped, value'⟩ := decodeCarry_fits holds first
        have step : decodeDigits b256 (c :: cs) = decodeDigits (decodeCarry v b256).1 cs := by
          simp only [decodeDigits, space, Bool.false_eq_true, if_false, found, noCarry, ne_eq,
            not_true_eq_false]
        rcases ih _ _ stepped (by rw [value', read]) later with failed |
          ⟨vs, rest, b', split, small, stop, run, read', ran⟩
        · exact .inl (step.trans failed)
        · refine .inr ⟨v :: vs, rest, b', by rw [split, isDigit]; rfl, ?_, stop,
            step.trans run, ?_, ran⟩
          · intro w mem
            rcases List.mem_cons.mp mem with rfl | old
            · exact digit
            · exact small w old
          · rw [read', bigEndian_cons, List.length_cons, pow_succ]
            ring

end Runs

section Lists

variable {α : Type} {p : α → Bool}

theorem dropWhile_of_head {l : List α} (first : ∀ c ∈ l.head?, p c = false) :
    l.dropWhile p = l := by
  cases l with
  | nil => rfl
  | cons c t => simp [first c rfl]

theorem takeWhile_of_head {l : List α} (first : ∀ c ∈ l.head?, p c = false) :
    l.takeWhile p = [] := by
  cases l with
  | nil => rfl
  | cons c t => simp [first c rfl]

theorem takeWhile_replicate_append [BEq α] [LawfulBEq α] (x : α) (z : Nat) {l : List α}
    (first : ∀ c ∈ l.head?, (c == x) = false) :
    (List.replicate z x ++ l).takeWhile (· == x) = List.replicate z x := by
  rw [List.takeWhile_append_of_pos (fun c mem => by simp [List.eq_of_mem_replicate mem]),
    takeWhile_of_head first, List.append_nil]

theorem takeWhile_eq_replicate [BEq α] [LawfulBEq α] (x : α) (l : List α) :
    l.takeWhile (· == x) = List.replicate (l.takeWhile (· == x)).length x :=
  List.eq_replicate_iff.mpr ⟨rfl, fun c mem => by simpa using List.mem_takeWhile_imp mem⟩

theorem drop_takeWhile_length (l : List α) : l.drop (l.takeWhile p).length = l.dropWhile p := by
  have split := List.takeWhile_append_dropWhile (p := p) (l := l)
  calc l.drop (l.takeWhile p).length
      = (l.takeWhile p ++ l.dropWhile p).drop (l.takeWhile p).length := by rw [split]
    _ = l.dropWhile p := List.drop_left' rfl

theorem head_dropWhile_ne [BEq α] [LawfulBEq α] (x : α) (l : List α) :
    ∀ c ∈ (l.dropWhile (· == x)).head?, (c == x) = false := by
  intro c mem
  have nonempty : l.dropWhile (· == x) ≠ [] := by
    rintro empty
    rw [empty] at mem
    cases mem
  rw [List.head?_eq_some_head nonempty, Option.mem_def, Option.some_inj] at mem
  rw [← mem]
  exact List.head_dropWhile_not (· == x) nonempty

theorem rdropWhile_append_of_all {l r : List α} (kept : ∀ x ∈ l, p x = false)
    (dropped : ∀ x ∈ r, p x = true) : (l ++ r).rdropWhile p = l := by
  rw [List.rdropWhile, List.reverse_append,
    List.dropWhile_append_of_pos (fun x mem => dropped x (List.mem_reverse.mp mem)),
    dropWhile_of_head, List.reverse_reverse]
  intro c mem
  rw [List.head?_reverse] at mem
  exact kept c (List.mem_of_getLast? mem)

end Lists

theorem ofDigits_take {b n k : Nat} {ds : List Nat} (zero : ZeroFrom n ds)
    (enough : n ≤ k ∨ ds.length ≤ k) : Nat.ofDigits b (ds.take k) = Nat.ofDigits b ds := by
  have rest : ZeroFrom 0 (ds.drop k) := by
    intro x mem
    rw [List.drop_zero] at mem
    rcases enough with past | all
    · apply zero x
      rw [show k = n + (k - n) by omega, ← List.drop_drop] at mem
      exact List.mem_of_mem_drop mem
    · rw [List.drop_eq_nil_of_le all] at mem
      cases mem
  conv_rhs => rw [← List.take_append_drop k ds]
  rw [Nat.ofDigits_append, ofDigits_of_zeroFrom rest, Nat.mul_zero, Nat.add_zero]

theorem encodeBase58_eq (input : List UInt8) (short : input.length ≤ 1556147570) :
    encodeBase58 input = .ok (List.replicate (input.takeWhile (· == 0)).length '1' ++
      (Nat.digits 58 (bigEndian 256 ((input.drop (input.takeWhile (· == 0)).length).map
        UInt8.toNat))).reverse.map digitChar) := by
  -- neither `int` leaves its range
  have few : ¬2 ^ 31 ≤ (input.takeWhile (· == 0)).length := by
    have := (List.takeWhile_prefix (· == 0) (l := input)).length_le
    omega
  have fits : (input.drop (input.takeWhile (· == 0)).length).length * 138 / 100 + 1 < 2 ^ 31 := by
    rw [List.length_drop]
    omega
  simp only [encodeBase58, if_neg few]
  generalize input.drop (input.takeWhile (· == 0)).length = bytes at fits
  have nonneg : ¬Int32.ofNat (bytes.length * 138 / 100 + 1) < 0 := by
    rw [Int32.lt_iff_toInt_lt, Int32.toInt_ofNat_of_lt fits, Int32.toInt_zero]
    omega
  rw [if_neg nonneg, Int32.toNatClampNeg_ofNat_of_lt fits]
  have start : Encoding (bytes.length * 138 / 100 + 1) 0
      (List.replicate (bytes.length * 138 / 100 + 1) 0, 0) :=
    ⟨buffer_replicate 58 _ (by norm_num),
      fun d mem => List.eq_of_mem_replicate (List.mem_of_mem_drop mem), Nat.ofDigits_replicate_zero⟩
  obtain ⟨⟨b58, length⟩, run, buffer, inUse, value⟩ :=
    foldlM_encodeByte _ bytes 0 _ start (by simpa using encodeCapacity bytes.length)
  rw [Nat.zero_mul, Nat.zero_add] at value
  dsimp only at buffer inUse value
  have small : ∀ d ∈ b58.take (bytes.length * 138 / 100 + 1 -
      (bytes.length * 138 / 100 + 1 - length)), d < 58 :=
    fun d mem => buffer.digits d (List.mem_of_mem_take mem)
  rw [run, Checked.ok_bind]
  dsimp only
  rw [List.drop_reverse, buffer.length, dropWhile_reverse_eq_digits (by norm_num) _ small,
    ofDigits_take inUse (by have := buffer.length; omega), value]
  rfl

theorem head_digits_ne_zero (b N : Nat) : ∀ v ∈ (Nat.digits b N).reverse.head?, v ≠ 0 := by
  intro v top
  rw [List.head?_reverse] at top
  have nonzero : N ≠ 0 := by
    rintro rfl
    simp at top
  rw [List.getLast?_eq_some_getLast (Nat.digits_ne_nil_iff_ne_zero.mpr nonzero), Option.mem_def,
    Option.some_inj] at top
  rw [← top]
  exact Nat.getLast_digit_ne_zero b nonzero

theorem decodeBase58_canonical {z : Nat} (few : z < 2 ^ 31) (N : Nat) :
    decodeBase58 (List.replicate z '1' ++ (Nat.digits 58 N).reverse.map digitChar) =
      .ok (some (List.replicate z 0 ++ (Nat.digits 256 N).reverse.map UInt8.ofNat)) := by
  have small : ∀ v ∈ (Nat.digits 58 N).reverse, v < 58 :=
    fun v mem => Nat.digits_lt_base (by norm_num) (List.mem_reverse.mp mem)
  -- the most significant digit is no zero, so no `'1'`
  have leading : ∀ c ∈ ((Nat.digits 58 N).reverse.map digitChar).head?,
      (c == '1') = false ∧ isSpace c = false := by
    intro c mem
    rw [List.head?_map] at mem
    obtain ⟨v, top, rfl⟩ := Option.mem_map.mp mem
    obtain ⟨notSpace, -, one⟩ := digitChar_fin ⟨v, small v (List.mem_of_mem_head? top)⟩
    exact ⟨by simpa using mt one.mp (head_digits_ne_zero 58 N v top), notSpace⟩
  have noSpace : ∀ c ∈ (List.replicate z '1' ++ (Nat.digits 58 N).reverse.map digitChar).head?,
      isSpace c = false := by
    cases z with
    | zero => simpa using fun c mem => (leading c mem).2
    | succ z => simp [List.replicate_succ, isSpace]
  have ones := takeWhile_replicate_append '1' z (fun c mem => (leading c mem).1)
  obtain ⟨b', run, buffer, read⟩ := decodeDigits_digits [] (by simp) _ small
    (List.replicate (((Nat.digits 58 N).reverse.map digitChar).length * 733 / 1000 + 1) 0) 0
    (buffer_replicate 256 _ (by norm_num)) Nat.ofDigits_replicate_zero
    (by simpa using decodeCapacity ((Nat.digits 58 N).length))
  rw [List.append_nil] at run
  rw [Nat.zero_mul, Nat.zero_add, bigEndian, List.reverse_reverse, Nat.ofDigits_digits] at read
  simp only [decodeBase58, dropWhile_of_head noSpace, ones, List.length_replicate, if_neg (Nat.not_le.mpr few),
    List.drop_left' List.length_replicate, run, Checked.ok_bind, List.dropWhile_nil, ne_eq,
    not_true_eq_false, if_false, dropWhile_reverse_eq_digits (by norm_num) b' buffer.digits, read]
  rfl

theorem digits_bigEndian {base : Nat} (wide : 1 < base) {vs : List Nat}
    (small : ∀ v ∈ vs, v < base) (leading : ∀ v ∈ vs.head?, v ≠ 0) :
    (Nat.digits base (bigEndian base vs)).reverse = vs := by
  rw [bigEndian, Nat.digits_ofDigits base wide vs.reverse
    (fun v mem => small v (List.mem_reverse.mp mem)) ?_, List.reverse_reverse]
  intro nonempty
  rw [List.getLast_reverse]
  exact leading _ (List.head?_eq_some_head _)

theorem decodeBase58_ok (s : List Char)
    (ones : ((s.dropWhile isSpace).takeWhile (· == '1')).length < 2 ^ 31) : ∃ r, decodeBase58 s = .ok r := by
  simp only [decodeBase58, if_neg (Nat.not_le.mpr ones)]
  generalize (s.dropWhile isSpace).drop ((s.dropWhile isSpace).takeWhile (· == '1')).length = psz
  rcases decodeDigits_cases psz _ 0 (buffer_replicate 256 (psz.length * 733 / 1000 + 1)
      (by norm_num)) Nat.ofDigits_replicate_zero (by simpa using decodeCapacity psz.length) with
    failed | ⟨vs, rest, b', -, -, -, run, -, -⟩
  · exact ⟨none, by rw [failed]; rfl⟩
  · rw [run, Checked.ok_bind]
    dsimp only
    split_ifs
    · exact ⟨none, rfl⟩
    · exact ⟨_, rfl⟩

def trim (s : List Char) : List Char := (s.dropWhile isSpace).rdropWhile isSpace

theorem decodeBase58_some {s : List Char} {out : List UInt8}
    (decoded : decodeBase58 s = .ok (some out)) :
    ∃ z N, out = List.replicate z 0 ++ (Nat.digits 256 N).reverse.map UInt8.ofNat ∧
      trim s = List.replicate z '1' ++ (Nat.digits 58 N).reverse.map digitChar := by
  simp only [decodeBase58] at decoded
  rw [trim]
  generalize s.dropWhile isSpace = t at decoded ⊢
  generalize zeroes : (t.takeWhile (· == '1')).length = z at decoded
  by_cases many : 2 ^ 31 ≤ z
  · simp only [many, if_true] at decoded
    cases decoded
  simp only [many, if_false] at decoded
  have rest : t.drop z = t.dropWhile (· == '1') := by rw [← zeroes, drop_takeWhile_length]
  have split : t = List.replicate z '1' ++ t.drop z := by
    rw [rest, ← zeroes, ← takeWhile_eq_replicate, List.takeWhile_append_dropWhile]
  have notOne : ∀ c ∈ (t.drop z).head?, (c == '1') = false := by
    rw [rest]
    exact head_dropWhile_ne '1' t
  rw [split]
  generalize t.drop z = psz at decoded notOne
  rcases decodeDigits_cases psz _ 0 (buffer_replicate 256 (psz.length * 733 / 1000 + 1)
      (by norm_num)) Nat.ofDigits_replicate_zero (by simpa using decodeCapacity psz.length) with
    failed | ⟨vs, rest, b', pszEq, small, -, run, read, buffer⟩
  · rw [failed, Checked.ok_bind] at decoded
    cases decoded
  · rw [run, Checked.ok_bind] at decoded
    dsimp only at decoded
    split_ifs at decoded with trailing
    · cases decoded
    · rw [Nat.zero_mul, Nat.zero_add] at read
      -- the first digit is no zero: the `'1'`s were all counted
      have leading : ∀ v ∈ vs.head?, v ≠ 0 := by
        intro v mem zero
        cases vs with
        | nil => cases mem
        | cons w ws =>
          rw [List.head?_cons, Option.mem_def, Option.some_inj] at mem
          have isOne : digitChar w = '1' := (digitChar_fin ⟨w, small w List.mem_cons_self⟩).2.2.mpr
            (mem.trans zero)
          have := notOne (digitChar w) (by rw [pszEq]; simp)
          rw [isOne] at this
          cases this
      refine ⟨z, bigEndian 58 vs, ?_, ?_⟩
      · cases decoded
        rw [dropWhile_reverse_eq_digits (by norm_num) b' buffer.digits, read]
      · rw [digits_bigEndian (by norm_num) small leading, pszEq, ← List.append_assoc]
        apply rdropWhile_append_of_all
        · intro c mem
          rcases List.mem_append.mp mem with one | digit
          · rw [List.eq_of_mem_replicate one]
            rfl
          · obtain ⟨v, given, rfl⟩ := List.mem_map.mp digit
            exact (digitChar_fin ⟨v, small v given⟩).1
        · exact List.dropWhile_eq_nil_iff.mp (by simpa using trailing)

theorem digits_bigEndian_bytes {bytes : List UInt8} (leading : ∀ b ∈ bytes.head?, (b == 0) = false) :
    (Nat.digits 256 (bigEndian 256 (bytes.map UInt8.toNat))).reverse.map UInt8.ofNat = bytes := by
  have small : ∀ v ∈ bytes.map UInt8.toNat, v < 256 := by
    intro v mem
    obtain ⟨b, -, rfl⟩ := List.mem_map.mp mem
    exact b.toNat_lt
  have top : ∀ v ∈ (bytes.map UInt8.toNat).head?, v ≠ 0 := by
    intro v mem
    rw [List.head?_map] at mem
    obtain ⟨b, first, rfl⟩ := Option.mem_map.mp mem
    have nonzero : b ≠ 0 := by simpa using leading b first
    exact fun zero => nonzero (UInt8.toNat_inj.mp zero)
  rw [digits_bigEndian (by norm_num) small top, List.map_map]
  simp [Function.comp_def, UInt8.ofNat_toNat]

theorem bigEndian_digits_bytes (N : Nat) :
    bigEndian 256 (((Nat.digits 256 N).reverse.map UInt8.ofNat).map UInt8.toNat) = N := by
  have back : ((Nat.digits 256 N).reverse.map UInt8.ofNat).map UInt8.toNat = (Nat.digits 256 N).reverse := by
    rw [List.map_map]
    conv_rhs => rw [← List.map_id (Nat.digits 256 N).reverse]
    apply List.map_congr_left
    intro d mem
    have small : d < 2 ^ 8 := Nat.digits_lt_base (by norm_num) (List.mem_reverse.mp mem)
    simp only [Function.comp_apply, UInt8.toNat_ofNat', id, Nat.mod_eq_of_lt small]
  rw [back, bigEndian, List.reverse_reverse, Nat.ofDigits_digits]

theorem decodeBase58_encodeBase58 (input : List UInt8) (short : input.length ≤ 1556147570) :
    ∃ s, encodeBase58 input = .ok s ∧ decodeBase58 s = .ok (some input) := by
  refine ⟨_, encodeBase58_eq input short, ?_⟩
  have few : (input.takeWhile (· == 0)).length < 2 ^ 31 := by
    have := (List.takeWhile_prefix (· == 0) (l := input)).length_le
    omega
  -- the zero bytes, then bytes that do not start with one
  rw [decodeBase58_canonical few, drop_takeWhile_length,
    digits_bigEndian_bytes (head_dropWhile_ne 0 input), ← takeWhile_eq_replicate,
    List.takeWhile_append_dropWhile]

theorem encodeBase58_decodeBase58 {s : List Char} {out : List UInt8}
    (decoded : decodeBase58 s = .ok (some out)) (short : out.length ≤ 1556147570) :
    encodeBase58 out = .ok (trim s) := by
  obtain ⟨z, N, rfl, trimmed⟩ := decodeBase58_some decoded
  have leading : ∀ b ∈ ((Nat.digits 256 N).reverse.map UInt8.ofNat).head?, (b == 0) = false := by
    intro b mem
    rw [List.head?_map] at mem
    obtain ⟨v, top, rfl⟩ := Option.mem_map.mp mem
    have small : v < 256 := Nat.digits_lt_base (by norm_num)
      (List.mem_reverse.mp (List.mem_of_mem_head? top))
    have nonzero := head_digits_ne_zero 256 N v top
    simp only [beq_eq_false_iff_ne, ne_eq]
    intro zero
    have back := congrArg UInt8.toNat zero
    rw [UInt8.toNat_ofNat', Nat.mod_eq_of_lt (by simpa using small)] at back
    exact nonzero back
  rw [encodeBase58_eq _ short, takeWhile_replicate_append 0 z leading, List.length_replicate,
    List.drop_left' List.length_replicate, bigEndian_digits_bytes, trimmed]

theorem base58_bijection :
    (∀ input : List UInt8, input.length ≤ 1556147570 →
      ∃ s, encodeBase58 input = .ok s ∧ decodeBase58 s = .ok (some input)) ∧
    (∀ s : List Char, s.length < 2 ^ 31 → ∃ r, decodeBase58 s = .ok r) ∧
    (∀ (s : List Char) (out : List UInt8), decodeBase58 s = .ok (some out) → out.length ≤ 1556147570 →
      encodeBase58 out = .ok (trim s)) := by
  refine ⟨decodeBase58_encodeBase58, fun s short => decodeBase58_ok s ?_,
    fun _ _ => encodeBase58_decodeBase58⟩
  -- the leading '1's are characters of the string
  have taken := (List.takeWhile_prefix (· == '1') (l := s.dropWhile isSpace)).length_le
  have dropped := (List.dropWhile_suffix isSpace (l := s)).length_le
  omega

theorem encodeBase58_size_overflow :
    encodeBase58 (List.replicate 1556147571 1) =
      .error (.thrown "cannot create std::vector larger than max_size()") := by
  have noZero : (List.replicate 1556147571 (1 : UInt8)).takeWhile (· == 0) = [] := by
    rw [List.replicate_succ, List.takeWhile_cons_of_neg (by decide)]
  have negative : Int32.ofNat (1556147571 * 138 / 100 + 1) < 0 := by decide
  simp only [encodeBase58, noZero, List.length_nil, List.drop_zero, List.length_replicate]
  rw [if_neg (by norm_num), if_pos negative]
  rfl

section Alphabet

theorem digitChar_mem (d : Nat) : digitChar d ∈ pszBase58 := by
  unfold digitChar
  rw [List.getD_eq_getElem?_getD]
  cases found : pszBase58[d]? with
  | none => decide
  | some c => exact List.mem_of_getElem? found

theorem encodeBase58_shape {input : List UInt8} {s : List Char} (encoded : encodeBase58 input = .ok s) :
    ∃ digits : List Nat, s = List.replicate (input.takeWhile (· == 0)).length '1' ++ digits.map digitChar := by
  simp only [encodeBase58] at encoded
  by_cases many : 2 ^ 31 ≤ (input.takeWhile (· == 0)).length
  · simp only [many, if_true] at encoded
    cases encoded
  simp only [many, if_false] at encoded
  split_ifs at encoded
  · cases encoded
  cases run : (input.drop (input.takeWhile (· == 0)).length).foldlM encodeByte
      (List.replicate (Int32.ofNat ((input.drop (input.takeWhile (· == 0)).length).length * 138 / 100 + 1)).toNatClampNeg 0, 0) with
  | error e =>
    rw [run] at encoded
    cases encoded
  | ok acc =>
    rw [run] at encoded
    cases encoded
    exact ⟨_, rfl⟩

theorem mem_encodeBase58 {input : List UInt8} {s : List Char} (encoded : encodeBase58 input = .ok s) :
    ∀ c ∈ s, c ∈ pszBase58 := by
  obtain ⟨digits, rfl⟩ := encodeBase58_shape encoded
  intro c mem
  rcases List.mem_append.mp mem with one | digit
  · rw [List.eq_of_mem_replicate one]
    decide
  · obtain ⟨d, -, rfl⟩ := List.mem_map.mp digit
    exact digitChar_mem d

theorem mem_dropWhile {α : Type} {p : α → Bool} {l : List α} {x : α} (mem : x ∈ l)
    (kept : p x = false) : x ∈ l.dropWhile p := by
  rw [← List.takeWhile_append_dropWhile (p := p) (l := l)] at mem
  rcases List.mem_append.mp mem with taken | dropped
  · rw [List.mem_takeWhile_imp taken] at kept
    cases kept
  · exact dropped

theorem mem_trim {s : List Char} {c : Char} (mem : c ∈ s) (visible : isSpace c = false) :
    c ∈ trim s := by
  rw [trim, List.rdropWhile, List.mem_reverse]
  exact mem_dropWhile (List.mem_reverse.mpr (mem_dropWhile mem visible)) visible

theorem decodeBase58_of_mem {s : List Char} {c : Char} (mem : c ∈ s) (visible : isSpace c = false)
    (foreign : c ∉ pszBase58) (ones : ((s.dropWhile isSpace).takeWhile (· == '1')).length < 2 ^ 31) :
    decodeBase58 s = .ok none := by
  obtain ⟨r, decoded⟩ := decodeBase58_ok s ones
  rw [decoded]
  cases r with
  | none => rfl
  | some out =>
    -- what decodes is the trimmed string, made of '1's and digits only
    obtain ⟨z, N, -, trimmed⟩ := decodeBase58_some decoded
    have inside := mem_trim mem visible
    rw [trimmed] at inside
    exfalso
    apply foreign
    rcases List.mem_append.mp inside with one | digit
    · rw [List.eq_of_mem_replicate one]
      decide
    · obtain ⟨d, -, rfl⟩ := List.mem_map.mp digit
      exact digitChar_mem d

end Alphabet

section Check

theorem decodeBase58Check_encodeBase58Check (vchIn : List UInt8) (short : vchIn.length ≤ 1556147566) :
    ∃ s, encodeBase58Check vchIn = .ok s ∧ decodeBase58Check s = .ok (some vchIn) := by
  have four : ((Sha256.hash256 vchIn).take 4).length = 4 := by
    simp [Sha256.length_hash256]
  obtain ⟨s, encoded, decoded⟩ :=
    decodeBase58_encodeBase58 (vchIn ++ (Sha256.hash256 vchIn).take 4) (by rw [List.length_append, four]; omega)
  refine ⟨s, encoded, ?_⟩
  have body : vchIn.length + 4 - 4 = vchIn.length := by omega
  simp only [decodeBase58Check, decoded, Checked.ok_bind, List.length_append, four, body,
    List.take_left', List.drop_left']
  simp only [ne_eq, not_true_eq_false, if_false]
  rfl

theorem length_encodeBase58 {input : List UInt8} (leading : ∀ b ∈ input.head?, (b == 0) = false)
    (short : input.length ≤ 1556147570) {s : List Char} (encoded : encodeBase58 input = .ok s) :
    s.length = (Nat.digits 58 (bigEndian 256 (input.map UInt8.toNat))).length := by
  rw [encodeBase58_eq _ short, takeWhile_of_head leading] at encoded
  cases encoded
  simp

end Check

end Base58

end Gaiacoin
