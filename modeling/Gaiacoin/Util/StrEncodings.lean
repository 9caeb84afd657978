import Gaiacoin.Shared.BitFields
import Gaiacoin.Address.DstEncode

set_option autoImplicit false

/-!
# Hex, base64 and base32 (`utilstrencodings.cpp`)

`HexStr` and `ParseHex`, and the pairs `EncodeBase64`/`DecodeBase64` and
`EncodeBase32`/`DecodeBase32`. The coders are state machines over the bits not yet
written: `mode` counts the input read within a block (three bytes or four characters
for base64, five bytes or eight characters for base32) and `left` holds the pending
bits. A decoder stops at the first character outside its table and, through
`pfInvalid`, checks the `'='` padding and that the bits left over are zero.

A C string is the list of its characters before the terminator; reading at its end
gives the terminator `'\0'`.
-/

namespace Gaiacoin

/-- `p[i]` of a C string, the terminator at its end. -/
def charAt (p : List Char) (i : Nat) : Char := p.getD i (Char.ofNat 0)

/-- `p[0] == '='`, ..., `p[n-1] == '='`. -/
def paddedBy (p : List Char) (n : Nat) : Bool := (List.range n).all fun i => charAt p i == '='

/-- `p_util_hexdigit`, by runs: `'0'` to `'9'` (48 to 57), `'A'` to `'F'` (65 to 70) and
`'a'` to `'f'` (97 to 102) are digits, every other entry is `-1`. -/
def pUtilHexdigit : List Int :=
  List.replicate 48 (-1) ++ (List.range' 0 10).map Int.ofNat ++
    List.replicate 7 (-1) ++ (List.range' 10 6).map Int.ofNat ++
    List.replicate 26 (-1) ++ (List.range' 10 6).map Int.ofNat ++
    List.replicate 153 (-1)

/-- `HexDigit`: the entry of `(unsigned char)c`. -/
def hexDigit (c : Char) : Int := pUtilHexdigit.getD c.toNat (-1)

def hexmap : List Char := "0123456789abcdef".toList

/-- `HexStr(vch, fSpaces)`: two digits a byte, high half first. -/
def hexStr (vch : List UInt8) (fSpaces : Bool) : List Char :=
  List.intercalate (if fSpaces then [' '] else [])
    (vch.map fun val => [hexmap.getD (val.toNat >>> 4) '0', hexmap.getD (val.toNat &&& 15) '0'])

/-- The loop of `ParseHex(const char* psz)`: spaces are skipped before each pair of
digits, and the loop stops at the first character that is not a hex digit. -/
def parseHexLoop : List Char → List UInt8
  | [] => []
  | c :: rest =>
    if Base58.isSpace c then parseHexLoop rest
    else if hexDigit c = -1 then []
    else
      match rest with
      | [] => []
      | c2 :: rest =>
        if hexDigit c2 = -1 then []
        else UInt8.ofNat ((hexDigit c).toNat <<< 4 ||| (hexDigit c2).toNat) :: parseHexLoop rest

/-- `ParseHex(const std::string& str)`. -/
def parseHex (str : List Char) : List UInt8 := parseHexLoop (cStr str)

def pbase64 : List Char := "ABCDEFGHIJKLMNOPQRSTUVWXYZabcdefghijklmnopqrstuvwxyz0123456789+/".toList

/-- One byte of the loop of `EncodeBase64`: the characters appended, then `mode` and
`left`. -/
def encodeBase64Step (mode left enc : Nat) : List Char × Nat × Nat :=
  match mode with
  | 0 => ([pbase64.getD (enc >>> 2) 'A'], 1, (enc &&& 3) <<< 4)
  | 1 => ([pbase64.getD (left ||| enc >>> 4) 'A'], 2, (enc &&& 15) <<< 2)
  | 2 => ([pbase64.getD (left ||| enc >>> 6) 'A', pbase64.getD (enc &&& 63) 'A'], 0, left)
  | _ => ([], mode, left)

def encodeBase64Loop (mode left : Nat) : List UInt8 → List Char × Nat × Nat
  | [] => ([], mode, left)
  | b :: rest =>
    let step := encodeBase64Step mode left b.toNat
    let more := encodeBase64Loop step.2.1 step.2.2 rest
    (step.1 ++ more.1, more.2)

/-- The end of `EncodeBase64`: with bits pending, one more character and the padding. -/
def encodeBase64Pad (mode left : Nat) : List Char :=
  if mode ≠ 0 then pbase64.getD left 'A' :: '=' :: (if mode = 1 then ['='] else []) else []

/-- `EncodeBase64(pch, len)`. -/
def encodeBase64 (input : List UInt8) : List Char :=
  let r := encodeBase64Loop 0 0 input
  r.1 ++ encodeBase64Pad r.2.1 r.2.2

/-- `decode64_table`, by runs: `'+'` (43) is 62, `'/'` (47) is 63, `'0'` to `'9'` (48 to
57) are 52 to 61, `'A'` to `'Z'` (65 to 90) are 0 to 25, `'a'` to `'z'` (97 to 122) are
26 to 51, and every other entry is `-1`. -/
def decode64Table : List Int :=
  List.replicate 43 (-1) ++ [62] ++ List.replicate 3 (-1) ++ [63] ++
    (List.range' 52 10).map Int.ofNat ++ List.replicate 7 (-1) ++
    (List.range' 0 26).map Int.ofNat ++ List.replicate 6 (-1) ++
    (List.range' 26 26).map Int.ofNat ++ List.replicate 133 (-1)

def decode64 (c : Char) : Int := decode64Table.getD c.toNat (-1)

/-- One character of the loop of `DecodeBase64`: the bytes pushed, then `mode` and
`left`. -/
def decodeBase64Step (mode left dec : Nat) : List UInt8 × Nat × Nat :=
  match mode with
  | 0 => ([], 1, dec)
  | 1 => ([UInt8.ofNat (left <<< 2 ||| dec >>> 4)], 2, dec &&& 15)
  | 2 => ([UInt8.ofNat (left <<< 4 ||| dec >>> 2)], 3, dec &&& 3)
  | 3 => ([UInt8.ofNat (left <<< 6 ||| dec)], 0, left)
  | _ => ([], mode, left)

/-- The loop of `DecodeBase64`, up to the first character outside the table, which is
returned with what follows it. -/
def decodeBase64Loop (mode left : Nat) : List Char → List UInt8 × Nat × Nat × List Char
  | [] => ([], mode, left, [])
  | c :: rest =>
    if decode64 c = -1 then ([], mode, left, c :: rest)
    else
      let step := decodeBase64Step mode left (decode64 c).toNat
      let more := decodeBase64Loop step.2.1 step.2.2 rest
      (step.1 ++ more.1, more.2)

/-- What `DecodeBase64` writes to `*pfInvalid`, from the state the loop ends in and the
characters from where it stopped. -/
def decodeBase64Invalid (mode left : Nat) (p : List Char) : Bool :=
  match mode with
  | 1 => true
  | 2 => left != 0 || !paddedBy p 2 || decode64 (charAt p 2) != -1
  | 3 => left != 0 || !paddedBy p 1 || decode64 (charAt p 1) != -1
  | _ => false

/-- After the loop of `DecodeBase64`: the bytes and `*pfInvalid`. -/
def decodeBase64Result (r : List UInt8 × Nat × Nat × List Char) : List UInt8 × Bool :=
  (r.1, decodeBase64Invalid r.2.1 r.2.2.1 r.2.2.2)

/-- `DecodeBase64(p, pfInvalid)`. -/
def decodeBase64 (p : List Char) : List UInt8 × Bool := decodeBase64Result (decodeBase64Loop 0 0 p)

def pbase32 : List Char := "abcdefghijklmnopqrstuvwxyz234567".toList

/-- One byte of the loop of `EncodeBase32`. -/
def encodeBase32Step (mode left enc : Nat) : List Char × Nat × Nat :=
  match mode with
  | 0 => ([pbase32.getD (enc >>> 3) 'a'], 1, (enc &&& 7) <<< 2)
  | 1 => ([pbase32.getD (left ||| enc >>> 6) 'a', pbase32.getD ((enc >>> 1) &&& 31) 'a'], 2,
      (enc &&& 1) <<< 4)
  | 2 => ([pbase32.getD (left ||| enc >>> 4) 'a'], 3, (enc &&& 15) <<< 1)
  | 3 => ([pbase32.getD (left ||| enc >>> 7) 'a', pbase32.getD ((enc >>> 2) &&& 31) 'a'], 4,
      (enc &&& 3) <<< 3)
  | 4 => ([pbase32.getD (left ||| enc >>> 5) 'a', pbase32.getD (enc &&& 31) 'a'], 0, left)
  | _ => ([], mode, left)

def encodeBase32Loop (mode left : Nat) : List UInt8 → List Char × Nat × Nat
  | [] => ([], mode, left)
  | b :: rest =>
    let step := encodeBase32Step mode left b.toNat
    let more := encodeBase32Loop step.2.1 step.2.2 rest
    (step.1 ++ more.1, more.2)

def nPadding : List Nat := [0, 6, 4, 3, 1]

/-- The end of `EncodeBase32`: with bits pending, one more character and
`nPadding[mode]` of `'='`. -/
def encodeBase32Pad (mode left : Nat) : List Char :=
  if mode ≠ 0 then pbase32.getD left 'a' :: List.replicate (nPadding.getD mode 0) '=' else []

/-- `EncodeBase32(pch, len)`. -/
def encodeBase32 (input : List UInt8) : List Char :=
  let r := encodeBase32Loop 0 0 input
  r.1 ++ encodeBase32Pad r.2.1 r.2.2

/-- `decode32_table`, by runs: `'2'` to `'7'` (50 to 55) are 26 to 31, `'A'` to `'Z'` (65
to 90) and `'a'` to `'z'` (97 to 122) are 0 to 25, and every other entry is `-1`. -/
def decode32Table : List Int :=
  List.replicate 50 (-1) ++ (List.range' 26 6).map Int.ofNat ++
    List.replicate 9 (-1) ++ (List.range' 0 26).map Int.ofNat ++
    List.replicate 6 (-1) ++ (List.range' 0 26).map Int.ofNat ++
    List.replicate 133 (-1)

def decode32 (c : Char) : Int := decode32Table.getD c.toNat (-1)

/-- One character of the loop of `DecodeBase32`. -/
def decodeBase32Step (mode left dec : Nat) : List UInt8 × Nat × Nat :=
  match mode with
  | 0 => ([], 1, dec)
  | 1 => ([UInt8.ofNat (left <<< 3 ||| dec >>> 2)], 2, dec &&& 3)
  | 2 => ([], 3, left <<< 5 ||| dec)
  | 3 => ([UInt8.ofNat (left <<< 1 ||| dec >>> 4)], 4, dec &&& 15)
  | 4 => ([UInt8.ofNat (left <<< 4 ||| dec >>> 1)], 5, dec &&& 1)
  | 5 => ([], 6, left <<< 5 ||| dec)
  | 6 => ([UInt8.ofNat (left <<< 2 ||| dec >>> 3)], 7, dec &&& 7)
  | 7 => ([UInt8.ofNat (left <<< 5 ||| dec)], 0, left)
  | _ => ([], mode, left)

def decodeBase32Loop (mode left : Nat) : List Char → List UInt8 × Nat × Nat × List Char
  | [] => ([], mode, left, [])
  | c :: rest =>
    if decode32 c = -1 then ([], mode, left, c :: rest)
    else
      let step := decodeBase32Step mode left (decode32 c).toNat
      let more := decodeBase32Loop step.2.1 step.2.2 rest
      (step.1 ++ more.1, more.2)

/-- What `DecodeBase32` writes to `*pfInvalid`. -/
def decodeBase32Invalid (mode left : Nat) (p : List Char) : Bool :=
  match mode with
  | 1 | 3 | 6 => true
  | 2 => left != 0 || !paddedBy p 6 || decode32 (charAt p 6) != -1
  | 4 => left != 0 || !paddedBy p 4 || decode32 (charAt p 4) != -1
  | 5 => left != 0 || !paddedBy p 3 || decode32 (charAt p 3) != -1
  | 7 => left != 0 || !paddedBy p 1 || decode32 (charAt p 1) != -1
  | _ => false

/-- After the loop of `DecodeBase32`: the bytes and `*pfInvalid`. -/
def decodeBase32Result (r : List UInt8 × Nat × Nat × List Char) : List UInt8 × Bool :=
  (r.1, decodeBase32Invalid r.2.1 r.2.2.1 r.2.2.2)

/-- `DecodeBase32(p, pfInvalid)`. -/
def decodeBase32 (p : List Char) : List UInt8 × Bool := decodeBase32Result (decodeBase32Loop 0 0 p)

theorem hexmap_digit : ∀ i : Fin 16, hexDigit (hexmap.getD i '0') = i ∧
    Base58.isSpace (hexmap.getD i '0') = false ∧ hexmap.getD i '0' ≠ Char.ofNat 0 := by
  decide

theorem hexStr_cons (val : UInt8) (vch : List UInt8) :
    hexStr (val :: vch) false =
      hexmap.getD (val.toNat >>> 4) '0' :: hexmap.getD (val.toNat &&& 15) '0' :: hexStr vch false := by
  cases vch with
  | nil => simp [hexStr]
  | cons next vch =>
    rw [hexStr, List.map_cons, List.intercalate_cons_of_ne_nil (by simp)]
    simp [hexStr]

theorem parseHexLoop_hexStr (vch : List UInt8) : parseHexLoop (hexStr vch false) = vch := by
  induction vch with
  | nil => simp [hexStr, parseHexLoop]
  | cons val vch ih =>
    have high := hexmap_digit ⟨val.toNat >>> 4, BitFields.shiftRight_lt (w := 4) val.toNat_lt⟩
    have low := hexmap_digit ⟨val.toNat &&& 15, BitFields.and_lt (by norm_num : 15 + 1 = 2 ^ 4) _⟩
    simp only at high low
    rw [hexStr_cons, parseHexLoop, if_neg (by rw [high.2.1]; exact Bool.false_ne_true), high.1,
      if_neg (by omega)]
    rw [low.1, if_neg (by omega), ih, Int.toNat_natCast, Int.toNat_natCast,
      BitFields.join_split (by norm_num : 15 + 1 = 2 ^ 4), UInt8.ofNat_toNat]

theorem parseHex_hexStr (vch : List UInt8) : parseHex (hexStr vch false) = vch := by
  have noNul : ∀ c ∈ hexStr vch false, c ≠ Char.ofNat 0 := by
    induction vch with
    | nil => simp [hexStr]
    | cons val vch ih =>
      rw [hexStr_cons]
      intro c mem
      rcases List.mem_cons.mp mem with rfl | mem
      next => exact (hexmap_digit ⟨_, BitFields.shiftRight_lt (w := 4) val.toNat_lt⟩).2.2
      next =>
        rcases List.mem_cons.mp mem with rfl | mem
        next => exact (hexmap_digit ⟨_, BitFields.and_lt (by norm_num : 15 + 1 = 2 ^ 4) _⟩).2.2
        next => exact ih c mem
  rw [parseHex, cStr_of_ne noNul, parseHexLoop_hexStr]

def base64Chars (digits : List Nat) : List Char := digits.map fun d => pbase64.getD d 'A'

def base64Digits (x y z : Nat) : List Nat :=
  [x >>> 2, (x &&& 3) <<< 4 ||| y >>> 4, (y &&& 15) <<< 2 ||| z >>> 6, z &&& 63]

def base64Blocks : List UInt8 → List Char
  | x :: y :: z :: rest => base64Chars (base64Digits x.toNat y.toNat z.toNat) ++ base64Blocks rest
  | [x] => base64Chars ((base64Digits x.toNat 0 0).take 2) ++ ['=', '=']
  | [x, y] => base64Chars ((base64Digits x.toNat y.toNat 0).take 3) ++ ['=']
  | [] => []

theorem encodeBase64Loop_blocks : ∀ (input : List UInt8) (left : Nat),
    (encodeBase64Loop 0 left input).1 ++
        encodeBase64Pad (encodeBase64Loop 0 left input).2.1 (encodeBase64Loop 0 left input).2.2 =
      base64Blocks input
  | x :: y :: z :: rest, left => by
    have more := encodeBase64Loop_blocks rest ((y.toNat &&& 15) <<< 2)
    simp only [encodeBase64Loop, encodeBase64Step, List.append_assoc]
    rw [more, base64Blocks]
    rfl
  | [x], left => by
    simp [encodeBase64Loop, encodeBase64Step, encodeBase64Pad, base64Blocks, base64Chars, base64Digits]
  | [x, y], left => by
    simp [encodeBase64Loop, encodeBase64Step, encodeBase64Pad, base64Blocks, base64Chars, base64Digits]
  | [], left => by simp [encodeBase64Loop, encodeBase64Pad, base64Blocks]

theorem encodeBase64_eq (input : List UInt8) : encodeBase64 input = base64Blocks input :=
  encodeBase64Loop_blocks input 0

set_option maxRecDepth 8000 in
theorem pbase64_digit : ∀ d : Fin 64,
    decode64 (pbase64.getD d 'A') = d ∧ pbase64.getD d 'A' ≠ Char.ofNat 0 := by
  decide

theorem decodeBase64Loop_digit {d : Nat} (small : d < 64) (mode left : Nat) (s : List Char) :
    decodeBase64Loop mode left (pbase64.getD d 'A' :: s) =
      ((decodeBase64Step mode left d).1 ++ (decodeBase64Loop (decodeBase64Step mode left d).2.1
          (decodeBase64Step mode left d).2.2 s).1,
        (decodeBase64Loop (decodeBase64Step mode left d).2.1 (decodeBase64Step mode left d).2.2 s).2) := by
  rw [decodeBase64Loop, (pbase64_digit ⟨d, small⟩).1, if_neg (by omega)]
  simp

theorem decodeBase64Loop_pad (mode left : Nat) (s : List Char) :
    decodeBase64Loop mode left ('=' :: s) = ([], mode, left, '=' :: s) := by
  rw [decodeBase64Loop, if_pos (by decide)]

section Base64Bits

variable {x y z : Nat}

theorem base64Digits_lt (hx : x < 2 ^ 8) (hy : y < 2 ^ 8) (hz : z < 2 ^ 8) :
    ∀ d ∈ base64Digits x y z, d < 64 := by
  have first : x >>> 2 < 2 ^ 6 := BitFields.shiftRight_lt hx
  have second : (x &&& 3) <<< 4 ||| y >>> 4 < 2 ^ (2 + 4) :=
    BitFields.join_lt (BitFields.and_lt (by norm_num) x) (BitFields.shiftRight_lt (w := 4) hy)
  have third : (y &&& 15) <<< 2 ||| z >>> 6 < 2 ^ (4 + 2) :=
    BitFields.join_lt (BitFields.and_lt (by norm_num) y) (BitFields.shiftRight_lt (w := 2) hz)
  have fourth : z &&& 63 < 2 ^ 6 := BitFields.and_lt (by norm_num) z
  simp only [base64Digits, List.mem_cons, List.not_mem_nil, or_false]
  rintro d (rfl | rfl | rfl | rfl) <;> simpa using ‹_›

theorem base64_first (hy : y < 2 ^ 8) (x : Nat) :
    x >>> 2 <<< 2 ||| ((x &&& 3) <<< 4 ||| y >>> 4) >>> 4 = x := by
  rw [BitFields.shiftRight_join (BitFields.shiftRight_lt (w := 4) hy),
    BitFields.join_split (by norm_num : 3 + 1 = 2 ^ 2)]

theorem base64_second_left (hy : y < 2 ^ 8) (x : Nat) :
    ((x &&& 3) <<< 4 ||| y >>> 4) &&& 15 = y >>> 4 :=
  BitFields.and_join (by norm_num) (BitFields.shiftRight_lt (w := 4) hy) _

theorem base64_second (hz : z < 2 ^ 8) (y : Nat) :
    y >>> 4 <<< 4 ||| ((y &&& 15) <<< 2 ||| z >>> 6) >>> 2 = y := by
  rw [BitFields.shiftRight_join (BitFields.shiftRight_lt (w := 2) hz),
    BitFields.join_split (by norm_num : 15 + 1 = 2 ^ 4)]

theorem base64_third_left (hz : z < 2 ^ 8) (y : Nat) :
    ((y &&& 15) <<< 2 ||| z >>> 6) &&& 3 = z >>> 6 :=
  BitFields.and_join (by norm_num) (BitFields.shiftRight_lt (w := 2) hz) _

theorem base64_third (z : Nat) : z >>> 6 <<< 6 ||| z &&& 63 = z :=
  BitFields.join_split (by norm_num) z

end Base64Bits

theorem decodeBase64Loop_block (x y z : UInt8) (left : Nat) (s : List Char) :
    decodeBase64Loop 0 left (base64Chars (base64Digits x.toNat y.toNat z.toNat) ++ s) =
      ([x, y, z] ++ (decodeBase64Loop 0 (z.toNat >>> 6) s).1,
        (decodeBase64Loop 0 (z.toNat >>> 6) s).2) := by
  have small := base64Digits_lt x.toNat_lt y.toNat_lt z.toNat_lt
  simp only [base64Digits, List.mem_cons, List.not_mem_nil, or_false, forall_eq_or_imp,
    forall_eq] at small
  obtain ⟨h0, h1, h2, h3⟩ := small
  simp only [base64Digits, base64Chars, List.map_cons, List.map_nil, List.cons_append, List.nil_append]
  rw [decodeBase64Loop_digit h0, decodeBase64Loop_digit h1, decodeBase64Loop_digit h2,
    decodeBase64Loop_digit h3]
  simp only [decodeBase64Step, base64_first y.toNat_lt, base64_second_left y.toNat_lt,
    base64_second z.toNat_lt, base64_third_left z.toNat_lt, base64_third, UInt8.ofNat_toNat]
  rfl

theorem decodeBase64Loop_one (x : UInt8) (left : Nat) :
    decodeBase64Loop 0 left (base64Chars ((base64Digits x.toNat 0 0).take 2) ++ ['=', '=']) =
      ([x], 2, 0, ['=', '=']) := by
  have small := base64Digits_lt x.toNat_lt (by norm_num : 0 < 2 ^ 8) (by norm_num : 0 < 2 ^ 8)
  simp only [base64Digits, List.mem_cons, List.not_mem_nil, or_false, forall_eq_or_imp,
    forall_eq] at small
  obtain ⟨h0, h1, -, -⟩ := small
  simp only [base64Digits, List.take_succ_cons, List.take_zero, base64Chars, List.map_cons,
    List.map_nil, List.cons_append, List.nil_append]
  rw [decodeBase64Loop_digit h0, decodeBase64Loop_digit h1]
  -- with no byte after it, the last digit is the low bits of the byte over zeros
  simp only [decodeBase64Step, Nat.zero_shiftRight, Nat.or_zero, Nat.shiftLeft_shiftRight,
    BitFields.join_split (by norm_num : 3 + 1 = 2 ^ 2), BitFields.and_shiftLeft (by norm_num : 15 + 1 = 2 ^ 4),
    UInt8.ofNat_toNat, decodeBase64Loop_pad]
  rfl

theorem decodeBase64Loop_two (x y : UInt8) (left : Nat) :
    decodeBase64Loop 0 left (base64Chars ((base64Digits x.toNat y.toNat 0).take 3) ++ ['=']) =
      ([x, y], 3, 0, ['=']) := by
  have small := base64Digits_lt x.toNat_lt y.toNat_lt (by norm_num : 0 < 2 ^ 8)
  simp only [base64Digits, List.mem_cons, List.not_mem_nil, or_false, forall_eq_or_imp,
    forall_eq] at small
  obtain ⟨h0, h1, h2, -⟩ := small
  simp only [base64Digits, List.take_succ_cons, List.take_zero, base64Chars, List.map_cons,
    List.map_nil, List.cons_append, List.nil_append]
  rw [decodeBase64Loop_digit h0, decodeBase64Loop_digit h1, decodeBase64Loop_digit h2]
  simp only [decodeBase64Step, base64_first y.toNat_lt, base64_second_left y.toNat_lt,
    Nat.zero_shiftRight, Nat.or_zero, Nat.shiftLeft_shiftRight,
    BitFields.join_split (by norm_num : 15 + 1 = 2 ^ 4), BitFields.and_shiftLeft (by norm_num : 3 + 1 = 2 ^ 2),
    UInt8.ofNat_toNat, decodeBase64Loop_pad]
  rfl

theorem decodeBase64Loop_blocks : ∀ (input : List UInt8) (left : Nat),
    decodeBase64Result (decodeBase64Loop 0 left (base64Blocks input)) = (input, false)
  | x :: y :: z :: rest, left => by
    have more := decodeBase64Loop_blocks rest (z.toNat >>> 6)
    rw [base64Blocks, decodeBase64Loop_block]
    simp only [decodeBase64Result, Prod.mk.injEq] at more ⊢
    rw [more.1, more.2]
    exact ⟨rfl, rfl⟩
  | [x], left => by
    rw [base64Blocks, decodeBase64Loop_one]
    rfl
  | [x, y], left => by
    rw [base64Blocks, decodeBase64Loop_two]
    rfl
  | [], left => rfl

theorem base64Chars_ne_nul (digits : List Nat) : ∀ c ∈ base64Chars digits, c ≠ Char.ofNat 0 := by
  have length : pbase64.length = 64 := rfl
  intro c mem
  obtain ⟨d, -, rfl⟩ := List.mem_map.mp mem
  by_cases small : d < 64
  next => exact (pbase64_digit ⟨d, small⟩).2
  next =>
    rw [List.getD_eq_default _ _ (by omega)]
    decide

theorem base64Blocks_ne_nul : ∀ (input : List UInt8), ∀ c ∈ base64Blocks input, c ≠ Char.ofNat 0
  | x :: y :: z :: rest => by
    rw [base64Blocks]
    intro c mem
    rcases List.mem_append.mp mem with block | later
    next => exact base64Chars_ne_nul _ c block
    next => exact base64Blocks_ne_nul rest c later
  | [_] | [_, _] => by
    intro c mem
    simp only [base64Blocks, List.mem_append, List.mem_cons, List.not_mem_nil, or_false, or_self] at mem
    rcases mem with block | rfl
    next => exact base64Chars_ne_nul _ c block
    next => decide
  | [] => by simp [base64Blocks]

theorem decodeBase64_encodeBase64 (input : List UInt8) :
    decodeBase64 (cStr (encodeBase64 input)) = (input, false) := by
  rw [encodeBase64_eq, cStr_of_ne (base64Blocks_ne_nul input), decodeBase64, decodeBase64Loop_blocks]

def base32Chars (digits : List Nat) : List Char := digits.map fun d => pbase32.getD d 'a'

def base32Digits (x0 x1 x2 x3 x4 : Nat) : List Nat :=
  [x0 >>> 3, (x0 &&& 7) <<< 2 ||| x1 >>> 6, (x1 >>> 1) &&& 31, (x1 &&& 1) <<< 4 ||| x2 >>> 4,
    (x2 &&& 15) <<< 1 ||| x3 >>> 7, (x3 >>> 2) &&& 31, (x3 &&& 3) <<< 3 ||| x4 >>> 5, x4 &&& 31]

def base32Blocks : List UInt8 → List Char
  | x0 :: x1 :: x2 :: x3 :: x4 :: rest =>
    base32Chars (base32Digits x0.toNat x1.toNat x2.toNat x3.toNat x4.toNat) ++ base32Blocks rest
  | [x0] => base32Chars ((base32Digits x0.toNat 0 0 0 0).take 2) ++ List.replicate 6 '='
  | [x0, x1] => base32Chars ((base32Digits x0.toNat x1.toNat 0 0 0).take 4) ++ List.replicate 4 '='
  | [x0, x1, x2] =>
    base32Chars ((base32Digits x0.toNat x1.toNat x2.toNat 0 0).take 5) ++ List.replicate 3 '='
  | [x0, x1, x2, x3] =>
    base32Chars ((base32Digits x0.toNat x1.toNat x2.toNat x3.toNat 0).take 7) ++ List.replicate 1 '='
  | [] => []

theorem encodeBase32Loop_blocks : ∀ (input : List UInt8) (left : Nat),
    (encodeBase32Loop 0 left input).1 ++
        encodeBase32Pad (encodeBase32Loop 0 left input).2.1 (encodeBase32Loop 0 left input).2.2 =
      base32Blocks input
  | x0 :: x1 :: x2 :: x3 :: x4 :: rest, left => by
    have more := encodeBase32Loop_blocks rest ((x3.toNat &&& 3) <<< 3)
    simp only [encodeBase32Loop, encodeBase32Step, List.append_assoc]
    rw [more, base32Blocks]
    rfl
  | [x0], left => by
    simp [encodeBase32Loop, encodeBase32Step, encodeBase32Pad, base32Blocks, base32Chars,
      base32Digits, nPadding]
  | [x0, x1], left => by
    simp [encodeBase32Loop, encodeBase32Step, encodeBase32Pad, base32Blocks, base32Chars,
      base32Digits, nPadding]
  | [x0, x1, x2], left => by
    simp [encodeBase32Loop, encodeBase32Step, encodeBase32Pad, base32Blocks, base32Chars,
      base32Digits, nPadding]
  | [x0, x1, x2, x3], left => by
    simp [encodeBase32Loop, encodeBase32Step, encodeBase32Pad, base32Blocks, base32Chars,
      base32Digits, nPadding]
  | [], left => by simp [encodeBase32Loop, encodeBase32Pad, base32Blocks]

theorem encodeBase32_eq (input : List UInt8) : encodeBase32 input = base32Blocks input :=
  encodeBase32Loop_blocks input 0

set_option maxRecDepth 8000 in
theorem pbase32_digit : ∀ d : Fin 32,
    decode32 (pbase32.getD d 'a') = d ∧ pbase32.getD d 'a' ≠ Char.ofNat 0 := by
  decide

theorem decodeBase32Loop_digit {d : Nat} (small : d < 32) (mode left : Nat) (s : List Char) :
    decodeBase32Loop mode left (pbase32.getD d 'a' :: s) =
      ((decodeBase32Step mode left d).1 ++ (decodeBase32Loop (decodeBase32Step mode left d).2.1
          (decodeBase32Step mode left d).2.2 s).1,
        (decodeBase32Loop (decodeBase32Step mode left d).2.1 (decodeBase32Step mode left d).2.2 s).2) := by
  rw [decodeBase32Loop, (pbase32_digit ⟨d, small⟩).1, if_neg (by omega)]
  simp

theorem decodeBase32Loop_pad (mode left : Nat) (s : List Char) :
    decodeBase32Loop mode left ('=' :: s) = ([], mode, left, '=' :: s) := by
  rw [decodeBase32Loop, if_pos (by decide)]

section Base32Bits

variable {x0 x1 x2 x3 x4 : Nat}

theorem base32Digits_lt (h0 : x0 < 2 ^ 8) (h1 : x1 < 2 ^ 8) (h2 : x2 < 2 ^ 8) (h3 : x3 < 2 ^ 8)
    (h4 : x4 < 2 ^ 8) : ∀ d ∈ base32Digits x0 x1 x2 x3 x4, d < 32 := by
  have d0 : x0 >>> 3 < 2 ^ 5 := BitFields.shiftRight_lt h0
  have d1 : (x0 &&& 7) <<< 2 ||| x1 >>> 6 < 2 ^ (3 + 2) :=
    BitFields.join_lt (BitFields.and_lt (by norm_num) x0) (BitFields.shiftRight_lt (w := 2) h1)
  have d2 : (x1 >>> 1) &&& 31 < 2 ^ 5 := BitFields.and_lt (by norm_num) _
  have d3 : (x1 &&& 1) <<< 4 ||| x2 >>> 4 < 2 ^ (1 + 4) :=
    BitFields.join_lt (BitFields.and_lt (by norm_num) x1) (BitFields.shiftRight_lt (w := 4) h2)
  have d4 : (x2 &&& 15) <<< 1 ||| x3 >>> 7 < 2 ^ (4 + 1) :=
    BitFields.join_lt (BitFields.and_lt (by norm_num) x2) (BitFields.shiftRight_lt (w := 1) h3)
  have d5 : (x3 >>> 2) &&& 31 < 2 ^ 5 := BitFields.and_lt (by norm_num) _
  have d6 : (x3 &&& 3) <<< 3 ||| x4 >>> 5 < 2 ^ (2 + 3) :=
    BitFields.join_lt (BitFields.and_lt (by norm_num) x3) (BitFields.shiftRight_lt (w := 3) h4)
  have d7 : x4 &&& 31 < 2 ^ 5 := BitFields.and_lt (by norm_num) x4
  simp only [base32Digits, List.mem_cons, List.not_mem_nil, or_false]
  rintro d (rfl | rfl | rfl | rfl | rfl | rfl | rfl | rfl)
  exacts [d0, d1, d2, d3, d4, d5, d6, d7]

theorem base32_byte0 (h1 : x1 < 2 ^ 8) (x0 : Nat) :
    x0 >>> 3 <<< 3 ||| ((x0 &&& 7) <<< 2 ||| x1 >>> 6) >>> 2 = x0 := by
  rw [BitFields.shiftRight_join (BitFields.shiftRight_lt (w := 2) h1),
    BitFields.join_split (by norm_num : 7 + 1 = 2 ^ 3)]

theorem base32_left1 (h1 : x1 < 2 ^ 8) (x0 : Nat) :
    ((x0 &&& 7) <<< 2 ||| x1 >>> 6) &&& 3 = x1 >>> 6 :=
  BitFields.and_join (by norm_num) (BitFields.shiftRight_lt (w := 2) h1) _

theorem base32_left2 (x1 : Nat) : x1 >>> 6 <<< 5 ||| (x1 >>> 1) &&& 31 = x1 >>> 1 := by
  rw [show x1 >>> 6 = x1 >>> 1 >>> 5 by rw [← Nat.shiftRight_add]]
  exact BitFields.join_split (by norm_num) _

theorem base32_byte1 (h2 : x2 < 2 ^ 8) (x1 : Nat) :
    x1 >>> 1 <<< 1 ||| ((x1 &&& 1) <<< 4 ||| x2 >>> 4) >>> 4 = x1 := by
  rw [BitFields.shiftRight_join (BitFields.shiftRight_lt (w := 4) h2),
    BitFields.join_split (by norm_num : 1 + 1 = 2 ^ 1)]

theorem base32_left3 (h2 : x2 < 2 ^ 8) (x1 : Nat) :
    ((x1 &&& 1) <<< 4 ||| x2 >>> 4) &&& 15 = x2 >>> 4 :=
  BitFields.and_join (by norm_num) (BitFields.shiftRight_lt (w := 4) h2) _

theorem base32_byte2 (h3 : x3 < 2 ^ 8) (x2 : Nat) :
    x2 >>> 4 <<< 4 ||| ((x2 &&& 15) <<< 1 ||| x3 >>> 7) >>> 1 = x2 := by
  rw [BitFields.shiftRight_join (BitFields.shiftRight_lt (w := 1) h3),
    BitFields.join_split (by norm_num : 15 + 1 = 2 ^ 4)]

theorem base32_left4 (h3 : x3 < 2 ^ 8) (x2 : Nat) :
    ((x2 &&& 15) <<< 1 ||| x3 >>> 7) &&& 1 = x3 >>> 7 :=
  BitFields.and_join (by norm_num) (BitFields.shiftRight_lt (w := 1) h3) _

theorem base32_left5 (x3 : Nat) : x3 >>> 7 <<< 5 ||| (x3 >>> 2) &&& 31 = x3 >>> 2 := by
  rw [show x3 >>> 7 = x3 >>> 2 >>> 5 by rw [← Nat.shiftRight_add]]
  exact BitFields.join_split (by norm_num) _

theorem base32_byte3 (h4 : x4 < 2 ^ 8) (x3 : Nat) :
    x3 >>> 2 <<< 2 ||| ((x3 &&& 3) <<< 3 ||| x4 >>> 5) >>> 3 = x3 := by
  rw [BitFields.shiftRight_join (BitFields.shiftRight_lt (w := 3) h4),
    BitFields.join_split (by norm_num : 3 + 1 = 2 ^ 2)]

theorem base32_left6 (h4 : x4 < 2 ^ 8) (x3 : Nat) :
    ((x3 &&& 3) <<< 3 ||| x4 >>> 5) &&& 7 = x4 >>> 5 :=
  BitFields.and_join (by norm_num) (BitFields.shiftRight_lt (w := 3) h4) _

theorem base32_byte4 (x4 : Nat) : x4 >>> 5 <<< 5 ||| x4 &&& 31 = x4 :=
  BitFields.join_split (by norm_num) x4

end Base32Bits

theorem decodeBase32Loop_block (x0 x1 x2 x3 x4 : UInt8) (left : Nat) (s : List Char) :
    decodeBase32Loop 0 left
        (base32Chars (base32Digits x0.toNat x1.toNat x2.toNat x3.toNat x4.toNat) ++ s) =
      ([x0, x1, x2, x3, x4] ++ (decodeBase32Loop 0 (x4.toNat >>> 5) s).1,
        (decodeBase32Loop 0 (x4.toNat >>> 5) s).2) := by
  have small := base32Digits_lt x0.toNat_lt x1.toNat_lt x2.toNat_lt x3.toNat_lt x4.toNat_lt
  simp only [base32Digits, List.mem_cons, List.not_mem_nil, or_false, forall_eq_or_imp,
    forall_eq] at small
  obtain ⟨d0, d1, d2, d3, d4, d5, d6, d7⟩ := small
  simp only [base32Digits, base32Chars, List.map_cons, List.map_nil, List.cons_append, List.nil_append]
  rw [decodeBase32Loop_digit d0, decodeBase32Loop_digit d1, decodeBase32Loop_digit d2,
    decodeBase32Loop_digit d3, decodeBase32Loop_digit d4, decodeBase32Loop_digit d5,
    decodeBase32Loop_digit d6, decodeBase32Loop_digit d7]
  simp only [decodeBase32Step, base32_byte0 x1.toNat_lt, base32_left1 x1.toNat_lt, base32_left2,
    base32_byte1 x2.toNat_lt, base32_left3 x2.toNat_lt, base32_byte2 x3.toNat_lt,
    base32_left4 x3.toNat_lt, base32_left5, base32_byte3 x4.toNat_lt, base32_left6 x4.toNat_lt,
    base32_byte4, UInt8.ofNat_toNat]
  rfl

theorem decodeBase32Loop_one (x0 : UInt8) (left : Nat) :
    decodeBase32Loop 0 left
        (base32Chars ((base32Digits x0.toNat 0 0 0 0).take 2) ++ List.replicate 6 '=') =
      ([x0], 2, 0, List.replicate 6 '=') := by
  have small := base32Digits_lt x0.toNat_lt (by norm_num : 0 < 2 ^ 8) (by norm_num : 0 < 2 ^ 8)
    (by norm_num : 0 < 2 ^ 8) (by norm_num : 0 < 2 ^ 8)
  simp only [base32Digits, List.mem_cons, List.not_mem_nil, or_false, forall_eq_or_imp,
    forall_eq] at small
  obtain ⟨d0, d1, -⟩ := small
  simp only [base32Digits, List.take_succ_cons, List.take_zero, base32Chars, List.map_cons,
    List.map_nil, List.cons_append, List.nil_append, List.replicate_succ]
  rw [decodeBase32Loop_digit d0, decodeBase32Loop_digit d1]
  simp only [decodeBase32Step, Nat.zero_shiftRight, Nat.or_zero, Nat.shiftLeft_shiftRight,
    BitFields.join_split (by norm_num : 7 + 1 = 2 ^ 3), BitFields.and_shiftLeft (by norm_num : 3 + 1 = 2 ^ 2),
    UInt8.ofNat_toNat, decodeBase32Loop_pad]
  rfl

theorem decodeBase32Loop_two (x0 x1 : UInt8) (left : Nat) :
    decodeBase32Loop 0 left
        (base32Chars ((base32Digits x0.toNat x1.toNat 0 0 0).take 4) ++ List.replicate 4 '=') =
      ([x0, x1], 4, 0, List.replicate 4 '=') := by
  have small := base32Digits_lt x0.toNat_lt x1.toNat_lt (by norm_num : 0 < 2 ^ 8)
    (by norm_num : 0 < 2 ^ 8) (by norm_num : 0 < 2 ^ 8)
  simp only [base32Digits, List.mem_cons, List.not_mem_nil, or_false, forall_eq_or_imp,
    forall_eq] at small
  obtain ⟨d0, d1, d2, d3, -⟩ := small
  simp only [base32Digits, List.take_succ_cons, List.take_zero, base32Chars, List.map_cons,
    List.map_nil, List.cons_append, List.nil_append, List.replicate_succ]
  rw [decodeBase32Loop_digit d0, decodeBase32Loop_digit d1, decodeBase32Loop_digit d2,
    decodeBase32Loop_digit d3]
  simp only [decodeBase32Step, base32_byte0 x1.toNat_lt, base32_left1 x1.toNat_lt, base32_left2,
    Nat.zero_shiftRight, Nat.or_zero, Nat.shiftLeft_shiftRight,
    BitFields.join_split (by norm_num : 1 + 1 = 2 ^ 1), BitFields.and_shiftLeft (by norm_num : 15 + 1 = 2 ^ 4),
    UInt8.ofNat_toNat, decodeBase32Loop_pad]
  rfl

theorem decodeBase32Loop_three (x0 x1 x2 : UInt8) (left : Nat) :
    decodeBase32Loop 0 left
        (base32Chars ((base32Digits x0.toNat x1.toNat x2.toNat 0 0).take 5) ++ List.replicate 3 '=') =
      ([x0, x1, x2], 5, 0, List.replicate 3 '=') := by
  have small := base32Digits_lt x0.toNat_lt x1.toNat_lt x2.toNat_lt (by norm_num : 0 < 2 ^ 8)
    (by norm_num : 0 < 2 ^ 8)
  simp only [base32Digits, List.mem_cons, List.not_mem_nil, or_false, forall_eq_or_imp,
    forall_eq] at small
  obtain ⟨d0, d1, d2, d3, d4, -⟩ := small
  simp only [base32Digits, List.take_succ_cons, List.take_zero, base32Chars, List.map_cons,
    List.map_nil, List.cons_append, List.nil_append, List.replicate_succ]
  rw [decodeBase32Loop_digit d0, decodeBase32Loop_digit d1, decodeBase32Loop_digit d2,
    decodeBase32Loop_digit d3, decodeBase32Loop_digit d4]
  simp only [decodeBase32Step, base32_byte0 x1.toNat_lt, base32_left1 x1.toNat_lt, base32_left2,
    base32_byte1 x2.toNat_lt, base32_left3 x2.toNat_lt,
    Nat.zero_shiftRight, Nat.or_zero, Nat.shiftLeft_shiftRight,
    BitFields.join_split (by norm_num : 15 + 1 = 2 ^ 4), BitFields.and_shiftLeft (by norm_num : 1 + 1 = 2 ^ 1),
    UInt8.ofNat_toNat, decodeBase32Loop_pad]
  rfl

theorem decodeBase32Loop_four (x0 x1 x2 x3 : UInt8) (left : Nat) :
    decodeBase32Loop 0 left
        (base32Chars ((base32Digits x0.toNat x1.toNat x2.toNat x3.toNat 0).take 7) ++
          List.replicate 1 '=') =
      ([x0, x1, x2, x3], 7, 0, List.replicate 1 '=') := by
  have small := base32Digits_lt x0.toNat_lt x1.toNat_lt x2.toNat_lt x3.toNat_lt
    (by norm_num : 0 < 2 ^ 8)
  simp only [base32Digits, List.mem_cons, List.not_mem_nil, or_false, forall_eq_or_imp,
    forall_eq] at small
  obtain ⟨d0, d1, d2, d3, d4, d5, d6, -⟩ := small
  simp only [base32Digits, List.take_succ_cons, List.take_zero, base32Chars, List.map_cons,
    List.map_nil, List.cons_append, List.nil_append, List.replicate_succ]
  rw [decodeBase32Loop_digit d0, decodeBase32Loop_digit d1, decodeBase32Loop_digit d2,
    decodeBase32Loop_digit d3, decodeBase32Loop_digit d4, decodeBase32Loop_digit d5,
    decodeBase32Loop_digit d6]
  simp only [decodeBase32Step, base32_byte0 x1.toNat_lt, base32_left1 x1.toNat_lt, base32_left2,
    base32_byte1 x2.toNat_lt, base32_left3 x2.toNat_lt, base32_byte2 x3.toNat_lt,
    base32_left4 x3.toNat_lt, base32_left5,
    Nat.zero_shiftRight, Nat.or_zero, Nat.shiftLeft_shiftRight,
    BitFields.join_split (by norm_num : 3 + 1 = 2 ^ 2), BitFields.and_shiftLeft (by norm_num : 7 + 1 = 2 ^ 3),
    UInt8.ofNat_toNat, decodeBase32Loop_pad]
  rfl

theorem decodeBase32Loop_blocks : ∀ (input : List UInt8) (left : Nat),
    decodeBase32Result (decodeBase32Loop 0 left (base32Blocks input)) = (input, false)
  | x0 :: x1 :: x2 :: x3 :: x4 :: rest, left => by
    have more := decodeBase32Loop_blocks rest (x4.toNat >>> 5)
    rw [base32Blocks, decodeBase32Loop_block]
    simp only [decodeBase32Result, Prod.mk.injEq] at more ⊢
    rw [more.1, more.2]
    exact ⟨rfl, rfl⟩
  | [x0], left => by
    rw [base32Blocks, decodeBase32Loop_one]
    rfl
  | [x0, x1], left => by
    rw [base32Blocks, decodeBase32Loop_two]
    rfl
  | [x0, x1, x2], left => by
    rw [base32Blocks, decodeBase32Loop_three]
    rfl
  | [x0, x1, x2, x3], left => by
    rw [base32Blocks, decodeBase32Loop_four]
    rfl
  | [], left => rfl

theorem base32Chars_ne_nul (digits : List Nat) : ∀ c ∈ base32Chars digits, c ≠ Char.ofNat 0 := by
  have length : pbase32.length = 32 := rfl
  intro c mem
  obtain ⟨d, -, rfl⟩ := List.mem_map.mp mem
  by_cases small : d < 32
  next => exact (pbase32_digit ⟨d, small⟩).2
  next =>
    rw [List.getD_eq_default _ _ (by omega)]
    decide

theorem base32Blocks_ne_nul : ∀ (input : List UInt8), ∀ c ∈ base32Blocks input, c ≠ Char.ofNat 0
  | x0 :: x1 :: x2 :: x3 :: x4 :: rest => by
    rw [base32Blocks]
    intro c mem
    rcases List.mem_append.mp mem with block | later
    next => exact base32Chars_ne_nul _ c block
    next => exact base32Blocks_ne_nul rest c later
  | [_] | [_, _] | [_, _, _] | [_, _, _, _] => by
    intro c mem
    have padded : ∀ k, c ∈ List.replicate k '=' → c ≠ Char.ofNat 0 := by
      intro k pad
      rw [(List.mem_replicate.mp pad).2]
      decide
    simp only [base32Blocks] at mem
    rcases List.mem_append.mp mem with block | pad
    next => exact base32Chars_ne_nul _ c block
    next => exact padded _ pad
  | [] => by simp [base32Blocks]

theorem decodeBase32_encodeBase32 (input : List UInt8) :
    decodeBase32 (cStr (encodeBase32 input)) = (input, false) := by
  rw [encodeBase32_eq, cStr_of_ne (base32Blocks_ne_nul input), decodeBase32, decodeBase32Loop_blocks]

theorem codecs_round_trip (b : List UInt8) :
    decodeBase64 (cStr (encodeBase64 b)) = (b, false) ∧
      decodeBase32 (cStr (encodeBase32 b)) = (b, false) ∧ parseHex (hexStr b false) = b :=
  ⟨decodeBase64_encodeBase64 b, decodeBase32_encodeBase32 b, parseHex_hexStr b⟩

end Gaiacoin
