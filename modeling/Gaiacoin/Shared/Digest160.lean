import Gaiacoin.Shared.Sha256

set_option autoImplicit false

/-!
# SHA-1 and RIPEMD-160

The two 160-bit digests, padded and cut into 64-byte chunks up front as
`Sha256.sha256` is. The reference code unrolls the rounds and renames the five
words from one round to the next; the rounds here shift the words instead, and
RIPEMD-160 reads the message word and the rotation of each of its rounds from
tables.
-/

/-- `rol`: rotation of a 32-bit word to the left, for `0 < i < 32`. -/
def rotateLeft32 (x : UInt32) (i : Nat) : UInt32 := x <<< i.toUInt32 ||| x >>> (32 - i).toUInt32

namespace Sha1

structure State where
  a : UInt32
  b : UInt32
  c : UInt32
  d : UInt32
  e : UInt32
deriving DecidableEq, Repr

def initialState : State := ⟨0x67452301, 0xEFCDAB89, 0x98BADCFE, 0x10325476, 0xC3D2E1F0⟩

def f1 (b c d : UInt32) : UInt32 := d ^^^ (b &&& (c ^^^ d))
def f2 (b c d : UInt32) : UInt32 := b ^^^ c ^^^ d
def f3 (b c d : UInt32) : UInt32 := (b &&& c) ||| (d &&& (b ||| c))

def roundFunction (i : Nat) : (UInt32 → UInt32 → UInt32 → UInt32) × UInt32 :=
  if i < 20 then (f1, 0x5A827999)
  else if i < 40 then (f2, 0x6ED9EBA1)
  else if i < 60 then (f3, 0x8F1BBCDC)
  else (f2, 0xCA62C1D6)

/-- `Round`: `e += rol(a, 5) + f + k + w; b = rol(b, 30)`, then the words shift. -/
def round (s : State) (i : Nat) (w : UInt32) : State :=
  let (f, k) := roundFunction i
  ⟨rotateLeft32 s.a 5 + f s.b s.c s.d + s.e + k + w, s.a, rotateLeft32 s.b 30, s.c, s.d⟩

/-- The sixteen big-endian words of a chunk, then
`w[t] = left(w[t-3] ^ w[t-8] ^ w[t-14] ^ w[t-16])` up to the eightieth. -/
def schedule (chunk : List UInt8) : List UInt32 :=
  let words := (List.range 16).map fun i => Sha256.readBE32 ((chunk.drop (4 * i)).take 4)
  (List.range 64).foldl (fun w i =>
    w ++ [rotateLeft32 (w.getD (i + 13) 0 ^^^ w.getD (i + 8) 0 ^^^ w.getD (i + 2) 0 ^^^ w.getD i 0) 1])
    words

def transform (s : State) (chunk : List UInt8) : State :=
  let t := ((List.range 80).zip (schedule chunk)).foldl (fun t iw => round t iw.1 iw.2) s
  ⟨s.a + t.a, s.b + t.b, s.c + t.c, s.d + t.d, s.e + t.e⟩

def transformChunks (s : State) (data : List UInt8) : Nat → State
  | 0 => s
  | count + 1 => transformChunks (transform s (data.take 64)) (data.drop 64) count

def digest (s : State) : List UInt8 :=
  Sha256.writeBE32 s.a ++ Sha256.writeBE32 s.b ++ Sha256.writeBE32 s.c ++
    Sha256.writeBE32 s.d ++ Sha256.writeBE32 s.e

/-- SHA-1 pads as SHA-256 does: `0x80`, zeros, and the big-endian bit length. -/
def sha1 (data : List UInt8) : List UInt8 :=
  digest (transformChunks initialState (Sha256.pad data) ((Sha256.pad data).length / 64))

-- the digest of `abc` in FIPS 180
set_option maxRecDepth 100000 in
example : sha1 [0x61, 0x62, 0x63] =
    [0xa9, 0x99, 0x3e, 0x36, 0x47, 0x06, 0x81, 0x6a, 0xba, 0x3e, 0x25, 0x71, 0x78, 0x50,
     0xc2, 0x6c, 0x9c, 0xd0, 0xd8, 0x9d] := by rfl

end Sha1

namespace Ripemd160

structure State where
  a : UInt32
  b : UInt32
  c : UInt32
  d : UInt32
  e : UInt32
deriving DecidableEq, Repr

def initialState : State := ⟨0x67452301, 0xEFCDAB89, 0x98BADCFE, 0x10325476, 0xC3D2E1F0⟩

def f1 (x y z : UInt32) : UInt32 := x ^^^ y ^^^ z
def f2 (x y z : UInt32) : UInt32 := (x &&& y) ||| (~~~x &&& z)
def f3 (x y z : UInt32) : UInt32 := (x ||| ~~~y) ^^^ z
def f4 (x y z : UInt32) : UInt32 := (x &&& z) ||| (y &&& ~~~z)
def f5 (x y z : UInt32) : UInt32 := x ^^^ (y ||| ~~~z)

/-- The message word of each round of the first line (`R11` to `R51`). -/
def wordsLeft : List Nat :=
  [0, 1, 2, 3, 4, 5, 6, 7, 8, 9, 10, 11, 12, 13, 14, 15, 7, 4, 13, 1, 10, 6, 15, 3, 12, 0, 9, 5,
   2, 14, 11, 8, 3, 10, 14, 4, 9, 15, 8, 1, 2, 7, 0, 6, 13, 11, 5, 12, 1, 9, 11, 10, 0, 8, 12, 4,
   13, 3, 7, 15, 14, 5, 6, 2, 4, 0, 5, 9, 7, 12, 2, 10, 14, 1, 3, 8, 11, 6, 15, 13]

def shiftsLeft : List Nat :=
  [11, 14, 15, 12, 5, 8, 7, 9, 11, 13, 14, 15, 6, 7, 9, 8, 7, 6, 8, 13, 11, 9, 7, 15, 7, 12, 15,
   9, 11, 7, 13, 12, 11, 13, 6, 7, 14, 9, 13, 15, 14, 8, 13, 6, 5, 12, 7, 5, 11, 12, 14, 15, 14,
   15, 9, 8, 9, 14, 5, 6, 8, 6, 5, 12, 9, 15, 5, 11, 6, 8, 13, 12, 5, 12, 13, 14, 11, 8, 5, 6]

/-- The message word of each round of the second line (`R12` to `R52`). -/
def wordsRight : List Nat :=
  [5, 14, 7, 0, 9, 2, 11, 4, 13, 6, 15, 8, 1, 10, 3, 12, 6, 11, 3, 7, 0, 13, 5, 10, 14, 15, 8, 12,
   4, 9, 1, 2, 15, 5, 1, 3, 7, 14, 6, 9, 11, 8, 12, 2, 10, 0, 4, 13, 8, 6, 4, 1, 3, 11, 15, 0, 5,
   12, 2, 13, 9, 7, 10, 14, 12, 15, 10, 4, 1, 5, 8, 7, 6, 2, 13, 14, 0, 3, 9, 11]

def shiftsRight : List Nat :=
  [8, 9, 9, 11, 13, 15, 15, 5, 7, 7, 8, 11, 14, 14, 12, 6, 9, 13, 15, 7, 12, 8, 9, 11, 7, 7, 12, 7,
   6, 15, 13, 11, 9, 7, 15, 11, 8, 6, 6, 14, 12, 13, 5, 14, 13, 13, 7, 5, 15, 5, 8, 11, 14, 14, 6,
   14, 6, 9, 12, 9, 12, 5, 15, 8, 8, 5, 12, 9, 12, 5, 14, 6, 8, 13, 6, 5, 15, 13, 11, 11]

def functionLeft (i : Nat) : (UInt32 → UInt32 → UInt32 → UInt32) × UInt32 :=
  if i < 16 then (f1, 0)
  else if i < 32 then (f2, 0x5A827999)
  else if i < 48 then (f3, 0x6ED9EBA1)
  else if i < 64 then (f4, 0x8F1BBCDC)
  else (f5, 0xA953FD4E)

def functionRight (i : Nat) : (UInt32 → UInt32 → UInt32 → UInt32) × UInt32 :=
  if i < 16 then (f5, 0x50A28BE6)
  else if i < 32 then (f4, 0x5C4DD124)
  else if i < 48 then (f3, 0x6D703EF3)
  else if i < 64 then (f2, 0x7A6D76E9)
  else (f1, 0)

/-- `Round`: `a = rol(a + f + x + k, r) + e; c = rol(c, 10)`, then the words shift. -/
def round (fk : (UInt32 → UInt32 → UInt32 → UInt32) × UInt32) (s : State) (x : UInt32)
    (r : Nat) : State :=
  ⟨s.e, rotateLeft32 (s.a + fk.1 s.b s.c s.d + x + fk.2) r + s.e, s.b, rotateLeft32 s.c 10, s.d⟩

def line (function : Nat → (UInt32 → UInt32 → UInt32 → UInt32) × UInt32)
    (words shifts : List Nat) (w : List UInt32) (s : State) : State :=
  ((List.range 80).zip (words.zip shifts)).foldl
    (fun t entry => round (function entry.1) t (w.getD entry.2.1 0) entry.2.2) s

def readLE32 (bytes : List UInt8) : UInt32 := UInt32.ofNat (Wire.readLE bytes)

def transform (s : State) (chunk : List UInt8) : State :=
  let w := (List.range 16).map fun i => readLE32 ((chunk.drop (4 * i)).take 4)
  let l := line functionLeft wordsLeft shiftsLeft w s
  let r := line functionRight wordsRight shiftsRight w s
  ⟨s.b + l.c + r.d, s.c + l.d + r.e, s.d + l.e + r.a, s.e + l.a + r.b, s.a + l.b + r.c⟩

def transformChunks (s : State) (data : List UInt8) : Nat → State
  | 0 => s
  | count + 1 => transformChunks (transform s (data.take 64)) (data.drop 64) count

/-- `Finalize`: `0x80`, zeros up to 56 modulo 64, and the little-endian bit length. -/
def pad (data : List UInt8) : List UInt8 :=
  data ++ (0x80 :: List.replicate ((119 - data.length % 64) % 64) 0) ++
    Wire.leBytes 8 (data.length * 8)

def digest (s : State) : List UInt8 :=
  Wire.leBytes 4 s.a.toNat ++ Wire.leBytes 4 s.b.toNat ++ Wire.leBytes 4 s.c.toNat ++
    Wire.leBytes 4 s.d.toNat ++ Wire.leBytes 4 s.e.toNat

def ripemd160 (data : List UInt8) : List UInt8 :=
  digest (transformChunks initialState (pad data) ((pad data).length / 64))

-- the digest of the empty message, which checks the order and rotation tables
set_option maxRecDepth 100000 in
example : ripemd160 [] =
    [0x9c, 0x11, 0x85, 0xa5, 0xc5, 0xe9, 0xfc, 0x54, 0x61, 0x28, 0x08, 0x97, 0x7e, 0xe8,
     0xf5, 0x48, 0xb2, 0x25, 0x8d, 0x31] := by rfl

end Ripemd160
