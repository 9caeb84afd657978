import Gaiacoin.Shared.Wire

set_option autoImplicit false

/-!
# SHA-256

The compression function, the padding and the digest of SHA-256, and the double
hash built from it. The message is padded once and then processed in 64-byte
chunks: a writer that buffers partial chunks computes the same state once the
whole message has been written, so the digest of a complete message is modelled
directly.
-/

namespace Sha256

def Ch (x y z : UInt32) : UInt32 := z ^^^ (x &&& (y ^^^ z))
def Maj (x y z : UInt32) : UInt32 := (x &&& y) ||| (z &&& (x ||| y))
def Sigma0 (x : UInt32) : UInt32 := (x >>> 2 ||| x <<< 30) ^^^ (x >>> 13 ||| x <<< 19) ^^^ (x >>> 22 ||| x <<< 10)
def Sigma1 (x : UInt32) : UInt32 := (x >>> 6 ||| x <<< 26) ^^^ (x >>> 11 ||| x <<< 21) ^^^ (x >>> 25 ||| x <<< 7)
def sigma0 (x : UInt32) : UInt32 := (x >>> 7 ||| x <<< 25) ^^^ (x >>> 18 ||| x <<< 14) ^^^ (x >>> 3)
def sigma1 (x : UInt32) : UInt32 := (x >>> 17 ||| x <<< 15) ^^^ (x >>> 19 ||| x <<< 13) ^^^ (x >>> 10)

def k : List UInt32 :=
  [0x428a2f98, 0x71374491, 0xb5c0fbcf, 0xe9b5dba5, 0x3956c25b, 0x59f111f1, 0x923f82a4, 0xab1c5ed5,
   0xd807aa98, 0x12835b01, 0x243185be, 0x550c7dc3, 0x72be5d74, 0x80deb1fe, 0x9bdc06a7, 0xc19bf174,
   0xe49b69c1, 0xefbe4786, 0x0fc19dc6, 0x240ca1cc, 0x2de92c6f, 0x4a7484aa, 0x5cb0a9dc, 0x76f988da,
   0x983e5152, 0xa831c66d, 0xb00327c8, 0xbf597fc7, 0xc6e00bf3, 0xd5a79147, 0x06ca6351, 0x14292967,
   0x27b70a85, 0x2e1b2138, 0x4d2c6dfc, 0x53380d13, 0x650a7354, 0x766a0abb, 0x81c2c92e, 0x92722c85,
   0xa2bfe8a1, 0xa81a664b, 0xc24b8b70, 0xc76c51a3, 0xd192e819, 0xd6990624, 0xf40e3585, 0x106aa070,
   0x19a4c116, 0x1e376c08, 0x2748774c, 0x34b0bcb5, 0x391c0cb3, 0x4ed8aa4a, 0x5b9cca4f, 0x682e6ff3,
   0x748f82ee, 0x78a5636f, 0x84c87814, 0x8cc70208, 0x90befffa, 0xa4506ceb, 0xbef9a3f7, 0xc67178f2]

structure State where
  a : UInt32
  b : UInt32
  c : UInt32
  d : UInt32
  e : UInt32
  f : UInt32
  g : UInt32
  h : UInt32
deriving DecidableEq, Repr

/-- `Initialize`. -/
def initialState : State :=
  ⟨0x6a09e667, 0xbb67ae85, 0x3c6ef372, 0xa54ff53a, 0x510e527f, 0x9b05688c, 0x1f83d9ab, 0x5be0cd19⟩

def round (s : State) (k w : UInt32) : State :=
  let t1 := s.h + Sigma1 s.e + Ch s.e s.f s.g + k + w
  let t2 := Sigma0 s.a + Maj s.a s.b s.c
  ⟨t1 + t2, s.a, s.b, s.c, s.d + t1, s.e, s.f, s.g⟩

def readBE32 (bytes : List UInt8) : UInt32 := UInt32.ofNat (Wire.readLE bytes.reverse)

def writeBE32 (x : UInt32) : List UInt8 := (Wire.leBytes 4 x.toNat).reverse

def schedule (chunk : List UInt8) : List UInt32 :=
  let words := (List.range 16).map fun i => readBE32 ((chunk.drop (4 * i)).take 4)
  (List.range 48).foldl (fun w i =>
    w ++ [sigma1 (w.getD (i + 14) 0) + w.getD (i + 9) 0 + sigma0 (w.getD (i + 1) 0) + w.getD i 0])
    words

def transform (s : State) (chunk : List UInt8) : State :=
  let t := (k.zip (schedule chunk)).foldl (fun t kw => round t kw.1 kw.2) s
  ⟨s.a + t.a, s.b + t.b, s.c + t.c, s.d + t.d, s.e + t.e, s.f + t.f, s.g + t.g, s.h + t.h⟩

/-- The first `count` chunks of `data`, one `Transform` each. -/
def transformChunks (s : State) (data : List UInt8) : Nat → State
  | 0 => s
  | count + 1 => transformChunks (transform s (data.take 64)) (data.drop 64) count

/-- `Finalize`: the byte `0x80`, zeros up to 56 modulo 64, and the bit length as a
big-endian `uint64_t`. -/
def pad (data : List UInt8) : List UInt8 :=
  data ++ (0x80 :: List.replicate ((119 - data.length % 64) % 64) 0) ++
    (Wire.leBytes 8 (data.length * 8)).reverse

def digest (s : State) : List UInt8 :=
  writeBE32 s.a ++ writeBE32 s.b ++ writeBE32 s.c ++ writeBE32 s.d ++
    writeBE32 s.e ++ writeBE32 s.f ++ writeBE32 s.g ++ writeBE32 s.h

def sha256 (data : List UInt8) : List UInt8 :=
  digest (transformChunks initialState (pad data) ((pad data).length / 64))

/-- `CHash256`: SHA-256 applied to the SHA-256 digest. -/
def hash256 (data : List UInt8) : List UInt8 := sha256 (sha256 data)

theorem length_sha256 (data : List UInt8) : (sha256 data).length = 32 := by
  simp [sha256, digest, writeBE32]

theorem length_hash256 (data : List UInt8) : (hash256 data).length = 32 :=
  length_sha256 _

end Sha256
