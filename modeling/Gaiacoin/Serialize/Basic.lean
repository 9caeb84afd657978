import Gaiacoin.Shared.Wire
import Gaiacoin.Primitives.Transaction

set_option autoImplicit false

/-!
# Lowest-level serialization (`serialize.h`)

Writers are generic in the stream they write to, as the C++ templates are: a
byte vector appends, and `CSizeComputer` only adds up the sizes written, which
is how `GetSerializeSize` runs the serializer. A map between sinks that
commutes with `write` commutes with every writer (the `_map` lemmas), and that
is all that ties the size computation and the appended bytes to the writer.
-/

namespace Gaiacoin

open Wire

class Sink (S : Type) where
  write : S → Bytes → S

instance : Sink Bytes := ⟨fun s bytes => s ++ bytes⟩

structure CSizeComputer where
  nSize : Nat

instance : Sink CSizeComputer := ⟨fun s bytes => ⟨s.nSize + bytes.length⟩⟩

def maxSize : Nat := 0x02000000

def endOfData : String := "CDataStream::read(): end of data"

section Writers

variable {S : Type} [Sink S]

def serWritedata8 (s : S) (obj : Nat) : S := Sink.write s (leBytes 1 obj)
def serWritedata16 (s : S) (obj : Nat) : S := Sink.write s (leBytes 2 obj)
def serWritedata32 (s : S) (obj : Nat) : S := Sink.write s (leBytes 4 obj)
def serWritedata64 (s : S) (obj : Nat) : S := Sink.write s (leBytes 8 obj)

def getSizeOfCompactSize (nSize : Nat) : Nat :=
  if nSize < 253 then 1
  else if nSize ≤ 0xffff then 3
  else if nSize ≤ 0xffffffff then 5
  else 9

def writeCompactSize (os : S) (nSize : Nat) : S :=
  if nSize < 253 then serWritedata8 os nSize
  else if nSize ≤ 0xffff then serWritedata16 (serWritedata8 os 253) nSize
  else if nSize ≤ 0xffffffff then serWritedata32 (serWritedata8 os 254) nSize
  else serWritedata64 (serWritedata8 os 255) nSize

/-- `prevector<N, unsigned char>` and `vector<unsigned char>`: a size, then the raw bytes. -/
def serializeBytes (os : S) (v : Bytes) : S :=
  let os := writeCompactSize os v.length
  if v.isEmpty then os else Sink.write os v

def serializeVector {α : Type} (serializeElem : S → α → S) (os : S) (v : List α) : S :=
  v.foldl serializeElem (writeCompactSize os v.length)

end Writers

section Readers

def serReaddata8 : Reader Nat := Reader.le endOfData 1
def serReaddata16 : Reader Nat := Reader.le endOfData 2
def serReaddata32 : Reader Nat := Reader.le endOfData 4
def serReaddata64 : Reader Nat := Reader.le endOfData 8

/-- `ReadCompactSize` after its first byte `chSize`: the size it announces. -/
def readCompactSizeValue (chSize : Nat) : Reader Nat :=
  if chSize < 253 then pure chSize
  else if chSize = 253 then do
    let nSize ← serReaddata16
    if nSize < 253 then Reader.fail "non-canonical ReadCompactSize()" else pure nSize
  else if chSize = 254 then do
    let nSize ← serReaddata32
    if nSize < 0x10000 then Reader.fail "non-canonical ReadCompactSize()" else pure nSize
  else do
    let nSize ← serReaddata64
    if nSize < 0x100000000 then Reader.fail "non-canonical ReadCompactSize()" else pure nSize

def readCompactSize : Reader Nat := do
  let chSize ← serReaddata8
  let nSizeRet ← readCompactSizeValue chSize
  if nSizeRet > maxSize then Reader.fail "ReadCompactSize(): size too large" else pure nSizeRet

/-- The chunked read of `Unserialize_impl` for bytes: at most
`1 + 4999999 / sizeof(unsigned char)` bytes per read, so that a bogus size
cannot allocate much memory before the stream runs out. -/
def readChunks (nSize i : Nat) : Reader Bytes :=
  if i < nSize then do
    let chunk ← Reader.bytes endOfData (min (nSize - i) 5000000)
    let rest ← readChunks nSize (i + min (nSize - i) 5000000)
    pure (chunk ++ rest)
  else pure []
termination_by nSize - i

def unserializeBytes : Reader Bytes := do
  let nSize ← readCompactSize
  readChunks nSize 0

/-- A vector of non-byte elements. The source resizes the vector in steps of
`5000000 / sizeof(T)` elements while it reads; the elements read are the same. -/
def unserializeVector {α : Type} (unserializeElem : Reader α) : Reader (List α) := do
  let nSize ← readCompactSize
  Reader.many unserializeElem nSize

end Readers

section Maps

variable {S T : Type} [Sink S] [Sink T] (f : S → T)
  (hf : ∀ s bytes, f (Sink.write s bytes) = Sink.write (f s) bytes)
include hf

theorem writeCompactSize_map (s : S) (nSize : Nat) :
    f (writeCompactSize s nSize) = writeCompactSize (f s) nSize := by
  unfold writeCompactSize
  split_ifs <;> simp only [serWritedata8, serWritedata16, serWritedata32, serWritedata64, hf]

theorem serializeBytes_map (s : S) (v : Bytes) :
    f (serializeBytes s v) = serializeBytes (f s) v := by
  unfold serializeBytes
  split <;> simp only [hf, writeCompactSize_map f hf]

theorem serializeVector_map {α : Type} (serS : S → α → S) (serT : T → α → T)
    (hser : ∀ s a, f (serS s a) = serT (f s) a) (s : S) (v : List α) :
    f (serializeVector serS s v) = serializeVector serT (f s) v := by
  unfold serializeVector
  rw [← writeCompactSize_map f hf]
  generalize writeCompactSize s v.length = start
  induction v generalizing start with
  | nil => rfl
  | cons a v ih => simp only [List.foldl_cons, ih, hser]

end Maps

theorem append_write (prefix_ : Bytes) (s bytes : Bytes) :
    prefix_ ++ Sink.write s bytes = Sink.write (prefix_ ++ s) bytes := by
  simp [Sink.write]

theorem size_write (s bytes : Bytes) :
    CSizeComputer.mk (Sink.write s bytes).length = Sink.write (CSizeComputer.mk s.length) bytes := by
  simp [Sink.write]

def compactSize (nSize : Nat) : Bytes := writeCompactSize ([] : Bytes) nSize

theorem compactSize_length (nSize : Nat) :
    (compactSize nSize).length = getSizeOfCompactSize nSize := by
  unfold compactSize writeCompactSize getSizeOfCompactSize
  split_ifs <;> simp [serWritedata8, serWritedata16, serWritedata32, serWritedata64, Sink.write]

theorem readChunks_eq_bytes (nSize i : Nat) :
    readChunks nSize i = Reader.bytes endOfData (nSize - i) := by
  funext input
  fun_induction readChunks nSize i generalizing input with
  | case1 i lt ih =>
    -- one chunk, then the rest by induction, is one read of both lengths
    have total : min (nSize - i) 5000000 + (nSize - (i + min (nSize - i) 5000000)) = nSize - i := by
      omega
    simp only [funext ih]
    rw [Reader.bytes_then_bytes, total]
  | case2 i ge =>
    have none_left : nSize - i = 0 := by omega
    simp [none_left, Reader.bytes]

theorem serReaddata_append (width value : Nat) (fits : value < 256 ^ width) (rest : Bytes) :
    Reader.le endOfData width (leBytes width value ++ rest) = .ok (value, rest) :=
  le_inverse endOfData width value fits rest

theorem compactSize_inverse : Inverse compactSize readCompactSize (· ≤ maxSize) := by
  intro nSize bound rest
  have read8 := serReaddata_append 1
  have read16 := serReaddata_append 2
  have read32 := serReaddata_append 4
  unfold compactSize writeCompactSize
  simp only [maxSize] at bound
  split_ifs with small medium large
  · -- one byte holds the size itself
    simp [serWritedata8, Sink.write, readCompactSize, readCompactSizeValue, serReaddata8,
      Reader.bind_apply, read8 nSize (by omega), small, maxSize, show ¬ 33554432 < nSize by omega]
  · simp [serWritedata8, serWritedata16, Sink.write, readCompactSize, readCompactSizeValue,
      serReaddata8, serReaddata16,
      Reader.bind_apply, read8 253 (by omega), read16 nSize (by omega), maxSize,
      show ¬ nSize < 253 by omega, show ¬ 33554432 < nSize by omega]
  · simp [serWritedata8, serWritedata32, Sink.write, readCompactSize, readCompactSizeValue,
      serReaddata8, serReaddata32,
      Reader.bind_apply, read8 254 (by omega), read32 nSize (by omega), maxSize,
      show ¬ nSize < 65536 by omega, show ¬ 33554432 < nSize by omega]
  · omega

theorem compactSize_exact : Exact compactSize readCompactSize := by
  intro input nSize rest h
  unfold readCompactSize at h
  obtain ⟨chSize, afterFirst, first, h⟩ := Reader.bind_eq_some h
  obtain ⟨value, afterValue, valueRead, h⟩ := Reader.bind_eq_some h
  -- the last step only rejects sizes above `MAX_SIZE`
  have checked : value ≤ maxSize ∧ value = nSize ∧ afterValue = rest := by
    split at h
    next => cases h
    next small =>
      simp only [Reader.pure_apply, Except.ok.injEq, Prod.mk.injEq] at h
      exact ⟨by omega, h⟩
  obtain ⟨bound, rfl, rfl⟩ := checked
  have firstBytes := le_exact endOfData 1 input chSize afterFirst first
  have chBound := le_lt first
  simp only [maxSize] at bound
  rw [← firstBytes]
  unfold compactSize writeCompactSize
  unfold readCompactSizeValue at valueRead
  split_ifs at valueRead with small marker253 marker254
  · simp only [Reader.pure_apply, Except.ok.injEq, Prod.mk.injEq] at valueRead
    obtain ⟨rfl, rfl⟩ := valueRead
    simp [small, serWritedata8, Sink.write]
  · obtain ⟨wide, afterWide, wideRead, valueRead⟩ := Reader.bind_eq_some valueRead
    split at valueRead
    next => cases valueRead
    next canonical =>
      simp only [Reader.pure_apply, Except.ok.injEq, Prod.mk.injEq] at valueRead
      obtain ⟨rfl, rfl⟩ := valueRead
      have wideBytes := le_exact endOfData 2 afterFirst wide afterWide wideRead
      have wideBound := le_lt wideRead
      simp [show ¬ wide < 253 by omega, show wide ≤ 65535 by omega, serWritedata8,
        serWritedata16, Sink.write, marker253, ← wideBytes]
  · obtain ⟨wide, afterWide, wideRead, valueRead⟩ := Reader.bind_eq_some valueRead
    split at valueRead
    next => cases valueRead
    next canonical =>
      simp only [Reader.pure_apply, Except.ok.injEq, Prod.mk.injEq] at valueRead
      obtain ⟨rfl, rfl⟩ := valueRead
      have wideBytes := le_exact endOfData 4 afterFirst wide afterWide wideRead
      simp [show ¬ wide < 253 by omega, show ¬ wide ≤ 65535 by omega,
        show wide ≤ 4294967295 by omega, serWritedata8, serWritedata32, Sink.write, marker254,
        ← wideBytes]
  · -- a nine-byte size is at least 2^32, above `MAX_SIZE`
    obtain ⟨wide, afterWide, -, valueRead⟩ := Reader.bind_eq_some valueRead
    split at valueRead
    next => cases valueRead
    next canonical =>
      simp only [Reader.pure_apply, Except.ok.injEq, Prod.mk.injEq] at valueRead
      omega

theorem compactSize_bijection :
    (∀ nSize ≤ maxSize, ∀ rest, readCompactSize (compactSize nSize ++ rest) = .ok (nSize, rest) ∧
      (compactSize nSize).length = getSizeOfCompactSize nSize) ∧
    ∀ input nSize rest, readCompactSize input = .ok (nSize, rest) → compactSize nSize ++ rest = input :=
  ⟨fun nSize bound rest => ⟨compactSize_inverse nSize bound rest, compactSize_length nSize⟩,
    compactSize_exact⟩

def Appends {α : Type} (ser : Bytes → α → Bytes) : Prop := ∀ s a, ser s a = s ++ ser [] a

theorem writeCompactSize_appends : Appends (writeCompactSize (S := Bytes)) := by
  intro s nSize
  have moved := writeCompactSize_map (s ++ ·) (fun t bytes => append_write s t bytes) [] nSize
  simpa using moved.symm

theorem serializeBytes_eq (s v : Bytes) : serializeBytes s v = s ++ compactSize v.length ++ v := by
  unfold serializeBytes
  rw [writeCompactSize_appends]
  split
  next empty => simp_all [compactSize]
  next => simp [Sink.write, compactSize]

theorem serializeVector_eq {α : Type} (ser : Bytes → α → Bytes) (appends : Appends ser)
    (s : Bytes) (v : List α) :
    serializeVector ser s v = s ++ compactSize v.length ++ (v.map (ser [])).flatten := by
  unfold serializeVector
  rw [writeCompactSize_appends s, ← compactSize]
  generalize s ++ compactSize v.length = start
  induction v generalizing start with
  | nil => simp
  | cons a v ih =>
    rw [List.foldl_cons, appends start a, ih]
    simp

theorem serializeVector_append {α : Type} (ser : Bytes → α → Bytes) (appends : Appends ser)
    (s : Bytes) (v : List α) : serializeVector ser s v = s ++ serializeVector ser [] v := by
  rw [serializeVector_eq ser appends, serializeVector_eq ser appends]
  simp

theorem bytes_inverse :
    Inverse (serializeBytes []) unserializeBytes (fun v => v.length ≤ maxSize) := by
  intro v bound rest
  rw [serializeBytes_eq, List.nil_append, List.append_assoc]
  simp only [unserializeBytes]
  rw [Reader.bind_of_apply (compactSize_inverse v.length bound (v ++ rest)), readChunks_eq_bytes,
    Nat.sub_zero, Reader.bytes_append]

theorem bytes_exact : Exact (serializeBytes []) unserializeBytes := by
  intro input v rest h
  simp only [unserializeBytes] at h
  obtain ⟨nSize, middle, sizeRead, h⟩ := Reader.bind_eq_some h
  rw [readChunks_eq_bytes, Nat.sub_zero] at h
  obtain ⟨length, split⟩ := Reader.bytes_eq_ok h
  rw [serializeBytes_eq, List.nil_append, List.append_assoc, split, length,
    compactSize_exact input nSize middle sizeRead]

theorem vector_inverse {α : Type} {ser : Bytes → α → Bytes} {read : Reader α} {valid : α → Prop}
    (appends : Appends ser) (codec : Inverse (ser []) read valid) :
    Inverse (serializeVector ser []) (unserializeVector read)
      (fun v => v.length ≤ maxSize ∧ ∀ a ∈ v, valid a) := by
  intro v ⟨bound, elems⟩ rest
  rw [serializeVector_eq ser appends, List.nil_append, List.append_assoc]
  simp only [unserializeVector]
  rw [Reader.bind_of_apply (compactSize_inverse v.length bound _), codec.many v elems]

theorem vector_exact {α : Type} {ser : Bytes → α → Bytes} {read : Reader α}
    (appends : Appends ser) (codec : Exact (ser []) read) :
    Exact (serializeVector ser []) (unserializeVector read) := by
  intro input v rest h
  simp only [unserializeVector] at h
  obtain ⟨nSize, middle, sizeRead, h⟩ := Reader.bind_eq_some h
  obtain ⟨length, split⟩ := codec.many nSize middle v rest h
  rw [serializeVector_eq ser appends, List.nil_append, List.append_assoc, split, length,
    compactSize_exact input nSize middle sizeRead]

end Gaiacoin
