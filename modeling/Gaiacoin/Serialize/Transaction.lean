import Gaiacoin.Serialize.Basic
import Gaiacoin.Shared.Sha256

set_option autoImplicit false

/-!
# The transaction wire format

`SerializationOp` of `COutPoint`, `CTxIn`, `CTxOut` and `CTransaction`
(`primitives/transaction.h`), and the `uint256` and fixed-width integer
serializers they use. `GetSerializeSize` is `CSizeComputer` run through the
same writer.
-/

namespace Gaiacoin

open Wire

section Writers

variable {S : Type} [Sink S]

def serializeUint256 (s : S) (h : Uint256) : S := Sink.write s h.data

def serializeUInt32 (s : S) (a : UInt32) : S := serWritedata32 s a.toNat
def serializeInt32 (s : S) (a : Int32) : S := serWritedata32 s a.toUInt32.toNat
def serializeInt64 (s : S) (a : Int64) : S := serWritedata64 s a.toUInt64.toNat

def serializeOutPoint (s : S) (prevout : COutPoint) : S :=
  let s := serializeUint256 s prevout.hash
  serializeUInt32 s prevout.n

def serializeTxIn (s : S) (txin : CTxIn) : S :=
  let s := serializeOutPoint s txin.prevout
  let s := serializeBytes s txin.scriptSig
  serializeUInt32 s txin.nSequence

def serializeTxOut (s : S) (txout : CTxOut) : S :=
  let s := serializeInt64 s txout.nValue
  serializeBytes s txout.scriptPubKey

def serializeTransaction (s : S) (tx : CTransaction) : S :=
  let s := serializeInt32 s tx.nVersion
  let s := serializeUInt32 s tx.nTime
  let s := serializeVector serializeTxIn s tx.vin
  let s := serializeVector serializeTxOut s tx.vout
  serializeUInt32 s tx.nLockTime

end Writers

def serialize (tx : CTransaction) : Bytes := serializeTransaction ([] : Bytes) tx

def getSerializeSize (tx : CTransaction) : Nat := (serializeTransaction (CSizeComputer.mk 0) tx).nSize

/-- `CTransaction::GetHash`: `SerializeHash`, the double SHA-256 of the serialized transaction. -/
def CTransaction.getHash (tx : CTransaction) : Uint256 :=
  ⟨Sha256.hash256 (serialize tx), Sha256.length_hash256 _⟩

def unserializeUint256 : Reader Uint256 := fun input =>
  if fits : 32 ≤ input.length then .ok (⟨input.take 32, by simp [fits]⟩, input.drop 32)
  else .error endOfData

def unserializeUInt32 : Reader UInt32 := do
  let n ← serReaddata32
  pure (UInt32.ofNat n)

def unserializeInt32 : Reader Int32 := do
  let n ← serReaddata32
  pure (UInt32.ofNat n).toInt32

def unserializeInt64 : Reader Int64 := do
  let n ← serReaddata64
  pure (UInt64.ofNat n).toInt64

def unserializeOutPoint : Reader COutPoint := do
  let hash ← unserializeUint256
  let n ← unserializeUInt32
  pure ⟨hash, n⟩

def unserializeTxIn : Reader CTxIn := do
  let prevout ← unserializeOutPoint
  let scriptSig ← unserializeBytes
  let nSequence ← unserializeUInt32
  pure ⟨prevout, scriptSig, nSequence⟩

def unserializeTxOut : Reader CTxOut := do
  let nValue ← unserializeInt64
  let scriptPubKey ← unserializeBytes
  pure ⟨nValue, scriptPubKey⟩

def unserializeTransaction : Reader CTransaction := do
  let nVersion ← unserializeInt32
  let nTime ← unserializeUInt32
  let vin ← unserializeVector unserializeTxIn
  let vout ← unserializeVector unserializeTxOut
  let nLockTime ← unserializeUInt32
  pure ⟨nVersion, nTime, vin, vout, nLockTime⟩

/-- The sizes `MAX_SIZE` bounds on the wire: the input and output counts and every script. -/
def CTransaction.WithinMaxSize (tx : CTransaction) : Prop :=
  tx.vin.length ≤ maxSize ∧ tx.vout.length ≤ maxSize ∧
    (∀ txin ∈ tx.vin, txin.scriptSig.length ≤ maxSize) ∧
    (∀ txout ∈ tx.vout, txout.scriptPubKey.length ≤ maxSize)

section Maps

variable {S T : Type} [Sink S] [Sink T] (f : S → T)
  (hf : ∀ s bytes, f (Sink.write s bytes) = Sink.write (f s) bytes)
include hf

theorem serializeOutPoint_map (s : S) (prevout : COutPoint) :
    f (serializeOutPoint s prevout) = serializeOutPoint (f s) prevout := by
  simp only [serializeOutPoint, serializeUint256, serializeUInt32, serWritedata32, hf]

theorem serializeTxIn_map (s : S) (txin : CTxIn) :
    f (serializeTxIn s txin) = serializeTxIn (f s) txin := by
  simp only [serializeTxIn, serializeUInt32, serWritedata32, hf, serializeBytes_map f hf,
    serializeOutPoint_map f hf]

theorem serializeTxOut_map (s : S) (txout : CTxOut) :
    f (serializeTxOut s txout) = serializeTxOut (f s) txout := by
  simp only [serializeTxOut, serializeInt64, serWritedata64, hf, serializeBytes_map f hf]

theorem serializeTransaction_map (s : S) (tx : CTransaction) :
    f (serializeTransaction s tx) = serializeTransaction (f s) tx := by
  simp only [serializeTransaction, serializeUInt32, serializeInt32, serWritedata32, hf,
    serializeVector_map f hf _ _ (serializeTxIn_map f hf),
    serializeVector_map f hf _ _ (serializeTxOut_map f hf)]

end Maps

theorem appends_of_map {α : Type} (ser : Bytes → α → Bytes)
    (map : ∀ (f : Bytes → Bytes), (∀ s bytes, f (Sink.write s bytes) = Sink.write (f s) bytes) →
      ∀ s a, f (ser s a) = ser (f s) a) : Appends ser := by
  intro s a
  have moved := map (s ++ ·) (fun t bytes => append_write s t bytes) [] a
  simpa using moved.symm

theorem serializeTxIn_appends : Appends (serializeTxIn (S := Bytes)) :=
  appends_of_map _ fun f hf => serializeTxIn_map f hf

theorem serializeTxOut_appends : Appends (serializeTxOut (S := Bytes)) :=
  appends_of_map _ fun f hf => serializeTxOut_map f hf

theorem getSerializeSize_eq_length (tx : CTransaction) :
    getSerializeSize tx = (serialize tx).length := by
  have counted := serializeTransaction_map (fun s : Bytes => CSizeComputer.mk s.length) size_write
    [] tx
  rw [List.length_nil] at counted
  rw [getSerializeSize, serialize, ← counted]

@[simp] theorem serializeUint256_eq (s : Bytes) (h : Uint256) :
    serializeUint256 s h = s ++ h.data := rfl

@[simp] theorem serializeUInt32_eq (s : Bytes) (a : UInt32) :
    serializeUInt32 s a = s ++ leBytes 4 a.toNat := rfl

@[simp] theorem serializeInt32_eq (s : Bytes) (a : Int32) :
    serializeInt32 s a = s ++ leBytes 4 a.toUInt32.toNat := rfl

@[simp] theorem serializeInt64_eq (s : Bytes) (a : Int64) :
    serializeInt64 s a = s ++ leBytes 8 a.toUInt64.toNat := rfl

theorem uint256_inverse (h : Uint256) (rest : Bytes) :
    unserializeUint256 (h.data ++ rest) = .ok (h, rest) := by
  have size := h.size_eq
  simp only [unserializeUint256, List.length_append, size, List.take_left' size,
    List.drop_left' size]
  simp

theorem uint256_exact (input : Bytes) (h : Uint256) (rest : Bytes)
    (read : unserializeUint256 input = .ok (h, rest)) : h.data ++ rest = input := by
  unfold unserializeUint256 at read
  split at read
  next =>
    simp only [Except.ok.injEq, Prod.mk.injEq] at read
    obtain ⟨rfl, rfl⟩ := read
    exact List.take_append_drop 32 input
  next => cases read

theorem uint32_inverse : Inverse (fun a : UInt32 => leBytes 4 a.toNat) unserializeUInt32
    (fun _ => True) :=
  (le_inverse endOfData 4).map UInt32.toNat UInt32.ofNat (by simp) (fun a => a.toNat_lt)

theorem uint32_exact : Exact (fun a : UInt32 => leBytes 4 a.toNat) unserializeUInt32 :=
  (le_exact endOfData 4).map UInt32.toNat UInt32.ofNat fun _ _ _ read => by
    have := le_lt read
    simp only [UInt32.toNat_ofNat']
    omega

theorem int32_inverse : Inverse (fun a : Int32 => leBytes 4 a.toUInt32.toNat) unserializeInt32
    (fun _ => True) :=
  (le_inverse endOfData 4).map (fun a : Int32 => a.toUInt32.toNat)
    (fun n => (UInt32.ofNat n).toInt32) (by simp) (fun a => a.toUInt32.toNat_lt)

theorem int32_exact : Exact (fun a : Int32 => leBytes 4 a.toUInt32.toNat) unserializeInt32 :=
  (le_exact endOfData 4).map (fun a : Int32 => a.toUInt32.toNat)
    (fun n => (UInt32.ofNat n).toInt32) fun _ _ _ read => by
      have := le_lt read
      simp only [UInt32.toUInt32_toInt32, UInt32.toNat_ofNat']
      omega

theorem int64_inverse : Inverse (fun a : Int64 => leBytes 8 a.toUInt64.toNat) unserializeInt64
    (fun _ => True) :=
  (le_inverse endOfData 8).map (fun a : Int64 => a.toUInt64.toNat)
    (fun n => (UInt64.ofNat n).toInt64) (by simp) (fun a => a.toUInt64.toNat_lt)

theorem int64_exact : Exact (fun a : Int64 => leBytes 8 a.toUInt64.toNat) unserializeInt64 :=
  (le_exact endOfData 8).map (fun a : Int64 => a.toUInt64.toNat)
    (fun n => (UInt64.ofNat n).toInt64) fun _ _ _ read => by
      have := le_lt read
      simp only [UInt64.toUInt64_toInt64, UInt64.toNat_ofNat']
      omega

theorem outPoint_inverse :
    Inverse (serializeOutPoint []) unserializeOutPoint (fun _ => True) := by
  intro prevout _ rest
  simp only [serializeOutPoint, serializeUint256_eq, serializeUInt32_eq, List.nil_append,
    List.append_assoc, unserializeOutPoint]
  rw [Reader.bind_of_apply (uint256_inverse _ _),
    Reader.bind_of_apply (uint32_inverse prevout.n trivial rest)]
  rfl

theorem outPoint_exact : Exact (serializeOutPoint []) unserializeOutPoint := by
  intro input prevout rest h
  obtain ⟨hash, middle, hashRead, h⟩ := Reader.bind_eq_some h
  obtain ⟨n, rest', nRead, h⟩ := Reader.bind_eq_some h
  simp only [Reader.pure_apply, Except.ok.injEq, Prod.mk.injEq] at h
  obtain ⟨rfl, rfl⟩ := h
  simp only [serializeOutPoint, serializeUint256_eq, serializeUInt32_eq, List.nil_append,
    List.append_assoc]
  rw [uint32_exact middle n rest' nRead, uint256_exact input hash middle hashRead]

theorem txIn_inverse :
    Inverse (serializeTxIn []) unserializeTxIn (fun txin => txin.scriptSig.length ≤ maxSize) := by
  intro txin bound rest
  have scriptRead := bytes_inverse txin.scriptSig bound (leBytes 4 txin.nSequence.toNat ++ rest)
  rw [serializeBytes_eq, List.nil_append] at scriptRead
  simp only [serializeTxIn, serializeBytes_eq, serializeUInt32_eq, List.append_assoc,
    unserializeTxIn]
  rw [Reader.bind_of_apply (outPoint_inverse txin.prevout trivial _)]
  simp only [← List.append_assoc] at scriptRead ⊢
  rw [Reader.bind_of_apply scriptRead,
    Reader.bind_of_apply (uint32_inverse txin.nSequence trivial rest)]
  rfl

theorem txIn_exact : Exact (serializeTxIn []) unserializeTxIn := by
  intro input txin rest h
  obtain ⟨prevout, afterPrevout, prevoutRead, h⟩ := Reader.bind_eq_some h
  obtain ⟨scriptSig, afterScript, scriptRead, h⟩ := Reader.bind_eq_some h
  obtain ⟨nSequence, rest', sequenceRead, h⟩ := Reader.bind_eq_some h
  simp only [Reader.pure_apply, Except.ok.injEq, Prod.mk.injEq] at h
  obtain ⟨rfl, rfl⟩ := h
  have scriptBytes := bytes_exact afterPrevout scriptSig afterScript scriptRead
  rw [serializeBytes_eq, List.nil_append, List.append_assoc] at scriptBytes
  simp only [serializeTxIn, serializeBytes_eq, serializeUInt32_eq, List.append_assoc]
  rw [uint32_exact afterScript nSequence rest' sequenceRead, scriptBytes,
    outPoint_exact input prevout afterPrevout prevoutRead]

theorem txOut_inverse :
    Inverse (serializeTxOut []) unserializeTxOut (fun txout => txout.scriptPubKey.length ≤ maxSize) := by
  intro txout bound rest
  have scriptRead := bytes_inverse txout.scriptPubKey bound rest
  rw [serializeBytes_eq, List.nil_append] at scriptRead
  simp only [serializeTxOut, serializeBytes_eq, serializeInt64_eq, List.nil_append,
    List.append_assoc, unserializeTxOut]
  rw [Reader.bind_of_apply (int64_inverse txout.nValue trivial _)]
  rw [List.append_assoc] at scriptRead
  rw [Reader.bind_of_apply scriptRead]
  rfl

theorem txOut_exact : Exact (serializeTxOut []) unserializeTxOut := by
  intro input txout rest h
  obtain ⟨nValue, afterValue, valueRead, h⟩ := Reader.bind_eq_some h
  obtain ⟨scriptPubKey, rest', scriptRead, h⟩ := Reader.bind_eq_some h
  simp only [Reader.pure_apply, Except.ok.injEq, Prod.mk.injEq] at h
  obtain ⟨rfl, rfl⟩ := h
  have scriptBytes := bytes_exact afterValue scriptPubKey rest' scriptRead
  rw [serializeBytes_eq, List.nil_append, List.append_assoc] at scriptBytes
  simp only [serializeTxOut, serializeBytes_eq, serializeInt64_eq, List.nil_append,
    List.append_assoc]
  rw [scriptBytes, int64_exact input nValue afterValue valueRead]

theorem transaction_inverse :
    Inverse (serializeTransaction []) unserializeTransaction CTransaction.WithinMaxSize := by
  intro tx ⟨vinBound, voutBound, sigBound, pubKeyBound⟩ rest
  have vinCodec := vector_inverse serializeTxIn_appends txIn_inverse
  have voutCodec := vector_inverse serializeTxOut_appends txOut_inverse
  simp only [serializeTransaction, serializeInt32_eq, serializeUInt32_eq]
  rw [serializeVector_append _ serializeTxOut_appends, serializeVector_append _ serializeTxIn_appends]
  simp only [List.nil_append, List.append_assoc, unserializeTransaction]
  rw [Reader.bind_of_apply (int32_inverse tx.nVersion trivial _),
    Reader.bind_of_apply (uint32_inverse tx.nTime trivial _),
    Reader.bind_of_apply (vinCodec tx.vin ⟨vinBound, sigBound⟩ _),
    Reader.bind_of_apply (voutCodec tx.vout ⟨voutBound, pubKeyBound⟩ _),
    Reader.bind_of_apply (uint32_inverse tx.nLockTime trivial rest)]
  rfl

theorem transaction_exact : Exact (serializeTransaction []) unserializeTransaction := by
  intro input tx rest h
  obtain ⟨nVersion, afterVersion, versionRead, h⟩ := Reader.bind_eq_some h
  obtain ⟨nTime, afterTime, timeRead, h⟩ := Reader.bind_eq_some h
  obtain ⟨vin, afterVin, vinRead, h⟩ := Reader.bind_eq_some h
  obtain ⟨vout, afterVout, voutRead, h⟩ := Reader.bind_eq_some h
  obtain ⟨nLockTime, rest', lockTimeRead, h⟩ := Reader.bind_eq_some h
  simp only [Reader.pure_apply, Except.ok.injEq, Prod.mk.injEq] at h
  obtain ⟨rfl, rfl⟩ := h
  have vinBytes := vector_exact serializeTxIn_appends txIn_exact afterTime vin afterVin vinRead
  have voutBytes := vector_exact serializeTxOut_appends txOut_exact afterVin vout afterVout voutRead
  simp only [serializeTransaction, serializeInt32_eq, serializeUInt32_eq]
  rw [serializeVector_append _ serializeTxOut_appends, serializeVector_append _ serializeTxIn_appends]
  simp only [List.nil_append, List.append_assoc]
  rw [uint32_exact afterVout nLockTime rest' lockTimeRead, voutBytes, vinBytes,
    uint32_exact afterVersion nTime afterTime timeRead,
    int32_exact input nVersion afterVersion versionRead]

theorem transaction_wire_roundtrip (tx : CMutableTransaction) (within : tx.WithinMaxSize)
    (rest : Bytes) :
    unserializeTransaction (serialize tx ++ rest) = .ok (tx, rest) ∧
      getSerializeSize tx = (serialize tx).length ∧
      ∀ input tx' rest', unserializeTransaction input = .ok (tx', rest') →
        serialize tx' ++ rest' = input :=
  ⟨transaction_inverse tx within rest, getSerializeSize_eq_length tx, transaction_exact⟩

theorem transaction_wire_roundtrip_one_in_one_out :
    CTransaction.WithinMaxSize
        ⟨1, 0, [⟨⟨Uint256.zero, 0⟩, [0x51], 0xffffffff⟩], [⟨coin, [0x51]⟩], 0⟩ ∧
      unserializeTransaction
          (serialize ⟨1, 0, [⟨⟨Uint256.zero, 0⟩, [0x51], 0xffffffff⟩], [⟨coin, [0x51]⟩], 0⟩ ++ []) =
        .ok (⟨1, 0, [⟨⟨Uint256.zero, 0⟩, [0x51], 0xffffffff⟩], [⟨coin, [0x51]⟩], 0⟩, []) :=
  have within : CTransaction.WithinMaxSize
      ⟨1, 0, [⟨⟨Uint256.zero, 0⟩, [0x51], 0xffffffff⟩], [⟨coin, [0x51]⟩], 0⟩ := by
    simp [CTransaction.WithinMaxSize, maxSize]
  ⟨within, (transaction_wire_roundtrip _ within []).1⟩

end Gaiacoin
