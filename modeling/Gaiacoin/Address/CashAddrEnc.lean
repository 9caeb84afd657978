import Gaiacoin.Address.CashAddr
import Gaiacoin.Address.ConvertBits
import Gaiacoin.Consensus.Params

set_option autoImplicit false

/-!
# `cashaddrenc.cpp`

Destinations as cashaddr strings: `PackAddrData` puts a version byte (the type
and the hash size) in front of the hash and regroups the bytes into 5-bit
values, and `Encode` adds the network's prefix and the checksum. Decoding runs
the same steps back and checks each of them.

`Decode` refuses a string with both upper and lower case letters, and the main
network's prefix is `Gaia`: every address the main network encodes is refused
by its own decoder.
-/

namespace Gaiacoin

structure Uint160 where
  data : List UInt8
  size_eq : data.length = 20
  deriving DecidableEq

/-- `CTxDestination`, the variant `CNoDestination | CKeyID | CScriptID`. -/
inductive CTxDestination
  | CNoDestination
  | CKeyID (id : Uint160)
  | CScriptID (id : Uint160)
  deriving DecidableEq

/-- `CashAddrType`, a `uint8_t`: decoding can read any of its values. -/
abbrev CashAddrType := UInt8

def PUBKEY_TYPE : CashAddrType := 0

def SCRIPT_TYPE : CashAddrType := 1

structure CashAddrContent where
  type : CashAddrType
  hash : List UInt8

/-- What `return {}` gives: type `0` and no hash. -/
def CashAddrContent.empty : CashAddrContent := ⟨0, []⟩

def packAddrData (id : List UInt8) (type : CashAddrType) : Checked (List UInt8) := do
  let version_byte : UInt8 := type <<< 3
  let encoded_size : UInt8 ← match id.length * 8 with
    | 160 => pure 0
    | 192 => pure 1
    | 224 => pure 2
    | 256 => pure 3
    | 320 => pure 4
    | 384 => pure 5
    | 448 => pure 6
    | 512 => pure 7
    | _ => throw (.thrown "Error packing cashaddr: invalid address length")
  let version_byte := version_byte ||| encoded_size
  pure (ConvertBits.convertBits 8 5 true (version_byte :: id)).1

def encodeCashAddr (dst : CTxDestination) (params : CChainParams) : Checked (List Char) :=
  match dst with
  | .CKeyID id => do
    let data ← packAddrData id.data PUBKEY_TYPE
    CashAddr.encode params.cashaddrPrefix.toList data
  | .CScriptID id => do
    let data ← packAddrData id.data SCRIPT_TYPE
    CashAddr.encode params.cashaddrPrefix.toList data
  | .CNoDestination => pure []

/-- The checks after the checksum: the prefix, the zero padding, the reserved
bit and the size the version announces. The 5-to-8-bit `ConvertBits` result is
not looked at. -/
def decodeCashAddrContent (addr : List Char) (params : CChainParams) : Checked CashAddrContent := do
  let (pfx, payload) ← CashAddr.decode addr params.cashaddrPrefix.toList
  if pfx ≠ params.cashaddrPrefix.toList then pure .empty
  else if payload = [] then pure .empty
  else
    let extrabits := payload.length * 5 % 8
    -- more padding than allowed
    if extrabits ≥ 5 then pure .empty
    else
      let last := payload.getLastD 0
      let mask : UInt8 := ((1 : UInt8) <<< extrabits.toUInt8) - 1
      -- nonzero padding bits
      if last &&& mask != 0 then pure .empty
      else
        match (ConvertBits.convertBits 5 8 false payload).1 with
        | [] => throw .outOfRange
        | version :: hash =>
          if version &&& 0x80 != 0 then pure .empty
          else
            let type := (version >>> 3) &&& 0x1f
            let hash_size : UInt32 := 20 + 4 * (version &&& 0x03).toUInt32
            let hash_size := if version &&& 0x04 != 0 then hash_size * 2 else hash_size
            if hash.length + 1 ≠ hash_size.toNat + 1 then pure .empty
            else pure ⟨type, hash⟩

def decodeCashAddrDestination (content : CashAddrContent) : CTxDestination :=
  if twenty : content.hash.length = 20 then
    if content.type = PUBKEY_TYPE then .CKeyID ⟨content.hash, twenty⟩
    else if content.type = SCRIPT_TYPE then .CScriptID ⟨content.hash, twenty⟩
    else .CNoDestination
  else .CNoDestination

def decodeCashAddr (addr : List Char) (params : CChainParams) : Checked CTxDestination := do
  let content ← decodeCashAddrContent addr params
  if content.hash.length = 0 then pure .CNoDestination
  else pure (decodeCashAddrDestination content)

def HasHash (dst : CTxDestination) (id : Uint160) (type : CashAddrType) : Prop :=
  dst = .CKeyID id ∧ type = PUBKEY_TYPE ∨ dst = .CScriptID id ∧ type = SCRIPT_TYPE

theorem hasHash_of_ne {dst : CTxDestination} (valid : dst ≠ .CNoDestination) :
    ∃ id type, HasHash dst id type := by
  cases dst with
  | CNoDestination => exact absurd rfl valid
  | CKeyID id => exact ⟨id, PUBKEY_TYPE, .inl ⟨rfl, rfl⟩⟩
  | CScriptID id => exact ⟨id, SCRIPT_TYPE, .inr ⟨rfl, rfl⟩⟩

theorem packAddrData_eq (id : Uint160) (type : CashAddrType) :
    packAddrData id.data type =
      .ok (ConvertBits.convertBits 8 5 true ((type <<< 3 ||| 0) :: id.data)).1 := by
  unfold packAddrData
  rw [id.size_eq]
  rfl

theorem encodeCashAddr_eq {dst : CTxDestination} {id : Uint160} {type : CashAddrType}
    (hash : HasHash dst id type) (params : CChainParams) :
    encodeCashAddr dst params = CashAddr.encode params.cashaddrPrefix.toList
      (ConvertBits.convertBits 8 5 true ((type <<< 3 ||| 0) :: id.data)).1 := by
  rcases hash with ⟨rfl, rfl⟩ | ⟨rfl, rfl⟩ <;>
    simp only [encodeCashAddr, packAddrData_eq, Checked.ok_bind]

theorem encodeCashAddr_ok {dst : CTxDestination} {id : Uint160} {type : CashAddrType}
    (hash : HasHash dst id type) (params : CChainParams) :
    encodeCashAddr dst params = .ok (params.cashaddrPrefix.toList ++ ':' ::
      ((ConvertBits.convertBits 8 5 true ((type <<< 3 ||| 0) :: id.data)).1 ++
        CashAddr.createChecksum params.cashaddrPrefix.toList
          (ConvertBits.convertBits 8 5 true ((type <<< 3 ||| 0) :: id.data)).1).map
        fun v => CashAddr.charset.getD v.toNat 'q') := by
  rw [encodeCashAddr_eq hash params,
    CashAddr.encode_eq _ (ConvertBits.convertBits_lt 8 (by norm_num) true _)]

theorem and_mask_eq_zero {x : UInt8} {p : Nat} (small : p < 8) (zero : x.toNat % 2 ^ p = 0) :
    x &&& (((1 : UInt8) <<< p.toUInt8) - 1) = 0 := by
  have mask : (((1 : UInt8) <<< p.toUInt8) - 1).toNat = 2 ^ p - 1 := by
    interval_cases p <;> rfl
  apply UInt8.toNat_inj.mp
  rw [UInt8.toNat_and, mask, Nat.and_two_pow_sub_one_eq_mod, zero]
  rfl

theorem decodeCashAddrContent_encoded {params : CChainParams}
    (nonempty : params.cashaddrPrefix.toList ≠ [])
    (lower : ∀ c ∈ params.cashaddrPrefix.toList, 'a' ≤ c ∧ c ≤ 'z')
    {dst : CTxDestination} {id : Uint160} {type : CashAddrType} (hash : HasHash dst id type) :
    ∃ addr, encodeCashAddr dst params = .ok addr ∧
      decodeCashAddrContent addr params = .ok ⟨type, id.data⟩ := by
  refine ⟨_, encodeCashAddr_ok hash params, ?_⟩
  obtain ⟨written, extrabits, padding⟩ :=
    ConvertBits.convertBits_pack ((type <<< 3 ||| 0) :: id.data) (List.cons_ne_nil _ _)
  unfold decodeCashAddrContent
  rw [CashAddr.decode_encode nonempty lower _
    (ConvertBits.convertBits_lt 8 (by norm_num : 5 ≤ 8) true _)]
  simp only [Checked.ok_bind, ne_eq, not_true_eq_false, if_false, written, not_le.mpr extrabits,
    and_mask_eq_zero (by omega) padding, bne_self_eq_false, Bool.false_eq_true,
    ConvertBits.convertBits_unpack]
  -- the version byte of either type: no reserved bit, the type, and size code `0`
  rw [id.size_eq]
  rcases hash with ⟨-, rfl⟩ | ⟨-, rfl⟩ <;> rfl

theorem decodeCashAddrDestination_of_hasHash {dst : CTxDestination} {id : Uint160}
    {type : CashAddrType} (hash : HasHash dst id type) :
    decodeCashAddrDestination ⟨type, id.data⟩ = dst := by
  rcases hash with ⟨rfl, rfl⟩ | ⟨rfl, rfl⟩ <;>
    simp [decodeCashAddrDestination, id.size_eq, PUBKEY_TYPE, SCRIPT_TYPE]

theorem decodeCashAddr_encodeCashAddr_of_lower {params : CChainParams}
    (nonempty : params.cashaddrPrefix.toList ≠ [])
    (lower : ∀ c ∈ params.cashaddrPrefix.toList, 'a' ≤ c ∧ c ≤ 'z')
    {dst : CTxDestination} (valid : dst ≠ .CNoDestination) :
    ∃ addr, encodeCashAddr dst params = .ok addr ∧ decodeCashAddr addr params = .ok dst := by
  obtain ⟨id, type, hash⟩ := hasHash_of_ne valid
  obtain ⟨addr, encoded, content⟩ := decodeCashAddrContent_encoded nonempty lower hash
  refine ⟨addr, encoded, ?_⟩
  simp only [decodeCashAddr, content, Checked.ok_bind, id.size_eq, OfNat.ofNat_ne_zero, if_false,
    decodeCashAddrDestination_of_hasHash hash]
  rfl

theorem twenty_le_hash_size (version : UInt8) :
    20 ≤ (if version &&& 0x04 != 0 then (20 + 4 * (version &&& 0x03).toUInt32) * 2
      else 20 + 4 * (version &&& 0x03).toUInt32).toNat := by
  have low : (version &&& 0x03).toNat ≤ 3 := by
    rw [UInt8.toNat_and]
    exact Nat.and_le_right
  have size : (20 + 4 * (version &&& 0x03).toUInt32).toNat = 20 + 4 * (version &&& 0x03).toNat := by
    rw [UInt32.toNat_add, UInt32.toNat_mul, UInt8.toNat_toUInt32]
    simp only [UInt32.reduceToNat]
    omega
  split
  · rw [UInt32.toNat_mul, size]
    simp only [UInt32.reduceToNat]
    omega
  · omega

theorem decodeCashAddrContent_short {addr : List Char} {params : CChainParams}
    {pfx : List Char} {payload : List UInt8}
    (decoded : CashAddr.decode addr params.cashaddrPrefix.toList = .ok (pfx, payload))
    (digits : ∀ v ∈ payload, v.toNat < 2 ^ 5) (short : payload.length ≤ 27) :
    decodeCashAddrContent addr params = .ok .empty := by
  obtain ⟨-, -, -, unpacked⟩ :=
    ConvertBits.convertBits_nopad (by norm_num : 0 < 8) le_rfl digits
  unfold decodeCashAddrContent
  rw [decoded]
  simp only [Checked.ok_bind]
  split_ifs with named empty padded masked
  all_goals try rfl
  split
  · -- nothing unpacked: only a single value, whose five bits are all padding
    rename_i none
    rw [none, List.length_nil] at unpacked
    have : payload.length ≠ 0 := fun zero => empty (List.eq_nil_of_length_eq_zero zero)
    have one : payload.length = 1 := by omega
    rw [one] at padded
    exact absurd padded (by decide)
  · rename_i version hash unpacked_eq
    rw [unpacked_eq, List.length_cons] at unpacked
    have few : hash.length + 1 ≤ 16 := by omega
    have enough := twenty_le_hash_size version
    -- the size code splits the hypothesis and the goal alike
    split_ifs at enough ⊢ <;> first | rfl | omega

theorem decodeCashAddr_no_separator {addr : List Char} (params : CChainParams)
    (noSep : ':' ∉ addr) (long : 8 ≤ addr.length) (short : addr.length ≤ 35) :
    decodeCashAddr addr params = .ok .CNoDestination := by
  have content : decodeCashAddrContent addr params = .ok .empty := by
    rcases CashAddr.decode_no_separator params.cashaddrPrefix.toList noSep long with
      empty | ⟨values, length, small, decoded⟩
    · exact decodeCashAddrContent_short empty (by simp) (by simp)
    · refine decodeCashAddrContent_short decoded (fun v mem => small v (List.mem_of_mem_take mem)) ?_
      rw [List.length_take]
      omega
  simp only [decodeCashAddr, content, Checked.ok_bind]
  rfl

theorem decodeCashAddr_main (rest : List Char) :
    decodeCashAddr (mainParams.cashaddrPrefix.toList ++ rest) mainParams = .ok .CNoDestination := by
  have gaia : mainParams.cashaddrPrefix.toList = ['G', 'a', 'i', 'a'] := by decide
  unfold decodeCashAddr decodeCashAddrContent
  rw [gaia, List.cons_append, List.cons_append,
    CashAddr.decode_upper_lower 'G' 'a' _ _ (by decide) (by decide)]
  rfl

end Gaiacoin
