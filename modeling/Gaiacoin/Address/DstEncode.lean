import Gaiacoin.Address.CashAddrEnc
import Gaiacoin.Address.Base58

/-!
# Legacy addresses and the destination parser

`EncodeLegacyAddr` and `DecodeLegacyAddr` of base58.cpp, and `DecodeDestination`
of dstencode.cpp, which tries the cashaddr form before the legacy one.
-/

namespace Gaiacoin

/-- `str.c_str()`: what a `const char *` sees of the string. -/
def cStr (str : List Char) : List Char := str.takeWhile (· != Char.ofNat 0)

def encodeLegacyAddr (dest : CTxDestination) (params : CChainParams) : Checked (List Char) :=
  match dest with
  | .CKeyID id => Base58.encodeBase58Check (params.base58Prefixes .PUBKEY_ADDRESS ++ id.data)
  | .CScriptID id => Base58.encodeBase58Check (params.base58Prefixes .SCRIPT_ADDRESS ++ id.data)
  | .CNoDestination => pure []

theorem length_drop_of_sized {data pfx : List UInt8}
    (sized : data.length = 20 + pfx.length ∧ data.take pfx.length = pfx) :
    (data.drop pfx.length).length = 20 := by
  rw [List.length_drop, sized.1]
  omega

/-- The `DecodeDestination` of base58.cpp that `DecodeLegacyAddr` calls. -/
def decodeLegacyAddr (str : List Char) (params : CChainParams) : Checked CTxDestination := do
  match ← Base58.decodeBase58Check (cStr str) with
  | none => pure .CNoDestination
  | some data =>
    let pubkeyPfx := params.base58Prefixes .PUBKEY_ADDRESS
    if sized : data.length = 20 + pubkeyPfx.length ∧ data.take pubkeyPfx.length = pubkeyPfx then
      pure (.CKeyID ⟨data.drop pubkeyPfx.length, length_drop_of_sized sized⟩)
    else
      let scriptPfx := params.base58Prefixes .SCRIPT_ADDRESS
      if sized : data.length = 20 + scriptPfx.length ∧ data.take scriptPfx.length = scriptPfx then
        pure (.CScriptID ⟨data.drop scriptPfx.length, length_drop_of_sized sized⟩)
      else pure .CNoDestination

def isValidDestination : CTxDestination → Bool
  | .CNoDestination => false
  | _ => true

def encodeDestination (dst : CTxDestination) (params : CChainParams) (useCashAddr : Bool) :
    Checked (List Char) :=
  if useCashAddr then encodeCashAddr dst params else encodeLegacyAddr dst params

def decodeDestination (addr : List Char) (params : CChainParams) : Checked CTxDestination := do
  let dst ← decodeCashAddr addr params
  if isValidDestination dst then pure dst
  else decodeLegacyAddr addr params

structure LegacyVersions (params : CChainParams) : Prop where
  single : ∀ type, ∃ v : UInt8, v ≠ 0 ∧ params.base58Prefixes type = [v]
  distinct : params.base58Prefixes .PUBKEY_ADDRESS ≠ params.base58Prefixes .SCRIPT_ADDRESS

theorem legacyVersions_params (network : Network) : LegacyVersions (params network) := by
  cases network <;> refine ⟨fun type => ?_, by decide⟩ <;> cases type <;> exact ⟨_, by decide, rfl⟩

theorem LegacyVersions.length_eq {params : CChainParams} (versions : LegacyVersions params)
    (type : Base58Type) : (params.base58Prefixes type).length = 1 := by
  obtain ⟨v, -, single⟩ := versions.single type
  rw [single, List.length_singleton]

theorem cStr_of_ne {str : List Char} (noNul : ∀ c ∈ str, c ≠ Char.ofNat 0) : cStr str = str := by
  apply List.takeWhile_eq_self_iff.mpr
  intro c mem
  simpa using noNul c mem

theorem length_encodeBase58Check {v : UInt8} (version : v ≠ 0) {body : List UInt8}
    (twenty : body.length = 20) {s : List Char}
    (encoded : Base58.encodeBase58Check (v :: body) = .ok s) : 8 ≤ s.length ∧ s.length ≤ 35 := by
  let bytes := v :: body ++ (Sha256.hash256 (v :: body)).take 4
  have leading : ∀ b ∈ bytes.head?, (b == 0) = false := by
    simpa [bytes] using version
  have count : (bytes.map UInt8.toNat).length = 25 := by
    simp [bytes, twenty, Sha256.length_hash256]
  rw [Base58.length_encodeBase58 leading (by simpa using count.le.trans (by norm_num)) encoded]
  have high : Base58.bigEndian 256 (bytes.map UInt8.toNat) < 256 ^ 25 := by
    rw [Base58.bigEndian, ← count, ← List.length_reverse]
    apply Nat.ofDigits_lt_base_pow_length (by norm_num)
    intro d mem
    obtain ⟨b, -, rfl⟩ := List.mem_map.mp (List.mem_reverse.mp mem)
    exact b.toNat_lt
  have low : 256 ^ 24 ≤ Base58.bigEndian 256 (bytes.map UInt8.toNat) := by
    have first : 1 ≤ v.toNat := Nat.one_le_iff_ne_zero.mpr fun zero => version (UInt8.toNat_inj.mp zero)
    have rest : ((body ++ (Sha256.hash256 (v :: body)).take 4).map UInt8.toNat).length = 24 := by
      simp [twenty, Sha256.length_hash256]
    simp only [bytes, List.cons_append, List.map_cons, Base58.bigEndian_cons, rest]
    nlinarith
  constructor
  · exact (Nat.lt_digits_length_iff (by norm_num) _).mpr (le_trans (by norm_num) low)
  · exact (Nat.digits_length_le_iff (by norm_num) _).mpr (lt_of_lt_of_le high (by norm_num))

section Legacy

variable {params : CChainParams}

theorem encodeBase58Check_legacy (versions : LegacyVersions params) (type : Base58Type)
    (id : Uint160) :
    ∃ s, Base58.encodeBase58Check (params.base58Prefixes type ++ id.data) = .ok s ∧
      Base58.decodeBase58Check (cStr s) = .ok (some (params.base58Prefixes type ++ id.data)) ∧
      ':' ∉ s ∧ 8 ≤ s.length ∧ s.length ≤ 35 := by
  obtain ⟨s, encoded, decoded⟩ :=
    Base58.decodeBase58Check_encodeBase58Check (params.base58Prefixes type ++ id.data)
      (by rw [List.length_append, versions.length_eq type, id.size_eq]; norm_num)
  have alphabet := Base58.mem_encodeBase58 encoded
  have noNul : ∀ c ∈ s, c ≠ Char.ofNat 0 := by
    intro c mem nul
    have := alphabet c mem
    rw [nul] at this
    exact absurd this (by decide)
  obtain ⟨v, version, single⟩ := versions.single type
  rw [single, List.singleton_append] at encoded
  obtain ⟨long, short⟩ := length_encodeBase58Check version id.size_eq encoded
  refine ⟨s, by rw [single]; exact encoded, by rw [cStr_of_ne noNul]; exact decoded, ?_, long, short⟩
  intro sep
  exact absurd (alphabet ':' sep) (by decide)

theorem decodeLegacyAddr_pubkey {str : List Char} {id : Uint160}
    (decoded : Base58.decodeBase58Check (cStr str) =
      .ok (some (params.base58Prefixes .PUBKEY_ADDRESS ++ id.data))) :
    decodeLegacyAddr str params = .ok (.CKeyID id) := by
  have sized : (params.base58Prefixes .PUBKEY_ADDRESS ++ id.data).length =
      20 + (params.base58Prefixes .PUBKEY_ADDRESS).length := by
    rw [List.length_append, id.size_eq, Nat.add_comm]
  simp only [decodeLegacyAddr, decoded, Checked.ok_bind, sized, List.take_left', and_self,
    dif_pos, List.drop_left']
  rfl

theorem decodeLegacyAddr_script (versions : LegacyVersions params) {str : List Char} {id : Uint160}
    (decoded : Base58.decodeBase58Check (cStr str) =
      .ok (some (params.base58Prefixes .SCRIPT_ADDRESS ++ id.data))) :
    decodeLegacyAddr str params = .ok (.CScriptID id) := by
  have sameLength := (versions.length_eq .PUBKEY_ADDRESS).trans (versions.length_eq .SCRIPT_ADDRESS).symm
  -- the script's version byte is where the key's would be, and differs from it
  have notKey : ¬((params.base58Prefixes .SCRIPT_ADDRESS ++ id.data).take
      (params.base58Prefixes .PUBKEY_ADDRESS).length = params.base58Prefixes .PUBKEY_ADDRESS) := by
    rw [List.take_left' sameLength.symm]
    exact versions.distinct.symm
  have sized : (params.base58Prefixes .SCRIPT_ADDRESS ++ id.data).length =
      20 + (params.base58Prefixes .SCRIPT_ADDRESS).length := by
    rw [List.length_append, id.size_eq, Nat.add_comm]
  simp only [decodeLegacyAddr, decoded, Checked.ok_bind, notKey, and_false, dif_neg, not_false_eq_true,
    sized, List.take_left', and_self, dif_pos, List.drop_left']
  rfl

theorem decodeDestination_legacy (versions : LegacyVersions params) {dst : CTxDestination}
    (valid : dst ≠ .CNoDestination) :
    ∃ s, encodeLegacyAddr dst params = .ok s ∧ decodeDestination s params = .ok dst := by
  have fallback : ∀ s, ':' ∉ s → 8 ≤ s.length → s.length ≤ 35 →
      decodeDestination s params = decodeLegacyAddr s params := by
    intro s noSep long short
    simp only [decodeDestination, decodeCashAddr_no_separator params noSep long short,
      Checked.ok_bind, isValidDestination, Bool.false_eq_true, if_false]
  cases dst with
  | CNoDestination => exact absurd rfl valid
  | CKeyID id =>
    obtain ⟨s, encoded, decoded, noSep, long, short⟩ := encodeBase58Check_legacy versions .PUBKEY_ADDRESS id
    exact ⟨s, encoded, (fallback s noSep long short).trans (decodeLegacyAddr_pubkey decoded)⟩
  | CScriptID id =>
    obtain ⟨s, encoded, decoded, noSep, long, short⟩ := encodeBase58Check_legacy versions .SCRIPT_ADDRESS id
    exact ⟨s, encoded, (fallback s noSep long short).trans (decodeLegacyAddr_script versions decoded)⟩

end Legacy

theorem decodeDestination_encodeLegacyAddr (network : Network) (dst : CTxDestination)
    (valid : dst ≠ .CNoDestination) :
    ∃ s, encodeLegacyAddr dst (params network) = .ok s ∧
      decodeDestination s (params network) = .ok dst :=
  decodeDestination_legacy (legacyVersions_params network) valid

theorem decodeDestination_encodeLegacyAddr_main_script :
    CTxDestination.CScriptID ⟨[0xad, 0xdb, 0x00, 0x0f] ++ List.replicate 16 0, rfl⟩ ≠
        .CNoDestination ∧
      ∃ s, encodeLegacyAddr (.CScriptID ⟨[0xad, 0xdb, 0x00, 0x0f] ++ List.replicate 16 0, rfl⟩)
          (params .main) = .ok s ∧
        decodeDestination s (params .main) =
          .ok (.CScriptID ⟨[0xad, 0xdb, 0x00, 0x0f] ++ List.replicate 16 0, rfl⟩) :=
  ⟨by simp, decodeDestination_encodeLegacyAddr .main _ (by simp)⟩

theorem isValidDestination_of_ne {dst : CTxDestination} (valid : dst ≠ .CNoDestination) :
    isValidDestination dst = true := by
  cases dst with
  | CNoDestination => exact absurd rfl valid
  | CKeyID _ | CScriptID _ => rfl

theorem charset_getD_ne (n : Nat) : CashAddr.charset.getD n 'q' ≠ Char.ofNat 0 := by
  rw [List.getD_eq_getElem?_getD]
  cases found : CashAddr.charset[n]? with
  | none => decide
  | some c =>
    intro nul
    have mem := List.mem_of_getElem? found
    rw [Option.getD_some] at nul
    rw [nul] at mem
    exact absurd mem (by decide)

theorem encodeCashAddr_shape {dst : CTxDestination} (valid : dst ≠ .CNoDestination)
    (params : CChainParams) :
    ∃ rest, encodeCashAddr dst params = .ok (params.cashaddrPrefix.toList ++ ':' :: rest) ∧
      ∀ c ∈ rest, c ≠ Char.ofNat 0 := by
  obtain ⟨id, type, hash⟩ := hasHash_of_ne valid
  refine ⟨_, encodeCashAddr_ok hash params, ?_⟩
  intro c mem
  obtain ⟨v, -, rfl⟩ := List.mem_map.mp mem
  exact charset_getD_ne v.toNat

theorem decodeLegacyAddr_separator {str : List Char} (params : CChainParams)
    (noNul : ∀ c ∈ str, c ≠ Char.ofNat 0) (sep : ':' ∈ str)
    (ones : ((str.dropWhile Base58.isSpace).takeWhile (· == '1')).length < 2 ^ 31) :
    decodeLegacyAddr str params = .ok .CNoDestination := by
  have rejected : Base58.decodeBase58 str = .ok none :=
    Base58.decodeBase58_of_mem sep (by decide) (by decide) ones
  simp only [decodeLegacyAddr, Base58.decodeBase58Check, cStr_of_ne noNul, rejected,
    Checked.ok_bind]
  rfl

theorem decodeDestination_encodeCashAddr_of_lower {params : CChainParams}
    (nonempty : params.cashaddrPrefix.toList ≠ [])
    (lower : ∀ c ∈ params.cashaddrPrefix.toList, 'a' ≤ c ∧ c ≤ 'z')
    {dst : CTxDestination} (valid : dst ≠ .CNoDestination) :
    ∃ addr, encodeCashAddr dst params = .ok addr ∧ decodeCashAddr addr params = .ok dst ∧
      decodeDestination addr params = .ok dst := by
  obtain ⟨addr, encoded, decoded⟩ := decodeCashAddr_encodeCashAddr_of_lower nonempty lower valid
  refine ⟨addr, encoded, decoded, ?_⟩
  simp only [decodeDestination, decoded, Checked.ok_bind, isValidDestination_of_ne valid, if_true]
  rfl

theorem decodeDestination_main {dst : CTxDestination} (valid : dst ≠ .CNoDestination) :
    ∃ addr, encodeCashAddr dst mainParams = .ok addr ∧
      decodeCashAddr addr mainParams = .ok .CNoDestination ∧
      decodeDestination addr mainParams = .ok .CNoDestination := by
  obtain ⟨rest, encoded, noNul⟩ := encodeCashAddr_shape valid mainParams
  have decoded := decodeCashAddr_main (':' :: rest)
  refine ⟨_, encoded, decoded, ?_⟩
  have gaia : mainParams.cashaddrPrefix.toList = ['G', 'a', 'i', 'a'] := by decide
  have visible : ∀ c ∈ mainParams.cashaddrPrefix.toList ++ ':' :: rest, c ≠ Char.ofNat 0 := by
    intro c mem
    rw [gaia] at mem
    rcases List.mem_append.mp mem with named | tail
    · intro nul
      rw [nul] at named
      exact absurd named (by decide)
    rcases List.mem_cons.mp tail with sep | later
    · rw [sep]
      decide
    · exact noNul c later
  simp only [decodeDestination, decoded, Checked.ok_bind, isValidDestination, Bool.false_eq_true,
    if_false]
  -- the string starts with the prefix's `G`
  exact decodeLegacyAddr_separator mainParams visible (by simp) (by
    rw [gaia, List.cons_append, List.dropWhile_cons_of_neg (by decide),
      List.takeWhile_cons_of_neg (by decide)]
    simp)

theorem decodeDestination_encodeCashAddr (network : Network) (dst : CTxDestination)
    (valid : dst ≠ .CNoDestination) :
    ∃ addr, encodeCashAddr dst (params network) = .ok addr ∧
      decodeCashAddr addr (params network) =
        .ok (if network = .main then .CNoDestination else dst) ∧
      decodeDestination addr (params network) =
        .ok (if network = .main then .CNoDestination else dst) := by
  cases network with
  | main => exact decodeDestination_main valid
  | testnet =>
    exact decodeDestination_encodeCashAddr_of_lower (by simp [params, testNetParams])
      (by simp [params, testNetParams]) valid
  | regtest =>
    exact decodeDestination_encodeCashAddr_of_lower (by simp [params, regTestParams])
      (by simp [params, regTestParams]) valid

theorem decodeDestination_encodeCashAddr_badf00d :
    CTxDestination.CKeyID ⟨[0x0d, 0xf0, 0xad, 0x0b] ++ List.replicate 16 0, rfl⟩ ≠
        .CNoDestination ∧
      ∃ addr, encodeCashAddr (.CKeyID ⟨[0x0d, 0xf0, 0xad, 0x0b] ++ List.replicate 16 0, rfl⟩)
          (params .main) = .ok addr ∧
        decodeCashAddr addr (params .main) = .ok .CNoDestination ∧
        decodeDestination addr (params .main) = .ok .CNoDestination :=
  ⟨by simp, decodeDestination_encodeCashAddr .main _ (by simp)⟩

end Gaiacoin
