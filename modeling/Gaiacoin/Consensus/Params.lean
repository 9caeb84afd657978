import Gaiacoin.Arith.ArithUint256

set_option autoImplicit false

/-!
# `consensus/params.h` and `chainparams.cpp`

The consensus parameters that retargeting reads, the address prefixes of the
three networks, and `Params(chain)`. A `uint256` constant is given by the number
its hex string spells.
-/

namespace Gaiacoin

/-- `uint256S` of the hex digits of `value`: its 32 little-endian bytes. -/
def uint256S (value : Nat) : Uint256 := ⟨Wire.leBytes 32 value, Wire.length_leBytes 32 value⟩

theorem readLE_uint256S {value : Nat} (fits : value < 2 ^ 256) :
    Wire.readLE (uint256S value).data = value :=
  Wire.readLE_leBytes 32 value (by norm_num; exact fits)

namespace Consensus

structure Params where
  powLimit : Uint256
  posLimit : Uint256
  posLimitV2 : Uint256
  nTargetSpacingV1 : Int
  fPowNoRetargeting : Bool
  fPoSNoRetargeting : Bool
  nTargetSpacing : Int
  nTargetTimespan : Int
  nProtocolV1RetargetingFixedTime : Int
  nProtocolV2Time : Int
  nProtocolV3Time : Int

/-- The protocol switches: on strictly after `switchTime`, except at the one
`skipped` time each of them names. -/
def isProtocolAfter (switchTime skipped nTime : Int) : Bool :=
  decide (nTime > switchTime) && nTime != skipped

theorem isProtocolAfter_of_lt {switchTime skipped nTime : Int} (after : switchTime < nTime)
    (earlier : skipped ≤ switchTime) : isProtocolAfter switchTime skipped nTime = true := by
  have other : nTime ≠ skipped := by omega
  simp [isProtocolAfter, after, other]

namespace Params

def isProtocolV1RetargetingFixed (p : Params) (nTime : Int) : Bool :=
  isProtocolAfter p.nProtocolV1RetargetingFixedTime 1395631999 nTime

def isProtocolV2 (p : Params) (nTime : Int) : Bool :=
  isProtocolAfter p.nProtocolV2Time 1407053678 nTime

def isProtocolV3 (p : Params) (nTime : Int) : Bool :=
  isProtocolAfter p.nProtocolV3Time 1444028400 nTime

end Params

end Consensus

/-- The two `CChainParams::Base58Type`s that destinations use. -/
inductive Base58Type
  | PUBKEY_ADDRESS
  | SCRIPT_ADDRESS
  deriving DecidableEq, Repr

structure CChainParams where
  consensus : Consensus.Params
  base58Prefixes : Base58Type → List UInt8
  cashaddrPrefix : String

/-- `CBaseChainParams::MAIN`, `TESTNET` and `REGTEST`. -/
inductive Network
  | main
  | testnet
  | regtest
  deriving DecidableEq, Repr

def mainParams : CChainParams where
  consensus :=
    { powLimit := uint256S 0x00000fffffffffffffffffffffffffffffffffffffffffffffffffffffffffff
      posLimit := uint256S 0x00000fffffffffffffffffffffffffffffffffffffffffffffffffffffffffff
      posLimitV2 := uint256S 0x00000fffffffffffffffffffffffffffffffffffffffffffffffffffffffffff
      nTargetTimespan := 30 * 60
      nTargetSpacingV1 := 3 * 60
      nTargetSpacing := 3 * 60
      fPowNoRetargeting := false
      fPoSNoRetargeting := false
      nProtocolV1RetargetingFixedTime := 1712046563
      nProtocolV2Time := 1712046564
      nProtocolV3Time := 1712046565 }
  base58Prefixes
    | .PUBKEY_ADDRESS => [38]
    | .SCRIPT_ADDRESS => [28]
  cashaddrPrefix := "Gaia"

def testNetParams : CChainParams where
  consensus :=
    { powLimit := uint256S 0x0000ffffffffffffffffffffffffffffffffffffffffffffffffffffffffffff
      posLimit := uint256S 0x00000fffffffffffffffffffffffffffffffffffffffffffffffffffffffffff
      posLimitV2 := uint256S 0x00000fffffffffffffffffffffffffffffffffffffffffffffffffffffffffff
      nTargetTimespan := 10 * 60
      nTargetSpacingV1 := 60
      nTargetSpacing := 60
      fPowNoRetargeting := false
      fPoSNoRetargeting := false
      nProtocolV1RetargetingFixedTime := 1712046570
      nProtocolV2Time := 1712046571
      nProtocolV3Time := 1712046572 }
  base58Prefixes
    | .PUBKEY_ADDRESS => [128]
    | .SCRIPT_ADDRESS => [65]
  cashaddrPrefix := "gaiatest"

def regTestParams : CChainParams where
  consensus :=
    { powLimit := uint256S 0x0000ffffffffffffffffffffffffffffffffffffffffffffffffffffffffffff
      posLimit := uint256S 0x00000fffffffffffffffffffffffffffffffffffffffffffffffffffffffffff
      posLimitV2 := uint256S 0x00000fffffffffffffffffffffffffffffffffffffffffffffffffffffffffff
      nTargetTimespan := 10 * 60
      nTargetSpacingV1 := 2 * 64
      nTargetSpacing := 2 * 60
      fPowNoRetargeting := true
      fPoSNoRetargeting := true
      nProtocolV1RetargetingFixedTime := 1712046570
      nProtocolV2Time := 1712046571
      nProtocolV3Time := 1712046572 }
  base58Prefixes
    | .PUBKEY_ADDRESS => [122]
    | .SCRIPT_ADDRESS => [60]
  cashaddrPrefix := "gaiareg"

/-- `Params(chain)`. -/
def params : Network → CChainParams
  | .main => mainParams
  | .testnet => testNetParams
  | .regtest => regTestParams

end Gaiacoin
