import Gaiacoin.Consensus.Params

set_option autoImplicit false

/-!
# `pow.cpp`: the next target

`CalculateNextTargetRequired` moves the last target towards the target spacing:
it multiplies by `(nInterval - 1) * spacing + 2 * nActualSpacing` and divides by
`(nInterval + 1) * spacing`, with `nActualSpacing` clamped to `[0, 10 * spacing]`
once protocol V3 is on. The multiplication takes the `uint32_t` overload of
`operator*=`, so the `int64_t` factor is narrowed to 32 bits; the division goes
through `base_uint(uint64_t)`.

`int64_t` arithmetic is on `Int`: block times are `uint32_t` header times, and
every intermediate value stays far inside the `int64_t` range.
-/

namespace Gaiacoin

/-- The fields of `CBlockIndex` that retargeting and the stake kernel read. -/
structure CBlockIndex where
  nTime : UInt32
  nBits : UInt32
  nStakeModifier : Uint256

def CBlockIndex.getBlockTime (block : CBlockIndex) : Int := block.nTime.toNat

namespace Pow

open Consensus

def getTargetLimit (nTime : Int) (params : Consensus.Params) (fProofOfStake : Bool) : ArithUint256 :=
  let nLimit :=
    if fProofOfStake then
      if params.isProtocolV2 nTime then params.posLimitV2 else params.posLimit
    else params.powLimit
  uintToArith256 nLimit

/-- `fPoSNoRetargeting` or `fPowNoRetargeting`, by block type. -/
def noRetargeting (params : Consensus.Params) (fProofOfStake : Bool) : Bool :=
  if fProofOfStake then params.fPoSNoRetargeting else params.fPowNoRetargeting

/-- `nTargetSpacing`. -/
def targetSpacing (params : Consensus.Params) (nTime : Int) : Int :=
  if params.isProtocolV2 nTime then params.nTargetSpacing else params.nTargetSpacingV1

/-- `nActualSpacing` after the two clamps of the adjustment step. -/
def actualSpacing (params : Consensus.Params) (nTime nFirstBlockTime : Int) : Int :=
  let nTargetSpacing := targetSpacing params nTime
  let nActualSpacing := nTime - nFirstBlockTime
  let nActualSpacing :=
    if params.isProtocolV1RetargetingFixed nTime && decide (nActualSpacing < 0) then nTargetSpacing
    else nActualSpacing
  if params.isProtocolV3 nTime && decide (nActualSpacing > nTargetSpacing * 10) then nTargetSpacing * 10
  else nActualSpacing

/-- `nInterval`; `int64_t` division rounds towards zero. -/
def interval (params : Consensus.Params) (nTime : Int) : Int :=
  params.nTargetTimespan.tdiv (targetSpacing params nTime)

/-- The factor `bnNew *=` is given. -/
def retargetFactor (params : Consensus.Params) (nTime nFirstBlockTime : Int) : Int :=
  let nActualSpacing := actualSpacing params nTime nFirstBlockTime
  (interval params nTime - 1) * targetSpacing params nTime + nActualSpacing + nActualSpacing

/-- The divisor `bnNew /=` is given. -/
def retargetDivisor (params : Consensus.Params) (nTime : Int) : Int :=
  (interval params nTime + 1) * targetSpacing params nTime

/-- `CalculateNextTargetRequired`. The faults are the `uint_error` of a zero
divisor and the `assert`s of `GetCompact`. -/
def calculateNextTargetRequired (pindexLast : CBlockIndex) (nFirstBlockTime : Int)
    (params : Consensus.Params) (fProofOfStake : Bool) : Checked UInt32 :=
  if noRetargeting params fProofOfStake then pure pindexLast.nBits
  else do
    let nTime := pindexLast.getBlockTime
    let bnTargetLimit := getTargetLimit nTime params fProofOfStake
    let bnNew := (ArithUint256.setCompact pindexLast.nBits).bn
    let bnNew := bnNew.mulAssign32 (UInt32.ofInt (retargetFactor params nTime nFirstBlockTime))
    let bnNew ← bnNew.divAssign
      (BaseUint.ofUInt64 (UInt64.ofInt (retargetDivisor params nTime)) ArithUint256.wide)
    let bnNew :=
      if bnNew.le (BaseUint.ofUInt64 0 ArithUint256.wide) || bnNew.gt bnTargetLimit then bnTargetLimit
      else bnNew
    bnNew.getCompact false

theorem limits_lt (network : Network) :
    Wire.readLE (params network).consensus.powLimit.data < 2 ^ 240 ∧
      Wire.readLE (params network).consensus.posLimit.data < 2 ^ 240 ∧
      Wire.readLE (params network).consensus.posLimitV2.data < 2 ^ 240 := by
  cases network <;>
    simp (disch := norm_num) only [params, mainParams, testNetParams, regTestParams,
      readLE_uint256S] <;>
    norm_num

theorem value_getTargetLimit_lt (network : Network) (nTime : Int) (fProofOfStake : Bool) :
    (getTargetLimit nTime (params network).consensus fProofOfStake).value < 2 ^ 240 := by
  obtain ⟨pow, pos, posV2⟩ := limits_lt network
  unfold getTargetLimit
  rw [value_uintToArith256]
  split_ifs <;> assumption

structure Retargets (params : Consensus.Params) (nTime : Int) : Prop where
  fixed : params.isProtocolV1RetargetingFixed nTime = true
  capped : params.isProtocolV3 nTime = true
  spacing_pos : 0 < targetSpacing params nTime
  spacing_le : targetSpacing params nTime ≤ 180
  interval_eq : interval params nTime = 10

theorem switches_of_afterV3 (network : Network) {nTime : Int}
    (after : (params network).consensus.nProtocolV3Time < nTime) :
    (params network).consensus.isProtocolV1RetargetingFixed nTime = true ∧
      (params network).consensus.isProtocolV2 nTime = true ∧
      (params network).consensus.isProtocolV3 nTime = true := by
  have order : 1444028400 ≤ (params network).consensus.nProtocolV1RetargetingFixedTime ∧
      (params network).consensus.nProtocolV1RetargetingFixedTime ≤
        (params network).consensus.nProtocolV2Time ∧
      (params network).consensus.nProtocolV2Time ≤ (params network).consensus.nProtocolV3Time := by
    cases network <;> decide
  exact ⟨isProtocolAfter_of_lt (by omega) (by omega), isProtocolAfter_of_lt (by omega) (by omega),
    isProtocolAfter_of_lt after (by omega)⟩

theorem retargets_of_afterV3 (network : Network) {fProofOfStake : Bool} {nTime : Int}
    (retargets : noRetargeting (params network).consensus fProofOfStake = false)
    (after : (params network).consensus.nProtocolV3Time < nTime) :
    Retargets (params network).consensus nTime := by
  obtain ⟨fixed, v2, v3⟩ := switches_of_afterV3 network after
  have spacing : targetSpacing (params network).consensus nTime =
      (params network).consensus.nTargetSpacing := by
    rw [targetSpacing, v2, if_pos rfl]
  have notRegtest : network ≠ .regtest := by
    rintro rfl
    cases fProofOfStake <;> cases retargets
  -- spacings of three minutes and one, ten of them to the timespan
  have shape : network ≠ .regtest → 0 < (params network).consensus.nTargetSpacing ∧
      (params network).consensus.nTargetSpacing ≤ 180 ∧
      (params network).consensus.nTargetTimespan.tdiv (params network).consensus.nTargetSpacing =
        10 := by
    cases network <;> decide
  obtain ⟨positive, small, ten⟩ := shape notRegtest
  exact ⟨fixed, v3, spacing ▸ positive, spacing ▸ small, by rw [interval, spacing, ten]⟩

section Retargeting

variable {params : Consensus.Params} {nTime : Int}

theorem actualSpacing_mem (nFirstBlockTime : Int) (facts : Retargets params nTime) :
    0 ≤ actualSpacing params nTime nFirstBlockTime ∧
      actualSpacing params nTime nFirstBlockTime ≤ targetSpacing params nTime * 10 := by
  have positive := facts.spacing_pos
  unfold actualSpacing
  simp only [facts.fixed, facts.capped, Bool.true_and, decide_eq_true_eq]
  split_ifs <;> omega

theorem retargetFactor_mem (nFirstBlockTime : Int) (facts : Retargets params nTime) :
    9 * targetSpacing params nTime ≤ retargetFactor params nTime nFirstBlockTime ∧
      retargetFactor params nTime nFirstBlockTime ≤ 29 * targetSpacing params nTime := by
  obtain ⟨low, high⟩ := actualSpacing_mem nFirstBlockTime facts
  simp only [retargetFactor, facts.interval_eq]
  omega

theorem retargetDivisor_eq (facts : Retargets params nTime) :
    retargetDivisor params nTime = 11 * targetSpacing params nTime := by
  rw [retargetDivisor, facts.interval_eq]
  ring

theorem toNat_retargetFactor (nFirstBlockTime : Int) (facts : Retargets params nTime) :
    (UInt32.ofInt (retargetFactor params nTime nFirstBlockTime)).toNat =
      (retargetFactor params nTime nFirstBlockTime).toNat := by
  obtain ⟨low, high⟩ := retargetFactor_mem nFirstBlockTime facts
  have small := facts.spacing_le
  have positive := facts.spacing_pos
  rw [UInt32.ofInt, UInt32.toNat_ofNat', Int.emod_eq_of_lt (by omega) (by omega)]
  omega

theorem mul_retargetFactor_lt (nFirstBlockTime : Int) (facts : Retargets params nTime)
    {target : Nat} (small : target < 2 ^ 240) :
    target * (retargetFactor params nTime nFirstBlockTime).toNat < 2 ^ 256 := by
  obtain ⟨_, high⟩ := retargetFactor_mem nFirstBlockTime facts
  have spacing := facts.spacing_le
  have factor : (retargetFactor params nTime nFirstBlockTime).toNat ≤ 2 ^ 16 := by omega
  calc target * (retargetFactor params nTime nFirstBlockTime).toNat
      ≤ target * 2 ^ 16 := Nat.mul_le_mul_left _ factor
    _ < 2 ^ 240 * 2 ^ 16 := Nat.mul_lt_mul_of_pos_right small (by positivity)
    _ = 2 ^ 256 := by norm_num

theorem value_divisor (facts : Retargets params nTime) :
    (BaseUint.ofUInt64 (UInt64.ofInt (retargetDivisor params nTime)) (by decide) :
      ArithUint256).value = (retargetDivisor params nTime).toNat := by
  have spacing := facts.spacing_le
  have positive := facts.spacing_pos
  rw [BaseUint.value_ofUInt64, UInt64.ofInt, UInt64.toNat_ofNat', retargetDivisor_eq facts,
    Int.emod_eq_of_lt (by omega) (by omega)]
  omega

end Retargeting

def clampedTarget (quotient limit : Nat) : Nat := if quotient = 0 then limit else min limit quotient

theorem clampedTarget_le (quotient limit : Nat) : clampedTarget quotient limit ≤ limit := by
  unfold clampedTarget
  split_ifs <;> omega

theorem value_clamp (quotient bnTargetLimit : ArithUint256) :
    (if quotient.le (BaseUint.ofUInt64 0 (by decide)) || quotient.gt bnTargetLimit then bnTargetLimit
      else quotient).value = clampedTarget quotient.value bnTargetLimit.value := by
  rw [BaseUint.le_eq, BaseUint.gt_eq, BaseUint.value_ofUInt64, UInt64.toNat_zero, clampedTarget]
  by_cases zero : quotient.value = 0
  · simp [zero]
  · by_cases above : bnTargetLimit.value < quotient.value
    · simp [zero, above, Nat.min_eq_left (Nat.le_of_lt above)]
    · simp [zero, above, Nat.min_eq_right (Nat.le_of_not_lt above)]

section Retargeting

variable {params : Consensus.Params} {nTime : Int}

theorem calculateNextTargetRequired_eq {fProofOfStake : Bool} {pindexLast : CBlockIndex}
    (nFirstBlockTime : Int) (retargets : noRetargeting params fProofOfStake = false)
    (facts : Retargets params pindexLast.getBlockTime)
    (small : (ArithUint256.setCompact pindexLast.nBits).bn.value < 2 ^ 240) :
    calculateNextTargetRequired pindexLast nFirstBlockTime params fProofOfStake =
      .ok (compactOf (clampedTarget
        ((ArithUint256.setCompact pindexLast.nBits).bn.value *
            (retargetFactor params pindexLast.getBlockTime nFirstBlockTime).toNat /
          (retargetDivisor params pindexLast.getBlockTime).toNat)
        (getTargetLimit pindexLast.getBlockTime params fProofOfStake).value)).toUInt32 := by
  have keep : (noRetargeting params fProofOfStake = true) = False := by
    rw [retargets]
    decide
  unfold calculateNextTargetRequired
  simp only [keep, if_false]
  set bnNew := (ArithUint256.setCompact pindexLast.nBits).bn
  -- the factor is not narrowed and the product does not wrap
  have product : (bnNew.mulAssign32
      (UInt32.ofInt (retargetFactor params pindexLast.getBlockTime nFirstBlockTime))).value =
      bnNew.value * (retargetFactor params pindexLast.getBlockTime nFirstBlockTime).toNat := by
    rw [BaseUint.value_mulAssign32, toNat_retargetFactor _ facts, Nat.mul_comm]
    exact Nat.mod_eq_of_lt (mul_retargetFactor_lt _ facts small)
  have divisor : 0 < (BaseUint.ofUInt64 (UInt64.ofInt (retargetDivisor params pindexLast.getBlockTime))
      (by decide) : ArithUint256).value := by
    have positive := facts.spacing_pos
    rw [value_divisor facts, retargetDivisor_eq facts]
    omega
  obtain ⟨quotient, divided, value⟩ := BaseUint.divAssign_of_pos _ _ divisor
  rw [product, value_divisor facts] at value
  simp only [divided, Checked.ok_bind, ArithUint256.getCompact_false, value_clamp, value]

end Retargeting

theorem calculateNextTargetRequired_in_range (network : Network) (fProofOfStake : Bool)
    (pindexLast : CBlockIndex) (nFirstBlockTime : UInt32)
    (retargets : noRetargeting (params network).consensus fProofOfStake = false)
    (afterV3 : (params network).consensus.nProtocolV3Time < pindexLast.getBlockTime)
    (withinLimit : (ArithUint256.setCompact pindexLast.nBits).bn.value ≤
      (getTargetLimit pindexLast.getBlockTime (params network).consensus fProofOfStake).value) :
    let consensus := (params network).consensus
    let target := (ArithUint256.setCompact pindexLast.nBits).bn.value
    let factor := retargetFactor consensus pindexLast.getBlockTime (nFirstBlockTime.toNat : Int)
    1 ≤ factor ∧ factor < 2 ^ 32 ∧ (UInt32.ofInt factor).toNat = factor.toNat ∧
      target * factor.toNat < 2 ^ 256 ∧
      ∃ nCompact, calculateNextTargetRequired pindexLast (nFirstBlockTime.toNat : Int) consensus
          fProofOfStake = .ok nCompact ∧
        (ArithUint256.setCompact nCompact).bn.value =
          compactRounded (clampedTarget
            (target * factor.toNat / (retargetDivisor consensus pindexLast.getBlockTime).toNat)
            (getTargetLimit pindexLast.getBlockTime consensus fProofOfStake).value) := by
  dsimp only
  have facts := retargets_of_afterV3 network retargets afterV3
  have limit := value_getTargetLimit_lt network pindexLast.getBlockTime fProofOfStake
  have small := lt_of_le_of_lt withinLimit limit
  obtain ⟨low, high⟩ := retargetFactor_mem (nFirstBlockTime.toNat : Int) facts
  have positive := facts.spacing_pos
  have spacing := facts.spacing_le
  refine ⟨by omega, by omega, toNat_retargetFactor _ facts, mul_retargetFactor_lt _ facts small, _,
    calculateNextTargetRequired_eq _ retargets facts small, ?_⟩
  -- the clamped value is at most the limit, so it fits the compact form
  exact ArithUint256.value_setCompact_compactOf
    (lt_of_le_of_lt (clampedTarget_le _ _) (lt_trans limit (by norm_num)))

theorem calculateNextTargetRequired_in_range_main :
    noRetargeting (params .main).consensus true = false ∧
      (params .main).consensus.nProtocolV3Time < CBlockIndex.getBlockTime ⟨1712050000, 0x1d00ffff, Uint256.zero⟩ ∧
      (ArithUint256.setCompact 0x1d00ffff).bn.value ≤
        (getTargetLimit (CBlockIndex.getBlockTime ⟨1712050000, 0x1d00ffff, Uint256.zero⟩) (params .main).consensus
          true).value ∧
      let consensus := (params .main).consensus
      let target := (ArithUint256.setCompact 0x1d00ffff).bn.value
      let factor := retargetFactor consensus (CBlockIndex.getBlockTime ⟨1712050000, 0x1d00ffff, Uint256.zero⟩)
        ((1712049800 : UInt32).toNat : Int)
      1 ≤ factor ∧ factor < 2 ^ 32 ∧ (UInt32.ofInt factor).toNat = factor.toNat ∧
        target * factor.toNat < 2 ^ 256 ∧
        ∃ nCompact, calculateNextTargetRequired ⟨1712050000, 0x1d00ffff, Uint256.zero⟩
            ((1712049800 : UInt32).toNat : Int) consensus true = .ok nCompact ∧
          (ArithUint256.setCompact nCompact).bn.value =
            compactRounded (clampedTarget (target * factor.toNat /
                (retargetDivisor consensus (CBlockIndex.getBlockTime ⟨1712050000, 0x1d00ffff, Uint256.zero⟩)).toNat)
              (getTargetLimit (CBlockIndex.getBlockTime ⟨1712050000, 0x1d00ffff, Uint256.zero⟩) consensus
                true).value) :=
  ⟨by decide, by decide, by decide,
    calculateNextTargetRequired_in_range .main true ⟨1712050000, 0x1d00ffff, Uint256.zero⟩ 1712049800 (by decide)
      (by decide) (by decide)⟩

end Pow

end Gaiacoin
