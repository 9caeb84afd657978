import Gaiacoin.Consensus.Pow
import Gaiacoin.Coins.CCoins
import Gaiacoin.Shared.Sha256

set_option autoImplicit false

/-!
# `pos.cpp`: the stake kernel

`CheckStakeKernelHash` accepts a kernel when the double SHA-256 of the stake
modifier, the staked output's time and outpoint and the transaction time is at
most the target times the staked value. The product is the 256-bit
`operator*=`, which wraps: it is exact, and acceptance monotone in the value,
only while the product stays below `2 ^ 256`.
-/

namespace Gaiacoin

namespace Kernel

/-- `ss << nStakeModifier << txPrev->nTime << prevout.hash << prevout.n << nTimeTx`,
then `ss.GetHash()`. -/
def hashProofOfStake (nStakeModifier : Uint256) (nTimePrev : UInt32) (prevout : COutPoint)
    (nTimeTx : UInt32) : Uint256 :=
  ⟨Sha256.hash256 (nStakeModifier.data ++ Wire.leBytes 4 nTimePrev.toNat ++ prevout.hash.data ++
      Wire.leBytes 4 prevout.n.toNat ++ Wire.leBytes 4 nTimeTx.toNat), Sha256.length_hash256 _⟩

/-- `bnTarget.SetCompact(nBits); bnTarget *= arith_uint256(nValueIn)`, the value
through `base_uint(uint64_t)`. -/
def weightedTarget (nBits : UInt32) (nValueIn : CAmount) : ArithUint256 :=
  (ArithUint256.setCompact nBits).bn.mulAssign (BaseUint.ofUInt64 nValueIn.toUInt64 ArithUint256.wide)

/-- `CheckStakeKernelHash`, without its logging. Its `error(...)` returns are
`false`; reading `vout` past its end is undefined. -/
def checkStakeKernelHash (pindexPrev : CBlockIndex) (nBits : UInt32) (txPrev : CCoins)
    (prevout : COutPoint) (nTimeTx : UInt32) : Checked Bool :=
  if nTimeTx < txPrev.nTime then pure false
  else
    match txPrev.vout[prevout.n.toNat]? with
    | none => throw .outOfRange
    | some out =>
      if out.nValue = 0 then pure false
      else
        let bnTarget := weightedTarget nBits out.nValue
        let hash := hashProofOfStake pindexPrev.nStakeModifier txPrev.nTime prevout nTimeTx
        if (uintToArith256 hash).gt bnTarget then pure false else pure true

theorem value_weightedTarget (nBits : UInt32) {nValueIn : CAmount} (nonneg : 0 ≤ nValueIn) :
    (weightedTarget nBits nValueIn).value =
      (ArithUint256.setCompact nBits).bn.value * nValueIn.toNatClampNeg % 2 ^ 256 := by
  rw [weightedTarget, BaseUint.value_mulAssign, BaseUint.value_ofUInt64,
    Int64.toNat_toUInt64_of_le nonneg]

theorem checkStakeKernelHash_eq (pindexPrev : CBlockIndex) (nBits : UInt32) {txPrev : CCoins}
    {prevout : COutPoint} {nTimeTx : UInt32} {out : CTxOut}
    (stake : txPrev.vout[prevout.n.toNat]? = some out) (inTime : txPrev.nTime ≤ nTimeTx) :
    checkStakeKernelHash pindexPrev nBits txPrev prevout nTimeTx =
      .ok (out.nValue != 0 &&
        decide (Wire.readLE (hashProofOfStake pindexPrev.nStakeModifier txPrev.nTime prevout
          nTimeTx).data ≤ (weightedTarget nBits out.nValue).value)) := by
  unfold checkStakeKernelHash
  rw [if_neg (UInt32.not_lt.mpr inTime), stake]
  by_cases zero : out.nValue = 0
  · simp only [zero, if_true, bne_self_eq_false, Bool.false_and]
    rfl
  · have nonzero : (out.nValue != 0) = true := bne_iff_ne.mpr zero
    simp only [zero, if_false, BaseUint.gt_eq, value_uintToArith256, nonzero, Bool.true_and]
    by_cases above : (weightedTarget nBits out.nValue).value <
        Wire.readLE (hashProofOfStake pindexPrev.nStakeModifier txPrev.nTime prevout nTimeTx).data
    · rw [decide_eq_true above, if_pos rfl, decide_eq_false (Nat.not_le.mpr above)]
      rfl
    · rw [decide_eq_false above, if_neg Bool.false_ne_true, decide_eq_true (Nat.le_of_not_lt above)]
      rfl

theorem checkStakeKernelHash_accepts {pindexPrev : CBlockIndex} {nBits : UInt32} {txPrev : CCoins}
    {prevout : COutPoint} {nTimeTx : UInt32}
    (accepted : checkStakeKernelHash pindexPrev nBits txPrev prevout nTimeTx = .ok true) :
    txPrev.nTime ≤ nTimeTx ∧ ∃ out, txPrev.vout[prevout.n.toNat]? = some out ∧ out.nValue ≠ 0 ∧
      Wire.readLE (hashProofOfStake pindexPrev.nStakeModifier txPrev.nTime prevout nTimeTx).data ≤
        (weightedTarget nBits out.nValue).value := by
  have inTime : txPrev.nTime ≤ nTimeTx := by
    by_contra early
    unfold checkStakeKernelHash at accepted
    rw [if_pos (UInt32.not_le.mp early)] at accepted
    cases accepted
  cases stake : txPrev.vout[prevout.n.toNat]? with
  | none =>
    unfold checkStakeKernelHash at accepted
    rw [if_neg (UInt32.not_lt.mpr inTime), stake] at accepted
    cases accepted
  | some out =>
    rw [checkStakeKernelHash_eq pindexPrev nBits stake inTime, Except.ok.injEq, Bool.and_eq_true,
      bne_iff_ne, decide_eq_true_eq] at accepted
    exact ⟨inTime, out, rfl, accepted⟩

theorem checkStakeKernelHash_monotone_of_fits (pindexPrev : CBlockIndex) (nBits : UInt32)
    (txPrev txPrev' : CCoins) (prevout : COutPoint) (nTimeTx : UInt32) (v v' : CAmount)
    (sameTime : txPrev'.nTime = txPrev.nTime)
    (stake : (txPrev.vout[prevout.n.toNat]?).map CTxOut.nValue = some v)
    (stake' : (txPrev'.vout[prevout.n.toNat]?).map CTxOut.nValue = some v')
    (positive : 0 < v) (larger : v ≤ v')
    (fits : (ArithUint256.setCompact nBits).bn.value * v'.toNatClampNeg < 2 ^ 256) :
    (weightedTarget nBits v).value = (ArithUint256.setCompact nBits).bn.value * v.toNatClampNeg ∧
      (weightedTarget nBits v').value =
        (ArithUint256.setCompact nBits).bn.value * v'.toNatClampNeg ∧
      (checkStakeKernelHash pindexPrev nBits txPrev prevout nTimeTx = .ok true →
        checkStakeKernelHash pindexPrev nBits txPrev' prevout nTimeTx = .ok true) := by
  obtain ⟨out, get, rfl⟩ := Option.map_eq_some_iff.mp stake
  obtain ⟨out', get', rfl⟩ := Option.map_eq_some_iff.mp stake'
  have bounded : (ArithUint256.setCompact nBits).bn.value * out.nValue.toNatClampNeg ≤
      (ArithUint256.setCompact nBits).bn.value * out'.nValue.toNatClampNeg :=
    Nat.mul_le_mul_left _ (Int64.toNatClampNeg_le larger)
  have exact := value_weightedTarget nBits (Int64.le_of_lt positive)
  rw [Nat.mod_eq_of_lt (lt_of_le_of_lt bounded fits)] at exact
  have exact' := value_weightedTarget nBits (Int64.le_trans (Int64.le_of_lt positive) larger)
  rw [Nat.mod_eq_of_lt fits] at exact'
  refine ⟨exact, exact', fun accepted => ?_⟩
  obtain ⟨inTime, found, get₀, _, within⟩ := checkStakeKernelHash_accepts accepted
  rw [get, Option.some.injEq] at get₀
  subst get₀
  -- the same hash against a target at least as large
  have nonzero : (out'.nValue != 0) = true :=
    bne_iff_ne.mpr (Int64.ne_of_lt (Int64.lt_of_lt_of_le positive larger)).symm
  rw [checkStakeKernelHash_eq pindexPrev nBits get' (sameTime ▸ inTime), sameTime, nonzero,
    Bool.true_and, exact']
  rw [exact] at within
  rw [decide_eq_true (le_trans within bounded)]

set_option maxRecDepth 10000 in
theorem readLE_hashProofOfStake_zero :
    Wire.readLE (hashProofOfStake Uint256.zero 0 ⟨Uint256.zero, 0⟩ 0).data =
      12264864743695745947415485848841542687633683475994935119038457921302693227391 := by
  decide

theorem checkStakeKernelHash_zero_stake :
    checkStakeKernelHash ⟨0, 0, Uint256.zero⟩ 0x1e0fffff ⟨false, false, [⟨2 ^ 20, []⟩], 0, 0, 0⟩
      ⟨Uint256.zero, 0⟩ 0 = .ok true := by
  rw [checkStakeKernelHash_eq _ _ rfl (UInt32.le_refl _)]
  dsimp only
  rw [readLE_hashProofOfStake_zero]
  decide

theorem checkStakeKernelHash_wraps :
    0 < (ArithUint256.setCompact 0x1e0fffff).bn.value ∧
      (ArithUint256.setCompact 0x1e0fffff).bn.value ≤
        (uintToArith256 (params .main).consensus.posLimit).value ∧
      (0 : CAmount) < 2 ^ 20 ∧ (2 ^ 20 : CAmount) < 2 ^ 20 + 2 ∧ (2 ^ 20 + 2 : CAmount) ≤ maxMoney ∧
      (weightedTarget 0x1e0fffff (2 ^ 20 + 2)).value ≠
        (ArithUint256.setCompact 0x1e0fffff).bn.value * (2 ^ 20 + 2) ∧
      checkStakeKernelHash ⟨0, 0, Uint256.zero⟩ 0x1e0fffff ⟨false, false, [⟨2 ^ 20, []⟩], 0, 0, 0⟩
        ⟨Uint256.zero, 0⟩ 0 = .ok true ∧
      checkStakeKernelHash ⟨0, 0, Uint256.zero⟩ 0x1e0fffff ⟨false, false, [⟨2 ^ 20 + 2, []⟩], 0, 0, 0⟩
        ⟨Uint256.zero, 0⟩ 0 = .ok false := by
  refine ⟨by decide, by decide, by decide, by decide, by decide, by decide,
    checkStakeKernelHash_zero_stake, ?_⟩
  rw [checkStakeKernelHash_eq _ _ rfl (UInt32.le_refl _)]
  dsimp only
  rw [readLE_hashProofOfStake_zero]
  decide

theorem checkStakeKernelHash_monotone_of_fits_zero_stake :
    (0 : CAmount) < 2 ^ 20 ∧ (2 ^ 20 : CAmount) ≤ 2 ^ 20 + 1 ∧
      (ArithUint256.setCompact 0x1e0fffff).bn.value * (2 ^ 20 + 1 : CAmount).toNatClampNeg <
        2 ^ 256 ∧
      checkStakeKernelHash ⟨0, 0, Uint256.zero⟩ 0x1e0fffff ⟨false, false, [⟨2 ^ 20, []⟩], 0, 0, 0⟩
        ⟨Uint256.zero, 0⟩ 0 = .ok true ∧
      ((weightedTarget 0x1e0fffff (2 ^ 20)).value =
          (ArithUint256.setCompact 0x1e0fffff).bn.value * (2 ^ 20 : CAmount).toNatClampNeg ∧
        (weightedTarget 0x1e0fffff (2 ^ 20 + 1)).value =
          (ArithUint256.setCompact 0x1e0fffff).bn.value * (2 ^ 20 + 1 : CAmount).toNatClampNeg ∧
        (checkStakeKernelHash ⟨0, 0, Uint256.zero⟩ 0x1e0fffff
            ⟨false, false, [⟨2 ^ 20, []⟩], 0, 0, 0⟩ ⟨Uint256.zero, 0⟩ 0 = .ok true →
          checkStakeKernelHash ⟨0, 0, Uint256.zero⟩ 0x1e0fffff
            ⟨false, false, [⟨2 ^ 20 + 1, []⟩], 0, 0, 0⟩ ⟨Uint256.zero, 0⟩ 0 = .ok true)) :=
  ⟨by decide, by decide, by decide, checkStakeKernelHash_zero_stake,
    checkStakeKernelHash_monotone_of_fits ⟨0, 0, Uint256.zero⟩ 0x1e0fffff
      ⟨false, false, [⟨2 ^ 20, []⟩], 0, 0, 0⟩ ⟨false, false, [⟨2 ^ 20 + 1, []⟩], 0, 0, 0⟩
      ⟨Uint256.zero, 0⟩ 0 (2 ^ 20) (2 ^ 20 + 1) rfl rfl rfl (by decide) (by decide) (by decide)⟩

end Kernel

end Gaiacoin
