import Gaiacoin.Consensus.Chain
import Gaiacoin.Script.Interpreter

set_option autoImplicit false

/-!
# Lock times

A transaction can wait for a height or a time in two ways. `nLockTime` is
absolute: `IsFinalTx` lets the transaction into a block once its lock time has
passed, or when every input has `nSequence` at `SEQUENCE_FINAL`. An input's
`nSequence` is relative (BIP68): `CalculateSequenceLocks` turns the inputs'
locks into the last height and the last time at which the transaction is still
too early, counted from the blocks of the coins they spend, and
`EvaluateSequenceLocks` compares them with the block.

Scripts reach the same fields: `OP_CHECKLOCKTIMEVERIFY` and
`OP_CHECKSEQUENCEVERIFY` ask the `TransactionSignatureChecker` whether the
spending transaction's own lock is at least the operand. Both checks are sound:
a coin locked by either opcode is spent only in a block where the operand's lock
has passed.
-/

namespace Gaiacoin

/-- `LOCKTIME_THRESHOLD`: a lock time below it is a height, from it a time. -/
def LOCKTIME_THRESHOLD : Int := 500000000

namespace CTxIn

def SEQUENCE_FINAL : UInt32 := 0xffffffff

def SEQUENCE_LOCKTIME_DISABLE_FLAG : UInt32 := (1 : UInt32) <<< 31

def SEQUENCE_LOCKTIME_TYPE_FLAG : UInt32 := (1 : UInt32) <<< 22

def SEQUENCE_LOCKTIME_MASK : UInt32 := 0x0000ffff

def SEQUENCE_LOCKTIME_GRANULARITY : UInt32 := 9

end CTxIn

/-- `LOCKTIME_VERIFY_SEQUENCE`, the flag that makes BIP68 apply. -/
def LOCKTIME_VERIFY_SEQUENCE : Nat := 1 <<< 0

theorem toNat_and_mask_lt (sequence : UInt32) : (sequence &&& CTxIn.SEQUENCE_LOCKTIME_MASK).toNat < 2 ^ 16 := by
  rw [UInt32.toNat_and]
  exact Nat.lt_of_le_of_lt Nat.and_le_right (by decide)

theorem toNat_granularity (sequence : UInt32) :
    ((sequence &&& CTxIn.SEQUENCE_LOCKTIME_MASK) <<< CTxIn.SEQUENCE_LOCKTIME_GRANULARITY).toNat =
      (sequence &&& CTxIn.SEQUENCE_LOCKTIME_MASK).toNat * 512 := by
  have small := toNat_and_mask_lt sequence
  rw [UInt32.toNat_shiftLeft, show CTxIn.SEQUENCE_LOCKTIME_GRANULARITY.toNat % 32 = 9 by decide,
    Nat.shiftLeft_eq, Nat.mod_eq_of_lt (by omega)]

theorem land_natCast (a b : Nat) : Int.land a b = ((a &&& b : Nat) : Int) := rfl

theorem and_mask (x : Nat) : x &&& CTxIn.SEQUENCE_LOCKTIME_MASK.toNat = x % 2 ^ 16 := by
  rw [show CTxIn.SEQUENCE_LOCKTIME_MASK.toNat = 2 ^ 16 - 1 by decide, Nat.and_two_pow_sub_one_eq_mod]

theorem toNat_and_mask (sequence : UInt32) :
    (sequence &&& CTxIn.SEQUENCE_LOCKTIME_MASK).toNat = sequence.toNat % 2 ^ 16 := by
  rw [UInt32.toNat_and, and_mask]

theorem and_type_bne (x : Nat) : (x &&& CTxIn.SEQUENCE_LOCKTIME_TYPE_FLAG.toNat != 0) = x.testBit 22 := by
  rw [show CTxIn.SEQUENCE_LOCKTIME_TYPE_FLAG.toNat = 2 ^ 22 by decide, Nat.and_two_pow]
  cases x.testBit 22 <;> simp

theorem type_bne (sequence : UInt32) :
    (sequence &&& CTxIn.SEQUENCE_LOCKTIME_TYPE_FLAG != 0) = sequence.toNat.testBit 22 := by
  rw [← and_type_bne, ← UInt32.toNat_and]
  cases h : sequence &&& CTxIn.SEQUENCE_LOCKTIME_TYPE_FLAG == 0 <;>
    simp_all [bne, ← UInt32.toNat_inj]

theorem and_lockTimeMask (x : Nat) :
    x &&& (CTxIn.SEQUENCE_LOCKTIME_TYPE_FLAG ||| CTxIn.SEQUENCE_LOCKTIME_MASK).toNat =
      2 ^ 22 * (x.testBit 22).toNat + x % 2 ^ 16 := by
  have low : x % 2 ^ 16 < 2 ^ 22 := Nat.lt_of_lt_of_le (Nat.mod_lt _ (by decide)) (by decide)
  rw [show (CTxIn.SEQUENCE_LOCKTIME_TYPE_FLAG ||| CTxIn.SEQUENCE_LOCKTIME_MASK).toNat =
      2 ^ 22 ||| (2 ^ 16 - 1) by decide, Nat.and_or_distrib_left, Nat.and_two_pow_sub_one_eq_mod,
    Nat.and_two_pow, Nat.two_pow_add_eq_or_of_lt low, Nat.mul_comm]

/-- `IsFinalTx`. -/
def isFinalTx (tx : CTransaction) (nBlockHeight nBlockTime : Int) : Bool :=
  if tx.nLockTime = 0 then true
  else if (tx.nLockTime.toNat : Int) <
      (if (tx.nLockTime.toNat : Int) < LOCKTIME_THRESHOLD then nBlockHeight else nBlockTime) then true
  else tx.vin.all fun txin => txin.nSequence == CTxIn.SEQUENCE_FINAL

def lockBound (nLockTime nBlockHeight nBlockTime : Int) : Int :=
  if nLockTime < LOCKTIME_THRESHOLD then nBlockHeight else nBlockTime

theorem lockBound_mono {nLockTime nBlockHeight nBlockTime nBlockHeight' nBlockTime' : Int}
    (higher : nBlockHeight ≤ nBlockHeight') (later : nBlockTime ≤ nBlockTime') :
    lockBound nLockTime nBlockHeight nBlockTime ≤ lockBound nLockTime nBlockHeight' nBlockTime' := by
  unfold lockBound
  split_ifs <;> omega

theorem isFinalTx_iff (tx : CTransaction) (nBlockHeight nBlockTime : Int) :
    isFinalTx tx nBlockHeight nBlockTime = true ↔
      tx.nLockTime = 0 ∨ (tx.nLockTime.toNat : Int) < lockBound tx.nLockTime.toNat nBlockHeight nBlockTime ∨
        ∀ txin ∈ tx.vin, txin.nSequence = CTxIn.SEQUENCE_FINAL := by
  rw [isFinalTx, ← lockBound.eq_1]
  by_cases unset : tx.nLockTime = 0
  · simp [unset]
  · by_cases passed : (tx.nLockTime.toNat : Int) < lockBound tx.nLockTime.toNat nBlockHeight nBlockTime
    · simp [unset, passed]
    · simp [unset, passed]

theorem isFinalTx_mono {tx : CTransaction} {nBlockHeight nBlockTime nBlockHeight' nBlockTime' : Int}
    (final : isFinalTx tx nBlockHeight nBlockTime = true) (higher : nBlockHeight ≤ nBlockHeight')
    (later : nBlockTime ≤ nBlockTime') : isFinalTx tx nBlockHeight' nBlockTime' = true := by
  rw [isFinalTx_iff] at final ⊢
  rcases final with unset | passed | allFinal
  · exact Or.inl unset
  · exact Or.inr (Or.inl (lt_of_lt_of_le passed (lockBound_mono higher later)))
  · exact Or.inr (Or.inr allFinal)

theorem isFinalTx_descendant {consensus : Consensus.Params} (after : BlockRef.SwitchAfterSkip consensus)
    {p q : BlockRef} (ordered : BlockRef.TimeOrdered consensus p.chain) {height : Int}
    (found : p.getAncestor height = some q) {tx : CTransaction}
    (final : isFinalTx tx (q.nHeight + 1) (q.getPastTimeLimit consensus) = true) :
    isFinalTx tx (p.nHeight + 1) (p.getPastTimeLimit consensus) = true := by
  have higher := BlockRef.nHeight_le_of_getAncestor found
  have later := BlockRef.getPastTimeLimit_mono after ordered found
  exact isFinalTx_mono final (by omega) later

theorem isFinalTx_descendant_parent :
    isFinalTx ⟨2, 0, [⟨⟨Uint256.zero, 0⟩, [], 1⟩], [], 1712046500⟩
      ((⟨⟨1, 1712046700⟩, [⟨1, 1712046600⟩]⟩ : BlockRef).nHeight + 1)
      ((⟨⟨1, 1712046700⟩, [⟨1, 1712046600⟩]⟩ : BlockRef).getPastTimeLimit mainParams.consensus) = true :=
  @isFinalTx_descendant mainParams.consensus (by unfold BlockRef.SwitchAfterSkip; decide)
    ⟨⟨1, 1712046700⟩, [⟨1, 1712046600⟩]⟩ ⟨⟨1, 1712046600⟩, []⟩ ⟨by decide, trivial⟩ 0 (by decide) _ (by decide)

section Checker

variable (txTo : CTransaction) (nIn : Fin txTo.vin.length)

/-- `TransactionSignatureChecker::CheckLockTime`. -/
def checkLockTime (nLockTime : Int) : Bool :=
  let txLockTime : Int := txTo.nLockTime.toNat
  -- a height is compared with a height, a time with a time
  if !((txLockTime < LOCKTIME_THRESHOLD && nLockTime < LOCKTIME_THRESHOLD) ||
      (txLockTime ≥ LOCKTIME_THRESHOLD && nLockTime ≥ LOCKTIME_THRESHOLD)) then false
  else if nLockTime > txLockTime then false
  -- with this input final, `IsFinalTx` would not look at the lock time
  else if CTxIn.SEQUENCE_FINAL == txTo.vin[nIn].nSequence then false
  else true

/-- `TransactionSignatureChecker::CheckSequence`; the operand is a `CScriptNum`,
masked in `int64_t` arithmetic. -/
def checkSequence (nSequence : Int) : Bool :=
  let txToSequence : Int := txTo.vin[nIn].nSequence.toNat
  if txTo.nVersion.toUInt32 < 2 then false
  else if Int.land txToSequence CTxIn.SEQUENCE_LOCKTIME_DISABLE_FLAG.toNat != 0 then false
  else
    let nLockTimeMask : UInt32 := CTxIn.SEQUENCE_LOCKTIME_TYPE_FLAG ||| CTxIn.SEQUENCE_LOCKTIME_MASK
    let txToSequenceMasked := Int.land txToSequence nLockTimeMask.toNat
    let nSequenceMasked := Int.land nSequence nLockTimeMask.toNat
    let typeFlag : Int := CTxIn.SEQUENCE_LOCKTIME_TYPE_FLAG.toNat
    if !((txToSequenceMasked < typeFlag && nSequenceMasked < typeFlag) ||
        (txToSequenceMasked ≥ typeFlag && nSequenceMasked ≥ typeFlag)) then false
    else if nSequenceMasked > txToSequenceMasked then false
    else true

/-- `TransactionSignatureChecker(&txTo, nIn)`; the signature check is left a
parameter. -/
def transactionSignatureChecker (checkSig : Bytes → Bytes → Bytes → Bool) : BaseSignatureChecker where
  checkSig := checkSig
  checkLockTime := checkLockTime txTo nIn
  checkSequence := checkSequence txTo nIn

@[simp] theorem transactionSignatureChecker_checkLockTime (checkSig : Bytes → Bytes → Bytes → Bool) :
    (transactionSignatureChecker txTo nIn checkSig).checkLockTime = checkLockTime txTo nIn := by
  dsimp only [transactionSignatureChecker]

@[simp] theorem transactionSignatureChecker_checkSequence (checkSig : Bytes → Bytes → Bytes → Bool) :
    (transactionSignatureChecker txTo nIn checkSig).checkSequence = checkSequence txTo nIn := by
  dsimp only [transactionSignatureChecker]

theorem checkLockTime_eq_true {nLockTime : Int} :
    checkLockTime txTo nIn nLockTime = true ↔
      ((txTo.nLockTime.toNat : Int) < LOCKTIME_THRESHOLD ↔ nLockTime < LOCKTIME_THRESHOLD) ∧
        nLockTime ≤ txTo.nLockTime.toNat ∧ CTxIn.SEQUENCE_FINAL ≠ txTo.vin[nIn].nSequence := by
  dsimp only [checkLockTime]
  by_cases kind : (txTo.nLockTime.toNat : Int) < LOCKTIME_THRESHOLD <;>
    by_cases kind' : nLockTime < LOCKTIME_THRESHOLD <;>
    by_cases above : nLockTime > txTo.nLockTime.toNat <;>
    by_cases final : CTxIn.SEQUENCE_FINAL = txTo.vin[nIn].nSequence <;>
    simp [kind, kind', above, final] <;> omega

theorem checkSequence_eq_true {nSequence : Nat} :
    checkSequence txTo nIn nSequence = true ↔
      txTo.nVersion.toUInt32 ≥ 2 ∧
        txTo.vin[nIn].nSequence &&& CTxIn.SEQUENCE_LOCKTIME_DISABLE_FLAG = 0 ∧
        nSequence.testBit 22 = txTo.vin[nIn].nSequence.toNat.testBit 22 ∧
        nSequence % 2 ^ 16 ≤ txTo.vin[nIn].nSequence.toNat % 2 ^ 16 := by
  dsimp only [checkSequence]
  generalize txTo.vin[nIn].nSequence = sequence
  have disabled : sequence.toNat &&& CTxIn.SEQUENCE_LOCKTIME_DISABLE_FLAG.toNat = 0 ↔
      sequence &&& CTxIn.SEQUENCE_LOCKTIME_DISABLE_FLAG = 0 := by
    rw [← UInt32.toNat_and, ← UInt32.toNat_inj, UInt32.toNat_zero]
  rw [land_natCast, land_natCast, land_natCast, and_lockTimeMask, and_lockTimeMask,
    show CTxIn.SEQUENCE_LOCKTIME_TYPE_FLAG.toNat = 2 ^ 22 by decide]
  by_cases version : txTo.nVersion.toUInt32 < 2
  · simp [version]
  by_cases flag : sequence &&& CTxIn.SEQUENCE_LOCKTIME_DISABLE_FLAG = 0
  swap
  · simp [version, flag, disabled]
  have recent : 2 ≤ txTo.nVersion.toUInt32 := UInt32.not_lt.mp version
  simp only [version, flag]
  -- with the type bits fixed, the masked comparison is the comparison of the values
  cases typeOperand : nSequence.testBit 22 <;> cases typeInput : sequence.toNat.testBit 22 <;>
    simp [disabled, flag, recent] <;> omega

theorem checkLockTime_sound {nLockTime : Int} (checked : checkLockTime txTo nIn nLockTime = true)
    (nonneg : 0 ≤ nLockTime) {nBlockHeight nBlockTime : Int} (positive : 0 < nBlockHeight)
    (final : isFinalTx txTo nBlockHeight nBlockTime = true) :
    nLockTime < lockBound nLockTime nBlockHeight nBlockTime := by
  obtain ⟨sameKind, below, notFinal⟩ := (checkLockTime_eq_true txTo nIn).mp checked
  rcases (isFinalTx_iff _ _ _).mp final with unset | passed | allFinal
  · -- with the transaction's lock time at 0 only an operand of 0 passes, a height
    have zero : nLockTime = 0 := by simp [unset] at below; omega
    have height : nLockTime < LOCKTIME_THRESHOLD := by simp [zero, LOCKTIME_THRESHOLD]
    rw [lockBound, if_pos height]
    omega
  · unfold lockBound at passed ⊢
    by_cases kind : nLockTime < LOCKTIME_THRESHOLD
    · rw [if_pos (sameKind.mpr kind)] at passed
      rw [if_pos kind]
      omega
    · rw [if_neg (mt sameKind.mp kind)] at passed
      rw [if_neg kind]
      omega
  · exact absurd (allFinal _ (List.getElem_mem _)).symm notFinal

end Checker

theorem checkLockTimeVerify_checked {flags : UInt32} {checker : BaseSignatureChecker} {m m' : Machine}
    (enabled : hasFlag flags scriptVerifyChecklocktimeverify = true)
    (passed : checkLockTimeVerify flags checker m = .ok m') :
    ∃ top rest nLockTime, m.stack = top :: rest ∧ scriptNum top (requireMinimal flags) 5 = .ok nLockTime ∧
      0 ≤ nLockTime ∧ checker.checkLockTime nLockTime = true := by
  unfold checkLockTimeVerify at passed
  rw [if_neg (by simp [enabled])] at passed
  cases stack : m.stack with
  | nil => simp [stack] at passed
  | cons top rest =>
    cases decoded : scriptNum top (requireMinimal flags) 5 with
    | error e => simp [stack, decoded] at passed
    | ok nLockTime =>
      simp only [stack, decoded, ErrorState.except_ok_bind] at passed
      by_cases negative : nLockTime < 0
      · simp only [negative, if_true] at passed
        cases passed
      by_cases rejected : checker.checkLockTime nLockTime = false
      · simp only [negative, rejected, if_false, Bool.not_false, if_true] at passed
        cases passed
      · exact ⟨top, rest, nLockTime, rfl, decoded, by omega, by simpa using rejected⟩

/-- The range of `int`; a result of `int` arithmetic outside it is a signed overflow. -/
def InInt32 (value : Int) : Prop := -2 ^ 31 ≤ value ∧ value < 2 ^ 31

instance (value : Int) : Decidable (InInt32 value) := inferInstanceAs (Decidable (_ ∧ _))

section SequenceLocks

variable (consensus : Consensus.Params) (block : BlockRef)

/-- The loop of `CalculateSequenceLocks` over the inputs, each with the `int`
height of the coin it spends, from the pair found so far. `none` where the source
follows `NULL` (`GetAncestor` of a height above the block) or overflows an `int`. -/
def calculateSequenceLocksLoop : List (CTxIn × Int32) → Int × Int → Option (Int × Int)
  | [], lockPair => some lockPair
  | (txin, nCoinHeight) :: inputs, (nMinHeight, nMinTime) =>
    if txin.nSequence &&& CTxIn.SEQUENCE_LOCKTIME_DISABLE_FLAG != 0 then
      calculateSequenceLocksLoop inputs (nMinHeight, nMinTime)
    else if txin.nSequence &&& CTxIn.SEQUENCE_LOCKTIME_TYPE_FLAG != 0 then
      if InInt32 (nCoinHeight.toInt - 1) then
        match block.getAncestor (max (nCoinHeight.toInt - 1) 0) with
        | none => none
        | some coinBlock =>
          -- the lock is kept as the last time that is still too early; block
          -- times are below `2 ^ 32`, so the `int64_t` sum stays in range
          let nCoinTime := coinBlock.getPastTimeLimit consensus
          let nMinTime := max nMinTime (nCoinTime +
            (((txin.nSequence &&& CTxIn.SEQUENCE_LOCKTIME_MASK) <<<
              CTxIn.SEQUENCE_LOCKTIME_GRANULARITY).toNat : Int) - 1)
          calculateSequenceLocksLoop inputs (nMinHeight, nMinTime)
      else none
    else
      -- `nCoinHeight + (int)masked - 1`, left to right in `int`
      let sum := nCoinHeight.toInt + ((txin.nSequence &&& CTxIn.SEQUENCE_LOCKTIME_MASK).toNat : Int)
      if InInt32 sum ∧ InInt32 (sum - 1) then
        calculateSequenceLocksLoop inputs (max nMinHeight (sum - 1), nMinTime)
      else none

/-- What the loop leaves in `prevHeights`: 0 for an input without a relative lock. -/
def lockedHeights (inputs : List (CTxIn × Int32)) : List Int32 :=
  inputs.map fun (txin, nCoinHeight) =>
    if txin.nSequence &&& CTxIn.SEQUENCE_LOCKTIME_DISABLE_FLAG != 0 then 0 else nCoinHeight

/-- `CalculateSequenceLocks`, with what it leaves in `prevHeights`; `none` where
the source's assert fails, it follows `NULL` or it overflows. -/
def calculateSequenceLocks (tx : CTransaction) (flags : Nat) (prevHeights : List Int32) :
    Option ((Int × Int) × List Int32) :=
  if prevHeights.length ≠ tx.vin.length then none
  else
    let inputs := tx.vin.zip prevHeights
    -- `static_cast<uint32_t>`: a negative version does not enforce BIP68
    let fEnforceBIP68 := decide (tx.nVersion.toUInt32 ≥ 2) && flags &&& LOCKTIME_VERIFY_SEQUENCE != 0
    if !fEnforceBIP68 then some ((-1, -1), prevHeights)
    else (calculateSequenceLocksLoop consensus block inputs (-1, -1)).map fun lockPair =>
      (lockPair, lockedHeights inputs)

/-- `EvaluateSequenceLocks`; `none` for a block without a parent (the assert). -/
def evaluateSequenceLocks (lockPair : Int × Int) : Option Bool :=
  match block.pprev with
  | none => none
  | some pprev =>
    let nBlockTime := pprev.getPastTimeLimit consensus
    if lockPair.1 ≥ block.nHeight ∨ lockPair.2 ≥ nBlockTime then some false else some true

/-- `SequenceLocks`, with what it leaves in `prevHeights`. -/
def sequenceLocks (tx : CTransaction) (flags : Nat) (prevHeights : List Int32) :
    Option (Bool × List Int32) := do
  let (lockPair, prevHeights) ← calculateSequenceLocks consensus block tx flags prevHeights
  let ok ← evaluateSequenceLocks consensus block lockPair
  pure (ok, prevHeights)

/-- BIP68: a relative lock of `value` blocks, or of `value` units of 512 seconds,
on a coin of height `nCoinHeight` has passed for `block`, whose parent is
`pprev`. A time lock counts from the time limit of the block before the coin's. -/
def RelativeLockPassed (pprev : BlockRef) (nCoinHeight : Int) (byTime : Bool) (value : Nat) : Prop :=
  if byTime then
    ∃ coinBlock, block.getAncestor (max (nCoinHeight - 1) 0) = some coinBlock ∧
      coinBlock.getPastTimeLimit consensus + value * 512 ≤ pprev.getPastTimeLimit consensus
  else nCoinHeight + value ≤ block.nHeight

/-- An input's `nSequence` holds no relative lock, or its lock has passed. -/
def InputUnlocked (pprev : BlockRef) (input : CTxIn × Int32) : Prop :=
  input.1.nSequence &&& CTxIn.SEQUENCE_LOCKTIME_DISABLE_FLAG ≠ 0 ∨
    RelativeLockPassed consensus block pprev input.2.toInt
      (input.1.nSequence &&& CTxIn.SEQUENCE_LOCKTIME_TYPE_FLAG != 0)
      (input.1.nSequence &&& CTxIn.SEQUENCE_LOCKTIME_MASK).toNat

theorem relativeLockPassed_byTime (pprev : BlockRef) (nCoinHeight : Int) (value : Nat) :
    RelativeLockPassed consensus block pprev nCoinHeight true value ↔
      ∃ coinBlock, block.getAncestor (max (nCoinHeight - 1) 0) = some coinBlock ∧
        coinBlock.getPastTimeLimit consensus + value * 512 ≤ pprev.getPastTimeLimit consensus :=
  Iff.rfl

theorem relativeLockPassed_byHeight (pprev : BlockRef) (nCoinHeight : Int) (value : Nat) :
    RelativeLockPassed consensus block pprev nCoinHeight false value ↔ nCoinHeight + value ≤ block.nHeight :=
  Iff.rfl

theorem RelativeLockPassed.mono {pprev : BlockRef} {nCoinHeight : Int} {byTime : Bool} {value value' : Nat}
    (passed : RelativeLockPassed consensus block pprev nCoinHeight byTime value') (smaller : value ≤ value') :
    RelativeLockPassed consensus block pprev nCoinHeight byTime value := by
  cases byTime with
  | true =>
    obtain ⟨coinBlock, found, late⟩ := (relativeLockPassed_byTime consensus block _ _ _).mp passed
    exact ⟨coinBlock, found, by omega⟩
  | false =>
    rw [relativeLockPassed_byHeight] at passed ⊢
    omega

theorem lt_iff_relativeLockPassed_byTime (pprev : BlockRef) {nCoinHeight : Int} {coinBlock : BlockRef}
    (found : block.getAncestor (max (nCoinHeight - 1) 0) = some coinBlock) (sequence : UInt32) :
    coinBlock.getPastTimeLimit consensus + (((sequence &&& CTxIn.SEQUENCE_LOCKTIME_MASK) <<<
        CTxIn.SEQUENCE_LOCKTIME_GRANULARITY).toNat : Int) - 1 < pprev.getPastTimeLimit consensus ↔
      RelativeLockPassed consensus block pprev nCoinHeight true
        (sequence &&& CTxIn.SEQUENCE_LOCKTIME_MASK).toNat := by
  rw [relativeLockPassed_byTime, toNat_granularity]
  simp only [found, Option.some.injEq, exists_eq_left']
  push_cast
  omega

theorem lt_iff_relativeLockPassed_byHeight (pprev : BlockRef) (nCoinHeight : Int) (value : Nat) :
    nCoinHeight + value - 1 < block.nHeight ↔
      RelativeLockPassed consensus block pprev nCoinHeight false value := by
  rw [relativeLockPassed_byHeight]
  omega

theorem inputUnlocked_of_disabled (pprev : BlockRef) {txin : CTxIn} (nCoinHeight : Int32)
    (disabled : (txin.nSequence &&& CTxIn.SEQUENCE_LOCKTIME_DISABLE_FLAG != 0) = true) :
    InputUnlocked consensus block pprev (txin, nCoinHeight) :=
  Or.inl (by simpa using disabled)

theorem inputUnlocked_iff (pprev : BlockRef) {txin : CTxIn} (nCoinHeight : Int32)
    (enabled : ¬(txin.nSequence &&& CTxIn.SEQUENCE_LOCKTIME_DISABLE_FLAG != 0) = true) :
    InputUnlocked consensus block pprev (txin, nCoinHeight) ↔
      RelativeLockPassed consensus block pprev nCoinHeight.toInt
        (txin.nSequence &&& CTxIn.SEQUENCE_LOCKTIME_TYPE_FLAG != 0)
        (txin.nSequence &&& CTxIn.SEQUENCE_LOCKTIME_MASK).toNat := by
  simp only [bne_iff_ne, ne_eq, Decidable.not_not] at enabled
  simp [InputUnlocked, enabled]

theorem unlocked_of_calculateSequenceLocksLoop (pprev : BlockRef) (inputs : List (CTxIn × Int32))
    (lockPair : Int × Int) {result : Int × Int}
    (looped : calculateSequenceLocksLoop consensus block inputs lockPair = some result)
    (early : result.1 < block.nHeight) (earlier : result.2 < pprev.getPastTimeLimit consensus) :
    lockPair.1 < block.nHeight ∧ lockPair.2 < pprev.getPastTimeLimit consensus ∧
      ∀ input ∈ inputs, InputUnlocked consensus block pprev input := by
  fun_induction calculateSequenceLocksLoop consensus block inputs lockPair with
  | case1 lockPair =>
    cases looped
    exact ⟨early, earlier, by simp⟩
  | case2 txin nCoinHeight inputs nMinHeight nMinTime disabled ih =>
    obtain ⟨below, before, unlocked⟩ := ih looped
    exact ⟨below, before, List.forall_mem_cons.2
      ⟨inputUnlocked_of_disabled consensus block pprev nCoinHeight disabled, unlocked⟩⟩
  | case3 txin nCoinHeight inputs nMinHeight nMinTime enabled byTime fits missing => cases looped
  | case4 txin nCoinHeight inputs nMinHeight nMinTime enabled byTime fits coinBlock found nCoinTime
      nMinTime' ih =>
    obtain ⟨below, before, unlocked⟩ := ih looped
    simp only [nMinTime', max_lt_iff] at before
    have passed := (lt_iff_relativeLockPassed_byTime consensus block pprev found _).mp before.2
    refine ⟨below, before.1, List.forall_mem_cons.2 ⟨?_, unlocked⟩⟩
    rw [inputUnlocked_iff consensus block pprev nCoinHeight enabled, byTime]
    exact passed
  | case5 txin nCoinHeight inputs nMinHeight nMinTime enabled byTime overflow => cases looped
  | case6 txin nCoinHeight inputs nMinHeight nMinTime enabled byHeight sum fits ih =>
    obtain ⟨below, before, unlocked⟩ := ih looped
    simp only [max_lt_iff] at below
    have passed := (lt_iff_relativeLockPassed_byHeight consensus block pprev _ _).mp below.2
    refine ⟨below.1, before, List.forall_mem_cons.2 ⟨?_, unlocked⟩⟩
    simp only [Bool.not_eq_true] at byHeight
    rw [inputUnlocked_iff consensus block pprev nCoinHeight enabled, byHeight]
    exact passed
  | case7 txin nCoinHeight inputs nMinHeight nMinTime enabled byHeight sum overflow => cases looped

theorem calculateSequenceLocksLoop_of_unlocked (pprev : BlockRef) (blockHeight : block.nHeight < 2 ^ 31)
    (inputs : List (CTxIn × Int32)) (lockPair : Int × Int) (coinHeights : ∀ input ∈ inputs, 0 ≤ input.2.toInt)
    (early : lockPair.1 < block.nHeight) (earlier : lockPair.2 < pprev.getPastTimeLimit consensus)
    (unlocked : ∀ input ∈ inputs, InputUnlocked consensus block pprev input) :
    ∃ result, calculateSequenceLocksLoop consensus block inputs lockPair = some result ∧
      result.1 < block.nHeight ∧ result.2 < pprev.getPastTimeLimit consensus := by
  fun_induction calculateSequenceLocksLoop consensus block inputs lockPair with
  | case1 lockPair => exact ⟨lockPair, rfl, early, earlier⟩
  | case2 txin nCoinHeight inputs nMinHeight nMinTime disabled ih =>
    rw [List.forall_mem_cons] at coinHeights unlocked
    exact ih coinHeights.2 early earlier unlocked.2
  | case3 txin nCoinHeight inputs nMinHeight nMinTime enabled byTime fits missing =>
    -- an unlocked input has its coin's block
    have passed := (inputUnlocked_iff consensus block pprev nCoinHeight enabled).mp
      (unlocked _ List.mem_cons_self)
    rw [byTime, relativeLockPassed_byTime] at passed
    obtain ⟨coinBlock, found, -⟩ := passed
    rw [missing] at found
    cases found
  | case4 txin nCoinHeight inputs nMinHeight nMinTime enabled byTime fits coinBlock found nCoinTime
      nMinTime' ih =>
    rw [List.forall_mem_cons] at coinHeights unlocked
    have passed := (inputUnlocked_iff consensus block pprev nCoinHeight enabled).mp unlocked.1
    rw [byTime, ← lt_iff_relativeLockPassed_byTime consensus block pprev found] at passed
    exact ih coinHeights.2 early (by simp only [nMinTime', max_lt_iff]; exact ⟨earlier, passed⟩) unlocked.2
  | case5 txin nCoinHeight inputs nMinHeight nMinTime enabled byTime overflow =>
    -- a height of at least 0 has a predecessor in range
    have nonneg : 0 ≤ nCoinHeight.toInt := coinHeights _ List.mem_cons_self
    have upper := Int32.toInt_lt nCoinHeight
    exact absurd ⟨by omega, by omega⟩ overflow
  | case6 txin nCoinHeight inputs nMinHeight nMinTime enabled byHeight sum fits ih =>
    rw [List.forall_mem_cons] at coinHeights unlocked
    have passed := (inputUnlocked_iff consensus block pprev nCoinHeight enabled).mp unlocked.1
    simp only [Bool.not_eq_true] at byHeight
    rw [byHeight, ← lt_iff_relativeLockPassed_byHeight] at passed
    exact ih coinHeights.2 (by simp only [max_lt_iff]; exact ⟨early, passed⟩) earlier unlocked.2
  | case7 txin nCoinHeight inputs nMinHeight nMinTime enabled byHeight sum overflow =>
    -- a passed lock ends at most at the block's height, within `int`
    have nonneg : 0 ≤ nCoinHeight.toInt := coinHeights _ List.mem_cons_self
    have passed := (inputUnlocked_iff consensus block pprev nCoinHeight enabled).mp
      (unlocked _ List.mem_cons_self)
    simp only [Bool.not_eq_true] at byHeight
    rw [byHeight, relativeLockPassed_byHeight] at passed
    exact absurd ⟨⟨by omega, by omega⟩, ⟨by omega, by omega⟩⟩ overflow

theorem calculateSequenceLocks_of_enforced {tx : CTransaction} {flags : Nat} {prevHeights : List Int32}
    (sized : prevHeights.length = tx.vin.length) (version : tx.nVersion.toUInt32 ≥ 2)
    (flagged : flags &&& LOCKTIME_VERIFY_SEQUENCE ≠ 0) :
    calculateSequenceLocks consensus block tx flags prevHeights =
      (calculateSequenceLocksLoop consensus block (tx.vin.zip prevHeights) (-1, -1)).map fun lockPair =>
        (lockPair, lockedHeights (tx.vin.zip prevHeights)) := by
  simp [calculateSequenceLocks, sized, version, flagged]

theorem calculateSequenceLocks_of_not_enforced {tx : CTransaction} {flags : Nat} {prevHeights : List Int32}
    (sized : prevHeights.length = tx.vin.length)
    (off : ¬(tx.nVersion.toUInt32 ≥ 2 ∧ flags &&& LOCKTIME_VERIFY_SEQUENCE ≠ 0)) :
    calculateSequenceLocks consensus block tx flags prevHeights = some ((-1, -1), prevHeights) := by
  simp only [not_and_or, not_not] at off
  rcases off with old | unflagged
  · simp [calculateSequenceLocks, sized, old]
  · simp [calculateSequenceLocks, sized, unflagged]

theorem evaluateSequenceLocks_eq_true (lockPair : Int × Int) :
    evaluateSequenceLocks consensus block lockPair = some true ↔
      ∃ pprev, block.pprev = some pprev ∧ lockPair.1 < block.nHeight ∧
        lockPair.2 < pprev.getPastTimeLimit consensus := by
  unfold evaluateSequenceLocks
  cases parent : block.pprev with
  | none => simp
  | some pprev => simp

theorem sequenceLocks_eq_true (tx : CTransaction) (flags : Nat) (prevHeights : List Int32) :
    (∃ heights, sequenceLocks consensus block tx flags prevHeights = some (true, heights)) ↔
      ∃ lockPair heights, calculateSequenceLocks consensus block tx flags prevHeights = some (lockPair, heights) ∧
        evaluateSequenceLocks consensus block lockPair = some true := by
  simp [sequenceLocks, Option.bind_eq_some_iff]
  constructor
  · rintro ⟨heights, nMinHeight, nMinTime, calculated, evaluated⟩
    exact ⟨nMinHeight, nMinTime, ⟨heights, calculated⟩, evaluated⟩
  · rintro ⟨nMinHeight, nMinTime, ⟨heights, calculated⟩, evaluated⟩
    exact ⟨heights, nMinHeight, nMinTime, calculated, evaluated⟩

theorem sequenceLocks_unlocked {tx : CTransaction} {flags : Nat} {prevHeights : List Int32}
    (locks : ∃ heights, sequenceLocks consensus block tx flags prevHeights = some (true, heights)) :
    prevHeights.length = tx.vin.length ∧ ∃ pprev, block.pprev = some pprev ∧
      (tx.nVersion.toUInt32 ≥ 2 → flags &&& LOCKTIME_VERIFY_SEQUENCE ≠ 0 →
        ∀ input ∈ tx.vin.zip prevHeights, InputUnlocked consensus block pprev input) := by
  obtain ⟨lockPair, heights, calculated, evaluated⟩ := (sequenceLocks_eq_true consensus block _ _ _).mp locks
  obtain ⟨pprev, parent, early, earlier⟩ := (evaluateSequenceLocks_eq_true consensus block _).mp evaluated
  by_cases sized : prevHeights.length = tx.vin.length
  swap
  · simp [calculateSequenceLocks, sized] at calculated
  refine ⟨sized, pprev, parent, fun version flagged => ?_⟩
  rw [calculateSequenceLocks_of_enforced consensus block sized version flagged] at calculated
  obtain ⟨result, looped, same⟩ := Option.map_eq_some_iff.mp calculated
  have found := (Prod.mk.inj same).1
  subst found
  exact (unlocked_of_calculateSequenceLocksLoop consensus block pprev _ _ looped early earlier).2.2

theorem sequenceLocks_of_unlocked {tx : CTransaction} {flags : Nat} {prevHeights : List Int32}
    (sized : prevHeights.length = tx.vin.length) (coinHeights : ∀ h ∈ prevHeights, 0 ≤ h.toInt)
    (blockHeight : block.nHeight < 2 ^ 31) {pprev : BlockRef} (parent : block.pprev = some pprev)
    (unlocked : tx.nVersion.toUInt32 ≥ 2 → flags &&& LOCKTIME_VERIFY_SEQUENCE ≠ 0 →
      ∀ input ∈ tx.vin.zip prevHeights, InputUnlocked consensus block pprev input) :
    ∃ heights, sequenceLocks consensus block tx flags prevHeights = some (true, heights) := by
  rw [sequenceLocks_eq_true]
  -- the pair starts at `(-1, -1)`, below any block
  have below : (-1 : Int) < block.nHeight := by omega
  have before : (-1 : Int) < pprev.getPastTimeLimit consensus := by
    have := BlockRef.getPastTimeLimit_nonneg consensus pprev
    omega
  by_cases on : tx.nVersion.toUInt32 ≥ 2 ∧ flags &&& LOCKTIME_VERIFY_SEQUENCE ≠ 0
  · rw [calculateSequenceLocks_of_enforced consensus block sized on.1 on.2]
    obtain ⟨result, looped, early, earlier⟩ :=
      calculateSequenceLocksLoop_of_unlocked consensus block pprev blockHeight _ (-1, -1)
        (fun input member => coinHeights _ (List.of_mem_zip member).2) below before (unlocked on.1 on.2)
    exact ⟨result, _, by rw [looped]; rfl,
      (evaluateSequenceLocks_eq_true consensus block _).mpr ⟨pprev, parent, early, earlier⟩⟩
  · rw [calculateSequenceLocks_of_not_enforced consensus block sized on]
    exact ⟨(-1, -1), prevHeights, rfl,
      (evaluateSequenceLocks_eq_true consensus block _).mpr ⟨pprev, parent, below, before⟩⟩

theorem sequenceLocks_iff (tx : CTransaction) (flags : Nat) (prevHeights : List Int32)
    (coinHeights : ∀ h ∈ prevHeights, 0 ≤ h.toInt) (blockHeight : block.nHeight < 2 ^ 31) :
    (∃ heights, sequenceLocks consensus block tx flags prevHeights = some (true, heights)) ↔
      prevHeights.length = tx.vin.length ∧ ∃ pprev, block.pprev = some pprev ∧
        (tx.nVersion.toUInt32 ≥ 2 → flags &&& LOCKTIME_VERIFY_SEQUENCE ≠ 0 →
          ∀ input ∈ tx.vin.zip prevHeights, InputUnlocked consensus block pprev input) := by
  constructor
  · exact sequenceLocks_unlocked consensus block
  · rintro ⟨sized, pprev, parent, unlocked⟩
    exact sequenceLocks_of_unlocked consensus block sized coinHeights blockHeight parent unlocked

theorem sequenceLocks_iff_one_block :
    (∀ h ∈ [(0 : Int32)], 0 ≤ h.toInt) ∧
      (⟨⟨1, 1712046700⟩, [⟨1, 1712046600⟩, ⟨1, 1712046500⟩]⟩ : BlockRef).nHeight < 2 ^ 31 ∧
      ((∃ heights, sequenceLocks mainParams.consensus ⟨⟨1, 1712046700⟩, [⟨1, 1712046600⟩, ⟨1, 1712046500⟩]⟩
          ⟨2, 0, [⟨⟨Uint256.zero, 0⟩, [], 1⟩], [], 0⟩ LOCKTIME_VERIFY_SEQUENCE [0] = some (true, heights)) ↔
        [(0 : Int32)].length = [(⟨⟨Uint256.zero, 0⟩, [], 1⟩ : CTxIn)].length ∧
          ∃ pprev, (⟨⟨1, 1712046700⟩, [⟨1, 1712046600⟩, ⟨1, 1712046500⟩]⟩ : BlockRef).pprev = some pprev ∧
            ((2 : Int32).toUInt32 ≥ 2 → LOCKTIME_VERIFY_SEQUENCE &&& LOCKTIME_VERIFY_SEQUENCE ≠ 0 →
              ∀ input ∈ [(⟨⟨Uint256.zero, 0⟩, [], 1⟩ : CTxIn)].zip [(0 : Int32)],
                InputUnlocked mainParams.consensus ⟨⟨1, 1712046700⟩, [⟨1, 1712046600⟩, ⟨1, 1712046500⟩]⟩
                  pprev input)) :=
  have coinHeights : ∀ h ∈ [(0 : Int32)], 0 ≤ h.toInt := by simp
  have blockHeight : (⟨⟨1, 1712046700⟩, [⟨1, 1712046600⟩, ⟨1, 1712046500⟩]⟩ : BlockRef).nHeight < 2 ^ 31 := by
    simp [BlockRef.nHeight]
  ⟨coinHeights, blockHeight, sequenceLocks_iff mainParams.consensus
    ⟨⟨1, 1712046700⟩, [⟨1, 1712046600⟩, ⟨1, 1712046500⟩]⟩ ⟨2, 0, [⟨⟨Uint256.zero, 0⟩, [], 1⟩], [], 0⟩
    LOCKTIME_VERIFY_SEQUENCE [0] coinHeights blockHeight⟩

theorem sequenceLocks_heights {tx : CTransaction} {flags : Nat} {prevHeights : List Int32} {ok : Bool}
    {heights : List Int32} (result : sequenceLocks consensus block tx flags prevHeights = some (ok, heights)) :
    heights = if tx.nVersion.toUInt32 ≥ 2 ∧ flags &&& LOCKTIME_VERIFY_SEQUENCE ≠ 0 then
      lockedHeights (tx.vin.zip prevHeights) else prevHeights := by
  cases calculated : calculateSequenceLocks consensus block tx flags prevHeights with
  | none => simp [sequenceLocks, calculated] at result
  | some pair =>
    obtain ⟨lockPair, heights'⟩ := pair
    -- `EvaluateSequenceLocks` only reads the pair
    have same : heights' = heights := by
      cases evaluated : evaluateSequenceLocks consensus block lockPair <;>
        simp_all [sequenceLocks]
    subst same
    by_cases sized : prevHeights.length = tx.vin.length
    swap
    · simp [calculateSequenceLocks, sized] at calculated
    by_cases on : tx.nVersion.toUInt32 ≥ 2 ∧ flags &&& LOCKTIME_VERIFY_SEQUENCE ≠ 0
    · rw [calculateSequenceLocks_of_enforced consensus block sized on.1 on.2] at calculated
      obtain ⟨result, -, same⟩ := Option.map_eq_some_iff.mp calculated
      rw [if_pos on, ← (Prod.mk.inj same).2]
    · rw [calculateSequenceLocks_of_not_enforced consensus block sized on] at calculated
      rw [if_neg on, (Prod.mk.inj (Option.some.inj calculated)).2]

end SequenceLocks

theorem checkLockTimeVerify_sound (checkSig : Bytes → Bytes → Bytes → Bool) {txTo : CTransaction}
    {nIn : Fin txTo.vin.length} {flags : UInt32} {m m' : Machine}
    (enabled : hasFlag flags scriptVerifyChecklocktimeverify = true)
    (passed : checkLockTimeVerify flags (transactionSignatureChecker txTo nIn checkSig) m = .ok m')
    {nBlockHeight nBlockTime : Int} (positive : 0 < nBlockHeight)
    (final : isFinalTx txTo nBlockHeight nBlockTime = true) :
    ∃ top rest nLockTime, m.stack = top :: rest ∧ scriptNum top (requireMinimal flags) 5 = .ok nLockTime ∧
      nLockTime < lockBound nLockTime nBlockHeight nBlockTime := by
  obtain ⟨top, rest, nLockTime, stack, decoded, nonneg, checked⟩ := checkLockTimeVerify_checked enabled passed
  rw [transactionSignatureChecker_checkLockTime] at checked
  exact ⟨top, rest, nLockTime, stack, decoded, checkLockTime_sound txTo nIn checked nonneg positive final⟩

theorem checkLockTimeVerify_sound_fifty :
    ∃ top rest nLockTime, [[50]] = top :: rest ∧
      scriptNum top (requireMinimal scriptVerifyChecklocktimeverify) 5 = .ok nLockTime ∧
      nLockTime < lockBound nLockTime 200 0 :=
  @checkLockTimeVerify_sound (fun _ _ _ => true) ⟨2, 0, [⟨⟨Uint256.zero, 0⟩, [], 1⟩], [], 100⟩ ⟨0, by decide⟩
    scriptVerifyChecklocktimeverify ⟨[[50]], [], [], 0, []⟩ ⟨[[50]], [], [], 0, []⟩ (by decide) rfl 200 0
    (by decide) (by decide)

theorem checkSequence_sound (consensus : Consensus.Params) (block : BlockRef) {txTo : CTransaction}
    {nIn : Fin txTo.vin.length} {nSequence : Nat} (checked : checkSequence txTo nIn nSequence = true)
    {flags : Nat} (enforced : flags &&& LOCKTIME_VERIFY_SEQUENCE ≠ 0) {prevHeights heights : List Int32}
    (locks : sequenceLocks consensus block txTo flags prevHeights = some (true, heights)) :
    ∃ pprev nCoinHeight, block.pprev = some pprev ∧ prevHeights[nIn.val]? = some nCoinHeight ∧
      RelativeLockPassed consensus block pprev nCoinHeight.toInt
        (nSequence &&& CTxIn.SEQUENCE_LOCKTIME_TYPE_FLAG.toNat != 0)
        (nSequence &&& CTxIn.SEQUENCE_LOCKTIME_MASK.toNat) := by
  obtain ⟨recent, enabled, sameType, smaller⟩ := (checkSequence_eq_true txTo nIn).mp checked
  obtain ⟨sized, pprev, parent, unlocked⟩ :=
    sequenceLocks_unlocked consensus block ⟨heights, locks⟩
  have inRange : nIn.val < prevHeights.length := by omega
  -- the input's own relative lock has passed
  have member : (txTo.vin[nIn], prevHeights[nIn.val]) ∈ txTo.vin.zip prevHeights := by
    rw [List.mem_iff_getElem]
    exact ⟨nIn, by simp [sized], by simp⟩
  have passed := unlocked recent enforced _ member
  rw [inputUnlocked_iff consensus block pprev _ (by simpa using enabled), type_bne, toNat_and_mask] at passed
  refine ⟨pprev, prevHeights[nIn.val], parent, List.getElem?_eq_getElem inRange, ?_⟩
  -- the operand's lock is of the same kind and no longer
  rw [and_type_bne, and_mask, sameType]
  exact passed.mono consensus block smaller

theorem checkSequenceVerify_checked {flags : UInt32} {checker : BaseSignatureChecker} {m m' : Machine}
    (enabled : hasFlag flags scriptVerifyChecksequenceverify = true)
    (passed : checkSequenceVerify flags checker m = .ok m') :
    ∃ top rest nSequence, m.stack = top :: rest ∧ scriptNum top (requireMinimal flags) 5 = .ok nSequence ∧
      0 ≤ nSequence ∧
      (nSequence.toNat &&& sequenceLocktimeDisableFlag = 0 → checker.checkSequence nSequence = true) := by
  unfold checkSequenceVerify at passed
  rw [if_neg (by simp [enabled])] at passed
  cases stack : m.stack with
  | nil => simp [stack] at passed
  | cons top rest =>
    cases decoded : scriptNum top (requireMinimal flags) 5 with
    | error e => simp [stack, decoded] at passed
    | ok nSequence =>
      simp only [stack, decoded, ErrorState.except_ok_bind] at passed
      by_cases negative : nSequence < 0
      · simp only [negative, if_true] at passed
        cases passed
      refine ⟨top, rest, nSequence, rfl, decoded, by omega, fun clear => ?_⟩
      by_cases rejected : checker.checkSequence nSequence = false
      · simp only [negative, clear, rejected, if_false, ne_eq, not_true_eq_false, Bool.not_false,
          if_true] at passed
        cases passed
      · simpa using rejected

theorem checkSequenceVerify_sound (consensus : Consensus.Params) (block : BlockRef)
    (checkSig : Bytes → Bytes → Bytes → Bool) {txTo : CTransaction} {nIn : Fin txTo.vin.length}
    {flags : UInt32} {m m' : Machine} (enabled : hasFlag flags scriptVerifyChecksequenceverify = true)
    (passed : checkSequenceVerify flags (transactionSignatureChecker txTo nIn checkSig) m = .ok m')
    {lockFlags : Nat} (enforced : lockFlags &&& LOCKTIME_VERIFY_SEQUENCE ≠ 0) {prevHeights heights : List Int32}
    (locks : sequenceLocks consensus block txTo lockFlags prevHeights = some (true, heights)) :
    ∃ top rest nSequence, m.stack = top :: rest ∧ scriptNum top (requireMinimal flags) 5 = .ok nSequence ∧
      (nSequence.toNat &&& sequenceLocktimeDisableFlag = 0 →
        ∃ pprev nCoinHeight, block.pprev = some pprev ∧ prevHeights[nIn.val]? = some nCoinHeight ∧
          RelativeLockPassed consensus block pprev nCoinHeight.toInt
            (nSequence.toNat &&& CTxIn.SEQUENCE_LOCKTIME_TYPE_FLAG.toNat != 0)
            (nSequence.toNat &&& CTxIn.SEQUENCE_LOCKTIME_MASK.toNat)) := by
  obtain ⟨top, rest, nSequence, stack, decoded, nonneg, checks⟩ := checkSequenceVerify_checked enabled passed
  refine ⟨top, rest, nSequence, stack, decoded, fun clear => ?_⟩
  have checked : checkSequence txTo nIn (nSequence.toNat : Int) = true := by
    rw [Int.toNat_of_nonneg nonneg, ← transactionSignatureChecker_checkSequence txTo nIn checkSig]
    exact checks clear
  exact checkSequence_sound consensus block checked enforced locks

theorem checkSequenceVerify_sound_one :
    ∃ top rest nSequence, [[1]] = top :: rest ∧
      scriptNum top (requireMinimal scriptVerifyChecksequenceverify) 5 = .ok nSequence ∧
      (nSequence.toNat &&& sequenceLocktimeDisableFlag = 0 →
        ∃ pprev nCoinHeight,
          (⟨⟨1, 1712046700⟩, [⟨1, 1712046600⟩, ⟨1, 1712046500⟩]⟩ : BlockRef).pprev = some pprev ∧
          [(0 : Int32)][0]? = some nCoinHeight ∧
          RelativeLockPassed mainParams.consensus ⟨⟨1, 1712046700⟩, [⟨1, 1712046600⟩, ⟨1, 1712046500⟩]⟩
            pprev nCoinHeight.toInt (nSequence.toNat &&& CTxIn.SEQUENCE_LOCKTIME_TYPE_FLAG.toNat != 0)
            (nSequence.toNat &&& CTxIn.SEQUENCE_LOCKTIME_MASK.toNat)) :=
  @checkSequenceVerify_sound mainParams.consensus ⟨⟨1, 1712046700⟩, [⟨1, 1712046600⟩, ⟨1, 1712046500⟩]⟩
    (fun _ _ _ => true) ⟨2, 0, [⟨⟨Uint256.zero, 0⟩, [], 1⟩], [], 100⟩ ⟨0, by decide⟩
    scriptVerifyChecksequenceverify ⟨[[1]], [], [], 0, []⟩ ⟨[[1]], [], [], 0, []⟩ (by decide) rfl
    LOCKTIME_VERIFY_SEQUENCE (by decide) [0] [0] (by decide)

end Gaiacoin
