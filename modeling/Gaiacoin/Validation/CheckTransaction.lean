import Gaiacoin.Serialize.Transaction

set_option autoImplicit false

/-!
# `CheckTransaction`

The context-free transaction checks of `main.cpp`. The output loop adds each
value to a running `int64_t` sum before `MoneyRange` looks at the sum; with
`MAX_MONEY` equal to `INT64_MAX` that sum can leave the `int64_t` range, which
the model reports as `Fault.overflow`.
-/

namespace Gaiacoin

def maxBlockSize : Nat := 1000000

/-- The loop over `tx.vout` with its running sum `nValueOut`. -/
def checkOutputs (tx : CTransaction) (nValueOut : CAmount) : List CTxOut → Checked Unit
  | [] => pure ()
  | txout :: rest => do
      if txout.isEmpty && !tx.isCoinBase && !tx.isCoinStake then
        throw (.invalid 100 "")
      if txout.nValue < 0 then throw (.invalid 100 "bad-txns-vout-negative")
      if txout.nValue > maxMoney then throw (.invalid 100 "bad-txns-vout-toolarge")
      let sum ← addAmount nValueOut txout.nValue
      if !moneyRange sum then throw (.invalid 100 "bad-txns-txouttotal-toolarge")
      checkOutputs tx sum rest

/-- The duplicate-input loop over `vInOutPoints`, the outpoints seen so far. -/
def checkDuplicateInputs (vInOutPoints : List COutPoint) : List CTxIn → Checked Unit
  | [] => pure ()
  | txin :: rest => do
      if txin.prevout ∈ vInOutPoints then throw (.invalid 100 "bad-txns-inputs-duplicate")
      checkDuplicateInputs (txin.prevout :: vInOutPoints) rest

def checkTransaction (tx : CTransaction) : Checked Unit := do
  if tx.vin.isEmpty then throw (.invalid 10 "bad-txns-vin-empty")
  if tx.vout.isEmpty then throw (.invalid 10 "bad-txns-vout-empty")
  if getSerializeSize tx > maxBlockSize then throw (.invalid 100 "bad-txns-oversize")
  checkOutputs tx 0 tx.vout
  checkDuplicateInputs [] tx.vin
  if tx.isCoinBase then
    match tx.vin with
    | txin :: _ =>
      if txin.scriptSig.length < 2 || txin.scriptSig.length > 100 then
        throw (.invalid 100 "bad-cb-length")
    | [] => pure ()
  else if tx.vin.any (·.prevout.isNull) then
    throw (.invalid 10 "bad-txns-prevout-null")

theorem checkTransaction_overflows_on_two_max_outputs :
    checkTransaction
      { nVersion := 1, nTime := 0,
        vin := [⟨⟨⟨List.replicate 31 0 ++ [1], rfl⟩, 0⟩, [], 0xffffffff⟩],
        vout := [⟨maxMoney, [0x51]⟩, ⟨maxMoney, [0x51]⟩],
        nLockTime := 0 } = .error .overflow := by
  rfl

end Gaiacoin
