import Mathlib

set_option autoImplicit false

/-!
# Amounts, outpoints, inputs, outputs and transactions

The data model of `amount.h` and `primitives/transaction.h`. A `CAmount` is an
`int64_t`; sums of amounts are taken with `addAmount`, which reports a sum that
leaves the `int64_t` range instead of wrapping it, since signed overflow is
undefined behaviour in C++. Scripts are byte lists (`prevector` is a vector).
-/

namespace Gaiacoin

abbrev Bytes := List UInt8

abbrev CAmount := Int64

def coin : CAmount := 100000000

/-- `MAX_MONEY` is `std::numeric_limits<int64_t>::max()` in this code base. -/
def maxMoney : CAmount := Int64.maxValue

def moneyRange (nValue : CAmount) : Bool := decide (0 ≤ nValue) && decide (nValue ≤ maxMoney)

def int64Min : Int := -2 ^ 63
def int64Max : Int := 2 ^ 63 - 1

def InInt64 (value : Int) : Prop := int64Min ≤ value ∧ value ≤ int64Max

instance (value : Int) : Decidable (InInt64 value) := inferInstanceAs (Decidable (_ ∧ _))

/-- How a consensus check can end other than by returning: rejection through
`CValidationState` (with its DoS score and reject reason), an exception, a
failed `assert`, or one of the undefined behaviours the model tracks: a signed
overflow, an access past the end of a vector, and a shift by the width of its
operand or more. -/
inductive Fault where
  | invalid (nDoS : Nat) (reason : String)
  | thrown (what : String)
  | assertion
  | overflow
  | outOfRange
  | shiftOutOfRange
  deriving DecidableEq, Repr

abbrev Checked (α : Type) := Except Fault α

@[simp] theorem Checked.ok_bind {α β : Type} (a : α) (f : α → Checked β) :
    (Except.ok a >>= f : Checked β) = f a := rfl

theorem Checked.bind_eq_ok {α β : Type} {x : Checked α} {f : α → Checked β} {b : β}
    (h : x >>= f = .ok b) : ∃ a, x = .ok a ∧ f a = .ok b := by
  cases x with
  | error e => cases h
  | ok a => exact ⟨a, rfl, h⟩

/-- The `int64_t` sum `a + b`; an overflow where the sum leaves the range. -/
def addAmount (a b : CAmount) : Checked CAmount :=
  if InInt64 (a.toInt + b.toInt) then .ok (a + b) else .error .overflow

/-- The `int64_t` difference `a - b`; an overflow where it leaves the range. -/
def subAmount (a b : CAmount) : Checked CAmount :=
  if InInt64 (a.toInt - b.toInt) then .ok (a - b) else .error .overflow

structure Uint256 where
  data : List UInt8
  size_eq : data.length = 32
  deriving DecidableEq

def Uint256.zero : Uint256 := ⟨List.replicate 32 0, rfl⟩

def Uint256.isNull (h : Uint256) : Bool := h.data.all (· == 0)

structure COutPoint where
  hash : Uint256
  n : UInt32
  deriving DecidableEq

def COutPoint.isNull (p : COutPoint) : Bool := p.hash.isNull && p.n == UInt32.ofNat (2 ^ 32 - 1)

abbrev CScript := Bytes

def opReturn : UInt8 := 0x6a

structure CTxIn where
  prevout : COutPoint
  scriptSig : CScript
  nSequence : UInt32
  deriving DecidableEq

structure CTxOut where
  nValue : CAmount
  scriptPubKey : CScript
  deriving DecidableEq

namespace CTxOut

def setNull : CTxOut := ⟨-1, []⟩

def isNull (out : CTxOut) : Bool := out.nValue == -1

def isEmpty (out : CTxOut) : Bool := out.nValue == 0 && out.scriptPubKey.isEmpty

def isUnspendable (out : CTxOut) : Bool :=
  out.isEmpty || (0 < out.scriptPubKey.length && out.scriptPubKey.head? == some opReturn)

@[simp] theorem setNull_isNull : setNull.isNull = true := rfl

end CTxOut

/-- `CTransaction` without its cached hash; `CMutableTransaction` has the same fields. -/
structure CTransaction where
  nVersion : Int32
  nTime : UInt32
  vin : List CTxIn
  vout : List CTxOut
  nLockTime : UInt32
  deriving DecidableEq

abbrev CMutableTransaction := CTransaction

namespace CTransaction

def isCoinBase (tx : CTransaction) : Bool :=
  match tx.vin with
  | [txin] => txin.prevout.isNull
  | _ => false

def isCoinStake (tx : CTransaction) : Bool :=
  match tx.vin, tx.vout with
  | txin :: _, first :: _ :: _ => !txin.prevout.isNull && first.isEmpty
  | _, _ => false

def valueOutFrom (nValueOut : CAmount) : List CTxOut → Checked CAmount
  | [] => pure nValueOut
  | out :: rest => do
      let sum ← addAmount nValueOut out.nValue
      if !moneyRange out.nValue || !moneyRange sum then
        throw (.thrown "GetValueOut: value out of range")
      valueOutFrom sum rest

def getValueOut (tx : CTransaction) : Checked CAmount := valueOutFrom 0 tx.vout

end CTransaction

end Gaiacoin
