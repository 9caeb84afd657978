import Gaiacoin.Primitives.Transaction
import Gaiacoin.Shared.Wire

set_option autoImplicit false

/-!
# Scripts (`script/script.h`, `script/script.cpp`)

A script is a byte vector read one instruction at a time by `GetOp`. A cursor
into the script is the part of the script from the cursor on, so `GetOp` returns
the opcode, its push data and the rest of the script. Every loop over a script
(`GetSigOpCount`, `IsPushOnly`, `FindAndDelete`) takes the length of the script
as fuel: `GetOp` consumes at least one byte each time it succeeds
(`getOp_length_lt`), so that many rounds always reach the end.

`CScriptNum` keeps its `int64_t` value as an `Int`; the operations that can
overflow are in `Checked`, with the `assert`s of `operator+=`, `operator-=` and
unary `operator-` and the undefined behaviour of the others.
-/

namespace Gaiacoin

def op0 : UInt8 := 0x00
def opPushdata1 : UInt8 := 0x4c
def opPushdata2 : UInt8 := 0x4d
def opPushdata4 : UInt8 := 0x4e
def op1negate : UInt8 := 0x4f
def op1 : UInt8 := 0x51
def op16 : UInt8 := 0x60
def opIf : UInt8 := 0x63
def opEndif : UInt8 := 0x68
def opEqual : UInt8 := 0x87
def opHash160 : UInt8 := 0xa9
def opChecksig : UInt8 := 0xac
def opChecksigverify : UInt8 := 0xad
def opCheckmultisig : UInt8 := 0xae
def opCheckmultisigverify : UInt8 := 0xaf
def opInvalidopcode : UInt8 := 0xff

def maxScriptElementSize : Nat := 520
def maxOpsPerScript : Nat := 201
def maxPubkeysPerMultisig : Nat := 20
def maxScriptSize : Nat := 10000

def pushSize (opcode : UInt8) (pc : Bytes) : Option (Nat × Bytes) :=
  if opcode < opPushdata1 then some (opcode.toNat, pc)
  else if opcode = opPushdata1 then
    if pc.length < 1 then none else some (Wire.readLE (pc.take 1), pc.drop 1)
  else if opcode = opPushdata2 then
    if pc.length < 2 then none else some (Wire.readLE (pc.take 2), pc.drop 2)
  else if pc.length < 4 then none else some (Wire.readLE (pc.take 4), pc.drop 4)

/-- `GetOp2` at the cursor `pc`: the opcode, the data it pushes (empty for an
opcode that pushes nothing), and the cursor after it; `none` at the end of the
script or where a push runs past it. -/
def getOp (pc : Bytes) : Option (UInt8 × Bytes × Bytes) :=
  match pc with
  | [] => none
  | opcode :: pc =>
    if opcode ≤ opPushdata4 then
      match pushSize opcode pc with
      | none => none
      | some (nSize, pc) =>
        if pc.length < nSize then none else some (opcode, pc.take nSize, pc.drop nSize)
    else some (opcode, [], pc)

theorem pushSize_length {opcode : UInt8} {pc rest : Bytes} {nSize : Nat}
    (read : pushSize opcode pc = some (nSize, rest)) : rest.length ≤ pc.length := by
  unfold pushSize at read
  split_ifs at read <;> cases read <;> simp

theorem getOp_length_lt {pc rest data : Bytes} {opcode : UInt8}
    (read : getOp pc = some (opcode, data, rest)) : rest.length < pc.length := by
  match pc with
  | [] => cases read
  | byte :: pc =>
    simp only [getOp] at read
    split at read
    · split at read
      · cases read
      · rename_i nSize after sized
        split at read
        · cases read
        · cases read
          have shorter := pushSize_length sized
          simp only [List.length_drop, List.length_cons]
          omega
    · cases read
      simp

/-- `IsPushOnly`: every instruction is at most `OP_16`. `OP_RESERVED` counts as a
push here although executing it fails. -/
def isPushOnlyLoop : Nat → Bytes → Bool
  | 0, _ => true
  | fuel + 1, pc =>
    match pc with
    | [] => true
    | _ :: _ =>
      match getOp pc with
      | none => false
      | some (opcode, _, pc) => if opcode > op16 then false else isPushOnlyLoop fuel pc

def isPushOnly (script : Bytes) : Bool := isPushOnlyLoop script.length script

/-- `IsPayToScriptHash`: `OP_HASH160 <20 bytes> OP_EQUAL`. -/
def isPayToScriptHash (script : Bytes) : Bool :=
  script.length == 23 && script[0]? == some opHash160 && script[1]? == some 0x14 &&
    script[22]? == some opEqual

/-- `CScript::operator<<(const std::vector<unsigned char>&)` on an empty script: the
shortest push of `b`, as `CScript(b)` builds it. -/
def pushData (b : Bytes) : Bytes :=
  if b.length < opPushdata1.toNat then UInt8.ofNat b.length :: b
  else if b.length ≤ 0xff then opPushdata1 :: UInt8.ofNat b.length :: b
  else if b.length ≤ 0xffff then opPushdata2 :: Wire.leBytes 2 b.length ++ b
  else opPushdata4 :: Wire.leBytes 4 b.length ++ b

def skipMatches (b : Bytes) : Nat → Bytes → Nat → Bytes × Nat
  | 0, pc, nFound => (pc, nFound)
  | fuel + 1, pc, nFound =>
    if b.length ≤ pc.length && pc.take b.length == b then skipMatches b fuel (pc.drop b.length) (nFound + 1)
    else (pc, nFound)

/-- The outer `do`-loop. Each round copies the instruction that the previous
round's `GetOp` stepped over into `result`; here a round copies the instruction
it steps over itself, which is the same. When `GetOp` fails, the rest of the
script from after the last skipped copy is what `result` is completed with. -/
def findAndDeleteLoop (b : Bytes) : Nat → Bytes → Bytes → Nat → Bytes × Nat
  | 0, pc, result, nFound => (result ++ pc, nFound)
  | fuel + 1, pc, result, nFound =>
    let (pc, nFound) := skipMatches b pc.length pc nFound
    match getOp pc with
    | none => (result ++ pc, nFound)
    | some (_, _, rest) => findAndDeleteLoop b fuel rest (result ++ pc.take (pc.length - rest.length)) nFound

/-- `FindAndDelete`: the script without the copies of `b` that start at an
instruction boundary; unchanged when there are none. -/
def findAndDelete (script b : Bytes) : Bytes :=
  if b.isEmpty then script
  else
    let (result, nFound) := findAndDeleteLoop b script.length script [] 0
    if nFound > 0 then result else script

/-- `DecodeOP_N`, called only on `OP_0` and `OP_1` to `OP_16`, where its `assert` holds. -/
def decodeOpN (opcode : UInt8) : Nat := if opcode = op0 then 0 else opcode.toNat - (op1.toNat - 1)

/-- The weight `GetSigOpCount` gives `opcode`, after `lastOpcode`. -/
def sigOpWeight (fAccurate : Bool) (lastOpcode opcode : UInt8) : Nat :=
  if opcode = opChecksig || opcode = opChecksigverify then 1
  else if opcode = opCheckmultisig || opcode = opCheckmultisigverify then
    if fAccurate && op1 ≤ lastOpcode && lastOpcode ≤ op16 then decodeOpN lastOpcode
    else maxPubkeysPerMultisig
  else 0

/-- The loop of `GetSigOpCount(bool)`, which stops at the first instruction `GetOp`
cannot read. -/
def sigOpCountLoop (fAccurate : Bool) : Nat → UInt8 → Bytes → Nat → Nat
  | 0, _, _, n => n
  | fuel + 1, lastOpcode, pc, n =>
    match pc with
    | [] => n
    | _ :: _ =>
      match getOp pc with
      | none => n
      | some (opcode, _, pc) => sigOpCountLoop fAccurate fuel opcode pc (n + sigOpWeight fAccurate lastOpcode opcode)

def getSigOpCount (script : Bytes) (fAccurate : Bool) : Nat :=
  sigOpCountLoop fAccurate script.length opInvalidopcode script 0

/-- The loop of `GetSigOpCount(const CScript& scriptSig)`: the data of the last
instruction, `none` where it returns `0` early. -/
def lastPushLoop : Nat → Bytes → Bytes → Option Bytes
  | 0, _, data => some data
  | fuel + 1, pc, data =>
    match pc with
    | [] => some data
    | _ :: _ =>
      match getOp pc with
      | none => none
      | some (opcode, data, pc) => if opcode > op16 then none else lastPushLoop fuel pc data

/-- `scriptPubKey.GetSigOpCount(scriptSig)`: for a pay-to-script-hash output, the
accurate count of the script that `scriptSig` pushes last. -/
def getSigOpCountP2SH (scriptPubKey scriptSig : Bytes) : Nat :=
  if !isPayToScriptHash scriptPubKey then getSigOpCount scriptPubKey true
  else
    match lastPushLoop scriptSig.length scriptSig [] with
    | none => 0
    | some data => getSigOpCount data true

namespace CScriptNum

def nDefaultMaxNumSize : Nat := 4

/-- `set_vch`: a little-endian magnitude whose top bit is the sign; clearing the
sign bit of a number with that bit set is taking it modulo the bit. -/
def setVch (vch : Bytes) : Int :=
  match vch.getLast? with
  | none => 0
  | some last =>
    if last &&& 0x80 ≠ 0 then -((Wire.readLE vch % 2 ^ (8 * vch.length - 1) : Nat) : Int)
    else Wire.readLE vch

/-- The constructor from a stack element. It throws `scriptnum_error`, here
`none`, for an element longer than `nMaxNumSize`, or, under `fRequireMinimal`, for
one with a needless top byte (which also rejects negative zero). -/
def ofBytes (vch : Bytes) (fRequireMinimal : Bool) (nMaxNumSize : Nat) : Option Int :=
  if vch.length > nMaxNumSize then none
  else
    match vch.getLast? with
    | some last =>
      if fRequireMinimal && last &&& 0x7f == 0 &&
          (vch.length ≤ 1 || (vch.getD (vch.length - 2) 0) &&& 0x80 == 0) then none
      else some (setVch vch)
    | none => some (setVch vch)

/-- `getint`: the value clamped to the range of `int`. -/
def getint (value : Int) : Int := max (min value (2 ^ 31 - 1)) (-2 ^ 31)

/-- The bytes of a magnitude, least significant first; a `uint64_t` has eight. -/
def magnitudeBytes : Nat → Nat → Bytes
  | 0, _ => []
  | fuel + 1, absvalue => if absvalue = 0 then [] else UInt8.ofNat absvalue :: magnitudeBytes fuel (absvalue / 256)

/-- `serialize`, which `getvch` calls. The magnitude of a negative value is
`-value`, which overflows for `INT64_MIN`. -/
def serialize (value : Int) : Checked Bytes :=
  if value = 0 then pure []
  else if value = int64Min then throw .overflow
  else
    let neg := decide (value < 0)
    let result := magnitudeBytes 8 value.natAbs
    match result.getLast? with
    | none => pure result
    | some last =>
      if last &&& 0x80 ≠ 0 then pure (result ++ [if neg then 0x80 else 0])
      else if neg then pure (result.dropLast ++ [last ||| 0x80])
      else pure result

/-- `operator+=(int64_t)`, with its `assert` that the sum fits. -/
def addAssign (value rhs : Int) : Checked Int :=
  if rhs = 0 ∨ (rhs > 0 ∧ value ≤ int64Max - rhs) ∨ (rhs < 0 ∧ value ≥ int64Min - rhs) then
    pure (value + rhs)
  else throw .assertion

/-- `operator-=(int64_t)`, with its `assert`. -/
def subAssign (value rhs : Int) : Checked Int :=
  if rhs = 0 ∨ (rhs > 0 ∧ value ≥ int64Min + rhs) ∨ (rhs < 0 ∧ value ≤ int64Max + rhs) then
    pure (value - rhs)
  else throw .assertion

/-- Unary `operator-`, with its `assert(m_value != INT64_MIN)`. -/
def neg (value : Int) : Checked Int :=
  if value ≠ int64Min then pure (-value) else throw .assertion

/-- `operator+`: no `assert`, and a signed overflow where the sum leaves `int64_t`. -/
def add (value rhs : Int) : Checked Int :=
  if InInt64 (value + rhs) then pure (value + rhs) else throw .overflow

def sub (value rhs : Int) : Checked Int :=
  if InInt64 (value - rhs) then pure (value - rhs) else throw .overflow

end CScriptNum

end Gaiacoin
