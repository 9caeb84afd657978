import Gaiacoin.Script.Script
import Gaiacoin.Shared.ErrorState
import Gaiacoin.Shared.Digest160

set_option autoImplicit false

/-!
# The script interpreter (`script/interpreter.cpp`)

`EvalScript` runs one script over a stack; `VerifyScript` runs a `scriptSig` and a
`scriptPubKey`, and for a pay-to-script-hash output the script that `scriptSig`
pushed last. Stacks are lists with their top first.

An interpreter program (`Interp`) can stop early in two ways: with a script
error, which is `return set_error(serror, ...)` and makes the call return
`false`; or with a `Fault`, a failed `assert` or an undefined behaviour, which
ends the program. Inside `EvalScript` every exception is caught by its
`catch (...)` and becomes `SCRIPT_ERR_UNKNOWN_ERROR`, so a call that throws there
is modelled as that error. The state of an `Interp` program is the number of
calls made so far to the signature checker's `CheckSig`: it is what the
signature-operation limits are meant to bound.

The signature checker is a parameter, as `BaseSignatureChecker` is a virtual
interface; so is libsecp256k1's `CheckLowS`, the one test of a signature's value
that the encoding checks make.
-/

namespace Gaiacoin

/-- The codes `EvalScript` and `VerifyScript` report when they return `false`. -/
inductive ScriptError where
  | unknownError | evalFalse | opReturn
  | scriptSize | pushSize | opCount | stackSize | sigCount | pubkeyCount
  | verify | equalverify | checkmultisigverify | checksigverify | numequalverify
  | badOpcode | disabledOpcode | invalidStackOperation | invalidAltstackOperation
  | unbalancedConditional
  | negativeLocktime | unsatisfiedLocktime
  | sigHashtype | sigDer | minimaldata | sigPushonly | sigHighS | sigNulldummy | pubkeytype
  | cleanstack | minimalif | sigNullfail
  | discourageUpgradableNops
  deriving DecidableEq, Repr

inductive Halt where
  | error (serror : ScriptError)
  | fault (fault : Fault)
  deriving DecidableEq, Repr

abbrev Interp := EStateM Halt Nat

def fail {α : Type} (serror : ScriptError) : Interp α := throw (.error serror)

def ofScript {α : Type} : Except ScriptError α → Interp α := ErrorState.ofExcept Halt.error

/-- A computation that can also fault, such as `CScriptNum` arithmetic. -/
def ofHalt {α : Type} : Except Halt α → Interp α := ErrorState.ofExcept id

/-- `if (condition) return set_error(serror, ...)`. -/
def failIf (condition : Bool) (serror : ScriptError) : Interp Unit :=
  if condition then fail serror else pure ()

/-- `assert(condition)`. -/
def assertHolds (condition : Bool) : Interp Unit :=
  if condition then pure () else throw (.fault .assertion)

def scriptVerifyNone : UInt32 := 0
def scriptVerifyP2SH : UInt32 := (1 : UInt32) <<< 0
def scriptVerifyStrictenc : UInt32 := (1 : UInt32) <<< 1
def scriptVerifyDersig : UInt32 := (1 : UInt32) <<< 2
def scriptVerifyLowS : UInt32 := (1 : UInt32) <<< 3
def scriptVerifyNulldummy : UInt32 := (1 : UInt32) <<< 4
def scriptVerifySigpushonly : UInt32 := (1 : UInt32) <<< 5
def scriptVerifyMinimaldata : UInt32 := (1 : UInt32) <<< 6
def scriptVerifyDiscourageUpgradableNops : UInt32 := (1 : UInt32) <<< 7
def scriptVerifyCleanstack : UInt32 := (1 : UInt32) <<< 8
def scriptVerifyChecklocktimeverify : UInt32 := (1 : UInt32) <<< 9
def scriptVerifyDerkey : UInt32 := (1 : UInt32) <<< 10
def scriptVerifyChecksequenceverify : UInt32 := (1 : UInt32) <<< 11
def scriptVerifyMinimalif : UInt32 := (1 : UInt32) <<< 13
def scriptVerifyNullfail : UInt32 := (1 : UInt32) <<< 14

/-- `(flags & flag) != 0`. -/
def hasFlag (flags flag : UInt32) : Bool := flags &&& flag != 0

/-- `BaseSignatureChecker`: the three virtual checks. -/
structure BaseSignatureChecker where
  checkSig : Bytes → Bytes → Bytes → Bool
  checkLockTime : Int → Bool
  checkSequence : Int → Bool

/-- A call to `checker.CheckSig(vchSig, vchPubKey, scriptCode)`, counted. -/
def callCheckSig (checker : BaseSignatureChecker) (vchSig vchPubKey scriptCode : Bytes) :
    Interp Bool :=
  modifyGet fun calls => (checker.checkSig vchSig vchPubKey scriptCode, calls + 1)

/-- `CTxIn::SEQUENCE_LOCKTIME_DISABLE_FLAG`. -/
def sequenceLocktimeDisableFlag : Nat := 1 <<< 31

def vchFalse : Bytes := []
def vchTrue : Bytes := [1]

/-- `CastToBool`: some byte is not zero, other than a last `0x80` (negative zero). -/
def castToBool : Bytes → Bool
  | [] => false
  | [b] => b != 0 && b != 0x80
  | b :: rest => b != 0 || castToBool rest

/-- `stacktop(-i)`, that is `stack.at(stack.size() - i)`, which throws past the bottom. -/
def stacktop (stack : List Bytes) (i : Nat) : Except ScriptError Bytes :=
  match stack[i - 1]? with
  | some vch => pure vch
  | none => throw .unknownError

/-- `popstack`, which throws on an empty stack. -/
def popstack : List Bytes → Except ScriptError (List Bytes)
  | [] => throw .unknownError
  | _ :: rest => pure rest

/-- A `CScriptNum` made from a stack element; its `scriptnum_error` is caught. -/
def scriptNum (vch : Bytes) (fRequireMinimal : Bool) (nMaxNumSize : Nat) :
    Except ScriptError Int :=
  match CScriptNum.ofBytes vch fRequireMinimal nMaxNumSize with
  | some value => pure value
  | none => throw .unknownError

def isCompressedOrUncompressedPubKey (vchPubKey : Bytes) : Bool :=
  if vchPubKey.length < 33 then false
  else if vchPubKey.head? == some 0x04 then vchPubKey.length == 65
  else if vchPubKey.head? == some 0x02 || vchPubKey.head? == some 0x03 then vchPubKey.length == 33
  else false

/-- `IsValidSignatureEncoding` with its hash type byte: strict DER. The indices it
reads are inside the signature once the length checks before them pass. -/
def isValidSignatureEncoding (sig : Bytes) : Bool :=
  let byteAt (i : Nat) : UInt8 := sig.getD i 0
  let lenR := (byteAt 3).toNat
  let lenS := (byteAt (5 + lenR)).toNat
  decide (9 ≤ sig.length) && decide (sig.length ≤ 73) && byteAt 0 == 0x30 &&
    (byteAt 1).toNat == sig.length - 3 && decide (5 + lenR < sig.length) &&
    lenR + lenS + 7 == sig.length && byteAt 2 == 0x02 && lenR != 0 &&
    byteAt 4 &&& 0x80 == 0 && !(lenR > 1 && byteAt 4 == 0x00 && byteAt 5 &&& 0x80 == 0) &&
    byteAt (lenR + 4) == 0x02 && lenS != 0 && byteAt (lenR + 6) &&& 0x80 == 0 &&
    !(lenS > 1 && byteAt (lenR + 6) == 0x00 && byteAt (lenR + 7) &&& 0x80 == 0)

/-- `IsLowDERSignature`: strict DER, and `CPubKey::CheckLowS` of the signature
without its hash type byte. -/
def isLowDERSignature (checkLowS : Bytes → Bool) (vchSig : Bytes) : Except ScriptError Unit :=
  if !isValidSignatureEncoding vchSig then throw .sigDer
  else if !checkLowS vchSig.dropLast then throw .sigHighS
  else pure ()

/-- `IsDefinedHashtypeSignature`: the hash type without `SIGHASH_ANYONECANPAY` is
`SIGHASH_ALL`, `SIGHASH_NONE` or `SIGHASH_SINGLE`. -/
def isDefinedHashtypeSignature (vchSig : Bytes) : Bool :=
  match vchSig.getLast? with
  | none => false
  | some last =>
    let nHashType := last &&& ~~~0x80
    decide (1 ≤ nHashType) && decide (nHashType ≤ 3)

def checkSignatureEncoding (flags : UInt32) (checkLowS : Bytes → Bool) (vchSig : Bytes) :
    Except ScriptError Unit :=
  -- the empty signature is a compact invalid signature for CHECK(MULTI)SIG
  if vchSig.isEmpty then pure ()
  else if hasFlag flags (scriptVerifyDersig ||| scriptVerifyLowS ||| scriptVerifyStrictenc) &&
      !isValidSignatureEncoding vchSig then throw .sigDer
  else do
    if hasFlag flags scriptVerifyLowS then isLowDERSignature checkLowS vchSig
    if hasFlag flags scriptVerifyStrictenc && !isDefinedHashtypeSignature vchSig then
      throw .sigHashtype

def checkPubKeyEncoding (flags : UInt32) (vchPubKey : Bytes) : Except ScriptError Unit :=
  if hasFlag flags (scriptVerifyDerkey ||| scriptVerifyStrictenc) &&
      !isCompressedOrUncompressedPubKey vchPubKey then throw .pubkeytype
  else pure ()

/-- `CheckMinimalPush`: the data could not have been pushed by a shorter opcode. -/
def checkMinimalPush (data : Bytes) (opcode : UInt8) : Bool :=
  match data with
  | [] => opcode == op0
  | [b] =>
    if 1 ≤ b && b ≤ 16 then opcode == op1 + (b - 1)
    else if b == 0x81 then opcode == op1negate
    else opcode.toNat == 1
  | _ =>
    if data.length ≤ 75 then opcode.toNat == data.length
    else if data.length ≤ 255 then opcode == opPushdata1
    else if data.length ≤ 65535 then opcode == opPushdata2
    else true

/-- The cases of `EvalScript`'s `switch` that only move stack elements. -/
inductive StackOp where
  | drop2 | dup2 | dup3 | over2 | rot2 | swap2 | ifdup | drop | dup | nip | over | rot | swap | tuck
  deriving DecidableEq, Repr

inductive UnaryOp where
  | add1 | sub1 | negate | abs | not | zeroNotEqual
  deriving DecidableEq, Repr

inductive BinaryOp where
  | add | sub | boolAnd | boolOr | numEqual | numEqualVerify | numNotEqual
  | lessThan | greaterThan | lessThanOrEqual | greaterThanOrEqual | min | max
  deriving DecidableEq, Repr

inductive HashOp where
  | ripemd160 | sha1 | sha256 | hash160 | hash256
  deriving DecidableEq, Repr

/-- The cases of `EvalScript`'s `switch`: one constructor for each group of
`case` labels that share a body. -/
inductive Instruction where
  | pushValue (value : Int)
  | nop
  | checkLockTimeVerify
  | checkSequenceVerify
  | upgradableNop
  | ifNotif (notif : Bool)
  | opElse
  | opEndif
  | verify
  | opReturn
  | toAltstack
  | fromAltstack
  | stack (op : StackOp)
  | depth
  | pickRoll (roll : Bool)
  | size
  | equal (verify : Bool)
  | unary (op : UnaryOp)
  | binary (op : BinaryOp)
  | within
  | hash (op : HashOp)
  | codeSeparator
  | checkSig (verify : Bool)
  | checkMultiSig (verify : Bool)
  | bad
  deriving DecidableEq, Repr

/-- The `case` label of the `switch` that an opcode falls under; `bad` is its
`default`. `OP_1NEGATE` and `OP_1` to `OP_16` push `(int)opcode - (int)(OP_1 - 1)`. -/
def Instruction.ofOpcode (opcode : UInt8) : Instruction :=
  match opcode.toNat with
  | 0x4f | 0x51 | 0x52 | 0x53 | 0x54 | 0x55 | 0x56 | 0x57 | 0x58 | 0x59 | 0x5a | 0x5b | 0x5c
  | 0x5d | 0x5e | 0x5f | 0x60 => .pushValue ((opcode.toNat : Int) - 0x50)
  | 0x61 => .nop
  | 0xb1 => .checkLockTimeVerify
  | 0xb2 => .checkSequenceVerify
  | 0xb0 | 0xb3 | 0xb4 | 0xb5 | 0xb6 | 0xb7 | 0xb8 | 0xb9 => .upgradableNop
  | 0x63 => .ifNotif false
  | 0x64 => .ifNotif true
  | 0x67 => .opElse
  | 0x68 => .opEndif
  | 0x69 => .verify
  | 0x6a => .opReturn
  | 0x6b => .toAltstack
  | 0x6c => .fromAltstack
  | 0x6d => .stack .drop2
  | 0x6e => .stack .dup2
  | 0x6f => .stack .dup3
  | 0x70 => .stack .over2
  | 0x71 => .stack .rot2
  | 0x72 => .stack .swap2
  | 0x73 => .stack .ifdup
  | 0x74 => .depth
  | 0x75 => .stack .drop
  | 0x76 => .stack .dup
  | 0x77 => .stack .nip
  | 0x78 => .stack .over
  | 0x79 => .pickRoll false
  | 0x7a => .pickRoll true
  | 0x7b => .stack .rot
  | 0x7c => .stack .swap
  | 0x7d => .stack .tuck
  | 0x82 => .size
  | 0x87 => .equal false
  | 0x88 => .equal true
  | 0x8b => .unary .add1
  | 0x8c => .unary .sub1
  | 0x8f => .unary .negate
  | 0x90 => .unary .abs
  | 0x91 => .unary .not
  | 0x92 => .unary .zeroNotEqual
  | 0x93 => .binary .add
  | 0x94 => .binary .sub
  | 0x9a => .binary .boolAnd
  | 0x9b => .binary .boolOr
  | 0x9c => .binary .numEqual
  | 0x9d => .binary .numEqualVerify
  | 0x9e => .binary .numNotEqual
  | 0x9f => .binary .lessThan
  | 0xa0 => .binary .greaterThan
  | 0xa1 => .binary .lessThanOrEqual
  | 0xa2 => .binary .greaterThanOrEqual
  | 0xa3 => .binary .min
  | 0xa4 => .binary .max
  | 0xa5 => .within
  | 0xa6 => .hash .ripemd160
  | 0xa7 => .hash .sha1
  | 0xa8 => .hash .sha256
  | 0xa9 => .hash .hash160
  | 0xaa => .hash .hash256
  | 0xab => .codeSeparator
  | 0xac => .checkSig false
  | 0xad => .checkSig true
  | 0xae => .checkMultiSig false
  | 0xaf => .checkMultiSig true
  | _ => .bad

/-- `OP_CAT`, `OP_SUBSTR`, `OP_LEFT`, `OP_RIGHT`, `OP_INVERT`, `OP_AND`, `OP_OR`,
`OP_XOR`, `OP_2MUL`, `OP_2DIV`, `OP_MUL`, `OP_DIV`, `OP_MOD`, `OP_LSHIFT` and
`OP_RSHIFT` fail wherever they are, executed or not. -/
def isDisabled (opcode : UInt8) : Bool :=
  opcode.toNat ∈ [0x7e, 0x7f, 0x80, 0x81, 0x83, 0x84, 0x85, 0x86, 0x8d, 0x8e, 0x95, 0x96, 0x97,
    0x98, 0x99]

/-- The locals of `EvalScript` that live across the rounds of its loop. The
condition stack `vfExec` has its innermost condition first; `pbegincodehash` is
the script from the last `OP_CODESEPARATOR` on. -/
structure Machine where
  stack : List Bytes
  altstack : List Bytes
  vfExec : List Bool
  nOpCount : Nat
  pbegincodehash : Bytes

/-- `fExec`: no condition on `vfExec` is false. -/
def Machine.fExec (m : Machine) : Bool := m.vfExec.all id

def StackOp.apply : StackOp → List Bytes → Option (List Bytes)
  | .drop2, _ :: _ :: rest => some rest
  | .dup2, x2 :: x1 :: rest => some (x2 :: x1 :: x2 :: x1 :: rest)
  | .dup3, x3 :: x2 :: x1 :: rest => some (x3 :: x2 :: x1 :: x3 :: x2 :: x1 :: rest)
  | .over2, x4 :: x3 :: x2 :: x1 :: rest => some (x2 :: x1 :: x4 :: x3 :: x2 :: x1 :: rest)
  | .rot2, x6 :: x5 :: x4 :: x3 :: x2 :: x1 :: rest =>
    some (x2 :: x1 :: x6 :: x5 :: x4 :: x3 :: rest)
  | .swap2, x4 :: x3 :: x2 :: x1 :: rest => some (x2 :: x1 :: x4 :: x3 :: rest)
  | .ifdup, x :: rest => some (if castToBool x then x :: x :: rest else x :: rest)
  | .drop, _ :: rest => some rest
  | .dup, x :: rest => some (x :: x :: rest)
  | .nip, x2 :: _ :: rest => some (x2 :: rest)
  | .over, x2 :: x1 :: rest => some (x1 :: x2 :: x1 :: rest)
  | .rot, x3 :: x2 :: x1 :: rest => some (x1 :: x3 :: x2 :: rest)
  | .swap, x2 :: x1 :: rest => some (x1 :: x2 :: rest)
  | .tuck, x2 :: x1 :: rest => some (x2 :: x1 :: x2 :: rest)
  | _, _ => none

def UnaryOp.apply (op : UnaryOp) (bn : Int) : Checked Int :=
  match op with
  | .add1 => CScriptNum.addAssign bn 1
  | .sub1 => CScriptNum.subAssign bn 1
  | .negate => CScriptNum.neg bn
  | .abs => if bn < 0 then CScriptNum.neg bn else pure bn
  | .not => pure (if bn = 0 then 1 else 0)
  | .zeroNotEqual => pure (if bn ≠ 0 then 1 else 0)

def BinaryOp.apply (op : BinaryOp) (bn1 bn2 : Int) : Checked Int :=
  match op with
  | .add => CScriptNum.add bn1 bn2
  | .sub => CScriptNum.sub bn1 bn2
  | .boolAnd => pure (if bn1 ≠ 0 ∧ bn2 ≠ 0 then 1 else 0)
  | .boolOr => pure (if bn1 ≠ 0 ∨ bn2 ≠ 0 then 1 else 0)
  | .numEqual | .numEqualVerify => pure (if bn1 = bn2 then 1 else 0)
  | .numNotEqual => pure (if bn1 ≠ bn2 then 1 else 0)
  | .lessThan => pure (if bn1 < bn2 then 1 else 0)
  | .greaterThan => pure (if bn1 > bn2 then 1 else 0)
  | .lessThanOrEqual => pure (if bn1 ≤ bn2 then 1 else 0)
  | .greaterThanOrEqual => pure (if bn1 ≥ bn2 then 1 else 0)
  | .min => pure (if bn1 < bn2 then bn1 else bn2)
  | .max => pure (if bn1 > bn2 then bn1 else bn2)

def HashOp.apply : HashOp → Bytes → Bytes
  | .ripemd160, vch => Ripemd160.ripemd160 vch
  | .sha1, vch => Sha1.sha1 vch
  | .sha256, vch => Sha256.sha256 vch
  | .hash160, vch => Ripemd160.ripemd160 (Sha256.sha256 vch)
  | .hash256, vch => Sha256.hash256 vch

section Cases

variable (flags : UInt32) (checker : BaseSignatureChecker) (checkLowS : Bytes → Bool)

def requireMinimal : Bool := hasFlag flags scriptVerifyMinimaldata

/-- `OP_CHECKLOCKTIMEVERIFY`, a `NOP2` unless its flag is set; the operand may
have five bytes. -/
def checkLockTimeVerify (m : Machine) : Except ScriptError Machine :=
  if !hasFlag flags scriptVerifyChecklocktimeverify then
    if hasFlag flags scriptVerifyDiscourageUpgradableNops then throw .discourageUpgradableNops
    else pure m
  else
    match m.stack with
    | [] => throw .invalidStackOperation
    | top :: _ => do
      let nLockTime ← scriptNum top (requireMinimal flags) 5
      if nLockTime < 0 then throw .negativeLocktime
      if !checker.checkLockTime nLockTime then throw .unsatisfiedLocktime
      pure m

/-- `OP_CHECKSEQUENCEVERIFY`, a `NOP3` unless its flag is set, and a `NOP` for an
operand with the disable flag. -/
def checkSequenceVerify (m : Machine) : Except ScriptError Machine :=
  if !hasFlag flags scriptVerifyChecksequenceverify then
    if hasFlag flags scriptVerifyDiscourageUpgradableNops then throw .discourageUpgradableNops
    else pure m
  else
    match m.stack with
    | [] => throw .invalidStackOperation
    | top :: _ => do
      let nSequence ← scriptNum top (requireMinimal flags) 5
      if nSequence < 0 then throw .negativeLocktime
      -- `nSequence` is not negative here
      if nSequence.toNat &&& sequenceLocktimeDisableFlag ≠ 0 then pure m
      else if !checker.checkSequence nSequence then throw .unsatisfiedLocktime
      else pure m

/-- `OP_NOP1` and `OP_NOP4` to `OP_NOP10`. -/
def upgradableNop (m : Machine) : Except ScriptError Machine :=
  if hasFlag flags scriptVerifyDiscourageUpgradableNops then throw .discourageUpgradableNops
  else pure m

/-- `OP_IF` and `OP_NOTIF`: in a branch that is not executed only the condition
stack grows. -/
def ifNotif (fExec notif : Bool) (m : Machine) : Except ScriptError Machine :=
  if fExec then
    match m.stack with
    | [] => throw .unbalancedConditional
    | vch :: rest => do
      if hasFlag flags scriptVerifyMinimalif then
        if vch.length > 1 then throw .minimalif
        if vch.length = 1 ∧ vch ≠ [1] then throw .minimalif
      let fValue := if notif then !castToBool vch else castToBool vch
      pure { m with stack := rest, vfExec := fValue :: m.vfExec }
  else pure { m with vfExec := false :: m.vfExec }

end Cases

def execElse (m : Machine) : Except ScriptError Machine :=
  match m.vfExec with
  | [] => throw .unbalancedConditional
  | fValue :: rest => pure { m with vfExec := (!fValue) :: rest }

def execEndif (m : Machine) : Except ScriptError Machine :=
  match m.vfExec with
  | [] => throw .unbalancedConditional
  | _ :: rest => pure { m with vfExec := rest }

def execVerify (m : Machine) : Except ScriptError Machine :=
  match m.stack with
  | [] => throw .invalidStackOperation
  | top :: rest => if castToBool top then pure { m with stack := rest } else throw .verify

def toAltstack (m : Machine) : Except ScriptError Machine :=
  match m.stack with
  | [] => throw .invalidStackOperation
  | top :: rest => pure { m with stack := rest, altstack := top :: m.altstack }

def fromAltstack (m : Machine) : Except ScriptError Machine :=
  match m.altstack with
  | [] => throw .invalidAltstackOperation
  | top :: rest => pure { m with stack := top :: m.stack, altstack := rest }

def stackOp (op : StackOp) (m : Machine) : Except ScriptError Machine :=
  match op.apply m.stack with
  | none => throw .invalidStackOperation
  | some stack => pure { m with stack }

/-- `OP_PICK` and `OP_ROLL`: after the index is popped, `stacktop(-n-1)` is the
`n`-th element from the top. -/
def pickRoll (fRequireMinimal roll : Bool) (m : Machine) : Except ScriptError Machine :=
  match m.stack with
  | top :: rest@(_ :: _) => do
    let n := CScriptNum.getint (← scriptNum top fRequireMinimal CScriptNum.nDefaultMaxNumSize)
    if n < 0 ∨ n ≥ rest.length then throw .invalidStackOperation
    let vch ← stacktop rest (n.toNat + 1)
    let rest := if roll then rest.eraseIdx n.toNat else rest
    pure { m with stack := vch :: rest }
  | _ => throw .invalidStackOperation

def equal (verify : Bool) (m : Machine) : Except ScriptError Machine :=
  match m.stack with
  | vch2 :: vch1 :: rest =>
    let fEqual := vch1 == vch2
    if verify then
      if fEqual then pure { m with stack := rest } else throw .equalverify
    else pure { m with stack := (if fEqual then vchTrue else vchFalse) :: rest }
  | _ => throw .invalidStackOperation

/-- `OP_WITHIN`: `min <= x < max`, with `max` on top. -/
def within (fRequireMinimal : Bool) (m : Machine) : Except ScriptError Machine :=
  match m.stack with
  | vchMax :: vchMin :: vchX :: rest => do
    let bn1 ← scriptNum vchX fRequireMinimal CScriptNum.nDefaultMaxNumSize
    let bn2 ← scriptNum vchMin fRequireMinimal CScriptNum.nDefaultMaxNumSize
    let bn3 ← scriptNum vchMax fRequireMinimal CScriptNum.nDefaultMaxNumSize
    let fValue := decide (bn2 ≤ bn1) && decide (bn1 < bn3)
    pure { m with stack := (if fValue then vchTrue else vchFalse) :: rest }
  | _ => throw .invalidStackOperation

def opHash (op : HashOp) (m : Machine) : Except ScriptError Machine :=
  match m.stack with
  | [] => throw .invalidStackOperation
  | vch :: rest => pure { m with stack := op.apply vch :: rest }

def scriptNumHalt (vch : Bytes) (fRequireMinimal : Bool) : Except Halt Int :=
  (scriptNum vch fRequireMinimal CScriptNum.nDefaultMaxNumSize).mapError .error

def checked {α : Type} (x : Checked α) : Except Halt α := x.mapError .fault

def pushValue (value : Int) (m : Machine) : Except Halt Machine := do
  let vch ← checked (CScriptNum.serialize value)
  pure { m with stack := vch :: m.stack }

def depth (m : Machine) : Except Halt Machine := do
  let vch ← checked (CScriptNum.serialize m.stack.length)
  pure { m with stack := vch :: m.stack }

def size (m : Machine) : Except Halt Machine :=
  match m.stack with
  | [] => throw (.error .invalidStackOperation)
  | top :: _ => do
    let vch ← checked (CScriptNum.serialize top.length)
    pure { m with stack := vch :: m.stack }

def unary (fRequireMinimal : Bool) (op : UnaryOp) (m : Machine) : Except Halt Machine :=
  match m.stack with
  | [] => throw (.error .invalidStackOperation)
  | top :: rest => do
    let bn ← scriptNumHalt top fRequireMinimal
    let bn ← checked (op.apply bn)
    let vch ← checked (CScriptNum.serialize bn)
    pure { m with stack := vch :: rest }

/-- The binary numeric opcodes; `OP_NUMEQUALVERIFY` pops its result again when it
is true. -/
def binary (fRequireMinimal : Bool) (op : BinaryOp) (m : Machine) : Except Halt Machine :=
  match m.stack with
  | vch2 :: vch1 :: rest => do
    let bn1 ← scriptNumHalt vch1 fRequireMinimal
    let bn2 ← scriptNumHalt vch2 fRequireMinimal
    let bn ← checked (op.apply bn1 bn2)
    let vch ← checked (CScriptNum.serialize bn)
    if op = .numEqualVerify then
      if castToBool vch then pure { m with stack := rest } else throw (.error .numequalverify)
    else pure { m with stack := vch :: rest }
  | _ => throw (.error .invalidStackOperation)

section Signatures

variable (flags : UInt32) (checker : BaseSignatureChecker) (checkLowS : Bytes → Bool)

/-- `OP_CHECKSIG` and `OP_CHECKSIGVERIFY`. The script code is the script from the
last `OP_CODESEPARATOR` on, without the signature. -/
def checkSig (verify : Bool) (m : Machine) : Interp Machine :=
  match m.stack with
  | vchPubKey :: vchSig :: rest => do
    let scriptCode := findAndDelete m.pbegincodehash (pushData vchSig)
    ofScript (checkSignatureEncoding flags checkLowS vchSig)
    ofScript (checkPubKeyEncoding flags vchPubKey)
    let fSuccess ← callCheckSig checker vchSig vchPubKey scriptCode
    failIf (!fSuccess && hasFlag flags scriptVerifyNullfail && vchSig.length ≠ 0) .sigNullfail
    if verify then
      if fSuccess then pure { m with stack := rest } else fail .checksigverify
    else pure { m with stack := (if fSuccess then vchTrue else vchFalse) :: rest }
  | _ => fail .invalidStackOperation

/-- The loop `while (fSuccess && nSigsCount > 0)` of `OP_CHECKMULTISIG`, which
returns `fSuccess`. Each round moves on one key, so it is structural in
`nKeysCount`; it is entered with `nSigsCount <= nKeysCount`, and a round that
breaks that ends the loop, so when no key is left no signature is left either. -/
def checkMultiSigLoop (stack : List Bytes) (scriptCode : Bytes) :
    Nat → Nat → Nat → Nat → Interp Bool
  | _, _, _, 0 => pure true
  | isig, ikey, nSigsCount, nKeysCount + 1 =>
    if nSigsCount = 0 then pure true
    else do
      let vchSig ← ofScript (stacktop stack isig)
      let vchPubKey ← ofScript (stacktop stack ikey)
      ofScript (checkSignatureEncoding flags checkLowS vchSig)
      ofScript (checkPubKeyEncoding flags vchPubKey)
      let fOk ← callCheckSig checker vchSig vchPubKey scriptCode
      let isig := if fOk then isig + 1 else isig
      let nSigsCount := if fOk then nSigsCount - 1 else nSigsCount
      -- too many signatures have failed: exit early
      if nSigsCount > nKeysCount then pure false
      else checkMultiSigLoop stack scriptCode isig (ikey + 1) nSigsCount nKeysCount

/-- `while (i-- > 1)`: pop the `count` arguments; once the first `ikey2` (the key
count, the keys and the signature count) are gone, under `nullFail` what is
popped must be an empty signature. -/
def popArguments (nullFail : Bool) : Nat → Nat → List Bytes → Except ScriptError (List Bytes)
  | 0, _, stack => pure stack
  | count + 1, ikey2, stack => do
    if nullFail && ikey2 == 0 then
      let top ← stacktop stack 1
      if top.length ≠ 0 then throw .sigNullfail
    let stack ← popstack stack
    popArguments nullFail count (ikey2 - 1) stack

/-- `OP_CHECKMULTISIG` and `OP_CHECKMULTISIGVERIFY`: the key count on top, the
keys, the signature count, the signatures, and one more element that a bug
makes it consume. `i`, `ikey` and `isig` count from the top, as `stacktop(-i)`. -/
def checkMultiSig (verify : Bool) (m : Machine) : Interp Machine := do
  let stack := m.stack
  failIf (stack.length < 1) .invalidStackOperation
  let nKeysCount := CScriptNum.getint
    (← ofScript (scriptNum (← ofScript (stacktop stack 1)) (requireMinimal flags)
      CScriptNum.nDefaultMaxNumSize))
  failIf (nKeysCount < 0 ∨ nKeysCount > maxPubkeysPerMultisig) .pubkeyCount
  let nOpCount := m.nOpCount + nKeysCount.toNat
  failIf (nOpCount > maxOpsPerScript) .opCount
  let ikey := 2
  let ikey2 := nKeysCount.toNat + 2
  let i := 2 + nKeysCount.toNat
  failIf (stack.length < i) .invalidStackOperation
  let nSigsCount := CScriptNum.getint
    (← ofScript (scriptNum (← ofScript (stacktop stack i)) (requireMinimal flags)
      CScriptNum.nDefaultMaxNumSize))
  failIf (nSigsCount < 0 ∨ nSigsCount > nKeysCount) .sigCount
  let isig := i + 1
  let i := isig + nSigsCount.toNat
  failIf (stack.length < i) .invalidStackOperation
  -- drop the signatures from the script code
  let scriptCode ← ofScript ((List.range nSigsCount.toNat).foldlM
    (fun scriptCode k => do pure (findAndDelete scriptCode (pushData (← stacktop stack (isig + k)))))
    m.pbegincodehash)
  let fSuccess ← checkMultiSigLoop flags checker checkLowS stack scriptCode isig ikey
    nSigsCount.toNat nKeysCount.toNat
  let stack ← ofScript
    (popArguments (!fSuccess && hasFlag flags scriptVerifyNullfail) (i - 1) ikey2 stack)
  match stack with
  | [] => fail .invalidStackOperation
  | dummy :: rest => do
    failIf (hasFlag flags scriptVerifyNulldummy && dummy.length ≠ 0) .sigNulldummy
    if verify then
      if fSuccess then pure { m with stack := rest, nOpCount } else fail .checkmultisigverify
    else pure { m with stack := (if fSuccess then vchTrue else vchFalse) :: rest, nOpCount }

/-- The body of the `switch`. `pc` is the cursor after the instruction, where
`OP_CODESEPARATOR` moves the start of the script code. -/
def executeInstruction (fExec : Bool) (pc : Bytes) (m : Machine) : Instruction → Interp Machine
  | .pushValue value => ofHalt (pushValue value m)
  | .nop => pure m
  | .checkLockTimeVerify => ofScript (checkLockTimeVerify flags checker m)
  | .checkSequenceVerify => ofScript (checkSequenceVerify flags checker m)
  | .upgradableNop => ofScript (upgradableNop flags m)
  | .ifNotif notif => ofScript (ifNotif flags fExec notif m)
  | .opElse => ofScript (execElse m)
  | .opEndif => ofScript (execEndif m)
  | .verify => ofScript (execVerify m)
  | .opReturn => fail .opReturn
  | .toAltstack => ofScript (toAltstack m)
  | .fromAltstack => ofScript (fromAltstack m)
  | .stack op => ofScript (stackOp op m)
  | .depth => ofHalt (depth m)
  | .pickRoll roll => ofScript (pickRoll (requireMinimal flags) roll m)
  | .size => ofHalt (size m)
  | .equal verify => ofScript (equal verify m)
  | .unary op => ofHalt (unary (requireMinimal flags) op m)
  | .binary op => ofHalt (binary (requireMinimal flags) op m)
  | .within => ofScript (within (requireMinimal flags) m)
  | .hash op => ofScript (opHash op m)
  | .codeSeparator => pure { m with pbegincodehash := pc }
  | .checkSig verify => checkSig flags checker checkLowS verify m
  | .checkMultiSig verify => checkMultiSig flags checker checkLowS verify m
  | .bad => fail .badOpcode

/-- The push of an executed push opcode, or the `switch`; only the conditionals
are looked at in a branch that is not executed. -/
def dispatch (fExec : Bool) (opcode : UInt8) (vchPushValue pc : Bytes) (m : Machine) :
    Interp Machine :=
  if fExec && opcode ≤ opPushdata4 then do
    failIf (requireMinimal flags && !checkMinimalPush vchPushValue opcode) .minimaldata
    pure { m with stack := vchPushValue :: m.stack }
  else if fExec || (opIf ≤ opcode && opcode ≤ opEndif) then
    executeInstruction flags checker checkLowS fExec pc m (Instruction.ofOpcode opcode)
  else pure m

/-- One round of `EvalScript`'s loop after `GetOp` has read `opcode` and its push
data and moved the cursor to `pc`: the limits, the disabled opcodes, the push or
the `switch`, and the limit on the two stacks. -/
def step (opcode : UInt8) (vchPushValue pc : Bytes) (m : Machine) : Interp Machine := do
  let fExec := m.fExec
  failIf (vchPushValue.length > maxScriptElementSize) .pushSize
  -- `OP_RESERVED` does not count towards the opcode limit
  let nOpCount := if opcode > op16 then m.nOpCount + 1 else m.nOpCount
  failIf (opcode > op16 && nOpCount > maxOpsPerScript) .opCount
  failIf (isDisabled opcode) .disabledOpcode
  let m ← dispatch flags checker checkLowS fExec opcode vchPushValue pc { m with nOpCount }
  failIf (m.stack.length + m.altstack.length > 1000) .stackSize
  pure m

/-- The loop `while (pc < pend)`, with the bytes left as fuel. -/
def evalLoop : Nat → Bytes → Machine → Interp Machine
  | 0, _, m => pure m
  | fuel + 1, pc, m =>
    match pc with
    | [] => pure m
    | _ :: _ =>
      match getOp pc with
      | none => fail .badOpcode
      | some (opcode, vchPushValue, pc) => do
        let m ← step flags checker checkLowS opcode vchPushValue pc m
        evalLoop fuel pc m

theorem evalLoop_fuel_irrelevant {pc : Bytes} {fuel fuel' : Nat} (enough : pc.length ≤ fuel)
    (enough' : pc.length ≤ fuel') (m : Machine) :
    evalLoop flags checker checkLowS fuel pc m = evalLoop flags checker checkLowS fuel' pc m := by
  induction fuel generalizing fuel' pc m with
  | zero =>
    rw [List.length_eq_zero_iff.mp (Nat.le_zero.mp enough)]
    cases fuel' <;> rfl
  | succ fuel ih =>
    match pc, fuel' with
    | [], 0 | [], _ + 1 => rfl
    | _ :: _, 0 => simp at enough'
    | byte :: rest, fuel' + 1 =>
      simp only [evalLoop]
      split
      · rfl
      · rename_i read
        have shorter := getOp_length_lt read
        simp only [List.length_cons] at enough enough' shorter
        congr 1
        funext m
        exact ih (by omega) (by omega) m

/-- `EvalScript`: the stack it leaves. -/
def evalScript (script : Bytes) (stack : List Bytes) : Interp (List Bytes) := do
  failIf (script.length > maxScriptSize) .scriptSize
  let m ← evalLoop flags checker checkLowS script.length script ⟨stack, [], [], 0, script⟩
  failIf (!m.vfExec.isEmpty) .unbalancedConditional
  pure m.stack

def checkTop (stack : List Bytes) : Interp Unit :=
  match stack with
  | [] => fail .evalFalse
  | top :: _ => failIf (!castToBool top) .evalFalse

/-- The pay-to-script-hash evaluation, on the stack `scriptSig` left: its top is
the script to run, over the rest. -/
def payToScriptHash (scriptSig : Bytes) (stackCopy : List Bytes) : Interp (List Bytes) := do
  failIf (!isPushOnly scriptSig) .sigPushonly
  match stackCopy with
  | [] => throw (.fault .assertion)
  | pubKeySerialized :: rest => do
    let stack ← evalScript flags checker checkLowS pubKeySerialized rest
    checkTop stack
    pure stack

/-- `SCRIPT_VERIFY_CLEANSTACK`, which must come with `SCRIPT_VERIFY_P2SH`. -/
def cleanStack (stack : List Bytes) : Interp Unit :=
  if hasFlag flags scriptVerifyCleanstack then do
    assertHolds (hasFlag flags scriptVerifyP2SH)
    failIf (stack.length ≠ 1) .cleanstack
  else pure ()

/-- `VerifyScript`: it returns `true` where the program returns. `stackCopy` is
only kept under `SCRIPT_VERIFY_P2SH`, the one case that reads it. -/
def verifyScript (scriptSig scriptPubKey : Bytes) : Interp Unit := do
  failIf (hasFlag flags scriptVerifySigpushonly && !isPushOnly scriptSig) .sigPushonly
  let stack ← evalScript flags checker checkLowS scriptSig []
  let stackCopy := stack
  let stack ← evalScript flags checker checkLowS scriptPubKey stack
  checkTop stack
  let stack ←
    (if hasFlag flags scriptVerifyP2SH && isPayToScriptHash scriptPubKey then
      payToScriptHash flags checker checkLowS scriptSig stackCopy
    else pure stack : Interp (List Bytes))
  cleanStack flags stack

end Signatures

end Gaiacoin
