import Gaiacoin.Script.Interpreter

set_option autoImplicit false

/-!
# `VerifyScript` never faults

On every input `VerifyScript` returns `true` or `false`: no `assert` fails and no
arithmetic overflows (`verifyScript_returns`), as long as `CLEANSTACK` comes with
`P2SH`, which `cleanStack` asserts.

The arithmetic is safe because every operand of a numeric opcode is decoded from
at most four bytes, so its magnitude is below `2^32`, and the results stay far
from the ends of `int64_t`. The `assert(!stack.empty())` before a redeem script
is run holds because a pay-to-script-hash output starts with `OP_HASH160`, which
fails on an empty stack: when `scriptSig` leaves nothing, the output has already
failed.
-/

namespace Gaiacoin

open ErrorState

def Halt.IsFault : Halt → Prop
  | .error _ => False
  | .fault _ => True

@[simp] theorem Halt.not_isFault_error (serror : ScriptError) : ¬ (Halt.error serror).IsFault :=
  fun fault => fault

section Blocks

variable {α : Type}

theorem avoids_fail (serror : ScriptError) : Avoids Halt.IsFault (fail serror : Interp α) :=
  Avoids.throw (Halt.not_isFault_error serror)

theorem avoids_failIf (condition : Bool) (serror : ScriptError) :
    Avoids Halt.IsFault (failIf condition serror) := by
  unfold failIf
  split
  · exact avoids_fail serror
  · exact Avoids.pure ()

theorem avoids_ofScript (x : Except ScriptError α) : Avoids Halt.IsFault (ofScript x) :=
  Avoids.ofExcept x fun serror _ => Halt.not_isFault_error serror

theorem avoids_ofHalt {x : Except Halt α} (scriptErrors : ∀ e, x = .error e → ¬ e.IsFault) :
    Avoids Halt.IsFault (ofHalt x) :=
  Avoids.ofExcept x scriptErrors

theorem avoids_callCheckSig (checker : BaseSignatureChecker) (vchSig vchPubKey scriptCode : Bytes) :
    Avoids Halt.IsFault (callCheckSig checker vchSig vchPubKey scriptCode) :=
  Avoids.modifyGet _

end Blocks

theorem setVch_natAbs_le (vch : Bytes) : (CScriptNum.setVch vch).natAbs ≤ Wire.readLE vch := by
  unfold CScriptNum.setVch
  split
  · simp
  · split
    · -- the magnitude of a negative number is the bytes without the sign bit
      rw [Int.natAbs_neg, Int.natAbs_natCast]
      exact Nat.mod_le _ _
    · simp

theorem ofBytes_natAbs_lt {vch : Bytes} {fRequireMinimal : Bool} {nMaxNumSize : Nat} {value : Int}
    (decoded : CScriptNum.ofBytes vch fRequireMinimal nMaxNumSize = some value) :
    value.natAbs < 256 ^ nMaxNumSize := by
  unfold CScriptNum.ofBytes at decoded
  split_ifs at decoded with tooLong
  have isSetVch : value = CScriptNum.setVch vch := by
    split at decoded
    · split_ifs at decoded
      cases decoded
      rfl
    · cases decoded
      rfl
  calc value.natAbs ≤ Wire.readLE vch := isSetVch ▸ setVch_natAbs_le vch
    _ < 256 ^ vch.length := Wire.readLE_lt vch
    _ ≤ 256 ^ nMaxNumSize := Nat.pow_le_pow_right (by norm_num) (by omega)

theorem scriptNum_natAbs_lt {vch : Bytes} {fRequireMinimal : Bool} {value : Int}
    (decoded : scriptNum vch fRequireMinimal CScriptNum.nDefaultMaxNumSize = .ok value) :
    value.natAbs < 2 ^ 32 := by
  unfold scriptNum at decoded
  split at decoded
  · rename_i read
    cases decoded
    simpa [CScriptNum.nDefaultMaxNumSize] using ofBytes_natAbs_lt read
  · cases decoded

theorem serialize_ok {value : Int} (notMin : value ≠ int64Min) :
    ∃ vch, CScriptNum.serialize value = .ok vch := by
  unfold CScriptNum.serialize
  split_ifs
  · exact ⟨_, rfl⟩
  · dsimp only
    split
    · exact ⟨_, rfl⟩
    · split_ifs <;> exact ⟨_, rfl⟩

theorem serialize_ok_of_natAbs_lt {value : Int} (small : value.natAbs < 2 ^ 63) :
    ∃ vch, CScriptNum.serialize value = .ok vch :=
  serialize_ok (by simp only [int64Min]; omega)

theorem UnaryOp.apply_ok (op : UnaryOp) {bn : Int} (small : bn.natAbs < 2 ^ 32) :
    ∃ result, op.apply bn = .ok result ∧ result.natAbs ≤ 2 ^ 32 := by
  cases op with
  | add1 =>
    refine ⟨bn + 1, ?_, by omega⟩
    simp only [UnaryOp.apply, CScriptNum.addAssign]
    rw [if_pos (by simp only [int64Max, int64Min]; omega)]
    rfl
  | sub1 =>
    refine ⟨bn - 1, ?_, by omega⟩
    simp only [UnaryOp.apply, CScriptNum.subAssign]
    rw [if_pos (by simp only [int64Max, int64Min]; omega)]
    rfl
  | negate =>
    refine ⟨-bn, ?_, by omega⟩
    simp only [UnaryOp.apply, CScriptNum.neg]
    rw [if_pos (by simp only [int64Min]; omega)]
    rfl
  | abs =>
    by_cases negative : bn < 0
    · refine ⟨-bn, ?_, by omega⟩
      simp only [UnaryOp.apply, negative, if_true, CScriptNum.neg]
      rw [if_pos (by simp only [int64Min]; omega)]
      rfl
    · exact ⟨bn, by simp [UnaryOp.apply, negative], by omega⟩
  | not => exact ⟨_, rfl, by split <;> simp⟩
  | zeroNotEqual => exact ⟨_, rfl, by split <;> simp⟩

theorem BinaryOp.apply_ok (op : BinaryOp) {bn1 bn2 : Int} (small1 : bn1.natAbs < 2 ^ 32)
    (small2 : bn2.natAbs < 2 ^ 32) :
    ∃ result, op.apply bn1 bn2 = .ok result ∧ result.natAbs < 2 ^ 33 := by
  cases op with
  | add =>
    refine ⟨bn1 + bn2, ?_, by omega⟩
    simp only [BinaryOp.apply, CScriptNum.add]
    rw [if_pos (by simp only [InInt64, int64Max, int64Min]; omega)]
    rfl
  | sub =>
    refine ⟨bn1 - bn2, ?_, by omega⟩
    simp only [BinaryOp.apply, CScriptNum.sub]
    rw [if_pos (by simp only [InInt64, int64Max, int64Min]; omega)]
    rfl
  | min | max => exact ⟨_, rfl, by split <;> omega⟩
  | boolAnd | boolOr | numEqual | numEqualVerify | numNotEqual | lessThan | greaterThan
  | lessThanOrEqual | greaterThanOrEqual => exact ⟨_, rfl, by split <;> simp⟩

section Numeric

variable {m : Machine} {e : Halt}

theorem scriptNumHalt_error {vch : Bytes} {fRequireMinimal : Bool}
    (stops : scriptNumHalt vch fRequireMinimal = .error e) : ¬ e.IsFault := by
  unfold scriptNumHalt at stops
  cases decoded : scriptNum vch fRequireMinimal CScriptNum.nDefaultMaxNumSize with
  | ok value => simp [decoded, Except.mapError] at stops
  | error serror =>
    simp only [decoded, Except.mapError, Except.error.injEq] at stops
    simp [← stops]

theorem pushValue_error {value : Int} (notMin : value ≠ int64Min)
    (stops : pushValue value m = .error e) : ¬ e.IsFault := by
  obtain ⟨vch, ok⟩ := serialize_ok notMin
  simp [pushValue, checked, ok, Except.mapError] at stops

theorem depth_error (stops : depth m = .error e) : ¬ e.IsFault := by
  have notMin : (m.stack.length : Int) ≠ int64Min := by simp only [int64Min]; omega
  obtain ⟨vch, ok⟩ := serialize_ok notMin
  simp [depth, checked, ok, Except.mapError] at stops

theorem size_error (stops : size m = .error e) : ¬ e.IsFault := by
  unfold size at stops
  split at stops
  · cases stops
    simp
  · rename_i top rest _
    have notMin : (top.length : Int) ≠ int64Min := by simp only [int64Min]; omega
    obtain ⟨vch, ok⟩ := serialize_ok notMin
    simp [checked, ok, Except.mapError] at stops

theorem scriptNumHalt_natAbs_lt {vch : Bytes} {fRequireMinimal : Bool} {value : Int}
    (decoded : scriptNumHalt vch fRequireMinimal = .ok value) : value.natAbs < 2 ^ 32 := by
  unfold scriptNumHalt at decoded
  cases read : scriptNum vch fRequireMinimal CScriptNum.nDefaultMaxNumSize <;>
    simp [read] at decoded
  exact decoded ▸ scriptNum_natAbs_lt read

theorem unary_error {fRequireMinimal : Bool} {op : UnaryOp}
    (stops : unary fRequireMinimal op m = .error e) : ¬ e.IsFault := by
  unfold unary at stops
  split at stops
  · cases stops
    simp
  · rename_i top rest _
    cases decoded : scriptNumHalt top fRequireMinimal with
    | error e' =>
      rw [decoded] at stops
      cases stops
      exact scriptNumHalt_error decoded
    | ok bn =>
      obtain ⟨result, applied, bounded⟩ := op.apply_ok (scriptNumHalt_natAbs_lt decoded)
      obtain ⟨vch, ok⟩ := serialize_ok_of_natAbs_lt (show result.natAbs < 2 ^ 63 by omega)
      simp [decoded, checked, applied, ok] at stops

theorem binary_error {fRequireMinimal : Bool} {op : BinaryOp}
    (stops : binary fRequireMinimal op m = .error e) : ¬ e.IsFault := by
  unfold binary at stops
  split at stops
  · rename_i vch2 vch1 rest _
    cases decoded1 : scriptNumHalt vch1 fRequireMinimal with
    | error e' =>
      rw [decoded1] at stops
      cases stops
      exact scriptNumHalt_error decoded1
    | ok bn1 =>
      cases decoded2 : scriptNumHalt vch2 fRequireMinimal with
      | error e' =>
        simp only [decoded1, decoded2, except_ok_bind, except_error_bind] at stops
        cases stops
        exact scriptNumHalt_error decoded2
      | ok bn2 =>
        obtain ⟨result, applied, bounded⟩ :=
          op.apply_ok (scriptNumHalt_natAbs_lt decoded1) (scriptNumHalt_natAbs_lt decoded2)
        obtain ⟨vch, ok⟩ := serialize_ok_of_natAbs_lt (show result.natAbs < 2 ^ 63 by omega)
        simp only [decoded1, decoded2, checked, applied, ok, except_ok_bind, except_mapError_ok]
          at stops
        -- what is left is `OP_NUMEQUALVERIFY` failing, a script error
        split_ifs at stops <;> cases stops
        simp
  · cases stops
    simp

end Numeric

theorem ofOpcode_pushValue {opcode : UInt8} {value : Int}
    (decoded : Instruction.ofOpcode opcode = .pushValue value) : -1 ≤ value ∧ value ≤ 16 := by
  unfold Instruction.ofOpcode at decoded
  split at decoded <;> cases decoded <;> omega

theorem isPayToScriptHash_shape {script : Bytes} (p2sh : isPayToScriptHash script = true) :
    ∃ rest, script = opHash160 :: rest ∧ rest.length = 22 := by
  cases script with
  | nil => simp [isPayToScriptHash] at p2sh
  | cons opcode rest =>
    simp [isPayToScriptHash] at p2sh
    exact ⟨rest, by simp [p2sh], by simp [p2sh]⟩

section Program

variable (flags : UInt32) (checker : BaseSignatureChecker) (checkLowS : Bytes → Bool)

theorem checkSig_avoids (verify : Bool) (m : Machine) :
    Avoids Halt.IsFault (checkSig flags checker checkLowS verify m) := by
  unfold checkSig
  split
  · refine Avoids.bind (avoids_ofScript _) fun _ => ?_
    refine Avoids.bind (avoids_ofScript _) fun _ => ?_
    refine Avoids.bind (avoids_callCheckSig _ _ _ _) fun fSuccess => ?_
    refine Avoids.bind (avoids_failIf _ _) fun _ => ?_
    split
    · split
      · exact Avoids.pure _
      · exact avoids_fail _
    · exact Avoids.pure _
  · exact avoids_fail _

theorem checkMultiSigLoop_avoids (stack : List Bytes) (scriptCode : Bytes)
    (isig ikey nSigsCount nKeysCount : Nat) :
    Avoids Halt.IsFault
      (checkMultiSigLoop flags checker checkLowS stack scriptCode isig ikey nSigsCount nKeysCount) := by
  induction nKeysCount generalizing isig ikey nSigsCount with
  | zero => exact Avoids.pure true
  | succ nKeysCount ih =>
    unfold checkMultiSigLoop
    split
    · exact Avoids.pure true
    · refine Avoids.bind (avoids_ofScript _) fun vchSig => ?_
      refine Avoids.bind (avoids_ofScript _) fun vchPubKey => ?_
      refine Avoids.bind (avoids_ofScript _) fun _ => ?_
      refine Avoids.bind (avoids_ofScript _) fun _ => ?_
      refine Avoids.bind (avoids_callCheckSig _ _ _ _) fun fOk => ?_
      exact Avoids.ite (fun _ => Avoids.pure false) fun _ => ih _ _ _

theorem checkMultiSig_avoids (verify : Bool) (m : Machine) :
    Avoids Halt.IsFault (checkMultiSig flags checker checkLowS verify m) := by
  unfold checkMultiSig
  -- the key count, its limits, the signature count, its limits
  refine Avoids.bind (avoids_failIf _ _) fun _ => ?_
  refine Avoids.bind (avoids_ofScript _) fun _ => ?_
  refine Avoids.bind (avoids_ofScript _) fun _ => ?_
  refine Avoids.bind (avoids_failIf _ _) fun _ => ?_
  refine Avoids.bind (avoids_failIf _ _) fun _ => ?_
  refine Avoids.bind (avoids_failIf _ _) fun _ => ?_
  refine Avoids.bind (avoids_ofScript _) fun _ => ?_
  refine Avoids.bind (avoids_ofScript _) fun _ => ?_
  refine Avoids.bind (avoids_failIf _ _) fun _ => ?_
  refine Avoids.bind (avoids_failIf _ _) fun _ => ?_
  -- the script code, the loop and the pops
  refine Avoids.bind (avoids_ofScript _) fun _ => ?_
  refine Avoids.bind (checkMultiSigLoop_avoids flags checker checkLowS _ _ _ _ _ _) fun _ => ?_
  refine Avoids.bind (avoids_ofScript _) fun stack => ?_
  split
  · exact avoids_fail _
  · refine Avoids.bind (avoids_failIf _ _) fun _ => ?_
    split
    · split
      · exact Avoids.pure _
      · exact avoids_fail _
    · exact Avoids.pure _

theorem executeInstruction_avoids (fExec : Bool) (pc : Bytes) (m : Machine) (opcode : UInt8) :
    Avoids Halt.IsFault
      (executeInstruction flags checker checkLowS fExec pc m (Instruction.ofOpcode opcode)) := by
  cases decoded : Instruction.ofOpcode opcode with
  | pushValue value =>
    have range := ofOpcode_pushValue decoded
    have notMin : value ≠ int64Min := by simp only [int64Min]; omega
    exact avoids_ofHalt fun _ => pushValue_error notMin
  | depth => exact avoids_ofHalt fun _ => depth_error
  | size => exact avoids_ofHalt fun _ => size_error
  | unary op => exact avoids_ofHalt fun _ => unary_error
  | binary op => exact avoids_ofHalt fun _ => binary_error
  | checkSig verify => exact checkSig_avoids flags checker checkLowS verify m
  | checkMultiSig verify => exact checkMultiSig_avoids flags checker checkLowS verify m
  | nop | codeSeparator => exact Avoids.pure _
  | opReturn | bad => exact avoids_fail _
  | checkLockTimeVerify | checkSequenceVerify | upgradableNop | ifNotif | opElse | opEndif | verify
  | toAltstack | fromAltstack | stack | pickRoll | equal | within | hash => exact avoids_ofScript _

theorem dispatch_avoids (fExec : Bool) (opcode : UInt8) (vchPushValue pc : Bytes) (m : Machine) :
    Avoids Halt.IsFault (dispatch flags checker checkLowS fExec opcode vchPushValue pc m) := by
  unfold dispatch
  split
  · exact Avoids.bind (avoids_failIf _ _) fun _ => Avoids.pure _
  · split
    · exact executeInstruction_avoids flags checker checkLowS _ _ _ _
    · exact Avoids.pure _

theorem step_avoids (opcode : UInt8) (vchPushValue pc : Bytes) (m : Machine) :
    Avoids Halt.IsFault (step flags checker checkLowS opcode vchPushValue pc m) := by
  unfold step
  refine Avoids.bind (avoids_failIf _ _) fun _ => ?_
  refine Avoids.bind (avoids_failIf _ _) fun _ => ?_
  refine Avoids.bind (avoids_failIf _ _) fun _ => ?_
  refine Avoids.bind (dispatch_avoids flags checker checkLowS _ _ _ _ _) fun m => ?_
  exact Avoids.bind (avoids_failIf _ _) fun _ => Avoids.pure _

theorem evalLoop_avoids (fuel : Nat) (pc : Bytes) (m : Machine) :
    Avoids Halt.IsFault (evalLoop flags checker checkLowS fuel pc m) := by
  induction fuel generalizing pc m with
  | zero => exact Avoids.pure m
  | succ fuel ih =>
    unfold evalLoop
    split
    · exact Avoids.pure m
    · split
      · exact avoids_fail _
      · exact Avoids.bind (step_avoids flags checker checkLowS _ _ _ _) fun m => ih _ m

theorem evalScript_avoids (script : Bytes) (stack : List Bytes) :
    Avoids Halt.IsFault (evalScript flags checker checkLowS script stack) := by
  unfold evalScript
  refine Avoids.bind (avoids_failIf _ _) fun _ => ?_
  refine Avoids.bind (evalLoop_avoids flags checker checkLowS _ _ _) fun m => ?_
  exact Avoids.bind (avoids_failIf _ _) fun _ => Avoids.pure _

theorem evalScript_payToScriptHash_empty {scriptPubKey : Bytes}
    (p2sh : isPayToScriptHash scriptPubKey = true) (calls calls' : Nat) (stack : List Bytes) :
    (evalScript flags checker checkLowS scriptPubKey []).run calls ≠ .ok stack calls' := by
  obtain ⟨rest, rfl, length⟩ := isPayToScriptHash_shape p2sh
  have fails : (evalScript flags checker checkLowS (opHash160 :: rest) []).run calls =
      .error (.error .invalidStackOperation) calls := by
    unfold evalScript
    simp only [List.length_cons, length]
    rfl
  rw [fails]
  intro returned
  cases returned

theorem checkTop_avoids (stack : List Bytes) : Avoids Halt.IsFault (checkTop stack) := by
  unfold checkTop
  split
  · exact avoids_fail _
  · exact avoids_failIf _ _

theorem payToScriptHash_avoids (scriptSig : Bytes) {stackCopy : List Bytes} (nonempty : stackCopy ≠ []) :
    Avoids Halt.IsFault (payToScriptHash flags checker checkLowS scriptSig stackCopy) := by
  unfold payToScriptHash
  refine Avoids.bind (avoids_failIf _ _) fun _ => ?_
  cases stackCopy with
  | nil => exact absurd rfl nonempty
  | cons pubKeySerialized rest =>
    exact Avoids.bind (evalScript_avoids flags checker checkLowS _ _) fun stack =>
      Avoids.bind (checkTop_avoids stack) fun _ => Avoids.pure _

theorem cleanStack_avoids
    (cleanStackP2SH : hasFlag flags scriptVerifyCleanstack = true → hasFlag flags scriptVerifyP2SH = true)
    (stack : List Bytes) : Avoids Halt.IsFault (cleanStack flags stack) := by
  unfold cleanStack
  split
  · rename_i cleanstack
    refine Avoids.bind ?_ fun _ => avoids_failIf _ _
    unfold assertHolds
    rw [if_pos (cleanStackP2SH cleanstack)]
    exact Avoids.pure ()
  · exact Avoids.pure ()

theorem verifyScript_avoids
    (cleanStackP2SH : hasFlag flags scriptVerifyCleanstack = true → hasFlag flags scriptVerifyP2SH = true)
    (scriptSig scriptPubKey : Bytes) :
    Avoids Halt.IsFault (verifyScript flags checker checkLowS scriptSig scriptPubKey) := by
  unfold verifyScript
  refine Avoids.bind (avoids_failIf _ _) fun _ => ?_
  refine Avoids.bind (evalScript_avoids flags checker checkLowS _ _) fun stackCopy => ?_
  -- a pay-to-script-hash output that returns was run on a stack that is not empty
  refine Avoids.bind_returns (fun _ => isPayToScriptHash scriptPubKey = true → stackCopy ≠ [])
    (evalScript_avoids flags checker checkLowS _ _) ?_ fun stack nonempty => ?_
  · intro calls stack calls' ran p2sh empty
    subst empty
    exact evalScript_payToScriptHash_empty flags checker checkLowS p2sh calls calls' stack ran
  · refine Avoids.bind (checkTop_avoids _) fun _ => ?_
    refine Avoids.bind ?_ fun stack => cleanStack_avoids flags cleanStackP2SH stack
    split
    · rename_i p2sh
      simp only [Bool.and_eq_true] at p2sh
      exact payToScriptHash_avoids flags checker checkLowS scriptSig (nonempty p2sh.2)
    · exact Avoids.pure _

end Program

theorem verifyScript_returns (flags : UInt32) (checker : BaseSignatureChecker)
    (checkLowS : Bytes → Bool) (scriptSig scriptPubKey : Bytes)
    (cleanStackP2SH : hasFlag flags scriptVerifyCleanstack = true → hasFlag flags scriptVerifyP2SH = true)
    (calls : Nat) :
    (∃ calls', (verifyScript flags checker checkLowS scriptSig scriptPubKey).run calls = .ok () calls') ∨
      ∃ serror calls', (verifyScript flags checker checkLowS scriptSig scriptPubKey).run calls =
        .error (.error serror) calls' := by
  have avoids := verifyScript_avoids flags checker checkLowS cleanStackP2SH scriptSig scriptPubKey
  cases ran : (verifyScript flags checker checkLowS scriptSig scriptPubKey).run calls with
  | ok u calls' => exact .inl ⟨calls', rfl⟩
  | error e calls' =>
    cases e with
    | error serror => exact .inr ⟨serror, calls', rfl⟩
    | fault f => exact absurd trivial (avoids calls _ calls' ran)

theorem verifyScript_returns_p2sh_cleanstack :
    (hasFlag (scriptVerifyP2SH ||| scriptVerifyCleanstack) scriptVerifyCleanstack = true →
      hasFlag (scriptVerifyP2SH ||| scriptVerifyCleanstack) scriptVerifyP2SH = true) ∧
    ((∃ calls', (verifyScript (scriptVerifyP2SH ||| scriptVerifyCleanstack)
        ⟨fun _ _ _ => true, fun _ => true, fun _ => true⟩ (fun _ => true) [op1] [op1]).run 0 =
          .ok () calls') ∨
      ∃ serror calls', (verifyScript (scriptVerifyP2SH ||| scriptVerifyCleanstack)
        ⟨fun _ _ _ => true, fun _ => true, fun _ => true⟩ (fun _ => true) [op1] [op1]).run 0 =
          .error (.error serror) calls') :=
  ⟨by decide, verifyScript_returns _ _ _ _ _ (by decide) 0⟩

end Gaiacoin
