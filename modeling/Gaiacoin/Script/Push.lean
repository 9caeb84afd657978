import Gaiacoin.Script.Interpreter
import Gaiacoin.Script.ScriptNum

set_option autoImplicit false

/-!
# Pushing integers (`CScript::push_int64`)

`CScript() << n` pushes a number with the shortest opcode that does it, so the
script passes `SCRIPT_VERIFY_MINIMALDATA` and leaves `CScriptNum::serialize(n)`
(`evalScript_pushInt64`). Three pieces written apart have to agree for that:
`push_int64`'s small numbers, the length prefix of `operator<<` for a vector,
and `CheckMinimalPush`.
-/

namespace Gaiacoin

/-- `CScript() << n`: `OP_1NEGATE` and `OP_1` to `OP_16` for their numbers, `OP_0`
for zero, and otherwise a push of `CScriptNum::serialize(n)`. -/
def pushInt64 (n : Int) : Checked Bytes :=
  if n = -1 ∨ (1 ≤ n ∧ n ≤ 16) then pure [UInt8.ofNat (n + ((op1.toNat : Int) - 1)).toNat]
  else if n = 0 then pure [op0]
  else do pure (pushData (← CScriptNum.serialize n))

section Run

variable (flags : UInt32) (checker : BaseSignatureChecker) (checkLowS : Bytes → Bool)

theorem evalLoop_nil (fuel : Nat) (m : Machine) :
    evalLoop flags checker checkLowS fuel [] m = pure m := by
  cases fuel <;> rfl

theorem evalScript_one_instruction {script data : Bytes} {opcode : UInt8} {m : Machine}
    {calls : Nat} (read : getOp script = some (opcode, data, []))
    (short : script.length ≤ maxScriptSize)
    (round : (step flags checker checkLowS opcode data [] ⟨[], [], [], 0, script⟩).run calls =
      .ok m calls)
    (closed : m.vfExec = []) :
    (evalScript flags checker checkLowS script []).run calls = .ok m.stack calls := by
  obtain ⟨byte, rest, rfl⟩ : ∃ byte rest, script = byte :: rest := by
    cases script with
    | nil => cases read
    | cons byte rest => exact ⟨byte, rest, rfl⟩
  have loop : (evalLoop flags checker checkLowS (byte :: rest).length (byte :: rest)
      ⟨[], [], [], 0, byte :: rest⟩).run calls = .ok m calls := by
    simp only [List.length_cons, evalLoop, read, EStateM.run_bind, round, evalLoop_nil]
    rfl
  have fits : ((byte :: rest).length > maxScriptSize) = False := by
    simp only [gt_iff_lt, eq_iff_iff, iff_false, not_lt]
    exact short
  simp only [evalScript, failIf, EStateM.run_bind, EStateM.run_pure, fits, decide_false,
    Bool.false_eq_true, if_false, loop, closed, List.isEmpty_nil, Bool.not_true]

theorem isDisabled_of_le_op16 {opcode : UInt8} (small : opcode ≤ op16) : isDisabled opcode = false := by
  have bound : opcode.toNat ≤ 0x60 := by simpa [op16, UInt8.le_iff_toNat_le] using small
  simp only [isDisabled, List.mem_cons, List.not_mem_nil, or_false, decide_eq_false_iff_not]
  omega

theorem step_push {opcode : UInt8} {vch pc : Bytes} (m : Machine) (calls : Nat)
    (isPush : opcode ≤ opPushdata4) (executing : m.vfExec = [])
    (short : vch.length ≤ maxScriptElementSize) (minimal : checkMinimalPush vch opcode = true)
    (room : m.stack.length + 1 + m.altstack.length ≤ 1000) :
    (step flags checker checkLowS opcode vch pc m).run calls =
      .ok { m with stack := vch :: m.stack } calls := by
  have bound : opcode.toNat ≤ 0x4e := by simpa [opPushdata4, UInt8.le_iff_toNat_le] using isPush
  have small : ¬ opcode > op16 := by simp [op16, UInt8.lt_iff_toNat_lt]; omega
  have notDisabled := isDisabled_of_le_op16 (show opcode ≤ op16 by
    simp [op16, UInt8.le_iff_toNat_le]
    omega)
  simp [step, failIf, dispatch, Machine.fExec, executing, isPush, small, notDisabled, minimal,
    not_lt.mpr short, not_lt.mpr room]

theorem step_pushValue {opcode : UInt8} {value : Int} {vch pc : Bytes} (m : Machine) (calls : Nat)
    (decoded : Instruction.ofOpcode opcode = .pushValue value)
    (notPush : ¬ opcode ≤ opPushdata4) (small : opcode ≤ op16) (executing : m.vfExec = [])
    (serialized : CScriptNum.serialize value = .ok vch)
    (room : m.stack.length + 1 + m.altstack.length ≤ 1000) :
    (step flags checker checkLowS opcode [] pc m).run calls =
      .ok { m with stack := vch :: m.stack } calls := by
  have notCounted : ¬ op16 < opcode := by
    rw [UInt8.le_iff_toNat_le] at small
    rw [UInt8.lt_iff_toNat_lt]
    omega
  simp [step, failIf, dispatch, Machine.fExec, executing, notPush, notCounted,
    isDisabled_of_le_op16 small, executeInstruction, decoded, ofHalt, ErrorState.ofExcept,
    pushValue, checked, serialized, not_lt.mpr room]

theorem evalScript_push {script vch : Bytes} {opcode : UInt8} (calls : Nat)
    (read : getOp script = some (opcode, vch, [])) (short : script.length ≤ maxScriptSize)
    (isPush : opcode ≤ opPushdata4) (small : vch.length ≤ maxScriptElementSize)
    (minimal : checkMinimalPush vch opcode = true) :
    (evalScript flags checker checkLowS script []).run calls = .ok [vch] calls :=
  evalScript_one_instruction flags checker checkLowS read short
    (step_push flags checker checkLowS _ calls isPush rfl small minimal (by simp)) rfl

theorem evalScript_pushValue {opcode : UInt8} {value : Int} {vch : Bytes} (calls : Nat)
    (decoded : Instruction.ofOpcode opcode = .pushValue value)
    (notPush : ¬ opcode ≤ opPushdata4) (small : opcode ≤ op16)
    (serialized : CScriptNum.serialize value = .ok vch) :
    (evalScript flags checker checkLowS [opcode] []).run calls = .ok [vch] calls := by
  have read : getOp [opcode] = some (opcode, [], []) := by simp [getOp, notPush]
  exact evalScript_one_instruction flags checker checkLowS read (by simp [maxScriptSize])
    (step_pushValue flags checker checkLowS _ calls decoded notPush small rfl serialized
      (by simp)) rfl

end Run

theorem ofOpcode_smallInteger {n : Int} (small : n = -1 ∨ (1 ≤ n ∧ n ≤ 16)) :
    ¬ UInt8.ofNat (n + ((op1.toNat : Int) - 1)).toNat ≤ opPushdata4 ∧
      UInt8.ofNat (n + ((op1.toNat : Int) - 1)).toNat ≤ op16 ∧
      Instruction.ofOpcode (UInt8.ofNat (n + ((op1.toNat : Int) - 1)).toNat) = .pushValue n := by
  rcases small with rfl | ⟨lo, hi⟩
  · decide
  · interval_cases n <;> decide

theorem toNat_ofNat_length {vch : Bytes} (short : vch.length < opPushdata1.toNat) :
    (UInt8.ofNat vch.length).toNat = vch.length := by
  have small : vch.length < 0x4c := short
  rw [UInt8.toNat_ofNat']
  omega

theorem ofNat_length_le_opPushdata4 {vch : Bytes} (short : vch.length < opPushdata1.toNat) :
    UInt8.ofNat vch.length ≤ opPushdata4 := by
  have small : vch.length < 0x4c := short
  rw [UInt8.le_iff_toNat_le, toNat_ofNat_length short]
  simp only [opPushdata4, UInt8.reduceToNat]
  omega

theorem getOp_pushData {vch : Bytes} (short : vch.length < opPushdata1.toNat) :
    getOp (pushData vch) = some (UInt8.ofNat vch.length, vch, []) := by
  have opcode := toNat_ofNat_length short
  have isPush := ofNat_length_le_opPushdata4 short
  have direct : UInt8.ofNat vch.length < opPushdata1 := by
    rw [UInt8.lt_iff_toNat_lt, opcode]
    exact short
  simp only [pushData, if_pos short, getOp, if_pos isPush, pushSize, if_pos direct, opcode,
    lt_self_iff_false, if_false, List.take_length, List.drop_length]

theorem checkMinimalPush_length {vch : Bytes} (nonempty : vch ≠ []) (short : vch.length ≤ 75)
    (notSmall : ∀ b, vch = [b] → ¬ (1 ≤ b ∧ b ≤ 16) ∧ b ≠ 0x81) :
    checkMinimalPush vch (UInt8.ofNat vch.length) = true := by
  match vch, nonempty, notSmall with
  | [b], _, notSmall =>
    obtain ⟨notCounted, notNegate⟩ := notSmall b rfl
    simp [checkMinimalPush, notCounted, notNegate]
  | b :: c :: rest, _, _ =>
    have opcode : (UInt8.ofNat (b :: c :: rest).length).toNat = (b :: c :: rest).length := by
      rw [UInt8.toNat_ofNat']
      omega
    simp only [checkMinimalPush, if_pos short, opcode, beq_self_eq_true]

theorem ofBytes_single {b : UInt8} {n : Int} (read : CScriptNum.ofBytes [b] true 8 = some n) :
    n = if 128 ≤ b.toNat then -((b.toNat - 128 : Nat) : Int) else b.toNat := by
  have split := CScriptNum.ofBytes_true_concat [] b (show ([] : Bytes).length + 1 ≤ 8 by simp)
  have value := CScriptNum.setVch_concat [] b
  simp only [List.nil_append] at split value
  rw [split] at read
  split_ifs at read
  cases read
  rw [value]
  simp only [Wire.readLE, List.length_nil, pow_zero, one_mul, zero_add]

theorem serialize_not_small {n : Int} {b : UInt8} (small : ¬ (n = -1 ∨ (1 ≤ n ∧ n ≤ 16)))
    (read : CScriptNum.ofBytes [b] true 8 = some n) : ¬ (1 ≤ b ∧ b ≤ 16) ∧ b ≠ 0x81 := by
  have value := ofBytes_single read
  constructor
  · rintro ⟨lo, hi⟩
    rw [UInt8.le_iff_toNat_le] at lo hi
    have counted : 1 ≤ b.toNat ∧ b.toNat ≤ 16 := ⟨lo, hi⟩
    rw [if_neg (by omega)] at value
    exact small (Or.inr (by omega))
  · rintro rfl
    exact small (Or.inl value)

section Run

variable (flags : UInt32) (checker : BaseSignatureChecker) (checkLowS : Bytes → Bool)

theorem evalScript_pushInt64 (n : Int) (inRange : InInt64 n) (notMin : n ≠ int64Min)
    (calls : Nat) :
    ∃ script vch, pushInt64 n = .ok script ∧ CScriptNum.serialize n = .ok vch ∧
      (evalScript flags checker checkLowS script []).run calls = .ok [vch] calls := by
  obtain ⟨vch, serialized, length, readBack⟩ := CScriptNum.serialize_accepted inRange notMin
  by_cases small : n = -1 ∨ (1 ≤ n ∧ n ≤ 16)
  · -- `OP_1NEGATE` and `OP_1` to `OP_16`
    obtain ⟨notPush, below, decoded⟩ := ofOpcode_smallInteger small
    exact ⟨_, vch, if_pos small, serialized,
      evalScript_pushValue flags checker checkLowS calls decoded notPush below serialized⟩
  by_cases zero : n = 0
  · -- `OP_0` pushes the empty vector
    subst zero
    obtain rfl : vch = [] := by
      rw [show CScriptNum.serialize 0 = .ok [] from rfl] at serialized
      cases serialized
      rfl
    refine ⟨[op0], [], by rw [pushInt64, if_neg small, if_pos rfl]; rfl, rfl, ?_⟩
    exact evalScript_push flags checker checkLowS calls rfl (by decide) (by decide) (by decide) rfl
  -- otherwise one to eight bytes, pushed by the opcode that is their length
  have nonempty : vch ≠ [] := by
    rintro rfl
    simp only [CScriptNum.ofBytes, List.length_nil, gt_iff_lt, Nat.not_lt_zero, if_false,
      List.getLast?_nil, CScriptNum.setVch, Option.some.injEq] at readBack
    exact zero readBack.symm
  have short : vch.length < opPushdata1.toNat := by
    simp only [opPushdata1, UInt8.reduceToNat]
    omega
  have notSmall : ∀ b, vch = [b] → ¬ (1 ≤ b ∧ b ≤ 16) ∧ b ≠ 0x81 := by
    rintro b rfl
    exact serialize_not_small small readBack
  refine ⟨pushData vch, vch, ?_, serialized, ?_⟩
  · rw [pushInt64, if_neg small, if_neg zero, serialized]
    rfl
  · apply evalScript_push flags checker checkLowS calls (getOp_pushData short)
    · simp only [pushData, if_pos short, List.length_cons, maxScriptSize]
      omega
    · exact ofNat_length_le_opPushdata4 short
    · simp only [maxScriptElementSize]
      omega
    · exact checkMinimalPush_length nonempty (by omega) notSmall

end Run

theorem evalScript_pushInt64_thousand :
    InInt64 1000 ∧ (1000 : Int) ≠ int64Min ∧
      ∃ script vch, pushInt64 1000 = .ok script ∧ CScriptNum.serialize 1000 = .ok vch ∧
        (evalScript scriptVerifyMinimaldata ⟨fun _ _ _ => true, fun _ => true, fun _ => true⟩
          (fun _ => true) script []).run 0 = .ok [vch] 0 :=
  ⟨by decide, by decide, evalScript_pushInt64 _ _ _ 1000 (by decide) (by decide) 0⟩

end Gaiacoin
