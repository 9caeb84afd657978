import Gaiacoin.Script.Script
import Gaiacoin.Script.Interpreter

set_option autoImplicit false

/-!
# `CScriptNum` encodings

`serialize` and the constructor that requires minimal encodings undo each other
(`scriptNum_serialize_bijection`): every `int64_t` but `INT64_MIN` serializes to
at most eight bytes that the constructor accepts and reads back, and every vector
the constructor accepts is the serialization of its value.

Both directions split a vector into its last byte and the bytes before it. The
magnitude is the shortest little-endian form of the absolute value
(`magnitudeBytes`); the sign is the top bit of the last byte, or a byte of its
own when the magnitude's top byte already uses that bit.
-/

namespace Gaiacoin

namespace CScriptNum

set_option maxRecDepth 8000 in
theorem signBit_ne_zero_iff : ∀ b : UInt8, b &&& 0x80 ≠ 0 ↔ 128 ≤ b.toNat := by
  decide

set_option maxRecDepth 8000 in
theorem toNat_or_signBit : ∀ b : UInt8, b.toNat < 128 → (b ||| 0x80).toNat = b.toNat + 128 := by
  decide

set_option maxRecDepth 8000 in
theorem lowBits_eq_zero_iff : ∀ b : UInt8, b &&& 0x7f = 0 ↔ b.toNat = 0 ∨ b.toNat = 128 := by
  decide

theorem add_mul_mod_signBit {low scale top : Nat} (below : low < scale) (signed : 128 ≤ top)
    (byte : top < 256) : (low + scale * top) % (scale * 128) = low + scale * (top - 128) := by
  obtain ⟨rest, rfl⟩ : ∃ rest, top = rest + 128 := ⟨top - 128, by omega⟩
  have shifted : low + scale * (rest + 128) = low + scale * rest + scale * 128 * 1 := by ring
  rw [shifted, Nat.add_mul_mod_self_left, Nat.add_sub_cancel, Nat.mod_eq_of_lt]
  have small : rest ≤ 127 := by omega
  calc low + scale * rest < scale + scale * 127 := by nlinarith
    _ = scale * 128 := by ring

theorem magnitudeBytes_zero (fuel : Nat) : magnitudeBytes fuel 0 = [] := by
  cases fuel <;> rfl

theorem length_magnitudeBytes_le (fuel n : Nat) : (magnitudeBytes fuel n).length ≤ fuel := by
  induction fuel generalizing n with
  | zero => simp [magnitudeBytes]
  | succ fuel ih =>
    unfold magnitudeBytes
    split
    · simp
    · simpa using ih (n / 256)

theorem readLE_magnitudeBytes {fuel n : Nat} (fits : n < 256 ^ fuel) :
    Wire.readLE (magnitudeBytes fuel n) = n := by
  induction fuel generalizing n with
  | zero =>
    have isZero : n = 0 := by simpa using fits
    simp [isZero, magnitudeBytes, Wire.readLE]
  | succ fuel ih =>
    have quotient : n / 256 < 256 ^ fuel := by
      rw [Nat.div_lt_iff_lt_mul (by decide)]
      simpa [Nat.pow_succ] using fits
    unfold magnitudeBytes
    split
    · simp [Wire.readLE, *]
    · simp only [Wire.readLE, ih quotient, UInt8.toNat_ofNat']
      omega

theorem getLast?_magnitudeBytes_ne_zero {fuel n : Nat} (fits : n < 256 ^ fuel) :
    (magnitudeBytes fuel n).getLast? ≠ some 0 := by
  induction fuel generalizing n with
  | zero => simp [magnitudeBytes]
  | succ fuel ih =>
    have quotient : n / 256 < 256 ^ fuel := by
      rw [Nat.div_lt_iff_lt_mul (by decide)]
      simpa [Nat.pow_succ] using fits
    unfold magnitudeBytes
    split
    · simp
    · rename_i nonzero
      cases rest : magnitudeBytes fuel (n / 256) with
      | nil =>
        -- the byte of `n` is the last one, and `n` is a single byte
        have high : n / 256 = 0 := by
          have read := readLE_magnitudeBytes quotient
          rw [rest] at read
          simpa [Wire.readLE] using read.symm
        simp only [List.getLast?_singleton, ne_eq, Option.some.injEq]
        intro isZero
        have byte := congrArg UInt8.toNat isZero
        simp only [UInt8.toNat_ofNat', UInt8.toNat_zero] at byte
        omega
      | cons b bs =>
        have tail := ih quotient
        rw [rest] at tail
        simpa [List.getLast?_cons_cons] using tail

theorem readLE_ne_zero {bs : Bytes} {last : UInt8} (isLast : bs.getLast? = some last)
    (nonzero : last ≠ 0) : Wire.readLE bs ≠ 0 := by
  rw [Ne, Wire.readLE_eq_zero_iff]
  intro allZero
  exact nonzero (allZero last (List.mem_of_getLast? isLast))

theorem magnitudeBytes_readLE {fuel : Nat} {bs : Bytes} (shortest : bs.getLast? ≠ some 0)
    (fits : bs.length ≤ fuel) : magnitudeBytes fuel (Wire.readLE bs) = bs := by
  induction bs generalizing fuel with
  | nil => exact magnitudeBytes_zero fuel
  | cons b bs ih =>
    obtain ⟨fuel, rfl⟩ : ∃ rest, fuel = rest + 1 := ⟨fuel - 1, by simp at fits; omega⟩
    obtain ⟨last, isLast⟩ : ∃ last, (b :: bs).getLast? = some last :=
      Option.isSome_iff_exists.mp (by simp)
    have nonzero : Wire.readLE (b :: bs) ≠ 0 :=
      readLE_ne_zero isLast fun isZero => shortest (isZero ▸ isLast)
    have tail : bs.getLast? ≠ some 0 := by
      cases bs with
      | nil => simp
      | cons c cs => simpa [List.getLast?_cons_cons] using shortest
    have high : Wire.readLE (b :: bs) / 256 = Wire.readLE bs := by
      have := b.toNat_lt
      simp only [Wire.readLE]
      omega
    rw [magnitudeBytes, if_neg nonzero, high, ih tail (by simp at fits; omega)]
    congr 1
    apply UInt8.toNat_inj.mp
    have := b.toNat_lt
    simp only [Wire.readLE, UInt8.toNat_ofNat']
    omega

theorem setVch_concat (init : Bytes) (last : UInt8) :
    setVch (init ++ [last]) =
      if 128 ≤ last.toNat then
        -((Wire.readLE init + 256 ^ init.length * (last.toNat - 128) : Nat) : Int)
      else ((Wire.readLE init + 256 ^ init.length * last.toNat : Nat) : Int) := by
  have read : Wire.readLE (init ++ [last]) = Wire.readLE init + 256 ^ init.length * last.toNat := by
    simp [Wire.readLE_append, Wire.readLE]
  have top : 2 ^ (8 * (init ++ [last]).length - 1) = 256 ^ init.length * 128 := by
    rw [List.length_append, List.length_singleton,
      show 8 * (init.length + 1) - 1 = 8 * init.length + 7 by omega, pow_add, pow_mul]
    norm_num
  have isLast : (init ++ [last]).getLast? = some last := by simp
  unfold setVch
  rw [isLast]
  dsimp only
  by_cases signed : 128 ≤ last.toNat
  · rw [if_pos ((signBit_ne_zero_iff last).mpr signed), if_pos signed, top, read,
      add_mul_mod_signBit (Wire.readLE_lt init) signed last.toNat_lt]
  · rw [if_neg (fun set => signed ((signBit_ne_zero_iff last).mp set)), if_neg signed, read]

theorem ofBytes_true_concat (init : Bytes) (last : UInt8) {nMaxNumSize : Nat}
    (fits : init.length + 1 ≤ nMaxNumSize) :
    ofBytes (init ++ [last]) true nMaxNumSize =
      if last &&& 0x7f = 0 ∧ init.getLast?.getD 0 &&& 0x80 = 0 then none
      else some (setVch (init ++ [last])) := by
  have secondLast : ((init ++ [last]).length ≤ 1 ||
      (init ++ [last]).getD ((init ++ [last]).length - 2) 0 &&& 0x80 == 0) =
      decide (init.getLast?.getD 0 &&& 0x80 = 0) := by
    rcases List.eq_nil_or_concat' init with rfl | ⟨front, c, rfl⟩
    · simp
    · simp [List.getD_eq_getElem?_getD, Bool.beq_eq_decide_eq]
  have isLast : (init ++ [last]).getLast? = some last := by simp
  unfold ofBytes
  rw [if_neg (by simp only [List.length_append, List.length_singleton]; omega), isLast]
  dsimp only
  rw [Bool.true_and, secondLast]
  by_cases rejected : last &&& 0x7f = 0 ∧ init.getLast?.getD 0 &&& 0x80 = 0
  · rw [if_pos (by simp [rejected]), if_pos rejected]
  · rw [if_neg (by simpa using rejected), if_neg rejected]

theorem serialize_eq {value : Int} {init : Bytes} {last : UInt8} (notMin : value ≠ int64Min)
    (magnitude : Wire.readLE init + 256 ^ init.length * last.toNat = value.natAbs)
    (nonzero : last ≠ 0) (fits : init.length + 1 ≤ 8) :
    serialize value = .ok (if 128 ≤ last.toNat then init ++ [last, if value < 0 then 0x80 else 0]
      else if value < 0 then init ++ [last ||| 0x80] else init ++ [last]) := by
  have read : Wire.readLE (init ++ [last]) = value.natAbs := by
    simpa [Wire.readLE_append, Wire.readLE] using magnitude
  have zero : value ≠ 0 := by
    intro isZero
    exact readLE_ne_zero (show (init ++ [last]).getLast? = some last by simp) nonzero
      (by rw [read, isZero]; rfl)
  have split : magnitudeBytes 8 value.natAbs = init ++ [last] := by
    rw [← read]
    exact magnitudeBytes_readLE (by simpa using nonzero) (by simpa using fits)
  unfold serialize
  rw [if_neg zero, if_neg notMin]
  dsimp only
  rw [split, show (init ++ [last]).getLast? = some last by simp]
  dsimp only
  by_cases signed : 128 ≤ last.toNat
  · rw [if_pos ((signBit_ne_zero_iff last).mpr signed), if_pos signed]
    by_cases negative : value < 0 <;> simp [negative]
  · rw [if_neg (fun set => signed ((signBit_ne_zero_iff last).mp set)), if_neg signed]
    by_cases negative : value < 0 <;> simp [negative]

theorem serialize_accepted {value : Int} (inRange : InInt64 value) (notMin : value ≠ int64Min) :
    ∃ vch, serialize value = .ok vch ∧ vch.length ≤ 8 ∧ ofBytes vch true 8 = some value := by
  by_cases zero : value = 0
  · refine ⟨[], by rw [zero]; rfl, by simp, ?_⟩
    simp [ofBytes, setVch, zero]
  have small : value.natAbs < 2 ^ 63 := by
    simp only [InInt64, int64Min, int64Max] at inRange notMin
    omega
  have fits : value.natAbs < 256 ^ 8 := by norm_num; omega
  obtain ⟨init, last, split⟩ : ∃ init last, magnitudeBytes 8 value.natAbs = init ++ [last] := by
    rcases List.eq_nil_or_concat' (magnitudeBytes 8 value.natAbs) with empty | found
    · have read := readLE_magnitudeBytes fits
      rw [empty] at read
      simp [Wire.readLE] at read
      omega
    · exact found
  have magnitude : Wire.readLE init + 256 ^ init.length * last.toNat = value.natAbs := by
    have read := readLE_magnitudeBytes fits
    rw [split] at read
    simpa [Wire.readLE_append, Wire.readLE] using read
  have nonzero : last ≠ 0 := by
    have shortest := getLast?_magnitudeBytes_ne_zero fits
    rw [split] at shortest
    simpa using shortest
  have length : init.length + 1 ≤ 8 := by
    have bound := length_magnitudeBytes_le 8 value.natAbs
    rw [split] at bound
    simpa using bound
  have lastNat : last.toNat ≠ 0 := fun isZero => nonzero (UInt8.toNat_inj.mp isZero)
  rw [serialize_eq notMin magnitude nonzero length]
  by_cases signed : 128 ≤ last.toNat
  · -- the sign takes a byte of its own, so the magnitude has at most seven
    have room : init.length + 1 ≤ 7 := by
      by_contra full
      have scale : 256 ^ 7 ≤ 256 ^ init.length := Nat.pow_le_pow_right (by norm_num) (by omega)
      have : 256 ^ init.length * 128 ≤ value.natAbs := by nlinarith
      omega
    rw [if_pos signed]
    refine ⟨_, rfl, by simp; omega, ?_⟩
    rw [show init ++ [last, if value < 0 then 0x80 else 0] =
        (init ++ [last]) ++ [if value < 0 then 0x80 else 0] by simp,
      ofBytes_true_concat _ _ (by simp; omega), if_neg (by simp [signBit_ne_zero_iff, signed]),
      setVch_concat]
    have read : Wire.readLE (init ++ [last]) = value.natAbs := by
      simpa [Wire.readLE_append, Wire.readLE] using magnitude
    by_cases negative : value < 0
    · simp only [negative, if_true, show (0x80 : UInt8).toNat = 128 from rfl, le_refl,
        Nat.sub_self, Nat.mul_zero, Nat.add_zero, read]
      congr 1
      omega
    · simp only [negative, if_false, show (0 : UInt8).toNat = 0 from rfl, Nat.mul_zero,
        Nat.add_zero, read]
      rw [if_neg (by omega)]
      congr 1
      omega
  · rw [if_neg signed]
    have lowBits : ¬ (last &&& 0x7f = 0) := by
      rw [lowBits_eq_zero_iff]
      omega
    by_cases negative : value < 0
    · rw [if_pos negative]
      have raised := toNat_or_signBit last (by omega)
      have raisedLow : ¬ ((last ||| 0x80) &&& 0x7f = 0) := by
        rw [lowBits_eq_zero_iff]
        omega
      refine ⟨_, rfl, by simp; omega, ?_⟩
      rw [ofBytes_true_concat _ _ (by omega), if_neg (fun rejected => raisedLow rejected.1),
        setVch_concat, if_pos (by omega), raised, Nat.add_sub_cancel, magnitude]
      congr 1
      omega
    · rw [if_neg negative]
      refine ⟨_, rfl, by simp; omega, ?_⟩
      rw [ofBytes_true_concat _ _ (by omega), if_neg (fun rejected => lowBits rejected.1),
        setVch_concat, if_neg signed, magnitude]
      congr 1
      omega

theorem serialize_setVch {vch : Bytes} {nMaxNumSize : Nat} (small : nMaxNumSize ≤ 8)
    (accepted : ofBytes vch true nMaxNumSize ≠ none) : serialize (setVch vch) = .ok vch := by
  rcases List.eq_nil_or_concat' vch with rfl | ⟨init, last, rfl⟩
  · rfl
  have length : init.length + 1 ≤ nMaxNumSize := by
    by_contra tooLong
    apply accepted
    simp only [ofBytes, List.length_append, List.length_singleton]
    rw [if_pos (by omega)]
  rw [ofBytes_true_concat _ _ length] at accepted
  have minimal : ¬ (last &&& 0x7f = 0 ∧ init.getLast?.getD 0 &&& 0x80 = 0) :=
    fun rejected => accepted (if_pos rejected)
  -- where the last byte is nothing but the sign, the byte before it is the magnitude's top
  have before (onlySign : last &&& 0x7f = 0) :
      ∃ front c, init = front ++ [c] ∧ 128 ≤ c.toNat := by
    rcases List.eq_nil_or_concat' init with rfl | ⟨front, c, rfl⟩
    · exact absurd ⟨onlySign, by simp⟩ minimal
    · refine ⟨front, c, rfl, ?_⟩
      rw [← signBit_ne_zero_iff]
      intro clear
      exact minimal ⟨onlySign, by simpa using clear⟩
  -- every magnitude here is below `2^63`
  have below := Wire.readLE_lt init
  have scale : 256 ^ init.length * 128 ≤ 2 ^ 63 := by
    have : 256 ^ init.length ≤ 256 ^ 7 := Nat.pow_le_pow_right (by norm_num) (by omega)
    calc 256 ^ init.length * 128 ≤ 256 ^ 7 * 128 := Nat.mul_le_mul_right _ this
      _ = 2 ^ 63 := by norm_num
  have byte := last.toNat_lt
  rw [setVch_concat]
  by_cases signed : 128 ≤ last.toNat
  · rw [if_pos signed]
    have bound : Wire.readLE init + 256 ^ init.length * (last.toNat - 128) < 2 ^ 63 := by
      have : last.toNat - 128 ≤ 127 := by omega
      nlinarith
    by_cases onlySign : last &&& 0x7f = 0
    · obtain ⟨front, c, rfl, cSigned⟩ := before onlySign
      have last128 : last.toNat = 128 := by
        rcases (lowBits_eq_zero_iff last).mp onlySign with isZero | isSign <;> omega
      have cNonzero : c ≠ 0 := fun isZero => by simp [isZero] at cSigned
      have positive : 0 < Wire.readLE (front ++ [c]) :=
        Nat.pos_of_ne_zero (readLE_ne_zero (show (front ++ [c]).getLast? = some c by simp) cNonzero)
      rw [last128, Nat.sub_self, Nat.mul_zero, Nat.add_zero] at bound ⊢
      have magnitude : Wire.readLE front + 256 ^ front.length * c.toNat =
          (-((Wire.readLE (front ++ [c]) : Nat) : Int)).natAbs := by
        rw [Int.natAbs_neg, Int.natAbs_natCast, Wire.readLE_append]
        simp [Wire.readLE]
      rw [serialize_eq (by simp only [int64Min]; omega) magnitude cNonzero
        (by simp at length; omega), if_pos cSigned, if_pos (by omega)]
      have isSign : last = 0x80 := UInt8.toNat_inj.mp last128
      simp [isSign]
    · -- the last byte keeps its low bits, which are the magnitude's top byte
      have lowNonzero : last.toNat - 128 ≠ 0 := by
        rw [lowBits_eq_zero_iff] at onlySign
        omega
      have magnitude : Wire.readLE init + 256 ^ init.length * (UInt8.ofNat (last.toNat - 128)).toNat =
          (-((Wire.readLE init + 256 ^ init.length * (last.toNat - 128) : Nat) : Int)).natAbs := by
        simp only [UInt8.toNat_ofNat', Int.natAbs_neg, Int.natAbs_natCast]
        rw [Nat.mod_eq_of_lt (by omega)]
      have topNonzero : UInt8.ofNat (last.toNat - 128) ≠ 0 := by
        intro isZero
        have := congrArg UInt8.toNat isZero
        simp only [UInt8.toNat_ofNat', UInt8.toNat_zero] at this
        omega
      have topSmall : (UInt8.ofNat (last.toNat - 128)).toNat = last.toNat - 128 := by
        simp only [UInt8.toNat_ofNat']
        omega
      have positive : 0 < Wire.readLE init + 256 ^ init.length * (last.toNat - 128) := by
        have : 0 < 256 ^ init.length := by positivity
        have : 1 ≤ last.toNat - 128 := by omega
        nlinarith
      have raised : UInt8.ofNat (last.toNat - 128) ||| 0x80 = last := by
        apply UInt8.toNat_inj.mp
        rw [toNat_or_signBit _ (by omega), topSmall]
        omega
      rw [serialize_eq (by simp only [int64Min]; omega) magnitude topNonzero (by omega),
        if_neg (by omega), if_pos (by omega), raised]
  · rw [if_neg signed]
    have bound : Wire.readLE init + 256 ^ init.length * last.toNat < 2 ^ 63 := by
      have : last.toNat ≤ 127 := by omega
      nlinarith
    by_cases onlySign : last &&& 0x7f = 0
    · -- a zero last byte, kept for the sign bit of the byte before it
      obtain ⟨front, c, rfl, cSigned⟩ := before onlySign
      have lastZero : last = 0 := by
        apply UInt8.toNat_inj.mp
        rcases (lowBits_eq_zero_iff last).mp onlySign with isZero | isSign <;> simp <;> omega
      have cNonzero : c ≠ 0 := fun isZero => by simp [isZero] at cSigned
      have magnitude : Wire.readLE front + 256 ^ front.length * c.toNat =
          ((Wire.readLE (front ++ [c]) + 256 ^ (front ++ [c]).length * last.toNat : Nat) : Int).natAbs := by
        rw [Int.natAbs_natCast, lastZero, Wire.readLE_append]
        simp [Wire.readLE]
      rw [serialize_eq (by simp only [int64Min]; omega) magnitude cNonzero
        (by simp at length; omega), if_pos cSigned, if_neg (by omega), lastZero]
      simp
    · have lastNonzero : last ≠ 0 := fun isZero => onlySign (by simp [isZero])
      rw [serialize_eq (by simp only [int64Min]; omega) (Int.natAbs_natCast _).symm lastNonzero
        (by omega), if_neg signed, if_neg (by omega)]

theorem scriptNum_serialize_bijection :
    (∀ value : Int, InInt64 value → value ≠ int64Min →
      ∃ vch, serialize value = .ok vch ∧ vch.length ≤ 8 ∧ ofBytes vch true 8 = some value) ∧
    (∀ (vch : Bytes) (nMaxNumSize : Nat), nMaxNumSize ≤ 8 → ofBytes vch true nMaxNumSize ≠ none →
      serialize (setVch vch) = .ok vch) :=
  ⟨fun _ inRange notMin => serialize_accepted inRange notMin,
    fun _ _ small accepted => serialize_setVch small accepted⟩

theorem scriptNum_serialize_bijection_minus_255 :
    (InInt64 (-255) ∧ (-255 : Int) ≠ int64Min ∧
      ∃ vch, serialize (-255) = .ok vch ∧ vch.length ≤ 8 ∧ ofBytes vch true 8 = some (-255)) ∧
    (2 ≤ 8 ∧ ofBytes [0xff, 0x80] true 2 ≠ none ∧
      serialize (setVch [0xff, 0x80]) = .ok [0xff, 0x80]) :=
  ⟨⟨by decide, by decide, scriptNum_serialize_bijection.1 (-255) (by decide) (by decide)⟩,
    ⟨by decide, by decide, scriptNum_serialize_bijection.2 [0xff, 0x80] 2 (by decide) (by decide)⟩⟩

end CScriptNum

theorem castToBool_cons (b : UInt8) {rest : Bytes} (nonempty : rest ≠ []) :
    castToBool (b :: rest) = (b != 0 || castToBool rest) := by
  cases rest with
  | nil => contradiction
  | cons c rest => rfl

theorem castToBool_concat (init : Bytes) (last : UInt8) :
    castToBool (init ++ [last]) = (init.any (· != 0) || (last != 0 && last != 0x80)) := by
  induction init with
  | nil => rfl
  | cons b init ih =>
    rw [List.cons_append, castToBool_cons b (by simp), ih, List.any_cons, Bool.or_assoc]

set_option maxRecDepth 8000 in
theorem lowBits_ne_zero_iff : ∀ b : UInt8, b.toNat % 128 ≠ 0 ↔ (b != 0 && b != 0x80) = true := by
  decide

theorem setVch_concat_ne_zero (init : Bytes) (last : UInt8) :
    CScriptNum.setVch (init ++ [last]) ≠ 0 ↔ Wire.readLE init ≠ 0 ∨ last.toNat % 128 ≠ 0 := by
  have positive : 256 ^ init.length ≠ 0 := by positivity
  have byte := last.toNat_lt
  rw [CScriptNum.setVch_concat]
  split_ifs with signed
  next =>
    have low : last.toNat % 128 = last.toNat - 128 := by omega
    rw [neg_ne_zero, Nat.cast_ne_zero, low, Ne, Nat.add_eq_zero_iff, mul_eq_zero, or_iff_right positive,
      not_and_or]
  next =>
    have low : last.toNat % 128 = last.toNat := by omega
    rw [Nat.cast_ne_zero, low, Ne, Nat.add_eq_zero_iff, mul_eq_zero, or_iff_right positive, not_and_or]

theorem castToBool_iff_setVch_ne_zero (vch : Bytes) :
    castToBool vch = true ↔ CScriptNum.setVch vch ≠ 0 := by
  rcases List.eq_nil_or_concat' vch with rfl | ⟨init, last, rfl⟩
  next => simp [castToBool, CScriptNum.setVch]
  next =>
    have someByte : init.any (· != 0) = true ↔ Wire.readLE init ≠ 0 := by
      simp [Wire.readLE_eq_zero_iff]
    rw [castToBool_concat, setVch_concat_ne_zero, Bool.or_eq_true, someByte, lowBits_ne_zero_iff]

theorem ofBytes_eq_setVch {vch : Bytes} {fRequireMinimal : Bool} {nMaxNumSize : Nat} {value : Int}
    (decoded : CScriptNum.ofBytes vch fRequireMinimal nMaxNumSize = some value) :
    value = CScriptNum.setVch vch := by
  unfold CScriptNum.ofBytes at decoded
  split_ifs at decoded
  split at decoded
  next =>
    split_ifs at decoded
    exact (Option.some.inj decoded).symm
  next => exact (Option.some.inj decoded).symm

theorem castToBool_of_scriptNum {vch : Bytes} {fRequireMinimal : Bool} {nMaxNumSize : Nat}
    {bn : Int} (decoded : scriptNum vch fRequireMinimal nMaxNumSize = .ok bn) :
    castToBool vch = decide (bn ≠ 0) := by
  unfold scriptNum at decoded
  split at decoded
  next value read =>
    cases decoded
    rw [ofBytes_eq_setVch read, Bool.eq_iff_iff, decide_eq_true_iff]
    exact castToBool_iff_setVch_ne_zero vch
  next => cases decoded

end Gaiacoin
