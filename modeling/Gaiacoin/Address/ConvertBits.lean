import Mathlib

set_option autoImplicit false

/-!
# `ConvertBits`

`ConvertBits<frombits, tobits, pad>` regroups a stream of `frombits`-bit values
into `tobits`-bit values, most significant bit first, through an accumulator
that keeps only the bits not yet written. With `pad` a last partial group is
filled up with zero bits; without it the partial group is dropped and the call
returns `false`.

The invariant of the loop is `Pending`: the groups written so far, followed by
the pending low bits of the accumulator, spell the input read so far.
-/

namespace Gaiacoin

namespace ConvertBits

def groupValue (w : Nat) (xs : List UInt8) : Nat :=
  xs.foldl (fun acc x => acc * 2 ^ w + x.toNat) 0

/-- `while (bits >= tobits) { bits -= tobits; out.push_back((acc >> bits) & maxv); }`,
for at most `rounds` rounds. -/
def drain (tobits acc : Nat) : (rounds bits : Nat) → List UInt8 × Nat
  | 0, bits => ([], bits)
  | rounds + 1, bits =>
    if bits ≥ tobits then
      let group := UInt8.ofNat ((acc >>> (bits - tobits)) &&& (2 ^ tobits - 1))
      let rest := drain tobits acc rounds (bits - tobits)
      (group :: rest.1, rest.2)
    else ([], bits)

structure Acc where
  out : List UInt8
  acc : Nat
  bits : Nat

/-- One input value: shifted into the accumulator, which keeps
`frombits + tobits - 1` bits, and then every whole group written. The inner loop
runs at most `bits` rounds, each taking `tobits > 0` bits. -/
def push (frombits tobits : Nat) (s : Acc) (v : UInt8) : Acc :=
  let acc := ((s.acc <<< frombits) ||| v.toNat) &&& (2 ^ (frombits + tobits - 1) - 1)
  let drained := drain tobits acc (s.bits + frombits) (s.bits + frombits)
  ⟨s.out ++ drained.1, acc, drained.2⟩

/-- `ConvertBits<frombits, tobits, pad>(out, it, end)`: the values written to
`out`, and what the call returns. -/
def convertBits (frombits tobits : Nat) (pad : Bool) (input : List UInt8) : List UInt8 × Bool :=
  let s := input.foldl (push frombits tobits) ⟨[], 0, 0⟩
  if !pad && s.bits != 0 then (s.out, false)
  else if pad && s.bits != 0 then
    (s.out ++ [UInt8.ofNat ((s.acc <<< (tobits - s.bits)) &&& (2 ^ tobits - 1))], true)
  else (s.out, true)

section Value

variable {w : Nat}

theorem foldl_group (a : Nat) (xs : List UInt8) :
    xs.foldl (fun acc x => acc * 2 ^ w + x.toNat) a = a * 2 ^ (w * xs.length) + groupValue w xs := by
  induction xs generalizing a with
  | nil =>
    show a = a * 2 ^ (w * 0) + 0
    simp
  | cons x xs ih =>
    have first : groupValue w (x :: xs) = x.toNat * 2 ^ (w * xs.length) + groupValue w xs := by
      rw [groupValue, List.foldl_cons, ih, Nat.zero_mul, Nat.zero_add]
    rw [List.foldl_cons, ih, first, List.length_cons, Nat.mul_succ, Nat.pow_add]
    ring

theorem groupValue_cons (x : UInt8) (xs : List UInt8) :
    groupValue w (x :: xs) = x.toNat * 2 ^ (w * xs.length) + groupValue w xs := by
  rw [groupValue, List.foldl_cons, foldl_group, Nat.zero_mul, Nat.zero_add]

theorem groupValue_append (xs ys : List UInt8) :
    groupValue w (xs ++ ys) = groupValue w xs * 2 ^ (w * ys.length) + groupValue w ys := by
  rw [groupValue, List.foldl_append, foldl_group]
  rfl

@[simp] theorem groupValue_singleton (x : UInt8) : groupValue w [x] = x.toNat := by
  simp [groupValue]

theorem groupValue_lt {xs : List UInt8} (digits : ∀ x ∈ xs, x.toNat < 2 ^ w) :
    groupValue w xs < 2 ^ (w * xs.length) := by
  induction xs with
  | nil => exact Nat.one_pos
  | cons x xs ih =>
    have rest := ih (fun y mem => digits y (List.mem_cons_of_mem x mem))
    have first := digits x List.mem_cons_self
    rw [groupValue_cons, List.length_cons, Nat.mul_succ, Nat.pow_add]
    calc x.toNat * 2 ^ (w * xs.length) + groupValue w xs
        < x.toNat * 2 ^ (w * xs.length) + 2 ^ (w * xs.length) := by omega
      _ = (x.toNat + 1) * 2 ^ (w * xs.length) := by ring
      _ ≤ 2 ^ w * 2 ^ (w * xs.length) := Nat.mul_le_mul_right _ first
      _ = 2 ^ (w * xs.length) * 2 ^ w := Nat.mul_comm _ _

theorem groupValue_inj {xs ys : List UInt8} (same : xs.length = ys.length)
    (digits : ∀ x ∈ xs, x.toNat < 2 ^ w) (digits' : ∀ y ∈ ys, y.toNat < 2 ^ w)
    (equal : groupValue w xs = groupValue w ys) : xs = ys := by
  induction xs generalizing ys with
  | nil => exact (List.length_eq_zero_iff.mp same.symm).symm
  | cons x xs ih =>
    obtain ⟨y, ys, rfl⟩ := List.exists_cons_of_length_eq_add_one same.symm
    have lengths : xs.length = ys.length := by simpa using same
    have rest := groupValue_lt (fun z mem => digits z (List.mem_cons_of_mem x mem))
    have rest' := groupValue_lt (fun z mem => digits' z (List.mem_cons_of_mem y mem))
    rw [groupValue_cons, groupValue_cons, lengths] at equal
    rw [lengths] at rest
    -- the first group is the quotient by the weight of the rest
    have weight : 0 < 2 ^ (w * ys.length) := Nat.two_pow_pos _
    have split : ∀ (z : UInt8) (r : Nat), r < 2 ^ (w * ys.length) →
        (z.toNat * 2 ^ (w * ys.length) + r) / 2 ^ (w * ys.length) = z.toNat := by
      intro z r below
      rw [Nat.add_comm, Nat.add_mul_div_right _ _ weight, Nat.div_eq_of_lt below, Nat.zero_add]
    have first : x.toNat = y.toNat := by
      rw [← split x _ rest, ← split y _ rest', equal]
    have later : groupValue w xs = groupValue w ys := by
      rw [first] at equal
      omega
    rw [UInt8.toNat_inj.mp first,
      ih lengths (fun z mem => digits z (List.mem_cons_of_mem x mem))
        (fun z mem => digits' z (List.mem_cons_of_mem y mem)) later]

theorem groupValue_mod {xs : List UInt8} {x : UInt8} (digit : x.toNat < 2 ^ w) :
    groupValue w (xs ++ [x]) % 2 ^ w = x.toNat := by
  rw [groupValue_append, List.length_singleton, Nat.mul_one, groupValue_singleton,
    Nat.mul_add_mod_self_right, Nat.mod_eq_of_lt digit]

theorem getLastD_mod {xs : List UInt8} (nonempty : xs ≠ []) (digits : ∀ x ∈ xs, x.toNat < 2 ^ w)
    {pad m : Nat} (fits : pad ≤ w) (spelled : groupValue w xs = m * 2 ^ pad) :
    (xs.getLastD 0).toNat % 2 ^ pad = 0 := by
  have split := List.dropLast_concat_getLast nonempty
  have lastD : xs.getLastD 0 = xs.getLast nonempty := by
    rw [List.getLastD_eq_getLast?, List.getLast?_eq_some_getLast nonempty]
    rfl
  have last : groupValue w (xs.dropLast ++ [xs.getLast nonempty]) % 2 ^ w =
      (xs.getLast nonempty).toNat := groupValue_mod (digits _ (List.getLast_mem nonempty))
  calc (xs.getLastD 0).toNat % 2 ^ pad
      = groupValue w (xs.dropLast ++ [xs.getLast nonempty]) % 2 ^ w % 2 ^ pad := by
        rw [lastD, last]
    _ = groupValue w xs % 2 ^ pad := by
        rw [Nat.mod_mod_of_dvd _ (Nat.pow_dvd_pow 2 fits), split]
    _ = 0 := by rw [spelled, Nat.mul_mod_left]

end Value

section Groups

variable {tobits : Nat}

theorem toNat_masked (small : tobits ≤ 8) (x : Nat) :
    (UInt8.ofNat (x &&& (2 ^ tobits - 1))).toNat = x % 2 ^ tobits := by
  have within : 2 ^ tobits ≤ 2 ^ 8 := Nat.pow_le_pow_right (by norm_num) small
  have below := Nat.mod_lt x (Nat.two_pow_pos tobits)
  rw [UInt8.toNat_ofNat', Nat.and_two_pow_sub_one_eq_mod]
  exact Nat.mod_eq_of_lt (by omega)

theorem toNat_group_lt (small : tobits ≤ 8) (x : Nat) :
    (UInt8.ofNat (x &&& (2 ^ tobits - 1))).toNat < 2 ^ tobits := by
  rw [toNat_masked small]
  exact Nat.mod_lt x (Nat.two_pow_pos tobits)

theorem drain_lt (small : tobits ≤ 8) (acc : Nat) :
    ∀ rounds bits, ∀ g ∈ (drain tobits acc rounds bits).1, g.toNat < 2 ^ tobits := by
  intro rounds
  induction rounds with
  | zero => simp [drain]
  | succ rounds ih =>
    intro bits g written
    unfold drain at written
    split_ifs at written
    · rcases List.mem_cons.mp written with first | later
      · rw [first]
        exact toNat_group_lt small _
      · exact ih _ g later
    · cases written

theorem convertBits_lt (frombits : Nat) (small : tobits ≤ 8) (pad : Bool) (input : List UInt8) :
    ∀ v ∈ (convertBits frombits tobits pad input).1, v.toNat < 2 ^ tobits := by
  -- what the loop writes, from any state whose output is groups already
  have loop : ∀ (xs : List UInt8) (s : Acc), (∀ v ∈ s.out, v.toNat < 2 ^ tobits) →
      ∀ v ∈ (xs.foldl (push frombits tobits) s).out, v.toNat < 2 ^ tobits := by
    intro xs
    induction xs with
    | nil => exact fun s groups => groups
    | cons x xs ih =>
      intro s groups
      apply ih
      intro v written
      rcases List.mem_append.mp written with old | new
      · exact groups v old
      · exact drain_lt small _ _ _ v new
  have looped := loop input ⟨[], 0, 0⟩ (by simp)
  unfold convertBits
  dsimp only
  split_ifs
  · exact looped
  · intro v written
    rcases List.mem_append.mp written with old | last
    · exact looped v old
    · rw [List.mem_singleton.mp last]
      exact toNat_group_lt small _
  · exact looped

end Groups

section Loop

variable {frombits tobits : Nat}

theorem toNat_group (small : tobits ≤ 8) (acc k : Nat) :
    (UInt8.ofNat ((acc >>> k) &&& (2 ^ tobits - 1))).toNat = acc / 2 ^ k % 2 ^ tobits := by
  rw [toNat_masked small, Nat.shiftRight_eq_div_pow]

theorem mod_two_pow_add (acc k w : Nat) :
    acc % 2 ^ (k + w) = acc / 2 ^ k % 2 ^ w * 2 ^ k + acc % 2 ^ k := by
  rw [pow_add, Nat.mod_mul]
  ring

theorem drain_spec (positive : 0 < tobits) (small : tobits ≤ 8) (acc : Nat) :
    ∀ rounds bits, bits < tobits * (rounds + 1) →
      (drain tobits acc rounds bits).2 = bits % tobits ∧
      (drain tobits acc rounds bits).1.length = bits / tobits ∧
      groupValue tobits (drain tobits acc rounds bits).1 * 2 ^ (bits % tobits) +
        acc % 2 ^ (bits % tobits) = acc % 2 ^ bits := by
  intro rounds
  induction rounds with
  | zero =>
    intro bits short
    have fewer : bits < tobits := by omega
    simp [drain, groupValue, Nat.mod_eq_of_lt fewer, Nat.div_eq_of_lt fewer]
  | succ rounds ih =>
    intro bits enough
    by_cases whole : bits ≥ tobits
    · -- one group `bits - tobits` up, then the rounds that are left
      have left : bits - tobits < tobits * (rounds + 1) := by
        rw [Nat.mul_succ] at enough
        omega
      obtain ⟨rest, written, value⟩ := ih (bits - tobits) left
      have sameMod : (bits - tobits) % tobits = bits % tobits := (Nat.mod_eq_sub_mod whole).symm
      have spelled : tobits * ((bits - tobits) / tobits) + bits % tobits = bits - tobits := by
        rw [← sameMod]
        exact Nat.div_add_mod _ _
      simp only [drain, if_pos whole, List.length_cons]
      rw [sameMod] at rest value
      refine ⟨rest, by rw [written, Nat.div_eq_sub_div positive whole], ?_⟩
      rw [groupValue_cons, toNat_group small, written]
      calc (acc / 2 ^ (bits - tobits) % 2 ^ tobits * 2 ^ (tobits * ((bits - tobits) / tobits)) +
            groupValue tobits (drain tobits acc rounds (bits - tobits)).1) * 2 ^ (bits % tobits) +
            acc % 2 ^ (bits % tobits)
          = acc / 2 ^ (bits - tobits) % 2 ^ tobits *
              2 ^ (tobits * ((bits - tobits) / tobits) + bits % tobits) +
            (groupValue tobits (drain tobits acc rounds (bits - tobits)).1 * 2 ^ (bits % tobits) +
              acc % 2 ^ (bits % tobits)) := by rw [pow_add]; ring
        _ = acc / 2 ^ (bits - tobits) % 2 ^ tobits * 2 ^ (bits - tobits) +
            acc % 2 ^ (bits - tobits) := by rw [spelled, value]
        _ = acc % 2 ^ bits := by
          rw [← mod_two_pow_add, Nat.sub_add_cancel whole]
    · have fewer : bits < tobits := by omega
      simp [drain, groupValue, if_neg whole, Nat.mod_eq_of_lt fewer, Nat.div_eq_of_lt fewer]

structure Pending (frombits tobits : Nat) (input : List UInt8) (s : Acc) : Prop where
  pending : s.bits < tobits
  value : groupValue tobits s.out * 2 ^ s.bits + s.acc % 2 ^ s.bits = groupValue frombits input
  count : tobits * s.out.length + s.bits = frombits * input.length

theorem pending_start (positive : 0 < tobits) : Pending frombits tobits [] ⟨[], 0, 0⟩ :=
  ⟨positive, by simp [groupValue], by simp⟩

theorem push_acc (acc : Nat) {v : UInt8} (digit : v.toNat < 2 ^ frombits) :
    ((acc <<< frombits) ||| v.toNat) &&& (2 ^ (frombits + tobits - 1) - 1) =
      (2 ^ frombits * acc + v.toNat) % 2 ^ (frombits + tobits - 1) := by
  rw [Nat.and_two_pow_sub_one_eq_mod, Nat.shiftLeft_eq, Nat.mul_comm acc,
    Nat.two_pow_add_eq_or_of_lt digit]

theorem push_low {bits : Nat} (fits : frombits + bits ≤ frombits + tobits - 1) (acc : Nat)
    {v : UInt8} (digit : v.toNat < 2 ^ frombits) :
    (2 ^ frombits * acc + v.toNat) % 2 ^ (frombits + tobits - 1) % 2 ^ (frombits + bits) =
      acc % 2 ^ bits * 2 ^ frombits + v.toNat := by
  rw [Nat.mod_mod_of_dvd _ (Nat.pow_dvd_pow 2 fits), mod_two_pow_add,
    Nat.mul_add_div (Nat.two_pow_pos frombits), Nat.div_eq_of_lt digit, Nat.add_zero,
    Nat.mul_add_mod, Nat.mod_eq_of_lt digit]

theorem pending_push (positive : 0 < tobits) (small : tobits ≤ 8) {input : List UInt8} {s : Acc}
    (holds : Pending frombits tobits input s) {v : UInt8} (digit : v.toNat < 2 ^ frombits) :
    Pending frombits tobits (input ++ [v]) (push frombits tobits s v) := by
  obtain ⟨pending, value, count⟩ := holds
  have fits : frombits + s.bits ≤ frombits + tobits - 1 := by omega
  have rounds : s.bits + frombits < tobits * (s.bits + frombits + 1) :=
    Nat.lt_of_lt_of_le (Nat.lt_succ_self _) (Nat.le_mul_of_pos_left _ positive)
  dsimp only [push]
  set acc := ((s.acc <<< frombits) ||| v.toNat) &&& (2 ^ (frombits + tobits - 1) - 1) with accEq
  obtain ⟨rest, written, drained⟩ :=
    drain_spec positive small acc (s.bits + frombits) (s.bits + frombits) rounds
  have low : acc % 2 ^ (s.bits + frombits) = s.acc % 2 ^ s.bits * 2 ^ frombits + v.toNat := by
    rw [accEq, push_acc _ digit, Nat.add_comm s.bits, push_low fits _ digit]
  have spelled := Nat.div_add_mod (s.bits + frombits) tobits
  refine ⟨?_, ?_, ?_⟩ <;> dsimp only
  · rw [rest]
    exact Nat.mod_lt _ positive
  · rw [rest, groupValue_append, written, groupValue_append, List.length_singleton, Nat.mul_one]
    calc (groupValue tobits s.out * 2 ^ (tobits * ((s.bits + frombits) / tobits)) +
          groupValue tobits (drain tobits acc (s.bits + frombits) (s.bits + frombits)).1) *
            2 ^ ((s.bits + frombits) % tobits) + acc % 2 ^ ((s.bits + frombits) % tobits)
        = groupValue tobits s.out *
            2 ^ (tobits * ((s.bits + frombits) / tobits) + (s.bits + frombits) % tobits) +
          (groupValue tobits (drain tobits acc (s.bits + frombits) (s.bits + frombits)).1 *
            2 ^ ((s.bits + frombits) % tobits) + acc % 2 ^ ((s.bits + frombits) % tobits)) := by
          rw [pow_add]; ring
      _ = groupValue tobits s.out * 2 ^ s.bits * 2 ^ frombits +
          (s.acc % 2 ^ s.bits * 2 ^ frombits + v.toNat) := by
          rw [spelled, drained, low, pow_add, Nat.mul_assoc]
      _ = (groupValue tobits s.out * 2 ^ s.bits + s.acc % 2 ^ s.bits) * 2 ^ frombits +
          v.toNat := by ring
      _ = groupValue frombits input * 2 ^ frombits + groupValue frombits [v] := by
          rw [value]; simp [groupValue]
  · rw [rest, List.length_append, written, List.length_append, List.length_singleton,
      Nat.mul_add, Nat.mul_add, Nat.mul_one]
    omega

theorem pending_foldl (positive : 0 < tobits) (small : tobits ≤ 8) :
    ∀ (xs input : List UInt8) (s : Acc), Pending frombits tobits input s →
      (∀ v ∈ xs, v.toNat < 2 ^ frombits) →
      Pending frombits tobits (input ++ xs) (xs.foldl (push frombits tobits) s) := by
  intro xs
  induction xs with
  | nil =>
    intro input s holds _
    simpa using holds
  | cons x xs ih =>
    intro input s holds digits
    have next := pending_push positive small holds (digits x List.mem_cons_self)
    have rest := ih (input ++ [x]) _ next (fun v mem => digits v (List.mem_cons_of_mem x mem))
    simpa using rest

theorem Pending.bits_eq {input : List UInt8} {s : Acc} (holds : Pending frombits tobits input s) :
    s.bits = frombits * input.length % tobits := by
  rw [← holds.count, Nat.mul_add_mod, Nat.mod_eq_of_lt holds.pending]

theorem pending_convertBits (positive : 0 < tobits) (small : tobits ≤ 8) {input : List UInt8}
    (digits : ∀ v ∈ input, v.toNat < 2 ^ frombits) :
    Pending frombits tobits input (input.foldl (push frombits tobits) ⟨[], 0, 0⟩) := by
  simpa using pending_foldl positive small input [] ⟨[], 0, 0⟩ (pending_start positive) digits

theorem convertBits_pad (positive : 0 < tobits) (small : tobits ≤ 8) {input : List UInt8}
    (digits : ∀ v ∈ input, v.toNat < 2 ^ frombits) :
    ∃ pad < tobits,
      groupValue tobits (convertBits frombits tobits true input).1 =
        groupValue frombits input * 2 ^ pad ∧
      tobits * (convertBits frombits tobits true input).1.length =
        frombits * input.length + pad := by
  obtain ⟨pending, value, count⟩ := pending_convertBits positive small digits
  unfold convertBits
  dsimp only
  set s := input.foldl (push frombits tobits) ⟨[], 0, 0⟩
  by_cases empty : s.bits = 0
  · -- nothing pending: no padding group
    refine ⟨0, positive, ?_⟩
    simp only [empty, bne_self_eq_false, Bool.and_false, Bool.false_eq_true, if_false]
    rw [empty] at value count
    simp only [pow_zero, Nat.mul_one, Nat.mod_one, Nat.add_zero] at value count ⊢
    exact ⟨value, count⟩
  · -- the pending bits are shifted to the top of one more group
    refine ⟨tobits - s.bits, by omega, ?_⟩
    have whole : 2 ^ tobits = 2 ^ s.bits * 2 ^ (tobits - s.bits) := by
      rw [← pow_add, Nat.add_sub_cancel' pending.le]
    simp only [empty, bne_iff_ne, ne_eq, not_false_eq_true, Bool.not_true, Bool.true_and,
      Bool.false_and, Bool.false_eq_true, if_false, if_true]
    rw [groupValue_append, List.length_singleton, groupValue_singleton, toNat_masked small, Nat.shiftLeft_eq, whole, Nat.mul_mod_mul_right,
      List.length_append, List.length_singleton, ← value]
    constructor
    · rw [Nat.mul_one, whole]
      ring
    · rw [Nat.mul_add, ← count]
      omega

theorem convertBits_nopad (positive : 0 < tobits) (small : tobits ≤ 8) {input : List UInt8}
    (digits : ∀ v ∈ input, v.toNat < 2 ^ frombits) :
    ∃ rest < 2 ^ (frombits * input.length % tobits),
      groupValue tobits (convertBits frombits tobits false input).1 *
          2 ^ (frombits * input.length % tobits) + rest = groupValue frombits input ∧
      tobits * (convertBits frombits tobits false input).1.length +
          frombits * input.length % tobits = frombits * input.length := by
  have holds := pending_convertBits positive small digits
  have written : (convertBits frombits tobits false input).1 =
      (input.foldl (push frombits tobits) ⟨[], 0, 0⟩).out := by
    unfold convertBits
    -- without `pad` only the first and the last branch can be taken
    simp only [Bool.false_and, Bool.false_eq_true, if_false]
    split_ifs <;> rfl
  rw [written, ← holds.bits_eq]
  exact ⟨_, Nat.mod_lt _ (Nat.two_pow_pos _), holds.value, holds.count⟩

end Loop

section Bytes

theorem toNat_lt_byte (bytes : List UInt8) : ∀ v ∈ bytes, v.toNat < 2 ^ 8 :=
  fun v _ => v.toNat_lt

theorem convertBits_unpack (bytes : List UInt8) :
    (convertBits 5 8 false (convertBits 8 5 true bytes).1).1 = bytes := by
  obtain ⟨pad, short, packed, packedCount⟩ :=
    convertBits_pad (by norm_num) (by norm_num : 5 ≤ 8) (toNat_lt_byte bytes)
  obtain ⟨rest, restLt, unpacked, unpackedCount⟩ :=
    convertBits_nopad (by norm_num) le_rfl (convertBits_lt 8 (by norm_num : 5 ≤ 8) true bytes)
  -- what reading back leaves pending is the padding
  have leftover : 5 * (convertBits 8 5 true bytes).1.length % 8 = pad := by omega
  rw [leftover, packed] at unpacked
  rw [leftover] at restLt unpackedCount
  have sameValue :
      groupValue 8 (convertBits 5 8 false (convertBits 8 5 true bytes).1).1 = groupValue 8 bytes :=
    calc groupValue 8 (convertBits 5 8 false (convertBits 8 5 true bytes).1).1
        = (rest + groupValue 8 (convertBits 5 8 false (convertBits 8 5 true bytes).1).1 *
            2 ^ pad) / 2 ^ pad := by
          rw [Nat.add_mul_div_right _ _ (Nat.two_pow_pos pad), Nat.div_eq_of_lt restLt,
            Nat.zero_add]
      _ = groupValue 8 bytes * 2 ^ pad / 2 ^ pad := by rw [Nat.add_comm, unpacked]
      _ = groupValue 8 bytes := Nat.mul_div_cancel _ (Nat.two_pow_pos pad)
  exact groupValue_inj (by omega) (fun v _ => v.toNat_lt) (toNat_lt_byte bytes) sameValue

theorem convertBits_pack (bytes : List UInt8) (nonempty : bytes ≠ []) :
    (convertBits 8 5 true bytes).1 ≠ [] ∧
      (convertBits 8 5 true bytes).1.length * 5 % 8 < 5 ∧
      ((convertBits 8 5 true bytes).1.getLastD 0).toNat %
        2 ^ ((convertBits 8 5 true bytes).1.length * 5 % 8) = 0 := by
  obtain ⟨pad, short, packed, packedCount⟩ :=
    convertBits_pad (by norm_num) (by norm_num : 5 ≤ 8) (toNat_lt_byte bytes)
  have some := List.length_pos_iff.mpr nonempty
  have extrabits : (convertBits 8 5 true bytes).1.length * 5 % 8 = pad := by omega
  have written : (convertBits 8 5 true bytes).1 ≠ [] := by
    rw [← List.length_pos_iff]
    omega
  rw [extrabits]
  exact ⟨written, short,
    getLastD_mod written (convertBits_lt 8 (by norm_num : 5 ≤ 8) true bytes) short.le packed⟩

end Bytes

end ConvertBits

end Gaiacoin
