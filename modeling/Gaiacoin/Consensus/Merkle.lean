import Gaiacoin.Primitives.Transaction
import Gaiacoin.Shared.Sha256
import Gaiacoin.Shared.Bits

set_option autoImplicit false

/-!
# `consensus/merkle.cpp`

`MerkleComputation` folds the leaves into `inner`, one eagerly computed subtree
hash per level, and then sweeps the odd levels up to the root. Its counter is a
`uint32_t` and every loop tests `count & (1 << level)`, so the loops stop only
where a bit of `count` is set: a shift by 32 is undefined, and the model reports
it as `Fault.shiftOutOfRange`.

The node type and hash are parameters; `Uint256` and `hashPair` are the ones the
code uses.
-/

namespace Gaiacoin

namespace Merkle

/-- `CHash256().Write(a).Write(b).Finalize()`: the double SHA-256 of the two
hashes' bytes. -/
def hashPair (a b : Uint256) : Uint256 :=
  ⟨Sha256.hash256 (a.data ++ b.data), Sha256.length_hash256 _⟩

/-- `((uint32_t)1) << level`. -/
def bit (level : Nat) : UInt32 := (1 : UInt32) <<< level.toUInt32

structure State (α : Type) where
  count : UInt32
  /-- `uint256 inner[32]`. -/
  inner : List α
  matchlevel : Int
  mutated : Bool
  /-- `pbranch`, when the caller asked for a branch. -/
  branch : Option (List α)

def State.push {α : Type} (s : State α) (h : α) : State α :=
  { s with branch := s.branch.map (· ++ [h]) }

/-- `for (; !(count & (((uint32_t)1) << level)); level++) body`. `levelsLeft`
counts the levels below 32 (callers start it at `32 - level`); once none is left
the condition shifts by the width of `uint32_t`. -/
def whileBitClear {σ : Type} (count : UInt32) (body : Nat → σ → σ) (level : Nat) (state : σ) :
    (levelsLeft : Nat) → Checked (Nat × σ)
  | 0 => throw .shiftOutOfRange
  | levelsLeft + 1 =>
    if count &&& bit level == 0 then whileBitClear count body (level + 1) (body level state) levelsLeft
    else pure (level, state)

section

variable {α : Type} [DecidableEq α] (zero : α) (hash : α → α → α)

/-- One round of the loops that combine `inner[level]` with `h`: the branch
bookkeeping, then `h = H(inner[level], h)`. The loop over the leaves also records
in `mutated` whether the two hashes were equal (`detect`); the final sweep's loop
does not. -/
def combine (detect : Bool) (level : Nat) : α × Bool × State α → α × Bool × State α
  | (h, matchh, s) =>
    let left := s.inner.getD level zero
    let (matchh, s) : Bool × State α :=
      match s.branch with
      | none => (matchh, s)
      | some _ =>
        if matchh then (true, s.push left)
        else if s.matchlevel = level then (true, s.push h)
        else (false, s)
    let s := if detect then { s with mutated := s.mutated || left == h } else s
    (hash left h, matchh, s)

def processLeaves (branchpos : UInt32) : List α → State α → Checked (State α)
  | [], s => pure s
  | leaf :: rest, s => do
    let matchh := s.count == branchpos
    let count := s.count + 1
    let (level, h, matchh, s) ←
      whileBitClear count (combine zero hash true) 0 (leaf, matchh, { s with count }) 32
    let s := { s with inner := s.inner.set level h }
    processLeaves branchpos rest (if matchh then { s with matchlevel := level } else s)

/-- The final sweep, from the lowest set bit of `count`: while `count` is not
`1 << level`, `h` is combined with itself, `count` rounded up at `level`, and `h`
carried up to the next set bit. Each round climbs at least one level, so
`rounds` runs out only past level 31, where the test shifts by the width. -/
def sweep (count : UInt32) (level : Nat) (state : α × Bool × State α) :
    (rounds : Nat) → Checked (α × Bool × State α)
  | 0 => throw .shiftOutOfRange
  | rounds + 1 =>
    if level < 32 then
      if count != bit level then
        let (h, matchh, s) := state
        let s := if s.branch.isSome && matchh then s.push h else s
        let count := count + bit level
        do
          let (level, state) ←
            whileBitClear count (combine zero hash false) (level + 1) (hash h h, matchh, s) (31 - level)
          sweep count level state rounds
      else pure state
    else throw .shiftOutOfRange

/-- `MerkleComputation`: the root, `mutated`, and the branch at `branchpos` when
one is asked for. -/
def merkleComputation (leaves : List α) (branchpos : UInt32) (wantBranch : Bool) :
    Checked (α × Bool × Option (List α)) :=
  let branch := if wantBranch then some [] else none
  match leaves with
  | [] => pure (zero, false, branch)
  | _ :: _ => do
    let s ← processLeaves zero hash branchpos leaves ⟨0, List.replicate 32 zero, -1, false, branch⟩
    let (level, ()) ← whileBitClear s.count (fun _ state => state) 0 () 32
    let (h, _, s) ← sweep zero hash s.count level (s.inner.getD level zero, s.matchlevel = level, s) 32
    pure (h, s.mutated, s.branch)

/-- `ComputeMerkleRoot`: the root and `mutated`, with `branchpos` the `-1` of the call. -/
def computeMerkleRoot (leaves : List α) : Checked (α × Bool) := do
  let (root, mutated, _) ← merkleComputation zero hash leaves (UInt32.ofNat (2 ^ 32 - 1)) false
  pure (root, mutated)

def computeMerkleBranch (leaves : List α) (position : UInt32) : Checked (List α) := do
  let (_, _, branch) ← merkleComputation zero hash leaves position true
  pure (branch.getD [])

def computeMerkleRootFromBranch (leaf : α) (vMerkleBranch : List α) (nIndex : UInt32) : α :=
  (vMerkleBranch.foldl (fun (h, nIndex) it =>
    (if nIndex &&& 1 != 0 then hash it h else hash h it, nIndex >>> 1)) (leaf, nIndex)).1

theorem whileBitClear_zero {σ : Type} (body : Nat → σ → σ) :
    ∀ (levelsLeft level : Nat) (state : σ),
      whileBitClear 0 body level state levelsLeft = .error .shiftOutOfRange := by
  intro levelsLeft
  induction levelsLeft with
  | zero => intro level state; rfl
  | succ levelsLeft ih =>
    intro level state
    -- every bit of a zero counter is clear
    simp [whileBitClear, ih]

theorem whileBitClear_stops {σ : Type} {count : UInt32} (nonzero : count ≠ 0)
    (body : Nat → σ → σ) :
    ∀ (levelsLeft level : Nat) (state : σ), level + levelsLeft = 32 →
      count.toNat % 2 ^ level = 0 →
      ∃ top final, level ≤ top ∧ count.toNat.testBit top = true ∧ count.toNat % 2 ^ top = 0 ∧
        whileBitClear count body level state levelsLeft = .ok (top, final) := by
  intro levelsLeft
  induction levelsLeft with
  | zero =>
    -- at level 32 no bit is left, so the counter would be zero
    intro level state levels aligned
    rw [show level = 32 by omega, Nat.mod_eq_of_lt (UInt32.toNat_lt count)] at aligned
    exact absurd (UInt32.toNat_inj.1 (by simpa using aligned)) nonzero
  | succ levelsLeft ih =>
    intro level state levels aligned
    have below : level < 32 := by omega
    cases set : count.toNat.testBit level with
    | false =>
      obtain ⟨top, final, above, found, alignedTop, run⟩ :=
        ih (level + 1) (body level state) (by omega) (Bits.mod_two_pow_succ_eq_zero aligned set)
      refine ⟨top, final, by omega, found, alignedTop, ?_⟩
      rw [whileBitClear, bit, Bits.and_one_shiftLeft_eq_zero below, set]
      exact run
    | true =>
      refine ⟨level, state, le_rfl, set, aligned, ?_⟩
      rw [whileBitClear, bit, Bits.and_one_shiftLeft_eq_zero below, set]
      rfl

theorem whileBitClear_induction {σ : Type} (P : Nat → σ → Prop) {count : UInt32} {body : Nat → σ → σ}
    (keeps : ∀ level state, count.toNat.testBit level = false → P level state →
      P (level + 1) (body level state)) :
    ∀ (levelsLeft level : Nat) (state : σ) {top : Nat} {final : σ}, level + levelsLeft = 32 →
      whileBitClear count body level state levelsLeft = .ok (top, final) → P level state →
      P top final ∧ count.toNat.testBit top = true := by
  intro levelsLeft
  induction levelsLeft with
  | zero => intro level state top final _ run; cases run
  | succ levelsLeft ih =>
    intro level state top final levels run holds
    rw [whileBitClear, bit, Bits.and_one_shiftLeft_eq_zero (by omega)] at run
    cases set : count.toNat.testBit level with
    | false =>
      rw [set] at run
      exact ih (level + 1) (body level state) (by omega) run (keeps level state set holds)
    | true =>
      rw [set] at run
      cases run
      exact ⟨holds, set⟩

theorem combine_count (detect : Bool) (level : Nat) (state : α × Bool × State α) :
    (combine zero hash detect level state).2.2.count = state.2.2.count := by
  obtain ⟨h, matchh, ⟨count, inner, matchlevel, mutated, branch⟩⟩ := state
  -- only `branch` and `mutated` change
  cases detect <;> cases branch <;> simp only [combine] <;> split_ifs <;> rfl

section Combine

variable (detect : Bool) (level : Nat) (h : α) (matchh : Bool) (s : State α)

theorem combine_of_none (unasked : s.branch = none) :
    combine zero hash detect level (h, matchh, s) =
      (hash (s.inner.getD level zero) h, matchh,
        { s with mutated := s.mutated || detect && s.inner.getD level zero == h }) := by
  obtain ⟨count, inner, matchlevel, mutated, branch⟩ := s
  cases unasked
  cases detect <;> simp [combine]

theorem combine_of_some {br : List α} (asked : s.branch = some br) :
    combine zero hash detect level (h, matchh, s) =
      (hash (s.inner.getD level zero) h, matchh || decide (s.matchlevel = level),
        { s with mutated := s.mutated || detect && s.inner.getD level zero == h,
                 branch := some (if matchh then br ++ [s.inner.getD level zero]
                   else if s.matchlevel = level then br ++ [h] else br) }) := by
  obtain ⟨count, inner, matchlevel, mutated, branch⟩ := s
  cases asked
  cases detect <;> cases matchh <;> by_cases here : matchlevel = level <;>
    simp [combine, State.push, here]

theorem combine_frame :
    (combine zero hash detect level (h, matchh, s)).1 = hash (s.inner.getD level zero) h ∧
      (combine zero hash detect level (h, matchh, s)).2.2.inner = s.inner ∧
      (combine zero hash detect level (h, matchh, s)).2.2.matchlevel = s.matchlevel ∧
      (combine zero hash detect level (h, matchh, s)).2.2.mutated =
        (s.mutated || detect && s.inner.getD level zero == h) := by
  cases asked : s.branch with
  | none =>
    rw [combine_of_none zero hash detect level h matchh s asked]
    exact ⟨rfl, rfl, rfl, rfl⟩
  | some br =>
    rw [combine_of_some zero hash detect level h matchh s asked]
    exact ⟨rfl, rfl, rfl, rfl⟩

theorem isSome_combine_branch :
    (combine zero hash detect level (h, matchh, s)).2.2.branch.isSome = s.branch.isSome := by
  cases asked : s.branch with
  | none => rw [combine_of_none zero hash detect level h matchh s asked]; exact congrArg _ asked
  | some br => rw [combine_of_some zero hash detect level h matchh s asked]; rfl

theorem combine_branch_none (unasked : s.branch = none) :
    (combine zero hash detect level (h, matchh, s)).2.2.branch = none := by
  rw [combine_of_none zero hash detect level h matchh s unasked]
  exact unasked

end Combine

theorem processLeaves_ok (branchpos : UInt32) :
    ∀ (leaves : List α) (s : State α), s.count.toNat + leaves.length < 2 ^ 32 →
      ∃ final, processLeaves zero hash branchpos leaves s = .ok final ∧
        final.count.toNat = s.count.toNat + leaves.length := by
  intro leaves
  induction leaves with
  | nil => intro s _; exact ⟨s, rfl, rfl⟩
  | cons leaf rest ih =>
    intro s fits
    have counted : (s.count + 1).toNat = s.count.toNat + 1 := by
      rw [UInt32.toNat_add, UInt32.toNat_one, Nat.mod_eq_of_lt (by simp at fits; omega)]
    have nonzero : s.count + 1 ≠ 0 := by
      intro zero
      rw [zero] at counted
      simp at counted
    obtain ⟨top, ⟨h, matchh, carried⟩, -, -, -, run⟩ :=
      whileBitClear_stops nonzero (combine zero hash true) 32 0
        (leaf, s.count == branchpos, { s with count := s.count + 1 }) rfl (Nat.mod_one _)
    -- the loop leaves `count` where it was
    have kept : carried.count = s.count + 1 :=
      (whileBitClear_induction (fun _ state => state.2.2.count = s.count + 1)
        (fun level state _ holds => (combine_count zero hash true level state).trans holds) 32 0 _ rfl
        run rfl).1
    set next : State α := if matchh then { carried with inner := carried.inner.set top h, matchlevel := top }
      else { carried with inner := carried.inner.set top h } with nextDef
    have nextCount : next.count = s.count + 1 := by
      rw [nextDef]
      split <;> exact kept
    obtain ⟨final, tail, finalCount⟩ :=
      ih next (by rw [nextCount, counted]; simp at fits; omega)
    refine ⟨final, ?_, ?_⟩
    · rw [processLeaves, run]
      simp only [Checked.ok_bind]
      rw [← tail, nextDef]
    · rw [finalCount, nextCount, counted]
      simp
      omega

theorem sweep_done {count : UInt32} {level : Nat} (below : level < 32) (done : count.toNat = 2 ^ level)
    (state : α × Bool × State α) (rounds : Nat) :
    sweep zero hash count level state (rounds + 1) = pure state := by
  have stops : (count != bit level) = false := by
    rw [bit, Bool.eq_false_iff, ne_eq, Bits.ne_one_shiftLeft_iff below]
    exact not_not.2 done
  rw [sweep, if_pos below, stops]
  rfl

theorem sweep_continue {count : UInt32} {level : Nat} (below : level < 32)
    (going : count.toNat ≠ 2 ^ level) (h : α) (matchh : Bool) (s : State α) (rounds : Nat) :
    sweep zero hash count level (h, matchh, s) (rounds + 1) = (do
      let (next, carried) ← whileBitClear (count + bit level) (combine zero hash false) (level + 1)
        (hash h h, matchh, if s.branch.isSome && matchh then s.push h else s) (31 - level)
      sweep zero hash (count + bit level) next carried rounds) := by
  have continues : (count != bit level) = true := by
    rw [bit, Bits.ne_one_shiftLeft_iff below]
    exact going
  rw [sweep, if_pos below, if_pos continues]

theorem sweep_round {count : UInt32} {level : Nat} (below : level < 32)
    (set : count.toNat.testBit level = true) (aligned : count.toNat % 2 ^ level = 0)
    (going : count.toNat ≠ 2 ^ level) (fits : count.toNat + 2 ^ level < 2 ^ 32)
    (state : α × Bool × State α) (rounds : Nat) :
    ∃ next carried, level < next ∧ (count + bit level).toNat = count.toNat + 2 ^ level ∧
      (count + bit level).toNat.testBit next = true ∧ (count + bit level).toNat % 2 ^ next = 0 ∧
      sweep zero hash count level state (rounds + 1) = sweep zero hash (count + bit level) next carried rounds := by
  have sum : (count + bit level).toNat = count.toNat + 2 ^ level := by
    rw [bit, Bits.toNat_add_one_shiftLeft below, Nat.mod_eq_of_lt fits]
  have nonzero : count + bit level ≠ 0 := by
    intro zero
    rw [zero] at sum
    have positive := Nat.two_pow_pos level
    simp at sum
    omega
  obtain ⟨h, matchh, s⟩ := state
  obtain ⟨next, carried, above, found, alignedNext, run⟩ :=
    whileBitClear_stops nonzero (combine zero hash false) (31 - level) (level + 1)
      (hash h h, matchh, if s.branch.isSome && matchh then s.push h else s) (by omega)
      (by rw [sum]; exact Bits.add_two_pow_mod_succ aligned set)
  refine ⟨next, carried, by omega, sum, found, alignedNext, ?_⟩
  rw [sweep_continue zero hash below going h matchh s rounds, run]
  rfl

theorem sweep_undefined :
    ∀ (rounds : Nat) (count : UInt32) (level : Nat) (state : α × Bool × State α),
      2 ^ 31 < count.toNat → count.toNat.testBit level = true → count.toNat % 2 ^ level = 0 →
      32 ≤ level + rounds → sweep zero hash count level state rounds = .error .shiftOutOfRange := by
  intro rounds
  induction rounds with
  | zero =>
    intro count level state _ set _ enough
    have := Bits.lt_of_testBit (UInt32.toNat_lt count) set
    omega
  | succ rounds ih =>
    intro count level state large set aligned enough
    have below : level < 32 := Bits.lt_of_testBit (UInt32.toNat_lt count) set
    -- `count` lies above every power of two a level below 32 names
    have going : count.toNat ≠ 2 ^ level := by
      have : 2 ^ level ≤ 2 ^ 31 := Nat.pow_le_pow_right (by decide) (by omega)
      omega
    have rounded := Bits.add_two_pow_le aligned (UInt32.toNat_lt count) (by omega : level ≤ 32)
    rcases Nat.lt_or_eq_of_le rounded with fits | wraps
    · obtain ⟨next, carried, above, sum, found, alignedNext, round⟩ :=
        sweep_round zero hash below set aligned going fits state rounds
      rw [round]
      exact ih (count + bit level) next carried (by omega) found alignedNext (by omega)
    · -- the counter wraps to zero, and no set bit is left to stop the loop
      have wrapped : count + bit level = 0 := by
        apply UInt32.toNat_inj.1
        rw [bit, Bits.toNat_add_one_shiftLeft below, wraps]
        rfl
      obtain ⟨h, matchh, s⟩ := state
      rw [sweep_continue zero hash below going h matchh s rounds]
      simp only [wrapped, whileBitClear_zero]
      rfl

theorem lowest_set_bit_of_processLeaves (branchpos : UInt32) {leaves : List α}
    (nonempty : leaves ≠ []) (fits : leaves.length < 2 ^ 32) (start : State α) (fresh : start.count = 0) :
    ∃ s level, processLeaves zero hash branchpos leaves start = .ok s ∧ s.count.toNat = leaves.length ∧
      whileBitClear s.count (fun _ state => state) 0 () 32 = .ok (level, ()) ∧
      s.count.toNat.testBit level = true ∧ s.count.toNat % 2 ^ level = 0 := by
  obtain ⟨s, run, counted⟩ := processLeaves_ok zero hash branchpos leaves start (by rw [fresh]; simpa using fits)
  rw [fresh] at counted
  simp only [UInt32.toNat_zero, Nat.zero_add] at counted
  have nonzero : s.count ≠ 0 := by
    intro none
    rw [none] at counted
    exact nonempty (List.length_eq_zero_iff.1 (by simpa using counted.symm))
  obtain ⟨level, ⟨⟩, -, set, aligned, skip⟩ :=
    whileBitClear_stops nonzero (fun _ state => state) 32 0 () rfl (Nat.mod_one _)
  exact ⟨s, level, run, counted, skip, set, aligned⟩

theorem merkleComputation_undefined {leaves : List α} (long : 2 ^ 31 < leaves.length)
    (fits : leaves.length < 2 ^ 32) (branchpos : UInt32) (wantBranch : Bool) :
    merkleComputation zero hash leaves branchpos wantBranch = .error .shiftOutOfRange := by
  have nonempty : leaves ≠ [] := by
    intro empty
    rw [empty] at long
    simp at long
  obtain ⟨s, level, run, counted, skip, set, aligned⟩ :=
    lowest_set_bit_of_processLeaves zero hash branchpos nonempty fits
      ⟨0, List.replicate 32 zero, -1, false, if wantBranch then some [] else none⟩ rfl
  have swept := sweep_undefined zero hash 32 s.count level
    (s.inner.getD level zero, s.matchlevel = level, s) (by omega) set aligned (by omega)
  obtain ⟨leaf, rest, rfl⟩ := List.exists_cons_of_ne_nil nonempty
  simp only [merkleComputation, run, skip, swept, Checked.ok_bind]
  rfl

theorem computeMerkleRoot_undefined_above_two_pow_31 (leaves : List α)
    (long : 2 ^ 31 < leaves.length) (fits : leaves.length < 2 ^ 32) :
    computeMerkleRoot zero hash leaves = .error .shiftOutOfRange := by
  rw [computeMerkleRoot, merkleComputation_undefined zero hash long fits]
  rfl

theorem computeMerkleRoot_and_branch_undefined (leaves : List α)
    (long : 2 ^ 31 < leaves.length) (fits : leaves.length < 2 ^ 32) :
    computeMerkleRoot zero hash leaves = .error .shiftOutOfRange ∧
      ∀ position, computeMerkleBranch zero hash leaves position = .error .shiftOutOfRange := by
  refine ⟨?_, fun position => ?_⟩
  · rw [computeMerkleRoot, merkleComputation_undefined zero hash long fits]
    rfl
  · rw [computeMerkleBranch, merkleComputation_undefined zero hash long fits]
    rfl

end

theorem length_replicate_two_pow_31_add_one :
    2 ^ 31 < (List.replicate (2 ^ 31 + 1) Uint256.zero).length ∧
      (List.replicate (2 ^ 31 + 1) Uint256.zero).length < 2 ^ 32 := by
  rw [List.length_replicate]
  norm_num

theorem computeMerkleRoot_undefined_two_pow_31_add_one :
    2 ^ 31 < (List.replicate (2 ^ 31 + 1) Uint256.zero).length ∧
      (List.replicate (2 ^ 31 + 1) Uint256.zero).length < 2 ^ 32 ∧
      computeMerkleRoot Uint256.zero hashPair (List.replicate (2 ^ 31 + 1) Uint256.zero) =
        .error .shiftOutOfRange :=
  have bounds := length_replicate_two_pow_31_add_one
  ⟨bounds.1, bounds.2, computeMerkleRoot_undefined_above_two_pow_31 Uint256.zero hashPair _ bounds.1 bounds.2⟩

end Merkle

end Gaiacoin
