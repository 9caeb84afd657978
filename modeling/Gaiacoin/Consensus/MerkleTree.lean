import Gaiacoin.Consensus.Merkle
import Gaiacoin.Shared.HashTree

set_option autoImplicit false

/-!
# `MerkleComputation` builds the level-by-level tree

Between two leaves, `inner[level]` holds the root of the complete subtree kept for
every set bit `level` of the count. While a leaf's hash is carried up, the subtree
in hand starts at a count aligned at its height and the kept ones before it are
those of that count; the sweep carries an incomplete subtree the same way. Up to
`2 ^ 31` leaves the sweep ends at the height of the tree, with the root, the
`mutated` flag of every node over two equal complete subtrees, and the branch.
-/

namespace Gaiacoin

namespace Merkle

open HashTree

section Invariants

variable {α : Type} [DecidableEq α] [Inhabited α] (zero : α) (hash : α → α → α)
  (leaves : List α) (p : Nat) (wanted : Bool)

def BranchKept (count : Nat) (matchlevel : Int) (br : List α) : Prop :=
  (p < count → ∃ level : Nat, matchlevel = level ∧ InForest hash leaves count p level br) ∧
    (count ≤ p → matchlevel = -1 ∧ br = [])

structure Kept (count : Nat) (s : State α) : Prop where
  counted : s.count.toNat = count
  fits : count ≤ leaves.length
  slots : s.inner.length = 32
  stored : Stored hash leaves count (s.inner.getD · zero)
  mutated : s.mutated = true ↔ ForestTwins hash leaves count
  branch : ∀ br, s.branch = some br → BranchKept hash leaves p count s.matchlevel br
  asked : s.branch.isSome = wanted

def BranchCarried (count level : Nat) (matchh : Bool) (matchlevel : Int) (br : List α) : Prop :=
  (p < count → matchh = false ∧ ∃ i : Nat, matchlevel = i ∧ InForest hash leaves count p i br) ∧
    (count ≤ p → p < count + 2 ^ level → p < leaves.length →
      matchh = true ∧ br = branch hash level (block leaves count level) (p - count)) ∧
    (count + 2 ^ level ≤ p ∨ leaves.length ≤ p → matchh = false ∧ matchlevel = -1 ∧ br = [])

structure Carried (count level : Nat) (state : α × Bool × State α) : Prop where
  aligned : count % 2 ^ level = 0
  nonempty : count < leaves.length
  height : 2 ^ level < 2 * leaves.length
  slots : state.2.2.inner.length = 32
  stored : Stored hash leaves count (state.2.2.inner.getD · zero)
  carried : state.1 = root hash level (block leaves count level)
  mutated : state.2.2.mutated = true ↔
    ForestTwins hash leaves count ∨ twins hash level (block leaves count level) = true
  branch : ∀ br, state.2.2.branch = some br →
    BranchCarried hash leaves p count level state.2.1 state.2.2.matchlevel br
  asked : state.2.2.branch.isSome = wanted

theorem kept_initial :
    Kept zero hash leaves p wanted 0
      ⟨0, List.replicate 32 zero, -1, false, if wanted then some [] else none⟩ := by
  refine ⟨rfl, Nat.zero_le _, List.length_replicate, ?_, ?_, ?_, by cases wanted <;> rfl⟩
  next => intro level set; simp at set
  next => simp [ForestTwins]
  next =>
    intro br asked
    have empty : br = [] := by cases wanted <;> simp_all
    exact ⟨fun before => absurd before (Nat.not_lt_zero p), fun _ => ⟨rfl, empty⟩⟩

section Combine

variable {d level : Nat} (aligned : d % 2 ^ (level + 1) = 0)
  (nonempty : d + 2 ^ level < leaves.length)
include aligned nonempty

omit [DecidableEq α] in
theorem branchCarried_combine {matchh : Bool} {matchlevel : Int} {br : List α}
    (inv : BranchCarried hash leaves p (d + 2 ^ level) level matchh matchlevel br) :
    BranchCarried hash leaves p d (level + 1) (matchh || decide (matchlevel = level)) matchlevel
      (if matchh then br ++ [root hash level (block leaves d level)]
        else if matchlevel = level then br ++ [root hash level (block leaves (d + 2 ^ level) level)]
        else br) := by
  obtain ⟨before, under, past⟩ := inv
  have full : (block leaves d level).length = 2 ^ level := length_block_of_le (by omega)
  have rest : block leaves (d + 2 ^ level) level ≠ [] := block_ne_nil nonempty level
  have split := block_succ leaves d level
  have double : 2 ^ (level + 1) = 2 ^ level + 2 ^ level := by rw [Nat.pow_succ, Nat.mul_two]
  refine ⟨fun early => ?_, fun low high inside => ?_, fun late => ?_⟩
  next =>
    -- a subtree kept before the left child holds the leaf
    obtain ⟨unmatched, i, rfl, kept⟩ := before (by omega)
    have other : (i : Int) ≠ level :=
      fun same => ne_of_inForest_add_two_pow hash aligned early kept (Nat.cast_inj.1 same)
    subst unmatched
    simp only [Bool.false_or, if_false, other]
    exact ⟨rfl, i, rfl, (inForest_add_two_pow_iff hash aligned early i br).1 kept⟩
  next =>
    by_cases right : d + 2 ^ level ≤ p
    · -- the leaf lies under the right child, the subtree in hand
      obtain ⟨matched, rfl⟩ := under right (by omega) inside
      subst matched
      refine ⟨rfl, ?_⟩
      rw [if_pos rfl, split, show p - d = 2 ^ level + (p - (d + 2 ^ level)) by omega,
        branch_append_right hash full rest]
    · -- the leaf lies under the left child, the subtree kept at `level`
      obtain ⟨unmatched, i, rfl, kept⟩ := before (by omega)
      obtain ⟨rfl, rfl⟩ := eq_of_inForest_add_two_pow hash aligned low kept
      subst unmatched
      refine ⟨by simp, ?_⟩
      rw [if_neg (by simp), if_pos rfl, split, branch_append_left hash full rest (by omega)]
  next =>
    obtain ⟨unmatched, unset, rfl⟩ := past (by omega)
    subst unmatched unset
    have never : (-1 : Int) ≠ level := by omega
    simp [never]

theorem carried_combine {detect : Bool}
    (detects : detect = true ↔ (block leaves (d + 2 ^ level) level).length = 2 ^ level)
    {state : α × Bool × State α} (inv : Carried zero hash leaves p wanted (d + 2 ^ level) level state) :
    Carried zero hash leaves p wanted d (level + 1) (combine zero hash detect level state) := by
  obtain ⟨h, matchh, s⟩ := state
  obtain ⟨fst, inner, matchlevel, mutated⟩ := combine_frame zero hash detect level h matchh s
  obtain ⟨storedBelow, left⟩ := (stored_add_two_pow_iff hash aligned _).1 inv.stored
  have carried : h = root hash level (block leaves (d + 2 ^ level) level) := inv.carried
  have full : (block leaves d level).length = 2 ^ level := length_block_of_le (by omega)
  have rest : block leaves (d + 2 ^ level) level ≠ [] := block_ne_nil nonempty level
  have split := block_succ leaves d level
  refine ⟨aligned, by omega, ?_, by rw [inner]; exact inv.slots,
    by rw [inner]; exact storedBelow, ?_, ?_, ?_,
    (isSome_combine_branch zero hash detect level h matchh s).trans inv.asked⟩
  next =>
    rw [Nat.pow_succ]
    omega
  next =>
    -- the kept subtree is the left child, the one in hand the right
    rw [fst, split, root_append hash full rest, left, carried]
  next =>
    have twinsIff : ForestTwins hash leaves (d + 2 ^ level) ↔ _ := forestTwins_add_two_pow_iff hash aligned
    rw [mutated, Bool.or_eq_true, inv.mutated, twinsIff, split, twins_append hash full rest, left,
      carried]
    simp only [Bool.or_eq_true, Bool.and_eq_true, beq_iff_eq]
    cases detect
    · -- the sweep's right child is incomplete
      have incomplete : (block leaves (d + 2 ^ level) level).length ≠ 2 ^ level := by
        simpa using detects
      simp only [Bool.false_eq_true, false_and, or_false, incomplete]
      tauto
    · simp only [detects.1 rfl, true_and]
      tauto
  next =>
    intro br' asked'
    cases asked : s.branch with
    | none =>
      rw [combine_branch_none zero hash detect level h matchh s asked] at asked'
      cases asked'
    | some br =>
      rw [combine_of_some zero hash detect level h matchh s asked] at asked' ⊢
      cases asked'
      have pushed := branchCarried_combine hash leaves p aligned nonempty (inv.branch br asked)
      rw [← left, ← carried] at pushed
      exact pushed

end Combine

section Leaves

variable (branchpos : UInt32)

theorem carried_leaf {c : Nat} {s : State α} (inv : Kept zero hash leaves branchpos.toNat wanted c s)
    {leaf : α} (next : leaves[c]? = some leaf) :
    Carried zero hash leaves branchpos.toNat wanted c 0
      (leaf, s.count == branchpos, { s with count := s.count + 1 }) := by
  have inside : c < leaves.length := (List.getElem?_eq_some_iff.1 next).1
  have matchIff : (s.count == branchpos) = true ↔ c = branchpos.toNat := by
    rw [beq_iff_eq, ← UInt32.toNat_inj, inv.counted]
  refine ⟨Nat.mod_one c, inside, by omega, inv.slots, inv.stored, ?_, ?_, ?_, inv.asked⟩
  next =>
    show leaf = root hash 0 (block leaves c 0)
    rw [block_zero next]
    rfl
  next =>
    show s.mutated = true ↔ _
    rw [inv.mutated, twins]
    simp
  next =>
    intro br asked
    obtain ⟨before, after⟩ := inv.branch br asked
    refine ⟨fun early => ⟨?_, before early⟩, fun low high _ => ⟨matchIff.2 (by omega), ?_⟩,
      fun late => ⟨?_, after (by omega)⟩⟩
    next => exact Bool.eq_false_iff.2 fun same => absurd (matchIff.1 same) (by omega)
    next =>
      rw [(after low).2]
      rfl
    next => exact Bool.eq_false_iff.2 fun same => absurd (matchIff.1 same) (by omega)

theorem kept_store {d level : Nat} (aligned : d % 2 ^ (level + 1) = 0)
    (full : d + 2 ^ level ≤ leaves.length) (below : level < 32) {h : α} {matchh : Bool}
    {s : State α} (inv : Carried zero hash leaves p wanted d level (h, matchh, s)) {next : State α}
    (counted : next.count.toNat = d + 2 ^ level) (inner : next.inner = s.inner.set level h)
    (mutated : next.mutated = s.mutated) (branch : next.branch = s.branch)
    (matchlevel : next.matchlevel = if matchh then (level : Int) else s.matchlevel) :
    Kept zero hash leaves p wanted (d + 2 ^ level) next := by
  have slots : s.inner.length = 32 := inv.slots
  have carried : h = root hash level (block leaves d level) := inv.carried
  have clear : d.testBit level = false := by
    cases set : d.testBit level
    · rfl
    · exact absurd (Bits.lt_of_testBit_of_aligned aligned set) (Nat.lt_irrefl _)
  have getSet : ∀ i, next.inner.getD i zero = if i = level then h else s.inner.getD i zero := by
    intro i
    rw [inner]
    by_cases here : i = level
    · simp [here, List.getD_eq_getElem?_getD, slots, below]
    · simp [here, List.getD_eq_getElem?_getD, List.getElem?_set_ne (Ne.symm here)]
  refine ⟨counted, full, by rw [inner, List.length_set, slots], ?_, ?_, ?_,
    by rw [branch]; exact inv.asked⟩
  next =>
    refine (stored_add_two_pow_iff hash aligned _).2 ⟨fun i set => ?_, ?_⟩
    · have other : i ≠ level := by
        rintro rfl
        rw [clear] at set
        cases set
      show next.inner.getD i zero = _
      rw [getSet, if_neg other]
      exact inv.stored i set
    · show next.inner.getD level zero = _
      rw [getSet, if_pos rfl, carried]
  next =>
    rw [mutated, forestTwins_add_two_pow_iff hash aligned]
    exact inv.mutated
  next =>
    intro br asked
    rw [branch] at asked
    obtain ⟨before, under, past⟩ := inv.branch br asked
    dsimp only at before under past
    refine ⟨fun early => ?_, fun late => ?_⟩
    next =>
      by_cases old : p < d
      · -- the leaf lies under an older kept subtree
        obtain ⟨unmatched, i, same, kept⟩ := before old
        rw [matchlevel, unmatched, if_neg (by simp), same]
        exact ⟨i, rfl, (inForest_add_two_pow_iff hash aligned old i br).2 kept⟩
      · -- the leaf lies under the subtree just stored
        obtain ⟨matched, rfl⟩ := under (by omega) early (by omega)
        rw [matchlevel, matched, if_pos rfl]
        exact ⟨level, rfl, inForest_add_two_pow_self hash aligned (by omega) early⟩
    next =>
      obtain ⟨unmatched, unset, rfl⟩ := past (.inl late)
      rw [matchlevel, unmatched, if_neg (by simp), unset]
      exact ⟨rfl, rfl⟩

theorem kept_step {c : Nat} {s : State α} (inv : Kept zero hash leaves branchpos.toNat wanted c s)
    {leaf : α} (next : leaves[c]? = some leaf) (bounded : leaves.length < 2 ^ 32) :
    ∃ top h matchh carried,
      whileBitClear (s.count + 1) (combine zero hash true) 0
          (leaf, s.count == branchpos, { s with count := s.count + 1 }) 32 =
        .ok (top, h, matchh, carried) ∧
      Kept zero hash leaves branchpos.toNat wanted (c + 1)
        (if matchh then { carried with inner := carried.inner.set top h, matchlevel := top }
          else { carried with inner := carried.inner.set top h }) := by
  have inside : c < leaves.length := (List.getElem?_eq_some_iff.1 next).1
  have counted : (s.count + 1).toNat = c + 1 := by
    rw [UInt32.toNat_add, UInt32.toNat_one, inv.counted, Nat.mod_eq_of_lt (by omega)]
  have nonzero : s.count + 1 ≠ 0 := by
    intro zero
    rw [zero] at counted
    simp at counted
  obtain ⟨top, ⟨h, matchh, carried⟩, -, -, -, run⟩ :=
    whileBitClear_stops nonzero (combine zero hash true) 32 0
      (leaf, s.count == branchpos, { s with count := s.count + 1 }) rfl (Nat.mod_one _)
  -- the subtree in hand ends at the new count, and the loop keeps the count
  let Climbing : Nat → α × Bool × State α → Prop := fun level state =>
    ∃ d, d + 2 ^ level = c + 1 ∧ Carried zero hash leaves branchpos.toNat wanted d level state ∧
      state.2.2.count = s.count + 1
  have climbs : ∀ level state, (s.count + 1).toNat.testBit level = false →
      Climbing level state → Climbing (level + 1) (combine zero hash true level state) := by
    rintro level state clear ⟨d, sum, carriedInv, keeps⟩
    rw [counted, ← sum, Bits.testBit_add_two_pow_self, Bool.not_eq_false'] at clear
    obtain ⟨e, rfl, aligned⟩ := Bits.exists_add_two_pow carriedInv.aligned clear
    refine ⟨e, by rw [Nat.pow_succ]; omega, ?_, (combine_count zero hash true level state).trans keeps⟩
    exact carried_combine zero hash leaves _ _ aligned carriedInv.nonempty
      (iff_of_true rfl (length_block_of_le (by omega))) carriedInv
  obtain ⟨⟨d, sum, carriedInv, keeps⟩, set⟩ :=
    whileBitClear_induction Climbing climbs 32 0 _ rfl run
      ⟨c, rfl, carried_leaf zero hash leaves wanted branchpos inv next, rfl⟩
  have below : top < 32 := Bits.lt_of_testBit (UInt32.toNat_lt _) set
  rw [counted, ← sum, Bits.testBit_add_two_pow_self, Bool.not_eq_true'] at set
  have aligned := Bits.mod_two_pow_succ_eq_zero carriedInv.aligned set
  have stays : carried.count.toNat = d + 2 ^ top := by
    change carried.count = s.count + 1 at keeps
    rw [keeps, counted, sum]
  refine ⟨top, h, matchh, carried, run, ?_⟩
  rw [← sum]
  -- with `matchh` known, the stored state's fields are read off by `rfl`
  cases matchh <;>
    exact kept_store zero hash leaves _ _ aligned (by omega) below carriedInv stays rfl rfl rfl rfl

theorem kept_processLeaves (bounded : leaves.length < 2 ^ 32) :
    ∀ (rest : List α) (c : Nat) (s : State α), Kept zero hash leaves branchpos.toNat wanted c s →
      leaves.drop c = rest →
      ∃ final, processLeaves zero hash branchpos rest s = .ok final ∧
        Kept zero hash leaves branchpos.toNat wanted leaves.length final := by
  intro rest
  induction rest with
  | nil =>
    intro c s inv ended
    have all : c = leaves.length := by
      have := List.drop_eq_nil_iff.1 ended
      have := inv.fits
      omega
    subst all
    exact ⟨s, rfl, inv⟩
  | cons leaf rest ih =>
    intro c s inv ahead
    have next : leaves[c]? = some leaf := by rw [← List.head?_drop, ahead]; rfl
    obtain ⟨top, h, matchh, carried, run, stepped⟩ :=
      kept_step zero hash leaves wanted branchpos inv next bounded
    obtain ⟨final, tail, finalInv⟩ :=
      ih (c + 1) _ stepped (by rw [← List.tail_drop, ahead]; rfl)
    refine ⟨final, ?_, finalInv⟩
    rw [processLeaves, run]
    exact tail

end Leaves

section Sweep

theorem carried_lowest {d level : Nat} (aligned : d % 2 ^ (level + 1) = 0) {s : State α}
    (inv : Kept zero hash leaves p wanted (d + 2 ^ level) s) (all : d + 2 ^ level = leaves.length) :
    Carried zero hash leaves p wanted d level (s.inner.getD level zero, decide (s.matchlevel = level), s) := by
  obtain ⟨storedBelow, lowest⟩ := (stored_add_two_pow_iff hash aligned _).1 inv.stored
  have alignedLow : d % 2 ^ level = 0 := Nat.mod_eq_zero_of_dvd
    (Nat.dvd_trans (Nat.pow_dvd_pow 2 (Nat.le_succ level)) (Nat.dvd_of_mod_eq_zero aligned))
  have := Nat.two_pow_pos level
  refine ⟨alignedLow, by omega, by omega, inv.slots, storedBelow, lowest, ?_, ?_, inv.asked⟩
  next =>
    show s.mutated = true ↔ _
    rw [inv.mutated, forestTwins_add_two_pow_iff hash aligned]
  next =>
    intro br asked
    obtain ⟨before, after⟩ := inv.branch br asked
    show BranchCarried hash leaves p d level (decide (s.matchlevel = level)) s.matchlevel br
    refine ⟨fun early => ?_, fun low high _ => ?_, fun late => ?_⟩
    next =>
      -- a subtree kept before the lowest one holds the leaf
      obtain ⟨i, same, kept⟩ := before (by omega)
      have other : i ≠ level := ne_of_inForest_add_two_pow hash aligned early kept
      refine ⟨?_, i, same, (inForest_add_two_pow_iff hash aligned early i br).1 kept⟩
      rw [same]
      simpa using other
    next =>
      obtain ⟨i, same, kept⟩ := before high
      obtain ⟨rfl, rfl⟩ := eq_of_inForest_add_two_pow hash aligned low kept
      exact ⟨by simp [same], rfl⟩
    next =>
      obtain ⟨unset, rfl⟩ := after (by omega)
      have never : (-1 : Int) ≠ level := by omega
      exact ⟨by simp [unset, never], unset, rfl⟩

theorem carried_double {d level : Nat} (aligned : d % 2 ^ (level + 1) = 0)
    (last : leaves.length ≤ d + 2 ^ level) (going : d ≠ 0) {h : α} {matchh : Bool} {s : State α}
    (inv : Carried zero hash leaves p wanted d level (h, matchh, s)) :
    Carried zero hash leaves p wanted d (level + 1)
      (hash h h, matchh, if s.branch.isSome && matchh then s.push h else s) := by
  have carried : h = root hash level (block leaves d level) := inv.carried
  have rest : block leaves d (level + 1) = block leaves d level := by
    rw [block_of_le last, block_of_le (by rw [Nat.pow_succ]; omega)]
  have short : (block leaves d level).length ≤ 2 ^ level := by
    rw [block, List.length_take]
    exact Nat.min_le_left _ _
  have above : 2 ^ (level + 1) ≤ d := Bits.two_pow_le_of_aligned aligned going
  have frame : (if s.branch.isSome && matchh then s.push h else s).inner = s.inner ∧
      (if s.branch.isSome && matchh then s.push h else s).mutated = s.mutated ∧
      (if s.branch.isSome && matchh then s.push h else s).matchlevel = s.matchlevel ∧
      (if s.branch.isSome && matchh then s.push h else s).branch.isSome = s.branch.isSome := by
    split
    · cases asked : s.branch <;> simp [State.push, asked]
    · exact ⟨rfl, rfl, rfl, rfl⟩
  obtain ⟨inner, mutated, matchlevel, asked⟩ := frame
  refine ⟨aligned, inv.nonempty, by have := inv.nonempty; omega, by rw [inner]; exact inv.slots,
    by rw [inner]; exact inv.stored, ?_, ?_, ?_, asked.trans inv.asked⟩
  next =>
    show hash h h = _
    rw [rest, root_of_le hash short, carried]
  next =>
    show _ = true ↔ _
    rw [mutated, rest, twins_of_le hash short]
    exact inv.mutated
  next =>
    intro br' pushed
    show BranchCarried hash leaves p d (level + 1) matchh _ br'
    rw [matchlevel]
    cases branchSome : s.branch with
    | none =>
      have : (if s.branch.isSome && matchh then s.push h else s).branch = none := by
        simp [branchSome]
      rw [this] at pushed
      cases pushed
    | some br =>
      -- the doubled subtree's hash joins the branch only while the leaf lies under it
      have grown : (if s.branch.isSome && matchh then s.push h else s).branch =
          some (if matchh then br ++ [h] else br) := by
        cases matchh <;> simp [branchSome, State.push]
      rw [grown] at pushed
      cases pushed
      obtain ⟨before, under, past⟩ := inv.branch br branchSome
      dsimp only at before under past
      refine ⟨fun early => ?_, fun low high inside => ?_, fun late => ?_⟩
      next =>
        obtain ⟨unmatched, kept⟩ := before early
        subst unmatched
        exact ⟨rfl, kept⟩
      next =>
        -- the leaf lies under the incomplete subtree, now the left child
        obtain ⟨matched, rfl⟩ := under low (by omega) inside
        subst matched
        refine ⟨rfl, ?_⟩
        rw [if_pos rfl, rest, branch_of_le hash short, carried]
      next =>
        obtain ⟨unmatched, unset, rfl⟩ := past (.inr (by rw [Nat.pow_succ] at late; omega))
        subst unmatched
        exact ⟨rfl, unset, rfl⟩

theorem carried_sweep (bounded : leaves.length ≤ 2 ^ 31) :
    ∀ (rounds : Nat) (count : UInt32) (level d : Nat) (state : α × Bool × State α),
      Carried zero hash leaves p wanted d level state → count.toNat = d + 2 ^ level →
      d % 2 ^ (level + 1) = 0 → leaves.length ≤ d + 2 ^ level → 32 ≤ level + rounds →
      ∃ top result, sweep zero hash count level state rounds = .ok result ∧
        Carried zero hash leaves p wanted 0 top result ∧ leaves.length ≤ 2 ^ top := by
  intro rounds
  induction rounds with
  | zero =>
    intro count level d state _ counted _ _ enough
    have := UInt32.toNat_lt count
    have := Nat.pow_le_pow_right (by norm_num : 0 < 2) (show 32 ≤ level by omega)
    omega
  | succ rounds ih =>
    intro count level d state inv counted aligned last enough
    have below : level < 32 := by
      have := UInt32.toNat_lt count
      exact (Nat.pow_lt_pow_iff_right (by norm_num : 1 < 2)).1 (by omega)
    by_cases done : d = 0
    · subst done
      exact ⟨level, state, sweep_done zero hash below (by omega) state rounds, inv,
        by omega⟩
    · obtain ⟨h, matchh, s⟩ := state
      have twice : 2 ^ (level + 1) ≤ d := Bits.two_pow_le_of_aligned aligned done
      have within : level + 1 ≤ 31 := by
        have : 2 ^ (level + 1) < 2 ^ 31 := by have := inv.nonempty; omega
        exact ((Nat.pow_lt_pow_iff_right (by norm_num : 1 < 2)).1 this).le
      have fits := Bits.add_two_pow_le aligned (by have := inv.nonempty; omega : d < 2 ^ 31) within
      have sum : (count + bit level).toNat = d + 2 ^ (level + 1) := by
        rw [bit, Bits.toNat_add_one_shiftLeft below, counted, Nat.mod_eq_of_lt (by rw [Nat.pow_succ] at fits ⊢; omega),
          Nat.pow_succ]
        omega
      have nonzero : count + bit level ≠ 0 := by
        intro zero
        rw [zero] at sum
        simp at sum
        omega
      obtain ⟨next, carried, above, -, -, run⟩ :=
        whileBitClear_stops nonzero (combine zero hash false) (31 - level) (level + 1)
          (hash h h, matchh, if s.branch.isSome && matchh then s.push h else s) (by omega)
          (by rw [sum, Nat.add_mod, aligned, Nat.mod_self, Nat.add_zero, Nat.zero_mod])
      -- the subtree in hand ends at the rounded count, past the last leaf
      let Sweeping : Nat → α × Bool × State α → Prop := fun level' state' =>
        ∃ e, e + 2 ^ level' = d + 2 ^ (level + 1) ∧
          Carried zero hash leaves p wanted e level' state' ∧ leaves.length < e + 2 ^ level'
      have climbs : ∀ level' state', (count + bit level).toNat.testBit level' = false →
          Sweeping level' state' → Sweeping (level' + 1) (combine zero hash false level' state') := by
        rintro level' state' clear ⟨e, sumE, carriedInv, short⟩
        rw [sum, ← sumE, Bits.testBit_add_two_pow_self, Bool.not_eq_false'] at clear
        obtain ⟨f, rfl, alignedF⟩ := Bits.exists_add_two_pow carriedInv.aligned clear
        refine ⟨f, by rw [Nat.pow_succ]; omega, ?_, by rw [Nat.pow_succ]; omega⟩
        exact carried_combine zero hash leaves _ _ alignedF carriedInv.nonempty
          (iff_of_false (by simp) (Nat.ne_of_lt (length_block_lt (by omega)))) carriedInv
      obtain ⟨⟨e, sumE, carriedInv, short⟩, set⟩ :=
        whileBitClear_induction Sweeping climbs (31 - level) (level + 1) _ (by omega) run
          ⟨d, rfl, carried_double zero hash leaves p wanted aligned last done inv,
            by rw [Nat.pow_succ]; omega⟩
      rw [sum, ← sumE, Bits.testBit_add_two_pow_self, Bool.not_eq_true'] at set
      rw [sweep_continue zero hash below (by omega) h matchh s rounds, run]
      exact ih (count + bit level) next e carried carriedInv (by rw [sum, sumE])
        (Bits.mod_two_pow_succ_eq_zero carriedInv.aligned set) short.le (by omega)

end Sweep

end Invariants

section Results

variable {α : Type} [DecidableEq α] (zero : α) (hash : α → α → α)

theorem merkleComputation_spec [Inhabited α] {leaves : List α} (nonempty : leaves ≠ [])
    (bounded : leaves.length ≤ 2 ^ 31) (branchpos : UInt32) (wantBranch : Bool) :
    ∃ br, merkleComputation zero hash leaves branchpos wantBranch =
        .ok (root hash (Nat.clog 2 leaves.length) leaves, twins hash (Nat.clog 2 leaves.length) leaves, br) ∧
      (wantBranch = true → branchpos.toNat < leaves.length →
        br = some (branch hash (Nat.clog 2 leaves.length) leaves branchpos.toNat)) := by
  have positive := List.length_pos_of_ne_nil nonempty
  obtain ⟨s, run, inv⟩ := kept_processLeaves zero hash leaves wantBranch branchpos (by omega) leaves 0 _
    (kept_initial zero hash leaves _ wantBranch) List.drop_zero
  have nonzero : s.count ≠ 0 := by
    intro none
    have counted := inv.counted
    rw [none] at counted
    simp at counted
    omega
  obtain ⟨level, ⟨⟩, -, set, alignedLow, skip⟩ :=
    whileBitClear_stops nonzero (fun _ state => state) 32 0 () rfl (Nat.mod_one _)
  rw [inv.counted] at set alignedLow
  obtain ⟨d, all, aligned⟩ := Bits.exists_add_two_pow alignedLow set
  obtain ⟨top, ⟨h, matchh, final⟩, swept, finalInv, last⟩ :=
    carried_sweep zero hash leaves _ wantBranch bounded 32 s.count level d _
      (carried_lowest zero hash leaves _ wantBranch aligned (all ▸ inv) all.symm)
      (by rw [inv.counted, all]) aligned (by omega) (by omega)
  -- the sweep ends at the height of the tree, over every leaf
  have height : Nat.clog 2 leaves.length = top := clog_eq_of_bounds last finalInv.height
  have whole : block leaves 0 top = leaves := by rw [block_of_le (by omega), List.drop_zero]
  have rooted : h = root hash top leaves := by rw [← whole]; exact finalInv.carried
  have flagged : final.mutated = twins hash top leaves := by
    have mutated := finalInv.mutated
    simp only [ForestTwins, Nat.zero_testBit, Bool.false_eq_true, false_and, exists_false,
      false_or, whole] at mutated
    exact Bool.eq_iff_iff.2 mutated
  refine ⟨final.branch, ?_, fun asked inside => ?_⟩
  · obtain ⟨leaf, rest, rfl⟩ := List.exists_cons_of_ne_nil nonempty
    simp only [merkleComputation, run, skip, swept, Checked.ok_bind, height, rooted, flagged]
    rfl
  · have some : final.branch.isSome = true := finalInv.asked.trans asked
    obtain ⟨br, found⟩ := Option.isSome_iff_exists.1 some
    obtain ⟨-, under, -⟩ := finalInv.branch br found
    rw [found, (under (Nat.zero_le _) (by omega) inside).2, whole, height, Nat.sub_zero]

theorem computeMerkleRoot_spec [Inhabited α] {leaves : List α} (nonempty : leaves ≠ [])
    (bounded : leaves.length ≤ 2 ^ 31) :
    computeMerkleRoot zero hash leaves =
      .ok (root hash (Nat.clog 2 leaves.length) leaves, twins hash (Nat.clog 2 leaves.length) leaves) := by
  obtain ⟨br, run, -⟩ :=
    merkleComputation_spec zero hash nonempty bounded (UInt32.ofNat (2 ^ 32 - 1)) false
  rw [computeMerkleRoot, run]
  rfl

theorem computeMerkleBranch_spec [Inhabited α] {leaves : List α} (nonempty : leaves ≠ [])
    (bounded : leaves.length ≤ 2 ^ 31) {position : UInt32} (inside : position.toNat < leaves.length) :
    computeMerkleBranch zero hash leaves position =
      .ok (branch hash (Nat.clog 2 leaves.length) leaves position.toNat) := by
  obtain ⟨br, run, found⟩ := merkleComputation_spec zero hash nonempty bounded position true
  rw [computeMerkleBranch, run, found rfl inside]
  rfl

omit [DecidableEq α] in
theorem computeMerkleRootFromBranch_eq_climb : ∀ (leaf : α) (vMerkleBranch : List α) (nIndex : UInt32),
    computeMerkleRootFromBranch hash leaf vMerkleBranch nIndex =
      climb hash leaf vMerkleBranch nIndex.toNat
  | _, [], _ => rfl
  | leaf, it :: rest, nIndex => by
    -- one step of the fold over `uint32_t` indices is one step over their values
    have low : (nIndex &&& 1 != 0) = decide (nIndex.toNat % 2 = 1) := by
      rw [Bool.eq_iff_iff, bne_iff_ne, ne_eq, ← UInt32.toNat_inj, UInt32.toNat_and,
        UInt32.toNat_one, Nat.and_one_is_mod, decide_eq_true_iff]
      simp only [UInt32.toNat_zero]
      omega
    have half : (nIndex >>> 1).toNat = nIndex.toNat / 2 := by
      rw [UInt32.toNat_shiftRight, Nat.shiftRight_eq_div_pow]
      rfl
    have step : computeMerkleRootFromBranch hash leaf (it :: rest) nIndex =
        computeMerkleRootFromBranch hash (if nIndex &&& 1 != 0 then hash it leaf else hash leaf it) rest
          (nIndex >>> 1) := rfl
    have climbed : climb hash leaf (it :: rest) nIndex.toNat =
        climb hash (if nIndex.toNat % 2 = 1 then hash it leaf else hash leaf it) rest (nIndex.toNat / 2) :=
      rfl
    rw [step, climbed, computeMerkleRootFromBranch_eq_climb _ rest, half, low]
    simp only [decide_eq_true_eq]

theorem mutated_of_same_root (injective : PairInjective hash) {leaves leaves' : List α}
    (notHash : ∀ a b, hash a b ∉ leaves) (notHash' : ∀ a b, hash a b ∉ leaves')
    (nonempty : leaves ≠ []) (nonempty' : leaves' ≠ []) (bounded : leaves.length ≤ 2 ^ 31)
    (bounded' : leaves'.length ≤ 2 ^ 31) (distinct : leaves ≠ leaves') {merkleRoot : α}
    {mutated mutated' : Bool} (run : computeMerkleRoot zero hash leaves = .ok (merkleRoot, mutated))
    (run' : computeMerkleRoot zero hash leaves' = .ok (merkleRoot, mutated')) :
    mutated = true ∨ mutated' = true := by
  let _ : Inhabited α := ⟨zero⟩
  rw [computeMerkleRoot_spec zero hash nonempty bounded] at run
  rw [computeMerkleRoot_spec zero hash nonempty' bounded'] at run'
  -- both runs return the root of their tree at its height, and its twins
  obtain ⟨rfl, rfl⟩ := Prod.mk.inj (Except.ok.inj run)
  obtain ⟨same, rfl⟩ := Prod.mk.inj (Except.ok.inj run')
  rcases Nat.lt_trichotomy (Nat.clog 2 leaves.length) (Nat.clog 2 leaves'.length) with
    taller | equal | shorter
  next =>
    obtain ⟨k, grown⟩ := Nat.exists_eq_add_of_lt taller
    rw [grown] at same
    exact absurd same.symm (root_ne_of_height_lt injective _ k leaves leaves' notHash nonempty)
  next =>
    rw [← equal] at same ⊢
    have fits := Nat.le_pow_clog (by norm_num : 1 < 2) leaves.length
    have fits' := Nat.le_pow_clog (by norm_num : 1 < 2) leaves'.length
    rw [← equal] at fits'
    exact twins_of_root_eq injective _ leaves leaves' nonempty nonempty' fits fits' distinct same.symm
  next =>
    obtain ⟨k, grown⟩ := Nat.exists_eq_add_of_lt shorter
    rw [grown] at same
    exact absurd same (root_ne_of_height_lt injective _ k leaves' leaves notHash' nonempty')

end Results

def natNode (a b : Nat) : Nat := Nat.pair a b + 3

theorem pairInjective_natNode : PairInjective natNode :=
  fun _ _ _ _ same => Nat.pair_eq_pair.1 (Nat.add_right_cancel same)

theorem natNode_not_mem {leaves : List Nat} (small : ∀ leaf ∈ leaves, leaf < 3) (a b : Nat) :
    natNode a b ∉ leaves := fun mem => by
  have := small _ mem
  rw [natNode] at this
  omega

theorem mutated_of_same_root_duplicate_last :
    computeMerkleRoot 0 natNode [0, 1, 2] = .ok (128, false) ∧
      computeMerkleRoot 0 natNode [0, 1, 2, 2] = .ok (128, true) ∧ (false = true ∨ true = true) := by
  have run : computeMerkleRoot 0 natNode [0, 1, 2] = .ok (128, false) := rfl
  have run' : computeMerkleRoot 0 natNode [0, 1, 2, 2] = .ok (128, true) := rfl
  exact ⟨run, run', mutated_of_same_root 0 natNode pairInjective_natNode
    (natNode_not_mem (by decide)) (natNode_not_mem (by decide)) (by simp) (by simp) (by simp) (by simp)
    (by decide) run run'⟩

end Merkle

end Gaiacoin
