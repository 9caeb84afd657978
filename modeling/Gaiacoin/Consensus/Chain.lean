import Gaiacoin.Consensus.Params
import Gaiacoin.Shared.Median

set_option autoImplicit false

/-!
# Block index chains (`chain.h`)

A non-null `const CBlockIndex*` is the block together with its whole `pprev`
chain down to the genesis block, newest first: `nHeight` is the number of
ancestors, and `GetAncestor(h)` is the block of height `h` on that chain. The
skip pointers `GetAncestor` follows are not modelled; it returns the block it is
meant to reach. Two pointers are identified when their chains are equal, which is
all that the functions below read.

`GetPastTimeLimit()` is the block time once protocol V2 is on and the median of
the last eleven block times before. `ContextualCheckBlockHeader` requires every
block's time to be past its parent's limit; along a chain that keeps this rule
the limit never decreases.
-/

namespace Gaiacoin

/-- The fields of `CBlockIndex` that versionbits, transaction finality and
sequence locks read. -/
structure BlockEntry where
  nVersion : Int32
  nTime : UInt32
  deriving DecidableEq, Repr

/-- A non-null `const CBlockIndex*`: the block and its ancestors, parent first. -/
structure BlockRef where
  entry : BlockEntry
  ancestors : List BlockEntry
  deriving DecidableEq, Repr

namespace BlockRef

def chain (p : BlockRef) : List BlockEntry := p.entry :: p.ancestors

/-- The pointer to the first block of a chain, `NULL` for an empty one. -/
def ofChain : List BlockEntry → Option BlockRef
  | [] => none
  | entry :: ancestors => some ⟨entry, ancestors⟩

def nHeight (p : BlockRef) : Nat := p.ancestors.length

def pprev (p : BlockRef) : Option BlockRef := ofChain p.ancestors

def getBlockTime (p : BlockRef) : Int := p.entry.nTime.toNat

/-- `CBlockIndex::GetAncestor(height)`: `NULL` outside `[0, nHeight]`. -/
def getAncestor (p : BlockRef) (height : Int) : Option BlockRef :=
  if height > p.nHeight ∨ height < 0 then none
  else ofChain (p.chain.drop (p.nHeight - height.toNat))

/-- `nMedianTimeSpan`. -/
def nMedianTimeSpan : Nat := 11

/-- `GetMedianTimePast()`: the middle of the sorted times of this block and up to
ten of its ancestors. -/
def getMedianTimePast (p : BlockRef) : Int :=
  (Median.middle ((p.chain.take nMedianTimeSpan).map fun entry => (entry.nTime.toNat : Int))).getD 0

/-- `GetPastTimeLimit()`; `Params()` is passed as `consensus`. -/
def getPastTimeLimit (consensus : Consensus.Params) (p : BlockRef) : Int :=
  if consensus.isProtocolV2 p.getBlockTime then p.getBlockTime else p.getMedianTimePast

@[simp] theorem chain_ne_nil (p : BlockRef) : p.chain ≠ [] := List.cons_ne_nil _ _

@[simp] theorem length_chain (p : BlockRef) : p.chain.length = p.nHeight + 1 := rfl

theorem chain_of_ofChain {l : List BlockEntry} {q : BlockRef} (found : ofChain l = some q) :
    q.chain = l := by
  cases l with
  | nil => cases found
  | cons entry ancestors =>
    cases found
    rfl

theorem getAncestor_spec {p q : BlockRef} {height : Int} (found : p.getAncestor height = some q) :
    q.chain = p.chain.drop (p.nHeight - height.toNat) ∧ (q.nHeight : Int) = height ∧ 0 ≤ height := by
  unfold getAncestor at found
  split at found
  · cases found
  · next within =>
    have chain := chain_of_ofChain found
    refine ⟨chain, ?_, by omega⟩
    have length := congrArg List.length chain
    simp only [length_chain, List.length_drop] at length
    omega

theorem nHeight_le_of_getAncestor {p q : BlockRef} {height : Int} (found : p.getAncestor height = some q) :
    q.nHeight ≤ p.nHeight := by
  have length := congrArg List.length (getAncestor_spec found).1
  simp only [length_chain, List.length_drop] at length
  omega

theorem eq_of_chain_eq {p q : BlockRef} (same : q.chain = p.chain) : q = p := by
  cases p; cases q
  simp only [chain, List.cons.injEq] at same
  rw [same.1, same.2]

theorem getAncestor_of_le {p : BlockRef} {height : Nat} (below : height ≤ p.nHeight) :
    ∃ q, p.getAncestor height = some q ∧ q.chain = p.chain.drop (p.nHeight - height) := by
  have length : (p.chain.drop (p.nHeight - height)).length = height + 1 := by
    rw [List.length_drop, length_chain]
    omega
  cases suffix : p.chain.drop (p.nHeight - height) with
  | nil => rw [suffix] at length; cases length
  | cons entry ancestors =>
    refine ⟨⟨entry, ancestors⟩, ?_, rfl⟩
    rw [getAncestor, if_neg (by omega), Int.toNat_natCast, suffix]
    rfl

theorem getAncestor_self (p : BlockRef) : p.getAncestor p.nHeight = some p := by
  obtain ⟨q, found, chain⟩ := getAncestor_of_le (Nat.le_refl p.nHeight)
  rw [Nat.sub_self, List.drop_zero] at chain
  rw [found, eq_of_chain_eq chain]

theorem getAncestor_getAncestor {p q : BlockRef} {height : Int} (found : p.getAncestor height = some q)
    {lower : Int} (below : lower ≤ height) : q.getAncestor lower = p.getAncestor lower := by
  obtain ⟨chain, level, nonneg⟩ := getAncestor_spec found
  have above := nHeight_le_of_getAncestor found
  unfold getAncestor
  by_cases negative : lower < 0
  · rw [if_pos (Or.inr negative), if_pos (Or.inr negative)]
  · rw [if_neg (by omega), if_neg (by omega), chain, List.drop_drop]
    congr 2
    omega

/-- `ContextualCheckBlockHeader`'s `time-too-old` check: a block on `pindexPrev`
must be timed past the parent's `GetPastTimeLimit()`. -/
def checkBlockTime (consensus : Consensus.Params) (pindexPrev : BlockRef) (nTime : UInt32) : Bool :=
  decide (pindexPrev.getPastTimeLimit consensus < (nTime.toNat : Int))

def TimeOrdered (consensus : Consensus.Params) : List BlockEntry → Prop
  | [] => True
  | [_] => True
  | entry :: parent :: rest =>
    checkBlockTime consensus ⟨parent, rest⟩ entry.nTime = true ∧ TimeOrdered consensus (parent :: rest)

instance decideTimeOrdered (consensus : Consensus.Params) :
    (l : List BlockEntry) → Decidable (TimeOrdered consensus l)
  | [] => isTrue trivial
  | [_] => isTrue trivial
  | entry :: parent :: rest =>
    match decideTimeOrdered consensus (parent :: rest) with
    | isTrue ordered =>
      if timed : checkBlockTime consensus ⟨parent, rest⟩ entry.nTime = true then isTrue ⟨timed, ordered⟩
      else isFalse fun holds => timed holds.1
    | isFalse unordered => isFalse fun holds => unordered holds.2

theorem TimeOrdered.drop {consensus : Consensus.Params} :
    ∀ {l : List BlockEntry}, TimeOrdered consensus l → ∀ k, TimeOrdered consensus (l.drop k)
  | [], _, k => by simp [TimeOrdered]
  | [_], _, k => by cases k <;> simp [TimeOrdered]
  | _ :: parent :: rest, ordered, k => by
    cases k with
    | zero => exact ordered
    | succ k => exact TimeOrdered.drop ordered.2 k

theorem TimeOrdered.getAncestor {consensus : Consensus.Params} {p q : BlockRef}
    (ordered : TimeOrdered consensus p.chain) {height : Int} (found : p.getAncestor height = some q) :
    TimeOrdered consensus q.chain := by
  rw [(getAncestor_spec found).1]
  exact ordered.drop _

def SwitchAfterSkip (consensus : Consensus.Params) : Prop := 1407053678 ≤ consensus.nProtocolV2Time

theorem isProtocolV2_mono {consensus : Consensus.Params} (after : SwitchAfterSkip consensus)
    {t t' : Int} (on : consensus.isProtocolV2 t = true) (later : t ≤ t') :
    consensus.isProtocolV2 t' = true := by
  simp only [Consensus.Params.isProtocolV2, Consensus.isProtocolAfter, Bool.and_eq_true,
    decide_eq_true_eq, bne_iff_ne, ne_eq] at on ⊢
  unfold SwitchAfterSkip at after
  omega

theorem middle_window (p : BlockRef) :
    Median.middle ((p.chain.take nMedianTimeSpan).map fun entry => (entry.nTime.toNat : Int)) =
      some p.getMedianTimePast := by
  have nonempty : (p.chain.take nMedianTimeSpan).map (fun entry => (entry.nTime.toNat : Int)) ≠ [] := by
    simp [nMedianTimeSpan, chain]
  obtain ⟨m, found⟩ := Option.isSome_iff_exists.mp (Median.middle_isSome nonempty)
  rw [getMedianTimePast, found, Option.getD_some]

theorem getMedianTimePast_le_child (entry parent : BlockEntry) (rest : List BlockEntry)
    (after : (⟨parent, rest⟩ : BlockRef).getMedianTimePast < entry.nTime.toNat) :
    (⟨parent, rest⟩ : BlockRef).getMedianTimePast ≤ (⟨entry, parent :: rest⟩ : BlockRef).getMedianTimePast := by
  have window : ((⟨entry, parent :: rest⟩ : BlockRef).chain.take nMedianTimeSpan).map
      (fun entry => (entry.nTime.toNat : Int)) =
      (entry.nTime.toNat : Int) :: (((⟨parent, rest⟩ : BlockRef).chain.take nMedianTimeSpan).map
        (fun entry => (entry.nTime.toNat : Int))).take 10 := by
    simp [chain, nMedianTimeSpan, List.take_take, List.map_take]
  have found' := middle_window ⟨entry, parent :: rest⟩
  rw [window] at found'
  exact Median.middle_le_middle_cons_take (by simp [nMedianTimeSpan]) (middle_window ⟨parent, rest⟩)
    after.le found'

theorem getPastTimeLimit_of_on {consensus : Consensus.Params} {p : BlockRef}
    (on : consensus.isProtocolV2 p.getBlockTime = true) : p.getPastTimeLimit consensus = p.getBlockTime :=
  if_pos on

theorem getPastTimeLimit_of_off {consensus : Consensus.Params} {p : BlockRef}
    (off : consensus.isProtocolV2 p.getBlockTime = false) :
    p.getPastTimeLimit consensus = p.getMedianTimePast :=
  if_neg (by simp [off])

theorem getPastTimeLimit_nonneg (consensus : Consensus.Params) (p : BlockRef) :
    0 ≤ p.getPastTimeLimit consensus := by
  cases on : consensus.isProtocolV2 p.getBlockTime
  · rw [getPastTimeLimit_of_off on, getMedianTimePast]
    cases found : Median.middle ((p.chain.take nMedianTimeSpan).map fun entry => (entry.nTime.toNat : Int)) with
    | none => rfl
    | some m =>
      -- the middle is one of the window's times
      obtain ⟨entry, -, rfl⟩ := List.mem_map.mp (Median.mem_of_middle found)
      exact Int.natCast_nonneg _
  · rw [getPastTimeLimit_of_on on, getBlockTime]
    exact Int.natCast_nonneg _

theorem getPastTimeLimit_le_child {consensus : Consensus.Params} (after : SwitchAfterSkip consensus)
    (entry parent : BlockEntry) (rest : List BlockEntry)
    (timed : checkBlockTime consensus ⟨parent, rest⟩ entry.nTime = true) :
    (⟨parent, rest⟩ : BlockRef).getPastTimeLimit consensus ≤
      (⟨entry, parent :: rest⟩ : BlockRef).getPastTimeLimit consensus := by
  have childTime : (⟨entry, parent :: rest⟩ : BlockRef).getBlockTime = entry.nTime.toNat := rfl
  simp only [checkBlockTime, decide_eq_true_eq, ← childTime] at timed
  cases childOn : consensus.isProtocolV2 (⟨entry, parent :: rest⟩ : BlockRef).getBlockTime
  · -- a parent past the switch would put the child past it too
    have parentOff : consensus.isProtocolV2 (⟨parent, rest⟩ : BlockRef).getBlockTime = false := by
      by_contra parentOn
      rw [Bool.not_eq_false] at parentOn
      rw [getPastTimeLimit_of_on parentOn] at timed
      have childOn' := isProtocolV2_mono after parentOn timed.le
      rw [childOn] at childOn'
      cases childOn'
    rw [getPastTimeLimit_of_off parentOff] at timed ⊢
    rw [getPastTimeLimit_of_off childOn]
    exact getMedianTimePast_le_child entry parent rest (by rwa [childTime] at timed)
  · rw [getPastTimeLimit_of_on childOn]
    exact timed.le

theorem getPastTimeLimit_mono {consensus : Consensus.Params} (after : SwitchAfterSkip consensus)
    {p q : BlockRef} (ordered : TimeOrdered consensus p.chain) {height : Int}
    (found : p.getAncestor height = some q) :
    q.getPastTimeLimit consensus ≤ p.getPastTimeLimit consensus := by
  obtain ⟨chain, -, -⟩ := getAncestor_spec found
  clear found
  generalize p.nHeight - height.toNat = k at chain
  -- induction on the chain: the ancestor `k` below is the parent's ancestor `k - 1` below
  rcases p with ⟨entry, ancestors⟩
  induction ancestors generalizing entry k with
  | nil =>
    rcases k with _ | k
    · rw [eq_of_chain_eq chain]
    · simp [BlockRef.chain] at chain
  | cons parent rest ih =>
    rcases k with _ | k
    · rw [eq_of_chain_eq chain]
    · obtain ⟨timed, ordered'⟩ := ordered
      have step := getPastTimeLimit_le_child after entry parent rest timed
      have lower := ih k parent ordered' (by simpa [BlockRef.chain] using chain)
      exact le_trans lower step

end BlockRef

end Gaiacoin
