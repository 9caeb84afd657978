import Gaiacoin.Primitives.Transaction
import Gaiacoin.Shared.Trim

set_option autoImplicit false

/-!
# `CCoins`

The pruned transaction of `coins.h`: the outputs of one transaction that are not
spent yet, with its metadata. A spent output is null (`nValue == -1`) and
`Cleanup` drops the null outputs at the end, so an entry with every output spent
has an empty `vout`; `operator==` takes all such entries as equal, whatever
their metadata.
-/

namespace Gaiacoin

structure CCoins where
  fCoinBase : Bool
  fCoinStake : Bool
  vout : List CTxOut
  nHeight : Int32
  nVersion : Int32
  nTime : UInt32
  deriving DecidableEq

namespace CCoins

/-- The empty constructor, and what `Clear` leaves. -/
def empty : CCoins := ⟨false, false, [], 0, 0, 0⟩

def cleanup (coins : CCoins) : CCoins := { coins with vout := coins.vout.rdropWhile CTxOut.isNull }

def clearUnspendable (coins : CCoins) : CCoins :=
  cleanup { coins with
    vout := coins.vout.map fun txout => if txout.isUnspendable then CTxOut.setNull else txout }

def fromTx (tx : CTransaction) (nHeightIn : Int32) : CCoins :=
  clearUnspendable ⟨tx.isCoinBase, tx.isCoinStake, tx.vout, nHeightIn, tx.nVersion, tx.nTime⟩

def isAvailable (coins : CCoins) (nPos : Nat) : Bool :=
  match coins.vout[nPos]? with
  | some txout => !txout.isNull
  | none => false

def isPruned (coins : CCoins) : Bool := coins.vout.all fun out => out.isNull

/-- `Spend`: `false`, and nothing changed, unless the output is available. -/
def spend (coins : CCoins) (nPos : Nat) : Bool × CCoins :=
  if coins.isAvailable nPos then
    (true, cleanup { coins with vout := coins.vout.set nPos CTxOut.setNull })
  else (false, coins)

/-- `operator==`: empty coins are always equal. -/
def equals (a b : CCoins) : Bool := (a.isPruned && b.isPruned) || decide (a = b)

/-- The shape of every entry the code stores: `Cleanup` has run, every spent
output is the null `CTxOut` that `SetNull` and the default constructor make, and
every output has a `uint32_t` index. -/
structure Canonical (coins : CCoins) : Prop where
  trimmed : Trim.Canonical CTxOut.isNull CTxOut.setNull coins.vout
  indexed : coins.vout.length < 2 ^ 32

@[simp] theorem empty_vout : empty.vout = [] := rfl

@[simp] theorem empty_isPruned : empty.isPruned = true := rfl

theorem empty_canonical : empty.Canonical := ⟨Trim.canonical_nil, by simp⟩

@[simp] theorem cleanup_vout (coins : CCoins) :
    coins.cleanup.vout = coins.vout.rdropWhile CTxOut.isNull := rfl

theorem isPruned_iff (coins : CCoins) :
    coins.isPruned = true ↔ ∀ out ∈ coins.vout, out.isNull = true := by
  simp [isPruned]

theorem Canonical.isPruned_iff {coins : CCoins} (canonical : coins.Canonical) :
    coins.isPruned = true ↔ coins.vout = [] := by
  constructor
  · intro pruned
    exact canonical.trimmed.eq_nil ((CCoins.isPruned_iff coins).1 pruned)
  · intro empty
    simp [isPruned, empty]

theorem isAvailable_iff (coins : CCoins) (nPos : Nat) :
    coins.isAvailable nPos = true ↔
      ∃ inside : nPos < coins.vout.length, coins.vout[nPos].isNull = false := by
  unfold isAvailable
  split
  next txout found =>
    rw [List.getElem?_eq_some_iff] at found
    obtain ⟨inside, rfl⟩ := found
    simp [inside]
  next missing =>
    rw [List.getElem?_eq_none_iff] at missing
    simp only [Bool.false_eq_true, false_iff, not_exists]
    intro inside
    omega

theorem not_isAvailable_of_isPruned {coins : CCoins} (pruned : coins.isPruned = true)
    (nPos : Nat) : coins.isAvailable nPos = false := by
  rw [← Bool.not_eq_true, isAvailable_iff]
  rintro ⟨inside, available⟩
  rw [(CCoins.isPruned_iff coins).1 pruned _ (List.getElem_mem inside)] at available
  cases available

theorem isPruned_eq_false_of_isAvailable {coins : CCoins} {nPos : Nat}
    (available : coins.isAvailable nPos = true) : coins.isPruned = false := by
  rw [← Bool.not_eq_true]
  intro pruned
  rw [not_isAvailable_of_isPruned pruned] at available
  cases available

theorem equals_iff (a b : CCoins) :
    a.equals b = true ↔ (a.isPruned = true ∧ b.isPruned = true) ∨ a = b := by
  simp [equals]

theorem equals_refl (a : CCoins) : a.equals a = true := by
  simp [equals_iff]

theorem equals_symm {a b : CCoins} (h : a.equals b = true) : b.equals a = true := by
  rw [equals_iff] at h ⊢
  rcases h with ⟨pa, pb⟩ | rfl
  · exact .inl ⟨pb, pa⟩
  · exact .inr rfl

theorem equals_trans {a b c : CCoins} (ab : a.equals b = true) (bc : b.equals c = true) :
    a.equals c = true := by
  rw [equals_iff] at ab bc ⊢
  rcases ab with ⟨pa, pb⟩ | rfl
  · rcases bc with ⟨-, pc⟩ | rfl
    · exact .inl ⟨pa, pc⟩
    · exact .inl ⟨pa, pb⟩
  · exact bc

theorem equals_of_isPruned {a b : CCoins} (pa : a.isPruned = true) (pb : b.isPruned = true) :
    a.equals b = true := by
  simp [equals_iff, pa, pb]

theorem isPruned_of_equals {a b : CCoins} (ab : a.equals b = true) (pb : b.isPruned = true) :
    a.isPruned = true := by
  rw [equals_iff] at ab
  rcases ab with ⟨pa, -⟩ | rfl
  · exact pa
  · exact pb

theorem eq_of_equals {a b : CCoins} (ab : a.equals b = true) (pb : b.isPruned = false) :
    a = b := by
  rw [equals_iff] at ab
  rcases ab with ⟨-, pb'⟩ | same
  · rw [pb] at pb'
    cases pb'
  · exact same

theorem setNull_not_isUnspendable : CTxOut.setNull.isUnspendable = false := rfl

theorem canonical_cleanup {coins : CCoins} (indexed : coins.vout.length < 2 ^ 32)
    (defaults : ∀ out ∈ coins.vout, out.isNull = true → out = CTxOut.setNull) :
    coins.cleanup.Canonical := by
  refine ⟨Trim.canonical_rdropWhile defaults, ?_⟩
  have shorter := (List.rdropWhile_prefix CTxOut.isNull coins.vout).length_le
  simp only [cleanup_vout]
  omega

theorem fromTx_canonical (tx : CTransaction) (nHeightIn : Int32)
    (values : ∀ out ∈ tx.vout, 0 ≤ out.nValue) (count : tx.vout.length < 2 ^ 32) :
    (fromTx tx nHeightIn).Canonical := by
  apply canonical_cleanup
  · simpa using count
  · simp only [List.mem_map]
    rintro out ⟨original, member, rfl⟩ null
    split
    · rfl
    · next =>
      -- a null output has value `-1`, which `CheckTransaction`'s sign check excludes
      have negative : original.nValue = -1 := by
        simp_all [CTxOut.isNull]
      have := values original member
      rw [negative] at this
      cases this

theorem clearUnspendable_of_canonical {coins : CCoins}
    (canonical : coins.Canonical)
    (spendable : ∀ out ∈ coins.vout, out.isUnspendable = false) :
    coins.clearUnspendable = coins := by
  have kept : (coins.vout.map fun txout =>
      if txout.isUnspendable then CTxOut.setNull else txout) = coins.vout := by
    conv_rhs => rw [← List.map_id coins.vout]
    apply List.map_congr_left
    intro out member
    simp [spendable out member]
  have trimmed : coins.vout.rdropWhile CTxOut.isNull = coins.vout := by
    apply List.rdropWhile_eq_self_iff.2
    intro nonempty
    simpa using canonical.trimmed.last nonempty
  simp [clearUnspendable, cleanup, kept, trimmed]

theorem clearUnspendable_vout_of_isPruned {coins : CCoins} (pruned : coins.isPruned = true) :
    coins.clearUnspendable.vout = [] := by
  simp only [clearUnspendable, cleanup_vout]
  apply List.rdropWhile_eq_nil_iff.2
  intro out member
  simp only [List.mem_map] at member
  obtain ⟨original, inside, rfl⟩ := member
  split
  · rfl
  · exact (isPruned_iff coins).1 pruned original inside

theorem fromTx_spendable (tx : CTransaction) (nHeightIn : Int32) :
    ∀ out ∈ (fromTx tx nHeightIn).vout, out.isUnspendable = false := by
  intro out member
  simp only [fromTx, clearUnspendable, cleanup_vout] at member
  have mapped := (List.rdropWhile_prefix _ _).subset member
  simp only [List.mem_map] at mapped
  obtain ⟨original, -, rfl⟩ := mapped
  split
  · exact setNull_not_isUnspendable
  · next spendable => simpa using spendable

theorem spend_of_isAvailable {coins : CCoins} {nPos : Nat} (available : coins.isAvailable nPos = true) :
    coins.spend nPos = (true, cleanup { coins with vout := coins.vout.set nPos CTxOut.setNull }) := by
  simp [spend, available]

theorem cleanup_of_canonical {coins : CCoins} (canonical : coins.Canonical) :
    coins.cleanup = coins := by
  have trimmed : coins.vout.rdropWhile CTxOut.isNull = coins.vout := by
    apply List.rdropWhile_eq_self_iff.2
    intro nonempty
    simpa using canonical.trimmed.last nonempty
  simp [cleanup, trimmed]

@[simp] theorem cleanup_cleanup (coins : CCoins) : coins.cleanup.cleanup = coins.cleanup := by
  simp [cleanup, List.rdropWhile_idempotent]

@[simp] theorem isPruned_cleanup (coins : CCoins) : coins.cleanup.isPruned = coins.isPruned := by
  have split := List.rdropWhile_append_rtakeWhile (p := CTxOut.isNull) (l := coins.vout)
  -- what `Cleanup` drops is spent
  have trailing : (coins.vout.rtakeWhile CTxOut.isNull).all (fun out => out.isNull) = true :=
    List.all_eq_true.2 fun _ member => List.mem_rtakeWhile_imp member
  calc coins.cleanup.isPruned
      = (coins.vout.rdropWhile CTxOut.isNull ++ coins.vout.rtakeWhile CTxOut.isNull).all
          (fun out => out.isNull) := by
        rw [List.all_append, trailing, Bool.and_true]
        rfl
    _ = coins.isPruned := by rw [split]; rfl

theorem equals_cleanup {a b : CCoins} (same : a.equals b = true) :
    a.cleanup.equals b.cleanup = true := by
  rw [equals_iff] at same ⊢
  rcases same with ⟨pa, pb⟩ | rfl
  · exact .inl ⟨by rwa [isPruned_cleanup], by rwa [isPruned_cleanup]⟩
  · exact .inr rfl

theorem isAvailable_spend (coins : CCoins) (nPos : Nat) :
    (coins.spend nPos).2.isAvailable nPos = false := by
  unfold CCoins.spend
  split
  next =>
    rw [← Bool.not_eq_true, isAvailable_iff]
    rintro ⟨inside, available⟩
    have kept := List.rdropWhile_prefix CTxOut.isNull (coins.vout.set nPos CTxOut.setNull)
    simp only [cleanup_vout] at inside available
    rw [kept.getElem inside] at available
    simp at available
  next unavailable => simpa using unavailable

theorem Canonical.spend {coins : CCoins} (canonical : coins.Canonical) (nPos : Nat) :
    (coins.spend nPos).2.Canonical := by
  unfold CCoins.spend
  split
  · apply canonical_cleanup
    · simpa using canonical.indexed
    · exact canonical.trimmed.set_default nPos
  · exact canonical

end CCoins

end Gaiacoin
