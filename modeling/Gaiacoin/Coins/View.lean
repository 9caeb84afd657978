import Gaiacoin.Coins.CCoins

set_option autoImplicit false

/-!
# Coins views

What a `CCoinsView` answers: for each txid, its `CCoins` or nothing. An edit goes
through a `CCoinsModifier`, which starts from the view's entry (the cleared
coins where there is none) and runs `Cleanup` when it is destroyed. How the
cache layers store these answers is modelled in `Coins.Cache`; here a view is
what its answers are.
-/

namespace Gaiacoin

structure CoinsView where
  entries : Uint256 → Option CCoins

namespace CoinsView

/-- The base `CCoinsView`: `GetCoins` finds nothing. -/
def empty : CoinsView := ⟨fun _ => none⟩

/-- `AccessCoins`: the entry, or `NULL`. -/
def accessCoins (view : CoinsView) (txid : Uint256) : Option CCoins := view.entries txid

def get (view : CoinsView) (txid : Uint256) : CCoins := (view.entries txid).getD CCoins.empty

def set (view : CoinsView) (txid : Uint256) (coins : CCoins) : CoinsView :=
  ⟨Function.update view.entries txid (some coins)⟩

/-- `ModifyCoins(txid)`, an edit through the modifier, and its destructor. -/
def modifyCoins (view : CoinsView) (txid : Uint256) (edit : CCoins → CCoins) : CoinsView :=
  view.set txid (edit (view.get txid)).cleanup

/-- `ModifyNewCoins(txid, coinbase)`: the modifier starts from cleared coins. -/
def modifyNewCoins (view : CoinsView) (txid : Uint256) (edit : CCoins → CCoins) : CoinsView :=
  view.set txid (edit CCoins.empty).cleanup

/-- `operator==` at every txid: pruned and absent entries are identified. -/
def Same (v w : CoinsView) : Prop := ∀ txid, (v.get txid).equals (w.get txid) = true

structure Stored (view : CoinsView) : Prop where
  canonical : ∀ txid, (view.get txid).Canonical
  height : ∀ txid, (view.get txid).isPruned = false → 0 < (view.get txid).nHeight

theorem get_set (view : CoinsView) (txid : Uint256) (coins : CCoins) (other : Uint256) :
    (view.set txid coins).get other = if other = txid then coins else view.get other := by
  by_cases same : other = txid
  · subst same
    simp [get, set]
  · simp [get, set, same]

@[simp] theorem get_set_self (view : CoinsView) (txid : Uint256) (coins : CCoins) :
    (view.set txid coins).get txid = coins := by
  simp [get_set]

theorem Same.refl (v : CoinsView) : v.Same v := fun _ => CCoins.equals_refl _

theorem Same.symm {v w : CoinsView} (same : v.Same w) : w.Same v :=
  fun txid => CCoins.equals_symm (same txid)

theorem Same.trans {u v w : CoinsView} (uv : u.Same v) (vw : v.Same w) : u.Same w :=
  fun txid => CCoins.equals_trans (uv txid) (vw txid)

theorem Same.set {v w : CoinsView} (same : v.Same w) (txid : Uint256) {x y : CCoins}
    (xy : x.equals y = true) :
    (v.set txid x).Same (w.set txid y) := by
  intro other
  rw [get_set, get_set]
  split
  · exact xy
  · exact same other

theorem Same.set_of_same_set {v w : CoinsView} {txid : Uint256} {x y : CCoins}
    (same : v.Same (w.set txid x)) (back : y.equals (w.get txid) = true) :
    (v.set txid y).Same w := by
  intro other
  have agree := same other
  rw [get_set] at agree ⊢
  split
  next here =>
    subst here
    exact back
  next elsewhere => simpa [elsewhere] using agree

theorem stored_empty : empty.Stored := by
  constructor
  · intro txid
    exact CCoins.empty_canonical
  · intro txid pruned
    cases pruned

theorem Stored.set {view : CoinsView} (stored : view.Stored) (txid : Uint256) {coins : CCoins}
    (canonical : coins.Canonical) (height : coins.isPruned = false → 0 < coins.nHeight) :
    (view.set txid coins).Stored := by
  constructor
  · intro other
    rw [get_set]
    split
    · exact canonical
    · exact stored.canonical other
  · intro other
    rw [get_set]
    split
    · exact height
    · exact stored.height other

end CoinsView

end Gaiacoin
