import Gaiacoin.Coins.Cache

set_option autoImplicit false

/-!
# The cache stack against one view per layer

The abstract model keeps one `CoinsView` for each cache of the stack and one for
the base view, top first. An edit changes the top view, a new cache starts as a
copy of the top view, and a flush makes the cache below a copy of it.

The flags are what makes the stack agree with these views: an entry that is not
`DIRTY` equals the answer of the view below it, and a `FRESH` one stands over a
view with nothing unspent for its txid (`Valid`). Every operation keeps this, and
with it every cache answers, up to `operator==`, what its abstract view says
(`run_simulates`). This holds for edits that cannot tell pruned entries apart,
and for `ModifyNewCoins` of a non-coinbase only where the view below the top cache
has nothing unspent for the txid, since it marks its entry `FRESH` without asking
that view.
-/

namespace Gaiacoin

open CCoinsCacheEntry

/-- An edit through a modifier that maps entries `operator==` takes as equal to
entries it takes as equal: it cannot read what a pruned entry still holds. -/
def Respects (edit : CCoins → CCoins) : Prop :=
  ∀ a b, a.equals b = true → (edit a).equals (edit b) = true

def abstractStep (views : List CoinsView) (op : CacheOp) : List CoinsView :=
  match op, views with
  | .modifyCoins txid edit, view :: views => view.modifyCoins txid edit :: views
  | .modifyNewCoins txid _ edit, view :: views => view.modifyNewCoins txid edit :: views
  | .push, view :: views => view :: view :: views
  | .flush, view :: _ :: views@(_ :: _) => view :: view :: views
  | _, views => views

def abstractRun (views : List CoinsView) (ops : List CacheOp) : List CoinsView :=
  ops.foldl abstractStep views

/-- The operations the refinement covers: edits go to a cache and cannot tell
pruned entries apart, `ModifyNewCoins` for a non-coinbase is issued only where the
view below the top cache has nothing unspent for the txid, and a flush has a cache
below it. -/
def Allowed (views : List CoinsView) (op : CacheOp) : Prop :=
  match op, views with
  | .modifyCoins _ edit, _ :: _ :: _ => Respects edit
  | .modifyNewCoins txid coinbase _, _ :: below :: _ =>
    coinbase = true ∨ (below.get txid).isPruned = true
  | .flush, _ :: _ :: _ :: _ => True
  | .modifyCoins .., _ | .modifyNewCoins .., _ | .flush, _ => False
  | _, _ => True

def AllowedRun : List CoinsView → List CacheOp → Prop
  | _, [] => True
  | views, op :: ops => Allowed views op ∧ AllowedRun (abstractStep views op) ops

namespace CacheStack

/-- An entry at `txid` means what its flags say about the view below: one that is
not `DIRTY` equals that view's, and a `FRESH` one stands over nothing unspent. -/
structure EntryValid (parent : CoinsView) (txid : Uint256) (entry : CCoinsCacheEntry) : Prop where
  clean : entry.isDirty = false → entry.coins.equals (parent.get txid) = true
  fresh : entry.isFresh = true → (parent.get txid).isPruned = true

def CacheValid (parent : CoinsView) (cache : CCoinsViewCache) : Prop :=
  ∀ txid entry, cache.cacheCoins.lookup txid = some entry → EntryValid parent txid entry

variable (base : CoinsView)

def toView (stack : CacheStack) : CoinsView := ⟨fun txid => peekCoins base txid stack⟩

def layerViews : CacheStack → List CoinsView
  | [] => [base]
  | cache :: below => toView base (cache :: below) :: layerViews below

def Valid : CacheStack → Prop
  | [] => True
  | cache :: below => CacheValid (toView base below) cache ∧ Valid below

/-- Every cache answers, up to `operator==`, what its abstract view says. -/
def Simulates (stack : CacheStack) (views : List CoinsView) : Prop :=
  List.Forall₂ CoinsView.Same (layerViews base stack) views

variable {base}

theorem toView_get_of_lookup_some {cache : CCoinsViewCache} {x : Uint256} {entry : CCoinsCacheEntry}
    (found : cache.cacheCoins.lookup x = some entry) (below : CacheStack) :
    (toView base (cache :: below)).get x = entry.coins := by
  simp [toView, CoinsView.get, peekCoins, found]

theorem toView_get_of_lookup_none {cache : CCoinsViewCache} {x : Uint256}
    (missing : cache.cacheCoins.lookup x = none) (below : CacheStack) :
    (toView base (cache :: below)).get x = (toView base below).get x := by
  simp [toView, CoinsView.get, peekCoins, missing]

theorem toView_get_cons_congr {cache cache' : CCoinsViewCache} {x : Uint256}
    (same : cache'.cacheCoins.lookup x = cache.cacheCoins.lookup x) (below : CacheStack) :
    (toView base (cache' :: below)).get x = (toView base (cache :: below)).get x := by
  simp [toView, CoinsView.get, peekCoins, same]

theorem toView_cons_congr (cache : CCoinsViewCache) {below below' : CacheStack}
    (same : toView base below' = toView base below) :
    toView base (cache :: below') = toView base (cache :: below) := by
  have peek : ∀ x, peekCoins base x below' = peekCoins base x below :=
    fun x => congrArg (fun view => view.entries x) same
  simp only [toView, peekCoins, peek]

@[simp] theorem toView_get_insertEntry (cache : CCoinsViewCache) (txid : Uint256)
    (entry : CCoinsCacheEntry) (below : CacheStack) :
    (toView base (cache.insertEntry txid entry :: below)).get txid = entry.coins :=
  toView_get_of_lookup_some (by simp) below

@[simp] theorem toView_get_eraseEntry (cache : CCoinsViewCache) (txid : Uint256)
    (below : CacheStack) :
    (toView base (cache.eraseEntry txid :: below)).get txid = (toView base below).get txid :=
  toView_get_of_lookup_none (by simp) below

theorem head_layerViews (stack : CacheStack) :
    ∃ rest, layerViews base stack = toView base stack :: rest := by
  cases stack with
  | nil => exact ⟨[], rfl⟩
  | cons cache below => exact ⟨layerViews base below, rfl⟩

theorem toView_push (stack : CacheStack) :
    toView base (CCoinsViewCache.empty :: stack) = toView base stack := rfl

theorem toView_getCoins (txid : Uint256) (stack : CacheStack) :
    toView base (getCoins base txid stack).2 = toView base stack := by
  simp only [toView, peekCoins_getCoins]

theorem layerViews_getCoins (txid : Uint256) (stack : CacheStack) :
    layerViews base (getCoins base txid stack).2 = layerViews base stack := by
  induction stack with
  | nil => rfl
  | cons cache below ih =>
    have top := @toView_getCoins base txid (cache :: below)
    cases found : cache.cacheCoins.lookup txid with
    | some entry => simp [getCoins, found]
    | none =>
      simp only [getCoins, found] at top ⊢
      simp only [layerViews, top, ih]

theorem entryValid_fetched {parent : CoinsView} {txid : Uint256} {coins : CCoins}
    (answer : parent.get txid = coins) :
    EntryValid parent txid ⟨coins, if coins.isPruned then fresh else 0⟩ := by
  subst answer
  constructor
  · intro _
    exact CCoins.equals_refl _
  · intro marked
    by_contra unspent
    simp only [Bool.not_eq_true] at unspent
    simp [isFresh, unspent] at marked

theorem CacheValid.insertEntry {parent : CoinsView} {cache : CCoinsViewCache}
    (valid : CacheValid parent cache) {txid : Uint256} {entry : CCoinsCacheEntry}
    (entryValid : EntryValid parent txid entry) : CacheValid parent (cache.insertEntry txid entry) := by
  intro x stored found
  rw [CCoinsViewCache.lookup_insertEntry] at found
  split at found
  next here =>
    cases found
    subst here
    exact entryValid
  next => exact valid x stored found

theorem CacheValid.eraseEntry {parent : CoinsView} {cache : CCoinsViewCache}
    (valid : CacheValid parent cache) (txid : Uint256) : CacheValid parent (cache.eraseEntry txid) := by
  intro x stored found
  rw [CCoinsViewCache.lookup_eraseEntry] at found
  split at found
  next => cases found
  next => exact valid x stored found

theorem valid_getCoins {stack : CacheStack} (valid : Valid base stack) (txid : Uint256) :
    Valid base (getCoins base txid stack).2 := by
  induction stack with
  | nil => trivial
  | cons cache below ih =>
    obtain ⟨top, rest⟩ := valid
    cases found : cache.cacheCoins.lookup txid with
    | some entry =>
      simp only [getCoins, found]
      exact ⟨top, rest⟩
    | none =>
      simp only [getCoins, found]
      refine ⟨?_, ih rest⟩
      rw [toView_getCoins]
      -- the kept entry is the answer of the view below
      cases fetched : (getCoins base txid below).1 with
      | none => exact top
      | some coins =>
        apply top.insertEntry
        apply entryValid_fetched
        rw [getCoins_fst] at fetched
        simp [toView, CoinsView.get, fetched]

theorem CacheValid.releaseModifier {parent : CoinsView} {cache : CCoinsViewCache}
    (valid : CacheValid parent cache) {txid : Uint256} {entry : CCoinsCacheEntry}
    (dirtied : entry.isDirty = true)
    (fresh : entry.isFresh = true → (parent.get txid).isPruned = true) :
    CacheValid parent (cache.releaseModifier txid entry) := by
  simp only [CCoinsViewCache.releaseModifier]
  split
  · exact valid.eraseEntry txid
  · apply valid.insertEntry
    constructor
    · intro clean
      simp [isDirty] at dirtied clean
      simp_all
    · exact fresh

theorem releaseModifier_same {cache : CCoinsViewCache} {below : CacheStack} {view : CoinsView}
    (same : (toView base (cache :: below)).Same view) {txid : Uint256} {entry : CCoinsCacheEntry}
    (fresh : entry.isFresh = true → ((toView base below).get txid).isPruned = true)
    {coins : CCoins} (edited : entry.coins.cleanup.equals coins = true) :
    (toView base (cache.releaseModifier txid entry :: below)).Same (view.set txid coins) := by
  intro x
  rw [CoinsView.get_set]
  simp only [CCoinsViewCache.releaseModifier]
  by_cases here : x = txid
  · subst here
    simp only [if_true]
    split
    next erased =>
      simp only [Bool.and_eq_true] at erased
      rw [toView_get_eraseEntry]
      exact CCoins.equals_of_isPruned (fresh erased.1)
        (CCoins.isPruned_of_equals (CCoins.equals_symm edited) erased.2)
    next =>
      rw [toView_get_insertEntry]
      exact edited
  · simp only [here, if_false]
    have kept : (if entry.isFresh && entry.coins.cleanup.isPruned then cache.eraseEntry txid
        else cache.insertEntry txid { entry with coins := entry.coins.cleanup }).cacheCoins.lookup x =
        cache.cacheCoins.lookup x := by
      split <;> simp [here]
    rw [toView_get_cons_congr kept]
    exact same x

theorem modifyCoinsEntry_of_lookup_some {cache : CCoinsViewCache} {txid : Uint256}
    {entry : CCoinsCacheEntry} (found : cache.cacheCoins.lookup txid = some entry)
    (below : CacheStack) : modifyCoinsEntry base txid cache below = (entry, below) := by
  simp [modifyCoinsEntry, found]

theorem modifyCoinsEntry_of_lookup_none {cache : CCoinsViewCache} {txid : Uint256}
    (missing : cache.cacheCoins.lookup txid = none) (below : CacheStack) :
    modifyCoinsEntry base txid cache below =
      (⟨(toView base below).get txid, if ((toView base below).get txid).isPruned then fresh else 0⟩,
        (getCoins base txid below).2) := by
  simp only [modifyCoinsEntry, missing, getCoins_fst, toView, CoinsView.get]
  split
  next nothing => simp [nothing]
  next coins answer => simp [answer]

theorem modifyCoinsEntry_spec {cache : CCoinsViewCache} {below : CacheStack}
    (valid : Valid base (cache :: below)) (txid : Uint256) :
    let start := modifyCoinsEntry base txid cache below
    start.1.coins = (toView base (cache :: below)).get txid ∧
      EntryValid (toView base below) txid start.1 ∧
      toView base start.2 = toView base below ∧ layerViews base start.2 = layerViews base below ∧
      Valid base start.2 := by
  obtain ⟨top, rest⟩ := valid
  cases found : cache.cacheCoins.lookup txid with
  | some entry =>
    rw [modifyCoinsEntry_of_lookup_some found]
    exact ⟨(toView_get_of_lookup_some found below).symm, top txid entry found, rfl, rfl, rest⟩
  | none =>
    rw [modifyCoinsEntry_of_lookup_none found]
    exact ⟨(toView_get_of_lookup_none found below).symm, entryValid_fetched rfl,
      toView_getCoins txid below, layerViews_getCoins txid below, valid_getCoins rest txid⟩

theorem simulates_cons {cache : CCoinsViewCache} {below : CacheStack} {view : CoinsView}
    {views : List CoinsView} :
    Simulates base (cache :: below) (view :: views) ↔
      (toView base (cache :: below)).Same view ∧ Simulates base below views :=
  List.forall₂_cons

theorem modifyCoins_simulates {cache : CCoinsViewCache} {below : CacheStack} {view : CoinsView}
    {views : List CoinsView} (valid : Valid base (cache :: below))
    (sim : Simulates base (cache :: below) (view :: views)) {txid : Uint256}
    {edit : CCoins → CCoins} (respects : Respects edit) :
    Valid base (modifyCoins base txid edit (cache :: below)) ∧
      Simulates base (modifyCoins base txid edit (cache :: below))
        (view.modifyCoins txid edit :: views) := by
  obtain ⟨coins, entryValid, toViewBelow, layersBelow, validBelow⟩ := modifyCoinsEntry_spec valid txid
  obtain ⟨same, simBelow⟩ := simulates_cons.1 sim
  simp only [modifyCoins]
  set start := modifyCoinsEntry base txid cache below
  have fresh : (⟨edit start.1.coins, start.1.flags ||| dirty⟩ : CCoinsCacheEntry).isFresh = true →
      ((toView base below).get txid).isPruned = true := by
    rw [isFresh_or_dirty]
    exact entryValid.fresh
  refine ⟨⟨?_, validBelow⟩, ?_⟩
  · rw [toViewBelow]
    exact valid.1.releaseModifier (isDirty_or_dirty _ _) fresh
  · apply simulates_cons.2
    refine ⟨?_, ?_⟩
    · rw [toView_cons_congr _ toViewBelow]
      apply releaseModifier_same same fresh
      -- the edit saw the top's answer, equal to the abstract view's
      rw [coins]
      exact CCoins.equals_cleanup (respects _ _ (same txid))
    · unfold Simulates
      rw [layersBelow]
      exact simBelow

theorem modifyNewCoins_simulates {cache : CCoinsViewCache} {below : CacheStack} {view : CoinsView}
    {views : List CoinsView} (valid : Valid base (cache :: below))
    (sim : Simulates base (cache :: below) (view :: views)) {txid : Uint256} {coinbase : Bool}
    {edit : CCoins → CCoins}
    (unspent : coinbase = true ∨ ((toView base below).get txid).isPruned = true) :
    Valid base (modifyNewCoins txid coinbase edit (cache :: below)) ∧
      Simulates base (modifyNewCoins txid coinbase edit (cache :: below))
        (view.modifyNewCoins txid edit :: views) := by
  obtain ⟨top, validBelow⟩ := valid
  obtain ⟨same, simBelow⟩ := simulates_cons.1 sim
  simp only [modifyNewCoins]
  -- any flags do, as long as `FRESH` is only set over a pruned entry below
  have finish : ∀ flags : UInt8,
      ((⟨edit CCoins.empty, flags ||| dirty⟩ : CCoinsCacheEntry).isFresh = true →
        ((toView base below).get txid).isPruned = true) →
      Valid base (cache.releaseModifier txid ⟨edit CCoins.empty, flags ||| dirty⟩ :: below) ∧
        Simulates base (cache.releaseModifier txid ⟨edit CCoins.empty, flags ||| dirty⟩ :: below)
          (view.modifyNewCoins txid edit :: views) := fun flags fresh =>
    ⟨⟨top.releaseModifier (isDirty_or_dirty _ _) fresh, validBelow⟩,
      simulates_cons.2 ⟨releaseModifier_same same fresh (CCoins.equals_refl _), simBelow⟩⟩
  apply finish
  -- `FRESH` comes from the existing entry for a coinbase, and is set otherwise
  rw [isFresh_or_dirty]
  intro marked
  cases coinbase with
  | false => simpa using unspent
  | true =>
    simp only [if_true] at marked
    split at marked
    next entry found => exact (top txid entry found).fresh marked
    next => simp at marked

theorem uncache_same {cache : CCoinsViewCache} {below : CacheStack}
    (valid : CacheValid (toView base below) cache) (txid : Uint256) :
    (toView base (cache.uncache txid :: below)).Same (toView base (cache :: below)) := by
  intro x
  unfold CCoinsViewCache.uncache
  split
  next entry found =>
    split
    next unflagged =>
      by_cases here : x = txid
      · subst here
        rw [toView_get_of_lookup_none (by simp), toView_get_of_lookup_some found]
        have clean : entry.isDirty = false := by simp [isDirty, unflagged]
        exact CCoins.equals_symm ((valid x entry found).clean clean)
      · have kept : (cache.eraseEntry txid).cacheCoins.lookup x = cache.cacheCoins.lookup x := by
          simp [here]
        rw [toView_get_cons_congr kept]
        exact CCoins.equals_refl _
    next => exact CCoins.equals_refl _
  next => exact CCoins.equals_refl _

theorem CacheValid.uncache {parent : CoinsView} {cache : CCoinsViewCache}
    (valid : CacheValid parent cache) (txid : Uint256) : CacheValid parent (cache.uncache txid) := by
  unfold CCoinsViewCache.uncache
  split
  · split
    · exact valid.eraseEntry txid
    · exact valid
  · exact valid

theorem batchWrite_same_at {cache parent : CCoinsViewCache} {rest : CacheStack}
    (top : CacheValid (toView base (parent :: rest)) cache)
    (below : CacheValid (toView base rest) parent) (hashBlockIn : Uint256) (x : Uint256) :
    ((toView base (parent.batchWrite cache.cacheCoins hashBlockIn :: rest)).get x).equals
      ((toView base (cache :: parent :: rest)).get x) = true := by
  have merged := CCoinsViewCache.lookup_batchWrite parent cache.cacheCoins hashBlockIn x
  cases child : cache.cacheCoins.lookup x with
  | none =>
    -- the top had nothing to write at `x`
    rw [child, Option.elim_none] at merged
    rw [toView_get_cons_congr merged, toView_get_of_lookup_none child]
    exact CCoins.equals_refl _
  | some entry =>
    rw [child, Option.elim_some] at merged
    rw [toView_get_of_lookup_some child]
    have valid := top x entry child
    unfold CCoinsViewCache.mergeEntry at merged
    by_cases dirtied : entry.isDirty = true
    · rw [if_pos dirtied] at merged
      cases ours : parent.cacheCoins.lookup x with
      | none =>
        simp only [ours] at merged
        split at merged
        next => rw [toView_get_of_lookup_some merged]; exact CCoins.equals_refl _
        next skipped =>
          -- a `FRESH` pruned entry stands over nothing unspent below the parent
          replace skipped : entry.isFresh = true ∧ entry.coins.isPruned = true := by
            simpa using skipped
          have pruned := valid.fresh skipped.1
          rw [toView_get_of_lookup_none ours] at pruned
          rw [toView_get_of_lookup_none merged]
          exact CCoins.equals_of_isPruned pruned skipped.2
      | some theirs =>
        simp only [ours] at merged
        split at merged
        next erased =>
          -- the parent's `FRESH` entry stands over nothing unspent
          simp only [Bool.and_eq_true] at erased
          have pruned := (below x theirs ours).fresh erased.1
          rw [toView_get_of_lookup_none merged]
          exact CCoins.equals_of_isPruned pruned erased.2
        next => rw [toView_get_of_lookup_some merged]; exact CCoins.equals_refl _
    · rw [if_neg dirtied] at merged
      rw [toView_get_cons_congr merged]
      exact CCoins.equals_symm (valid.clean (by simpa using dirtied))

theorem CacheValid.batchWrite {cache parent : CCoinsViewCache} {rest : CacheStack}
    (top : CacheValid (toView base (parent :: rest)) cache)
    (below : CacheValid (toView base rest) parent) (hashBlockIn : Uint256) :
    CacheValid (toView base rest) (parent.batchWrite cache.cacheCoins hashBlockIn) := by
  intro x written found
  rw [CCoinsViewCache.lookup_batchWrite] at found
  cases child : cache.cacheCoins.lookup x with
  | none =>
    rw [child, Option.elim_none] at found
    exact below x written found
  | some entry =>
    rw [child, Option.elim_some] at found
    have valid := top x entry child
    unfold CCoinsViewCache.mergeEntry at found
    by_cases dirtied : entry.isDirty = true
    · rw [if_pos dirtied] at found
      cases ours : parent.cacheCoins.lookup x with
      | none =>
        simp only [ours] at found
        split at found
        next =>
          cases found
          constructor
          · intro clean
            simp at clean
          · -- only a `FRESH` child makes a `FRESH` parent entry
            intro marked
            rw [isFresh_written] at marked
            have pruned := valid.fresh marked
            rwa [toView_get_of_lookup_none ours] at pruned
        next => cases found
      | some theirs =>
        simp only [ours] at found
        split at found
        next => cases found
        next =>
          cases found
          constructor
          · intro clean
            simp at clean
          · intro marked
            rw [isFresh_or_dirty] at marked
            exact (below x theirs ours).fresh marked
    · rw [if_neg dirtied] at found
      exact below x written found

theorem CacheValid.empty (parent : CoinsView) (cache : CCoinsViewCache) :
    CacheValid parent { cache with cacheCoins := ∅ } := by
  intro x entry found
  simp at found

theorem flush_simulates {cache parent : CCoinsViewCache} {rest : CacheStack}
    {view other : CoinsView} {views : List CoinsView} (valid : Valid base (cache :: parent :: rest))
    (sim : Simulates base (cache :: parent :: rest) (view :: other :: views)) :
    Valid base (flush (cache :: parent :: rest)) ∧
      Simulates base (flush (cache :: parent :: rest)) (view :: view :: views) := by
  obtain ⟨top, below, validRest⟩ := valid
  obtain ⟨same, simBelow⟩ := simulates_cons.1 sim
  obtain ⟨-, simRest⟩ := simulates_cons.1 simBelow
  -- the cache below now answers what the top answered, and the emptied top passes it on
  have written : (toView base (parent.batchWrite cache.cacheCoins cache.hashBlock :: rest)).Same view :=
    fun x => CCoins.equals_trans (batchWrite_same_at top below cache.hashBlock x) (same x)
  refine ⟨⟨CacheValid.empty _ cache, top.batchWrite below cache.hashBlock, validRest⟩, ?_⟩
  exact simulates_cons.2 ⟨written, simulates_cons.2 ⟨written, simRest⟩⟩

theorem length_layerViews (stack : CacheStack) : (layerViews base stack).length = stack.length + 1 := by
  induction stack with
  | nil => rfl
  | cons cache below ih => simp [layerViews, ih]

theorem Simulates.length {stack : CacheStack} {views : List CoinsView}
    (sim : Simulates base stack views) : views.length = stack.length + 1 := by
  rw [← List.Forall₂.length_eq sim, length_layerViews]

theorem Simulates.head {stack : CacheStack} {view : CoinsView} {views : List CoinsView}
    (sim : Simulates base stack (view :: views)) : (toView base stack).Same view := by
  obtain ⟨rest, layers⟩ := @head_layerViews base stack
  unfold Simulates at sim
  rw [layers] at sim
  exact (List.forall₂_cons.1 sim).1

theorem push_simulates {stack : CacheStack} {view : CoinsView} {views : List CoinsView}
    (valid : Valid base stack) (sim : Simulates base stack (view :: views)) :
    Valid base (CCoinsViewCache.empty :: stack) ∧
      Simulates base (CCoinsViewCache.empty :: stack) (view :: view :: views) := by
  refine ⟨⟨CacheValid.empty _ CCoinsViewCache.empty, valid⟩, ?_⟩
  exact simulates_cons.2 ⟨by rw [toView_push]; exact sim.head, sim⟩

theorem onTop_simulates {stack : CacheStack} {views : List CoinsView}
    (valid : Valid base stack) (sim : Simulates base stack views)
    {f : CCoinsViewCache → CCoinsViewCache}
    (keeps : ∀ cache below, CacheValid (toView base below) cache →
      CacheValid (toView base below) (f cache) ∧
        (toView base (f cache :: below)).Same (toView base (cache :: below))) :
    Valid base (onTop f stack) ∧ Simulates base (onTop f stack) views := by
  cases stack with
  | nil => exact ⟨valid, sim⟩
  | cons cache below =>
    obtain ⟨top, validBelow⟩ := valid
    obtain ⟨kept, same⟩ := keeps cache below top
    cases views with
    | nil => exact absurd sim.length (by simp)
    | cons view views =>
      obtain ⟨sameTop, simBelow⟩ := simulates_cons.1 sim
      exact ⟨⟨kept, validBelow⟩, simulates_cons.2 ⟨same.trans sameTop, simBelow⟩⟩

theorem step_simulates {stack : CacheStack} {views : List CoinsView} (valid : Valid base stack)
    (sim : Simulates base stack views) (op : CacheOp) (allowed : Allowed views op) :
    Valid base (step base stack op) ∧ Simulates base (step base stack op) (abstractStep views op) := by
  cases op with
  | getCoins txid =>
    refine ⟨valid_getCoins valid txid, ?_⟩
    unfold Simulates
    rw [step, layerViews_getCoins]
    exact sim
  | uncache txid =>
    exact onTop_simulates valid sim fun cache below top => ⟨top.uncache txid, uncache_same top txid⟩
  | setBestBlock hashBlock =>
    exact onTop_simulates valid sim fun cache below top => ⟨top, CoinsView.Same.refl _⟩
  | push =>
    cases views with
    | nil => exact absurd sim.length (by simp)
    | cons view views => exact push_simulates valid sim
  | modifyCoins txid edit =>
    -- `Allowed` asks for a cache on the base view
    match stack, views, valid, sim, allowed with
    | cache :: below, view :: _ :: _, valid, sim, respects => exact modifyCoins_simulates valid sim respects
    | _, [], _, sim, _ => exact absurd sim.length (by simp)
    | _, [_], _, _, allowed => exact allowed.elim
    | [], _ :: _ :: _, _, sim, _ => exact absurd sim.length (by simp)
  | modifyNewCoins txid coinbase edit =>
    match stack, views, valid, sim, allowed with
    | cache :: below, view :: other :: _, valid, sim, unspent =>
      refine modifyNewCoins_simulates valid sim ?_
      -- the abstract view below the top is what the view below the top cache answers
      have below := (simulates_cons.1 sim).2.head
      rcases unspent with coinbase | pruned
      · exact .inl coinbase
      · exact .inr (CCoins.isPruned_of_equals (below txid) pruned)
    | _, [], _, sim, _ => exact absurd sim.length (by simp)
    | _, [_], _, _, allowed => exact allowed.elim
    | [], _ :: _ :: _, _, sim, _ => exact absurd sim.length (by simp)
  | flush =>
    match stack, views, valid, sim, allowed with
    | cache :: parent :: rest, view :: other :: _ :: _, valid, sim, _ => exact flush_simulates valid sim
    | _, [], _, sim, _ => exact absurd sim.length (by simp)
    | _, [_], _, _, allowed => exact allowed.elim
    | _, [_, _], _, _, allowed => exact allowed.elim
    | [], _ :: _ :: _ :: _, _, sim, _ => exact absurd sim.length (by simp)
    | [_], _ :: _ :: _ :: _, _, sim, _ => exact absurd sim.length (by simp)

theorem run_simulates {stack : CacheStack} {views : List CoinsView} (valid : Valid base stack)
    (sim : Simulates base stack views) (ops : List CacheOp) (allowed : AllowedRun views ops) :
    Valid base (run base stack ops) ∧ Simulates base (run base stack ops) (abstractRun views ops) := by
  induction ops generalizing stack views with
  | nil => exact ⟨valid, sim⟩
  | cons op ops ih =>
    obtain ⟨now, later⟩ := allowed
    obtain ⟨valid', sim'⟩ := step_simulates valid sim op now
    exact ih valid' sim' later

theorem valid_replicate_empty (caches : Nat) :
    Valid base (List.replicate caches CCoinsViewCache.empty) := by
  induction caches with
  | zero => trivial
  | succ caches ih => exact ⟨CacheValid.empty _ CCoinsViewCache.empty, ih⟩

def unspentCoins : CCoins := ⟨false, false, [⟨coin, [0x51]⟩], 1, 1, 0⟩

def unspentBase : CoinsView := CoinsView.empty.set Uint256.zero unspentCoins

def spendFirst (coins : CCoins) : CCoins := (coins.spend 0).2

-- pruned coins have nothing to spend, so `Spend` leaves both sides pruned
theorem respects_spendFirst : Respects spendFirst := by
  intro a b same
  rcases (CCoins.equals_iff a b).1 same with ⟨pa, pb⟩ | rfl
  · simp only [spendFirst, CCoins.spend, CCoins.not_isAvailable_of_isPruned pa,
      CCoins.not_isAvailable_of_isPruned pb]
    exact CCoins.equals_of_isPruned pa pb
  · exact CCoins.equals_refl _

end CacheStack

end Gaiacoin
