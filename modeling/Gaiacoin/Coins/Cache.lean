import Gaiacoin.Coins.View
import Gaiacoin.Shared.KeyedLoop

set_option autoImplicit false

/-!
# `CCoinsViewCache`

A stack of caches over a base view, as `coins.cpp` keeps it. Each cache maps
txids to entries that carry the `DIRTY` and `FRESH` flags. A cache answers from
its own entry when it has one; otherwise it asks the view below and keeps the
answer (`FetchCoins`). Edits go to the top cache through a `CCoinsModifier`, and
`Flush` writes the top cache's dirty entries into the cache below with
`BatchWrite`.

The stack is a list, top first; the cache at its end sits on the base view. An
edit through a modifier is one step here: `ModifyCoins` or `ModifyNewCoins`, the
edit, then the modifier's destructor. The memory accounting and `hasModifier`
are left out.
-/

namespace Gaiacoin

structure CCoinsCacheEntry where
  coins : CCoins
  flags : UInt8
  deriving DecidableEq

namespace CCoinsCacheEntry

/-- `DIRTY`: the entry may differ from the parent view's. -/
def dirty : UInt8 := (1 : UInt8) <<< 0

/-- `FRESH`: the parent view has nothing unspent for this txid. -/
def fresh : UInt8 := (1 : UInt8) <<< 1

def isDirty (entry : CCoinsCacheEntry) : Bool := entry.flags &&& dirty != 0

def isFresh (entry : CCoinsCacheEntry) : Bool := entry.flags &&& fresh != 0

/-- `flags |= DIRTY` sets `DIRTY`. -/
@[simp] theorem isDirty_or_dirty (coins : CCoins) (flags : UInt8) :
    (⟨coins, flags ||| dirty⟩ : CCoinsCacheEntry).isDirty = true := by
  have set : (flags ||| dirty) &&& dirty = dirty := by
    apply UInt8.toBitVec_inj.1
    simp only [UInt8.toBitVec_and, UInt8.toBitVec_or]
    ext i
    simp [dirty]
    grind
  show ((flags ||| dirty) &&& dirty != 0) = true
  rw [set]
  decide

/-- `flags |= DIRTY` leaves `FRESH` as it was. -/
@[simp] theorem isFresh_or_dirty (coins : CCoins) (flags : UInt8) :
    (⟨coins, flags ||| dirty⟩ : CCoinsCacheEntry).isFresh = (flags &&& fresh != 0) := by
  have kept : (flags ||| dirty) &&& fresh = flags &&& fresh := by
    apply UInt8.toBitVec_inj.1
    simp only [UInt8.toBitVec_and, UInt8.toBitVec_or]
    ext i
    simp [dirty, fresh]
    grind
  simp [isFresh, kept]

/-- The flags `BatchWrite` gives an entry new to the parent: `DIRTY`, and `FRESH`
when the child's entry was `FRESH`. -/
@[simp] theorem isDirty_written (coins : CCoins) (childFresh : Bool) :
    (⟨coins, if childFresh then dirty ||| fresh else dirty⟩ : CCoinsCacheEntry).isDirty = true := by
  show ((if childFresh then dirty ||| fresh else dirty) &&& dirty != 0) = true
  cases childFresh <;> decide

@[simp] theorem isFresh_written (coins : CCoins) (childFresh : Bool) :
    (⟨coins, if childFresh then dirty ||| fresh else dirty⟩ : CCoinsCacheEntry).isFresh =
      childFresh := by
  show ((if childFresh then dirty ||| fresh else dirty) &&& fresh != 0) = childFresh
  cases childFresh <;> decide

end CCoinsCacheEntry

open CCoinsCacheEntry

/-- `CCoinsMap`, an unordered map: a finite map with distinct keys. -/
abbrev CCoinsMap := AList fun _ : Uint256 => CCoinsCacheEntry

structure CCoinsViewCache where
  cacheCoins : CCoinsMap
  hashBlock : Uint256

namespace CCoinsViewCache

def empty : CCoinsViewCache := ⟨∅, Uint256.zero⟩

def insertEntry (cache : CCoinsViewCache) (txid : Uint256) (entry : CCoinsCacheEntry) :
    CCoinsViewCache :=
  { cache with cacheCoins := cache.cacheCoins.insert txid entry }

def eraseEntry (cache : CCoinsViewCache) (txid : Uint256) : CCoinsViewCache :=
  { cache with cacheCoins := cache.cacheCoins.erase txid }

/-- What `FetchCoins` keeps of the parent's answer: nothing when the parent has
none, else the parent's coins, marked `FRESH` when they have nothing unspent. -/
def keepFetched (cache : CCoinsViewCache) (txid : Uint256) : Option CCoins → CCoinsViewCache
  | none => cache
  | some coins => cache.insertEntry txid ⟨coins, if coins.isPruned then fresh else 0⟩

/-- `~CCoinsModifier`: the edited entry is cleaned up, and erased when it is
`FRESH` and pruned. -/
def releaseModifier (cache : CCoinsViewCache) (txid : Uint256) (entry : CCoinsCacheEntry) :
    CCoinsViewCache :=
  let coins := entry.coins.cleanup
  if entry.isFresh && coins.isPruned then cache.eraseEntry txid
  else cache.insertEntry txid { entry with coins }

/-- `Uncache`: only an entry without flags is dropped. -/
def uncache (cache : CCoinsViewCache) (hash : Uint256) : CCoinsViewCache :=
  match cache.cacheCoins.lookup hash with
  | some entry => if entry.flags = 0 then cache.eraseEntry hash else cache
  | none => cache

def setBestBlock (cache : CCoinsViewCache) (hashBlockIn : Uint256) : CCoinsViewCache :=
  { cache with hashBlock := hashBlockIn }

/-- One pass of the loop of `BatchWrite`: the child's entry at `txid` written into
the parent's map. -/
def batchWriteEntry (cacheCoins : CCoinsMap) (txid : Uint256) (child : CCoinsCacheEntry) :
    CCoinsMap :=
  if child.isDirty then
    match cacheCoins.lookup txid with
    | none =>
      -- a child entry that is `FRESH` and pruned has nothing to tell the parent
      if !(child.isFresh && child.coins.isPruned) then
        cacheCoins.insert txid ⟨child.coins, if child.isFresh then dirty ||| fresh else dirty⟩
      else cacheCoins
    | some ours =>
      if ours.isFresh && child.coins.isPruned then cacheCoins.erase txid
      else cacheCoins.insert txid ⟨child.coins, ours.flags ||| dirty⟩
  else cacheCoins

def batchWrite (cache : CCoinsViewCache) (mapCoins : CCoinsMap) (hashBlockIn : Uint256) :
    CCoinsViewCache where
  cacheCoins := mapCoins.entries.foldl (fun cacheCoins it => batchWriteEntry cacheCoins it.1 it.2)
    cache.cacheCoins
  hashBlock := hashBlockIn

/-- What one pass of the `BatchWrite` loop leaves in the parent's map at the
child's txid, from the child's entry and the parent's. -/
def mergeEntry (child : CCoinsCacheEntry) (ours : Option CCoinsCacheEntry) :
    Option CCoinsCacheEntry :=
  if child.isDirty then
    match ours with
    | none =>
      if !(child.isFresh && child.coins.isPruned) then
        some ⟨child.coins, if child.isFresh then dirty ||| fresh else dirty⟩
      else none
    | some ours =>
      if ours.isFresh && child.coins.isPruned then none
      else some ⟨child.coins, ours.flags ||| dirty⟩
  else ours

@[simp] theorem lookup_insertEntry (cache : CCoinsViewCache) (txid : Uint256)
    (entry : CCoinsCacheEntry) (x : Uint256) :
    (cache.insertEntry txid entry).cacheCoins.lookup x =
      if x = txid then some entry else cache.cacheCoins.lookup x := by
  by_cases here : x = txid
  · subst here
    simp [insertEntry, AList.lookup_insert]
  · simp [insertEntry, AList.lookup_insert_ne here, here]

@[simp] theorem lookup_eraseEntry (cache : CCoinsViewCache) (txid : Uint256) (x : Uint256) :
    (cache.eraseEntry txid).cacheCoins.lookup x =
      if x = txid then none else cache.cacheCoins.lookup x := by
  by_cases here : x = txid
  · subst here
    simp [eraseEntry, AList.lookup_erase]
  · simp [eraseEntry, AList.lookup_erase_ne here, here]

theorem batchWriteEntry_local : KeyedLoop.Local batchWriteEntry mergeEntry := by
  intro cacheCoins txid child x
  by_cases here : x = txid
  · subst here
    unfold batchWriteEntry mergeEntry
    split
    · split <;> split <;> simp [AList.lookup_insert, AList.lookup_erase, *]
    · simp
  · unfold batchWriteEntry
    split
    · split <;> split <;> simp [AList.lookup_insert_ne here, AList.lookup_erase_ne here]
    · simp

theorem lookup_batchWrite (cache : CCoinsViewCache) (mapCoins : CCoinsMap) (hashBlockIn : Uint256)
    (x : Uint256) :
    (cache.batchWrite mapCoins hashBlockIn).cacheCoins.lookup x =
      (mapCoins.lookup x).elim (cache.cacheCoins.lookup x) fun child =>
        mergeEntry child (cache.cacheCoins.lookup x) :=
  KeyedLoop.lookup_foldl_entries batchWriteEntry_local mapCoins cache.cacheCoins x

end CCoinsViewCache

abbrev CacheStack := List CCoinsViewCache

namespace CacheStack

variable (base : CoinsView)

/-- `GetCoins` of the top cache, through `FetchCoins`: its own entry, or the
answer of the view below, which it keeps. The base view answers at the bottom. -/
def getCoins (txid : Uint256) : CacheStack → Option CCoins × CacheStack
  | [] => (base.entries txid, [])
  | cache :: below =>
    match cache.cacheCoins.lookup txid with
    | some entry => (some entry.coins, cache :: below)
    | none =>
      let fetched := getCoins txid below
      (fetched.1, cache.keepFetched txid fetched.1 :: fetched.2)

/-- `HaveCoins`: an entry whose `vout` is not empty. `AccessCoins` answers what
`getCoins` does. -/
def haveCoins (txid : Uint256) (stack : CacheStack) : Bool × CacheStack :=
  let fetched := getCoins base txid stack
  ((fetched.1.map fun coins => !coins.vout.isEmpty).getD false, fetched.2)

def peekCoins (txid : Uint256) : CacheStack → Option CCoins
  | [] => base.entries txid
  | cache :: below =>
    match cache.cacheCoins.lookup txid with
    | some entry => some entry.coins
    | none => peekCoins txid below

/-- The entry `ModifyCoins` hands to the modifier: the cache's own, or a new one
holding the parent's coins (the cleared coins when the parent has none), marked
`FRESH` when they have nothing unspent. -/
def modifyCoinsEntry (txid : Uint256) (cache : CCoinsViewCache) (below : CacheStack) :
    CCoinsCacheEntry × CacheStack :=
  match cache.cacheCoins.lookup txid with
  | some entry => (entry, below)
  | none =>
    let fetched := getCoins base txid below
    match fetched.1 with
    | none => (⟨CCoins.empty, fresh⟩, fetched.2)
    | some coins => (⟨coins, if coins.isPruned then fresh else 0⟩, fetched.2)

/-- `ModifyCoins(txid)` on the top cache, one edit through the modifier, and the
modifier's destructor. -/
def modifyCoins (txid : Uint256) (edit : CCoins → CCoins) : CacheStack → CacheStack
  | [] => []
  | cache :: below =>
    let start := modifyCoinsEntry base txid cache below
    cache.releaseModifier txid ⟨edit start.1.coins, start.1.flags ||| dirty⟩ :: start.2

/-- `ModifyNewCoins(txid, coinbase)` on the top cache, one edit through the
modifier, and the modifier's destructor. The entry starts from cleared coins and,
unless it is for a coinbase, is marked `FRESH` without asking the view below. -/
def modifyNewCoins (txid : Uint256) (coinbase : Bool) (edit : CCoins → CCoins) :
    CacheStack → CacheStack
  | [] => []
  | cache :: below =>
    -- `cacheCoins.insert` keeps an entry that is already there, flags included
    let flags := match cache.cacheCoins.lookup txid with
      | some entry => entry.flags
      | none => 0
    let flags := if coinbase then flags else fresh
    cache.releaseModifier txid ⟨edit CCoins.empty, flags ||| dirty⟩ :: below

def onTop (f : CCoinsViewCache → CCoinsViewCache) : CacheStack → CacheStack
  | [] => []
  | cache :: below => f cache :: below

/-- `Flush` of the top cache into the cache below: `BatchWrite` of its map and
best block, then its map is cleared. -/
def flush : CacheStack → CacheStack
  | cache :: parent :: rest =>
    { cache with cacheCoins := ∅ } :: parent.batchWrite cache.cacheCoins cache.hashBlock :: rest
  -- the bottom cache writes into the base view, whose `BatchWrite` is outside the model
  | stack => stack

end CacheStack

inductive CacheOp where
  /-- `GetCoins`, `AccessCoins` or `HaveCoins`, which all go through `FetchCoins`. -/
  | getCoins (txid : Uint256)
  | modifyCoins (txid : Uint256) (edit : CCoins → CCoins)
  | modifyNewCoins (txid : Uint256) (coinbase : Bool) (edit : CCoins → CCoins)
  | uncache (txid : Uint256)
  | setBestBlock (hashBlock : Uint256)
  /-- A new cache over the top one. -/
  | push
  | flush

namespace CacheStack

variable (base : CoinsView)

def step (stack : CacheStack) : CacheOp → CacheStack
  | .getCoins txid => (getCoins base txid stack).2
  | .modifyCoins txid edit => modifyCoins base txid edit stack
  | .modifyNewCoins txid coinbase edit => modifyNewCoins txid coinbase edit stack
  | .uncache txid => onTop (·.uncache txid) stack
  | .setBestBlock hashBlock => onTop (·.setBestBlock hashBlock) stack
  | .push => CCoinsViewCache.empty :: stack
  | .flush => flush stack

def run (stack : CacheStack) (ops : List CacheOp) : CacheStack := ops.foldl (step base) stack

theorem getCoins_fst (txid : Uint256) (stack : CacheStack) :
    (getCoins base txid stack).1 = peekCoins base txid stack := by
  induction stack with
  | nil => rfl
  | cons cache below ih =>
    cases found : cache.cacheCoins.lookup txid with
    | some entry => simp [getCoins, peekCoins, found]
    | none => simp [getCoins, peekCoins, found, ih]

theorem peekCoins_getCoins (txid other : Uint256) (stack : CacheStack) :
    peekCoins base other (getCoins base txid stack).2 = peekCoins base other stack := by
  induction stack with
  | nil => rfl
  | cons cache below ih =>
    cases found : cache.cacheCoins.lookup txid with
    | some entry => simp [getCoins, found]
    | none =>
      simp only [getCoins, found]
      cases fetched : (getCoins base txid below).1 with
      | none => simp [CCoinsViewCache.keepFetched, peekCoins, ih]
      | some coins =>
        by_cases here : other = txid
        · subst here
          rw [getCoins_fst] at fetched
          simp [CCoinsViewCache.keepFetched, peekCoins, found, fetched]
        · simp [CCoinsViewCache.keepFetched, peekCoins, here, ih]

end CacheStack

end Gaiacoin
