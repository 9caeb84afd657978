import Gaiacoin.Consensus.Chain
import Gaiacoin.Shared.Memo

set_option autoImplicit false

/-!
# `versionbits.cpp`: BIP9 deployment states

`GetStateFor` gives the state of a deployment for the block after `pindexPrev`.
The state changes only at period boundaries, so it is computed for the last
block of the previous period. A cache maps such blocks to their states; the
function walks back one period at a time until it reaches a block it knows, or
`NULL`, or a block timed before the start (whose state it sets to `DEFINED`
without looking further back), and then walks forward again, applying the switch
once per period and storing each state.

`stateFor` is that recursion without the cache, and `bip9State` the BIP9
recursion without the shortcut at the start time. The cache never changes an
answer; the shortcut does not either on a chain whose past time limits never
decrease, provided the deployment does not time out before it starts.
-/

namespace Gaiacoin

namespace VersionBits

/-- `VERSIONBITS_TOP_BITS`. -/
def VERSIONBITS_TOP_BITS : UInt32 := 0x20000000

/-- `VERSIONBITS_TOP_MASK`. -/
def VERSIONBITS_TOP_MASK : UInt32 := 0xE0000000

/-- `VERSIONBITS_NUM_BITS`. -/
def VERSIONBITS_NUM_BITS : Nat := 29

/-- `ThresholdState`. -/
inductive ThresholdState
  | defined
  | started
  | lockedIn
  | active
  | failed
  deriving DecidableEq, Repr

/-- `Consensus::DeploymentPos`. -/
inductive DeploymentPos
  | testdummy
  deriving DecidableEq, Repr

/-- `Consensus::BIP9Deployment`. -/
structure BIP9Deployment where
  bit : Nat
  nStartTime : Int
  nTimeout : Int

/-- The fields of `Consensus::Params` that versionbits reads. A window of zero
blocks would make `% nPeriod` undefined. -/
structure Params where
  nRuleChangeActivationThreshold : Nat
  nMinerConfirmationWindow : Nat
  vDeployments : DeploymentPos → BIP9Deployment
  windowPositive : 0 < nMinerConfirmationWindow

/-- `AbstractThresholdConditionChecker`: the functions a checker supplies. -/
structure ThresholdConditionChecker where
  condition : BlockRef → Bool
  beginTime : Int
  endTime : Int
  period : Nat
  threshold : Nat
  periodPositive : 0 < period

/-- `ThresholdConditionCache`, keyed by `pindexPrev` (`NULL` included). -/
abbrev ThresholdConditionCache := Option BlockRef → Option ThresholdState

/-- `VersionBitsConditionChecker::Mask`. -/
def mask (params : Params) (pos : DeploymentPos) : UInt32 :=
  (1 : UInt32) <<< (params.vDeployments pos).bit.toUInt32

/-- `VersionBitsConditionChecker(pos)`: a block signals when its version has the
top bits of versionbits and the deployment's bit. -/
def versionBitsChecker (params : Params) (pos : DeploymentPos) : ThresholdConditionChecker where
  condition pindex :=
    (pindex.entry.nVersion.toUInt32 &&& VERSIONBITS_TOP_MASK) == VERSIONBITS_TOP_BITS &&
      (pindex.entry.nVersion.toUInt32 &&& mask params pos) != 0
  beginTime := (params.vDeployments pos).nStartTime
  endTime := (params.vDeployments pos).nTimeout
  period := params.nMinerConfirmationWindow
  threshold := params.nRuleChangeActivationThreshold
  periodPositive := params.windowPositive

def mainVersionBits : Params where
  nRuleChangeActivationThreshold := 5
  nMinerConfirmationWindow := 5
  vDeployments _ := { bit := 28, nStartTime := 1199145601, nTimeout := 1230767999 }
  windowPositive := by decide

def testNetVersionBits : Params where
  nRuleChangeActivationThreshold := 1512
  nMinerConfirmationWindow := 5
  vDeployments _ := { bit := 28, nStartTime := 1199145601, nTimeout := 1230767999 }
  windowPositive := by decide

def regTestVersionBits : Params where
  nRuleChangeActivationThreshold := 108
  nMinerConfirmationWindow := 144
  vDeployments _ := { bit := 28, nStartTime := 1199145601, nTimeout := 1230767999 }
  windowPositive := by decide

def rank : Option BlockRef → Nat
  | none => 0
  | some p => p.nHeight + 1

section GetStateFor

variable (checker : ThresholdConditionChecker) (consensus : Consensus.Params)

/-- `GetAncestor(nHeight - nPeriod)`: the last block of the period before. -/
def periodBefore (p : BlockRef) : Option BlockRef := p.getAncestor (p.nHeight - checker.period)

/-- `GetAncestor(nHeight - ((nHeight + 1) % nPeriod))`: the last block of the
period before the one `pindexPrev`'s child falls in. -/
def periodEnd : Option BlockRef → Option BlockRef
  | none => none
  | some p => p.getAncestor (p.nHeight - ((p.nHeight + 1) % checker.period : Nat))

theorem rank_periodBefore (p : BlockRef) : rank (periodBefore checker p) < rank (some p) := by
  cases found : periodBefore checker p with
  | none => simp [rank]
  | some q =>
    obtain ⟨-, level, -⟩ := BlockRef.getAncestor_spec found
    have := checker.periodPositive
    simp only [rank]
    omega

/-- The loop counting the blocks of a period that satisfy `Condition`; `NULL` is
never reached from the last block of a period. -/
def countCondition : Nat → Option BlockRef → Nat
  | 0, _ => 0
  | _ + 1, none => 0
  | i + 1, some p => (if checker.condition p then 1 else 0) + countCondition i p.pprev

/-- The `switch` from one period's state to the next. -/
def nextState (state : ThresholdState) (pindexPrev : BlockRef) : ThresholdState :=
  match state with
  | .defined =>
    if pindexPrev.getPastTimeLimit consensus ≥ checker.endTime then .failed
    else if pindexPrev.getPastTimeLimit consensus ≥ checker.beginTime then .started
    else .defined
  | .started =>
    if pindexPrev.getPastTimeLimit consensus ≥ checker.endTime then .failed
    else if countCondition checker checker.period (some pindexPrev) ≥ checker.threshold then .lockedIn
    else .started
  | .lockedIn => .active
  | .failed => .failed
  | .active => .active

/-- The walk back, `vToCompute` a stack: it stops at a block the cache knows,
at `NULL`, or at a block timed before the start; the last two are set to
`DEFINED`. -/
def walkBack (cache : ThresholdConditionCache) (pindexPrev : Option BlockRef)
    (vToCompute : List BlockRef) : ThresholdConditionCache × Option BlockRef × List BlockRef :=
  if (cache pindexPrev).isSome then (cache, pindexPrev, vToCompute)
  else
    match pindexPrev with
    | none => (Function.update cache none (some .defined), none, vToCompute)
    | some p =>
      if p.getPastTimeLimit consensus < checker.beginTime then
        (Function.update cache (some p) (some .defined), some p, vToCompute)
      else walkBack cache (periodBefore checker p) (p :: vToCompute)
termination_by rank pindexPrev
decreasing_by exact rank_periodBefore checker p

/-- `AbstractThresholdConditionChecker::GetStateFor`. The walk forward pops the
stack, oldest block first. -/
def getStateFor (pindexPrev : Option BlockRef) (cache : ThresholdConditionCache) :
    ThresholdState × ThresholdConditionCache :=
  let (cache, known, vToCompute) := walkBack checker consensus cache (periodEnd checker pindexPrev) []
  -- `assert(cache.count(pindexPrev))`: the walk stops at a block with a state
  let (cache, state) :=
    Memo.forward some (nextState checker consensus) vToCompute (cache, (cache known).getD .defined)
  (state, cache)

/-- The state stored for a period's last block: the recursion `GetStateFor`
memoises, shortcut included. -/
def stateFor : Option BlockRef → ThresholdState
  | none => .defined
  | some p =>
    if p.getPastTimeLimit consensus < checker.beginTime then .defined
    else nextState checker consensus (stateFor (periodBefore checker p)) p
termination_by pindexPrev => rank pindexPrev
decreasing_by exact rank_periodBefore checker p

/-- BIP9 itself: the switch applied once per period from `DEFINED` at genesis. -/
def bip9State : Option BlockRef → ThresholdState
  | none => .defined
  | some p => nextState checker consensus (bip9State (periodBefore checker p)) p
termination_by pindexPrev => rank pindexPrev
decreasing_by exact rank_periodBefore checker p

end GetStateFor

section Cache

variable (checker : ThresholdConditionChecker) (consensus : Consensus.Params)

theorem stateFor_some (p : BlockRef) :
    stateFor checker consensus (some p) =
      if p.getPastTimeLimit consensus < checker.beginTime then .defined
      else nextState checker consensus (stateFor checker consensus (periodBefore checker p)) p := by
  rw [stateFor]

theorem stateFor_of_started {p : BlockRef} (started : checker.beginTime ≤ p.getPastTimeLimit consensus) :
    stateFor checker consensus (some p) =
      nextState checker consensus (stateFor checker consensus (periodBefore checker p)) p := by
  rw [stateFor_some, if_neg (not_lt.mpr started)]

variable {checker consensus}

theorem walkBack_spec {cache : ThresholdConditionCache}
    (sound : Memo.Sound (stateFor checker consensus) cache)
    (pindexPrev : Option BlockRef) (vToCompute : List BlockRef)
    (linked : Memo.Linked (periodBefore checker) some pindexPrev vToCompute)
    (pending : ∀ p ∈ vToCompute, checker.beginTime ≤ p.getPastTimeLimit consensus) :
    let r := walkBack checker consensus cache pindexPrev vToCompute
    Memo.Sound (stateFor checker consensus) r.1 ∧ r.1 r.2.1 = some (stateFor checker consensus r.2.1) ∧
      Memo.Linked (periodBefore checker) some r.2.1 r.2.2 ∧
      (∀ p ∈ r.2.2, checker.beginTime ≤ p.getPastTimeLimit consensus) ∧
      Memo.lastKey some r.2.1 r.2.2 = Memo.lastKey some pindexPrev vToCompute := by
  fun_induction walkBack checker consensus cache pindexPrev vToCompute with
  | case1 pindexPrev vToCompute known =>
    obtain ⟨s, found⟩ := Option.isSome_iff_exists.mp known
    dsimp only
    exact ⟨sound, by rw [found, sound.get found], linked, pending, rfl⟩
  | case2 vToCompute unknown =>
    dsimp only
    exact ⟨sound.update none (by rw [stateFor]), by rw [Function.update_self, stateFor], linked, pending, rfl⟩
  | case3 vToCompute p early unknown =>
    have defined : stateFor checker consensus (some p) = .defined := by rw [stateFor_some, if_pos early]
    dsimp only
    exact ⟨sound.update (some p) defined.symm, by rw [Function.update_self, defined], linked, pending, rfl⟩
  | case4 vToCompute p started unknown ih =>
    obtain ⟨sound', stored, linked', pending', last⟩ :=
      ih ⟨rfl, linked⟩ (fun q member => by
        rcases List.mem_cons.mp member with rfl | earlier
        · exact not_lt.mp started
        · exact pending q earlier)
    exact ⟨sound', stored, linked', pending', by rw [last, Memo.lastKey_cons]⟩

theorem getStateFor_spec {cache : ThresholdConditionCache}
    (sound : Memo.Sound (stateFor checker consensus) cache) (pindexPrev : Option BlockRef) :
    (getStateFor checker consensus pindexPrev cache).1 =
        stateFor checker consensus (periodEnd checker pindexPrev) ∧
      Memo.Sound (stateFor checker consensus) (getStateFor checker consensus pindexPrev cache).2 := by
  obtain ⟨sound', stored, linked, pending, last⟩ :=
    walkBack_spec sound (periodEnd checker pindexPrev) [] trivial (by simp)
  simp only [getStateFor]
  generalize walkBack checker consensus cache (periodEnd checker pindexPrev) [] = r at *
  obtain ⟨cache', known, vToCompute⟩ := r
  simp only at sound' stored linked pending last ⊢
  have recur : ∀ p ∈ vToCompute, stateFor checker consensus (some p) =
      nextState checker consensus (stateFor checker consensus (periodBefore checker p)) p :=
    fun p member => stateFor_of_started checker consensus (pending p member)
  obtain ⟨soundForward, state⟩ :=
    Memo.forward_spec (periodBefore checker) some (nextState checker consensus) vToCompute known cache'
      sound' recur linked
  rw [stored, Option.getD_some]
  exact ⟨by rw [state, last]; rfl, soundForward⟩

def runQueries (checker : ThresholdConditionChecker) (consensus : Consensus.Params) :
    List (Option BlockRef) → ThresholdConditionCache → List ThresholdState
  | [], _ => []
  | pindexPrev :: rest, cache =>
    let (state, cache) := getStateFor checker consensus pindexPrev cache
    state :: runQueries checker consensus rest cache

theorem runQueries_of_sound :
    ∀ (queries : List (Option BlockRef)) (cache : ThresholdConditionCache),
      Memo.Sound (stateFor checker consensus) cache →
      runQueries checker consensus queries cache =
        queries.map fun pindexPrev => stateFor checker consensus (periodEnd checker pindexPrev)
  | [], _, _ => rfl
  | pindexPrev :: rest, cache, sound => by
    obtain ⟨answer, sound'⟩ := getStateFor_spec sound pindexPrev
    simp only [runQueries, List.map_cons, answer, runQueries_of_sound rest _ sound']

theorem getStateFor_run (queries : List (Option BlockRef)) :
    runQueries checker consensus queries (fun _ => none) =
      queries.map fun pindexPrev => stateFor checker consensus (periodEnd checker pindexPrev) :=
  runQueries_of_sound queries _ (Memo.sound_empty _)

end Cache

section Shortcut

variable {checker : ThresholdConditionChecker} {consensus : Consensus.Params}

theorem bip9State_some (p : BlockRef) :
    bip9State checker consensus (some p) =
      nextState checker consensus (bip9State checker consensus (periodBefore checker p)) p := by
  rw [bip9State]

theorem periodBefore_ordered (after : BlockRef.SwitchAfterSkip consensus) {p q : BlockRef}
    (ordered : BlockRef.TimeOrdered consensus p.chain) (found : periodBefore checker p = some q) :
    BlockRef.TimeOrdered consensus q.chain ∧
      q.getPastTimeLimit consensus ≤ p.getPastTimeLimit consensus :=
  ⟨ordered.getAncestor found, BlockRef.getPastTimeLimit_mono after ordered found⟩

theorem bip9State_of_early (after : BlockRef.SwitchAfterSkip consensus)
    (startsFirst : checker.beginTime ≤ checker.endTime) (pindexPrev : Option BlockRef)
    (early : ∀ p, pindexPrev = some p →
      BlockRef.TimeOrdered consensus p.chain ∧ p.getPastTimeLimit consensus < checker.beginTime) :
    bip9State checker consensus pindexPrev = .defined := by
  fun_induction bip9State checker consensus pindexPrev with
  | case1 => rfl
  | case2 p ih =>
    obtain ⟨ordered, before⟩ := early p rfl
    have previous : bip9State checker consensus (periodBefore checker p) = .defined := by
      apply ih
      intro q found
      obtain ⟨ordered', earlier⟩ := periodBefore_ordered after ordered found
      exact ⟨ordered', lt_of_le_of_lt earlier before⟩
    rw [previous, nextState, if_neg (by omega), if_neg (by omega)]

theorem stateFor_eq_bip9State (after : BlockRef.SwitchAfterSkip consensus)
    (startsFirst : checker.beginTime ≤ checker.endTime) (pindexPrev : Option BlockRef)
    (ordered : ∀ p, pindexPrev = some p → BlockRef.TimeOrdered consensus p.chain) :
    stateFor checker consensus pindexPrev = bip9State checker consensus pindexPrev := by
  fun_induction stateFor checker consensus pindexPrev with
  | case1 => rw [bip9State]
  | case2 p early =>
    exact (bip9State_of_early after startsFirst (some p)
      (fun q same => by cases same; exact ⟨ordered p rfl, early⟩)).symm
  | case3 p started ih =>
    rw [bip9State_some, ih (fun q found => (periodBefore_ordered after (ordered p rfl) found).1)]

theorem periodEnd_ordered {pindexPrev : Option BlockRef}
    (ordered : ∀ p, pindexPrev = some p → BlockRef.TimeOrdered consensus p.chain) :
    ∀ q, periodEnd checker pindexPrev = some q → BlockRef.TimeOrdered consensus q.chain := by
  intro q found
  cases pindexPrev with
  | none => cases found
  | some p => exact (ordered p rfl).getAncestor found

theorem getStateFor_run_bip9 (after : BlockRef.SwitchAfterSkip consensus)
    (startsFirst : checker.beginTime ≤ checker.endTime) (queries : List (Option BlockRef))
    (ordered : ∀ pindexPrev ∈ queries, ∀ p, pindexPrev = some p → BlockRef.TimeOrdered consensus p.chain) :
    runQueries checker consensus queries (fun _ => none) =
      queries.map fun pindexPrev => bip9State checker consensus (periodEnd checker pindexPrev) := by
  rw [runQueries_of_sound queries _ (Memo.sound_empty _)]
  apply List.map_congr_left
  intro pindexPrev member
  exact stateFor_eq_bip9State after startsFirst _ (periodEnd_ordered (ordered pindexPrev member))

def pairDeployment : Params where
  nRuleChangeActivationThreshold := 2
  nMinerConfirmationWindow := 2
  vDeployments _ := { bit := 28, nStartTime := 1712046620, nTimeout := 1712047000 }
  windowPositive := by decide

def signallingChain : Nat → BlockRef
  | 0 => ⟨⟨0x30000000, 1712046600⟩, []⟩
  | height + 1 => ⟨⟨0x30000000, 1712046610 + 10 * height.toUInt32⟩, (signallingChain height).chain⟩

-- the first period ends before the start, the next three are `STARTED`,
-- `LOCKED_IN` and `ACTIVE`
theorem bip9State_signallingChain :
    bip9State (versionBitsChecker pairDeployment .testdummy) mainParams.consensus
        (some (signallingChain 3)) = .started ∧
      bip9State (versionBitsChecker pairDeployment .testdummy) mainParams.consensus
        (some (signallingChain 5)) = .lockedIn ∧
      bip9State (versionBitsChecker pairDeployment .testdummy) mainParams.consensus
        (some (signallingChain 7)) = .active := by
  have first : bip9State (versionBitsChecker pairDeployment .testdummy) mainParams.consensus
      (some (signallingChain 1)) = .defined := by
    rw [bip9State_some, show periodBefore _ (signallingChain 1) = none by decide, bip9State]
    decide
  have second : bip9State (versionBitsChecker pairDeployment .testdummy) mainParams.consensus
      (some (signallingChain 3)) = .started := by
    rw [bip9State_some, show periodBefore _ (signallingChain 3) = some (signallingChain 1) by decide,
      first]
    decide
  have third : bip9State (versionBitsChecker pairDeployment .testdummy) mainParams.consensus
      (some (signallingChain 5)) = .lockedIn := by
    rw [bip9State_some, show periodBefore _ (signallingChain 5) = some (signallingChain 3) by decide,
      second]
    decide
  refine ⟨second, third, ?_⟩
  rw [bip9State_some, show periodBefore _ (signallingChain 7) = some (signallingChain 5) by decide, third]
  decide

theorem getStateFor_run_bip9_pair :
    runQueries (versionBitsChecker pairDeployment .testdummy) mainParams.consensus
        [some (signallingChain 7), some (signallingChain 4), some (signallingChain 6)] (fun _ => none) =
      [.active, .started, .lockedIn] := by
  rw [getStateFor_run_bip9 (by unfold BlockRef.SwitchAfterSkip; decide) (by decide) _ (by
    intro pindexPrev member p same
    simp only [List.mem_cons, List.not_mem_nil, or_false] at member
    rcases member with rfl | rfl | rfl <;> cases same <;> decide)]
  obtain ⟨started, lockedIn, active⟩ := bip9State_signallingChain
  simp only [List.map_cons, List.map_nil,
    show periodEnd (versionBitsChecker pairDeployment .testdummy) (some (signallingChain 7)) =
      some (signallingChain 7) by decide,
    show periodEnd (versionBitsChecker pairDeployment .testdummy) (some (signallingChain 4)) =
      some (signallingChain 3) by decide,
    show periodEnd (versionBitsChecker pairDeployment .testdummy) (some (signallingChain 6)) =
      some (signallingChain 5) by decide, started, lockedIn, active]

end Shortcut

section Safety

variable {checker : ThresholdConditionChecker} {consensus : Consensus.Params}

theorem getAncestor_of_periodBefore {p p' q : BlockRef} (found : periodBefore checker p = some p')
    {height : Int} (ancestor : p'.getAncestor height = some q) {k : Nat}
    (multiple : q.nHeight + k * checker.period = p'.nHeight) :
    p.getAncestor height = some q ∧ q.nHeight + (k + 1) * checker.period = p.nHeight := by
  obtain ⟨-, level, -⟩ := BlockRef.getAncestor_spec found
  obtain ⟨-, levelBelow, -⟩ := BlockRef.getAncestor_spec ancestor
  have below := BlockRef.nHeight_le_of_getAncestor ancestor
  refine ⟨?_, ?_⟩
  · rw [← BlockRef.getAncestor_getAncestor found (by omega), ancestor]
  · rw [Nat.add_one_mul]
    omega

theorem signalled_of_stateFor (pindexPrev : Option BlockRef)
    (locked : stateFor checker consensus pindexPrev = .lockedIn ∨
      stateFor checker consensus pindexPrev = .active) :
    ∃ p, pindexPrev = some p ∧ ∃ (height : Int) (q : BlockRef), p.getAncestor height = some q ∧
      (∃ k : Nat, q.nHeight + k * checker.period = p.nHeight) ∧
      checker.threshold ≤ countCondition checker checker.period (some q) ∧
      q.getPastTimeLimit consensus < checker.endTime := by
  fun_induction stateFor checker consensus pindexPrev with
  | case1 => simp at locked
  | case2 p early => simp at locked
  | case3 p started ih =>
    refine ⟨p, rfl, ?_⟩
    generalize previous : stateFor checker consensus (periodBefore checker p) = s at locked ih
    -- the state before is `STARTED` with enough signals, or already locked in
    cases s with
    | started =>
      simp only [nextState] at locked
      split_ifs at locked with timedOut counted
      · simp at locked
      · exact ⟨p.nHeight, p, p.getAncestor_self, ⟨0, by simp⟩, counted, by omega⟩
      · simp at locked
    | lockedIn | active =>
      obtain ⟨p', found, height, q, ancestor, ⟨k, multiple⟩, counted, inTime⟩ := ih (by simp)
      obtain ⟨reached, multiple'⟩ := getAncestor_of_periodBefore found ancestor multiple
      exact ⟨height, q, reached, ⟨k + 1, multiple'⟩, counted, inTime⟩
    | defined =>
      simp only [nextState] at locked
      split_ifs at locked <;> simp at locked
    | failed => simp [nextState] at locked

def quickDeployment : Params where
  nRuleChangeActivationThreshold := 1
  nMinerConfirmationWindow := 1
  vDeployments _ := { bit := 28, nStartTime := 1712046600, nTimeout := 1712046800 }
  windowPositive := by decide

theorem signalled_of_stateFor_quick :
    ∃ p, some (⟨⟨0x30000000, 1712046700⟩, [⟨0x30000000, 1712046600⟩]⟩ : BlockRef) = some p ∧
      ∃ (height : Int) (q : BlockRef), p.getAncestor height = some q ∧
        (∃ k : Nat, q.nHeight + k * (versionBitsChecker quickDeployment .testdummy).period = p.nHeight) ∧
        (versionBitsChecker quickDeployment .testdummy).threshold ≤
          countCondition (versionBitsChecker quickDeployment .testdummy)
            (versionBitsChecker quickDeployment .testdummy).period (some q) ∧
        q.getPastTimeLimit mainParams.consensus < (versionBitsChecker quickDeployment .testdummy).endTime :=
  @signalled_of_stateFor (versionBitsChecker quickDeployment .testdummy) mainParams.consensus _ (Or.inl (by
    -- two periods of one block: `STARTED` at the first, `LOCKED_IN` at the second
    rw [stateFor_some, if_neg (by decide),
      show periodBefore _ _ = some ⟨⟨0x30000000, 1712046600⟩, []⟩ by decide,
      stateFor_some, if_neg (by decide), show periodBefore _ _ = none by decide, stateFor]
    decide))

end Safety

/-- `VersionBitsCache`: one cache per deployment. -/
abbrev VersionBitsCache := DeploymentPos → ThresholdConditionCache

/-- `VersionBitsState`. -/
def versionBitsState (consensus : Consensus.Params) (pindexPrev : Option BlockRef) (params : Params)
    (pos : DeploymentPos) (cache : VersionBitsCache) : ThresholdState × VersionBitsCache :=
  let (state, updated) := getStateFor (versionBitsChecker params pos) consensus pindexPrev (cache pos)
  (state, Function.update cache pos updated)

/-- `ComputeBlockVersion`: the top bits, and the bit of every deployment that is
started or locked in. -/
def computeBlockVersion (consensus : Consensus.Params) (pindexPrev : Option BlockRef) (params : Params)
    (cache : VersionBitsCache) : Int32 × VersionBitsCache :=
  let (state, cache) := versionBitsState consensus pindexPrev params .testdummy cache
  let nVersion := VERSIONBITS_TOP_BITS
  let nVersion :=
    if state == .lockedIn || state == .started then nVersion ||| mask params .testdummy else nVersion
  (nVersion.toInt32, cache)

section Signalling

variable {consensus : Consensus.Params} {params : Params}

def CacheSound (consensus : Consensus.Params) (params : Params) (cache : VersionBitsCache) : Prop :=
  ∀ pos, Memo.Sound (stateFor (versionBitsChecker params pos) consensus) (cache pos)

theorem cacheSound_empty : CacheSound consensus params fun _ _ => none :=
  fun _ => Memo.sound_empty _

theorem versionBitsState_spec {cache : VersionBitsCache} (sound : CacheSound consensus params cache)
    (pindexPrev : Option BlockRef) (pos : DeploymentPos) :
    (versionBitsState consensus pindexPrev params pos cache).1 =
        stateFor (versionBitsChecker params pos) consensus
          (periodEnd (versionBitsChecker params pos) pindexPrev) ∧
      CacheSound consensus params (versionBitsState consensus pindexPrev params pos cache).2 := by
  obtain ⟨answer, sound'⟩ := getStateFor_spec (sound pos) pindexPrev
  refine ⟨answer, ?_⟩
  intro pos'
  cases pos
  cases pos'
  simpa [versionBitsState] using sound'

theorem computeBlockVersion_fst (pindexPrev : Option BlockRef) (cache : VersionBitsCache) :
    (computeBlockVersion consensus pindexPrev params cache).1 =
      let state := (versionBitsState consensus pindexPrev params .testdummy cache).1
      (if state == .lockedIn || state == .started then VERSIONBITS_TOP_BITS ||| mask params .testdummy
        else VERSIONBITS_TOP_BITS).toInt32 :=
  rfl

theorem computeBlockVersion_snd (pindexPrev : Option BlockRef) (cache : VersionBitsCache) :
    (computeBlockVersion consensus pindexPrev params cache).2 =
      (versionBitsState consensus pindexPrev params .testdummy cache).2 :=
  rfl

set_option maxRecDepth 4000 in
theorem condition_bits {pos : DeploymentPos}
    (inRange : (params.vDeployments pos).bit < VERSIONBITS_NUM_BITS) :
    ((VERSIONBITS_TOP_BITS ||| mask params pos) &&& VERSIONBITS_TOP_MASK == VERSIONBITS_TOP_BITS &&
        ((VERSIONBITS_TOP_BITS ||| mask params pos) &&& mask params pos) != 0) = true ∧
      VERSIONBITS_TOP_BITS &&& mask params pos = 0 := by
  have bits : ∀ b : Fin 29,
      ((VERSIONBITS_TOP_BITS ||| (1 : UInt32) <<< b.val.toUInt32) &&& VERSIONBITS_TOP_MASK ==
          VERSIONBITS_TOP_BITS &&
        ((VERSIONBITS_TOP_BITS ||| (1 : UInt32) <<< b.val.toUInt32) &&&
          (1 : UInt32) <<< b.val.toUInt32) != 0) = true ∧
      VERSIONBITS_TOP_BITS &&& (1 : UInt32) <<< b.val.toUInt32 = 0 := by
    decide
  exact bits ⟨_, inRange⟩

theorem condition_of_version (inRange : (params.vDeployments .testdummy).bit < VERSIONBITS_NUM_BITS)
    (state : ThresholdState) (block : BlockRef)
    (built : block.entry.nVersion =
      (if state == .lockedIn || state == .started then VERSIONBITS_TOP_BITS ||| mask params .testdummy
        else VERSIONBITS_TOP_BITS).toInt32) :
    (versionBitsChecker params .testdummy).condition block = (state == .lockedIn || state == .started) := by
  obtain ⟨signal, silent⟩ := condition_bits inRange
  simp only [versionBitsChecker, built, UInt32.toUInt32_toInt32]
  -- the top bits pass the mask test, so the bit alone decides
  have top : VERSIONBITS_TOP_BITS &&& VERSIONBITS_TOP_MASK = VERSIONBITS_TOP_BITS := by decide
  cases state <;> simp [signal, silent, top]

/-- The versions of a sequence of `ComputeBlockVersion` calls sharing one cache. -/
def blockVersions (consensus : Consensus.Params) (params : Params) :
    List (Option BlockRef) → VersionBitsCache → List Int32
  | [], _ => []
  | pindexPrev :: rest, cache =>
    let (nVersion, cache) := computeBlockVersion consensus pindexPrev params cache
    nVersion :: blockVersions consensus params rest cache

theorem condition_blockVersions_of_sound
    (inRange : (params.vDeployments .testdummy).bit < VERSIONBITS_NUM_BITS) :
    ∀ (queries : List (Option BlockRef)) (cache : VersionBitsCache), CacheSound consensus params cache →
      ∀ pindexPrev nVersion, (pindexPrev, nVersion) ∈ queries.zip (blockVersions consensus params queries cache) →
        ∀ block : BlockRef, block.entry.nVersion = nVersion →
          let state := stateFor (versionBitsChecker params .testdummy) consensus
            (periodEnd (versionBitsChecker params .testdummy) pindexPrev)
          (versionBitsChecker params .testdummy).condition block = (state == .lockedIn || state == .started)
  | [], _, _ => by simp
  | query :: rest, cache, sound => by
    intro pindexPrev nVersion member block built
    obtain ⟨answer, sound'⟩ := versionBitsState_spec sound query .testdummy
    rw [blockVersions, List.zip_cons_cons, List.mem_cons] at member
    rcases member with now | later
    · obtain ⟨rfl, rfl⟩ := Prod.mk.inj now
      rw [← answer]
      exact condition_of_version inRange _ block (by rw [built, computeBlockVersion_fst])
    · rw [← computeBlockVersion_snd] at sound'
      exact condition_blockVersions_of_sound inRange rest _ sound' pindexPrev nVersion later block built

theorem condition_blockVersions (inRange : (params.vDeployments .testdummy).bit < VERSIONBITS_NUM_BITS)
    (queries : List (Option BlockRef)) {pindexPrev : Option BlockRef} {nVersion : Int32}
    (member : (pindexPrev, nVersion) ∈ queries.zip (blockVersions consensus params queries fun _ _ => none))
    (block : BlockRef) (built : block.entry.nVersion = nVersion) :
    let state := stateFor (versionBitsChecker params .testdummy) consensus
      (periodEnd (versionBitsChecker params .testdummy) pindexPrev)
    (versionBitsChecker params .testdummy).condition block = (state == .lockedIn || state == .started) :=
  condition_blockVersions_of_sound inRange queries _ cacheSound_empty pindexPrev nVersion member block built

theorem condition_blockVersions_pair :
    stateFor (versionBitsChecker pairDeployment .testdummy) mainParams.consensus
        (periodEnd (versionBitsChecker pairDeployment .testdummy) (some (signallingChain 4))) = .started ∧
      (versionBitsChecker pairDeployment .testdummy).condition
        ⟨⟨(computeBlockVersion mainParams.consensus (some (signallingChain 4)) pairDeployment
            (computeBlockVersion mainParams.consensus (some (signallingChain 7)) pairDeployment
              fun _ _ => none).2).1, 1712046650⟩, (signallingChain 4).chain⟩ = true := by
  have started : stateFor (versionBitsChecker pairDeployment .testdummy) mainParams.consensus
      (periodEnd (versionBitsChecker pairDeployment .testdummy) (some (signallingChain 4))) = .started := by
    rw [show periodEnd (versionBitsChecker pairDeployment .testdummy) (some (signallingChain 4)) =
        some (signallingChain 3) by decide,
      stateFor_some, if_neg (by decide),
      show periodBefore _ (signallingChain 3) = some (signallingChain 1) by decide,
      stateFor_some, if_pos (by decide)]
    decide
  have signals := @condition_blockVersions mainParams.consensus pairDeployment (by decide)
    [some (signallingChain 7), some (signallingChain 4)] (some (signallingChain 4))
    (computeBlockVersion mainParams.consensus (some (signallingChain 4)) pairDeployment
      (computeBlockVersion mainParams.consensus (some (signallingChain 7)) pairDeployment
        fun _ _ => none).2).1
    (by simp [blockVersions]) ⟨⟨_, 1712046650⟩, (signallingChain 4).chain⟩ rfl
  refine ⟨started, ?_⟩
  rw [signals, started]
  rfl

end Signalling

end VersionBits

end Gaiacoin
