import Gaiacoin.Coins.View
import Gaiacoin.Serialize.Transaction
import Gaiacoin.Shared.ErrorState

set_option autoImplicit false

/-!
# Block undo data

`UpdateCoins` spends a transaction's inputs and adds its outputs, recording for
every spent input the output it removed and, when that spend left the previous
transaction with no output, the previous transaction's metadata. `ConnectBlock`
collects these records for every transaction but the coinbase, and
`DisconnectBlock` uses them to go back: from the last transaction to the first,
it checks the transaction's outputs against the block, removes them, and then
puts the spent outputs back with `ApplyTxInUndo`, last input first.
-/

namespace Gaiacoin

structure CTxInUndo where
  txout : CTxOut
  fCoinBase : Bool
  fCoinStake : Bool
  nHeight : UInt32
  nVersion : Int32
  nTime : UInt32
  deriving DecidableEq

/-- `CTxInUndo(txoutIn)`: the metadata left at zero. -/
def CTxInUndo.ofTxOut (txout : CTxOut) : CTxInUndo := ⟨txout, false, false, 0, 0, 0⟩

structure CTxUndo where
  vprevout : List CTxInUndo
  deriving DecidableEq

structure CBlockUndo where
  vtxundo : List CTxUndo
  deriving DecidableEq

/-- The undo record of a spent output `txout`, given the coins the spend left:
when `vout` is empty the record also carries the metadata. -/
def CTxInUndo.ofSpend (txout : CTxOut) (spent : CCoins) : CTxInUndo :=
  if spent.vout.length = 0 then
    { CTxInUndo.ofTxOut txout with
      nHeight := spent.nHeight.toUInt32, fCoinBase := spent.fCoinBase,
      fCoinStake := spent.fCoinStake, nVersion := spent.nVersion, nTime := spent.nTime }
  else CTxInUndo.ofTxOut txout

/-- One input: `ModifyCoins`, the `assert` that the output is there, its undo
record, and `Spend`. -/
def spendInput (inputs : CoinsView) (txin : CTxIn) : Checked (CTxInUndo × CoinsView) :=
  let coins := inputs.get txin.prevout.hash
  let nPos := txin.prevout.n.toNat
  match coins.vout[nPos]? with
  | none => throw .assertion
  | some txout =>
    if txout.isNull then throw .assertion
    else
      pure (CTxInUndo.ofSpend txout (coins.spend nPos).2,
        inputs.modifyCoins txin.prevout.hash fun coins => (coins.spend nPos).2)

def spendInputs (inputs : CoinsView) : List CTxIn → Checked (List CTxInUndo × CoinsView)
  | [] => pure ([], inputs)
  | txin :: rest => do
      let (undo, inputs) ← spendInput inputs txin
      let (undos, inputs) ← spendInputs inputs rest
      pure (undo :: undos, inputs)

def markInputsSpent (tx : CTransaction) (inputs : CoinsView) : Checked (List CTxInUndo × CoinsView) :=
  if tx.isCoinBase then pure ([], inputs) else spendInputs inputs tx.vin

/-- "add outputs": `ModifyNewCoins(tx.GetHash(), tx.IsCoinBase())->FromTx(tx, nHeight)`. -/
def addOutputs (tx : CTransaction) (nHeight : Int32) (inputs : CoinsView) : CoinsView :=
  inputs.modifyNewCoins tx.getHash fun _ => CCoins.fromTx tx nHeight

def updateCoins (tx : CTransaction) (inputs : CoinsView) (nHeight : Int32) :
    Checked (CTxUndo × CoinsView) := do
  let (vprevout, inputs) ← markInputsSpent tx inputs
  pure (⟨vprevout⟩, addOutputs tx nHeight inputs)

/-- `UpdateCoins` over transactions whose undo data is kept. -/
def updateCoinsEach (nHeight : Int32) (view : CoinsView) :
    List CTransaction → Checked (List CTxUndo × CoinsView)
  | [] => pure ([], view)
  | tx :: rest => do
      let (txundo, view) ← updateCoins tx view nHeight
      let (undos, view) ← updateCoinsEach nHeight view rest
      pure (txundo :: undos, view)

/-- The `UpdateCoins` calls of `ConnectBlock`'s loop: the first transaction's
undo data goes to `undoDummy`, every other one's to `blockundo.vtxundo`. -/
def updateCoinsBlock (nHeight : Int32) (view : CoinsView) :
    List CTransaction → Checked (CBlockUndo × CoinsView)
  | [] => pure (⟨[]⟩, view)
  | tx :: rest => do
      let (_, view) ← updateCoins tx view nHeight
      let (undos, view) ← updateCoinsEach nHeight view rest
      pure (⟨undos⟩, view)

/-- The side conditions of a run of `UpdateCoins`: every input is available
when its transaction is reached, and a transaction's id has no unspent output
once its inputs are spent. -/
def applicable (nHeight : Int32) : CoinsView → List CTransaction → Bool
  | _, [] => true
  | view, tx :: rest =>
    match markInputsSpent tx view with
    | .ok (_, spent) =>
      (spent.get tx.getHash).isPruned && applicable nHeight (addOutputs tx nHeight spent) rest
    | .error _ => false

def applyTxInUndo (undo : CTxInUndo) (view : CoinsView) (out : COutPoint) :
    Checked (Bool × CoinsView) :=
  let coins := view.get out.hash
  -- undo data with a height: the last output of the transaction comes back
  let (fClean, coins) :=
    if undo.nHeight ≠ 0 then
      (coins.isPruned,
        { CCoins.empty with
          fCoinBase := undo.fCoinBase, fCoinStake := undo.fCoinStake,
          nHeight := undo.nHeight.toInt32, nVersion := undo.nVersion, nTime := undo.nTime })
    else (!coins.isPruned, coins)
  let fClean := fClean && !coins.isAvailable out.n.toNat
  -- `vout.size() < out.n+1`, the bound computed in `uint32_t`
  let vout := Trim.padTo CTxOut.setNull (out.n + 1).toNat coins.vout
  if out.n.toNat < vout.length then
    pure (fClean, view.set out.hash { coins with vout := vout.set out.n.toNat undo.txout }.cleanup)
  else throw .outOfRange

def restoreInputs (view : CoinsView) : List (CTxInUndo × CTxIn) → Checked (Bool × CoinsView)
  | [] => pure (true, view)
  | (undo, txin) :: rest => do
      let (fClean, view) ← restoreInputs view rest
      let (applied, view) ← applyTxInUndo undo view txin.prevout
      pure (fClean && applied, view)

def disconnectOutputs (tx : CTransaction) (nHeight : Int32) (view : CoinsView) :
    Bool × CoinsView :=
  let hash := tx.getHash
  let outs := (view.get hash).clearUnspendable
  let outsBlock := CCoins.fromTx tx nHeight
  -- the `CCoins` serialization cannot keep a negative version: it is taken from the block
  let outs := if outsBlock.nVersion < 0 then { outs with nVersion := outsBlock.nVersion } else outs
  (outs.equals outsBlock, view.modifyCoins hash fun _ => CCoins.empty)

/-- The loop of `DisconnectBlock`, over the transactions from the last to the
first, each with its undo data (none for the coinbase at index 0). -/
def disconnectLoop (nHeight : Int32) (fClean : Bool) (view : CoinsView) :
    List (CTransaction × Option CTxUndo) → Checked (Bool × CoinsView)
  | [] => pure (fClean, view)
  | (tx, txundo) :: rest =>
    let (outsClean, view) := disconnectOutputs tx nHeight view
    let fClean := fClean && outsClean
    match txundo with
    | none => disconnectLoop nHeight fClean view rest
    | some txundo =>
      if txundo.vprevout.length ≠ tx.vin.length then pure (false, view)
      else do
        let (inputsClean, view) ← restoreInputs view (txundo.vprevout.zip tx.vin)
        disconnectLoop nHeight (fClean && inputsClean) view rest

/-- `DisconnectBlock` with its undo data read, returning `fClean` (or `false`
on an early error) and the view. -/
def disconnectBlock (vtx : List CTransaction) (blockUndo : CBlockUndo) (nHeight : Int32)
    (view : CoinsView) : Checked (Bool × CoinsView) :=
  if blockUndo.vtxundo.length + 1 ≠ vtx.length then pure (false, view)
  else disconnectLoop nHeight true view (vtx.zip (none :: blockUndo.vtxundo.map some)).reverse

theorem spendInput_eq_ok {inputs : CoinsView} {txin : CTxIn} {undo : CTxInUndo}
    {inputs' : CoinsView} (h : spendInput inputs txin = .ok (undo, inputs')) :
    ∃ txout, (inputs.get txin.prevout.hash).vout[txin.prevout.n.toNat]? = some txout ∧
      txout.isNull = false ∧
      undo = CTxInUndo.ofSpend txout ((inputs.get txin.prevout.hash).spend txin.prevout.n.toNat).2 ∧
      inputs' = inputs.set txin.prevout.hash
        ((inputs.get txin.prevout.hash).spend txin.prevout.n.toNat).2 := by
  unfold spendInput at h
  dsimp only at h
  split at h
  next => cases h
  next txout found =>
    split at h
    next => cases h
    next unspent =>
      simp only [pure, Except.pure, Except.ok.injEq, Prod.mk.injEq] at h
      obtain ⟨rfl, rfl⟩ := h
      refine ⟨txout, found, by simpa using unspent, rfl, ?_⟩
      have available :
          (inputs.get txin.prevout.hash).isAvailable txin.prevout.n.toNat = true := by
        simp [CCoins.isAvailable, found, unspent]
      simp [CoinsView.modifyCoins, CCoins.spend_of_isAvailable available]

theorem available_of_found {coins : CCoins} {nPos : Nat} {txout : CTxOut}
    (found : coins.vout[nPos]? = some txout) (unspent : txout.isNull = false) :
    coins.isAvailable nPos = true := by
  simp [CCoins.isAvailable, found, unspent]

theorem CoinsView.Stored.spendInput {inputs : CoinsView} (stored : inputs.Stored) {txin : CTxIn}
    {undo : CTxInUndo} {inputs' : CoinsView} (h : spendInput inputs txin = .ok (undo, inputs')) :
    inputs'.Stored := by
  obtain ⟨txout, found, unspent, -, rfl⟩ := spendInput_eq_ok h
  have available := available_of_found found unspent
  apply stored.set
  · exact (stored.canonical _).spend _
  · intro _
    -- `Spend` keeps the height of an entry that still had this output
    rw [CCoins.spend_of_isAvailable available]
    exact stored.height _ (CCoins.isPruned_eq_false_of_isAvailable available)

theorem applyTxInUndo_ofSpend {coins : CCoins} (canonical : coins.Canonical)
    (height : 0 < coins.nHeight) {out : COutPoint} {txout : CTxOut}
    (found : coins.vout[out.n.toNat]? = some txout) (unspent : txout.isNull = false)
    {view : CoinsView} (same : (view.get out.hash).equals (coins.spend out.n.toNat).2 = true) :
    applyTxInUndo (CTxInUndo.ofSpend txout (coins.spend out.n.toNat).2) view out =
      .ok (true, view.set out.hash coins) := by
  obtain ⟨inside, rfl⟩ := List.getElem?_eq_some_iff.1 found
  have available := available_of_found found unspent
  have spent : (coins.spend out.n.toNat).2 = { coins with
      vout := (coins.vout.set out.n.toNat CTxOut.setNull).rdropWhile CTxOut.isNull } := by
    simp [CCoins.spend_of_isAvailable available, CCoins.cleanup]
  -- `out.n + 1` does not wrap: the output has an index below `vout.size() < 2^32`
  have bound : (out.n + 1).toNat = out.n.toNat + 1 := by
    have := canonical.indexed
    rw [UInt32.toNat_add]
    simp
    omega
  have padded := Trim.padTo_rdropWhile_set canonical.trimmed inside
  have gone := CCoins.isAvailable_spend coins out.n.toNat
  have back : { (coins.spend out.n.toNat).2 with vout := coins.vout } = coins := by
    rw [spent]
  by_cases emptied : (coins.vout.set out.n.toNat CTxOut.setNull).rdropWhile CTxOut.isNull = []
  · -- the spend emptied the entry: the undo record carries the metadata
    have pruned : (view.get out.hash).isPruned = true :=
      CCoins.isPruned_of_equals same (by simp [spent, emptied, CCoins.isPruned])
    have nonzero : coins.nHeight.toUInt32 ≠ 0 := by
      intro zero
      have := congrArg UInt32.toInt32 zero
      rw [Int32.toInt32_toUInt32] at this
      rw [this] at height
      cases height
    rw [emptied] at padded
    simp [applyTxInUndo, CTxInUndo.ofSpend, spent, emptied, nonzero, pruned, bound, padded,
      inside, CCoins.isAvailable, CTxInUndo.ofTxOut]
    exact congrArg (view.set out.hash) (CCoins.cleanup_of_canonical canonical)
  · -- outputs remain: the view holds the spent entry itself
    have spentVout : (coins.spend out.n.toNat).2.vout =
        (coins.vout.set out.n.toNat CTxOut.setNull).rdropWhile CTxOut.isNull := by
      rw [spent]
    have notPruned : (coins.spend out.n.toNat).2.isPruned = false := by
      rw [← Bool.not_eq_true, (canonical.spend out.n.toNat).isPruned_iff, spentVout]
      exact emptied
    have kept : view.get out.hash = (coins.spend out.n.toNat).2 :=
      CCoins.eq_of_equals same notPruned
    have nonempty : (coins.spend out.n.toNat).2.vout.length ≠ 0 := by
      rw [spentVout]
      simpa using emptied
    rw [CTxInUndo.ofSpend, if_neg nonempty]
    simp [applyTxInUndo, kept, notPruned, gone, bound, spentVout, padded, inside, CTxInUndo.ofTxOut]
    rw [back, CCoins.cleanup_of_canonical canonical]

theorem spendInputs_undone (vin : List CTxIn) :
    ∀ {inputs : CoinsView}, inputs.Stored → ∀ {undos : List CTxInUndo} {spent : CoinsView},
      spendInputs inputs vin = .ok (undos, spent) →
      spent.Stored ∧ undos.length = vin.length ∧
        ∀ view : CoinsView, view.Same spent →
          ∃ restored, restoreInputs view (undos.zip vin) = .ok (true, restored) ∧
            restored.Same inputs := by
  induction vin with
  | nil =>
    intro inputs stored undos spent h
    simp only [spendInputs, pure, Except.pure, Except.ok.injEq, Prod.mk.injEq] at h
    obtain ⟨rfl, rfl⟩ := h
    exact ⟨stored, rfl, fun view same => ⟨view, rfl, same⟩⟩
  | cons txin rest ih =>
    intro inputs stored undos spent h
    obtain ⟨⟨undo, middle⟩, first, h⟩ := Checked.bind_eq_ok h
    obtain ⟨⟨undos', spent'⟩, later, h⟩ := Checked.bind_eq_ok h
    simp only [pure, Except.pure, Except.ok.injEq, Prod.mk.injEq] at h
    obtain ⟨rfl, rfl⟩ := h
    have middleStored := stored.spendInput first
    obtain ⟨spentStored, length, restore⟩ := ih middleStored later
    refine ⟨spentStored, by simp [length], fun view same => ?_⟩
    -- the later inputs are put back first, then this one
    obtain ⟨restored, restoredRest, restoredSame⟩ := restore view same
    obtain ⟨txout, found, unspent, rfl, rfl⟩ := spendInput_eq_ok first
    have notPruned := CCoins.isPruned_eq_false_of_isAvailable (available_of_found found unspent)
    have here : (restored.get txin.prevout.hash).equals
        ((inputs.get txin.prevout.hash).spend txin.prevout.n.toNat).2 = true := by
      simpa using restoredSame txin.prevout.hash
    have applied := applyTxInUndo_ofSpend (stored.canonical _) (stored.height _ notPruned)
      found unspent here
    refine ⟨restored.set txin.prevout.hash (inputs.get txin.prevout.hash), ?_, ?_⟩
    · simp [restoreInputs, restoredRest, applied]
    · exact restoredSame.set_of_same_set (CCoins.equals_refl _)

theorem applicable_cons {nHeight : Int32} {view : CoinsView} {tx : CTransaction}
    {rest : List CTransaction} (h : applicable nHeight view (tx :: rest) = true) :
    ∃ vprevout spent, markInputsSpent tx view = .ok (vprevout, spent) ∧
      (spent.get tx.getHash).isPruned = true ∧
      applicable nHeight (addOutputs tx nHeight spent) rest = true := by
  simp only [applicable] at h
  split at h
  next vprevout spent marked =>
    rw [Bool.and_eq_true] at h
    exact ⟨vprevout, spent, marked, h.1, h.2⟩
  next => cases h

theorem addOutputs_eq {tx : CTransaction} {nHeight : Int32} (view : CoinsView)
    (canonical : (CCoins.fromTx tx nHeight).Canonical) :
    addOutputs tx nHeight view = view.set tx.getHash (CCoins.fromTx tx nHeight) := by
  simp [addOutputs, CoinsView.modifyNewCoins, CCoins.cleanup_of_canonical canonical]

theorem disconnectOutputs_addOutputs {tx : CTransaction} {nHeight : Int32}
    (canonical : (CCoins.fromTx tx nHeight).Canonical) {spent view : CoinsView}
    (fresh : (spent.get tx.getHash).isPruned = true)
    (same : view.Same (addOutputs tx nHeight spent)) :
    (disconnectOutputs tx nHeight view).1 = true ∧
      (disconnectOutputs tx nHeight view).2.Same spent := by
  rw [addOutputs_eq spent canonical] at same
  have here := same tx.getHash
  rw [CoinsView.get_set_self] at here
  constructor
  · by_cases pruned : (CCoins.fromTx tx nHeight).isPruned
    · -- pruned outputs: what the view holds there is pruned too, and stays so
      have cleared := CCoins.clearUnspendable_vout_of_isPruned (CCoins.isPruned_of_equals here pruned)
      simp only [disconnectOutputs]
      apply CCoins.equals_of_isPruned _ pruned
      split <;> simp [CCoins.isPruned, cleared]
    · have kept := CCoins.eq_of_equals here (by simpa using pruned)
      simp only [disconnectOutputs, kept,
        CCoins.clearUnspendable_of_canonical canonical (CCoins.fromTx_spendable tx nHeight)]
      split <;> exact CCoins.equals_refl _
  · exact same.set_of_same_set (CCoins.equals_of_isPruned rfl fresh)

theorem CoinsView.Stored.addOutputs {view : CoinsView} (stored : view.Stored) {tx : CTransaction}
    {nHeight : Int32} (positive : 0 < nHeight) (canonical : (CCoins.fromTx tx nHeight).Canonical) :
    (Gaiacoin.addOutputs tx nHeight view).Stored := by
  rw [addOutputs_eq view canonical]
  exact stored.set _ canonical fun _ => positive

theorem updateCoinsEach_undone {nHeight : Int32} (positive : 0 < nHeight) (vtx : List CTransaction) :
    ∀ {view : CoinsView}, view.Stored → (∀ tx ∈ vtx, tx.isCoinBase = false) →
      (∀ tx ∈ vtx, (CCoins.fromTx tx nHeight).Canonical) → applicable nHeight view vtx = true →
      ∃ undos connected, updateCoinsEach nHeight view vtx = .ok (undos, connected) ∧
        undos.length = vtx.length ∧
        ∀ (w : CoinsView) (fClean : Bool) (tail : List (CTransaction × Option CTxUndo)),
          w.Same connected → ∃ restored, restored.Same view ∧
            disconnectLoop nHeight fClean w ((vtx.zip (undos.map some)).reverse ++ tail) =
              disconnectLoop nHeight fClean restored tail := by
  induction vtx with
  | nil =>
    intro view stored _ _ _
    refine ⟨[], view, rfl, rfl, fun w fClean tail same => ⟨w, same, rfl⟩⟩
  | cons tx rest ih =>
    intro view stored notCoinbase canonical runs
    obtain ⟨vprevout, spent, marked, fresh, later⟩ := applicable_cons runs
    have ordinary := notCoinbase tx (by simp)
    simp only [markInputsSpent, ordinary, Bool.false_eq_true, ↓reduceIte] at marked
    obtain ⟨spentStored, length, restore⟩ := spendInputs_undone tx.vin stored marked
    have txCanonical := canonical tx (by simp)
    obtain ⟨undos, connected, each, undosLength, back⟩ :=
      ih (spentStored.addOutputs positive txCanonical)
        (fun other member => notCoinbase other (by simp [member]))
        (fun other member => canonical other (by simp [member])) later
    refine ⟨⟨vprevout⟩ :: undos, connected, ?_, by simp [undosLength], ?_⟩
    · simp [updateCoinsEach, updateCoins, markInputsSpent, ordinary, marked, each]
    · intro w fClean tail same
      -- the later transactions are undone first, down to the view after `tx`
      obtain ⟨afterTx, afterSame, loopRest⟩ := back w fClean ((tx, some ⟨vprevout⟩) :: tail) same
      obtain ⟨outsClean, outsSame⟩ := disconnectOutputs_addOutputs txCanonical fresh afterSame
      obtain ⟨restored, restoredInputs, restoredSame⟩ := restore _ outsSame
      refine ⟨restored, restoredSame, ?_⟩
      simp only [List.map_cons, List.zip_cons_cons, List.reverse_cons, List.append_assoc,
        List.singleton_append]
      rw [loopRest, disconnectLoop]
      simp [outsClean, length, restoredInputs]

theorem disconnectBlock_restores_view (view : CoinsView) (stored : view.Stored) (nHeight : Int32)
    (positive : 0 < nHeight) (coinbase : CTransaction) (rest : List CTransaction)
    (isCoinBase : coinbase.isCoinBase = true) (onlyCoinbase : ∀ tx ∈ rest, tx.isCoinBase = false)
    (values : ∀ tx ∈ coinbase :: rest, ∀ out ∈ tx.vout, 0 ≤ out.nValue)
    (counts : ∀ tx ∈ coinbase :: rest, tx.vout.length < 2 ^ 32)
    (runs : applicable nHeight view (coinbase :: rest) = true) :
    ∃ blockUndo connected,
      updateCoinsBlock nHeight view (coinbase :: rest) = .ok (blockUndo, connected) ∧
      ∃ restored, disconnectBlock (coinbase :: rest) blockUndo nHeight connected = .ok (true, restored) ∧
        restored.Same view := by
  have canonical : ∀ tx ∈ coinbase :: rest, (CCoins.fromTx tx nHeight).Canonical :=
    fun tx member => CCoins.fromTx_canonical tx nHeight (values tx member) (counts tx member)
  obtain ⟨vprevout, spent, marked, fresh, later⟩ := applicable_cons runs
  -- the coinbase spends nothing
  simp only [markInputsSpent, isCoinBase, ↓reduceIte, pure, Except.pure, Except.ok.injEq,
    Prod.mk.injEq] at marked
  obtain ⟨rfl, rfl⟩ := marked
  have cbCanonical := canonical coinbase (by simp)
  obtain ⟨undos, connected, each, undosLength, back⟩ :=
    updateCoinsEach_undone positive rest (stored.addOutputs positive cbCanonical) onlyCoinbase
      (fun tx member => canonical tx (by simp [member])) later
  refine ⟨⟨undos⟩, connected, ?_, ?_⟩
  · simp [updateCoinsBlock, updateCoins, markInputsSpent, isCoinBase, each]
  · obtain ⟨afterRest, afterSame, loopRest⟩ :=
      back connected true [(coinbase, none)] (CoinsView.Same.refl _)
    obtain ⟨outsClean, outsSame⟩ := disconnectOutputs_addOutputs cbCanonical fresh afterSame
    refine ⟨(disconnectOutputs coinbase nHeight afterRest).2, ?_, outsSame⟩
    have order : ((coinbase :: rest).zip (none :: undos.map some)).reverse =
        (rest.zip (undos.map some)).reverse ++ [(coinbase, none)] := by
      simp
    simp only [disconnectBlock, List.length_cons, undosLength, ne_eq, not_true_eq_false,
      ↓reduceIte]
    rw [order, loopRest]
    simp [disconnectLoop, outsClean]

/-- A coinbase with one `OP_RETURN` output. -/
def coinbaseOpReturn : CTransaction :=
  ⟨1, 0, [⟨⟨Uint256.zero, 0xffffffff⟩, [0x01, 0x01], 0xffffffff⟩], [⟨0, [0x6a]⟩], 0⟩

def outpointKey : Uint256 := ⟨List.replicate 31 0 ++ [1], rfl⟩

def previousTx : CTransaction := ⟨1, 0, [⟨⟨outpointKey, 0⟩, [], 0xffffffff⟩], [⟨coin, [0x51]⟩], 0⟩

def spendPrevious : CTransaction :=
  ⟨1, 0, [⟨⟨previousTx.getHash, 0⟩, [], 0xffffffff⟩], [⟨coin, [0x51]⟩], 0⟩

set_option maxRecDepth 100000 in
theorem disconnectBlock_restores_view_spend :
    ∃ blockUndo connected,
      updateCoinsBlock 1 (CoinsView.empty.set previousTx.getHash (CCoins.fromTx previousTx 1))
          [coinbaseOpReturn, spendPrevious] = .ok (blockUndo, connected) ∧
      ∃ restored, disconnectBlock [coinbaseOpReturn, spendPrevious] blockUndo 1 connected =
          .ok (true, restored) ∧
        restored.Same (CoinsView.empty.set previousTx.getHash (CCoins.fromTx previousTx 1)) :=
  disconnectBlock_restores_view _
    (CoinsView.stored_empty.set _ (CCoins.fromTx_canonical _ _ (by decide) (by decide))
      fun _ => by decide)
    1 (by decide) coinbaseOpReturn [spendPrevious] (by decide +kernel) (by decide +kernel)
    (by decide) (by decide) (by decide +kernel)

def secondCoinbase : CTransaction :=
  ⟨1, 0, [⟨⟨Uint256.zero, 0xffffffff⟩, [0x01, 0x02], 0xffffffff⟩], [⟨0, [0x6a]⟩], 0⟩

def coinbasePaying : CTransaction :=
  ⟨1, 0, [⟨⟨Uint256.zero, 0xffffffff⟩, [0x01, 0x01], 0xffffffff⟩], [⟨coin, [0x51]⟩], 0⟩

def spendCoinbase : CTransaction :=
  ⟨1, 0, [⟨⟨coinbasePaying.getHash, 0⟩, [], 0xffffffff⟩], [⟨coin, [0x51]⟩], 0⟩

def coinbaseNegative : CTransaction :=
  ⟨1, 0, [⟨⟨Uint256.zero, 0xffffffff⟩, [0x01, 0x01], 0xffffffff⟩], [⟨-1, [0x51]⟩, ⟨coin, [0x51]⟩], 0⟩

def spendCoinbaseNegative : CTransaction :=
  ⟨1, 0, [⟨⟨coinbaseNegative.getHash, 1⟩, [], 0xffffffff⟩], [⟨coin, [0x51]⟩], 0⟩

def trailingSpent : CCoins := ⟨false, false, [⟨coin, [0x51]⟩, CTxOut.setNull], 1, 1, 0⟩

def spendOutpointKey : CTransaction :=
  ⟨1, 0, [⟨⟨outpointKey, 0⟩, [], 0xffffffff⟩], [⟨coin, [0x51]⟩], 0⟩

theorem heights_set_empty {txid : Uint256} {coins : CCoins} (height : 0 < coins.nHeight) :
    ∀ other found, (CoinsView.empty.set txid coins).accessCoins other = some found →
      0 < found.nHeight := by
  intro other found present
  simp only [CoinsView.accessCoins, CoinsView.set, CoinsView.empty, Function.update_apply] at present
  split at present
  · cases present
    exact height
  · cases present

set_option maxRecDepth 100000 in
theorem updateCoinsBlock_disconnect_counterexample :
    -- a second coinbase: its undo data has no record for its input
    (applicable 1 CoinsView.empty [coinbaseOpReturn, secondCoinbase] = true ∧
      (updateCoinsBlock 1 CoinsView.empty [coinbaseOpReturn, secondCoinbase] >>= fun r =>
        disconnectBlock [coinbaseOpReturn, secondCoinbase] r.1 1 r.2).map Prod.fst = .ok false) ∧
    -- a null output that `CheckTransaction` would reject comes back as `CTxOut()`
    (applicable 1 CoinsView.empty [coinbaseNegative, spendCoinbaseNegative] = true ∧
      (updateCoinsBlock 1 CoinsView.empty [coinbaseNegative, spendCoinbaseNegative] >>= fun r =>
        disconnectBlock [coinbaseNegative, spendCoinbaseNegative] r.1 1 r.2).map
          Prod.fst = .ok false) ∧
    -- a block at height 0: the record of the last spend carries no height
    (applicable 0 CoinsView.empty [coinbasePaying, spendCoinbase] = true ∧
      (updateCoinsBlock 0 CoinsView.empty [coinbasePaying, spendCoinbase] >>= fun r =>
        disconnectBlock [coinbasePaying, spendCoinbase] r.1 0 r.2).map Prod.fst = .ok false) ∧
    -- an entry of the view that ends in a spent output comes back trimmed
    ((∀ txid found, (CoinsView.empty.set outpointKey trailingSpent).accessCoins txid = some found →
        0 < found.nHeight) ∧
      applicable 1 (CoinsView.empty.set outpointKey trailingSpent)
        [coinbaseOpReturn, spendOutpointKey] = true ∧
      (updateCoinsBlock 1 (CoinsView.empty.set outpointKey trailingSpent)
          [coinbaseOpReturn, spendOutpointKey] >>= fun r =>
        disconnectBlock [coinbaseOpReturn, spendOutpointKey] r.1 1 r.2).map
          (fun r => (r.1, (r.2.get outpointKey).equals trailingSpent)) = .ok (true, false)) :=
  ⟨by decide +kernel, by decide +kernel, by decide +kernel,
    ⟨heights_set_empty (by decide), by decide +kernel, by decide +kernel⟩⟩

end Gaiacoin
