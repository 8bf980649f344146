import DrcNode.Chain.Sanity
import DrcNode.Library.KeyLoop

/-!
# Unspent transaction outputs

The database keeps the unspent outputs of the main chain. To connect a block, the outputs its
inputs refer to are loaded into a view, the transactions are applied to the view one after the
other, and the modified entries of the view are written back.

Source: `blockchain/utxoviewpoint.go`; `dbPutUtxoView` in `blockchain/chainio.go`. Entries are the
decoded ones; the database is assumed to return what was written. A key of the view without an
entry, which stands for an output the database does not have, is a nil pointer in the source.
-/

namespace DrcNode

open Finmap

/-- The Go map `map[wire.OutPoint]ν`. -/
abbrev ByOutPoint (ν : Type) := Finmap fun _ : OutPoint => ν

/-- `UtxoEntry`, with the packed flags spelled out. -/
structure UtxoEntry where
  amount : Int64
  pkScript : List UInt8
  blockHeight : Int
  isCoinBase : Bool
  isSpent : Bool := false
  isModified : Bool := false
  deriving DecidableEq, Repr

/-- The unspent outputs in the database. -/
abbrev UtxoSet := ByOutPoint UtxoEntry

structure SpentTxOut where
  amount : Int64
  pkScript : List UInt8
  height : Int
  isCoinBase : Bool
  deriving DecidableEq, Repr

/-- The outputs that a block is connected with. -/
structure UtxoViewpoint where
  entries : ByOutPoint (Option UtxoEntry)
  bestHash : Hash

def UtxoEntry.spend (entry : UtxoEntry) : UtxoEntry :=
  if entry.isSpent then entry else { entry with isSpent := true, isModified := true }

namespace UtxoViewpoint

/-- `NewUtxoViewpoint` followed by `SetBestHash`. -/
def new (bestHash : Hash) : UtxoViewpoint := ⟨∅, bestHash⟩

variable (prim : Primitives) (view : UtxoViewpoint) (state : UtxoViewpoint × List SpentTxOut)

def lookupEntry (outpoint : OutPoint) : Option UtxoEntry :=
  (view.entries.lookup outpoint).join

/-- Write an entry of the view. -/
def setEntry (outpoint : OutPoint) (entry : Option UtxoEntry) : UtxoViewpoint :=
  { view with entries := view.entries.insert outpoint entry }

/-- `(*UtxoViewpoint).addTxOut`: provably unspendable outputs are left out. -/
def addTxOut (outpoint : OutPoint) (txOut : TxOut) (isCoinBase : Bool)
    (blockHeight : Int) : UtxoViewpoint :=
  if isUnspendable txOut.pkScript then view
  else view.setEntry outpoint (some
    { amount := txOut.value, pkScript := txOut.pkScript, blockHeight, isCoinBase
      isModified := true })

def addTxOuts (msgTx : MsgTx) (blockHeight : Int) : UtxoViewpoint :=
  msgTx.txOut.zipIdx.foldl (fun view out =>
    view.addTxOut ⟨msgTx.txHash prim, UInt32.ofNat out.2⟩ out.1 (isCoinBaseTx msgTx) blockHeight)
    view

/-- One round of the loop over the inputs in `connectTransaction`. -/
def spendInput (txIn : TxIn) : Check (UtxoViewpoint × List SpentTxOut) :=
  match state.1.lookupEntry txIn.previousOutPoint with
  | none => .error (.error .assertError)
  | some entry =>
      .ok (state.1.setEntry txIn.previousOutPoint (some entry.spend), state.2 ++
        [{ amount := entry.amount, pkScript := entry.pkScript, height := entry.blockHeight
           isCoinBase := entry.isCoinBase }])

/-- `(*UtxoViewpoint).connectTransaction`, with the list of spent outputs so far. -/
def connectTransaction
    (msgTx : MsgTx) (blockHeight : Int) : Check (UtxoViewpoint × List SpentTxOut) :=
  if isCoinBaseTx msgTx then .ok (state.1.addTxOuts prim msgTx blockHeight, state.2)
  else do
    let (view, stxos) ← msgTx.txIn.foldlM spendInput state
    pure (view.addTxOuts prim msgTx blockHeight, stxos)

theorem noPanic_connectTransaction {prim : Primitives} {state : UtxoViewpoint × List SpentTxOut}
    {msgTx : MsgTx} {blockHeight : Int} :
    (connectTransaction prim state msgTx blockHeight).NoPanic := by
  have hs : ∀ state, ∀ txIn ∈ msgTx.txIn, (spendInput state txIn).NoPanic := by
    intro state txIn _
    rw [spendInput]
    cases state.1.lookupEntry txIn.previousOutPoint with
    | none => exact noPanic_error
    | some entry => exact .ok
  rw [connectTransaction]
  split_ifs
  · exact .ok
  · exact (Checked.FailsOnly.foldlM hs).bind fun _ _ => .ok

/-! ### Loading entries -/

section

variable (utxoSet : UtxoSet) (view : UtxoViewpoint) (outpoints : List OutPoint)

/-- `(*UtxoViewpoint).fetchUtxosMain`: load each outpoint, nil when the database has no entry. -/
def fetchUtxosMain :
    UtxoViewpoint :=
  outpoints.foldl (fun view outpoint => view.setEntry outpoint (utxoSet.lookup outpoint)) view

/-- `(*UtxoViewpoint).fetchUtxos`: load the outpoints that are not yet in the view. -/
def fetchUtxos :
    UtxoViewpoint :=
  view.fetchUtxosMain utxoSet (outpoints.filter fun outpoint => outpoint ∉ view.entries)

end

/-- The position of the last transaction with this hash, as the map `txInFlight` records it. -/
def inFlightIndex (transactions : List MsgTx) (hash : Hash) : Option Nat :=
  (transactions.zipIdx.reverse.find? fun tx => tx.1.txHash prim = hash).map Prod.snd

/-- One input of the `i`-th transaction after the coinbase. -/
def fetchInput (transactions : List MsgTx) (blockHeight : Int) (i : Nat)
    (state : UtxoViewpoint × List OutPoint) (txIn : TxIn) : UtxoViewpoint × List OutPoint :=
  let needed : UtxoViewpoint × List OutPoint :=
    if txIn.previousOutPoint ∈ state.1.entries then state
    else (state.1, state.2 ++ [txIn.previousOutPoint])
  match inFlightIndex prim transactions txIn.previousOutPoint.hash with
  | none => needed
  | some index =>
      if index ≤ i then
        match transactions[index]? with
        | some originTx => (state.1.addTxOuts prim originTx blockHeight, state.2)
        | none => needed
      else needed

def fetchInputUtxos (utxoSet : UtxoSet) (view : UtxoViewpoint)
    (transactions : List MsgTx) (blockHeight : Int) : UtxoViewpoint :=
  let (view, needed) := transactions.tail.zipIdx.foldl (fun state tx =>
    tx.1.txIn.foldl (fetchInput prim transactions blockHeight tx.2) state) (view, [])
  view.fetchUtxosMain utxoSet needed

end UtxoViewpoint

/-! ### Writing a view back -/

namespace UtxoSet

/-- What `dbPutUtxoView` does with one entry of the view. -/
def putEntry (utxoSet : UtxoSet) (outpoint : OutPoint) (entry : Option UtxoEntry) : UtxoSet :=
  match entry with
  | none => utxoSet
  | some entry =>
      if !entry.isModified then utxoSet
      else if entry.isSpent then utxoSet.erase outpoint
      else utxoSet.insert outpoint { entry with isModified := false }

variable {utxoSet : UtxoSet} {outpoint : OutPoint}

/-- Write back the entry of the view at one outpoint. -/
def putFrom (view : UtxoViewpoint) (utxoSet : UtxoSet) (outpoint : OutPoint) : UtxoSet :=
  utxoSet.putEntry outpoint (view.lookupEntry outpoint)

/-- What is stored under an outpoint after an entry has been written back. -/
def putOver (entry old : Option UtxoEntry) : Option UtxoEntry :=
  match entry with
  | none => old
  | some entry =>
      if !entry.isModified then old
      else if entry.isSpent then none
      else some { entry with isModified := false }

theorem alters_putFrom (view : UtxoViewpoint) :
    KeyLoop.Alters (fun outpoint => putOver (view.lookupEntry outpoint)) (putFrom view) := by
  intro utxoSet o o'
  rw [putFrom]
  unfold putEntry
  by_cases h : o' = o
  · subst h
    rw [if_pos rfl]
    dsimp only [putOver]
    cases view.lookupEntry o' with
    | none => rfl
    | some entry =>
      dsimp only
      split_ifs
      · rfl
      · exact lookup_erase o' utxoSet
      · exact lookup_insert utxoSet
  · rw [if_neg h]
    split
    · rfl
    · split_ifs
      · rfl
      · exact lookup_erase_ne h
      · exact lookup_insert_of_ne _ h

/-- The order in which entries are written back does not matter. -/
instance rightCommutative_putFrom (view : UtxoViewpoint) : RightCommutative (putFrom view) :=
  (alters_putFrom view).rightCommutative

/-- `dbPutUtxoView`. -/
def putUtxoView (utxoSet : UtxoSet) (view : UtxoViewpoint) : UtxoSet :=
  view.entries.keys.val.foldl (putFrom view) utxoSet

/-- **The set after a view has been written back.** -/
theorem lookup_putUtxoView {view : UtxoViewpoint} : (utxoSet.putUtxoView view).lookup outpoint =
      (utxoSet.putEntry outpoint (view.lookupEntry outpoint)).lookup outpoint := by
  have hp := alters_putFrom view utxoSet outpoint outpoint
  rw [if_pos rfl] at hp
  rw [putUtxoView, (alters_putFrom view).lookup_foldl view.entries.keys.nodup]
  split_ifs with hm
  · exact hp.symm
  · have hno : view.lookupEntry outpoint = none := by
      rw [UtxoViewpoint.lookupEntry, lookup_eq_none.2 fun h => hm (mem_keys.2 h)]
      rfl
    rw [hno]
    rfl

end UtxoSet

end DrcNode
