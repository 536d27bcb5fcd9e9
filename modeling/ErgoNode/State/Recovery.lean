import ErgoNode.State.Parameters

/-!
# Recovery at start-up

A start looks for the outputs of the first transactions at a few sampled heights and rolls back to below
the first height that has one.
-/

namespace ErgoNode
open Lib

variable (sr : SigmaRust)

namespace StateManager

def sampledHeights (utxoHeight : Nat) : List Nat :=
  [utxoHeight, utxoHeight - 100, utxoHeight - 500, utxoHeight - 1000, utxoHeight - 5000, utxoHeight - 10000]

def foundAny (db : Database) : List ErgoBox → StateResult Bool
  | [] => return false
  | output :: rest => do
      match ← UtxoState.getBox sr db output.boxId with
      | some _ => return true
      | none => foundAny db rest

def checkHeight (db : Database) (height : Nat) : StateResult Bool := do
  match ← HeaderStore.getByHeight sr db height with
  | none => return false
  | some header =>
      match ← BlockStore.getTransactions sr db header.id with
      | none => return false
      | some blockTxs =>
          match blockTxs.txs.head? with
          | none => return false
          | some coinbase => foundAny sr db coinbase.outputs

def lastGoodHeight (db : Database) : List Nat → StateResult (Option Nat)
  | [] => return none
  | height :: rest =>
      if height = 0 then lastGoodHeight db rest
      else do
        if ← checkHeight sr db height then return some height else lastGoodHeight db rest

def checkAndRecoverUtxoState : Op StateManager StateError Unit := do
  let st ← get
  let utxoHeight := st.utxo.height
  if utxoHeight = 0 then return ()
  else do
    let good ← MonadExcept.ofExcept (lastGoodHeight sr st.db (sampledHeights utxoHeight))
    match good with
    | some goodHeight =>
        if goodHeight < utxoHeight then onUtxo (UtxoState.rollback sr (goodHeight - 10)) else return ()
    | none => onUtxo (UtxoState.rollback sr 1)

def loaded (db : Database) : StateManager := ⟨db, .initFromStorage db, .initFromStorage db, .warnOnly⟩

end StateManager
end ErgoNode
