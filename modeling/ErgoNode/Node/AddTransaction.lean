import ErgoNode.Consensus.BlockValidation
import ErgoNode.Lib.Lru
import ErgoNode.Mempool.Pool
import ErgoNode.Network.Message
import ErgoNode.State.Utxo
import ErgoNode.Sync.Protocol

/-!
# The node's handler for transactions from peers

A transaction is parsed and checked against the UTXO set, enters the mempool under the id that came
with its bytes, and is announced to the peers under that id. A refusal is only logged.
-/

namespace ErgoNode
open Lib

inductive AddTransactionError where
  | parse (error : String)
  | inputNotFound (boxId : BoxId)
  | inputLookup (error : StateError)
  | validation (error : ConsensusError)
  | mempool (error : MempoolError)

structure AddTransaction where
  txId : Bytes
  txData : Bytes
  deriving DecidableEq

structure Surroundings where
  db : Database
  arrivalTime : Nat
  minerFeeBytes : Bytes

namespace Node
variable (sr : SigmaRust)

def lookupBox (db : Database) (boxId : BoxId) : Option ErgoBox :=
  (UtxoState.getBox sr db boxId).toOption.join.map BoxEntry.ergoBox

def findInput (db : Database) (input : Input) : Except AddTransactionError ErgoBox :=
  match UtxoState.getBox sr db input.boxId with
  | .ok (some entry) => .ok entry.ergoBox
  | .ok none => .error (.inputNotFound input.boxId)
  | .error e => .error (.inputLookup e)

def validateDataInputsExist (tx : Transaction) (utxoLookup : BoxId → Option ErgoBox) :
    ConsensusResult (List ErgoBox) :=
  FullBlockValidator.collectBoxes utxoLookup
    (fun idx boxId => .missingDataInput (hexEncode tx.id.bytes) idx (hexEncode boxId.bytes))
    (tx.dataInputs.getD [])

/-- The fee is what goes to the miners' script, not the difference of inputs and outputs. -/
def feeOf (minerFeeBytes : Bytes) (tx : Transaction) : Nat :=
  u64 ((tx.outputs.filter fun output =>
    (sr.treeBytes output.ergoTree).toOption = some minerFeeBytes).map ErgoBox.value).sum

def pooledTransaction (around : Surroundings) (command : AddTransaction) (tx : Transaction) :
    PooledTransaction where
  id := command.txId
  bytes := command.txData
  fee := feeOf sr around.minerFeeBytes tx
  inputs := tx.inputs.map fun input => input.boxId.bytes
  outputs := tx.outputs.map fun output => output.boxId.bytes
  arrivalTime := around.arrivalTime
  estimatedCost := none

def validateSubmitted (db : Database) (tx : Transaction) : Except AddTransactionError Unit := do
  let inputBoxes ← tx.inputs.mapM (findInput sr db)
  let _ ← (validateDataInputsExist tx (lookupBox sr db)).mapError .validation
  let _ ← (validateErgConservation tx inputBoxes).mapError .validation
  (validateTokenConservation tx inputBoxes false).mapError .validation

def addTransaction (around : Surroundings) (schedule : Schedule) (command : AddTransaction) (s : Session) :
    Except AddTransactionError Message × Session :=
  match (sr.parseTx command.txData).mapError .parse with
  | .error e => (.error e, s)
  | .ok tx =>
      match validateSubmitted sr around.db tx with
      | .error e => (.error e, s)
      | .ok _ =>
          match Mempool.add schedule (pooledTransaction sr around command tx) s with
          | (.error e, s) => (.error (.mempool e), s)
          | (.ok _, s) => (.ok (.inv ⟨ModifierType.transaction.toByte, [command.txId]⟩), s)

end Node
end ErgoNode

/-!
### Unconfirmed transactions between peers, protocol and node

The protocol notes the id that a peer claims for a transaction and passes id and bytes on; the node's
task adds the transaction to its mempool and announces it, and takes out of the mempool what applied
blocks confirm. An inventory asks a peer only for transactions that the protocol has not noted.
-/

namespace ErgoNode
open Lib

def knownTransactionsSize : Nat := 10000

structure TransactionRelay where
  knownTransactions : LruCache Bytes knownTransactionsSize
  commands : List AddTransaction
  mempool : Mempool
  announced : List Message

namespace TransactionRelay
variable (sr : SigmaRust)

def new (mempool : Mempool) : TransactionRelay := ⟨.empty, [], mempool, []⟩

variable (relay : TransactionRelay)

def unknownTransactions (ids : List Bytes) : List Bytes :=
  ids.filter fun id => id ∉ relay.knownTransactions

def onTransactionReceived (id data : Bytes) : TransactionRelay :=
  { relay with
    knownTransactions := relay.knownTransactions.put id
    commands := relay.commands ++ [⟨id, data⟩] }

def handleCommand (around : Surroundings) (schedule : Schedule) (command : AddTransaction) : TransactionRelay :=
  match Node.addTransaction sr around schedule command relay.mempool.session with
  | (.error _, s) => { relay with mempool := s.pool }
  | (.ok message, s) => { relay with mempool := s.pool, announced := relay.announced ++ [message] }

def confirmedTxIds (blocks : List (FullBlock × StateChange)) : List Bytes :=
  blocks.flatMap fun entry => entry.1.transactions.txs.map fun tx => tx.id.bytes

def spentInputs (blocks : List (FullBlock × StateChange)) : List Bytes :=
  blocks.flatMap fun entry => entry.2.spent.map Digest32.bytes

def blocksApplied (schedule : Schedule) (blocks : List (FullBlock × StateChange)) : TransactionRelay :=
  let (_, s) := Mempool.removeConfirmed schedule (confirmedTxIds blocks) (spentInputs blocks) relay.mempool.session
  { relay with mempool := s.pool }

/-! ### Steps -/

/-- What blocks do to the database is left open: it is among the surroundings of each command. -/
inductive Action where
  | receive (id data : Bytes)
  | handleCommand (around : Surroundings) (schedule : Schedule)
  | blocksApplied (schedule : Schedule) (blocks : List (FullBlock × StateChange))

def step (relay : TransactionRelay) : Action → Option TransactionRelay
  | .receive id data => some (relay.onTransactionReceived id data)
  | .handleCommand around schedule =>
      match relay.commands with
      | [] => none
      | command :: commands => some ({ relay with commands }.handleCommand sr around schedule command)
  | .blocksApplied schedule blocks => some (relay.blocksApplied schedule blocks)

end TransactionRelay
end ErgoNode
