import ErgoNode.Consensus.TxValidation
import ErgoNode.Mempool.Pool
import ErgoNode.State.History

/-!
# Block candidates

A candidate is made for the best header and kept. A kept candidate is handed out again for half a minute
as long as it has the height after the best one.
-/

namespace ErgoNode
open Lib

structure BlockCandidate where
  parentId : Option BlockId
  height : Nat
  timestamp : UInt64
  nBits : UInt32
  transactionsRoot : Bytes
  stateRoot : Bytes
  extensionHash : Bytes
  headerBytes : Bytes
  transactionIds : List Bytes
  reward : Nat
  deriving DecidableEq

inductive MiningError where
  | noRewardAddress
  deriving DecidableEq

abbrev MiningResult := Except MiningError

structure CandidateGenerator where
  rewardAddress : Option String
  cachedCandidate : Option BlockCandidate
  deriving DecidableEq

/-- What a candidate takes from elsewhere: the transactions the pool gives by fee, the state root, the
reward and the difficulty at a height, and the times at which the cache is looked at and the candidate is
made. -/
structure CandidateInputs where
  byFee : List PooledTransaction
  stateRoot : Bytes
  blockReward : Nat → Nat
  difficulty : Nat → UInt32
  now : UInt64
  generatedAt : UInt64

namespace CandidateGenerator
variable (sr : SigmaRust)

def new : CandidateGenerator := ⟨none, none⟩

def setRewardAddress (generator : CandidateGenerator) (address : String) : CandidateGenerator :=
  { generator with rewardAddress := some address, cachedCandidate := none }

def invalidate (generator : CandidateGenerator) : CandidateGenerator := { generator with cachedCandidate := none }

def computeTransactionsRoot (txIds : List Bytes) : Bytes :=
  if txIds.isEmpty then List.replicate 32 0 else (sr.blake2b256 txIds.flatten).bytes

def computeExtensionHash : Bytes := List.replicate 32 0

def fill32 (root : Bytes) : Bytes :=
  if root.length ≥ 32 then root.take 32 else root ++ List.replicate (32 - root.length) 0

def serializeHeaderForMining (parentId : Option BlockId) (height : Nat) (timestamp : UInt64) (nBits : UInt32)
    (transactionsRoot stateRoot extensionHash : Bytes) : Bytes :=
  [2] ++ (match parentId with | some parent => parent.bytes | none => List.replicate 32 0) ++
    List.replicate 32 0 ++ fill32 stateRoot ++ fill32 transactionsRoot ++ BigEndian.write 8 timestamp.toNat ++
    BigEndian.write 4 nBits.toNat ++ BigEndian.write 4 height ++ fill32 extensionHash ++ [0, 0, 0]

def nextHeight (history : History) : Nat := (history.bestHeight + 1) % 2 ^ 32

def candidateFor (history : History) (inputs : CandidateInputs) : BlockCandidate :=
  let newHeight := nextHeight history
  let txIds := inputs.byFee.map PooledTransaction.id
  let totalFees := u64 (inputs.byFee.map PooledTransaction.fee).sum
  let nBits := inputs.difficulty newHeight
  let transactionsRoot := computeTransactionsRoot sr txIds
  { parentId := history.bestHeaderId
    height := newHeight
    timestamp := inputs.generatedAt
    nBits
    transactionsRoot
    stateRoot := inputs.stateRoot
    extensionHash := computeExtensionHash
    headerBytes := serializeHeaderForMining history.bestHeaderId newHeight inputs.generatedAt nBits transactionsRoot
      inputs.stateRoot computeExtensionHash
    transactionIds := txIds
    reward := u64 (inputs.blockReward newHeight + totalFees) }

def isFresh (history : History) (now : UInt64) (cached : BlockCandidate) : Bool :=
  cached.height == nextHeight history && now - cached.timestamp < 30000

end CandidateGenerator
end ErgoNode
