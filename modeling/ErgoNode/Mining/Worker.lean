import ErgoNode.Consensus.HeaderValidation
import ErgoNode.Lib.BigEndian

/-!
# Searching for a solution

The solver hashes as the verifier does, with code of its own. A public key stands for its bytes.
-/

namespace ErgoNode
open Lib

structure AutolykosSolver where
  k : Nat
  verifier : AutolykosV2
  deriving DecidableEq

namespace AutolykosSolver

def new : AutolykosSolver := ⟨32, .new⟩

def nonceBytes (nonce : UInt64) : Bytes := BigEndian.write 8 nonce.toNat

variable (sr : SigmaRust) (solver : AutolykosSolver)

def calculateMsg (headerBytes nonce : Bytes) : Bytes := (sr.blake2b256 (headerBytes ++ nonce)).bytes

def calculateSeed (msg pk : Bytes) : Bytes := (sr.blake2b256 (msg ++ pk)).bytes

def generateIndices (seed : Bytes) (n : Nat) : List Nat :=
  (List.range solver.k).map fun i => fromBytesBe ((sr.blake2b256 (seed ++ u32BytesBe i)).bytes.take 4) % n

def addElements (msg pk : Bytes) : (sum : Nat) → (indices : List Nat) → Nat
  | sum, [] => sum
  | sum, idx :: rest => addElements msg pk (sum + fromBytesBe (sr.blake2b256 (u32BytesBe idx ++ msg ++ pk)).bytes) rest

def calculateFSum (indices : List Nat) (msg pk : Bytes) : Bytes := toBytesBe (addElements sr msg pk 0 indices)

def calculateHit (fSum : Bytes) : Bytes := (sr.blake2b256 fSum).bytes

def tryNonce (headerBytes nonce : Bytes) (target n : Nat) (minerPk : Bytes) : Option AutolykosSolution :=
  let msg := calculateMsg sr headerBytes nonce
  let seed := calculateSeed sr msg minerPk
  let indices := solver.generateIndices sr seed n
  let fSum := calculateFSum sr indices msg minerPk
  let hit := calculateHit sr fSum
  if fromBytesBe hit ≤ target then some ⟨minerPk, none, nonce, none⟩ else none

def searchBatch (attempt : UInt64 → Option AutolykosSolution) (startNonce hashCounter : UInt64) :
    (left offset : Nat) → Option AutolykosSolution × UInt64
  | 0, offset => (none, hashCounter + UInt64.ofNat offset)
  | left + 1, offset =>
      match attempt (startNonce + UInt64.ofNat offset) with
      | some solution => (some solution, hashCounter + UInt64.ofNat (offset + 1))
      | none => searchBatch attempt startNonce hashCounter left (offset + 1)

def trySolveBatch (headerBytes : Bytes) (nBits : UInt32) (height : Nat) (minerPk : Bytes)
    (startNonce batchSize hashCounter : UInt64) : Option AutolykosSolution × UInt64 :=
  let target := nbitsToTarget nBits
  let n := AutolykosV2.nForHeight height
  searchBatch (fun nonce => solver.tryNonce sr headerBytes (nonceBytes nonce) target n minerPk) startNonce hashCounter
    batchSize.toNat 0

end AutolykosSolver
end ErgoNode

/-!
### Mining workers

Each worker runs a thread of its own, in steps between which anything else may happen: the coordinator
sends another task to all of them, takes the solutions and resets the hash counters for its statistics.
-/

namespace ErgoNode

structure MiningTask where
  headerBytes : Bytes
  nBits : UInt32
  height : Nat
  minerPk : Bytes
  createdAt : Nat
  deriving DecidableEq

/-- The channel all workers watch: the last value sent, and how many were sent. -/
structure TaskChannel where
  value : Option MiningTask
  version : Nat
  deriving DecidableEq

def TaskChannel.send (channel : TaskChannel) (value : Option MiningTask) : TaskChannel := ⟨value, channel.version + 1⟩

inductive WorkerPhase where
  | waiting
  | taken (task : MiningTask)
  | mining (task : MiningTask) (localNonce : UInt64)
  | searching (task : MiningTask) (localNonce : UInt64)
  | searched (task : MiningTask) (localNonce : UInt64) (result : Option AutolykosSolution) (batchHashes : UInt64)
  | ended
  deriving DecidableEq

/-- `seen` is the version of the channel that the worker has marked as seen. -/
structure MiningWorker where
  id : Nat
  nonceOffset : UInt64
  running : Bool
  hashCount : UInt64
  seen : Nat
  phase : WorkerPhase
  deriving DecidableEq

namespace MiningWorker

def batchSize : UInt64 := 10000

def maxNoncePartitions : Nat := 256

def partitionSize : Nat := (2 ^ 64 - 1) / maxNoncePartitions

def baseOffset (id : Nat) : Nat := id % maxNoncePartitions * partitionSize

def spawn (id : Nat) (random : UInt64) : MiningWorker where
  id
  nonceOffset := UInt64.ofNat (baseOffset id) + UInt64.ofNat (random.toNat % (partitionSize / 2))
  running := true
  hashCount := 0
  seen := 0
  phase := .waiting

def tryBatch (sr : SigmaRust) (task : MiningTask) (localNonce : UInt64) : Option AutolykosSolution × UInt64 :=
  AutolykosSolver.new.trySolveBatch sr task.headerBytes task.nBits task.height task.minerPk localNonce batchSize 0

def advance (sr : SigmaRust) (channel : TaskChannel) (delivered : Bool) (worker : MiningWorker) : MiningWorker :=
  match worker.phase with
  | .waiting =>
      if ¬ worker.running then { worker with phase := .ended }
      else match channel.value with
        | some task => { worker with seen := channel.version, phase := .taken task }
        | none => { worker with seen := channel.version }
  | .taken task => { worker with phase := .mining task (worker.nonceOffset + worker.hashCount) }
  | .mining task localNonce =>
      if ¬ worker.running then { worker with phase := .waiting }
      else if channel.version ≠ worker.seen then { worker with phase := .waiting }
      else { worker with phase := .searching task localNonce }
  | .searching task localNonce =>
      let (result, batchHashes) := tryBatch sr task localNonce
      { worker with phase := .searched task localNonce result batchHashes }
  | .searched _ _ (some _) batchHashes =>
      { worker with hashCount := worker.hashCount + batchHashes, phase := if delivered then .waiting else .ended }
  | .searched task localNonce none _ =>
      { worker with hashCount := worker.hashCount + batchSize, phase := .mining task (localNonce + batchSize) }
  | .ended => worker

def resetHashCount (worker : MiningWorker) : MiningWorker := { worker with hashCount := 0 }

def stop (worker : MiningWorker) : MiningWorker := { worker with running := false }

end MiningWorker

structure WorkerPool where
  workers : List MiningWorker
  channel : TaskChannel
  deriving DecidableEq

namespace WorkerPool

def new (randoms : List UInt64) : WorkerPool := ⟨randoms.mapIdx MiningWorker.spawn, ⟨none, 0⟩⟩

/-- `advance` is a step of one worker's thread; the counters are reset and the workers stopped one after
the other. -/
inductive Action where
  | advance (index : Nat) (delivered : Bool)
  | broadcastTask (task : MiningTask)
  | clearTask
  | resetHashCount (index : Nat)
  | stop (index : Nat)
  deriving DecidableEq

def step (sr : SigmaRust) (pool : WorkerPool) : Action → WorkerPool
  | .advance index delivered =>
      { pool with workers := pool.workers.modify index (MiningWorker.advance sr pool.channel delivered) }
  | .broadcastTask task => { pool with channel := pool.channel.send (some task) }
  | .clearTask => { pool with channel := pool.channel.send none }
  | .resetHashCount index => { pool with workers := pool.workers.modify index MiningWorker.resetHashCount }
  | .stop index => { pool with workers := pool.workers.modify index MiningWorker.stop }

end WorkerPool
end ErgoNode
