import ErgoNode.Chain.Types
import ErgoNode.Consensus.TxValidation
import Mathlib.Data.Nat.Digits.Defs

/-!
# Checks on headers

The check of a header against its parent, and the check of its Autolykos solution. The bytes that a
solution is computed over, the header without its solution, come from third-party code.
-/

namespace ErgoNode

structure HeaderData where
  version : Nat
  parentId : Bytes
  transactionsRoot : Bytes
  stateRoot : Bytes
  timestamp : Nat
  height : Nat
  nBits : UInt32
  votes : Bytes
  deriving DecidableEq

namespace DefaultHeaderValidator

def maxFuture : Nat := 20 * 60 * 1000

/-- The parent id is left to the caller. -/
def validateHeader (nowMs : Nat) (header parent : HeaderData) : ConsensusResult Unit :=
  if header.height ≠ parent.height + 1 then
    .error (.invalidHeader s!"Invalid height: {header.height} (expected {parent.height + 1})")
  else if header.timestamp ≤ parent.timestamp then
    .error (.invalidTimestamp header.timestamp parent.timestamp)
  else if header.timestamp > nowMs + maxFuture then
    .error (.invalidHeader s!"Timestamp too far in future: {header.timestamp} > {nowMs + maxFuture}")
  else if header.version < 1 ∨ header.version > 4 then
    .error (.invalidHeader s!"Invalid version: {header.version}")
  else .ok ()

end DefaultHeaderValidator

/-! ### Autolykos -/

def toBytesBe (n : Nat) : Bytes := if n = 0 then [0] else (Nat.digits 256 n).reverse.map UInt8.ofNat

def fromBytesBe (bytes : Bytes) : Nat := bytes.foldl (fun n b => n * 256 + b.toNat) 0

def u32BytesBe (n : Nat) : Bytes := [n / 2 ^ 24, n / 2 ^ 16, n / 2 ^ 8, n].map UInt8.ofNat

structure AutolykosV2 where
  n : Nat
  k : Nat
  deriving DecidableEq

namespace AutolykosV2

def autolykosN : Nat := 67108864

def hardforkHeight : Nat := 614400

def new : AutolykosV2 := ⟨autolykosN, 32⟩

def nForHeight (height : Nat) : Nat := if height ≥ hardforkHeight then autolykosN else 2 ^ 25

variable (sr : SigmaRust) (verifier : AutolykosV2)

def calculateMsg (headerBytes nonce : Bytes) : Bytes := (sr.blake2b256 (headerBytes ++ nonce)).bytes

def calculateSeed (msg pk : Bytes) : Bytes := (sr.blake2b256 (msg ++ pk)).bytes

def generateIndices (seed : Bytes) (n : Nat) : List Nat :=
  (List.range verifier.k).map fun i => fromBytesBe ((sr.blake2b256 (seed ++ u32BytesBe i)).bytes.take 4) % n

def calculateFSum (indices : List Nat) (msg pk : Bytes) : Bytes :=
  toBytesBe (indices.foldl
    (fun sum idx => sum + fromBytesBe (sr.blake2b256 (u32BytesBe idx ++ msg ++ pk)).bytes) 0)

def calculateHit (fSum : Bytes) : Bytes := (sr.blake2b256 fSum).bytes

def verifySolution (headerBytes : Bytes) (solution : AutolykosSolution) (target height : Nat) :
    ConsensusResult Bool :=
  if solution.nonce.length ≠ 8 then
    .error (.invalidPow s!"Invalid nonce length: {solution.nonce.length}, expected 8")
  else
    let msg := calculateMsg sr headerBytes solution.nonce
    let seed := calculateSeed sr msg solution.minerPk
    let indices := verifier.generateIndices sr seed (nForHeight height)
    let hit := calculateHit sr (calculateFSum sr indices msg solution.minerPk)
    .ok (decide (fromBytesBe hit ≤ target))

def verifyHeader (serializeWithoutPow : Header → Except String Bytes) (header : Header) : ConsensusResult Bool := do
  let headerBytes ← (serializeWithoutPow header).mapError
    fun e => .invalidPow s!"Failed to serialize header: {e}"
  verifier.verifySolution sr headerBytes header.autolykosSolution (nbitsToTarget header.nBits) header.height

end AutolykosV2
end ErgoNode
