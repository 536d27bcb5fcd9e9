import ErgoNode.Consensus.Block
import ErgoNode.Consensus.HeaderValidation
import ErgoNode.Lib.Overflow
import Mathlib.Data.Nat.Size

/-!
# Proofs of proof of work

The interlinks of a block, proofs made of selected headers and the last headers of a chain, and the
verifier that keeps the best proof it was given. Levels of headers are not computed yet when two proofs
are compared: every header counts as level zero.
-/

namespace ErgoNode
open Lib

/-! ### Levels -/

def decodeNbits (nbits : UInt32) : Nat :=
  let exponent := (nbits >>> 24).toNat
  let mantissa := (nbits &&& 0x007fffff).toNat
  if exponent ≤ 3 then mantissa >>> (8 * (3 - exponent)) else mantissa <<< (8 * (exponent - 3))

def maxLevelOf (nbits : UInt32) (powHit : Digest32) (isGenesis : Bool) : UInt32 :=
  if isGenesis then 0xffffffff
  else
    let target := decodeNbits nbits
    let hit := fromBytesBe powHit.bytes
    -- A hit of one is let off with the hit of zero that cannot be divided by.
    if hit = 1 ∨ hit = 0 then 0
    else if target ≤ hit then 0
    else
      let bits := (target / hit).size
      if bits = 0 then 0 else UInt32.ofNat (bits - 1)

/-! ### Interlinks -/

def updateInterlinks (prevHeaderId : BlockId) (prevLevel : Nat) (prevInterlinks : List BlockId) (isGenesis : Bool) :
    List BlockId :=
  if isGenesis then [prevHeaderId]
  else match prevInterlinks with
    | [] => [prevHeaderId]
    | genesis :: tail =>
        if prevLevel = 0 then prevInterlinks
        else
          genesis :: ((if tail.length > prevLevel then tail.take (tail.length - prevLevel) else []) ++
            List.replicate prevLevel prevHeaderId)

/-! ### Packed interlinks -/

def interlinksVectorPrefix : UInt8 := 0x01

/-- The index of the entries is a byte that wraps around. -/
def packFrom (idx : UInt8) : List BlockId → List (Bytes × Bytes)
  | [] => []
  | link :: rest =>
      let links := link :: rest
      let count := min (links.takeWhile (· == link)).length 255
      ([interlinksVectorPrefix, idx], UInt8.ofNat count :: link.bytes) :: packFrom (idx + 1) (links.drop count)
termination_by links => links.length
decreasing_by simp

def packInterlinks (links : List BlockId) : List (Bytes × Bytes) := packFrom 0 links

def isInterlinkField (field : Bytes × Bytes) : Bool :=
  field.1.length == 2 && field.1.head? == some interlinksVectorPrefix && field.2.length == 33

def addLinks (result : List BlockId) (field : Bytes × Bytes) : Except String (List BlockId) :=
  let count := (field.2.headD 0).toNat
  if count = 0 then .error "Invalid interlinks: zero count"
  else
    let blockId := blockIdOf ((field.2.drop 1).take 32)
    .ok (result ++ List.replicate count blockId)

def unpackInterlinks (fields : List (Bytes × Bytes)) : Except String (List BlockId) :=
  let interlinkFields := (fields.filter isInterlinkField).mergeSort fun a b => a.1.getD 1 0 ≤ b.1.getD 1 0
  interlinkFields.foldlM addLinks []

/-! ### Scores -/

/-- The levels from `level` on, at most `left` of them, that have `m` superblocks. A negative `m` is a huge
bound. -/
def bestArgFrom (levels : List Nat) (m : Int32) : (left : Nat) → (level : Nat) → (bestScore : Int64) → Int64
  | 0, _, bestScore => bestScore
  | left + 1, level, bestScore =>
      let superblockCount := (levels.filter fun l => l ≥ level).length
      if superblockCount ≥ m.toInt64.toUInt64.toNat then
        let score := ((1 : Int64) <<< Int64.ofNat level) * Int64.ofNat superblockCount
        bestArgFrom levels m left (level + 1) (max bestScore score)
      else bestScore

def bestArg (levels : List Nat) (m : Int32) : Int64 :=
  if levels.isEmpty then 0 else bestArgFrom levels m 256 1 (Int64.ofNat levels.length)

/-- The same with the overflows on the way. -/
def bestArgFromChecked (levels : List Nat) (m : Int32) : (left : Nat) → (level : Nat) → (bestScore : Int64) →
    Overflowing Int64
  | 0, _, bestScore => pure bestScore
  | left + 1, level, bestScore =>
      let superblockCount := (levels.filter fun l => l ≥ level).length
      if superblockCount ≥ m.toInt64.toUInt64.toNat then do
        let power ← Overflowing.shl 1 level
        let score ← Overflowing.times power (Int64.ofNat superblockCount)
        bestArgFromChecked levels m left (level + 1) (max bestScore score)
      else pure bestScore

def bestArgChecked (levels : List Nat) (m : Int32) : Overflowing Int64 :=
  if levels.isEmpty then pure 0 else bestArgFromChecked levels m 256 1 (Int64.ofNat levels.length)

/-! ### Proofs -/

structure PoPowHeader where
  header : Header
  interlinks : List BlockId
  deriving DecidableEq

namespace PoPowHeader

def id (h : PoPowHeader) : BlockId := h.header.id

def interlinkAt (h : PoPowHeader) (level : Nat) : Option BlockId := h.interlinks[level]?

def genesisId (h : PoPowHeader) : Option BlockId := h.interlinks.head?

def connectsTo (h : PoPowHeader) (otherId : BlockId) : Bool :=
  h.header.parentId == otherId || h.interlinks.any fun link => link == otherId

end PoPowHeader

/-- `prefixHeaders` are the selected superblocks, `suffixTail` the last headers but the suffix head. -/
structure NipopowProof where
  m : Int32
  k : Int32
  prefixHeaders : List PoPowHeader
  suffixHead : PoPowHeader
  suffixTail : List Header
  deriving DecidableEq

namespace NipopowProof
variable (proof other : NipopowProof)

def genesisId : Option BlockId := proof.prefixHeaders.head?.map PoPowHeader.id

def headersChain : List Header :=
  proof.prefixHeaders.map PoPowHeader.header ++ proof.suffixHead.header :: proof.suffixTail

def tipHeight : Nat := (proof.suffixTail.getLast?.getD proof.suffixHead.header).height

/-- The source's `windows(2)`. -/
def allNeighbours {α : Type} (ok : α → α → Bool) : List α → Bool
  | a :: b :: rest => ok a b && allNeighbours ok (b :: rest)
  | _ => true

def hasValidHeights : Bool := allNeighbours (fun a b => a < b) (proof.headersChain.map Header.height)

def hasValidConnections : Bool :=
  allNeighbours (fun prev curr => curr.connectsTo prev.id) proof.prefixHeaders &&
    (proof.prefixHeaders.getLast?.all fun lastPrefix => proof.suffixHead.connectsTo lastPrefix.id) &&
    allNeighbours (fun prev curr => curr.parentId == prev.id) (proof.suffixHead.header :: proof.suffixTail)

def validate : Except String Unit :=
  if proof.prefixHeaders.isEmpty then .error "NiPoPoW proof prefix cannot be empty"
  else if proof.k < 1 then .error "NiPoPoW k parameter must be >= 1"
  else
    let suffixLen := 1 + proof.suffixTail.length
    if suffixLen ≠ proof.k.toInt64.toUInt64.toNat then
      .error s!"NiPoPoW suffix length mismatch: expected {proof.k}, got {suffixLen}"
    else if ¬ proof.hasValidHeights then .error "NiPoPoW proof has invalid heights"
    else if ¬ proof.hasValidConnections then .error "NiPoPoW proof has invalid connections"
    else .ok ()

def isValid : Bool := proof.validate.isOk

/-- The levels of the headers above a branching point: a placeholder for each. -/
def divergingLevels (branchHeight : Nat) : List Nat :=
  (proof.headersChain.filter fun h => h.height > branchHeight).map fun _ => 0

def score (branchHeight : Nat) : Int64 := bestArg (proof.divergingLevels branchHeight) proof.m

/-- Of the headers in both chains the first one of the other chain is taken for the branching point. -/
def isBetterThan : Bool :=
  if ¬ proof.isValid then false
  else if ¬ other.isValid then true
  else
    let thisIds := proof.headersChain.map Header.id
    match (other.headersChain.find? fun h => thisIds.contains h.id).map Header.height with
    | some branchHeight => proof.score branchHeight > other.score branchHeight
    | none => proof.tipHeight > other.tipHeight

end NipopowProof

/-! ### The verifier -/

inductive NipopowVerificationResult where
  | betterChain (proofsProcessed : Int32)
  | noBetterChain (proofsProcessed : Int32)
  | validationError (message : String)
  | wrongGenesis
  deriving DecidableEq

structure NipopowVerifier where
  genesisId : Option BlockId
  bestProof : Option NipopowProof
  proofsProcessed : Int32
  minProofs : Int32
  deriving DecidableEq

namespace NipopowVerifier

def new : NipopowVerifier := ⟨none, none, 0, 1⟩

def withGenesis (genesisId : BlockId) : NipopowVerifier := ⟨some genesisId, none, 0, 1⟩

def withParams (minProofs : Int32) : NipopowVerifier := ⟨none, none, 0, minProofs⟩

variable (verifier : NipopowVerifier)

def setGenesisId (id : BlockId) : NipopowVerifier := { verifier with genesisId := some id }

def hasQuorum : Bool := verifier.proofsProcessed ≥ verifier.minProofs && verifier.bestProof.isSome

def process (proof : NipopowProof) : NipopowVerificationResult × NipopowVerifier :=
  let counted := { verifier with proofsProcessed := verifier.proofsProcessed + 1 }
  match proof.validate with
  | .error message => (.validationError s!"Validation error: {message}", counted)
  | .ok () =>
      let wrongGenesis := match counted.genesisId, proof.genesisId with
        | some expectedGenesis, some proofGenesis => decide (proofGenesis ≠ expectedGenesis)
        | _, _ => false
      if wrongGenesis then (.wrongGenesis, counted)
      else
        let learned := if counted.genesisId.isNone then { counted with genesisId := proof.genesisId } else counted
        let isBetter := match learned.bestProof with
          | none => true
          | some currentBest => proof.isBetterThan currentBest
        if isBetter then
          (.betterChain learned.proofsProcessed, { learned with bestProof := some proof })
        else (.noBetterChain learned.proofsProcessed, learned)

def getHeadersToApply : Option (List Header) :=
  if ¬ verifier.hasQuorum then none else verifier.bestProof.map NipopowProof.headersChain

end NipopowVerifier
end ErgoNode
