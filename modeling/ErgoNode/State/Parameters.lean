import ErgoNode.Consensus.BlockValidation
import ErgoNode.Consensus.Sections
import ErgoNode.State.Restart

/-!
# Voted chain parameters

The parameters in force, and how the state manager changes them: after a batch of blocks it goes
through the epoch boundaries among their heights and reads the parameters back from the extensions that
are stored for the blocks there.
-/

namespace ErgoNode
open Lib

namespace ParamIds

def storageFeeFactor : UInt8 := 1
def minValuePerByte : UInt8 := 2
def maxBlockSize : UInt8 := 3
def maxBlockCost : UInt8 := 4
def tokenAccessCost : UInt8 := 5
def inputCost : UInt8 := 6
def dataInputCost : UInt8 := 7
def outputCost : UInt8 := 8

end ParamIds

/-- The chain parameters with those that validation does not read. -/
structure VotedParameters extends ChainParameters where
  height : Nat
  storageFeeFactor : Nat
  minValuePerByte : Nat
  maxBlockSize : Nat
  tokenAccessCost : Nat
  inputCost : Nat
  dataInputCost : Nat
  outputCost : Nat
  deriving DecidableEq

namespace VotedParameters

def default : VotedParameters where
  maxBlockCost := 1000000
  height := 0
  storageFeeFactor := 1250000
  minValuePerByte := 360
  maxBlockSize := 524288
  tokenAccessCost := 100
  inputCost := 2000
  dataInputCost := 100
  outputCost := 100

/-- A negative value wraps around to a large one. -/
def votedOr (parsed : Extension.ParameterTable) (paramId : UInt8) (previous : Nat) : Nat :=
  match parsed.lookup paramId with
  | some value => (value % 2 ^ 64).toNat
  | none => previous

def fromExtension (height : Nat) (parsed : Extension.ParameterTable) (previous : VotedParameters) :
    VotedParameters where
  height
  maxBlockCost := votedOr parsed ParamIds.maxBlockCost previous.maxBlockCost
  storageFeeFactor := votedOr parsed ParamIds.storageFeeFactor previous.storageFeeFactor
  minValuePerByte := votedOr parsed ParamIds.minValuePerByte previous.minValuePerByte
  maxBlockSize := votedOr parsed ParamIds.maxBlockSize previous.maxBlockSize
  tokenAccessCost := votedOr parsed ParamIds.tokenAccessCost previous.tokenAccessCost
  inputCost := votedOr parsed ParamIds.inputCost previous.inputCost
  dataInputCost := votedOr parsed ParamIds.dataInputCost previous.dataInputCost
  outputCost := votedOr parsed ParamIds.outputCost previous.outputCost

def isEpochBoundary (height : Nat) : Bool := height > 0 ∧ height % votingEpochLength = 0

/-- Where the fields do not parse, or hold no parameter, the previous ones stay. -/
def updateFromBlock (block : FullBlock) (previous : VotedParameters) : VotedParameters :=
  if isEpochBoundary block.height then
    match block.extension.parseParameters with
    | .ok parsed => if parsed.entries = [] then previous else fromExtension block.height parsed previous
    | .error _ => previous
  else previous

end VotedParameters

variable (sr : SigmaRust)

namespace BlockStore

def parseTransactions : Nat → Bytes → StateResult (List Transaction)
  | 0, _ => .ok []
  | count + 1, bytes =>
      if bytes.length < 4 then .error (.serialization "Truncated tx data")
      else
        let txLen := BigEndian.read (bytes.take 4)
        let bytes := bytes.drop 4
        if bytes.length < txLen then .error (.serialization "Truncated tx bytes")
        else do
          let tx ← (sr.parseTx (bytes.take txLen)).mapError .serialization
          let txs ← parseTransactions count (bytes.drop txLen)
          return tx :: txs

/-- The stored bytes do not have the version; it is always read as 2. -/
def getTransactions (db : Database) (blockId : BlockId) : StateResult (Option BlockTransactions) :=
  match db.get .blockTransactions blockId with
  | some bytes =>
      if bytes.length < 4 then .error (.serialization "Transaction data too short")
      else do
        let txs ← parseTransactions sr (BigEndian.read (bytes.take 4)) (bytes.drop 4)
        return some ⟨blockId, txs, 2⟩
  | none => return none

def putExtension (extension : Extension) : Op Database StateError Unit :=
  Database.writeBatch (putExtensionBatched [] extension)

def deserializeFields : Nat → Bytes → StateResult (List ExtensionField)
  | 0, _ => .ok []
  | count + 1, key₀ :: key₁ :: bytes =>
      if bytes.length < 2 then .error (.serialization "Extension data truncated at value length")
      else
        let valueLen := BigEndian.read (bytes.take 2)
        let bytes := bytes.drop 2
        if bytes.length < valueLen then .error (.serialization "Extension data truncated at value")
        else do
          let fields ← deserializeFields count (bytes.drop valueLen)
          return ⟨(key₀, key₁), bytes.take valueLen⟩ :: fields
  | _ + 1, _ => .error (.serialization "Extension data truncated at key")

def deserializeExtension (blockId : BlockId) (bytes : Bytes) : StateResult Extension :=
  if bytes.length < 4 then .error (.serialization "Extension data too short")
  else do
    let fields ← deserializeFields (BigEndian.read (bytes.take 4)) (bytes.drop 4)
    return ⟨blockId, fields⟩

def getExtension (db : Database) (blockId : BlockId) : StateResult (Option Extension) :=
  match db.get .extensions blockId with
  | some bytes => do
      let extension ← deserializeExtension blockId bytes
      return some extension
  | none => return none

def getAdProofs (db : Database) (blockId : BlockId) : Option ADProofs :=
  (db.get .adProofs blockId).map fun proofBytes => ⟨blockId, proofBytes⟩

end BlockStore

/-- A block without a stored extension has an empty one. -/
def History.getFullBlock (db : Database) (id : BlockId) : StateResult (Option FullBlock) := do
  match ← HeaderStore.get sr db id with
  | none => return none
  | some header =>
      match ← BlockStore.getTransactions sr db id with
      | none => return none
      | some transactions =>
          let extension ← BlockStore.getExtension db id
          return some ⟨header, transactions, extension.getD (Extension.empty id), BlockStore.getAdProofs db id⟩

namespace VotedParameters

/-- A boundary whose block cannot be read back is passed over. -/
def updateAtHeight (db : Database) (params : VotedParameters) (height : Nat) : VotedParameters :=
  if isEpochBoundary height then
    match HeaderStore.getByHeight sr db height with
    | .ok (some header) =>
        match History.getFullBlock sr db header.id with
        | .ok (some block) => updateFromBlock block params
        | _ => params
    | _ => params
  else params

def updateForHeightRange (db : Database) (firstHeight lastHeight : Nat) (params : VotedParameters) :
    VotedParameters :=
  (List.range' firstHeight (lastHeight + 1 - firstHeight)).foldl (updateAtHeight sr db) params

/-! ### Parameters at start-up -/

def replayEpoch (db : Database) (params : VotedParameters) (epoch : Nat) : VotedParameters :=
  match HeaderStore.getByHeight sr db epoch with
  | .ok (some header) =>
      match History.getFullBlock sr db header.id with
      | .ok (some block) =>
          match block.extension.parseParameters with
          | .ok parsed => if parsed.entries = [] then params else fromExtension epoch parsed params
          | .error _ => params
      | _ => params
  | _ => params

def epochs (currentHeight : Nat) : List Nat :=
  List.range' votingEpochLength (currentHeight / votingEpochLength) votingEpochLength

/-- A node below the first boundary keeps the default parameters it is created with. -/
def initFromStorage (db : Database) (currentHeight : Nat) : VotedParameters :=
  (epochs currentHeight).foldl (replayEpoch sr db) default

end VotedParameters
end ErgoNode
