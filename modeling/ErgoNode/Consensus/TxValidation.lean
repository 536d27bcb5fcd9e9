import ErgoNode.Chain.Types
import Mathlib.Algebra.GroupWithZero.Nat

/-!
# Transaction validation

Conservation of ERG and tokens, storage rent and the spending conditions of the inputs. The script
interpreter and the byte strings it works on are third-party code: they come in as `Interpreter`.
Sums of 64-bit amounts wrap around, as they do in a release build.
-/

namespace ErgoNode

inductive ConsensusError where
  | invalidPow (reason : String)
  | invalidHeader (reason : String)
  | invalidTimestamp (blockTime parentTime : Nat)
  | invalidDifficulty (got expected : String)
  | invalidTransaction (reason : String)
  | transactionCostExceeded (txId : String) (cost max : Nat)
  | blockCostExceeded (cost max : Nat)
  | insufficientFunds (inputSum outputSum : Nat)
  | missingInput (txId : String) (inputIdx : Nat) (boxId : String)
  | missingDataInput (txId : String) (inputIdx : Nat) (boxId : String)
  | invalidTokenAmount (tokenId : String) (inputAmount outputAmount : Nat)
  | doubleSpend (boxId : String)
  | scriptVerificationFailed (txId error : String)
  | dataInputIntersection (boxId : String)
  deriving DecidableEq

abbrev ConsensusResult := Except ConsensusError

namespace ConsensusError

def message : ConsensusError → String
  | invalidPow reason => s!"Invalid PoW solution: {reason}"
  | invalidHeader reason => s!"Invalid block header: {reason}"
  | invalidTimestamp blockTime parentTime =>
      s!"Invalid timestamp: block {blockTime}, expected after {parentTime}"
  | invalidDifficulty got expected => s!"Invalid difficulty: got {got}, expected {expected}"
  | invalidTransaction reason => s!"Invalid transaction: {reason}"
  | transactionCostExceeded txId cost max =>
      s!"Transaction cost exceeded: {cost}, max {max} (tx: {txId})"
  | blockCostExceeded cost max => s!"Block cost exceeded: {cost}, max {max}"
  | insufficientFunds inputSum outputSum =>
      s!"Insufficient funds: inputs {inputSum}, outputs {outputSum}"
  | missingInput txId inputIdx boxId =>
      s!"Missing input for tx {txId}: input {inputIdx} box {boxId} not found"
  | missingDataInput txId inputIdx boxId =>
      s!"Missing data input for tx {txId}: input {inputIdx} box {boxId} not found"
  | invalidTokenAmount tokenId inputAmount outputAmount =>
      s!"Invalid token amount for {tokenId}: input {inputAmount}, output {outputAmount}"
  | doubleSpend boxId => s!"Double spend detected: box {boxId} already spent"
  | scriptVerificationFailed txId error => s!"Script verification failed for tx {txId}: {error}"
  | dataInputIntersection boxId => s!"Data input {boxId} cannot also be a regular input"

end ConsensusError

def u64 (n : Nat) : Nat := n % 2 ^ 64

def saturatingAdd (a b : Nat) : Nat := min (a + b) (2 ^ 64 - 1)

/-! ### The script interpreter -/

structure ScriptContext where
  height : Nat
  selfBox : ErgoBox
  inputs : List ErgoBox
  dataInputs : Option (List ErgoBox)
  outputs : List ErgoBox
  preHeader : Header
  headers : List Header
  extension : Bytes
  extensions : List Bytes

structure VerificationResult where
  result : Bool
  cost : Nat
  prettyPrintedExpr : Option String

/-- What validation takes from the sigma-rust crates beside `SigmaRust`: `outputIndex` is the 16-bit
value under key 127 of a context extension, `maxTxIo` the bound on a transaction's boxes, `getU32`
reads a number and gives the bytes behind it. -/
structure Interpreter where
  verify : Bytes → ScriptContext → Bytes → Bytes → Except String VerificationResult
  bytesToSign : Transaction → Except String Bytes
  outputIndex : Bytes → Option Int
  getRegister : ErgoBox → Nat → Option Bytes
  maxTxIo : Nat
  merkleRoot : List Bytes → Digest32
  getU32 : Bytes → Except String (Nat × Bytes)

/-! ### Conservation -/

def validateErgConservation (tx : Transaction) (inputBoxes : List ErgoBox) : ConsensusResult Nat :=
  let inputSum := u64 (inputBoxes.map ErgoBox.value).sum
  let outputSum := u64 (tx.outputs.map ErgoBox.value).sum
  if outputSum > inputSum then .error (.insufficientFunds inputSum outputSum)
  else .ok (inputSum - outputSum)

def tokensOf (boxes : List ErgoBox) : List Token := boxes.flatMap fun ergoBox => ergoBox.tokens.getD []

def tokenAmount (boxes : List ErgoBox) (tokenId : TokenId) : Nat :=
  u64 (((tokensOf boxes).filter (·.tokenId = tokenId)).map Token.amount).sum

/-- The source walks over the output tokens in no particular order; here they come in the order of
the outputs. -/
def validateTokenConservation (tx : Transaction) (inputBoxes : List ErgoBox) (isCoinbase : Bool) :
    ConsensusResult Unit :=
  let mintableTokenId := if isCoinbase then none else inputBoxes.head?.map ErgoBox.boxId
  ((tokensOf tx.outputs).map Token.tokenId).forM fun tokenId =>
    let inputAmount := tokenAmount inputBoxes tokenId
    let outputAmount := tokenAmount tx.outputs tokenId
    if outputAmount > inputAmount ∧ mintableTokenId ≠ some tokenId then
      .error (.invalidTokenAmount (hexEncode tokenId.bytes) inputAmount outputAmount)
    else .ok ()

/-! ### Costs -/

namespace CostConstants

def maxTxCost : Nat := 1000000

def inputBaseCost : Nat := 2000

def outputBaseCost : Nat := 100

def dataInputCost : Nat := 100

def sizeCostPerByte : Nat := 2

end CostConstants

def calculateBaseCost (numInputs numOutputs numDataInputs txSizeBytes : Nat) : Nat :=
  numInputs * CostConstants.inputBaseCost + numOutputs * CostConstants.outputBaseCost +
    numDataInputs * CostConstants.dataInputCost + txSizeBytes * CostConstants.sizeCostPerByte

/-! ### Storage rent -/

def storagePeriod : Nat := 1051200

def defaultStorageFeeFactor : Nat := 1250000

/-- All registers but R0 (the value) and R3 (the creation data). -/
def preservedRegisters : List Nat := [1, 2, 4, 5, 6, 7, 8, 9]

def outputAt (outputs : List ErgoBox) (outputIdx : Int) : Option ErgoBox :=
  if outputIdx < 0 then none else outputs[outputIdx.toNat]?

variable (sr : SigmaRust) (interpreter : Interpreter)

def checkStorageRentConditions (inputBox : ErgoBox) (extension : Bytes) (outputs : List ErgoBox)
    (currentHeight : Nat) : Bool :=
  if currentHeight - inputBox.creationHeight < storagePeriod then false
  else match (interpreter.outputIndex extension).bind (outputAt outputs) with
    | none => false
    | some output =>
        match sr.boxBytes inputBox with
        | .error _ => false
        | .ok boxBytes =>
            let storageFee := boxBytes.length * defaultStorageFeeFactor
            if inputBox.value ≤ storageFee then true
            else output.creationHeight = currentHeight ∧ inputBox.value - storageFee ≤ output.value ∧
              ∀ reg ∈ preservedRegisters,
                interpreter.getRegister inputBox reg = interpreter.getRegister output reg

/-! ### Spending conditions -/

structure TxVerificationResult where
  valid : Bool
  scriptCost : Nat
  totalCost : Nat
  error : Option String

structure TxVerifier where
  height : Nat
  preHeader : Header
  headers : List Header

namespace TxVerifier
variable (verifier : TxVerifier)

def rejected (scriptCost totalCost : Nat) (error : String) : TxVerificationResult :=
  ⟨false, scriptCost, totalCost, some error⟩

def fitsTxIo (boxes : List ErgoBox) : Bool := 1 ≤ boxes.length ∧ boxes.length ≤ interpreter.maxTxIo

def diagnosis : Option String → String
  | some expr => s!"Script reduced to false. Expr: {expr}"
  | none => "Script proof verification failed (signature mismatch)"

def context (tx : Transaction) (inputBoxes : List ErgoBox) (dataInputs : Option (List ErgoBox)) (input : Input)
    (inputBox : ErgoBox) : ScriptContext where
  height := verifier.height
  selfBox := inputBox
  inputs := inputBoxes
  dataInputs := dataInputs
  outputs := tx.outputs
  preHeader := verifier.preHeader
  headers := verifier.headers
  extension := input.extension
  extensions := tx.inputs.map Input.extension

def verifyInput (tx : Transaction) (inputBoxes : List ErgoBox) (dataInputs : Option (List ErgoBox))
    (baseCost scriptCost : Nat) (entry : (Input × ErgoBox) × Nat) : Except TxVerificationResult Nat := do
  let ((input, inputBox), idx) := entry
  let message ← (interpreter.bytesToSign tx).mapError fun e =>
    rejected 0 baseCost s!"Failed to get bytes to sign: {e}"
  if input.proof = [] ∧
      checkStorageRentConditions sr interpreter inputBox input.extension tx.outputs verifier.height then
    return scriptCost
  else
    let context := verifier.context tx inputBoxes dataInputs input inputBox
    let result ← (interpreter.verify inputBox.ergoTree context input.proof message).mapError fun e =>
      rejected scriptCost (saturatingAdd baseCost scriptCost) s!"Script error for input {idx}: {e}"
    let scriptCost := u64 (scriptCost + result.cost)
    let currentTotal := saturatingAdd baseCost scriptCost
    if currentTotal > CostConstants.maxTxCost then
      throw (rejected scriptCost currentTotal
        s!"Transaction cost {currentTotal} exceeds limit {CostConstants.maxTxCost}")
    else if !result.result then
      throw (rejected scriptCost currentTotal
        s!"Script verification failed for input {idx}: {diagnosis result.prettyPrintedExpr}")
    else return scriptCost

def verifyTx (tx : Transaction) (inputBoxes dataInputBoxes : List ErgoBox) : TxVerificationResult :=
  let txSize := ((sr.txBytes tx).toOption.map List.length).getD 0
  let baseCost := calculateBaseCost tx.inputs.length tx.outputs.length
    ((tx.dataInputs.map List.length).getD 0) txSize
  let dataInputs := if dataInputBoxes = [] then none else some dataInputBoxes
  if dataInputBoxes ≠ [] ∧ !fitsTxIo interpreter dataInputBoxes then
    rejected 0 baseCost "Invalid number of data inputs"
  else if !fitsTxIo interpreter inputBoxes then rejected 0 baseCost "Invalid number of inputs"
  else match (tx.inputs.zip inputBoxes).zipIdx.foldlM
      (verifier.verifyInput sr interpreter tx inputBoxes dataInputs baseCost) 0 with
    | .error result => result
    | .ok scriptCost => ⟨true, scriptCost, saturatingAdd baseCost scriptCost, none⟩

end TxVerifier

end ErgoNode
