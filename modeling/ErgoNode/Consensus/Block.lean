import ErgoNode.Consensus.TxValidation

/-!
# Block sections

The transactions section of a block: its wire format, its Merkle root and its check against the
header.
-/

namespace ErgoNode

/-- Bytes that are not an id count as the id of zeros. -/
def blockIdOf (bytes : Bytes) : BlockId := if size : bytes.length = 32 then ⟨bytes, size⟩ else .zero

def identityPoint : Bytes := List.replicate 33 0

/-- The virtual parent of the block at height 1. -/
def genesisParentHeader : Header where
  version := 1
  id := .zero
  parentId := .zero
  adProofsRoot := .zero
  stateRoot := List.replicate 33 0
  transactionRoot := .zero
  timestamp := 0
  nBits := 0
  height := 0
  extensionRoot := .zero
  autolykosSolution := ⟨identityPoint, none, List.replicate 8 0, none⟩
  votes := [0, 0, 0]
  unparsedBytes := []

inductive BlockValidationError where
  | headerIdMismatch (expected got : String)
  | transactionsRootMismatch (expected computed : String)
  deriving DecidableEq

def BlockValidationError.message : BlockValidationError → String
  | headerIdMismatch expected got => s!"Header ID mismatch: expected {expected}, got {got}"
  | transactionsRootMismatch expected computed =>
      s!"Transactions root mismatch: header has {expected}, computed {computed}"

inductive BlockTransactionsParseError where
  | tooShort
  | invalidFormat (reason : String)
  | transactionParse (reason : String)
  deriving DecidableEq

variable (sr : SigmaRust) (interpreter : Interpreter)

namespace BlockTransactions

/-- A first number above it is this value plus the block version. -/
def maxTransactionsInBlock : Nat := 10000000

/-- Each transaction is serialized again to learn how many bytes it took. The source panics where
these are more than what was left; here nothing is left then. -/
def parseTransactions : Nat → Nat → Bytes → Except BlockTransactionsParseError (List Transaction)
  | 0, _, _ => .ok []
  | count + 1, i, remaining => do
      let tx ← (sr.parseTx remaining).mapError fun e => .transactionParse s!"tx {i}: {e}"
      let txBytes ← (sr.txBytes tx).mapError fun e => .transactionParse s!"tx {i} size: {e}"
      let txs ← parseTransactions count (i + 1) (remaining.drop txBytes.length)
      return tx :: txs

/-- The header id, the version marker where there is one, the number of transactions and these one
after the other. Bytes behind the last one are not looked at. -/
def parse (data : Bytes) : Except BlockTransactionsParseError BlockTransactions :=
  if data.length < 32 then .error .tooShort
  else do
    let headerId := blockIdOf (data.take 32)
    let (firstUint, rest) ← (interpreter.getU32 (data.drop 32)).mapError fun _ =>
      .invalidFormat "Failed to read first uint"
    let (blockVersion, txCount, rest) ← (if firstUint > maxTransactionsInBlock then do
        let (count, rest) ← (interpreter.getU32 rest).mapError fun _ =>
          .invalidFormat "Failed to read tx count"
        return ((firstUint - maxTransactionsInBlock) % 2 ^ 8, count, rest)
      else return (1, firstUint, rest))
    let txs ← parseTransactions sr txCount 0 rest
    return ⟨headerId, txs, blockVersion⟩

/-- The hash of a transaction's proofs without its first byte. -/
def witnessId (tx : Transaction) : Bytes := (sr.blake2b256 (tx.inputs.flatMap Input.proof)).bytes.drop 1

/-- From version 2 on the witness ids are leaves too. -/
def computeMerkleRoot (block : BlockTransactions) : Digest32 :=
  if block.txs = [] then sr.blake2b256 []
  else
    let txIds := block.txs.map fun tx => tx.id.bytes
    interpreter.merkleRoot
      (if block.blockVersion = 1 then txIds else txIds ++ block.txs.map (witnessId sr))

def validateAgainstHeader (block : BlockTransactions) (header : Header) :
    Except BlockValidationError Unit :=
  let computed := computeMerkleRoot sr interpreter block
  if block.headerId ≠ header.id then
    .error (.headerIdMismatch (hexEncode header.id.bytes) (hexEncode block.headerId.bytes))
  else if computed ≠ header.transactionRoot then
    .error (.transactionsRootMismatch (hexEncode header.transactionRoot.bytes) (hexEncode computed.bytes))
  else .ok ()

end BlockTransactions

end ErgoNode
