import ErgoNode.Consensus.Block
import ErgoNode.Lib.Vlq
import Mathlib.Data.List.AList
import ErgoNode.Lib.Reader

/-!
# The extension section

Key-value fields behind the header id. At voting epochs they carry the chain parameters, as 32-bit
numbers under keys with a prefix of their own. Errors are the reasons of an `InvalidExtension`.
-/

namespace ErgoNode
open Lib

namespace Extension

def vlqFault : Vlq.Fault → String
  | .truncated => "Truncated VLQ"
  | .overflow => "VLQ overflow"

/-- Sections are only read: no encoder stands beside it. -/
def vlqDecode (data : Bytes) : Except String (Nat × Nat) := (Vlq.decodeAt data 0).mapError vlqFault

/-- The source reserves room for the fields before it reads them, and panics at a number of fields that
no memory holds. Here the bytes run out. -/
def parseFields : Nat → Bytes → Except String (List ExtensionField)
  | 0, _ => .ok []
  | count + 1, key₀ :: key₁ :: rest =>
      match rest with
      | [] => .error "Extension data truncated at value length"
      | valueLen :: rest =>
          if valueLen.toNat > rest.length then .error "Extension data truncated at value"
          else do
            let fields ← parseFields count (rest.drop valueLen.toNat)
            return ⟨(key₀, key₁), rest.take valueLen.toNat⟩ :: fields
  | _ + 1, _ => .error "Extension data truncated at key"

/-- Bytes behind the last field are not looked at. -/
def parse (data : Bytes) : Except String Extension :=
  if data.length < 33 then .error "Extension data too short"
  else do
    let (fieldCount, bytesRead) ← (Vlq.decode (data.drop 32)).mapError
      fun e => s!"Failed to decode field count: {vlqFault e}"
    let fields ← parseFields fieldCount (data.drop (32 + bytesRead))
    return ⟨blockIdOf (data.take 32), fields⟩

/-! ### Parameters -/

def systemParamsPrefix : UInt8 := 0

def softForkParams : UInt8 := 120

abbrev ParameterTable := AList fun _ : UInt8 => Int

def i32FromBeBytes (bytes : Bytes) : Int :=
  (Int.ofNat (bytes.foldl (fun n byte => n * 256 + byte.toNat) 0)).bmod (2 ^ 32)

def addParameter (params : ParameterTable) (field : ExtensionField) : Except String ParameterTable :=
  let paramId := field.key.2
  if field.key.1 ≠ systemParamsPrefix then .ok params
  else if paramId ≥ softForkParams then .ok params
  else if field.value.length ≠ 4 then
    .error s!"Parameter {paramId} has invalid value length: {field.value.length} (expected 4)"
  else .ok (params.insert paramId (i32FromBeBytes field.value))

def parseParameters (extension : Extension) : Except String ParameterTable :=
  extension.fields.foldlM addParameter ∅

end Extension
end ErgoNode

/-!
### Sections read byte by byte

The parsers of the extension and of the transactions with the room they reserve, and with the panics of
an access past the end of the data.
-/

namespace ErgoNode
open Lib

/-! ### The extension -/

def extensionFieldSize : Nat := 32

def ExtensionField.read : Read String ExtensionField := do
  match ← Read.span (2 ^ 64) 2 with
  | none => Read.fail "Extension data truncated at key"
  | some key =>
      let rest ← Read.look
      if rest = [] then Read.fail "Extension data truncated at value length"
      else
        let valueLen ← Read.byte
        match ← Read.span (2 ^ 64) valueLen.toNat with
        | none => Read.fail "Extension data truncated at value"
        | some value => return ⟨(key.getD 0 0, key.getD 1 0), value⟩

def Extension.readFields : Read String (List ExtensionField) := do
  let rest ← Read.look
  let (fieldCount, bytesRead) ← Read.ofExcept ((Vlq.decode rest).mapError
    fun e => s!"Failed to decode field count: {vlqFault e}")
  Read.advance bytesRead
  Read.withCapacity isizeMax fieldCount extensionFieldSize
  Read.repeated ExtensionField.read fieldCount

def Extension.read : Read String Extension := do
  let data ← Read.look
  if data.length < 33 then Read.fail "Extension data too short"
  else
    let headerId ← Read.take 32
    let fields ← readFields
    return ⟨blockIdOf headerId, fields⟩

/-! ### The transactions -/

namespace BlockTransactions
variable (sr : SigmaRust) (interpreter : Interpreter)

def readU32 (reason : String) : Read BlockTransactionsParseError Nat := do
  let data ← Read.look
  let (n, rest) ← Read.ofExcept ((interpreter.getU32 data).mapError fun _ => .invalidFormat reason)
  Read.advance (data.length - rest.length)
  return n

def readTransactions : Nat → Nat → Read BlockTransactionsParseError (List Transaction)
  | 0, _ => return []
  | count + 1, i => do
      let remaining ← Read.look
      let tx ← Read.ofExcept ((sr.parseTx remaining).mapError fun e => .transactionParse s!"tx {i}: {e}")
      let txBytes ← Read.ofExcept ((sr.txBytes tx).mapError fun e => .transactionParse s!"tx {i} size: {e}")
      Read.advance txBytes.length
      let txs ← readTransactions count (i + 1)
      return tx :: txs

def readCounts : Read BlockTransactionsParseError (Nat × Nat) := do
  let firstUint ← readU32 interpreter "Failed to read first uint"
  if firstUint > maxTransactionsInBlock then
    let count ← readU32 interpreter "Failed to read tx count"
    return ((firstUint - maxTransactionsInBlock) % 2 ^ 8, count)
  else return (1, firstUint)

/-- A transaction in memory takes `txSize` bytes. -/
def read (txSize : Nat) : Read BlockTransactionsParseError BlockTransactions := do
  let data ← Read.look
  if data.length < 32 then Read.fail .tooShort
  else
    let headerId ← Read.take 32
    let (blockVersion, txCount) ← readCounts interpreter
    Read.withCapacity isizeMax txCount txSize
    let txs ← readTransactions sr txCount 0
    return ⟨blockIdOf headerId, txs, blockVersion⟩

end BlockTransactions
end ErgoNode
