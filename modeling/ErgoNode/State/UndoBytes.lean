import ErgoNode.Lib.BigEndian
import ErgoNode.Lib.Reader
import ErgoNode.Storage.Database

/-!
# Undo records byte by byte

The records of `State.Utxo` with the fixed-width fields of the code, and the bytes they are stored as. Each
spent box and each created id stands behind its length.
-/

namespace ErgoNode.UndoBytes
open Lib

structure BoxEntry where
  ergoBox : ErgoBox
  creationHeight : UInt32
  txId : Bytes
  outputIndex : UInt16
  deriving DecidableEq

structure UndoData where
  height : UInt32
  spentBoxes : List BoxEntry
  createdBoxIds : List Bytes
  deriving DecidableEq

/-- A length of 2^32 or more is cut off. -/
def framed (bytes : Bytes) : Bytes := BigEndian.write 4 bytes.length ++ bytes

variable (sr : SigmaRust)

namespace BoxEntry

def serialize (entry : BoxEntry) : StateResult Bytes := do
  let boxBytes ← (sr.boxBytes entry.ergoBox).mapError .serialization
  return BigEndian.write 4 entry.creationHeight.toNat ++ entry.txId ++ BigEndian.write 2 entry.outputIndex.toNat ++
    boxBytes

def deserialize (bytes : Bytes) : StateResult BoxEntry := do
  if bytes.length < 38 then throw (.serialization "Box entry too short")
  let creationHeight := UInt32.ofNat (BigEndian.read (bytes.take 4))
  let txId := (bytes.drop 4).take 32
  let outputIndex := UInt16.ofNat (BigEndian.read ((bytes.drop 36).take 2))
  let ergoBox ← (sr.parseBox (bytes.drop 38)).mapError .serialization
  return ⟨ergoBox, creationHeight, txId, outputIndex⟩

end BoxEntry

/-- The size of a `Vec<u8>` in memory. -/
def createdIdSize : Nat := 24

def u32 : Read StateError UInt32 := (fun bytes => UInt32.ofNat (BigEndian.read bytes)) <$> Read.take 4

def requireLeft (n : Nat) : Read StateError Unit := do
  let rest ← Read.look
  if rest.length < n then Read.fail (.serialization "Undo data truncated") else return

def checkedU32 : Read StateError UInt32 := do
  requireLeft 4
  u32

def readFramed : Read StateError Bytes := do
  let len ← checkedU32
  requireLeft len.toNat
  Read.take len.toNat

namespace UndoData

def serialize (undo : UndoData) : StateResult Bytes := do
  let entries ← undo.spentBoxes.mapM (BoxEntry.serialize sr)
  return BigEndian.write 4 undo.height.toNat ++
    (BigEndian.write 4 undo.spentBoxes.length ++ entries.flatMap framed) ++
    (BigEndian.write 4 undo.createdBoxIds.length ++ undo.createdBoxIds.flatMap framed)

def readSpentBox : Read StateError BoxEntry := do
  let entryBytes ← readFramed
  Read.ofExcept (BoxEntry.deserialize sr entryBytes)

/-- A box entry takes `entrySize` bytes in memory. -/
def read (entrySize : Nat) : Read StateError UndoData := do
  let bytes ← Read.look
  if bytes.length < 12 then Read.fail (.serialization "Undo data too short")
  else
    let height ← u32
    let spentCount ← u32
    Read.withCapacity isizeMax spentCount.toNat entrySize
    let spentBoxes ← Read.repeated (readSpentBox sr) spentCount.toNat
    let createdCount ← checkedU32
    Read.withCapacity isizeMax createdCount.toNat createdIdSize
    let createdBoxIds ← Read.repeated readFramed createdCount.toNat
    return ⟨height, spentBoxes, createdBoxIds⟩

/-- Bytes behind the last created id are left alone. -/
def deserialize (entrySize : Nat) (bytes : Bytes) : Except (Stop StateError) UndoData :=
  ((read sr entrySize).exec ⟨0, bytes⟩).result.map Prod.fst

end UndoData
end ErgoNode.UndoBytes
