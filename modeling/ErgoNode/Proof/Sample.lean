import ErgoNode.Mempool.Pool
import ErgoNode.State.Utxo

/-!
# Sample chain objects

A codec over a finite table, and boxes and headers that differ in their ids only: the concrete
values that the general results are tried on.
-/

namespace ErgoNode.Proof.Sample
open Lib

def encode {T : Type} [DecidableEq T] (table : List T) (t : T) : Except String Bytes :=
  if t ∈ table then .ok (List.replicate (table.idxOf t) 0) else .error "not in the table"

def decode {T : Type} (table : List T) (bytes : Bytes) : Except String T :=
  match table[bytes.length]? with
  | some t => .ok t
  | none => .error "not in the table"

theorem decodeIn_encodeIn {T : Type} [DecidableEq T] {table : List T} {t : T} {bytes : Bytes}
    (encoded : encode table t = .ok bytes) : decode table bytes = .ok t := by
  unfold encode at encoded
  split at encoded
  · next member =>
      cases encoded
      simp [decode, List.getElem?_eq_getElem (List.idxOf_lt_length_of_mem member)]
  · cases encoded

theorem mem_of_decode {T : Type} {table : List T} {bytes : Bytes} {t : T}
    (decoded : decode table bytes = .ok t) : t ∈ table := by
  unfold decode at decoded
  split at decoded
  · next found =>
      cases decoded
      exact List.mem_of_getElem? found
  · cases decoded

theorem encode_le_of_decode {T : Type} [DecidableEq T] {table : List T} {t : T} {bytes written : Bytes}
    (decoded : decode table bytes = .ok t) (encoded : encode table t = .ok written) :
    written.length ≤ bytes.length := by
  unfold decode at decoded
  split at decoded
  · next found =>
      cases decoded
      unfold encode at encoded
      split at encoded
      · cases encoded
        rw [List.length_replicate]
        by_contra later
        obtain ⟨there, here⟩ := List.getElem?_eq_some_iff.mp found
        have other := List.not_of_lt_findIdx (Nat.lt_of_not_le later)
        simp [here] at other
      · cases encoded
  · cases decoded

def codec (boxes : List ErgoBox) (headers : List Header) (txs : List Transaction) : SigmaRust where
  blake2b256 bytes := ((headers[bytes.length]?).map Header.id).getD .zero
  boxBytes := encode boxes
  parseBox := decode boxes
  treeBytes := .ok
  headerBytes := encode headers
  parseHeader := decode headers
  txBytes := encode txs
  parseTx := decode txs
  parse_boxBytes := decodeIn_encodeIn

def sampleBox (n : UInt8) : ErgoBox where
  boxId := .filled n
  value := 1000000
  ergoTree := [0, 8, 205]
  tokens := none
  additionalRegisters := []
  creationHeight := 1
  transactionId := .zero
  index := 0

def sampleEntry (n : UInt8) (creationHeight : Nat) : BoxEntry := ⟨sampleBox n, creationHeight, .zero, 0⟩

def boxCodec : SigmaRust := codec (List.map sampleBox [1, 2, 3, 4]) [] []

def firstChange : StateChange := ⟨[sampleEntry 1 1, sampleEntry 2 1], []⟩

def fresh : OnDatabase UtxoState := ⟨.empty, .new⟩

def afterFirst : OnDatabase UtxoState := ((UtxoState.applyChange boxCodec firstChange 1).exec fresh).2

/-! ### Headers and blocks -/

def easyBits : UInt32 := 0x207fffff

def hardBits : UInt32 := 0x203fffff

def sampleHeader (id parentId : UInt8) (height : Nat) (nBits : UInt32) : Header where
  version := 2
  id := .filled id
  parentId := .filled parentId
  adProofsRoot := .zero
  stateRoot := List.replicate 33 7
  transactionRoot := .zero
  timestamp := height
  nBits
  height
  extensionRoot := .zero
  autolykosSolution := ⟨[], none, [], none⟩
  votes := [0, 0, 0]
  unparsedBytes := []

/-- Two branches over a common first header: 11, 12, 13 and 22, 23. -/
def header11 : Header := sampleHeader 11 0 1 easyBits
def header12 : Header := sampleHeader 12 11 2 easyBits
def header13 : Header := sampleHeader 13 12 3 easyBits
def header22 : Header := sampleHeader 22 11 2 easyBits
def header23 : Header := sampleHeader 23 22 3 hardBits

def chainCodec : SigmaRust :=
  codec (List.map sampleBox [1, 2, 3, 4]) [header11, header12, header13, header22, header23] []

def sampleBlock (header : Header) : FullBlock :=
  ⟨header, ⟨header.id, [], 1⟩, Extension.empty header.id, none⟩

def emptyChange : StateChange := ⟨[], []⟩

/-! ### Pooled transactions -/

def inOrder : Schedule := ⟨fun _ ids => ids, fun _ _ => .refl _, fun _ => true⟩

def pooledTx (id : UInt8) (fee : Nat) (inputs outputs : List UInt8) : PooledTransaction where
  id := [id]
  bytes := List.replicate 4 0
  fee
  inputs := inputs.map fun boxId => [boxId]
  outputs := outputs.map fun boxId => [boxId]
  arrivalTime := 1000
  estimatedCost := none

def pooledParent : PooledTransaction := pooledTx 2 3 [20] [21, 22]
def pooledChild : PooledTransaction := pooledTx 1 5 [21, 22] [11]

end ErgoNode.Proof.Sample
