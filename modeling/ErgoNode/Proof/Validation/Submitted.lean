import ErgoNode.Node.AddTransaction
import ErgoNode.Proof.Validation.Sequential

/-!
# Transactions of the mempool in blocks

The handler and block validation look up the same boxes and apply the same conservation rules. Block
validation has three rules more: no input is named twice, no data input is an input, and every output
has the least value. A transaction that the handler admits is valid in a block exactly when it meets
those that apply at the block's height.
-/

namespace ErgoNode.Proof.Validation
open Lib Ledger FullBlockValidator Sample

/-! ### The boxes in sight -/

section Overlay
variable {lookup : BoxId → Option ErgoBox} {createdInBlock : ErgoBoxMap}

def outputBoxes (txs : List Transaction) : List ErgoBox := txs.flatMap Transaction.outputs

def ShowsOutputs (done : List Transaction) (createdInBlock : ErgoBoxMap) : Prop :=
  ∀ boxId ergoBox, createdInBlock boxId = some ergoBox →
    ergoBox ∈ outputBoxes done ∧ ergoBox.boxId = boxId

theorem ShowsOutputs.insertAll {done : List Transaction} (shows : ShowsOutputs done createdInBlock)
    (tx : Transaction) : ShowsOutputs (done ++ [tx]) (createdInBlock.insertAll tx.outputs) := by
  intro boxId ergoBox held
  have outputs : outputBoxes (done ++ [tx]) = outputBoxes done ++ tx.outputs := by simp [outputBoxes]
  rw [outputs, List.mem_append]
  by_cases output : boxId ∈ tx.outputs.map ErgoBox.boxId
  · obtain ⟨created, member, same, here⟩ := Store.exists_of_write_puts createdInBlock id output
    cases here.symm.trans held
    exact ⟨.inr member, same⟩
  · rw [ErgoBoxMap.insertAll, Store.write_puts_of_not_mem _ id output] at held
    obtain ⟨member, same⟩ := shows boxId ergoBox held
    exact ⟨.inl member, same⟩

theorem showsOutputs_start : ShowsOutputs [] TxLoop.start.createdInBlock := by
  intro boxId ergoBox held
  cases held

theorem ShowsOutputs.step {sr : SigmaRust} {interpreter : Interpreter} {validator : FullBlockValidator}
    {verifier : TxVerifier} {checkpointMode : Bool} {done : List Transaction} {acc next : TxLoop}
    {tx : Transaction} {idx : Nat} (shows : ShowsOutputs done acc.createdInBlock)
    (ran : validateTransaction sr interpreter validator verifier checkpointMode lookup acc (tx, idx) =
      .ok next) : ShowsOutputs (done ++ [tx]) next.createdInBlock := by
  simp only [validateTransaction, Except.bind_ok_eq_ok, Except.pure_eq_ok] at ran
  obtain ⟨_, -, _, -, _, -, rfl⟩ := ran
  exact shows.insertAll tx

/-- The other transactions of a block leave what `tx` reads as it is: they spend none of its inputs,
and an output of theirs with an id that it reads is the box that is found under this id. -/
structure Beside (lookup : BoxId → Option ErgoBox) (front : List Transaction) (tx : Transaction) : Prop where
  unspent : ∀ boxId ∈ tx.move.inputs, boxId ∉ consumed (front.map Transaction.move)
  sameBoxes : ∀ ergoBox ∈ outputBoxes front, ergoBox.boxId ∈ tx.move.inputs ++ tx.dataInputs.getD [] →
    lookup ergoBox.boxId = some ergoBox

theorem Beside.findBox_eq {front : List Transaction} {tx : Transaction} (beside : Beside lookup front tx)
    (shows : ShowsOutputs front createdInBlock) {boxId : BoxId}
    (read : boxId ∈ tx.move.inputs ++ tx.dataInputs.getD []) :
    findBox lookup createdInBlock boxId = lookup boxId := by
  unfold findBox
  split
  · next ergoBox held =>
      obtain ⟨member, rfl⟩ := shows _ ergoBox held
      exact (beside.sameBoxes ergoBox member read).symm
  · rfl

end Overlay

/-! ### The rules -/

section Rules
variable {lookup : BoxId → Option ErgoBox} {tx : Transaction}

theorem validateNoDataInputIntersection_eq_ok : validateNoDataInputIntersection tx = .ok () ↔
    ∀ boxId ∈ tx.dataInputs.getD [], boxId ∉ tx.move.inputs := by
  rw [validateNoDataInputIntersection, forM_eq_ok]
  refine forall₂_congr fun boxId _ => ?_
  split
  · next member => simpa [Transaction.move] using member
  · next fresh => simpa [Transaction.move] using fresh

theorem checkOutputValues_eq_ok : checkOutputValues tx = .ok () ↔
    ∀ output ∈ tx.outputs, minBoxValue ≤ output.value := by
  rw [checkOutputValues, forM_eq_ok]
  conv_rhs => rw [← List.zipIdx_map_fst 0 tx.outputs, List.forall_mem_map]
  refine forall₂_congr fun ⟨output, outIdx⟩ _ => ?_
  dsimp only
  split
  · next low => simpa using low
  · next enough => simpa using enough

structure Conserves (lookup : BoxId → Option ErgoBox) (tx : Transaction) (inputBoxes : List ErgoBox) : Prop where
  inputs : List.Forall₂ (fun boxId ergoBox => lookup boxId = some ergoBox) tx.move.inputs inputBoxes
  dataInputs : ∃ boxes,
    List.Forall₂ (fun boxId ergoBox => lookup boxId = some ergoBox) (tx.dataInputs.getD []) boxes
  erg : ∃ fee, validateErgConservation tx inputBoxes = .ok fee
  tokens : validateTokenConservation tx inputBoxes false = .ok ()

theorem findInput_eq_ok {sr : SigmaRust} {db : Database} {input : Input} {ergoBox : ErgoBox} :
    Node.findInput sr db input = .ok ergoBox ↔ Node.lookupBox sr db input.boxId = some ergoBox := by
  unfold Node.findInput Node.lookupBox
  cases UtxoState.getBox sr db input.boxId with
  | error e => simp [Except.toOption]
  | ok entry => cases entry <;> simp [Except.toOption]

theorem validateSubmitted_eq_ok {sr : SigmaRust} {db : Database} :
    Node.validateSubmitted sr db tx = .ok () ↔ ∃ boxes, Conserves (Node.lookupBox sr db) tx boxes := by
  simp only [Node.validateSubmitted, Except.bind_ok_eq_ok, Except.mapError_ok_iff, mapM_eq_ok, findInput_eq_ok]
  constructor
  · rintro ⟨boxes, inputs, dataBoxes, dataInputs, fee, erg, tokens⟩
    exact ⟨boxes, ⟨List.forall₂_map_left_iff.mpr inputs, ⟨dataBoxes, collectBoxes_eq_ok.mp dataInputs⟩,
      ⟨fee, erg⟩, tokens⟩⟩
  · rintro ⟨boxes, inputs, ⟨dataBoxes, dataInputs⟩, ⟨fee, erg⟩, tokens⟩
    exact ⟨boxes, List.forall₂_map_left_iff.mp inputs, dataBoxes, collectBoxes_eq_ok.mpr dataInputs, fee, erg,
      tokens⟩

end Rules

/-! ### One more transaction -/

/-- The rules of a block that the handler does not check; up to the checkpoint only the first one is
applied. -/
def Minable (validator : FullBlockValidator) (height : Nat) (tx : Transaction) : Prop :=
  tx.move.inputs.Nodup ∧ (validator.isBelowCheckpoint height = false →
    (∀ boxId ∈ tx.dataInputs.getD [], boxId ∉ tx.move.inputs) ∧
      ∀ output ∈ tx.outputs, minBoxValue ≤ output.value)

section Appended
variable {sr : SigmaRust} {interpreter : Interpreter} {validator : FullBlockValidator}
variable {lookup : BoxId → Option ErgoBox} {front : List Transaction} {tx : Transaction} {acc : TxLoop}
variable {verifier : TxVerifier}

theorem fullyValidate_isOk_iff (skips : validator.skipScriptVerification = true)
    (beside : Beside lookup front tx) (shows : ShowsOutputs front acc.createdInBlock)
    {inputBoxes : List ErgoBox} (conserves : Conserves lookup tx inputBoxes) :
    (∃ result, validator.fullyValidate sr interpreter verifier lookup acc false tx = .ok result) ↔
      (∀ boxId ∈ tx.dataInputs.getD [], boxId ∉ tx.move.inputs) ∧
        ∀ output ∈ tx.outputs, minBoxValue ≤ output.value := by
  obtain ⟨dataBoxes, dataInputs⟩ := conserves.dataInputs
  obtain ⟨fee, erg⟩ := conserves.erg
  have sighted : ∀ {ids : List BoxId} {boxes : List ErgoBox},
      (∀ boxId ∈ ids, boxId ∈ tx.move.inputs ++ tx.dataInputs.getD []) →
      List.Forall₂ (fun boxId ergoBox => lookup boxId = some ergoBox) ids boxes →
      List.Forall₂ (fun boxId ergoBox => findBox lookup acc.createdInBlock boxId = some ergoBox) ids boxes := by
    intro ids boxes read found
    have both := (List.forall₂_and_left _ _).mpr ⟨read, found⟩
    exact both.imp fun boxId ergoBox here => (beside.findBox_eq shows here.1).trans here.2
  have inputs : collectInputBoxes tx lookup acc.createdInBlock = .ok inputBoxes :=
    collectBoxes_eq_ok.mpr (sighted (fun _ => List.mem_append_left _) conserves.inputs)
  have dataInputs : collectDataInputBoxes tx lookup acc.createdInBlock = .ok dataBoxes :=
    collectBoxes_eq_ok.mpr (sighted (fun _ => List.mem_append_right _) dataInputs)
  rw [← validateNoDataInputIntersection_eq_ok, ← checkOutputValues_eq_ok]
  simp [fullyValidate, inputs, dataInputs, erg, conserves.tokens, skips, Unique.exists_iff]

variable {headerId : BlockId} {blockVersion height : Nat} {preHeader : Header} {lastHeaders : List Header}

theorem validateTransaction_isOk_iff (skips : validator.skipScriptVerification = true) {idx : Nat}
    (later : idx ≠ 0) (beside : Beside lookup front tx) (shows : ShowsOutputs front acc.createdInBlock)
    (spent : acc.spentInBlock = consumed (front.map Transaction.move)) {inputBoxes : List ErgoBox}
    (conserves : Conserves lookup tx inputBoxes) :
    (∃ next, validator.validateTransaction sr interpreter verifier (validator.isBelowCheckpoint height) lookup
      acc (tx, idx) = .ok next) ↔ Minable validator height tx := by
  have distinct : checkDoubleSpend [] tx.move.inputs = .ok () ↔ tx.move.inputs.Nodup := by
    simp [checkDoubleSpend_eq_ok]
  have fresh : checkSpentInBlock acc.spentInBlock tx = .ok () :=
    checkSpentInBlock_eq_ok.mpr (spent ▸ beside.unspent)
  have full := @fullyValidate_isOk_iff sr interpreter validator lookup front tx acc verifier skips beside shows
    inputBoxes conserves
  rw [Minable, ← distinct, ← full]
  simp only [validateTransaction, fresh, later, Except.bind_ok_eq_ok, Except.pure_eq_ok, Transaction.move]
  cases validator.isBelowCheckpoint height <;> simp [Unique.exists_iff]

theorem validateTransactions_append
    (ran : front.zipIdx.foldlM (validator.validateTransaction sr interpreter ⟨height, preHeader, lastHeaders⟩
      (validator.isBelowCheckpoint height) lookup) TxLoop.start = .ok acc) :
    (∃ result, validator.validateTransactions sr interpreter ⟨headerId, front ++ [tx], blockVersion⟩ height
      preHeader lastHeaders lookup = .ok result) ↔
      ∃ next, validator.validateTransaction sr interpreter ⟨height, preHeader, lastHeaders⟩
        (validator.isBelowCheckpoint height) lookup acc (tx, front.length) = .ok next := by
  simp [validateTransactions, List.zipIdx_append, ran]

theorem append_accepted_iff (skips : validator.skipScriptVerification = true) (nonempty : front ≠ [])
    {result : Nat × ValidatedStateChange}
    (accepted : validator.validateTransactions sr interpreter ⟨headerId, front, blockVersion⟩ height preHeader
      lastHeaders lookup = .ok result)
    (beside : Beside lookup front tx) {inputBoxes : List ErgoBox} (conserves : Conserves lookup tx inputBoxes) :
    (∃ result, validator.validateTransactions sr interpreter ⟨headerId, front ++ [tx], blockVersion⟩ height
      preHeader lastHeaders lookup = .ok result) ↔ Minable validator height tx := by
  obtain ⟨acc, ran, -⟩ := validateTransactions_eq_ok sr interpreter accepted
  have valid := foldlM_zipIdx_invariant (Validated _ lookup)
    (fun inv ran => inv.step sr interpreter ran) Validated.start ran
  have shows := foldlM_zipIdx_invariant (fun done acc => ShowsOutputs done acc.createdInBlock)
    (fun inv ran => ShowsOutputs.step inv ran) showsOutputs_start ran
  rw [validateTransactions_append ran]
  exact validateTransaction_isOk_iff skips (by simpa using nonempty) beside shows valid.spentInBlock conserves

end Appended

/-! ### What the handler admits -/

section Admitted
variable {sr : SigmaRust} {around : Surroundings} {schedule : Schedule} {command : AddTransaction} {s : Session}

theorem conserves_of_admitted {tx : Transaction} (parsed : sr.parseTx command.txData = .ok tx)
    (admitted : ∃ message, (Node.addTransaction sr around schedule command s).1 = .ok message) :
    ∃ boxes, Conserves (Node.lookupBox sr around.db) tx boxes := by
  obtain ⟨message, admitted⟩ := admitted
  cases checked : Node.validateSubmitted sr around.db tx with
  | error e => simp [Node.addTransaction, parsed, checked, Except.mapError] at admitted
  | ok _ => exact validateSubmitted_eq_ok.mp checked

theorem admitted_accepted_iff (interpreter : Interpreter) {validator : FullBlockValidator}
    (skips : validator.skipScriptVerification = true) {tx : Transaction}
    (parsed : sr.parseTx command.txData = .ok tx)
    (admitted : ∃ message, (Node.addTransaction sr around schedule command s).1 = .ok message)
    {front : List Transaction} {headerId : BlockId} {blockVersion height : Nat} {preHeader : Header}
    {lastHeaders : List Header} (nonempty : front ≠ [])
    (accepted : ∃ result, validator.validateTransactions sr interpreter ⟨headerId, front, blockVersion⟩ height
      preHeader lastHeaders (Node.lookupBox sr around.db) = .ok result)
    (beside : Beside (Node.lookupBox sr around.db) front tx) :
    (∃ result, validator.validateTransactions sr interpreter ⟨headerId, front ++ [tx], blockVersion⟩ height
      preHeader lastHeaders (Node.lookupBox sr around.db) = .ok result) ↔ Minable validator height tx := by
  obtain ⟨inputBoxes, conserves⟩ := conserves_of_admitted parsed admitted
  obtain ⟨result, accepted⟩ := accepted
  exact append_accepted_iff skips nonempty accepted beside conserves

end Admitted

/-! ### Two transactions -/

def unscripted : FullBlockValidator := ⟨⟨1000000⟩, true, none⟩

def doublingTx : Transaction :=
  ⟨.filled 9, [⟨.filled 1, [], []⟩, ⟨.filled 1, [], []⟩], none, [{ sampleBox 4 with value := 2000000 }]⟩

def relayCodec : SigmaRust :=
  codec (List.map sampleBox [1, 2, 3, 4]) [header31] [spendTx 1 4, spendTx 2 3, doublingTx]

def relayColumns : Columns :=
  let batch := WriteBatch.put [] .utxo (.filled 1) ⟨1690000, .zero, 0, []⟩
  Store.write (fun _ => none) (batch.put .utxo (.filled 2) ⟨1690000, .zero, 0, [0]⟩)

def relaySurroundings : Surroundings := ⟨⟨relayColumns, []⟩, 1000, [0, 8, 205]⟩

def relayLookup : BoxId → Option ErgoBox := Node.lookupBox relayCodec relaySurroundings.db

def submit (command : AddTransaction) : Except AddTransactionError Message × Session :=
  Node.addTransaction relayCodec relaySurroundings Sample.inOrder command (Mempool.new .default).session

/-- Behind a transaction that spends box 2, one that spends box 1. -/
theorem spendTx_accepted : ∃ result, unscripted.validateTransactions relayCodec sampleInterpreter
    ⟨header31.id, [spendTx 2 3] ++ [spendTx 1 4], 1⟩ 1690001 header31 [] relayLookup = .ok result := by
  let command : AddTransaction := ⟨List.replicate 32 1, []⟩
  have parsed : relayCodec.parseTx command.txData = .ok (spendTx 1 4) := by rfl
  have admitted : ∃ message, (submit command).1 = .ok message := by decide
  have accepted : ∃ result, unscripted.validateTransactions relayCodec sampleInterpreter
      ⟨header31.id, [spendTx 2 3], 1⟩ 1690001 header31 [] relayLookup = .ok result := by decide
  have beside : Beside relayLookup [spendTx 2 3] (spendTx 1 4) := ⟨by decide, by decide⟩
  apply (admitted_accepted_iff sampleInterpreter rfl parsed admitted (by decide) accepted beside).mpr
  exact ⟨by decide, fun _ => ⟨by decide, by decide⟩⟩

/-- It would create coins: its output is worth twice its input. -/
theorem doublingTx_unminable : (∃ message, (submit ⟨List.replicate 32 9, [0, 0]⟩).1 = .ok message) ∧
    ∀ (validator : FullBlockValidator) (interpreter : Interpreter) (front rest : List Transaction)
      (height : Nat) (lookup : BoxId → Option ErgoBox) (result : Nat × ValidatedStateChange),
      validator.validateTransactions relayCodec interpreter
        ⟨header31.id, front ++ doublingTx :: rest, 1⟩ height header31 [] lookup ≠ .ok result := by
  refine ⟨by decide, fun validator interpreter front rest height lookup result accepted => ?_⟩
  obtain ⟨acc, valid, -⟩ := validateTransactions_validated relayCodec interpreter accepted
  have once := valid.once
  rw [List.map_append, List.map_cons, consumed_append, consumed_cons] at once
  have own := (List.nodup_append'.mp (List.nodup_append'.mp once).2.1).1
  exact absurd own (by decide)

end ErgoNode.Proof.Validation
