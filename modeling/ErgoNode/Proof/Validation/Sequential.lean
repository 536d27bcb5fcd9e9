import ErgoNode.Proof.Validation.Together

/-!
# Blocks as sequential execution

The reference takes each transaction's inputs out of the unspent boxes and then puts its outputs in.
Validation looks boxes up in an overlay instead: away from what the block has spent, the overlay on
top of the lookup is what the reference has left.
-/

namespace ErgoNode.Proof.Validation
open Lib Ledger FullBlockValidator

/-! ### The reference -/

def takeInputs (unspent : ErgoBoxMap) : List BoxId → Option (List SpentBox × ErgoBoxMap)
  | [] => some ([], unspent)
  | boxId :: rest => do
      let ergoBox ← unspent boxId
      let (spent, left) ← takeInputs (unspent.removeAll [boxId]) rest
      return (⟨boxId, ergoBox⟩ :: spent, left)

def executeTx (acc : List SpentBox × ErgoBoxMap) (tx : Transaction) : Option (List SpentBox × ErgoBoxMap) := do
  let (spent, left) ← takeInputs acc.2 tx.move.inputs
  return (acc.1 ++ spent, left.insertAll tx.outputs)

def execute (unspent : ErgoBoxMap) (txs : List Transaction) : Option (List SpentBox × ErgoBoxMap) :=
  txs.foldlM executeTx ([], unspent)

def outputsOf (txs : List Transaction) : List CreatedBox :=
  txs.flatMap fun tx => tx.outputs.zipIdx.map fun (output, outIdx) => ⟨output, tx.id, outIdx⟩

section Reference
variable {unspent : ErgoBoxMap} {ids : List BoxId}

theorem takeInputs_eq_some {find : BoxId → Option ErgoBox} {boxes : List ErgoBox} (distinct : ids.Nodup)
    (there : ∀ boxId ∈ ids, unspent boxId = find boxId)
    (found : List.Forall₂ (fun boxId ergoBox => find boxId = some ergoBox) ids boxes) :
    takeInputs unspent ids = some ((ids.zip boxes).map fun entry => SpentBox.mk entry.1 entry.2,
      unspent.removeAll ids) := by
  induction found generalizing unspent with
  | nil => rfl
  | @cons boxId ergoBox ids boxes here _ ih =>
      obtain ⟨fresh, distinct⟩ := List.nodup_cons.mp distinct
      have taken : unspent boxId = some ergoBox := (there boxId List.mem_cons_self).trans here
      have rest := @ih (unspent.removeAll [boxId]) distinct (by
        intro other member
        have different : other ∉ [boxId] := fun same => fresh (List.mem_singleton.mp same ▸ member)
        rw [ErgoBoxMap.removeAll_apply, if_neg different]
        exact there other (List.mem_cons_of_mem _ member))
      rw [takeInputs, taken]
      simp only [Option.bind_eq_bind, Option.bind_some, rest]
      rfl

end Reference

/-! ### The overlay against the reference -/

section Overlay
variable {sr : SigmaRust} {interpreter : Interpreter} {validator : FullBlockValidator}
variable {verifier : TxVerifier} {lookup : BoxId → Option ErgoBox}

theorem findBox_insertAll (createdInBlock : ErgoBoxMap) (outputs : List ErgoBox) :
    findBox lookup (createdInBlock.insertAll outputs) =
      ErgoBoxMap.insertAll (findBox lookup createdInBlock) outputs := by
  funext boxId
  by_cases output : boxId ∈ outputs.map ErgoBox.boxId
  · obtain ⟨ergoBox, -, -, here⟩ := Store.exists_of_write_puts createdInBlock id output
    have named : ∃ op ∈ puts ErgoBox.boxId id outputs, op.address = boxId := by
      obtain ⟨ergoBox, member, same⟩ := List.mem_map.mp output
      exact ⟨_, List.mem_map_of_mem member, same⟩
    have same := Store.write_eq_of_mem (s := findBox lookup createdInBlock) (t := createdInBlock) named
    rw [findBox, ErgoBoxMap.insertAll, here]
    exact (same.trans here).symm
  · rw [findBox, ErgoBoxMap.insertAll, Store.write_puts_of_not_mem _ id output, ErgoBoxMap.insertAll,
      Store.write_puts_of_not_mem _ id output]
    rfl

/-- The reference has taken what the loop records as spent, and has left what the overlay shows of
the boxes that the block has not spent. -/
structure Replayed (lookup : BoxId → Option ErgoBox) (done : List Transaction) (acc : TxLoop)
    (unspent : ErgoBoxMap) : Prop where
  executed : execute lookup done = some (acc.spentBoxes, unspent)
  overlay : ∀ boxId ∉ acc.spentInBlock, unspent boxId = findBox lookup acc.createdInBlock boxId

theorem replayed_start : Replayed lookup [] TxLoop.start lookup := ⟨rfl, fun _ _ => rfl⟩

theorem Replayed.step {done : List Transaction} {acc next : TxLoop} {tx : Transaction} {idx : Nat}
    {unspent : ErgoBoxMap} (inv : Replayed lookup done acc unspent)
    (ran : validateTransaction sr interpreter validator verifier false lookup acc (tx, idx) = .ok next) :
    ∃ left, Replayed lookup (done ++ [tx]) next left := by
  simp only [validateTransaction, Except.bind_ok_eq_ok, Except.pure_eq_ok] at ran
  obtain ⟨_, distinct, _, fresh, ⟨inputBoxes, totalCost⟩, boxes, rfl⟩ := ran
  have distinct : tx.move.inputs.Nodup := (checkDoubleSpend_eq_ok.mp distinct).1
  rw [checkSpentInBlock_eq_ok] at fresh
  have pairs := fullyValidate_eq_ok sr interpreter boxes
  have taken := @takeInputs_eq_some unspent _ _ _ distinct
    (fun boxId input => inv.overlay boxId (fresh boxId input)) pairs
  refine ⟨(unspent.removeAll tx.move.inputs).insertAll tx.outputs, ?_, ?_⟩
  · have named : (tx.move.inputs.zip inputBoxes).map (fun entry => SpentBox.mk entry.1 entry.2) =
        (tx.inputs.zip inputBoxes).map fun entry => SpentBox.mk entry.1.boxId entry.2 := by
      rw [Transaction.move, List.zip_map_left, List.map_map]
      rfl
    have before : done.foldlM executeTx ([], lookup) = some (acc.spentBoxes, unspent) := inv.executed
    rw [execute, List.foldlM_append, before]
    simp [executeTx, taken, named]
  · intro boxId unspentNow
    rw [List.mem_append, not_or] at unspentNow
    dsimp only
    rw [findBox_insertAll]
    apply Store.write_congr
    have kept : boxId ∉ tx.move.inputs := unspentNow.2
    rw [ErgoBoxMap.removeAll_apply, if_neg kept]
    exact inv.overlay boxId unspentNow.1

end Overlay

/-! ### Whole blocks -/

section Block
variable (sr : SigmaRust) (interpreter : Interpreter) {validator : FullBlockValidator}
variable {lookup : BoxId → Option ErgoBox} {blockTxs : BlockTransactions} {height cost : Nat}
variable {preHeader : Header} {lastHeaders : List Header} {change : ValidatedStateChange}

theorem validateTransactions_eq_ok
    (accepted : validator.validateTransactions sr interpreter blockTxs height preHeader lastHeaders
      lookup = .ok (cost, change)) :
    ∃ acc, blockTxs.txs.zipIdx.foldlM (validator.validateTransaction sr interpreter
      ⟨height, preHeader, lastHeaders⟩ (validator.isBelowCheckpoint height) lookup) TxLoop.start = .ok acc ∧
      cost = acc.totalCost ∧ change = ⟨height, acc.spentBoxes, acc.createdBoxes⟩ := by
  simp only [validateTransactions, Except.bind_ok_eq_ok, Except.pure_eq_ok, Prod.mk.injEq] at accepted
  obtain ⟨acc, ran, rfl, rfl⟩ := accepted
  exact ⟨acc, ran, rfl, rfl⟩

theorem validateTransactions_replayed (full : validator.isBelowCheckpoint height = false)
    (accepted : validator.validateTransactions sr interpreter blockTxs height preHeader lastHeaders
      lookup = .ok (cost, change)) :
    ∃ unspent, execute lookup blockTxs.txs = some (change.spent, unspent) := by
  obtain ⟨acc, ran, -, rfl⟩ := validateTransactions_eq_ok sr interpreter accepted
  rw [full] at ran
  have inv := foldlM_zipIdx_invariant (fun done acc => ∃ unspent, Replayed lookup done acc unspent)
    (fun ⟨_, replayed⟩ ran => replayed.step ran) ⟨lookup, replayed_start⟩ ran
  rw [List.nil_append] at inv
  exact inv.imp fun unspent replayed => replayed.executed

theorem validateTransactions_validated
    (accepted : validator.validateTransactions sr interpreter blockTxs height preHeader lastHeaders
      lookup = .ok (cost, change)) :
    ∃ acc, Validated (validator.isBelowCheckpoint height) lookup blockTxs.txs acc ∧
      change = ⟨height, acc.spentBoxes, acc.createdBoxes⟩ := by
  obtain ⟨acc, ran, -, rfl⟩ := validateTransactions_eq_ok sr interpreter accepted
  have inv := foldlM_zipIdx_invariant (Validated _ lookup)
    (fun inv ran => inv.step sr interpreter ran) Validated.start ran
  exact ⟨acc, inv, rfl⟩

theorem createdBoxesOf_eq {tx : Transaction} (bounded : tx.outputs.length ≤ 2 ^ 16) :
    createdBoxesOf tx = tx.outputs.zipIdx.map fun (output, outIdx) => ⟨output, tx.id, outIdx⟩ := by
  refine List.map_congr_left fun entry member => ?_
  have small : entry.2 < 2 ^ 16 := (List.snd_lt_of_mem_zipIdx member).trans_le (by simpa using bounded)
  simp only [Nat.mod_eq_of_lt small]

/-- A fully validated block executes: its change is what the execution takes and puts. -/
theorem validateTransactions_executes (full : validator.isBelowCheckpoint height = false)
    (small : interpreter.maxTxIo ≤ 2 ^ 16)
    (bounded : ∀ tx ∈ blockTxs.txs, tx.outputs.length ≤ interpreter.maxTxIo)
    (accepted : validator.validateTransactions sr interpreter blockTxs height preHeader lastHeaders
      lookup = .ok (cost, change)) :
    (∃ unspent, execute lookup blockTxs.txs = some (change.spent, unspent)) ∧
      (blockTxs.txs.flatMap fun tx => tx.inputs.map Input.boxId).Nodup ∧
      change.spent.map SpentBox.boxId = blockTxs.txs.flatMap (fun tx => tx.inputs.map Input.boxId) ∧
      change.created = outputsOf blockTxs.txs := by
  obtain ⟨unspent, executed⟩ := validateTransactions_replayed sr interpreter full accepted
  obtain ⟨acc, valid, rfl⟩ := validateTransactions_validated sr interpreter accepted
  rw [full] at valid
  have inputs : consumed (blockTxs.txs.map Transaction.move) =
      blockTxs.txs.flatMap fun tx => tx.inputs.map Input.boxId := List.flatMap_map ..
  refine ⟨⟨unspent, executed⟩, inputs ▸ valid.once, valid.spentBoxes.trans inputs, ?_⟩
  rw [valid.createdBoxes]
  exact List.flatMap_congr fun tx member => createdBoxesOf_eq ((bounded tx member).trans small)

end Block

def chainedTxs : BlockTransactions := ⟨header31.id, [spendTx 1 2, spendTx 2 3], 1⟩

def onlyBox1 : ErgoBoxMap := ErgoBoxMap.empty.insertAll [Sample.sampleBox 1]

def validateTxs (blockTxs : BlockTransactions) : ConsensusResult (Nat × ValidatedStateChange) :=
  (FullBlockValidator.withParameters ⟨1000000⟩).validateTransactions spendCodec sampleInterpreter blockTxs
    1690001 header31 [] onlyBox1

theorem chainedTxs_executes : ∃ (change : ValidatedStateChange) (unspent : ErgoBoxMap),
    execute onlyBox1 chainedTxs.txs = some (change.spent, unspent) ∧ change.created = outputsOf chainedTxs.txs := by
  have accepted : ∃ result, validateTxs chainedTxs = .ok result := by decide
  obtain ⟨⟨cost, change⟩, accepted⟩ := accepted
  obtain ⟨⟨unspent, executed⟩, -, -, created⟩ := validateTransactions_executes spendCodec sampleInterpreter
    (by decide) (by decide) (by decide) accepted
  exact ⟨change, unspent, executed, created⟩

end ErgoNode.Proof.Validation
