import ErgoNode.Node.Validation
import ErgoNode.Proof.Sample
import ErgoNode.Proof.Validation.Block

/-!
# What a run of blocks consumes

The blocks of a run are validated against the database as it was before all of them. A box that
the database still has, although an earlier block of the run has spent it, is found again; a block
up to the checkpoint looks nothing up. Where neither happens, the run executes as a ledger.
-/

namespace ErgoNode.Proof.Validation
open Lib Ledger Node Sample

def stored (db : Database) : Set BoxId := {boxId | (db.get .utxo boxId).isSome}

def movesOf (blocks : List FullBlock) : List (Move BoxId) := blocks.flatMap FullBlock.moves

@[simp] theorem movesOf_append (first second : List FullBlock) :
    movesOf (first ++ second) = movesOf first ++ movesOf second := List.flatMap_append

@[simp] theorem movesOf_singleton (block : FullBlock) : movesOf [block] = block.moves :=
  List.flatMap_singleton ..

theorem consumed_movesOf (blocks : List FullBlock) :
    consumed (movesOf blocks) = blocks.flatMap fun block => consumed block.moves := by
  rw [movesOf, consumed, List.flatMap_assoc]
  rfl

/-! ### Lookups -/

section Lookups
variable (sr : SigmaRust) {db : Database} {boxId : BoxId}

theorem stored_of_getBox {entry : BoxEntry} (read : UtxoState.getBox sr db boxId = .ok (some entry)) :
    boxId ∈ stored db := by
  cases held : db.get .utxo boxId with
  | none => simp [UtxoState.getBox, held] at read
  | some box => simp [stored, held]

theorem stored_of_prefetched {ids : List BoxId}
    (isFound : (prefetchedBoxes sr db ids boxId).isSome) : boxId ∈ stored db := by
  unfold prefetchedBoxes at isFound
  by_contra missing
  rw [Store.write_puts_of_not_mem] at isFound
  · simp [ErgoBoxMap.empty] at isFound
  · intro listed
    obtain ⟨⟨other, ergoBox⟩, pair, rfl⟩ := List.mem_map.mp listed
    obtain ⟨⟨id, read⟩, zipped, kept⟩ := List.mem_filterMap.mp pair
    obtain ⟨entry, rfl, same⟩ := Option.map_eq_some_iff.mp kept
    cases same
    cases batch : UtxoState.getBoxesBatch sr db ids with
    | error e => simp [batch, Except.toOption] at zipped
    | ok entries =>
        have pairs := mapM_eq_ok.mp batch
        have read := List.forall₂_iff_zip.mp pairs |>.2 (by simpa [batch, Except.toOption] using zipped)
        exact missing (stored_of_getBox sr read)

theorem source_of_utxoLookup {overlay : ErgoBoxMap} {ids : List BoxId}
    (isFound : (utxoLookup sr db overlay (prefetchedBoxes sr db ids) boxId).isSome) :
    (overlay boxId).isSome ∨ boxId ∈ stored db := by
  unfold utxoLookup at isFound
  split at isFound
  · next held => simp [held]
  · split at isFound
    · next held => exact .inr (stored_of_prefetched sr (by rw [held]; rfl))
    · cases read : UtxoState.getBox sr db boxId with
      | error e => simp [read, Except.toOption] at isFound
      | ok entry =>
          cases entry with
          | none => simp [read, Except.toOption] at isFound
          | some entry => exact .inr (stored_of_getBox sr read)

end Lookups

/-! ### One block of a run -/

def BelowCheckpoint (block : FullBlock) : Prop := block.height ≤ FullBlockValidator.mainnetCheckpoint

instance (block : FullBlock) : Decidable (BelowCheckpoint block) := inferInstanceAs (Decidable (_ ≤ _))

structure NextBlock (sources : Set BoxId) (overlay after : ErgoBoxMap) (block : FullBlock) : Prop where
  once : (consumed block.moves).Nodup
  available : ¬ BelowCheckpoint block →
    Available {boxId | (overlay boxId).isSome ∨ boxId ∈ sources} block.moves
  kept : ∀ boxId, (after boxId).isSome → (overlay boxId).isSome ∨ boxId ∈ created block.moves
  removed : ¬ BelowCheckpoint block → ∀ boxId ∈ consumed block.moves, after boxId = none

variable {sr : SigmaRust} {interpreter : Interpreter} {parameters : ChainParameters}

theorem isBelowCheckpoint_iff {block : FullBlock} :
    (FullBlockValidator.withParameters parameters).isBelowCheckpoint block.height = true ↔
      BelowCheckpoint block := decide_eq_true_iff

theorem validateNext_eq_ok {db : Database} {overlay after : ErgoBoxMap} {block : FullBlock}
    {change : StateChange}
    (valid : validateNext sr interpreter parameters db overlay block = .ok (change, after)) :
    NextBlock (stored db) overlay after block := by
  unfold validateNext at valid
  split at valid
  · cases valid
  · simp only [Except.bind_ok_eq_ok, Except.mapError_ok_iff, Except.pure_eq_ok, Prod.mk.injEq] at valid
    obtain ⟨⟨cost, validated⟩, valid, -, rfl⟩ := valid
    have checked := validateBlock_eq_ok sr interpreter valid
    have full (above : ¬ BelowCheckpoint block) :
        (FullBlockValidator.withParameters parameters).isBelowCheckpoint block.height = false := by
      rw [← @isBelowCheckpoint_iff parameters] at above
      exact Bool.eq_false_iff.mpr above
    have createdIds : (validated.created.map CreatedBox.ergoBox).map ErgoBox.boxId =
        created block.moves := by
      rw [List.map_map, ← checked.created]
      rfl
    refine ⟨checked.once, fun above => ?_, fun boxId isKept => ?_, fun above boxId input => ?_⟩
    · exact (checked.available (full above)).mono fun boxId isFound => source_of_utxoLookup sr isFound
    · rw [afterBlock, ErgoBoxMap.removeAll_apply] at isKept
      split at isKept
      · simp at isKept
      · rwa [ErgoBoxMap.isSome_insertAll, createdIds] at isKept
    · rw [afterBlock, ErgoBoxMap.removeAll_apply, checked.spent, full above]
      exact if_pos input

/-! ### The whole run -/

/-- A box that the run may find after one of its blocks has consumed it: it is in the database, or
the run creates it again, or the block that consumed it was up to the checkpoint. -/
def Recoverable (sources : Set BoxId) (blocks : List FullBlock) (boxId : BoxId) : Prop :=
  boxId ∈ sources ∨ 2 ≤ (created (movesOf blocks)).count boxId ∨
    ∃ block ∈ blocks, BelowCheckpoint block ∧ boxId ∈ consumed block.moves

/-- No recoverable box is an input of two blocks, and what blocks up to the checkpoint consume is in
the database or created earlier. -/
structure SpendsNoRecoverable (sources : Set BoxId) (blocks : List FullBlock) : Prop where
  once : blocks.Pairwise fun first second => ∀ boxId ∈ consumed first.moves,
    Recoverable sources blocks boxId → boxId ∉ consumed second.moves
  available : ∀ before block after, blocks = before ++ block :: after → BelowCheckpoint block →
    Available {boxId | boxId ∈ sources ∨ boxId ∈ created (movesOf before)} block.moves

/-- The moves execute, and nothing is consumed twice. -/
structure SpendsOnce (sources : Set BoxId) (moves : List (Move BoxId)) : Prop where
  executes : Executes sources moves
  once : (consumed moves).Nodup

structure Overlaid (sources : Set BoxId) (before : List FullBlock) (overlay : ErgoBoxMap) : Prop where
  created : ∀ boxId, (overlay boxId).isSome → boxId ∈ created (movesOf before)
  unspent : ∀ boxId, (overlay boxId).isSome → boxId ∈ consumed (movesOf before) →
    Recoverable sources before boxId

variable {sources : Set BoxId} {overlay next : ErgoBoxMap} {before after blocks : List FullBlock}
variable {block : FullBlock} {boxId : BoxId}

theorem Overlaid.start : Overlaid sources [] ErgoBoxMap.empty := by
  constructor <;> simp [ErgoBoxMap.empty]

theorem Recoverable.append (recoverable : Recoverable sources before boxId) :
    Recoverable sources (before ++ after) boxId := by
  rcases recoverable with held | twice | ⟨block, member, below, input⟩
  · exact .inl held
  · refine .inr (.inl (twice.trans ?_))
    rw [movesOf_append, created_append, List.count_append]
    exact Nat.le_add_right _ _
  · exact .inr (.inr ⟨block, List.mem_append_left _ member, below, input⟩)

theorem recoverable_of_recreated (available : Available sources (movesOf before))
    (spent : boxId ∈ consumed (movesOf before)) (again : boxId ∈ created block.moves) :
    Recoverable sources (before ++ [block]) boxId := by
  rcases available.source spent with held | earlier
  · exact .inl held
  · refine .inr (.inl ?_)
    rw [movesOf_append, created_append, List.count_append, movesOf_singleton]
    exact Nat.add_le_add (List.count_pos_iff.mpr earlier) (List.count_pos_iff.mpr again)

theorem Overlaid.step (overlaid : Overlaid sources before overlay)
    (available : Available sources (movesOf before)) (valid : NextBlock sources overlay next block) :
    Overlaid sources (before ++ [block]) next := by
  refine ⟨fun boxId isKept => ?_, fun boxId isKept spent => ?_⟩
  · rw [movesOf_append, created_append, List.mem_append, movesOf_singleton]
    exact (valid.kept boxId isKept).imp_left (overlaid.created boxId)
  · rw [movesOf_append, consumed_append, List.mem_append, movesOf_singleton] at spent
    rcases spent with earlier | now
    · rcases valid.kept boxId isKept with old | again
      · exact (overlaid.unspent boxId old earlier).append
      · exact recoverable_of_recreated available earlier again
    · by_cases below : BelowCheckpoint block
      · exact .inr (.inr ⟨block, by simp, below, now⟩)
      · simp [valid.removed below boxId now] at isKept

/-- Whatever the next block consumes after an earlier one was recoverable. -/
theorem NextBlock.recoverable (valid : NextBlock sources overlay next block)
    (overlaid : Overlaid sources before overlay) (available : Available sources (movesOf before))
    (spent : boxId ∈ consumed (movesOf before)) (input : boxId ∈ consumed block.moves) :
    Recoverable sources (before ++ [block]) boxId := by
  by_cases below : BelowCheckpoint block
  · exact .inr (.inr ⟨block, by simp, below, input⟩)
  · rcases (valid.available below).source input with (old | held) | again
    · exact (overlaid.unspent boxId old spent).append
    · exact .inl held
    · exact recoverable_of_recreated available spent again

theorem NextBlock.spends (valid : NextBlock sources overlay next block)
    (overlaid : Overlaid sources before overlay) (available : Available sources (movesOf before))
    (once : (consumed (movesOf before)).Nodup)
    (clean : SpendsNoRecoverable sources (before ++ block :: after)) :
    Available sources (movesOf (before ++ [block])) ∧
      (consumed (movesOf (before ++ [block]))).Nodup := by
  rw [movesOf_append, movesOf_singleton, available_append, consumed_append, List.nodup_append']
  refine ⟨⟨available, ?_⟩, once, valid.once, fun boxId spent input => ?_⟩
  · by_cases below : BelowCheckpoint block
    · exact clean.available before block after rfl below
    · refine (valid.available below).mono ?_
      rintro boxId (old | held)
      · exact .inr (overlaid.created boxId old)
      · exact .inl held
  · have recoverable : Recoverable sources (before ++ block :: after) boxId := by
      have split : before ++ block :: after = (before ++ [block]) ++ after := by simp
      rw [split]
      exact (valid.recoverable overlaid available spent input).append
    rw [consumed_movesOf, List.mem_flatMap] at spent
    obtain ⟨first, member, spent⟩ := spent
    have pairs := (List.pairwise_append.mp clean.once).2.2 first member block List.mem_cons_self
    exact pairs boxId spent recoverable input

theorem validateBlocks_spends {db : Database} {rest : List FullBlock}
    {changes : List (FullBlock × StateChange)}
    (valid : validateBlocks sr interpreter parameters db overlay rest = .ok changes)
    (overlaid : Overlaid (stored db) before overlay)
    (available : Available (stored db) (movesOf before)) (once : (consumed (movesOf before)).Nodup)
    (clean : SpendsNoRecoverable (stored db) (before ++ rest)) :
    Available (stored db) (movesOf (before ++ rest)) ∧ (consumed (movesOf (before ++ rest))).Nodup := by
  induction rest generalizing before overlay changes with
  | nil =>
      rw [List.append_nil]
      exact ⟨available, once⟩
  | cons block rest ih =>
      simp only [validateBlocks, Except.bind_ok_eq_ok] at valid
      obtain ⟨⟨change, next⟩, first, later, valid, -⟩ := valid
      have checked := validateNext_eq_ok first
      obtain ⟨availableNow, onceNow⟩ := checked.spends overlaid available once clean
      have split : before ++ block :: rest = (before ++ [block]) ++ rest := by simp
      rw [split] at clean ⊢
      exact ih valid (overlaid.step available checked) availableNow onceNow clean

theorem SpendsOnce.noRecoverable (spends : SpendsOnce sources (movesOf blocks)) :
    SpendsNoRecoverable sources blocks := by
  constructor
  · have once := spends.once
    rw [consumed_movesOf, List.nodup_flatMap] at once
    exact once.2.imp fun disjoint boxId input _ again => disjoint input again
  · rintro before block after rfl -
    have available := spends.executes.available subset_rfl
    rw [← List.singleton_append, movesOf_append, movesOf_append, movesOf_singleton, available_append,
      available_append] at available
    exact available.2.1

/-- Blocks validated and applied together execute as a ledger, each box consumed at most once,
exactly when they consume no recoverable box twice. -/
theorem processBlocks_spendsOnce_iff {st after : StateManager}
    (processed : processBlocks sr interpreter parameters st blocks = some after) :
    SpendsOnce (stored st.db) (movesOf blocks) ↔ SpendsNoRecoverable (stored st.db) blocks := by
  constructor
  · exact SpendsOnce.noRecoverable
  · intro clean
    simp only [processBlocks, Option.bind_eq_bind, Option.bind_eq_some_iff,
      Except.toOption_eq_some] at processed
    obtain ⟨changes, valid, -⟩ := processed
    have spends := validateBlocks_spends valid Overlaid.start trivial List.nodup_nil clean
    exact ⟨(executes_iff_available spends.2).mpr spends.1, spends.2⟩

/-! ### Two blocks above the checkpoint -/

/-- It accepts every script; the root of every block is zero, as the sample headers have it, and a
number is one byte. -/
def sampleInterpreter : Interpreter where
  verify _ _ _ _ := .ok ⟨true, 0, none⟩
  bytesToSign _ := .ok []
  outputIndex _ := none
  getRegister _ _ := none
  maxTxIo := 32767
  merkleRoot _ := .zero
  getU32
    | byte :: rest => .ok (byte.toNat, rest)
    | [] => .error "end of input"

def spendTx (input output : UInt8) : Transaction :=
  ⟨.filled input, [⟨.filled input, [], []⟩], none, [sampleBox output]⟩

def tipHeader : Header := sampleHeader 30 29 1690000 easyBits
def header31 : Header := sampleHeader 31 30 1690001 easyBits
def header32 : Header := sampleHeader 32 31 1690002 easyBits

def spendCodec : SigmaRust :=
  codec (List.map sampleBox [1, 2, 3]) [tipHeader, header31, header32]
    [spendTx 1 2, spendTx 1 3, spendTx 2 3]

def spendBlock (header : Header) (tx : Transaction) : FullBlock :=
  ⟨header, ⟨header.id, [tx], 1⟩, Extension.empty header.id, none⟩

def tipColumns : Columns :=
  let batch := WriteBatch.put [] .utxo (.filled 1) ⟨1690000, .zero, 0, []⟩
  Store.write (fun _ => none) (((batch.put .headers tipHeader.id []).put .headers header31.id [0]).put
    .headers header32.id [0, 0])

def tipNode : StateManager :=
  ⟨⟨tipColumns, []⟩, { UtxoState.new with height := 1690000 }, .new, .warnOnly⟩

def processSpends (blocks : List FullBlock) : Option StateManager :=
  processBlocks spendCodec sampleInterpreter ⟨1000000⟩ tipNode blocks

def chainedSpends : List FullBlock :=
  [spendBlock header31 (spendTx 1 2), spendBlock header32 (spendTx 2 3)]

def repeatedSpends : List FullBlock :=
  [spendBlock header31 (spendTx 1 2), spendBlock header32 (spendTx 1 3)]

theorem chainedSpends_spendsOnce : SpendsOnce (stored tipNode.db) (movesOf chainedSpends) := by
  have accepted : (processSpends chainedSpends).isSome := by decide
  apply (processBlocks_spendsOnce_iff (Option.some_get accepted).symm).mpr
  have disjoint : ∀ boxId ∈ consumed (spendBlock header31 (spendTx 1 2)).moves,
      boxId ∉ consumed (spendBlock header32 (spendTx 2 3)).moves := by decide
  have above : ∀ block ∈ chainedSpends, ¬ BelowCheckpoint block := by decide
  constructor
  · exact List.pairwise_pair.mpr fun boxId input _ => disjoint boxId input
  · intro before block after split below
    exact absurd below (above block (by rw [split]; simp))

/-- Both blocks consume box 1, which the database has until the write. -/
theorem repeatedSpends_accepted :
    (processSpends repeatedSpends).isSome ∧ ¬ SpendsOnce (stored tipNode.db) (movesOf repeatedSpends) := by
  refine ⟨by decide, fun spends => ?_⟩
  have twice : ¬ (consumed (movesOf repeatedSpends)).Nodup := by decide
  exact twice spends.once

end ErgoNode.Proof.Validation
