import ErgoNode.Lib.Entries
import ErgoNode.Lib.Run
import ErgoNode.Proof.Indexer.Effects
import ErgoNode.Proof.Sample

/-!
# Runs of the indexer without a flush

All records stay in the buffers, so every call returns. The boxes that are indexed and not spent are noted
beside the indexer.
-/

namespace ErgoNode.Proof.Indexer
open Lib ExtraIndexer

structure IndexRun where
  indexer : ExtraIndexer
  live : Table Digest32 IndexedErgoBox

namespace IndexRun
variable (sr : SigmaRust)

inductive Action where
  | indexOutput (output : Output)
  | spendBox (boxId spendingTxId : Digest32) (spendingHeight : UInt32)

def start : IndexRun := ⟨.new fun _ => none, ∅⟩

def step (run : IndexRun) : Action → Option IndexRun
  | .indexOutput output =>
      match (indexOutput sr output.boxId output.height output.boxBytes output.value output.ergoTreeBytes
        output.tokens).exec run.indexer with
      | (.ok globalIndex, after) => some ⟨after, run.live.insert output.boxId (output.ieb sr globalIndex)⟩
      | (.error _, _) => none
  | .spendBox boxId spendingTxId spendingHeight =>
      match (spendBox sr boxId spendingTxId spendingHeight).exec run.indexer with
      | (.ok _, after) => some ⟨after, run.live.erase boxId⟩
      | (.error _, _) => none

end IndexRun

/-- The address and the tokens of every box are buffered, and a box is live until it is marked as spent. -/
structure Buffered (sr : SigmaRust) (run : IndexRun) : Prop where
  idle : run.indexer.held = []
  unstored : ∀ key, run.indexer.storage key = none
  address : ∀ id ieb, run.indexer.boxes.lookup id = some ieb →
    (run.indexer.addresses.lookup ieb.ergoTreeHash).isSome = true
  tokens : ∀ id ieb, run.indexer.boxes.lookup id = some ieb → ∀ token ∈ ieb.tokens,
    (run.indexer.tokens.lookup (tokenUniqueId sr token.1)).isSome = true
  live : ∀ id ieb, run.live.lookup id = some ieb ↔
    run.indexer.boxes.lookup id = some ieb ∧ ieb.isSpent = false

section Step
variable {sr : SigmaRust} {run next : IndexRun} {action : IndexRun.Action}

theorem isSome_lookup_insert {V : Type} {table : Table Digest32 V} {k key : Digest32} {v : V}
    (there : (table.lookup key).isSome = true) : ((table.insert k v).lookup key).isSome = true := by
  by_cases same : key = k
  · subst same
    simp
  · rw [AList.lookup_insert_ne same]
    exact there

theorem isSome_lookup_addTokenBox {tokens : Table Digest32 IndexedToken} {globalIndex : UInt64}
    {list : List (Digest32 × UInt64)} {key : Digest32}
    (there : (tokens.lookup key).isSome = true ∨ ∃ token ∈ list, tokenUniqueId sr token.1 = key) :
    ((list.foldl (addTokenBox sr globalIndex) tokens).lookup key).isSome = true := by
  induction list generalizing tokens with
  | nil => simpa using there
  | cons token rest ih =>
      apply ih
      rcases there with there | ⟨other, member, same⟩
      · exact .inl (isSome_lookup_insert there)
      · rcases List.mem_cons.mp member with rfl | later
        · left
          rw [← same]
          simp [addTokenBox]
        · exact .inr ⟨other, later, same⟩

theorem isSome_lookup_spendTokenBoxes {tokens : Table Digest32 IndexedToken} {globalIndex : UInt64}
    {list : List (Digest32 × UInt64)} {key : Digest32} (there : (tokens.lookup key).isSome = true) :
    ((list.foldl (spendTokenBox sr globalIndex) tokens).lookup key).isSome = true := by
  induction list generalizing tokens with
  | nil => exact there
  | cons token rest ih => exact ih (isSome_lookup_spendTokenBox.mpr there)

theorem buffered_start (sr : SigmaRust) : Buffered sr .start where
  idle := rfl
  unstored _ := rfl
  address _ _ found := by simp [IndexRun.start, ExtraIndexer.new] at found
  tokens _ _ found := by simp [IndexRun.start, ExtraIndexer.new] at found
  live _ _ := by simp [IndexRun.start, ExtraIndexer.new]

namespace Buffered
variable (buffered : Buffered sr run)
include buffered

theorem exec_getBox (id : Digest32) :
    (getBox id).exec run.indexer = (.ok (run.indexer.boxes.lookup id), run.indexer) := by
  cases there : run.indexer.boxes.lookup id with
  | none =>
      rw [getBox, exec_lookup_stored (fun _ => rfl) (by simp [buffered.idle]) there]
      exact exec_stored_none (buffered.unstored _)
  | some ieb => exact exec_lookup_buffered (fun _ => rfl) (by simp [buffered.idle]) there

theorem exec_getAddress (tree : Digest32) :
    (getAddress tree).exec run.indexer = (.ok (run.indexer.addresses.lookup tree), run.indexer) := by
  cases there : run.indexer.addresses.lookup tree with
  | none =>
      rw [getAddress, exec_lookup_stored (fun _ => rfl) (by simp [buffered.idle]) there]
      exact exec_stored_none (buffered.unstored _)
  | some addr => exact exec_lookup_buffered (fun _ => rfl) (by simp [buffered.idle]) there

theorem exec_getToken (tokenId : Digest32) : (getToken sr tokenId).exec run.indexer =
    (.ok (run.indexer.tokens.lookup (tokenUniqueId sr tokenId)), run.indexer) := by
  cases there : run.indexer.tokens.lookup (tokenUniqueId sr tokenId) with
  | none =>
      rw [getToken, exec_lookup_stored (fun _ => rfl) (by simp [buffered.idle]) there]
      exact exec_stored_none (buffered.unstored _)
  | some token => exact exec_lookup_buffered (fun _ => rfl) (by simp [buffered.idle]) there

theorem step_indexOutput (output : Output) : run.step sr (.indexOutput output) =
    some ⟨indexed sr run.indexer output,
      run.live.insert output.boxId (output.ieb sr run.indexer.state.globalBoxIndex)⟩ := by
  simp only [IndexRun.step, exec_indexOutput buffered.idle]

theorem step_spendBox {boxId : Digest32} {ieb : IndexedErgoBox} (found : run.indexer.boxes.lookup boxId = some ieb)
    (txId : Digest32) (height : UInt32) : run.step sr (.spendBox boxId txId height) =
      some ⟨spent sr run.indexer boxId ieb txId height, run.live.erase boxId⟩ := by
  have got := buffered.exec_getBox boxId
  rw [found] at got
  simp only [IndexRun.step, exec_spendBox buffered.idle got (buffered.address boxId ieb found)
    (buffered.tokens boxId ieb found)]

theorem step_spendBox_of_none {boxId : Digest32} (missing : run.indexer.boxes.lookup boxId = none)
    (txId : Digest32) (height : UInt32) :
    run.step sr (.spendBox boxId txId height) = some ⟨run.indexer, run.live.erase boxId⟩ := by
  have got := buffered.exec_getBox boxId
  rw [missing] at got
  simp only [IndexRun.step, exec_spendBox_of_none got]

theorem indexOutput (output : Output) : Buffered sr ⟨indexed sr run.indexer output,
    run.live.insert output.boxId (output.ieb sr run.indexer.state.globalBoxIndex)⟩ where
  idle := buffered.idle
  unstored := buffered.unstored
  address := by
    refine Entries.forall_lookup_insert ?_ fun id ieb old => ?_
    · exact Option.isSome_of_mem (AList.lookup_insert _)
    · exact isSome_lookup_insert (buffered.address id ieb old)
  tokens := by
    refine Entries.forall_lookup_insert (fun token member => ?_) fun id ieb old token member => ?_
    · exact isSome_lookup_addTokenBox (.inr ⟨token, member, rfl⟩)
    · exact isSome_lookup_addTokenBox (.inl (buffered.tokens id ieb old token member))
  live id ieb := by
    rw [Entries.lookup_insert_iff, buffered.live, indexed, Entries.lookup_insert_iff]
    constructor
    · rintro (⟨same, rfl⟩ | ⟨other, there, unspent⟩)
      · exact ⟨.inl ⟨same, rfl⟩, rfl⟩
      · exact ⟨.inr ⟨other, there⟩, unspent⟩
    · rintro ⟨new | ⟨other, there⟩, unspent⟩
      · exact .inl new
      · exact .inr ⟨other, there, unspent⟩

theorem spendBox {boxId : Digest32} {ieb : IndexedErgoBox} (found : run.indexer.boxes.lookup boxId = some ieb)
    (txId : Digest32) (height : UInt32) :
    Buffered sr ⟨spent sr run.indexer boxId ieb txId height, run.live.erase boxId⟩ where
  idle := buffered.idle
  unstored := buffered.unstored
  address := by
    refine Entries.forall_lookup_insert ?_ fun id other old => ?_
    · exact isSome_lookup_insert (buffered.address boxId ieb found)
    · exact isSome_lookup_insert (buffered.address id other old)
  tokens := by
    refine Entries.forall_lookup_insert (fun token member => ?_) fun id other old token member => ?_
    · exact isSome_lookup_spendTokenBoxes (buffered.tokens boxId ieb found token member)
    · exact isSome_lookup_spendTokenBoxes (buffered.tokens id other old token member)
  live id other := by
    rw [Entries.lookup_erase_iff, buffered.live, spent, Entries.lookup_insert_iff]
    constructor
    · rintro ⟨different, old, unspent⟩
      exact ⟨.inr ⟨different, old⟩, unspent⟩
    · rintro ⟨⟨-, rfl⟩ | ⟨different, old⟩, unspent⟩
      · cases unspent
      · exact ⟨different, old, unspent⟩

theorem spendBox_of_none {boxId : Digest32} (missing : run.indexer.boxes.lookup boxId = none) :
    Buffered sr ⟨run.indexer, run.live.erase boxId⟩ where
  idle := buffered.idle
  unstored := buffered.unstored
  address := buffered.address
  tokens := buffered.tokens
  live id ieb := by
    rw [Entries.lookup_erase_iff, buffered.live]
    constructor
    · exact And.right
    · rintro ⟨there, unspent⟩
      refine ⟨?_, there, unspent⟩
      rintro rfl
      rw [missing] at there
      cases there

theorem step_isSome (action : IndexRun.Action) : (run.step sr action).isSome = true := by
  cases action with
  | indexOutput output => rw [buffered.step_indexOutput]; rfl
  | spendBox boxId txId height =>
      cases there : run.indexer.boxes.lookup boxId with
      | none => rw [buffered.step_spendBox_of_none there]; rfl
      | some ieb => rw [buffered.step_spendBox there]; rfl

end Buffered

theorem buffered_step (buffered : Buffered sr run) (taken : run.step sr action = some next) : Buffered sr next := by
  cases action with
  | indexOutput output =>
      rw [buffered.step_indexOutput] at taken
      cases taken
      exact buffered.indexOutput output
  | spendBox boxId txId height =>
      cases there : run.indexer.boxes.lookup boxId with
      | none =>
          rw [buffered.step_spendBox_of_none there] at taken
          cases taken
          exact buffered.spendBox_of_none there
      | some ieb =>
          rw [buffered.step_spendBox there] at taken
          cases taken
          exact buffered.spendBox there txId height

theorem erase_of_unlisted {live : Table Digest32 IndexedErgoBox} {id : Digest32} (unlisted : live.lookup id = none) :
    live.erase id = live := by
  apply AList.ext
  refine List.kerase_of_notMem_keys fun member => ?_
  obtain ⟨ieb, there⟩ := Entries.mem_iff.mp (AList.mem_keys.mpr member)
  rw [there] at unlisted
  cases unlisted

theorem Buffered.unlisted (buffered : Buffered sr run) {id : Digest32}
    (gone : ∀ ieb, run.indexer.boxes.lookup id = some ieb → ieb.isSpent = true) : run.live.lookup id = none := by
  cases there : run.live.lookup id with
  | none => rfl
  | some ieb =>
      obtain ⟨found, unspent⟩ := (buffered.live id ieb).mp there
      exact absurd (gone ieb found) (by simp [unspent])

theorem exists_run_of_buffered (buffered : Buffered sr run) (actions : List IndexRun.Action) :
    ∃ last, Lib.run (IndexRun.step sr) run actions = some last := by
  induction actions generalizing run with
  | nil => exact ⟨run, rfl⟩
  | cons action rest ih =>
      obtain ⟨next, taken⟩ := Option.isSome_iff_exists.mp (buffered.step_isSome action)
      rw [run_cons, taken]
      exact ih (buffered_step buffered taken)

theorem buffered_of_run {actions : List IndexRun.Action}
    (ran : Lib.run (IndexRun.step sr) .start actions = some next) : Buffered sr next := by
  have always : Always (IndexRun.step sr) (Buffered sr) .start actions :=
    always_of_step (fun buffered taken => buffered_step buffered taken) (buffered_start sr)
  exact always next ⟨actions, List.prefix_rfl, ran⟩

end Step

/-! ### Hashes that keep the first bytes -/

def sampleHash : SigmaRust :=
  { Sample.boxCodec with blake2b256 := fun bytes => ⟨(bytes ++ List.replicate 32 0).take 32, by simp⟩ }

theorem sampleHash_idsApart : Function.Injective (tokenUniqueId sampleHash) := by
  intro a b same
  have kept (tokenId : Digest32) : (tokenUniqueId sampleHash tokenId).bytes = tokenId.bytes := by
    change ((tokenId.bytes ++ Utf8.encode "token") ++ List.replicate 32 0).take 32 = _
    rw [List.append_assoc]
    exact List.take_left' tokenId.size
  have bytes := congrArg Digest32.bytes same
  rw [kept, kept] at bytes
  cases a
  cases b
  cases bytes
  rfl

def sampleOutput (id : UInt8) (value : UInt64) : Output where
  boxId := .filled id
  height := 7
  boxBytes := [id]
  value
  ergoTreeBytes := List.replicate 32 1
  tokens := [(.filled 4, 3)]

end ErgoNode.Proof.Indexer
