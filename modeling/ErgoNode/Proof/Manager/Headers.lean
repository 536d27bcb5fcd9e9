import ErgoNode.Lib.Run
import ErgoNode.Proof.Manager.Calls

/-!
# Header ids

The id of a stored header is computed from its bytes whenever it is read. A header that comes with its
bytes keeps them, and no header call writes a stored header again. A block call does: it stores the
header serialized again, and the id is then that of the new bytes.
-/

namespace ErgoNode.Proof.Manager
open Lib
open ErgoNode.Proof.History (Added ids Writes blockOps block_writes addBlockToBatch_eq_ok appendFullBlock_eq_ok
  appendFullBlock_eq_error headerWritten appendHeaderInternal_cases exec_appendHeaderInternal appended_headerAppended
  appendHeadersBatched_appended)

inductive StoreCall where
  | appendHeaderWithBytes (header : Header) (rawBytes : Bytes)
  | appendHeadersBatched (headers : List (Header × Bytes))
  | appendFullBlock (block : FullBlock)
  | applyBlocksBatched (blocks : List (FullBlock × StateChange))

namespace StoreCall

def exec (sr : SigmaRust) : StoreCall → Op StateManager StateError ChainSelection
  | appendHeaderWithBytes header rawBytes => StateManager.applyHeaderWithBytes sr header rawBytes
  | appendHeadersBatched headers => StateManager.applyHeadersBatched sr headers
  | appendFullBlock block => StateManager.onHistory (History.appendFullBlock sr block)
  | applyBlocksBatched blocks => StateManager.applyBlocksBatched sr blocks

def rawIds : StoreCall → List BlockId
  | appendHeaderWithBytes header _ => [header.id]
  | appendHeadersBatched headers => headers.map (·.1.id)
  | _ => []

def blocks : StoreCall → List FullBlock
  | appendFullBlock block => [block]
  | applyBlocksBatched blocks => blocks.map Prod.fst
  | _ => []

end StoreCall

section Carries
variable (sr : SigmaRust)

def Carries (db : Database) (id : BlockId) : Prop :=
  ∃ header, HeaderStore.get sr db id = .ok (some header) ∧ header.id = id

variable {sr} {db : Database} {id : BlockId}

theorem carries_iff : Carries sr db id ↔
    ∃ bytes, db.get .headers id = some bytes ∧ sr.blake2b256 bytes = id ∧ ∃ header, sr.parseHeader bytes = .ok header := by
  unfold Carries HeaderStore.get
  cases db.get .headers id with
  | none => simp
  | some bytes =>
      simp only [Except.bind_ok_eq_ok, Except.mapError_ok_iff, Except.pure_eq_ok, Option.some.injEq]
      constructor
      · rintro ⟨_, ⟨header, parsed, rfl⟩, same⟩
        exact ⟨bytes, rfl, same, header, parsed⟩
      · rintro ⟨_, rfl, same, header, parsed⟩
        exact ⟨_, ⟨header, parsed, rfl⟩, same⟩

instance : Decidable (Carries sr db id) :=
  decidable_of_iff (∃ header ∈ (HeaderStore.get sr db id).toOption.join, header.id = id) (by
    unfold Carries
    rcases HeaderStore.get sr db id with e | _ | header <;> simp [Except.toOption])

end Carries

/-! ### What a call does to a stored header -/

section Calls
variable {sr : SigmaRust} {id : BlockId} {old : Bytes}

theorem appendHeaderInternal_keeps (view : OnDatabase History) {header : Header} {rawBytes : Option Bytes}
    (held : view.db.get .headers id = some old) :
    ((History.appendHeaderInternal sr header rawBytes).exec view).2.db.get .headers id = some old := by
  rcases appendHeaderInternal_cases sr view header rawBytes with
    ⟨columns, -⟩ | ⟨raw, encoded, unstored, parent, works, half⟩
  · rw [Database.get, columns]
    exact held
  · have different : id ∉ [header.id] := by
      rw [List.mem_singleton]
      rintro rfl
      simp [HeaderStore.contains, Database.contains, held] at unstored
    have kept : (headerWritten view (HeaderStore.putWithBytesBatched [] header raw)).db.get .headers id = some old := by
      have column : batchColumn .headers (HeaderStore.putWithBytesBatched [] header raw) =
          puts Header.id (fun _ => raw) [header] := by simp [HeaderStore.putWithBytesBatched, puts]
      have written := Store.column_write view.db.columns (HeaderStore.putWithBytesBatched [] header raw) .headers
      rw [column] at written
      exact (congrFun written id).trans ((Store.write_puts_of_not_mem _ _ different).trans held)
    rcases fails : Database.writeFails view.db.faults.tail with _ | _
    · rw [exec_appendHeaderInternal works fails unstored parent encoded]
      have written := congrFun (appended_headerAppended view header raw).writes.headers id
      exact written.trans ((Store.write_puts_of_not_mem _ _ different).trans held)
    · rw [Database.get, (half fails).1]
      exact kept

theorem appendHeadersBatched_keeps (view : OnDatabase History) (headers : List (Header × Bytes))
    (held : view.db.get .headers id = some old) :
    ((History.appendHeadersBatched sr headers).exec view).2.db.get .headers id = some old := by
  rcases @appendHeadersBatched_appended sr view headers with
    ⟨⟨columns, -⟩, -⟩ | ⟨first, rest, added, -, batched, appended⟩
  · rw [Database.get, columns]
    exact held
  · have absent : id ∉ ids added := by
      intro member
      obtain ⟨a, inAdded, rfl⟩ := List.mem_map.mp member
      have fresh : (a.header, a.rawBytes) ∈ headers.filter fun item => !HeaderStore.contains view.db item.1.id := by
        rw [← batched.fresh]
        exact List.mem_map_of_mem inAdded
      have unstored := (List.mem_filter.mp fresh).2
      simp [HeaderStore.contains, Database.contains, held] at unstored
    have column := congrFun appended.writes.headers id
    rw [Store.write_puts_of_not_mem _ _ absent] at column
    exact column.trans held

def Rewritten (sr : SigmaRust) (blocks : List FullBlock) (id : BlockId) (bytes : Bytes) : Prop :=
  ∃ block ∈ blocks, block.id = id ∧ sr.headerBytes block.header = .ok bytes

theorem headers_of_writes {before after : Columns} {added : List Added} {blocks : List FullBlock}
    (writes : Writes before after added) (headers : added.map (·.header) = blocks.map (·.header))
    (encoded : ∀ a ∈ added, sr.headerBytes a.header = .ok a.rawBytes) (id : BlockId) :
    after.column .headers id = before.column .headers id ∨
      ∃ bytes, Rewritten sr blocks id bytes ∧ after.column .headers id = some bytes := by
  rw [writes.headers]
  by_cases member : id ∈ ids added
  · obtain ⟨a, inAdded, rfl, now⟩ := Store.exists_of_write_puts (before.column .headers)
      (fun a : Added => a.rawBytes) member
    obtain ⟨block, inBlocks, same⟩ := List.mem_map.mp (headers ▸ List.mem_map_of_mem inAdded)
    refine .inr ⟨a.rawBytes, ⟨block, inBlocks, congrArg Header.id same, ?_⟩, now⟩
    rw [same]
    exact encoded a inAdded
  · exact .inl (Store.write_puts_of_not_mem _ _ member)

theorem appendFullBlock_headers (view : OnDatabase History) (block : FullBlock) (id : BlockId) :
    let after := ((History.appendFullBlock sr block).exec view).2
    after.db.get .headers id = view.db.get .headers id ∨
      ∃ bytes, Rewritten sr [block] id bytes ∧ after.db.get .headers id = some bytes := by
  intro after
  rcases ran : (History.appendFullBlock sr block).exec view with ⟨error | selection, final⟩
  · obtain rfl : after = final := congrArg Prod.snd ran
    rw [Database.get, (appendFullBlock_eq_error ran).1]
    exact .inl rfl
  · obtain rfl : after = final := congrArg Prod.snd ran
    obtain ⟨batch, cumulative, built, columns, -⟩ := appendFullBlock_eq_ok ran
    obtain ⟨headerBytes, txs, encoded, -, -, rfl⟩ := addBlockToBatch_eq_ok.mp built
    have writes := block_writes block view.db.columns view.mem headerBytes txs cumulative
    rw [← List.nil_append (blockOps block headerBytes txs cumulative), ← columns] at writes
    exact headers_of_writes writes rfl (by simpa using encoded) id

theorem applyBlocksBatched_headers (st : StateManager) (blocks : List (FullBlock × StateChange)) (id : BlockId) :
    let after := ((StateManager.applyBlocksBatched sr blocks).exec st).2
    after.db.get .headers id = st.db.get .headers id ∨
      ∃ bytes, Rewritten sr (blocks.map Prod.fst) id bytes ∧ after.db.get .headers id = some bytes := by
  intro after
  rcases ran : (StateManager.applyBlocksBatched sr blocks).exec st with ⟨error | selection, final⟩
  · obtain rfl : after = final := congrArg Prod.snd ran
    rw [Database.get, (applyBlocksBatched_eq_error ran).1]
    exact .inl rfl
  · obtain rfl : after = final := congrArg Prod.snd ran
    cases blocks with
    | nil =>
        cases ran
        exact .inl rfl
    | cons first rest =>
        obtain ⟨added, blocks, writes, -⟩ := applyBlocksBatched_added ran
        exact headers_of_writes writes blocks.headers blocks.encoded id

theorem storeCall_headers (st : StateManager) (call : StoreCall) (held : st.db.get .headers id = some old) :
    let after := ((call.exec sr).exec st).2
    after.db.get .headers id = some old ∨
      ∃ bytes, Rewritten sr call.blocks id bytes ∧ after.db.get .headers id = some bytes := by
  cases call with
  | appendHeaderWithBytes header rawBytes => exact .inl (appendHeaderInternal_keeps st.historyView held)
  | appendHeadersBatched headers => exact .inl (appendHeadersBatched_keeps st.historyView headers held)
  | appendFullBlock block =>
      have written := @appendFullBlock_headers sr st.historyView block id
      exact written.imp_left fun kept => kept.trans held
  | applyBlocksBatched blocks =>
      exact (applyBlocksBatched_headers st blocks id).imp_left fun kept => kept.trans held

end Calls

/-! ### Runs -/

structure Imported where
  manager : StateManager
  raw : List BlockId

section Runs
variable (sr : SigmaRust)

def storeStep (s : Imported) (call : StoreCall) : Option Imported :=
  let after := ((call.exec sr).exec s.manager).2
  some ⟨after, s.raw ++ call.rawIds.filter fun id =>
    !HeaderStore.contains s.manager.db id && decide (Carries sr after.db id)⟩

def RawCarried (s : Imported) : Prop := ∀ id ∈ s.raw, Carries sr s.manager.db id

def Reserializes (header : Header) : Prop :=
  ∀ bytes, sr.headerBytes header = .ok bytes →
    sr.blake2b256 bytes = header.id ∧ ∃ parsed, sr.parseHeader bytes = .ok parsed

instance (header : Header) : Decidable (Reserializes sr header) :=
  match encoded : sr.headerBytes header with
  | .error _ => .isTrue fun bytes same => by simp [encoded] at same
  | .ok bytes => decidable_of_iff (sr.blake2b256 bytes = header.id ∧ ∃ parsed, sr.parseHeader bytes = .ok parsed)
      (by simp [Reserializes, encoded])

/-- Every block of the call whose header came with its bytes gives the id again. -/
def KeepsIds (s : Imported) (call : StoreCall) : Prop :=
  ∀ block ∈ call.blocks, block.id ∈ s.raw → Reserializes sr block.header

instance (s : Imported) (call : StoreCall) : Decidable (KeepsIds sr s call) :=
  inferInstanceAs (Decidable (∀ _ ∈ _, _ → _))

variable {sr} {s after : Imported} {call : StoreCall}

theorem rawCarried_step (carried : RawCarried sr s) (keeps : KeepsIds sr s call)
    (taken : storeStep sr s call = some after) : RawCarried sr after := by
  cases taken
  intro id member
  rcases List.mem_append.mp member with old | new
  · obtain ⟨bytes, held, hash, parses⟩ := carries_iff.mp (carried id old)
    rcases storeCall_headers s.manager call held with kept | ⟨rewritten, ⟨block, inCall, rfl, encoded⟩, now⟩
    · exact carries_iff.mpr ⟨bytes, kept, hash, parses⟩
    · obtain ⟨hash, parses⟩ := keeps block inCall old rewritten encoded
      exact carries_iff.mpr ⟨rewritten, now, hash, parses⟩
  · have carries := (List.mem_filter.mp new).2
    simp only [Bool.and_eq_true, decide_eq_true_eq] at carries
    exact carries.2

/-- Over a run whose blocks give the ids of their headers again, every header that was first stored with
its bytes is read back with its id. -/
theorem rawCarried_of_keepsIds (sr : SigmaRust) (manager : StateManager) {calls : List StoreCall}
    (keeps : Along (storeStep sr) (KeepsIds sr) ⟨manager, []⟩ calls) :
    Always (storeStep sr) (RawCarried sr) ⟨manager, []⟩ calls :=
  keeps.invariant (RawCarried sr) rawCarried_step fun id member => by cases member

end Runs

/-! ### A header and its block -/

section Sample
open Sample

def importCalls : List StoreCall :=
  [.appendHeaderWithBytes header11 [], .appendHeadersBatched [(header12, [1])],
    .appendFullBlock (sampleBlock header11), .applyBlocksBatched [(sampleBlock header11, emptyChange)]]

theorem importCalls_rawCarried :
    Always (storeStep chainCodec) (RawCarried chainCodec) ⟨.new .empty, []⟩ importCalls :=
  rawCarried_of_keepsIds chainCodec (.new .empty) (by decide)

/-- The first header comes as no bytes and is serialized as one byte. -/
def version1Codec : SigmaRust :=
  { chainCodec with
    headerBytes := fun _ => .ok [1]
    parseHeader := fun _ => .ok header11
    blake2b256 := fun bytes => if bytes = [] then header11.id else .zero }

def blockAfterHeader : List StoreCall :=
  [.appendHeaderWithBytes header11 [], .appendFullBlock (sampleBlock header11)]

theorem blockAfterHeader_not_rawCarried :
    ¬ Always (storeStep version1Codec) (RawCarried version1Codec) ⟨.new .empty, []⟩ blockAfterHeader := by
  intro always
  have carried : RawCarried version1Codec _ := always _ ⟨blockAfterHeader, List.prefix_rfl, rfl⟩
  have read := carried header11.id (by decide)
  exact absurd read (by decide)

end Sample

end ErgoNode.Proof.Manager
