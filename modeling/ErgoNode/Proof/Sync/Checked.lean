import ErgoNode.Consensus.HeaderValidation
import ErgoNode.Lib.Run
import ErgoNode.Proof.History.Growth
import ErgoNode.Proof.Sync.Pending
import ErgoNode.Proof.Sync.Stored

/-!
# Headers in the store are not checked

What reaches the header store was received. A header above height 2 has its parent stored, because the
history asks for it; one at height 2 has it only where the protocol has kept the parent. Whether a
header passes its checks is decided by whoever sends it.
-/

namespace ErgoNode.Proof.Sync
open Lib HeaderSync
open ErgoNode.Proof.History (stored contains_iff stored_after ids Writes Added)

/-! ### The checks -/

def headerData (header : Header) : HeaderData where
  version := header.version
  parentId := header.parentId.bytes
  transactionsRoot := header.transactionRoot.bytes
  stateRoot := header.stateRoot
  timestamp := header.timestamp
  height := header.height
  nBits := header.nBits
  votes := header.votes

structure Checked (sr : SigmaRust) (serializeWithoutPow : Header → Except String Bytes) (header parent : Header) :
    Prop where
  valid : ∃ nowMs, DefaultHeaderValidator.validateHeader nowMs (headerData header) (headerData parent) = .ok ()
  pow : AutolykosV2.new.verifyHeader sr serializeWithoutPow header = .ok true

/-- Every stored header above height 1 has its parent stored and passes the checks against it. -/
def StoreChecked (sr : SigmaRust) (serializeWithoutPow : Header → Except String Bytes) (db : Database) : Prop :=
  ∀ id header, HeaderStore.get sr db id = .ok (some header) → 1 < header.height →
    ∃ parent, HeaderStore.get sr db header.parentId = .ok (some parent) ∧
      Checked sr serializeWithoutPow header parent

theorem validateHeader_eq_ok {nowMs : Nat} {header parent : HeaderData} :
    DefaultHeaderValidator.validateHeader nowMs header parent = .ok () ↔
      header.height = parent.height + 1 ∧ parent.timestamp < header.timestamp ∧
        header.timestamp ≤ nowMs + DefaultHeaderValidator.maxFuture ∧ 1 ≤ header.version ∧ header.version ≤ 4 := by
  unfold DefaultHeaderValidator.validateHeader
  split
  · next wrong => simp [wrong]
  · split
    · next early => simp [Nat.not_lt.mpr early]
    · split
      · next late => simp [Nat.not_le.mpr late]
      · split
        · next unknown =>
            simp only [reduceCtorEq, false_iff]
            rintro ⟨-, -, -, low, high⟩
            omega
        · next height time now version =>
            simp only [true_iff]
            omega

/-! ### What was received -/

structure Received (sr : SigmaRust) (data : List Bytes) (header : Header) (rawBytes : Bytes) : Prop where
  member : rawBytes ∈ data
  parsed : receivedHeader sr rawBytes = .ok header

structure Genuine (sr : SigmaRust) (serializeWithoutPow : Header → Except String Bytes) (data : List Bytes) :
    Prop where
  distinct : ∀ first ∈ data, ∀ second ∈ data, sr.blake2b256 first = sr.blake2b256 second → first = second
  pow : ∀ rawBytes ∈ data, ∀ header ∈ (receivedHeader sr rawBytes).toOption, 1 < header.height →
    AutolykosV2.new.verifyHeader sr serializeWithoutPow header = .ok true
  version : ∀ rawBytes ∈ data, ∀ header ∈ (receivedHeader sr rawBytes).toOption, 1 < header.height →
    1 ≤ header.version ∧ header.version ≤ 4
  parent : ∀ rawBytes ∈ data, ∀ header ∈ (receivedHeader sr rawBytes).toOption, 1 < header.height →
    ∀ parentBytes ∈ data, ∀ parent ∈ (receivedHeader sr parentBytes).toOption, parent.id = header.parentId →
      header.height = parent.height + 1 ∧ parent.timestamp < header.timestamp

section Store
variable {sr : SigmaRust} {serializeWithoutPow : Header → Except String Bytes} {data : List Bytes}
variable {db : Database} {header : Header} {rawBytes : Bytes}

theorem Received.id_eq (received : Received sr data header rawBytes) : header.id = sr.blake2b256 rawBytes := by
  have parsed := received.parsed
  simp only [receivedHeader, Except.bind_ok_eq_ok, Except.pure_eq_ok] at parsed
  obtain ⟨_, -, rfl⟩ := parsed
  rfl

theorem Received.mono {more : List Bytes} (received : Received sr data header rawBytes) (le : data ⊆ more) :
    Received sr more header rawBytes :=
  ⟨le received.member, received.parsed⟩

theorem Received.unique (distinct : ∀ first ∈ data, ∀ second ∈ data, sr.blake2b256 first = sr.blake2b256 second → first = second)
    {other : Header} {otherBytes : Bytes} (first : Received sr data header rawBytes) (second : Received sr data other otherBytes)
    (same : header.id = other.id) : header = other ∧ rawBytes = otherBytes := by
  rw [first.id_eq, second.id_eq] at same
  obtain rfl := distinct _ first.member _ second.member same
  have parsed := first.parsed
  rw [second.parsed] at parsed
  cases parsed
  exact ⟨rfl, rfl⟩

/-- The store holds received bytes under their ids, and above height 1 with their parents. -/
structure StoreTraced (sr : SigmaRust) (data : List Bytes) (db : Database) : Prop where
  received : ∀ {id bytes}, db.get .headers id = some bytes →
    ∃ header, Received sr data header bytes ∧ header.id = id
  parents : ∀ {id bytes header}, db.get .headers id = some bytes → receivedHeader sr bytes = .ok header →
    1 < header.height → stored db.columns header.parentId

theorem headerStore_get_eq_some {id : BlockId} :
    HeaderStore.get sr db id = .ok (some header) ↔
      ∃ bytes, db.get .headers id = some bytes ∧ receivedHeader sr bytes = .ok header := by
  unfold HeaderStore.get receivedHeader
  rcases db.get .headers id with _ | bytes
  · simp
  · simp

theorem StoreTraced.checked (traced : StoreTraced sr data db) (genuine : Genuine sr serializeWithoutPow data) :
    StoreChecked sr serializeWithoutPow db := by
  intro id header found high
  obtain ⟨bytes, present, parsed⟩ := headerStore_get_eq_some.mp found
  obtain ⟨_, received, -⟩ := traced.received present
  obtain ⟨parentBytes, parentPresent⟩ := Option.ne_none_iff_exists'.mp (traced.parents present parsed high)
  obtain ⟨parent, parentReceived, parentId⟩ := traced.received parentPresent
  have here := Except.toOption_eq_some.mpr parsed
  have there := Except.toOption_eq_some.mpr parentReceived.parsed
  have linked := genuine.parent bytes received.member header here high parentBytes parentReceived.member parent there parentId
  have version := genuine.version bytes received.member header here high
  refine ⟨parent, headerStore_get_eq_some.mpr ⟨parentBytes, parentPresent, parentReceived.parsed⟩, ?_,
    genuine.pow bytes received.member header here high⟩
  exact ⟨header.timestamp, validateHeader_eq_ok.mpr
    ⟨linked.1, linked.2, Nat.le_add_right _ _, version.1, version.2⟩⟩

theorem stored_of_puts {after : Database} {items : List (Header × Bytes)}
    (headers : after.columns.column .headers =
      (db.columns.column .headers).write (puts (fun item => item.1.id) Prod.snd items))
    {id : BlockId} (before : stored db.columns id) : stored after.columns id := by
  rw [stored, headers]
  have writes : ∀ op ∈ puts (fun item : Header × Bytes => item.1.id) Prod.snd items, op.kind.result.isSome := by
    intro op member
    obtain ⟨item, -, rfl⟩ := List.mem_map.mp member
    rfl
  exact Option.isSome_iff_ne_none.mp (Store.isSome_write _ writes (Option.isSome_iff_ne_none.mpr before))

theorem StoreTraced.add (traced : StoreTraced sr data db) {after : Database} {items : List (Header × Bytes)}
    (headers : after.columns.column .headers =
      (db.columns.column .headers).write (puts (fun item => item.1.id) Prod.snd items))
    (received : ∀ item ∈ items, Received sr data item.1 item.2)
    (parents : ∀ item ∈ items, 1 < item.1.height → stored after.columns item.1.parentId) :
    StoreTraced sr data after := by
  have cases : ∀ {id bytes}, after.get .headers id = some bytes →
      (∃ item ∈ items, item.1.id = id ∧ item.2 = bytes) ∨ db.get .headers id = some bytes := by
    intro id bytes present
    have now : after.columns.column .headers id = some bytes := present
    rw [headers] at now
    by_cases new : id ∈ items.map fun item => item.1.id
    · obtain ⟨item, member, same, here⟩ := Store.exists_of_write_puts (db.columns.column .headers) Prod.snd new
      rw [here] at now
      exact .inl ⟨item, member, same, Option.some.inj now⟩
    · rw [Store.write_puts_of_not_mem _ _ new] at now
      exact .inr now
  constructor
  · intro id bytes present
    rcases cases present with ⟨item, member, same, rfl⟩ | old
    · exact ⟨item.1, received item member, same⟩
    · exact traced.received old
  · intro id bytes header present parsed high
    rcases cases present with ⟨item, member, same, rfl⟩ | old
    · have parsedToo := (received item member).parsed
      rw [parsed] at parsedToo
      cases parsedToo
      exact parents item member high
    · exact stored_of_puts headers (traced.parents old parsed high)

end Store

/-! ### What the protocol holds -/

def Kept (s : HeaderSync) (id : BlockId) : Prop :=
  stored s.state.db.columns id ∨ id ∈ s.pendingHeaderWrites.map fun item => item.1.id

instance (s : HeaderSync) (id : BlockId) : Decidable (Kept s id) := inferInstanceAs (Decidable (_ ∨ _))

/-- Whatever is held was received; a header of height 2 is passed on with its parent kept. -/
structure Traced (sr : SigmaRust) (data : List Bytes) (s : HeaderSync) : Prop where
  waiting : ∀ {id pending}, s.pendingHeaders.byId.lookup id = some pending →
    Received sr data pending.header pending.rawBytes ∧ pending.header.id.bytes = id
  children : ∀ {parentId id}, Waits s.pendingHeaders parentId id →
    ∃ header rawBytes, Received sr data header rawBytes ∧ header.id.bytes = id ∧ header.parentId.bytes = parentId
  writes : ∀ item ∈ s.pendingHeaderWrites, Received sr data item.1 item.2
  parents : ∀ item ∈ s.pendingHeaderWrites, item.1.height = 2 → Kept s item.1.parentId
  store : StoreTraced sr data s.state.db

theorem Digest32.ext_bytes {first second : Digest32} (same : first.bytes = second.bytes) : first = second := by
  cases first
  cases second
  cases same
  rfl

section Held
variable {sr : SigmaRust} {serializeWithoutPow : Header → Except String Bytes} {data : List Bytes}
variable {s after : HeaderSync} {header : Header} {rawBytes id : Bytes}

theorem Traced.removePending (traced : Traced sr data s) (id : Bytes) : Traced sr data (removePending id s) where
  waiting here := traced.waiting (lookup_remove here)
  children here := traced.children (waits_remove here)
  writes := traced.writes
  parents := traced.parents
  store := traced.store

theorem kept_bufferHeader {id : BlockId} :
    Kept (bufferHeader sr header rawBytes s) id ↔ Kept s id ∨ id = header.id := by
  simp only [Kept, bufferHeader_state, bufferHeader_pendingHeaderWrites, List.map_append, List.mem_append,
    List.map_cons, List.map_nil, List.mem_singleton, or_assoc]

theorem Traced.bufferHeader (traced : Traced sr data s) (received : Received sr data header rawBytes)
    (parent : header.height = 2 → Kept s header.parentId) : Traced sr data (bufferHeader sr header rawBytes s) where
  waiting here := by
    rw [bufferHeader_pendingHeaders] at here
    exact traced.waiting here
  children here := by
    rw [bufferHeader_pendingHeaders] at here
    exact traced.children here
  writes item member := by
    rw [bufferHeader_pendingHeaderWrites, List.mem_append] at member
    rcases member with old | new
    · exact traced.writes item old
    · cases List.mem_singleton.mp new
      exact received
  parents item member second := by
    rw [bufferHeader_pendingHeaderWrites, List.mem_append] at member
    rcases member with old | new
    · exact kept_bufferHeader.mpr (.inl (traced.parents item old second))
    · cases List.mem_singleton.mp new
      exact kept_bufferHeader.mpr (.inl (parent second))
  store := by
    rw [bufferHeader_state]
    exact traced.store

theorem Traced.child (traced : Traced sr data s) (genuine : Genuine sr serializeWithoutPow data)
    {pending : PendingHeader} (member : (id, pending) ∈ s.pendingHeaders.getByParent s.childOrder header.id.bytes) :
    Received sr data pending.header pending.rawBytes ∧ pending.header.parentId = header.id := by
  obtain ⟨waits, here⟩ := mem_getByParent member
  obtain ⟨received, sameId⟩ := traced.waiting here
  obtain ⟨other, bytes, otherReceived, otherId, parentId⟩ := traced.children waits
  obtain ⟨rfl, -⟩ := received.unique genuine.distinct otherReceived (Digest32.ext_bytes (sameId.trans otherId.symm))
  exact ⟨received, Digest32.ext_bytes parentId⟩

structure Moved (sr : SigmaRust) (data : List Bytes) (before : HeaderSync)
    (result : Except SyncError Unit × HeaderSync) : Prop where
  traced : Traced sr data result.2
  kept : result.1 = .ok () → ∀ id, Kept before id → Kept result.2 id

theorem Moved.bind {x : Op HeaderSync SyncError Unit} {f : Unit → Op HeaderSync SyncError Unit}
    (first : Moved sr data s (x.exec s))
    (second : ∀ after, x.exec s = (.ok (), after) → Traced sr data after → (∀ id, Kept s id → Kept after id) →
      Moved sr data after ((f ()).exec after)) : Moved sr data s ((x >>= f).exec s) := by
  rw [Op.exec_bind]
  rcases ran : x.exec s with ⟨result, after⟩
  rw [ran] at first
  cases result with
  | error e => exact ⟨first.traced, fun failed => nomatch failed⟩
  | ok _ =>
      have rest := second after ran first.traced (first.kept rfl)
      exact ⟨rest.traced, fun done id kept => rest.kept done id (first.kept rfl id kept)⟩

theorem Moved.refl (traced : Traced sr data s) (result : Except SyncError Unit) : Moved sr data s (result, s) :=
  ⟨traced, fun _ _ kept => kept⟩

/-! ### Writing the batch -/

theorem StoreTraced.of_columns {db next : Database} (traced : StoreTraced sr data db) (same : next.columns = db.columns) :
    StoreTraced sr data next where
  received here := by
    rw [Database.get, same] at here
    exact traced.received here
  parents here := by
    rw [Database.get, same] at here
    rw [same]
    exact traced.parents here

theorem stored_appendHeadersBatched (sr : SigmaRust) (items : List (Header × Bytes)) (st : History.State) :
    (∀ id, stored st.db.columns id →
      stored ((ErgoNode.History.appendHeadersBatched sr items).exec st).2.db.columns id) ∧
    (((ErgoNode.History.appendHeadersBatched sr items).exec st).2.db.columns = st.db.columns ∧
        (∃ error, ((ErgoNode.History.appendHeadersBatched sr items).exec st).1 = .error error) ∨
      ∀ id ∈ items.map fun item => item.1.id,
        stored ((ErgoNode.History.appendHeadersBatched sr items).exec st).2.db.columns id) := by
  rcases @History.appendHeadersBatched_appended sr st items with
    ⟨⟨columns, -⟩, rfl | failed⟩ | ⟨first, rest, added, -, batched, appended⟩
  · exact ⟨fun id old => columns ▸ old, .inr (List.forall_mem_nil _)⟩
  · exact ⟨fun id old => columns ▸ old, .inl ⟨columns, failed⟩⟩
  · simp only [stored_after appended.writes]
    refine ⟨fun id old => .inl old, .inr fun id inItems => ?_⟩
    obtain ⟨item, member, rfl⟩ := List.mem_map.mp inItems
    rcases held : HeaderStore.contains st.db item.1.id with _ | _
    · have fresh : item ∈ items.filter fun item => !HeaderStore.contains st.db item.1.id :=
        List.mem_filter.mpr ⟨member, by simp [held]⟩
      rw [← batched.fresh] at fresh
      obtain ⟨a, inAdded, rfl⟩ := List.mem_map.mp fresh
      exact .inr (List.mem_map_of_mem inAdded)
    · exact .inl ((contains_iff _ _).mp held)

theorem StoreTraced.batch {st : History.State} (traced : StoreTraced sr data st.db) {items : List (Header × Bytes)}
    (received : ∀ item ∈ items, Received sr data item.1 item.2)
    (parents : ∀ item ∈ items, item.1.height = 2 →
      stored st.db.columns item.1.parentId ∨ item.1.parentId ∈ items.map fun item => item.1.id) :
    StoreTraced sr data ((ErgoNode.History.appendHeadersBatched sr items).exec st).2.db := by
  obtain ⟨grows, failed | all⟩ := stored_appendHeadersBatched sr items st
  · exact traced.of_columns failed.1
  rcases @History.appendHeadersBatched_appended sr st items with
    ⟨⟨columns, -⟩, -⟩ | ⟨first, rest, added, -, batched, appended⟩
  · exact traced.of_columns columns
  · have written : ((ErgoNode.History.appendHeadersBatched sr items).exec st).2.db.columns.column .headers =
        (st.db.columns.column .headers).write (puts (fun item => item.1.id) Prod.snd
          (added.map fun a => (a.header, a.rawBytes))) := by
      rw [appended.writes.headers, puts, puts, List.map_map]
      rfl
    refine traced.add written ?_ ?_
    · intro item member
      rw [batched.fresh] at member
      exact received item (List.mem_filter.mp member).1
    · intro item member high
      obtain ⟨a, inAdded, rfl⟩ := List.mem_map.mp member
      rw [batched.fresh] at member
      rcases Nat.lt_or_ge 2 a.header.height with above | low
      · obtain ⟨before, after, rfl⟩ := List.append_of_mem inAdded
        rw [stored_after appended.writes]
        rcases (batched.step before a ⟨after, by simp⟩).1 above with inBatch | old
        · refine .inr ?_
          rw [ids, List.map_append]
          exact List.mem_append_left _ inBatch
        · exact .inl ((contains_iff _ _).mp old)
      · exact (parents _ (List.mem_filter.mp member).1 (Nat.le_antisymm low high)).elim (grows _) (all _)

theorem stored_storeHeadersBatch (sr : SigmaRust) (headers : List (Header × Bytes)) {state : StateManager} {id : BlockId}
    (before : stored state.db.columns id) : stored (Node.storeHeadersBatch sr headers state).db.columns id := by
  rw [storeHeadersBatch_db]
  exact (stored_appendHeadersBatched sr headers state.historyView).1 id before

/-- A short batch is left for later; else the batch leaves the buffer, and no error means that it is stored. -/
theorem exec_flushIfDue_cases (sr : SigmaRust) (s : HeaderSync) :
    (∃ timeouts, (flushIfDue sr).exec s = (.ok (), { s with timeouts }) ∧
      s.pendingHeaderWrites.length < headerBatchSize) ∨
    ∃ timeouts result, (flushIfDue sr).exec s = (result, { s with
        timeouts
        pendingHeaderWrites := []
        state := Node.storeHeadersBatch sr s.pendingHeaderWrites s.state }) ∧
      s.pendingHeaderWrites ≠ [] ∧ (result = .ok () → ∀ id ∈ s.pendingHeaderWrites.map fun item => item.1.id,
        stored (Node.storeHeadersBatch sr s.pendingHeaderWrites s.state).db.columns id) := by
  have asked : ∃ due timeouts, shouldFlushHeaders.exec s = (.ok due, { s with timeouts }) ∧
      if due then s.pendingHeaderWrites ≠ [] else s.pendingHeaderWrites.length < headerBatchSize := by
    unfold shouldFlushHeaders
    rw [Op.exec_bind_of_ok (Op.exec_get s), Op.exec_ite, Op.exec_ite]
    split
    · next none => exact ⟨false, s.timeouts, rfl, by rw [none]; decide⟩
    · next some =>
        split
        · exact ⟨true, s.timeouts, rfl, some⟩
        · next short =>
            refine ⟨_, s.timeouts.tail, rfl, ?_⟩
            split
            · exact some
            · exact Nat.not_le.mp short
  obtain ⟨due, timeouts, asked, buffer⟩ := asked
  unfold flushIfDue
  rw [Op.exec_bind_of_ok asked, Op.exec_ite]
  cases due with
  | false => exact .inl ⟨timeouts, rfl, buffer⟩
  | true =>
      have some : s.pendingHeaderWrites ≠ [] := buffer
      rw [if_pos rfl, flushPendingHeadersToStorage, Op.exec_bind_of_ok (Op.exec_get _), Op.exec_ite, if_neg some,
        Op.exec_bind_of_ok (Op.exec_set _ _), storeHeadersBatch_db]
      have result : ((StateManager.applyHeadersBatched sr s.pendingHeaderWrites).exec s.state).1 =
          ((ErgoNode.History.appendHeadersBatched sr s.pendingHeaderWrites).exec s.state.historyView).1 := rfl
      dsimp only
      rw [result]
      obtain ⟨-, written⟩ := stored_appendHeadersBatched sr s.pendingHeaderWrites s.state.historyView
      rcases ran : ((ErgoNode.History.appendHeadersBatched sr s.pendingHeaderWrites).exec s.state.historyView).1 with
        cause | selection
      · exact .inr ⟨timeouts, _, rfl, some, nofun⟩
      · refine .inr ⟨timeouts, _, rfl, some, fun _ => ?_⟩
        rcases written with ⟨-, error, failed⟩ | all
        · cases ran.symm.trans failed
        · exact all

theorem moved_flushIfDue (traced : Traced sr data s) : Moved sr data s ((flushIfDue sr).exec s) := by
  rcases exec_flushIfDue_cases sr s with ⟨timeouts, ran, -⟩ | ⟨timeouts, result, ran, -, written⟩
  · rw [ran]
    exact ⟨⟨traced.waiting, traced.children, traced.writes, traced.parents, traced.store⟩, fun _ _ kept => kept⟩
  · rw [ran]
    have store := @StoreTraced.batch sr data s.state.historyView traced.store _ traced.writes traced.parents
    refine ⟨⟨traced.waiting, traced.children, List.forall_mem_nil _, List.forall_mem_nil _, ?_⟩, fun done id kept => ?_⟩
    · rw [storeHeadersBatch_db]
      exact store
    · exact .inl (kept.elim (stored_storeHeadersBatch sr _) (written done id))

/-! ### Passing on a header -/

theorem moved_children {fuel : Nat} {parent : Header}
    (recursion : ∀ {s header rawBytes}, Traced sr data s → Received sr data header rawBytes →
      (header.height = 2 → Kept s header.parentId) →
      Moved sr data s ((storeHeaderAndDescendants sr fuel header rawBytes).exec s))
    (waiting : List (Bytes × PendingHeader))
    (known : ∀ entry ∈ waiting, Received sr data entry.2.header entry.2.rawBytes ∧ entry.2.header.parentId = parent.id)
    (traced : Traced sr data s) (kept : Kept s parent.id) :
    Moved sr data s ((Op.forEach (fun (id, pending) => do
      modify (HeaderSync.removePending id)
      storeHeaderAndDescendants sr fuel pending.header pending.rawBytes) waiting).exec s) := by
  induction waiting generalizing s with
  | nil => exact .refl traced (.ok ())
  | cons entry rest ih =>
      obtain ⟨received, parentId⟩ := known entry List.mem_cons_self
      have child : Moved sr data s ((do
          modify (HeaderSync.removePending entry.1)
          storeHeaderAndDescendants sr fuel entry.2.header entry.2.rawBytes : Op HeaderSync SyncError Unit).exec s) := by
        rw [Op.exec_bind_of_ok (Op.exec_modify _ s)]
        have moved := recursion (traced.removePending entry.1) received fun _ => by
          rw [parentId]
          exact kept
        exact ⟨moved.traced, moved.kept⟩
      exact child.bind fun after _ tracedAfter keptAfter =>
        ih (fun other member => known other (List.mem_cons_of_mem _ member)) tracedAfter (keptAfter _ kept)

theorem moved_storeHeaderAndDescendants (genuine : Genuine sr serializeWithoutPow data) (fuel : Nat)
    (traced : Traced sr data s) (received : Received sr data header rawBytes)
    (parent : header.height = 2 → Kept s header.parentId) :
    Moved sr data s ((storeHeaderAndDescendants sr fuel header rawBytes).exec s) := by
  induction fuel generalizing s header rawBytes with
  | zero => exact .refl traced (.ok ())
  | succ fuel ih =>
      have buffered := traced.bufferHeader received parent
      have here : Kept (HeaderSync.bufferHeader sr header rawBytes s) header.id := kept_bufferHeader.mpr (.inr rfl)
      have children := moved_children (fun traced received parent => ih traced received parent)
        ((HeaderSync.bufferHeader sr header rawBytes s).pendingHeaders.getByParent
          (HeaderSync.bufferHeader sr header rawBytes s).childOrder header.id.bytes)
        (fun entry member => buffered.child genuine member) buffered here
      have rest := children.bind (f := fun _ => flushIfDue sr) fun after _ tracedAfter _ => moved_flushIfDue tracedAfter
      rw [storeHeaderAndDescendants, Op.exec_bind_of_ok (Op.exec_modify _ s), Op.exec_bind_of_ok (Op.exec_get _)]
      exact ⟨rest.traced, fun done id kept => rest.kept done id (kept_bufferHeader.mpr (.inl kept))⟩

theorem Traced.insertPending (traced : Traced sr data s) (received : Received sr data header rawBytes) (maxSize : Nat) :
    Traced sr data { s with
      pendingHeaders := s.pendingHeaders.insert header.id.bytes ⟨header, rawBytes, header.parentId.bytes⟩ maxSize } where
  waiting here := by
    rcases lookup_insert here with ⟨rfl, rfl⟩ | old
    · exact ⟨received, rfl⟩
    · exact traced.waiting old
  children here := by
    rcases waits_insert here with ⟨rfl, rfl⟩ | old
    · exact ⟨header, rawBytes, received, rfl, rfl⟩
    · exact traced.children old
  writes := traced.writes
  parents := traced.parents
  store := traced.store

theorem columns_appendHeaderWithBytes (sr : SigmaRust) (header : Header) (rawBytes : Bytes) (st : History.State) :
    ((ErgoNode.History.appendHeaderWithBytes sr header rawBytes).exec st).2.db.columns = st.db.columns ∨
      ((ErgoNode.History.appendHeaderWithBytes sr header rawBytes).exec st).2.db.columns.column .headers =
        (st.db.columns.column .headers).write (puts (fun item => item.1.id) Prod.snd [(header, rawBytes)]) ∧
      (2 < header.height → HeaderStore.contains st.db header.parentId = true) := by
  rcases History.appendHeaderInternal_cases sr st header (some rawBytes) with
    unchanged | ⟨raw, encoded, unstored, above, works, lost⟩
  · exact .inl unchanged.1
  · refine .inr ⟨?_, above⟩
    rcases again : Database.writeFails st.db.faults.tail with _ | _
    · rw [ErgoNode.History.appendHeaderWithBytes,
        History.exec_appendHeaderInternal works again unstored above rfl]
      exact (History.appended_headerAppended st header rawBytes).writes.headers
    · cases encoded
      rw [ErgoNode.History.appendHeaderWithBytes, (lost again).1, History.headerWritten, Store.column_write]
      simp [HeaderStore.putWithBytesBatched, puts]

theorem stored_appendHeaderWithBytes (sr : SigmaRust) (header : Header) (rawBytes : Bytes) {st : History.State}
    {id : BlockId} (before : stored st.db.columns id) :
    stored ((ErgoNode.History.appendHeaderWithBytes sr header rawBytes).exec st).2.db.columns id := by
  rcases columns_appendHeaderWithBytes sr header rawBytes st with same | ⟨written, -⟩
  · rw [same]
    exact before
  · exact stored_of_puts written before

theorem StoreTraced.single {st : History.State} (traced : StoreTraced sr data st.db)
    (received : Received sr data header rawBytes)
    (parent : header.height = 2 → stored st.db.columns header.parentId) :
    StoreTraced sr data ((ErgoNode.History.appendHeaderWithBytes sr header rawBytes).exec st).2.db := by
  rcases columns_appendHeaderWithBytes sr header rawBytes st with same | ⟨written, above⟩
  · exact traced.of_columns same
  · refine traced.add written (fun item member => List.mem_singleton.mp member ▸ received) ?_
    intro item member high
    cases List.mem_singleton.mp member
    rcases Nat.lt_or_ge 2 header.height with tall | low
    · exact stored_of_puts written ((contains_iff _ _).mp (above tall))
    · exact stored_of_puts written (parent (Nat.le_antisymm low high))

/-! ### The depth of the recursion -/

def waitingIds (s : HeaderSync) : List Bytes := s.pendingHeaders.byId.keys

theorem mem_waitingIds_removePending {other : Bytes} :
    other ∈ waitingIds (HeaderSync.removePending id s) ↔ other ≠ id ∧ other ∈ waitingIds s := by
  unfold waitingIds HeaderSync.removePending PendingHeadersMap.remove
  dsimp only
  split
  · next absent =>
      have missing : id ∉ s.pendingHeaders.byId := AList.lookup_eq_none.mp absent
      refine ⟨fun member => ⟨?_, member⟩, And.right⟩
      rintro rfl
      exact missing member
  · exact AList.mem_erase

theorem keeps_flushIfDue :
    Op.Keeps (fun s : HeaderSync => (s.pendingHeaders, s.storedHeaders)) (flushIfDue sr) := by
  intro s
  rcases exec_flushIfDue_cases sr s with ⟨timeouts, ran, -⟩ | ⟨timeouts, result, ran, -⟩ <;> rw [ran]

def Within (base : List Bytes) (s : HeaderSync) : Prop := waitingIds s ⊆ base

theorem Within.removePending {base : List Bytes} (within : Within base s) (id : Bytes) :
    Within base (HeaderSync.removePending id s) :=
  fun _ member => within (mem_waitingIds_removePending.mp member).2

theorem within_storeHeaderAndDescendants (fuel : Nat) (header : Header) (rawBytes : Bytes) {base : List Bytes}
    (within : Within base s) : Op.Ends (Within base) (storeHeaderAndDescendants sr fuel header rawBytes) s := by
  induction fuel generalizing s header rawBytes with
  | zero => exact within
  | succ fuel ih =>
      have buffered : Within base (HeaderSync.bufferHeader sr header rawBytes s) := by
        rw [Within, waitingIds, bufferHeader_pendingHeaders]
        exact within
      rw [storeHeaderAndDescendants]
      refine Op.Ends.bind buffered fun _ _ ran _ => ?_
      cases ran
      refine Op.Ends.get_bind ((Op.Ends.forEach (fun entry t here => ?_) _ buffered).bind fun _ t _ there => ?_)
      · have removed : Op.Ends (Within base)
            (modify (HeaderSync.removePending entry.1) : Op HeaderSync SyncError PUnit) t := here.removePending entry.1
        exact removed.bind fun _ _ _ there => ih _ _ there
      · have kept := congrArg Prod.fst (@keeps_flushIfDue sr t)
        dsimp only at kept
        rw [Op.Ends, Within, waitingIds, kept]
        exact there

theorem len_removePending_lt (within : Within (waitingIds s) after) (present : id ∈ waitingIds s) :
    (HeaderSync.removePending id after).pendingHeaders.len < s.pendingHeaders.len := by
  have removed : id ∉ waitingIds (HeaderSync.removePending id after) :=
    fun member => (mem_waitingIds_removePending.mp member).1 rfl
  have nodup := (AList.keys_nodup (HeaderSync.removePending id after).pendingHeaders.byId).cons removed
  have fewer : id :: waitingIds (HeaderSync.removePending id after) ⊆ waitingIds s :=
    List.cons_subset.mpr ⟨present, within.removePending id⟩
  have shorter := (List.subperm_of_subset nodup fewer).length_le
  exact Nat.lt_of_succ_le (by simpa [waitingIds, AList.keys, List.keys, PendingHeadersMap.len] using shorter)

/-- Once there is a level for each waiting header, more levels change nothing. -/
theorem storeHeaderAndDescendants_fuel {fuel more : Nat} (enough : s.pendingHeaders.len < fuel) (le : fuel ≤ more)
    (header : Header) (rawBytes : Bytes) :
    (storeHeaderAndDescendants sr more header rawBytes).exec s =
      (storeHeaderAndDescendants sr fuel header rawBytes).exec s := by
  induction fuel generalizing s header rawBytes more with
  | zero => cases enough
  | succ fuel ih =>
      obtain ⟨more, rfl⟩ := Nat.exists_eq_add_one_of_ne_zero (Nat.ne_of_gt (Nat.lt_of_lt_of_le (Nat.succ_pos fuel) le))
      have loop (waiting : List (Bytes × PendingHeader)) (known : ∀ entry ∈ waiting, entry.1 ∈ waitingIds s)
          (t : HeaderSync) (within : Within (waitingIds s) t) :
          (Op.forEach (fun (id, pending) => do
            modify (HeaderSync.removePending id)
            storeHeaderAndDescendants sr more pending.header pending.rawBytes) waiting).exec t =
          (Op.forEach (fun (id, pending) => do
            modify (HeaderSync.removePending id)
            storeHeaderAndDescendants sr fuel pending.header pending.rawBytes) waiting).exec t := by
        induction waiting generalizing t with
        | nil => rfl
        | cons entry rest again =>
            have shorter := len_removePending_lt within (known entry List.mem_cons_self)
            have same := ih (Nat.lt_of_lt_of_le shorter (Nat.le_of_lt_succ enough)) (Nat.le_of_succ_le_succ le)
              entry.2.header entry.2.rawBytes
            rw [Op.exec_forEach_cons, Op.exec_forEach_cons, Op.exec_bind_of_ok (Op.exec_modify _ t),
              Op.exec_bind_of_ok (Op.exec_modify _ t), same]
            have stays := @within_storeHeaderAndDescendants sr _ fuel entry.2.header entry.2.rawBytes _
              (within.removePending entry.1)
            rcases ran : (storeHeaderAndDescendants sr fuel entry.2.header entry.2.rawBytes).exec
              (HeaderSync.removePending entry.1 t) with ⟨result, after⟩
            rw [Op.Ends, ran] at stays
            cases result with
            | error e => rfl
            | ok _ => exact again (fun other member => known other (List.mem_cons_of_mem _ member)) after stays
      have listed : ∀ entry ∈ s.pendingHeaders.getByParent s.childOrder header.id.bytes, entry.1 ∈ waitingIds s := by
        intro entry member
        exact AList.lookup_isSome.mp (by rw [(mem_getByParent member).2]; rfl)
      have start : Within (waitingIds s) (HeaderSync.bufferHeader sr header rawBytes s) := by
        rw [Within, waitingIds, bufferHeader_pendingHeaders]
        exact fun _ member => member
      rw [storeHeaderAndDescendants, storeHeaderAndDescendants, Op.exec_bind_of_ok (Op.exec_modify _ s),
        Op.exec_bind_of_ok (Op.exec_modify _ s), Op.exec_bind_of_ok (Op.exec_get _), Op.exec_bind_of_ok (Op.exec_get _),
        Op.exec_bind, Op.exec_bind, bufferHeader_pendingHeaders, bufferHeader_childOrder, loop _ listed _ start]

/-! ### Runs -/

/-- A header of height 2 is met only where the protocol, if it counts its parent as stored, has kept
it; the node's own command asks for the parent in the store. -/
def Fits (sr : SigmaRust) (s : HeaderSync) : Action → Prop
  | .receive data => ∀ header ∈ (receivedHeader sr data).toOption, header.height = 2 →
      header.parentId.bytes ∈ s.storedHeaders → Kept s header.parentId
  | .tick => True
  | .storeHeader data => ∀ header ∈ (receivedHeader sr data).toOption, header.height = 2 →
      stored s.state.db.columns header.parentId

instance (sr : SigmaRust) (s : HeaderSync) : DecidablePred (Fits sr s)
  | .receive _ => inferInstanceAs (Decidable (∀ header ∈ Except.toOption _, _))
  | .tick => inferInstanceAs (Decidable True)
  | .storeHeader _ => inferInstanceAs (Decidable (∀ header ∈ Except.toOption _, _))

def received : Action → List Bytes
  | .receive data | .storeHeader data => [data]
  | .tick => []

theorem traced_onHeaderReceived (genuine : Genuine sr serializeWithoutPow data) (traced : Traced sr data s)
    (member : rawBytes ∈ data) (fits : Fits sr s (.receive rawBytes)) :
    Traced sr data ((onHeaderReceived sr rawBytes).exec s).2 := by
  unfold onHeaderReceived
  rcases parsed : receivedHeader sr rawBytes with e | header
  · exact traced
  · have here : Received sr data header rawBytes := ⟨member, parsed⟩
    dsimp only
    rw [Op.exec_bind_of_ok (Op.exec_get s), Op.exec_ite, Op.exec_ite]
    split
    · exact traced
    · split
      · next available =>
          refine (moved_storeHeaderAndDescendants genuine _ traced here fun second => ?_).traced
          exact fits header (Except.toOption_eq_some.mpr parsed) second available
      · exact traced.insertPending here maxPendingHeaders

theorem traced_step (genuine : Genuine sr serializeWithoutPow data) (traced : Traced sr data s) {action : Action}
    (fits : Fits sr s action ∧ received action ⊆ data) (taken : step sr s action = some after) :
    Traced sr data after := by
  cases action with
  | receive rawBytes =>
      cases taken
      exact traced_onHeaderReceived genuine traced (fits.2 (by simp [received])) fits.1
  | tick =>
      cases taken
      exact (moved_flushIfDue traced).traced
  | storeHeader rawBytes =>
      simp only [step] at taken
      split at taken
      · next header parsed =>
          cases taken
          have here : Received sr data header rawBytes := ⟨fits.2 (by simp [received]), parsed⟩
          have store := @StoreTraced.single sr data header rawBytes s.state.historyView traced.store here
            fun second => fits.1 header (Except.toOption_eq_some.mpr parsed) second
          have grows {id : BlockId} : stored s.state.db.columns id → _ :=
            @stored_appendHeaderWithBytes sr header rawBytes s.state.historyView id
          exact ⟨traced.waiting, traced.children, traced.writes,
            fun item member second => (traced.parents item member second).imp_left grows, store⟩
      · cases taken

theorem traced_new (sr : SigmaRust) (data : List Bytes) (faults timeouts : List Bool) (childOrder : SetOrder) :
    Traced sr data (.new (.new ⟨Database.empty.columns, faults⟩) timeouts childOrder) where
  waiting here := by simp [HeaderSync.new, PendingHeadersMap.new] at here
  children here := by simp [HeaderSync.new, PendingHeadersMap.new, Waits] at here
  writes := by simp [HeaderSync.new]
  parents := by simp [HeaderSync.new]
  store := ⟨(fun present => nomatch present), (fun present => nomatch present)⟩

end Held

/-- If the headers that come in are good, and none of height 2 follows a first header that was lost, then
what the store holds has been checked, whatever order they come in and whichever writes fail. -/
theorem storeChecked_reachable (sr : SigmaRust) (serializeWithoutPow : Header → Except String Bytes)
    (faults timeouts : List Bool) (childOrder : SetOrder) {actions : List Action}
    (genuine : Genuine sr serializeWithoutPow (actions.flatMap received))
    (fit : Along (step sr) (Fits sr) (.new (.new ⟨Database.empty.columns, faults⟩) timeouts childOrder) actions) :
    Always (step sr) (fun s => StoreChecked sr serializeWithoutPow s.state.db)
      (.new (.new ⟨Database.empty.columns, faults⟩) timeouts childOrder) actions := by
  have along : Along (step sr) (fun s action => Fits sr s action ∧ received action ⊆ actions.flatMap received)
      (.new (.new ⟨Database.empty.columns, faults⟩) timeouts childOrder) actions := by
    intro before action prefixed s reached
    refine ⟨fit before action prefixed s reached, fun bytes member => ?_⟩
    exact List.mem_flatMap.mpr ⟨action, prefixed.subset (by simp), member⟩
  intro s visited
  exact (along.invariant (Traced sr (actions.flatMap received))
    (fun traced fits taken => traced_step genuine traced fits taken) (traced_new sr _ faults timeouts childOrder) s visited).store.checked genuine

section Samples
open Sample

def minedHeader (id parentId : UInt8) (height : Nat) : Header :=
  { sampleHeader id parentId height easyBits with autolykosSolution := ⟨[], none, List.replicate 8 0, none⟩ }

def headerCodec (headers : List Header) : SigmaRust := codec [] headers []

def lastFirst : SetOrder := ⟨List.reverse, List.reverse_perm⟩

/-- The second header comes first and waits for its parent; then the batch is written. -/
def goodActions : List Action := [.receive [0], .receive [], .tick]

def goodCodec : SigmaRust := headerCodec [minedHeader 11 0 1, minedHeader 12 11 2]

theorem goodActions_checked :
    Always (step goodCodec) (fun s => StoreChecked goodCodec (fun _ => .ok []) s.state.db)
      (.new (.new ⟨Database.empty.columns, []⟩) [true] lastFirst) goodActions :=
  storeChecked_reachable goodCodec (fun _ => .ok []) [] [true] lastFirst
    ⟨by decide, by decide, by decide, by decide⟩ (by decide)

def skippedCodec : SigmaRust := headerCodec [minedHeader 11 0 1, minedHeader 12 11 3]

def skippedStart : HeaderSync := .new (.new ⟨Database.empty.columns, []⟩) [false, false, true] lastFirst

theorem skippedHeight_stored :
    ¬ Always (step skippedCodec) (fun s => StoreChecked skippedCodec (fun _ => .ok []) s.state.db)
      skippedStart [.receive [], .receive [0], .tick] := by
  intro always
  obtain ⟨s, reached⟩ : ∃ s, run (step skippedCodec) skippedStart [.receive [], .receive [0], .tick] = some s := ⟨_, rfl⟩
  have last : s = ((run (step skippedCodec) skippedStart [.receive [], .receive [0], .tick]).getD skippedStart) := by
    rw [reached]
    rfl
  have found : HeaderStore.get skippedCodec s.state.db (.filled 12) = .ok (some (minedHeader 12 11 3)) := by
    rw [last]
    decide
  obtain ⟨parent, parentFound, checked⟩ := always s ⟨_, List.prefix_rfl, reached⟩ _ _ found (by decide)
  have here : HeaderStore.get skippedCodec s.state.db (.filled 11) = .ok (some (minedHeader 11 0 1)) := by
    rw [last]
    decide
  have same : Except.ok (some parent) = Except.ok (some (minedHeader 11 0 1)) := parentFound.symm.trans here
  cases same
  obtain ⟨now, accepted⟩ := checked.valid
  exact absurd (validateHeader_eq_ok.mp accepted).1 (by decide)

end Samples

end ErgoNode.Proof.Sync
