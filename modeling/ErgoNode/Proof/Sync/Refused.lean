import ErgoNode.Proof.Sync.Release

/-!
# Headers of a failed flush

A flush takes its batch out of the write buffer before it is known whether the batch can be written. No
header is lost exactly if every flush that fails finds its batch in the database all the same.
-/

namespace ErgoNode.Proof.Sync
open Lib HeaderSync
open ErgoNode.Proof.History (stored)

/-! ### In the middle of a step -/

/-- What waits or is in a batch was received, and what is in a batch is still in the cache. `base` has the
ids that the step can meet. Each id in the cache is of the `old` ones, kept, or in a batch that failed. -/
structure Passing (sr : SigmaRust) (data base : List Bytes) (old : BlockId → Prop) (s : Journaled) : Prop where
  waiting : ∀ {id pending}, s.1.pendingHeaders.byId.lookup id = some pending →
    Received sr data pending.header pending.rawBytes ∧ pending.header.id.bytes = id ∧ id ∈ base
  ranked : Ranked s.1.pendingHeaders
  room : s.1.pendingHeaders.len ≤ maxPendingHeaders
  taken : ∀ item ∈ s.1.pendingHeaderWrites ++ s.2.lost, Received sr data item.1 item.2
  front : ∃ front, front <+: s.1.storedHeaders.keys ∧ front ⊆ base ∧
    itemIds (s.1.pendingHeaderWrites ++ s.2.lost) ⊆ front ∧ (s.2.lost = [] → front ⊆ itemIds s.1.pendingHeaderWrites)
  counted : ∀ id : BlockId, id.bytes ∈ s.1.storedHeaders → old id ∨ Kept s.1 id ∨ id ∈ s.2.lost.map fun item => item.1.id

section Passing
variable {sr : SigmaRust} {data base : List Bytes} {old : BlockId → Prop} {s : Journaled}
variable {header : Header} {rawBytes id : Bytes}

theorem Passing.mem_stored (passing : Passing sr data base old s) {item : Header × Bytes}
    (member : item ∈ s.1.pendingHeaderWrites ++ s.2.lost) : item.1.id.bytes ∈ s.1.storedHeaders := by
  obtain ⟨front, prefixed, -, taken, -⟩ := passing.front
  exact prefixed.subset (taken (List.mem_map_of_mem member))

theorem Passing.removePending (passing : Passing sr data base old s) (id : Bytes) :
    Passing sr data base old (Journaled.removePending id s) where
  waiting here := passing.waiting (lookup_remove here)
  ranked := passing.ranked.remove id
  room := Nat.le_trans (len_remove_le id) passing.room
  taken := passing.taken
  front := passing.front
  counted := passing.counted

theorem Passing.bufferHeader (passing : Passing sr data base old s) (fits : base.length ≤ storedHeadersCacheSize)
    (received : Received sr data header rawBytes) (inside : header.id.bytes ∈ base) :
    Passing sr data base old (Journaled.bufferHeader sr header rawBytes s) := by
  have buffer : (Journaled.bufferHeader sr header rawBytes s).1.pendingHeaderWrites =
      s.1.pendingHeaderWrites ++ [(header, rawBytes)] := bufferHeader_pendingHeaderWrites sr header rawBytes s.1
  have cache : (Journaled.bufferHeader sr header rawBytes s).1.storedHeaders = s.1.storedHeaders.put header.id.bytes :=
    bufferHeader_storedHeaders sr header rawBytes s.1
  have waiting : (Journaled.bufferHeader sr header rawBytes s).1.pendingHeaders = s.1.pendingHeaders :=
    bufferHeader_pendingHeaders sr header rawBytes s.1
  constructor
  case waiting =>
    rw [waiting]
    exact passing.waiting
  case ranked =>
    rw [waiting]
    exact passing.ranked
  case room =>
    rw [waiting]
    exact passing.room
  case taken =>
    rw [buffer]
    intro item member
    rw [List.append_assoc, List.mem_append] at member
    rcases member with before | after
    · exact passing.taken item (List.mem_append_left _ before)
    · rcases List.mem_cons.mp after with rfl | lost
      · exact received
      · exact passing.taken item (List.mem_append_right _ lost)
  case front =>
    obtain ⟨front, prefixed, among, taken, only⟩ := passing.front
    obtain ⟨grown, prefixed, mem_grown⟩ := LruCache.exists_prefix_put prefixed among inside fits
    refine ⟨grown, by rw [cache]; exact prefixed, fun id member => ?_, fun id member => ?_, fun none id member => ?_⟩
    · rcases (mem_grown id).mp member with rfl | before
      · exact inside
      · exact among before
    · apply (mem_grown id).mpr
      rw [buffer, itemIds_append, itemIds_append, List.append_assoc, List.mem_append] at member
      rcases member with before | after
      · exact .inr (taken (by rw [itemIds_append]; exact List.mem_append_left _ before))
      · rcases List.mem_cons.mp after with rfl | lost
        · exact .inl rfl
        · exact .inr (taken (by rw [itemIds_append]; exact List.mem_append_right _ lost))
    · rw [buffer, itemIds_append, List.mem_append]
      rcases (mem_grown id).mp member with rfl | before
      · exact .inr List.mem_cons_self
      · exact .inl (only none before)
  case counted =>
    intro id member
    rw [cache] at member
    rcases LruCache.mem_of_put member with new | before
    · exact .inr (.inl (kept_bufferHeader.mpr (.inr (Digest32.ext_bytes new))))
    · exact (passing.counted id before).imp_right (Or.imp_left fun kept => kept_bufferHeader.mpr (.inl kept))

theorem Passing.flushIfDue (passing : Passing sr data base old s) :
    Op.Ends (Passing sr data base old) (Journaled.flushIfDue sr) s := by
  rw [Op.Ends, Journaled.flushIfDue, Op.exec_noted]
  rcases exec_flushIfDue_cases sr s.1 with ⟨timeouts, ran, -⟩ | ⟨timeouts, result, ran, some, written⟩
  · rw [ran]
    exact ⟨passing.waiting, passing.ranked, passing.room, passing.taken, passing.front, passing.counted⟩
  · rw [ran]
    cases result with
    | ok _ =>
        refine ⟨passing.waiting, passing.ranked, passing.room, fun item member => ?_, ?_, fun id member => ?_⟩
        · exact passing.taken item (List.mem_append_right _ member)
        · obtain ⟨front, prefixed, among, taken, -⟩ := passing.front
          by_cases none : s.2.lost = []
          · exact ⟨[], List.nil_prefix, List.nil_subset _, by simp [Journaled.noteFlush, none, itemIds], fun _ => List.nil_subset _⟩
          · refine ⟨front, prefixed, among, fun id member => taken ?_, fun empty => absurd empty none⟩
            rw [itemIds_append]
            exact List.mem_append_right _ member
        · rcases passing.counted id member with before | kept | lost
          · exact .inl before
          · exact .inr (.inl (.inl (kept.elim (stored_storeHeadersBatch sr _) (written rfl id))))
          · exact .inr (.inr lost)
    | error cause =>
        have lost : (Journaled.noteFlush s.1 (.error cause) s.2).lost = s.2.lost ++ s.1.pendingHeaderWrites := rfl
        have moved {item : Header × Bytes} (member : item ∈ s.2.lost ++ s.1.pendingHeaderWrites) :
            item ∈ s.1.pendingHeaderWrites ++ s.2.lost :=
          List.mem_append.mpr (List.mem_append.mp member).symm
        constructor
        case waiting => exact passing.waiting
        case ranked => exact passing.ranked
        case room => exact passing.room
        case taken => exact fun item member => passing.taken item (moved member)
        case front =>
          obtain ⟨front, prefixed, among, taken, -⟩ := passing.front
          refine ⟨front, prefixed, among, fun id member => ?_, fun none => ?_⟩
          · obtain ⟨item, inside, rfl⟩ := List.mem_map.mp member
            exact taken (List.mem_map_of_mem (moved inside))
          · exact absurd (List.append_eq_nil_iff.mp (lost.symm.trans none)).2 some
        case counted =>
          intro id member
          rw [lost, List.map_append, List.mem_append]
          rcases passing.counted id member with before | (stored | buffered) | failed
          · exact .inl before
          · exact .inr (.inl (.inl (stored_storeHeadersBatch sr _ stored)))
          · exact .inr (.inr (.inr buffered))
          · exact .inr (.inr (.inl failed))

theorem Passing.storeHeaderAndDescendants (fits : base.length ≤ storedHeadersCacheSize) (fuel : Nat)
    (passing : Passing sr data base old s) (received : Received sr data header rawBytes) (inside : header.id.bytes ∈ base) :
    Op.Ends (Passing sr data base old) (Journaled.storeHeaderAndDescendants sr fuel header rawBytes) s := by
  induction fuel generalizing s header rawBytes with
  | zero => exact passing
  | succ fuel ih =>
      have buffered := passing.bufferHeader fits received inside
      refine Op.Ends.modify_bind (Op.Ends.get_bind ((Op.Ends.forEach_mem (fun entry member t here => ?_) buffered).bind
        fun _ t _ there => there.flushIfDue))
      obtain ⟨received, key, inside⟩ := buffered.waiting (mem_getByParent member).2
      exact .modify_bind (ih (here.removePending entry.1) received (key.symm ▸ inside))

end Passing

structure Ended (s : Journaled) (result : Except SyncError Unit × Journaled) : Prop where
  ok : result.1 = .ok () → result.2.2.lost = s.2.lost
  error : ∀ e, result.1 = .error e → result.2.1.pendingHeaderWrites = []

section Ended
variable {sr : SigmaRust} {s : Journaled}

theorem Ended.bind {x : Op Journaled SyncError Unit} {f : Unit → Op Journaled SyncError Unit}
    (first : Ended s (x.exec s)) (second : ∀ t, x.exec s = (.ok (), t) → Ended t ((f ()).exec t)) :
    Ended s ((x >>= f).exec s) := by
  rw [Op.exec_bind]
  rcases ran : x.exec s with ⟨result, t⟩
  rw [ran] at first
  cases result with
  | error e => exact ⟨fun done => (by cases done), fun _ _ => first.error e rfl⟩
  | ok _ => exact ⟨fun done => ((second t ran).ok done).trans (first.ok rfl), (second t ran).error⟩

theorem ended_flushIfDue (s : Journaled) : Ended s ((Journaled.flushIfDue sr).exec s) := by
  rw [Journaled.flushIfDue, Op.exec_noted]
  rcases exec_flushIfDue_cases sr s.1 with ⟨timeouts, ran, -⟩ | ⟨timeouts, result, ran, -⟩
  · rw [ran]
    exact ⟨fun _ => rfl, fun _ failed => (by cases failed)⟩
  · rw [ran]
    exact ⟨fun done => by cases done; rfl, fun _ _ => rfl⟩

theorem length_flushIfDue_lt (s : Journaled) :
    ((Journaled.flushIfDue sr).exec s).2.1.pendingHeaderWrites.length < headerBatchSize := by
  rw [Journaled.flushIfDue, Op.exec_noted]
  rcases exec_flushIfDue_cases sr s.1 with ⟨timeouts, ran, short⟩ | ⟨timeouts, result, ran, -⟩
  · rw [ran]
    exact short
  · rw [ran]
    exact (by decide : 0 < headerBatchSize)

theorem ended_children {fuel : Nat} (recursion : ∀ {s header rawBytes},
      Ended s ((Journaled.storeHeaderAndDescendants sr fuel header rawBytes).exec s))
    (children : List (Bytes × PendingHeader)) : Ended s ((Op.forEach (fun (id, pending) => do
      modify (Journaled.removePending id)
      Journaled.storeHeaderAndDescendants sr fuel pending.header pending.rawBytes) children).exec s) := by
  induction children generalizing s with
  | nil => exact ⟨fun _ => rfl, fun _ failed => (by cases failed)⟩
  | cons child rest ih =>
      refine Ended.bind ?_ fun t _ => ih
      rw [Op.exec_bind_of_ok (Op.exec_modify _ s)]
      exact ⟨recursion.ok, recursion.error⟩

theorem ended_storeHeaderAndDescendants (fuel : Nat) (header : Header) (rawBytes : Bytes) :
    Ended s ((Journaled.storeHeaderAndDescendants sr fuel header rawBytes).exec s) := by
  induction fuel generalizing s header rawBytes with
  | zero => exact ⟨fun _ => rfl, fun _ failed => (by cases failed)⟩
  | succ fuel ih =>
      rw [Journaled.storeHeaderAndDescendants, Op.exec_bind_of_ok (Op.exec_modify _ s), Op.exec_bind_of_ok (Op.exec_get _)]
      have ended := (@ended_children sr (Journaled.bufferHeader sr header rawBytes s) fuel (ih _ _)
        ((Journaled.bufferHeader sr header rawBytes s).1.pendingHeaders.getByParent
            (Journaled.bufferHeader sr header rawBytes s).1.childOrder header.id.bytes)).bind
          (f := fun _ => Journaled.flushIfDue sr) fun t _ => ended_flushIfDue t
      have lost : (Journaled.bufferHeader sr header rawBytes s).2.lost = s.2.lost := by rw [Journaled.bufferHeader]
      exact ⟨fun done => (ended.ok done).trans lost, ended.error⟩

theorem length_storeHeaderAndDescendants_lt (fuel : Nat) (header : Header) (rawBytes : Bytes) :
    ((Journaled.storeHeaderAndDescendants sr (fuel + 1) header rawBytes).exec s).2.1.pendingHeaderWrites.length <
      headerBatchSize := by
  rw [Journaled.storeHeaderAndDescendants, Op.exec_bind_of_ok (Op.exec_modify _ s), Op.exec_bind_of_ok (Op.exec_get _),
    Op.exec_bind]
  have looped := @ended_children sr (Journaled.bufferHeader sr header rawBytes s) fuel
    (ended_storeHeaderAndDescendants fuel _ _)
    ((Journaled.bufferHeader sr header rawBytes s).1.pendingHeaders.getByParent
            (Journaled.bufferHeader sr header rawBytes s).1.childOrder header.id.bytes)
  rcases ran : (Op.forEach _ _).exec (Journaled.bufferHeader sr header rawBytes s) with ⟨result, t⟩
  rw [ran] at looped
  cases result with
  | ok _ => exact length_flushIfDue_lt t
  | error e => rw [looped.error e rfl]; decide

end Ended

/-! ### Over a run -/

/-- Between the steps of a run. What is in the buffer is at the front of the cache. -/
structure Steady (sr : SigmaRust) (data : List Bytes) (old : BlockId → Prop) (s : HeaderSync) : Prop where
  waiting : ∀ {id pending}, s.pendingHeaders.byId.lookup id = some pending →
    Received sr data pending.header pending.rawBytes ∧ pending.header.id.bytes = id
  ranked : Ranked s.pendingHeaders
  room : s.pendingHeaders.len ≤ maxPendingHeaders
  writes : ∀ item ∈ s.pendingHeaderWrites, Received sr data item.1 item.2
  short : s.pendingHeaderWrites.length < headerBatchSize
  front : ∃ front, front <+: s.storedHeaders.keys ∧ ∀ id, id ∈ front ↔ id ∈ itemIds s.pendingHeaderWrites
  counted : ∀ id : BlockId, id.bytes ∈ s.storedHeaders → old id ∨ Kept s id

section Steady
variable {sr : SigmaRust} {data : List Bytes} {old : BlockId → Prop} {s : HeaderSync} {t : Journaled}

def metIds (s : HeaderSync) (id : Bytes) : List Bytes := id :: waitingIds s ++ itemIds s.pendingHeaderWrites

theorem Steady.fits (steady : Steady sr data old s) (id : Bytes) : (metIds s id).length ≤ storedHeadersCacheSize := by
  have room := steady.room
  have short := steady.short
  rw [len_eq_length_keys] at room
  simp only [metIds, waitingIds, itemIds, List.length_append, List.length_cons, List.length_map, maxPendingHeaders,
    headerBatchSize, storedHeadersCacheSize] at *
  omega

theorem Steady.passing (steady : Steady sr data old s) {more : List Bytes} (le : data ⊆ more) (id : Bytes) :
    Passing sr more (metIds s id) old (s, .empty) where
  waiting here := by
    obtain ⟨received, key⟩ := steady.waiting here
    refine ⟨received.mono le, key, List.mem_append_left _ (List.mem_cons_of_mem _ ?_)⟩
    exact Entries.mem_keys_iff.mpr ⟨_, here⟩
  ranked := steady.ranked
  room := steady.room
  taken item member := (steady.writes item (by simpa [Journal.empty] using member)).mono le
  front := by
    obtain ⟨front, prefixed, only⟩ := steady.front
    refine ⟨front, prefixed, fun id member => ?_, fun id member => ?_, fun _ id member => (only id).mp member⟩
    · exact List.mem_append_right _ ((only id).mp member)
    · exact (only id).mpr (by simpa [Journal.empty] using member)
  counted id member := (steady.counted id member).imp_right .inl

theorem Passing.steady {base : List Bytes} (passing : Passing sr data base old t)
    (one : t.2.lost = [] ∨ t.1.pendingHeaderWrites = []) (short : t.1.pendingHeaderWrites.length < headerBatchSize)
    (spared : ∀ item ∈ t.2.lost, old item.1.id ∨ Kept t.1 item.1.id) : Steady sr data old t.1 where
  waiting here := ⟨(passing.waiting here).1, (passing.waiting here).2.1⟩
  ranked := passing.ranked
  room := passing.room
  writes item member := passing.taken item (List.mem_append_left _ member)
  short := short
  front := by
    rcases one with none | none
    · obtain ⟨front, prefixed, -, taken, only⟩ := passing.front
      rw [none, List.append_nil] at taken
      exact ⟨front, prefixed, fun id => ⟨fun member => only none member, fun member => taken member⟩⟩
    · exact ⟨[], List.nil_prefix, by simp [none, itemIds]⟩
  counted id member := by
    rcases passing.counted id member with before | kept | lost
    · exact .inl before
    · exact .inr kept
    · obtain ⟨item, there, rfl⟩ := List.mem_map.mp lost
      exact spared item there

theorem Ended.one {result : Except SyncError Unit × Journaled} (ended : Ended (s, .empty) result) :
    result.2.2.lost = [] ∨ result.2.1.pendingHeaderWrites = [] := by
  rcases ran : result.1 with e | _
  · exact .inr (ended.error e ran)
  · exact .inl (ended.ok ran)

structure Stepped (sr : SigmaRust) (data : List Bytes) (old : BlockId → Prop) (t : Journaled) : Prop where
  passing : ∃ base, Passing sr data base old t
  one : t.2.lost = [] ∨ t.1.pendingHeaderWrites = []
  short : t.1.pendingHeaderWrites.length < headerBatchSize

theorem Passing.wait {base : List Bytes} (passing : Passing sr data base old t) {header : Header} {rawBytes : Bytes}
    (received : Received sr data header rawBytes) (inside : header.id.bytes ∈ base)
    (distinct : ∀ first ∈ data, ∀ second ∈ data, sr.blake2b256 first = sr.blake2b256 second → first = second) :
    Passing sr data base old ({ t.1 with
      pendingHeaders := t.1.pendingHeaders.insert header.id.bytes
        ⟨header, rawBytes, header.parentId.bytes⟩ maxPendingHeaders }, t.2) where
  waiting here := by
    rcases lookup_insert here with ⟨rfl, rfl⟩ | before
    · exact ⟨received, rfl, inside⟩
    · exact passing.waiting before
  ranked := passing.ranked.insert fun {old} held => by
    obtain ⟨first, key, -⟩ := passing.waiting held
    rw [(first.unique distinct received (Digest32.ext_bytes key)).1]
  room := len_insert_le passing.ranked (by decide) passing.room
  taken := passing.taken
  front := passing.front
  counted := passing.counted

theorem Steady.receive (steady : Steady sr data old s) {rawBytes : Bytes}
    (distinct : ∀ first ∈ data ++ [rawBytes], ∀ second ∈ data ++ [rawBytes],
      sr.blake2b256 first = sr.blake2b256 second → first = second) :
    Stepped sr (data ++ [rawBytes]) old ((Journaled.onHeaderReceived sr rawBytes).exec (s, .empty)).2 := by
  have passing (id : Bytes) := steady.passing (List.subset_append_left data [rawBytes]) id
  unfold Journaled.onHeaderReceived
  rcases parsed : receivedHeader sr rawBytes with e | header
  · exact ⟨⟨_, passing []⟩, .inl rfl, steady.short⟩
  · have here : Received sr (data ++ [rawBytes]) header rawBytes := ⟨by simp, parsed⟩
    have inside : header.id.bytes ∈ metIds s header.id.bytes := List.mem_append_left _ List.mem_cons_self
    dsimp only
    rw [Op.exec_bind_of_ok (Op.exec_get _), Op.exec_ite, Op.exec_ite]
    split
    · exact ⟨⟨_, passing []⟩, .inl rfl, steady.short⟩
    · split
      · exact ⟨⟨_, (passing header.id.bytes).storeHeaderAndDescendants (steady.fits _) _ here inside⟩,
          (ended_storeHeaderAndDescendants _ _ _).one, length_storeHeaderAndDescendants_lt _ _ _⟩
      · exact ⟨⟨_, (passing header.id.bytes).wait here inside distinct⟩, .inl rfl, steady.short⟩

theorem Steady.step (steady : Steady sr data old s) {action : Action}
    (distinct : ∀ first ∈ data ++ received action, ∀ second ∈ data ++ received action,
      sr.blake2b256 first = sr.blake2b256 second → first = second)
    (taken : Journaled.step sr (s, .empty) action = some t) : Stepped sr (data ++ received action) old t := by
  have passing := steady.passing (List.subset_append_left data (received action)) []
  cases action with
  | receive rawBytes =>
      cases taken
      exact steady.receive distinct
  | tick =>
      cases taken
      exact ⟨⟨_, passing.flushIfDue⟩, (ended_flushIfDue _).one, length_flushIfDue_lt _⟩
  | storeHeader rawBytes =>
      obtain ⟨next, ran, rfl⟩ := Option.map_eq_some_iff.mp taken
      simp only [HeaderSync.step] at ran
      split at ran
      · next header parsed =>
          cases ran
          refine ⟨⟨_, passing.waiting, passing.ranked, passing.room, passing.taken, passing.front, fun id member => ?_⟩,
            .inl rfl, steady.short⟩
          refine (passing.counted id member).imp_right (Or.imp_left (Or.imp_left fun before => ?_))
          exact @stored_appendHeaderWithBytes sr header rawBytes s.state.historyView id before
      · cases ran

end Steady

/-- The batch that a failing flush of the step took out of the buffer. -/
def refused (sr : SigmaRust) (s : HeaderSync) (action : Action) : List (Header × Bytes) :=
  ((Journaled.step sr (s, .empty) action).map fun t => t.2.lost).getD []

/-- A flush that fails finds its batch in the database all the same. -/
def Spared (sr : SigmaRust) (s : HeaderSync) (action : Action) : Prop :=
  ∀ t, HeaderSync.step sr s action = some t → ∀ item ∈ refused sr s action, stored t.state.db.columns item.1.id

instance (sr : SigmaRust) (s : HeaderSync) (action : Action) : Decidable (Spared sr s action) :=
  match next : HeaderSync.step sr s action with
  | none => .isTrue fun t taken => nomatch next.symm.trans taken
  | some t => decidable_of_iff (∀ item ∈ refused sr s action, stored t.state.db.columns item.1.id) (by simp [Spared, next])

/-- Each id that was received and counts as stored is in the database or in the write buffer. -/
def Preserved (sr : SigmaRust) (start : HeaderSync) (actions : List Action) : Prop :=
  ∀ s, run (HeaderSync.step sr) start actions = some s → ∀ data ∈ actions.flatMap received, ∀ header,
    receivedHeader sr data = .ok header → header.id.bytes ∈ s.storedHeaders → Kept s header.id

section Run
variable {sr : SigmaRust} {data : List Bytes} {old : BlockId → Prop} {s t : HeaderSync}

theorem exists_journaled {action : Action} (taken : HeaderSync.step sr s action = some t) :
    ∃ journal, Journaled.step sr (s, .empty) action = some (t, journal) ∧ refused sr s action = journal.lost := by
  rw [← map_step (s, .empty), Option.map_eq_some_iff] at taken
  obtain ⟨next, noted, rfl⟩ := taken
  exact ⟨next.2, noted, by rw [refused, noted]; rfl⟩

theorem steady_run {actions : List Action} (steady : Steady sr data old s)
    (distinct : ∀ first ∈ data ++ actions.flatMap received, ∀ second ∈ data ++ actions.flatMap received,
      sr.blake2b256 first = sr.blake2b256 second → first = second)
    (spared : Along (HeaderSync.step sr) (fun s action => ∀ t, HeaderSync.step sr s action = some t →
      ∀ item ∈ refused sr s action, old item.1.id ∨ stored t.state.db.columns item.1.id) s actions)
    (ran : run (HeaderSync.step sr) s actions = some t) : Steady sr (data ++ actions.flatMap received) old t := by
  induction actions generalizing s data with
  | nil =>
      cases ran
      rw [List.flatMap_nil, List.append_nil]
      exact steady
  | cons action rest ih =>
      rw [run_cons_eq_some] at ran
      obtain ⟨next, taken, later⟩ := ran
      obtain ⟨journal, noted, lost⟩ := exists_journaled taken
      rw [List.flatMap_cons, ← List.append_assoc] at distinct ⊢
      have within : data ++ received action ⊆ data ++ received action ++ rest.flatMap received := List.subset_append_left _ _
      obtain ⟨⟨base, passing⟩, one, short⟩ := steady.step
        (fun first member second there => distinct first (within member) second (within there)) noted
      refine ih (passing.steady one short fun item member => ?_) distinct (spared.tail taken) later
      exact (spared.head next taken item (lost ▸ member)).imp_right .inl

def started (state : StateManager) (timeouts : List Bool) (childOrder : SetOrder) (allHeaderIds : List Bytes) : HeaderSync :=
  (HeaderSync.new state timeouts childOrder).initFromStoredHeaders allHeaderIds

theorem steady_started {state : StateManager} {allHeaderIds : List Bytes} (timeouts : List Bool) (childOrder : SetOrder)
    (known : ∀ bytes ∈ allHeaderIds, ∃ id : BlockId, id.bytes = bytes ∧ stored state.db.columns id) :
    Steady sr [] (· = .zero) (started state timeouts childOrder allHeaderIds) where
  waiting here := by simp [started, HeaderSync.new, initFromStoredHeaders, PendingHeadersMap.new] at here
  ranked := ranked_new
  room := Nat.zero_le _
  writes := List.forall_mem_nil _
  short := (by decide : 0 < headerBatchSize)
  front := ⟨[], List.nil_prefix, fun _ => Iff.rfl⟩
  counted id member := by
    rcases LruCache.mem_of_putAll member with loaded | zero
    · obtain ⟨other, same, here⟩ := known _ (List.mem_of_mem_drop loaded)
      exact .inr (.inl (Digest32.ext_bytes same ▸ here))
    · rcases LruCache.mem_of_put zero with same | none
      · exact .inl (Digest32.ext_bytes same)
      · exact absurd none List.not_mem_nil

theorem Steady.weaken {weaker : BlockId → Prop} (steady : Steady sr data old s) (imp : ∀ id, old id → weaker id) :
    Steady sr data weaker s :=
  { steady with counted := fun id member => (steady.counted id member).imp_left (imp id) }

theorem received_subset {before actions : List Action} (prefixed : before <+: actions) :
    before.flatMap received ⊆ actions.flatMap received := by
  intro data member
  obtain ⟨action, inside, same⟩ := List.mem_flatMap.mp member
  exact List.mem_flatMap.mpr ⟨action, prefixed.subset inside, same⟩

end Run

/-- No header is lost in a run exactly if each flush that fails finds its batch in the database all the
same. -/
theorem headers_preserved_iff (sr : SigmaRust) (state : StateManager) (timeouts : List Bool) (childOrder : SetOrder)
    {allHeaderIds : List Bytes}
    (known : ∀ bytes ∈ allHeaderIds, ∃ id : BlockId, id.bytes = bytes ∧ stored state.db.columns id)
    (actions : List Action)
    (distinct : ∀ first ∈ actions.flatMap received, ∀ second ∈ actions.flatMap received,
      sr.blake2b256 first = sr.blake2b256 second → first = second)
    (nonzero : ∀ data ∈ actions.flatMap received, sr.blake2b256 data ≠ .zero) :
    (∀ before, before <+: actions → Preserved sr (started state timeouts childOrder allHeaderIds) before) ↔
      Along (HeaderSync.step sr) (Spared sr) (started state timeouts childOrder allHeaderIds) actions := by
  have start : Steady sr [] (· = .zero) (started state timeouts childOrder allHeaderIds) := steady_started timeouts childOrder known
  have distinct {before : List Action} (prefixed : before <+: actions) :
      ∀ first ∈ [] ++ before.flatMap received, ∀ second ∈ [] ++ before.flatMap received,
        sr.blake2b256 first = sr.blake2b256 second → first = second :=
    fun first member second there =>
      distinct first (received_subset prefixed member) second (received_subset prefixed there)
  constructor
  · intro retained before action prefixed s ran t taken item member
    have steady := steady_run (start.weaken fun _ _ => trivial) (distinct ((List.prefix_append before [action]).trans prefixed))
      (fun _ _ _ _ _ _ _ _ _ => .inl trivial) ran
    obtain ⟨journal, noted, lost⟩ := exists_journaled taken
    obtain ⟨⟨base, passing⟩, one, -⟩ := steady.step (by simpa using distinct prefixed) noted
    rw [lost] at member
    have inBatch := List.mem_append_right t.pendingHeaderWrites member
    have received := passing.taken item inBatch
    have ranOn : run (HeaderSync.step sr) (started state timeouts childOrder allHeaderIds) (before ++ [action]) = some t := by
      rw [run_append, ran, Option.bind_some, run_cons, taken, Option.bind_some, run_nil]
    have kept := retained (before ++ [action]) prefixed t ranOn item.2 (by simpa using received.member) item.1
      received.parsed (passing.mem_stored inBatch)
    rcases one with none | empty
    · rw [none] at member
      cases member
    · refine kept.resolve_right fun buffered => ?_
      rw [empty] at buffered
      cases buffered
  · intro along before prefixed s ran data member header parsed counted
    have spared := fun front action inside => along front action (List.IsPrefix.trans inside prefixed)
    have steady := steady_run start (distinct prefixed)
      (fun front action inside s reached t taken item lost => .inr (spared front action inside s reached t taken item lost)) ran
    refine (steady.counted header.id counted).resolve_left fun zero => nonzero data ?_ ?_
    · exact received_subset prefixed member
    · rw [← zero, Received.id_eq ⟨member, parsed⟩]

section Samples
open Sample

theorem goodActions_preserved :
    Preserved goodCodec (started (.new ⟨Database.empty.columns, []⟩) [true] lastFirst []) goodActions :=
  (headers_preserved_iff goodCodec _ [true] lastFirst (List.forall_mem_nil _) goodActions (by decide) (by decide)).mpr
    (by decide) goodActions List.prefix_rfl

/-- The second header is received after the flush of the first has failed. -/
def refusedActions : List Action := [.receive [], .tick, .receive [0]]

def refusedStart : HeaderSync := started (.new ⟨Database.empty.columns, [true]⟩) [false, true] lastFirst []

theorem refusedBatch_lost : ¬ ∀ before, before <+: refusedActions → Preserved goodCodec refusedStart before := by
  intro retained
  obtain ⟨t, ran⟩ : ∃ t, run (HeaderSync.step goodCodec) refusedStart refusedActions = some t := ⟨_, rfl⟩
  have last : t = ((run (HeaderSync.step goodCodec) refusedStart refusedActions).getD refusedStart) := by
    rw [ran]
    rfl
  have kept := retained refusedActions List.prefix_rfl t ran [] (by decide) (minedHeader 11 0 1) (by decide)
    (by rw [last]; decide)
  rw [last] at kept
  exact absurd kept (by decide)

end Samples

end ErgoNode.Proof.Sync
