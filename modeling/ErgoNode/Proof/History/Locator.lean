import ErgoNode.Proof.History.Selection

/-!
# The heights of a locator

Each round reads one height and goes down by a step that is doubled once more than ten headers are found.
The height and the step together stay within 2^31, so a doubled step fits in 32 bits and is never zero.
-/

namespace ErgoNode.Proof.History
open Lib ErgoNode.History

structure HeightIndex (table : HeaderTable) (sr : SigmaRust) (db : Database) : Prop where
  reads : ∀ {id bytes}, db.get .headers id = some bytes → ReadsAs sr bytes (table.header id)
  slots : ∀ {h id}, slot db.columns h = some id → height table id = h

def idAt (sr : SigmaRust) (db : Database) (height : Nat) : Option BlockId :=
  (HeaderStore.getByHeight sr db height).toOption.join.map Header.id

structure Descent (first : Nat) (heights : List Nat) : Prop where
  descending : heights.Pairwise (· > ·)
  first : heights.head? = some first
  last : heights.getLast? = some 1

structure Locates (sr : SigmaRust) (db : Database) (best : Nat) (locator : Locator) : Prop where
  descent : Descent best locator.visited
  ids : locator.ids = locator.visited.filterMap (idAt sr db)
  distinct : locator.ids.Nodup

section Descent
variable {next height : Nat} {heights : List Nat}

theorem Descent.one : Descent 1 [1] := ⟨List.pairwise_singleton _ _, rfl, rfl⟩

theorem Descent.cons (lower : next < height) (below : Descent next heights) : Descent height (height :: heights) := by
  obtain ⟨descending, first, last⟩ := below
  obtain ⟨rest, rfl⟩ : ∃ rest, heights = next :: rest := List.head?_eq_some_iff.mp first
  refine ⟨List.pairwise_cons.mpr ⟨?_, descending⟩, rfl, last⟩
  intro h member
  rcases List.mem_cons.mp member with rfl | later
  · exact lower
  · exact (List.rel_of_pairwise_cons descending later).trans lower

end Descent

/-! ### The loop -/

section Loop
variable {table : HeaderTable} {sr : SigmaRust} {db : Database} {h step found : Nat}

theorem HeightIndex.getByHeight_of_stored (index : HeightIndex table sr db) {id : BlockId}
    (named : slot db.columns h = some id) (here : stored db.columns id) :
    HeaderStore.getByHeight sr db h = .ok (some (table.header id)) := by
  obtain ⟨bytes, held⟩ := Option.ne_none_iff_exists'.mp here
  have named : db.get .headerChain h = some id := named
  rw [HeaderStore.getByHeight, named]
  exact get_of_readsAs held (index.reads held)

theorem HeightIndex.getByHeight (index : HeightIndex table sr db) (h : Nat) :
    ∃ found, HeaderStore.getByHeight sr db h = .ok found ∧ ∀ header ∈ found, height table header.id = h := by
  cases named : slot db.columns h with
  | none =>
      have named : db.get .headerChain h = none := named
      exact ⟨none, by rw [HeaderStore.getByHeight, named]; rfl, by simp⟩
  | some id =>
      by_cases here : stored db.columns id
      · refine ⟨_, index.getByHeight_of_stored named here, ?_⟩
        rintro _ ⟨⟩
        rw [table.id_header, index.slots named]
      · have named : db.get .headerChain h = some id := named
        rw [HeaderStore.getByHeight, named]
        exact ⟨none, get_of_not_stored here, by simp⟩

theorem HeightIndex.idAt_height (index : HeightIndex table sr db) {id : BlockId} (found : id ∈ idAt sr db h) :
    height table id = h := by
  obtain ⟨slot, read, level⟩ := index.getByHeight h
  rw [idAt, read] at found
  obtain ⟨header, inSlot, rfl⟩ := Option.mem_map.mp found
  exact level header inSlot

theorem stepDown_lower (above : 1 < h) (positive : 0 < step) : 0 < stepDown h step ∧ stepDown h step < h := by
  unfold stepDown
  split <;> omega

/-- A doubled step is no more than what the height has just gone down by. -/
theorem nextStep_eq (above : 1 < h) (positive : 0 < step) (small : h + step ≤ 2 ^ 31) (found : Nat) :
    ∃ next, nextStep found step = pure next ∧ 0 < next ∧
      (stepDown h step = 1 ∨ stepDown h step + next ≤ 2 ^ 31) := by
  unfold nextStep stepDown
  split
  · refine ⟨step * 2, Overflowing.mul_eq (by omega), by omega, ?_⟩
    split <;> omega
  · refine ⟨step, rfl, positive, ?_⟩
    split <;> omega

theorem visit_idAt {slot : Option Header} (read : HeaderStore.getByHeight sr db h = .ok slot) (locator : Locator)
    (heights : List Nat) : (locator.visit h slot).ids ++ heights.filterMap (idAt sr db) =
      locator.ids ++ (h :: heights).filterMap (idAt sr db) := by
  have here : idAt sr db h = slot.map Header.id := by
    rw [idAt, read]
    rfl
  rw [List.filterMap_cons, here, Locator.visit]
  cases slot with
  | none => simp
  | some header => simp

/-- The search goes down to height 1, and no step overflows on the way. -/
theorem locatorLoop_descends (index : HeightIndex table sr db) (rounds : Nat) : ∀ {h step : Nat} {locator : Locator},
    0 < h → 0 < step → h = 1 ∨ h + step ≤ 2 ^ 31 → h ≤ rounds →
    ∃ heights, Descent h heights ∧ locatorLoop sr db rounds h step locator =
      .ok (some (pure ⟨locator.visited ++ heights, locator.ids ++ heights.filterMap (idAt sr db)⟩)) := by
  induction rounds with
  | zero =>
      intro h step locator positive _ _ enough
      omega
  | succ rounds ih =>
      intro h step locator positive stepPositive small enough
      obtain ⟨slot, read, -⟩ := index.getByHeight h
      rw [locatorLoop, read]
      by_cases bottom : h = 1
      · subst bottom
        refine ⟨[1], .one, ?_⟩
        rw [← visit_idAt read, List.filterMap_nil, List.append_nil]
        rfl
      · have above : 1 < h := by omega
        obtain ⟨next, doubled, nextPositive, nextSmall⟩ := nextStep_eq above stepPositive (small.resolve_left bottom)
          (locator.visit h slot).ids.length
        obtain ⟨lowerPositive, lower⟩ := stepDown_lower above stepPositive
        obtain ⟨heights, below, located⟩ := @ih (stepDown h step) next (locator.visit h slot) lowerPositive
          nextPositive nextSmall (by omega)
        refine ⟨h :: heights, below.cons lower, ?_⟩
        rw [← visit_idAt read]
        change (if h = 1 then _ else _) = _
        rw [if_neg bottom, doubled, Overflowing.value_pure, located, Locator.visit, List.append_assoc]
        rfl

end Loop

/-! ### The index of every run -/

namespace HistoryCall

def MayStore (sr : SigmaRust) (header : Header) (bytes : Bytes) : HistoryCall → Prop
  | .header (.appendHeader own) => header = own ∧ sr.headerBytes header = .ok bytes
  | .header (.appendHeaderWithBytes own rawBytes) => header = own ∧ bytes = rawBytes
  | .header (.appendHeadersBatched items) => (header, bytes) ∈ items
  | .appendFullBlock block => header = block.header ∧ sr.headerBytes header = .ok bytes

end HistoryCall

/-- Ids name headers, and a header's bytes are read back as it. -/
def StoresReadable (table : HeaderTable) (sr : SigmaRust) (_ : State) (call : HistoryCall) : Prop :=
  ∀ header bytes, call.MayStore sr header bytes → table.header header.id = header ∧ ReadsAs sr bytes header

section Calls
variable {table : HeaderTable} {sr : SigmaRust} {st after : State} {call : HistoryCall}
variable {items : List (Header × Bytes)}

theorem places_nil {before after : Columns} (same : after = before) : Places before after [] := by
  subst same
  exact ⟨rfl, rfl⟩

theorem places_headerWritten (st : State) (header : Header) (raw : Bytes) :
    Places st.db.columns (headerWritten st (HeaderStore.putWithBytesBatched [] header raw)).db.columns
      [(header, raw)] where
  headers := by
    rw [headerWritten, Store.column_write]
    rfl
  chain := by
    rw [headerWritten, Store.column_write]
    rfl

theorem HeightIndex.places {db later : Database} (index : HeightIndex table sr db)
    (places : Places db.columns later.columns items)
    (readable : ∀ item ∈ items, table.header item.1.id = item.1 ∧ ReadsAs sr item.2 item.1) :
    HeightIndex table sr later where
  reads := places.reads readable index.reads
  slots := by
    intro h id named
    rcases places.slot h with ⟨item, inItems, rfl, now⟩ | kept
    · rw [now, Option.some.injEq] at named
      rw [← named, height, (readable item inItems).1]
    · exact index.slots (kept.symm.trans named)

theorem appendHeaderInternal_places (sr : SigmaRust) (st : State) (header : Header) (rawBytes : Option Bytes) :
    ∃ items, Places st.db.columns ((History.appendHeaderInternal sr header rawBytes).exec st).2.db.columns items ∧
      ∀ item ∈ items, item.1 = header ∧
        History.headerBatch sr header rawBytes = .ok (HeaderStore.putWithBytesBatched [] header item.2) := by
  rcases appendHeaderInternal_cases sr st header rawBytes with
    ⟨same, -⟩ | ⟨raw, encoded, unstored, parent, works, half⟩
  · exact ⟨[], places_nil same, by simp⟩
  · have one : ∀ item ∈ [(header, raw)], item.1 = header ∧
        History.headerBatch sr header rawBytes = .ok (HeaderStore.putWithBytesBatched [] header item.2) := by
      intro item member
      obtain rfl := List.mem_singleton.mp member
      exact ⟨rfl, encoded⟩
    refine ⟨[(header, raw)], ?_, one⟩
    rcases fails : Database.writeFails st.db.faults.tail with _ | _
    · rw [exec_appendHeaderInternal works fails unstored parent encoded]
      exact places_of_writes (appended_headerAppended st header raw).writes
    · rw [(half fails).1]
      exact places_headerWritten st header raw

theorem putWithBytesBatched_injective (header : Header) :
    Function.Injective (HeaderStore.putWithBytesBatched [] header) := by
  intro left right same
  simpa [HeaderStore.putWithBytesBatched, WriteBatch.put] using same

theorem headerBatch_bytes {header : Header} {rawBytes : Option Bytes} {raw : Bytes}
    (encoded : History.headerBatch sr header rawBytes = .ok (HeaderStore.putWithBytesBatched [] header raw)) :
    rawBytes = some raw ∨ rawBytes = none ∧ sr.headerBytes header = .ok raw := by
  cases rawBytes with
  | some bytes => exact .inl (congrArg some (putWithBytesBatched_injective header (Except.ok.inj encoded)))
  | none =>
      simp only [History.headerBatch, HeaderStore.putBatched, Except.bind_ok_eq_ok, Except.mapError_ok_iff,
        Except.pure_eq_ok] at encoded
      obtain ⟨bytes, serialized, same⟩ := encoded
      rw [← putWithBytesBatched_injective header same]
      exact .inr ⟨rfl, serialized⟩

theorem historyCall_places (sr : SigmaRust) (st : State) (call : HistoryCall) :
    ∃ items, Places st.db.columns ((call.exec sr).exec st).2.db.columns items ∧
      ∀ item ∈ items, call.MayStore sr item.1 item.2 := by
  cases call with
  | header call =>
      cases call with
      | appendHeader header =>
          obtain ⟨items, places, each⟩ := appendHeaderInternal_places sr st header none
          refine ⟨items, places, fun item member => ?_⟩
          obtain ⟨rfl, encoded⟩ := each item member
          exact ⟨rfl, ((headerBatch_bytes encoded).resolve_left (by simp)).2⟩
      | appendHeaderWithBytes header rawBytes =>
          obtain ⟨items, places, each⟩ := appendHeaderInternal_places sr st header (some rawBytes)
          refine ⟨items, places, fun item member => ?_⟩
          obtain ⟨rfl, encoded⟩ := each item member
          rcases headerBatch_bytes encoded with same | ⟨none, -⟩
          · exact ⟨rfl, (Option.some.inj same).symm⟩
          · cases none
      | appendHeadersBatched headers =>
          rcases @appendHeadersBatched_appended sr st headers with
            ⟨⟨same, -⟩, -⟩ | ⟨first, rest, added, rfl, batched, appended⟩
          · exact ⟨[], places_nil same, by simp⟩
          · refine ⟨_, places_of_writes appended.writes, fun item member => ?_⟩
            rw [batched.fresh] at member
            exact (List.mem_filter.mp member).1
  | appendFullBlock block =>
      rw [HistoryCall.exec]
      rcases ran : (History.appendFullBlock sr block).exec st with ⟨error | selection, final⟩
      · exact ⟨[], places_nil (appendFullBlock_eq_error ran).1, by simp⟩
      · obtain ⟨batch, cumulative, built, columns, -⟩ := appendFullBlock_eq_ok ran
        obtain ⟨headerBytes, txs, encoded, -, -, rfl⟩ := addBlockToBatch_eq_ok.mp built
        have writes := block_writes block st.db.columns st.mem headerBytes txs cumulative
        rw [← List.nil_append (blockOps block headerBytes txs cumulative), ← columns] at writes
        refine ⟨_, places_of_writes writes, fun item member => ?_⟩
        obtain rfl := List.mem_singleton.mp member
        exact ⟨rfl, encoded⟩

theorem HistoryCall.MayStore.mem_headers {header : Header} {bytes : Bytes} (stores : call.MayStore sr header bytes) :
    header ∈ call.headers := by
  cases call with
  | header call =>
      cases call with
      | appendHeader own => exact List.mem_singleton.mpr stores.1
      | appendHeaderWithBytes own rawBytes => exact List.mem_singleton.mpr stores.1
      | appendHeadersBatched headers => exact List.mem_map_of_mem (f := Prod.fst) stores
  | appendFullBlock block => exact List.mem_singleton.mpr stores.1

theorem heightIndex_empty (table : HeaderTable) (sr : SigmaRust) (faults : List Bool) :
    HeightIndex table sr (emptyHistory faults).db where
  reads none := nomatch none
  slots none := nomatch none

theorem heightIndex_step (index : HeightIndex table sr st.db) (readable : StoresReadable table sr st call)
    (taken : historyStep sr st call = some after) : HeightIndex table sr after.db := by
  cases taken
  obtain ⟨items, places, each⟩ := historyCall_places sr st call
  exact index.places places fun item member => readable item.1 item.2 (each item member)

theorem heightIndex_of_calls (table : HeaderTable) (sr : SigmaRust) (faults : List Bool) (calls : List HistoryCall)
    (readable : Along (historyStep sr) (StoresReadable table sr) (emptyHistory faults) calls) :
    Always (historyStep sr) (fun st => HeightIndex table sr st.db) (emptyHistory faults) calls := by
  intro st visited
  exact readable.invariant (fun st => HeightIndex table sr st.db) heightIndex_step
    (heightIndex_empty table sr faults) st visited

end Calls

/-! ### The locator -/

/-- The locator of a history: the heights come down from the best one, with every header found there once. -/
theorem getHeaderLocator_locates {table : HeaderTable} {sr : SigmaRust} {db : Database}
    (index : HeightIndex table sr db) {history : ErgoNode.History}
    (small : history.bestHeight < 2 ^ 31) {rounds : Nat} (enough : history.bestHeight ≤ rounds) :
    ∃ locator, getHeaderLocator sr history db rounds = .ok (some (pure locator)) ∧
      (history.bestHeight = 0 → locator = .empty) ∧
      (0 < history.bestHeight → Locates sr db history.bestHeight locator) := by
  unfold getHeaderLocator
  by_cases none : history.bestHeight = 0
  · rw [if_pos none]
    exact ⟨.empty, rfl, fun _ => rfl, fun positive => absurd none (Nat.ne_of_gt positive)⟩
  · rw [if_neg none]
    obtain ⟨heights, descent, located⟩ := @locatorLoop_descends _ _ _ index rounds history.bestHeight 1 .empty
      (by omega) Nat.one_pos (.inr (by omega)) enough
    refine ⟨_, located, fun zero => absurd zero none, fun _ => ⟨descent, rfl, ?_⟩⟩
    refine List.Nodup.filterMap ?_ (descent.descending.imp Nat.ne_of_gt)
    intro upper lower id above below
    rw [← index.idAt_height above, index.idAt_height below]

def enteredAtTwo : State :=
  (((HistoryCall.header (.appendHeadersBatched [(Sample.header12, [0]), (Sample.header13, [0, 0])])).exec
    Sample.chainCodec).exec (emptyHistory [])).2

theorem heightIndex_enteredAtTwo : HeightIndex sampleTree.toHeaderTable Sample.chainCodec enteredAtTwo.db := by
  refine heightIndex_step (heightIndex_empty _ _ []) ?_ rfl
  intro header bytes stores
  rcases List.mem_cons.mp stores with same | stores
  · cases same
    decide
  · cases List.mem_singleton.mp stores
    decide

theorem enteredAtTwo_located : ∃ locator,
    getHeaderLocator Sample.chainCodec enteredAtTwo.mem enteredAtTwo.db 3 = .ok (some (pure locator)) ∧
      (enteredAtTwo.mem.bestHeight = 0 → locator = .empty) ∧
      (0 < enteredAtTwo.mem.bestHeight →
        Locates Sample.chainCodec enteredAtTwo.db enteredAtTwo.mem.bestHeight locator) :=
  getHeaderLocator_locates heightIndex_enteredAtTwo (by decide) (by decide)

example : getHeaderLocator Sample.chainCodec enteredAtTwo.mem enteredAtTwo.db 3 =
    .ok (some (pure ⟨[3, 2, 1], [.filled 13, .filled 12]⟩)) := by decide

/-- Without headers no height is read, not even the best height 0. -/
theorem emptyHistory_visits_nothing : ¬ ∃ rounds locator, getHeaderLocator Sample.chainCodec (emptyHistory []).mem
    (emptyHistory []).db rounds = .ok (some (pure locator)) ∧
      Locates Sample.chainCodec (emptyHistory []).db (emptyHistory []).mem.bestHeight locator := by
  rintro ⟨rounds, locator, located, locates⟩
  have nothing : Locator.empty = locator := by
    injection located with located
    injection located with located
    exact congrArg Overflowing.value located
  have first := locates.descent.first
  rw [← nothing] at first
  cases first

end ErgoNode.Proof.History
