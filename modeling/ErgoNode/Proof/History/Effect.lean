import ErgoNode.State.History

/-!
# What a header call writes

A call adds a list of headers, each with a cumulative difficulty, and may take the last one as the
best header. The header, height index and cumulative difficulty columns change by these headers and
by nothing else.
-/

namespace ErgoNode.Proof.History
open Lib

abbrev State := OnDatabase ErgoNode.History

structure Added where
  header : Header
  rawBytes : Bytes
  cumulative : Nat

namespace Added

def ops (a : Added) : WriteBatch :=
  [⟨⟨.headers, a.header.id⟩, .put a.rawBytes⟩, ⟨⟨.headerChain, a.header.height⟩, .put a.header.id⟩,
    ⟨⟨.cumulativeDifficulty, a.header.id⟩, .put a.cumulative⟩]

end Added

def ids (added : List Added) : List BlockId := added.map (·.header.id)

structure Writes (before after : Columns) (added : List Added) : Prop where
  headers : after.column .headers =
    (before.column .headers).write (puts (·.header.id) (·.rawBytes) added)
  chain : after.column .headerChain =
    (before.column .headerChain).write (puts (·.header.height) (·.header.id) added)
  cumulative : after.column .cumulativeDifficulty =
    (before.column .cumulativeDifficulty).write (puts (·.header.id) (·.cumulative) added)

section Columns
variable {before after : Columns} {added : List Added} {batch : WriteBatch}

theorem ops_column_headers (added : List Added) :
    batchColumn .headers (added.flatMap Added.ops) = puts (·.header.id) (·.rawBytes) added := by
  rw [batchColumn_flatMap, puts, List.map_eq_flatMap]
  simp [Added.ops, batchColumn_cons_of_ne]

theorem ops_column_chain (added : List Added) :
    batchColumn .headerChain (added.flatMap Added.ops) =
      puts (·.header.height) (·.header.id) added := by
  rw [batchColumn_flatMap, puts, List.map_eq_flatMap]
  simp [Added.ops, batchColumn_cons_of_ne]

theorem ops_column_cumulative (added : List Added) :
    batchColumn .cumulativeDifficulty (added.flatMap Added.ops) =
      puts (·.header.id) (·.cumulative) added := by
  rw [batchColumn_flatMap, puts, List.map_eq_flatMap]
  simp [Added.ops, batchColumn_cons_of_ne]

def HeaderColumn (cf : ColumnFamily) : Prop :=
  cf = .headers ∨ cf = .headerChain ∨ cf = .cumulativeDifficulty

theorem writes_of_column (same : ∀ {cf}, HeaderColumn cf →
      batchColumn cf batch = batchColumn cf (added.flatMap Added.ops)) :
    Writes before (before.write batch) added where
  headers := by rw [Store.column_write, same (.inl rfl), ops_column_headers]
  chain := by rw [Store.column_write, same (.inr (.inl rfl)), ops_column_chain]
  cumulative := by rw [Store.column_write, same (.inr (.inr rfl)), ops_column_cumulative]

theorem bestHeader_column {cf : ColumnFamily} (known : HeaderColumn cf) (heavier : Prop)
    [Decidable heavier] (id : BlockId) (height cumulative : Nat) :
    batchColumn cf (if heavier then History.putBestHeader batch id height cumulative else batch) =
      batchColumn cf batch := by
  split
  · rcases known with rfl | rfl | rfl <;> simp [History.putBestHeader]
  · rfl

end Columns

/-! ### Choosing the best header -/

structure Appended (before after : State) (added : List Added) (id : BlockId)
    (height cumulative : Nat) : Prop where
  writes : Writes before.db.columns after.db.columns added
  best : after.mem = if cumulative > before.mem.bestCumulativeDifficulty then
    before.mem.withBestHeader id height cumulative else before.mem

def Unchanged (before after : State) : Prop :=
  after.db.columns = before.db.columns ∧ after.mem = before.mem

variable {sr : SigmaRust} {st : State}

def chainSelected (st : State) (batch : WriteBatch) (id : BlockId) (height cumulative : Nat) : State :=
  if cumulative > st.mem.bestCumulativeDifficulty then
    ⟨⟨st.db.columns.write (History.putBestHeader batch id height cumulative), st.db.faults.tail⟩,
      st.mem.withBestHeader id height cumulative⟩
  else ⟨⟨st.db.columns.write batch, st.db.faults.tail⟩, st.mem⟩

theorem chainSelected_columns (st : State) (batch : WriteBatch) (id : BlockId) (height cumulative : Nat) :
    (chainSelected st batch id height cumulative).db.columns = st.db.columns.write
      (if cumulative > st.mem.bestCumulativeDifficulty then
        History.putBestHeader batch id height cumulative else batch) := by
  unfold chainSelected
  split <;> rfl

theorem chainSelected_mem (st : State) (batch : WriteBatch) (id : BlockId) (height cumulative : Nat) :
    (chainSelected st batch id height cumulative).mem = if cumulative > st.mem.bestCumulativeDifficulty then
      st.mem.withBestHeader id height cumulative else st.mem := by
  unfold chainSelected
  split <;> rfl

theorem chainSelected_faults (st : State) (batch : WriteBatch) (id : BlockId) (height cumulative : Nat) :
    (chainSelected st batch id height cumulative).db.faults = st.db.faults.tail := by
  unfold chainSelected
  split <;> rfl

def selectionAfter (sr : SigmaRust) (st after : State) (id : BlockId) (height cumulative : Nat) :
    StateResult ChainSelection :=
  if cumulative > st.mem.bestCumulativeDifficulty then
    if height ≤ st.mem.bestHeight ∧ st.mem.bestHeight > 0 then do
      let forkHeight ← History.findForkHeight sr after.db id
      return .reorg forkHeight (st.mem.bestHeight - forkHeight)
    else return .extended
  else return .ignored

theorem exec_selectChain (sr : SigmaRust) {st : State} (works : Database.writeFails st.db.faults = false)
    (batch : WriteBatch) (id : BlockId) (height cumulative : Nat) :
    (History.selectChain sr batch id height cumulative).exec st =
      (selectionAfter sr st (chainSelected st batch id height cumulative) id height cumulative,
        chainSelected st batch id height cumulative) := by
  have wrote (b : WriteBatch) : (Database.writeBatch b).exec st.db = (.ok (), _) :=
    Database.writeBatch_eq_ok_iff.mpr ⟨works, rfl⟩
  unfold selectionAfter chainSelected
  by_cases heavier : cumulative > st.mem.bestCumulativeDifficulty
  · simp only [History.selectChain, Op.exec_bind, Op.exec_get, if_pos heavier, OnDatabase.writeBatch,
      Op.exec_zoom, wrote, Op.exec_modify, Op.exec_ite, Op.exec_ofExcept, Op.exec_pure]
    split
    · cases History.findForkHeight sr _ id <;> rfl
    · rfl
  · simp only [History.selectChain, Op.exec_bind, Op.exec_get, if_neg heavier, OnDatabase.writeBatch,
      Op.exec_zoom, wrote, Op.exec_pure]
    rfl

theorem exec_selectChain_of_fails (sr : SigmaRust) {st : State} (fails : Database.writeFails st.db.faults = true)
    (batch : WriteBatch) (id : BlockId) (height cumulative : Nat) :
    (History.selectChain sr batch id height cumulative).exec st =
      (.error (.storage .database), { st with db.faults := st.db.faults.tail }) := by
  have lost (b : WriteBatch) := Database.exec_writeBatch_of_fails b fails
  by_cases heavier : cumulative > st.mem.bestCumulativeDifficulty
  · simp only [History.selectChain, Op.exec_bind, Op.exec_get, if_pos heavier, OnDatabase.writeBatch,
      Op.exec_zoom, lost]
  · simp only [History.selectChain, Op.exec_bind, Op.exec_get, if_neg heavier, OnDatabase.writeBatch,
      Op.exec_zoom, lost]

theorem selectChain_state (sr : SigmaRust) (st : State) (batch : WriteBatch) (id : BlockId) (height cumulative : Nat) :
    let after := ((History.selectChain sr batch id height cumulative).exec st).2
    (Database.writeFails st.db.faults = true ∧ Unchanged st after) ∨
      (Database.writeFails st.db.faults = false ∧
        after.db.columns = st.db.columns.write
          (if cumulative > st.mem.bestCumulativeDifficulty then
            History.putBestHeader batch id height cumulative else batch) ∧
        after.mem = if cumulative > st.mem.bestCumulativeDifficulty then
          st.mem.withBestHeader id height cumulative else st.mem) := by
  intro after
  rcases fails : Database.writeFails st.db.faults with _ | _
  · refine .inr ⟨rfl, ?_⟩
    have selected : after = chainSelected st batch id height cumulative :=
      congrArg Prod.snd (exec_selectChain sr fails batch id height cumulative)
    rw [selected]
    exact ⟨chainSelected_columns .., chainSelected_mem ..⟩
  · refine .inl ⟨rfl, ?_⟩
    have lost : after = { st with db.faults := st.db.faults.tail } :=
      congrArg Prod.snd (exec_selectChain_of_fails sr fails batch id height cumulative)
    rw [lost]
    exact ⟨rfl, rfl⟩

/-! ### Walking to the fork -/

section Walk
variable {db : Database} {id : BlockId} {height : Nat} {found : Option Header} {header : Header}

theorem walkToFork_of_found (slot : HeaderStore.getByHeight sr db (height + 1) = .ok (some header))
    (same : header.id = id) : History.walkToFork sr db id (height + 1) = .ok (height + 1) := by
  rw [History.walkToFork, slot]
  exact if_pos same

theorem walkToFork_of_parent (slot : HeaderStore.getByHeight sr db (height + 1) = .ok found)
    (other : ∀ main ∈ found, main.id ≠ id) (stored : HeaderStore.get sr db id = .ok (some header)) :
    History.walkToFork sr db id (height + 1) = History.walkToFork sr db header.parentId height := by
  rw [History.walkToFork, slot]
  cases found with
  | none =>
      change HeaderStore.get sr db id >>= _ = _
      rw [stored]
      rfl
  | some main =>
      change (if main.id = id then _ else _) = _
      rw [if_neg (other main rfl), stored]
      rfl

theorem walkToFork_of_missing (slot : HeaderStore.getByHeight sr db (height + 1) = .ok found)
    (other : ∀ main ∈ found, main.id ≠ id) (missing : HeaderStore.get sr db id = .ok none) :
    History.walkToFork sr db id (height + 1) = .ok 1 := by
  rw [History.walkToFork, slot]
  cases found with
  | none =>
      change HeaderStore.get sr db id >>= _ = _
      rw [missing]
      rfl
  | some main =>
      change (if main.id = id then _ else _) = _
      rw [if_neg (other main rfl), missing]
      rfl

end Walk

/-! ### The headers of a call -/

def total (start : Nat) (before : List Added) : Nat :=
  ((before.getLast?).map (·.cumulative)).getD start

def nextCumulative (db : Database) (start : Nat) (before : List Added) (header : Header) : Nat :=
  (if header.height > 2 ∧ header.parentId ∈ ids before then total start before
    else History.parentCumulative db header) + nbitsToDifficulty header.nBits

/-- `added` is made of the headers of `items` that are not stored: each has its parent earlier in
the batch or in the store. -/
structure Batched (db : Database) (start : Nat) (items : List (Header × Bytes)) (added : List Added) :
    Prop where
  fresh : added.map (fun a => (a.header, a.rawBytes)) =
    items.filter fun item => !HeaderStore.contains db item.1.id
  step : ∀ before a, before ++ [a] <+: added →
    (a.header.height > 2 → a.header.parentId ∈ ids before ∨
      HeaderStore.contains db a.header.parentId = true) ∧
    a.cumulative = nextCumulative db start before a.header

structure LoopState (first : Header) (start : Nat) (added : List Added) (acc : History.HeaderBatch) :
    Prop where
  batch : acc.batch = added.flatMap Added.ops
  headerIds : acc.headerIds = ids added
  cumulative : acc.cumulativeDifficulty = total start added
  finalId : acc.finalHeaderId = ((added.getLast?).map (·.header.id)).getD first.id
  finalHeight : acc.finalHeight = ((added.getLast?).map (·.header.height)).getD first.height
  finalCumulative : acc.finalCumulativeDifficulty = total start added

section Loop
variable {db : Database} {first : Header} {start : Nat} {items rest : List (Header × Bytes)}
variable {added : List Added} {acc next : History.HeaderBatch} {item : Header × Bytes}

theorem batched_nil (db : Database) (start : Nat) : Batched db start [] [] :=
  ⟨rfl, fun before a prefixed => by simp at prefixed⟩

theorem batched_skip (batched : Batched db start items added)
    (stored : HeaderStore.contains db item.1.id = true) : Batched db start (items ++ [item]) added where
  fresh := by rw [batched.fresh, List.filter_append]; simp [stored]
  step := batched.step

theorem batched_add {a : Added} (batched : Batched db start items added)
    (unstored : HeaderStore.contains db a.header.id = false)
    (parent : a.header.height > 2 → a.header.parentId ∈ ids added ∨
      HeaderStore.contains db a.header.parentId = true)
    (cumulative : a.cumulative = nextCumulative db start added a.header) :
    Batched db start (items ++ [(a.header, a.rawBytes)]) (added ++ [a]) where
  fresh := by rw [List.map_append, batched.fresh, List.filter_append]; simp [unstored]
  step before b prefixed := by
    rcases List.prefix_concat_iff.mp prefixed with same | earlier
    · obtain ⟨rfl, last⟩ := List.append_inj' same rfl
      cases last
      exact ⟨parent, cumulative⟩
    · exact batched.step before b earlier

theorem addHeaderToBatch_eq_ok (state : LoopState first start added acc)
    (done : History.addHeaderToBatch db acc item = .ok next) :
    (HeaderStore.contains db item.1.id = true ∧ next = acc) ∨
      ∃ a, (a.header, a.rawBytes) = item ∧ HeaderStore.contains db a.header.id = false ∧
        (a.header.height > 2 → a.header.parentId ∈ ids added ∨
          HeaderStore.contains db a.header.parentId = true) ∧
        a.cumulative = nextCumulative db start added a.header ∧
        LoopState first start (added ++ [a]) next := by
  obtain ⟨header, rawBytes⟩ := item
  dsimp only [History.addHeaderToBatch] at done
  split at done
  · next stored =>
      cases done
      exact .inl ⟨stored, rfl⟩
  · next unstored =>
      split at done
      · cases done
      · next parent =>
          cases done
          refine .inr ⟨⟨header, rawBytes, nextCumulative db start added header⟩, rfl,
            Bool.not_eq_true _ ▸ unstored, ?_, rfl, ?_⟩
          · intro high
            simp only [state.headerIds, high, true_and, Bool.not_eq_true', decide_eq_false_iff_not,
              not_and, Bool.not_eq_false] at parent
            by_cases inBatch : header.parentId ∈ ids added
            · exact .inl inBatch
            · exact .inr (parent inBatch)
          · have value : (if header.height > 2 ∧ decide (header.parentId ∈ acc.headerIds) = true
                then acc.cumulativeDifficulty else History.parentCumulative db header) +
                nbitsToDifficulty header.nBits = nextCumulative db start added header := by
              simp only [nextCumulative, state.headerIds, state.cumulative, decide_eq_true_eq]
            rw [value]
            constructor
            · simp [HeaderStore.putWithBytesBatched, History.storeCumulativeDifficulty,
                WriteBatch.put, state.batch, Added.ops]
            · simp [ids, state.headerIds]
            · simp [total]
            · simp
            · simp
            · simp [total]

theorem foldlM_addHeaderToBatch (state : LoopState first start added acc)
    (batched : Batched db start items added)
    (done : rest.foldlM (History.addHeaderToBatch db) acc = .ok next) :
    ∃ all, Batched db start (items ++ rest) all ∧ LoopState first start all next := by
  induction rest generalizing acc items added with
  | nil =>
      cases done
      exact ⟨added, by rwa [List.append_nil], state⟩
  | cons item rest ih =>
      rw [List.foldlM_cons, Except.bind_ok_eq_ok] at done
      obtain ⟨middle, turn, later⟩ := done
      rw [List.append_cons]
      rcases addHeaderToBatch_eq_ok state turn with ⟨stored, rfl⟩ |
        ⟨a, rfl, unstored, parent, cumulative, stateAfter⟩
      · exact ih state (batched_skip batched stored) later
      · exact ih stateAfter (batched_add batched unstored parent cumulative) later

end Loop

/-! ### Header calls -/

inductive HeaderCall where
  | appendHeader (header : Header)
  | appendHeaderWithBytes (header : Header) (rawBytes : Bytes)
  | appendHeadersBatched (headers : List (Header × Bytes))

namespace HeaderCall

def exec (sr : SigmaRust) : HeaderCall → Op State StateError ChainSelection
  | .appendHeader header => History.appendHeader sr header
  | .appendHeaderWithBytes header rawBytes => History.appendHeaderWithBytes sr header rawBytes
  | .appendHeadersBatched headers => History.appendHeadersBatched sr headers

def headers : HeaderCall → List Header
  | .appendHeader header => [header]
  | .appendHeaderWithBytes header _ => [header]
  | .appendHeadersBatched headers => headers.map Prod.fst

/-- A single header takes two writes: the second works if the first does. -/
def WritesTogether (st : State) : HeaderCall → Prop
  | .appendHeadersBatched _ => True
  | _ => Database.writeFails st.db.faults = false → Database.writeFails st.db.faults.tail = false

instance (st : State) : (call : HeaderCall) → Decidable (call.WritesTogether st)
  | .appendHeadersBatched _ => inferInstanceAs (Decidable True)
  | .appendHeader _ | .appendHeaderWithBytes _ _ => inferInstanceAs (Decidable (_ → _))

end HeaderCall

/-- A call leaves the history as it was, or adds the headers that are not stored and compares the
last of them (the first header of the call, if none is added) with the best header. -/
def Outcome (before after : State) (headers : List Header) : Prop :=
  Unchanged before after ∨ ∃ first rest items added, headers = first :: rest ∧
    items.map Prod.fst = headers ∧
    Batched before.db (History.parentCumulative before.db first) items added ∧
    Appended before after added (((added.getLast?).map (·.header.id)).getD first.id)
      (((added.getLast?).map (·.header.height)).getD first.height)
      (total (History.parentCumulative before.db first) added)

section Single
variable {header : Header} {rawBytes : Option Bytes}

theorem batched_single (raw : Bytes) (start : Nat)
    (unstored : HeaderStore.contains st.db header.id = false)
    (parent : header.height > 2 → HeaderStore.contains st.db header.parentId = true) :
    Batched st.db start [(header, raw)] [⟨header, raw,
      History.parentCumulative st.db header + nbitsToDifficulty header.nBits⟩] :=
  batched_add (a := ⟨header, raw, _⟩) (batched_nil st.db start) unstored
    (fun high => .inr (parent high)) (by simp [nextCumulative, ids])

theorem headerBatch_eq_ok {batch : WriteBatch}
    (encoded : History.headerBatch sr header rawBytes = .ok batch) :
    ∃ raw, batch = HeaderStore.putWithBytesBatched [] header raw := by
  cases rawBytes with
  | some bytes =>
      cases encoded
      exact ⟨bytes, rfl⟩
  | none =>
      simp only [History.headerBatch, HeaderStore.putBatched, Except.bind_ok_eq_ok,
        Except.pure_eq_ok] at encoded
      obtain ⟨bytes, -, rfl⟩ := encoded
      exact ⟨bytes, rfl⟩

def headerWritten (st : State) (batch : WriteBatch) : State :=
  ⟨⟨st.db.columns.write batch, st.db.faults.tail⟩, st.mem⟩

def singleSum (st : State) (header : Header) : Nat :=
  History.parentCumulative st.db header + nbitsToDifficulty header.nBits

def headerAppended (st : State) (header : Header) (raw : Bytes) : State :=
  chainSelected (headerWritten st (HeaderStore.putWithBytesBatched [] header raw))
    (History.storeCumulativeDifficulty [] header.id (singleSum st header)) header.id header.height
    (singleSum st header)

theorem exec_appendHeaderInternal_adds {raw : Bytes} (unstored : HeaderStore.contains st.db header.id = false)
    (parent : 2 < header.height → HeaderStore.contains st.db header.parentId = true)
    (encoded : History.headerBatch sr header rawBytes = .ok (HeaderStore.putWithBytesBatched [] header raw)) :
    (History.appendHeaderInternal sr header rawBytes).exec st =
      (do
        OnDatabase.writeBatch (HeaderStore.putWithBytesBatched [] header raw)
        History.selectChain sr (History.storeCumulativeDifficulty [] header.id (singleSum st header)) header.id
          header.height (singleSum st header) : Op State StateError ChainSelection).exec st := by
  have present : ¬ (header.height > 2 ∧ (!HeaderStore.contains st.db header.parentId) = true) := by
    rintro ⟨high, missing⟩
    rw [parent high] at missing
    cases missing
  unfold History.appendHeaderInternal
  rw [Op.exec_bind_of_ok (Op.exec_get st), Op.exec_ite, if_neg (by simp [unstored]), Op.exec_ite,
    if_neg present, encoded, Op.exec_bind_of_ok (Op.exec_ofExcept _ st)]
  rfl

theorem exec_appendHeaderInternal_written {raw : Bytes} (works : Database.writeFails st.db.faults = false)
    (unstored : HeaderStore.contains st.db header.id = false)
    (parent : 2 < header.height → HeaderStore.contains st.db header.parentId = true)
    (encoded : History.headerBatch sr header rawBytes = .ok (HeaderStore.putWithBytesBatched [] header raw)) :
    (History.appendHeaderInternal sr header rawBytes).exec st =
      (History.selectChain sr (History.storeCumulativeDifficulty [] header.id (singleSum st header)) header.id
        header.height (singleSum st header)).exec (headerWritten st (HeaderStore.putWithBytesBatched [] header raw)) := by
  rw [exec_appendHeaderInternal_adds unstored parent encoded]
  exact Op.exec_bind_of_ok (OnDatabase.exec_writeBatch works st.mem _)

theorem exec_appendHeaderInternal {raw : Bytes} (works : Database.writeFails st.db.faults = false)
    (worksAgain : Database.writeFails st.db.faults.tail = false)
    (unstored : HeaderStore.contains st.db header.id = false)
    (parent : 2 < header.height → HeaderStore.contains st.db header.parentId = true)
    (encoded : History.headerBatch sr header rawBytes = .ok (HeaderStore.putWithBytesBatched [] header raw)) :
    (History.appendHeaderInternal sr header rawBytes).exec st =
      (selectionAfter sr st (headerAppended st header raw) header.id header.height (singleSum st header),
        headerAppended st header raw) := by
  rw [exec_appendHeaderInternal_written works unstored parent encoded]
  exact exec_selectChain sr worksAgain _ _ _ _

def AddsHeader (sr : SigmaRust) (db : Database) (header : Header) (rawBytes : Option Bytes) : Prop :=
  HeaderStore.contains db header.id = false ∧
    (2 < header.height → HeaderStore.contains db header.parentId = true) ∧
    ∃ raw, History.headerBatch sr header rawBytes = .ok (HeaderStore.putWithBytesBatched [] header raw)

theorem exec_appendHeaderInternal_of_not_adds (idle : ¬ AddsHeader sr st.db header rawBytes) :
    ∃ result, (History.appendHeaderInternal sr header rawBytes).exec st = (result, st) := by
  unfold History.appendHeaderInternal
  rw [Op.exec_bind_of_ok (Op.exec_get st), Op.exec_ite]
  split
  · exact ⟨.ok .ignored, rfl⟩
  · next unstored =>
      rw [Op.exec_ite]
      split
      · exact ⟨_, rfl⟩
      · next parent =>
          cases encoded : History.headerBatch sr header rawBytes with
          | error error => exact ⟨_, Op.exec_bind_of_error (Op.exec_ofExcept _ st)⟩
          | ok batch =>
              obtain ⟨raw, rfl⟩ := headerBatch_eq_ok encoded
              refine absurd ⟨Bool.not_eq_true _ ▸ unstored, fun high => ?_, raw, encoded⟩ idle
              simpa [high] using parent

/-- A single header changes nothing, or its first write works and its second fails, or both work. -/
theorem appendHeaderInternal_cases (sr : SigmaRust) (st : State) (header : Header) (rawBytes : Option Bytes) :
    Unchanged st ((History.appendHeaderInternal sr header rawBytes).exec st).2 ∨
      ∃ raw, History.headerBatch sr header rawBytes = .ok (HeaderStore.putWithBytesBatched [] header raw) ∧
        HeaderStore.contains st.db header.id = false ∧
        (2 < header.height → HeaderStore.contains st.db header.parentId = true) ∧
        Database.writeFails st.db.faults = false ∧
        (Database.writeFails st.db.faults.tail = true →
          Unchanged (headerWritten st (HeaderStore.putWithBytesBatched [] header raw))
            ((History.appendHeaderInternal sr header rawBytes).exec st).2) := by
  by_cases adds : AddsHeader sr st.db header rawBytes
  · obtain ⟨unstored, parent, raw, encoded⟩ := adds
    rcases works : Database.writeFails st.db.faults with _ | _
    · refine .inr ⟨raw, encoded, unstored, parent, rfl, fun lost => ?_⟩
      rw [exec_appendHeaderInternal_written works unstored parent encoded]
      rcases selectChain_state sr (headerWritten st (HeaderStore.putWithBytesBatched [] header raw)) _ _ _ _ with
        ⟨-, same⟩ | ⟨works, -⟩
      · exact same
      · exact absurd (lost.symm.trans works) (by simp)
    · rw [exec_appendHeaderInternal_adds unstored parent encoded,
        Op.exec_bind_of_error (OnDatabase.exec_writeBatch_of_fails works st.mem _)]
      exact .inl ⟨rfl, rfl⟩
  · obtain ⟨result, same⟩ := exec_appendHeaderInternal_of_not_adds adds
    rw [same]
    exact .inl ⟨rfl, rfl⟩

theorem appended_headerAppended (st : State) (header : Header) (raw : Bytes) :
    Appended st (headerAppended st header raw) [⟨header, raw, singleSum st header⟩] header.id header.height
      (singleSum st header) where
  writes := by
    rw [headerAppended, chainSelected_columns, headerWritten, ← Store.write_append]
    apply writes_of_column
    intro cf known
    rw [batchColumn_append, bestHeader_column known, ← batchColumn_append]
    rfl
  best := chainSelected_mem ..

theorem appendHeaderInternal_outcome
    (together : Database.writeFails st.db.faults = false → Database.writeFails st.db.faults.tail = false) :
    Outcome st ((History.appendHeaderInternal sr header rawBytes).exec st).2 [header] := by
  rcases appendHeaderInternal_cases sr st header rawBytes with
    unchanged | ⟨raw, encoded, unstored, parent, works, -⟩
  · exact .inl unchanged
  · rw [exec_appendHeaderInternal works (together works) unstored parent encoded]
    exact .inr ⟨header, [], _, _, rfl, rfl, batched_single raw _ unstored parent,
      appended_headerAppended st header raw⟩

theorem appendHeadersBatched_appended (items : List (Header × Bytes)) :
    (Unchanged st ((History.appendHeadersBatched sr items).exec st).2 ∧
      (items = [] ∨ ∃ error, ((History.appendHeadersBatched sr items).exec st).1 = .error error)) ∨
    ∃ first rest added, items = first :: rest ∧
      Batched st.db (History.parentCumulative st.db first.1) items added ∧
      Appended st ((History.appendHeadersBatched sr items).exec st).2 added
        (((added.getLast?).map (·.header.id)).getD first.1.id)
        (((added.getLast?).map (·.header.height)).getD first.1.height)
        (total (History.parentCumulative st.db first.1) added) := by
  cases items with
  | nil => exact .inl ⟨⟨rfl, rfl⟩, .inl rfl⟩
  | cons first rest =>
      simp only [History.appendHeadersBatched]
      rw [Op.exec_bind_of_ok (Op.exec_get st)]
      rcases built : (first :: rest).foldlM (History.addHeaderToBatch st.db)
          (History.HeaderBatch.start st.db first.1) with error | acc
      · simp only [Op.exec_bind, Op.exec_ofExcept]
        exact .inl ⟨⟨rfl, rfl⟩, .inr ⟨error, rfl⟩⟩
      · rw [Op.exec_bind_of_ok (Op.exec_ofExcept _ st)]
        have start : LoopState first.1 (History.parentCumulative st.db first.1) []
            (History.HeaderBatch.start st.db first.1) := ⟨rfl, rfl, rfl, rfl, rfl, rfl⟩
        obtain ⟨added, batched, state⟩ := foldlM_addHeaderToBatch start (batched_nil st.db _) built
        rw [state.finalId, state.finalHeight, state.finalCumulative]
        rcases selectChain_state sr st acc.batch
            (((added.getLast?).map (·.header.id)).getD first.1.id)
            (((added.getLast?).map (·.header.height)).getD first.1.height)
            (total (History.parentCumulative st.db first.1) added) with
          ⟨fails, same⟩ | ⟨-, columns, mem⟩
        · refine .inl ⟨same, .inr ⟨.storage .database, ?_⟩⟩
          rw [exec_selectChain_of_fails sr fails]
        · refine .inr ⟨first, rest, added, rfl, batched, ?_, mem⟩
          rw [columns]
          apply writes_of_column
          intro cf known
          rw [bestHeader_column known, state.batch]

theorem appendHeadersBatched_outcome (items : List (Header × Bytes)) :
    Outcome st ((History.appendHeadersBatched sr items).exec st).2 (items.map Prod.fst) := by
  rcases @appendHeadersBatched_appended sr st items with
    ⟨unchanged, -⟩ | ⟨first, rest, added, rfl, batched, appended⟩
  · exact .inl unchanged
  · exact .inr ⟨first.1, rest.map Prod.fst, first :: rest, added, rfl, rfl, batched, appended⟩

theorem headerCall_outcome (sr : SigmaRust) (st : State) (call : HeaderCall)
    (together : call.WritesTogether st) : Outcome st ((call.exec sr).exec st).2 call.headers := by
  cases call with
  | appendHeader header => exact appendHeaderInternal_outcome together
  | appendHeaderWithBytes header rawBytes => exact appendHeaderInternal_outcome together
  | appendHeadersBatched items => exact appendHeadersBatched_outcome items

end Single

end ErgoNode.Proof.History
