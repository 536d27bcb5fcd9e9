import ErgoNode.Proof.History.Growth
import ErgoNode.Proof.Manager.Restart
import ErgoNode.Proof.Sample

/-!
# Crashes of header writes

A batch of headers is one write. A single header takes two, its cumulative difficulty in the second: cut
off between them, it is stored without one, and a node that starts again takes it for known.
-/

namespace ErgoNode.Proof.Manager
open Lib
open ErgoNode.Proof.History (HeaderCall State AddsHeader headerStep stored cumulativeOf contains_iff stored_after
  final_stored headerWritten singleSum exec_appendHeaderInternal_of_not_adds exec_appendHeaderInternal_written
  appendHeadersBatched_appended exec_selectChain exec_selectChain_of_fails chainSelected_faults)

variable {sr : SigmaRust} {st t : State} {call : HeaderCall} {header : Header} {rawBytes : Option Bytes}

/-! ### A call that is cut off -/

def delivered (sr : SigmaRust) (call : HeaderCall) (st : State) : State :=
  ((call.exec sr).exec ⟨⟨st.db.columns, []⟩, st.mem⟩).2

def startOn (columns : Columns) : State := ⟨⟨columns, []⟩, ErgoNode.History.initFromStorage ⟨columns, []⟩⟩

structure CrashSafe (sr : SigmaRust) (st : State) (call : HeaderCall) : Prop where
  sums : ∀ writes id, stored (OnDatabase.crash (call.exec sr) writes st) id →
    cumulativeOf (OnDatabase.crash (call.exec sr) writes st) id ≠ none
  best : ∀ writes id, (OnDatabase.crash (call.exec sr) writes st).column .metadata .bestHeaderId = some id →
    stored (OnDatabase.crash (call.exec sr) writes st) id
  /-- The node starts on what is stored and the interrupted call is made again. -/
  redelivered : ∀ writes, OnDatabase.CutOff (call.exec sr) writes st →
    delivered sr call (startOn (OnDatabase.crash (call.exec sr) writes st)) = delivered sr call st

/-- A header that comes on its own and is added. -/
def AddsSingly (sr : SigmaRust) (st : State) : HeaderCall → Prop
  | .appendHeader header => AddsHeader sr st.db header none
  | .appendHeaderWithBytes header rawBytes => AddsHeader sr st.db header (some rawBytes)
  | .appendHeadersBatched _ => False

/-! ### Whole states -/

/-- Headers and cumulative difficulties are stored together, the best header is stored, and the memory
holds what a start would read. -/
structure Whole (st : State) : Prop where
  sums : ∀ id, stored st.db.columns id ↔ cumulativeOf st.db.columns id ≠ none
  best : ∀ id, st.mem.bestHeaderId = some id → stored st.db.columns id
  read : ErgoNode.History.initFromStorage st.db = st.mem

theorem Whole.congr (whole : Whole st) (columns : t.db.columns = st.db.columns) (mem : t.mem = st.mem) : Whole t := by
  obtain ⟨⟨_, faults⟩, _⟩ := t
  dsimp only at columns mem
  subst columns mem
  exact ⟨whole.sums, whole.best, whole.read⟩

theorem Whole.appendHeadersBatched (whole : Whole st) (items : List (Header × Bytes)) :
    Whole ((ErgoNode.History.appendHeadersBatched sr items).exec st).2 := by
  have before : HistoryStored (restarted st.db) st := by
    rw [HistoryStored, ← whole.read]
    rfl
  have read := congrArg Counters.history (@historyStored_appendHeadersBatched sr _ st before items)
  rcases @appendHeadersBatched_appended sr st items with
    ⟨⟨columns, mem⟩, -⟩ | ⟨first, rest, added, rfl, batched, writes, best⟩
  · exact whole.congr columns mem
  · refine ⟨fun id => ?_, fun id => ?_, read⟩
    · rw [stored, cumulativeOf, writes.headers, writes.cumulative, Store.write_puts_ne_none]
      exact (or_congr_left (whole.sums id)).trans (Store.write_puts_ne_none _ id).symm
    · rw [best]
      split
      · intro named
        cases named
        obtain ⟨final, -, kept, same, -⟩ := final_stored batched writes
        rw [same]
        exact kept
      · exact fun named => (stored_after writes id).mpr (.inl (whole.best id named))

/-! ### Single headers -/

theorem crashSafe_of_idle (whole : Whole st)
    (idle : ∀ faults, ∃ result, (call.exec sr).exec ⟨⟨st.db.columns, faults⟩, st.mem⟩ =
      (result, ⟨⟨st.db.columns, faults⟩, st.mem⟩)) : CrashSafe sr st call := by
  have kept (writes : Nat) : ((call.exec sr).exec ⟨st.db.interrupted writes, st.mem⟩).2 =
      ⟨st.db.interrupted writes, st.mem⟩ := by
    obtain ⟨result, same⟩ := idle (st.db.interrupted writes).faults
    exact congrArg Prod.snd same
  refine ⟨fun writes id => ?_, fun writes id => ?_, fun writes cut => ?_⟩
  · rw [OnDatabase.crash, kept]
    exact (whole.sums id).mp
  · rw [OnDatabase.crash, kept]
    intro named
    refine whole.best id ?_
    rw [← whole.read]
    exact named
  · rw [OnDatabase.CutOff, kept] at cut
    exact absurd cut (by simp [Database.interrupted])

/-- Between its two writes the header is stored without a sum. -/
theorem not_crashSafe_of_adds (whole : Whole st) (adds : AddsHeader sr st.db header rawBytes)
    (own : (call.exec sr) = ErgoNode.History.appendHeaderInternal sr header rawBytes) : ¬ CrashSafe sr st call := by
  intro safe
  obtain ⟨unstored, parent, raw, encoded⟩ := adds
  have left : OnDatabase.crash (call.exec sr) 1 st =
      st.db.columns.write (HeaderStore.putWithBytesBatched [] header raw) := by
    rw [own, OnDatabase.crash, @exec_appendHeaderInternal_written sr ⟨st.db.interrupted 1, st.mem⟩ _ _ _ rfl unstored
      parent encoded, exec_selectChain_of_fails sr rfl]
    rfl
  have sum := safe.sums 1 header.id
  rw [left, cumulativeOf, stored, Store.column_write, Store.column_write] at sum
  have absent : cumulativeOf st.db.columns header.id = none := by
    by_contra present
    have held := (contains_iff st.db header.id).mpr ((whole.sums header.id).mpr present)
    rw [unstored] at held
    cases held
  rw [cumulativeOf] at absent
  exact sum (by simp [HeaderStore.putWithBytesBatched, Store.apply]) (by simpa [HeaderStore.putWithBytesBatched] using absent)

theorem single_crashSafe_iff (whole : Whole st)
    (own : (call.exec sr) = ErgoNode.History.appendHeaderInternal sr header rawBytes) :
    CrashSafe sr st call ↔ ¬ AddsHeader sr st.db header rawBytes := by
  constructor
  · exact fun safe adds => not_crashSafe_of_adds whole adds own safe
  · intro idle
    refine crashSafe_of_idle whole fun faults => ?_
    rw [own]
    exact @exec_appendHeaderInternal_of_not_adds sr ⟨⟨st.db.columns, faults⟩, st.mem⟩ header rawBytes idle

/-! ### Batches -/

section Batches
variable {items : List (Header × Bytes)}

theorem faults_appendHeadersBatched (items : List (Header × Bytes)) :
    ((ErgoNode.History.appendHeadersBatched sr items).exec st).2 = st ∨
      (Database.writeFails st.db.faults = true ∧
        ((ErgoNode.History.appendHeadersBatched sr items).exec st).2 = { st with db.faults := st.db.faults.tail }) ∨
      Database.writeFails st.db.faults = false ∧
        ((ErgoNode.History.appendHeadersBatched sr items).exec st).2.db.faults = st.db.faults.tail := by
  cases items with
  | nil => exact .inl rfl
  | cons first rest =>
      simp only [ErgoNode.History.appendHeadersBatched]
      rw [Op.exec_bind_of_ok (Op.exec_get st)]
      cases built : (first :: rest).foldlM (ErgoNode.History.addHeaderToBatch st.db)
          (ErgoNode.History.HeaderBatch.start st.db first.1) with
      | error error =>
          rw [Op.exec_bind_of_error (Op.exec_ofExcept _ st)]
          exact .inl rfl
      | ok acc =>
          rw [Op.exec_bind_of_ok (Op.exec_ofExcept _ st)]
          cases fails : Database.writeFails st.db.faults with
          | true =>
              rw [exec_selectChain_of_fails sr fails]
              exact .inr (.inl ⟨rfl, rfl⟩)
          | false =>
              rw [exec_selectChain sr fails]
              exact .inr (.inr ⟨rfl, chainSelected_faults ..⟩)

theorem batch_crashSafe (whole : Whole st) (items : List (Header × Bytes)) :
    CrashSafe sr st (.appendHeadersBatched items) := by
  have after (writes : Nat) := @Whole.appendHeadersBatched sr ⟨st.db.interrupted writes, st.mem⟩
    ⟨whole.sums, whole.best, whole.read⟩ items
  refine ⟨fun writes id => ((after writes).sums id).mp, fun writes id named => (after writes).best id ?_,
    fun writes cut => ?_⟩
  · rw [← (after writes).read]
    exact named
  · have kept : OnDatabase.crash ((HeaderCall.appendHeadersBatched items).exec sr) writes st = st.db.columns := by
      rcases @faults_appendHeadersBatched sr ⟨st.db.interrupted writes, st.mem⟩ items with same | ⟨-, refused⟩ | ⟨works, rest⟩
      · exact (congrArg (fun t : State => t.db.columns) same).trans rfl
      · exact (congrArg (fun t : State => t.db.columns) refused).trans rfl
      · have empty := rest.symm.trans cut
        cases writes with
        | zero => cases works
        | succ writes => simp [Database.interrupted, List.replicate_succ] at empty
    have start : startOn st.db.columns = ⟨⟨st.db.columns, []⟩, st.mem⟩ :=
      congrArg (OnDatabase.mk (⟨st.db.columns, []⟩ : Database)) whole.read
    rw [kept, start]
    rfl

end Batches

/-! ### Runs -/

theorem Whole.crashSafe_iff (whole : Whole st) : CrashSafe sr st call ↔ ¬ AddsSingly sr st call := by
  cases call with
  | appendHeader header => exact single_crashSafe_iff whole rfl
  | appendHeaderWithBytes header rawBytes => exact single_crashSafe_iff whole rfl
  | appendHeadersBatched items => exact iff_of_true (batch_crashSafe whole items) id

theorem Whole.step (whole : Whole st) (idle : ¬ AddsSingly sr st call) (taken : headerStep sr st call = some t) :
    Whole t := by
  cases taken
  have single {header : Header} {rawBytes : Option Bytes} (idle : ¬ AddsHeader sr st.db header rawBytes) :
      Whole ((ErgoNode.History.appendHeaderInternal sr header rawBytes).exec st).2 := by
    obtain ⟨result, same⟩ := exec_appendHeaderInternal_of_not_adds idle
    rw [same]
    exact whole
  cases call with
  | appendHeader header => exact single idle
  | appendHeaderWithBytes header rawBytes => exact single idle
  | appendHeadersBatched items => exact whole.appendHeadersBatched items

theorem Whole.crashes_iff {calls : List HeaderCall} (whole : Whole st) :
    Along (headerStep sr) (CrashSafe sr) st calls ↔
      Along (headerStep sr) (fun st call => ¬ AddsSingly sr st call) st calls := by
  have same {st : State} {call : HeaderCall} (whole : Whole st) (_ : True) :
      CrashSafe sr st call ↔ ¬ AddsSingly sr st call := whole.crashSafe_iff
  have preserved {st t : State} {call : HeaderCall} (whole : Whole st) (_ : True) (idle : ¬ AddsSingly sr st call)
      (taken : headerStep sr st call = some t) : Whole t := whole.step idle taken
  exact along_iff_along same preserved whole along_true

/-- Wherever a run of header calls is cut off, what is stored is whole and the interrupted call can be made
again, exactly when no header of the run is added on its own. -/
theorem headerCrashes_iff {calls : List HeaderCall} (whole : Whole st) :
    Along (headerStep sr) (CrashSafe sr) st calls ↔
      Along (headerStep sr) (fun st call => ¬ AddsSingly sr st call) st calls :=
  whole.crashes_iff

section Samples
open Sample

def noHeaders : State := ⟨.empty, ErgoNode.History.new⟩

theorem whole_noHeaders : Whole noHeaders where
  sums _ := ⟨fun held => absurd rfl held, fun held => absurd rfl held⟩
  best _ named := by cases named
  read := rfl

/-- Two headers in one batch, and the first of them again on its own. -/
theorem batch_then_known_crashSafe : Along (headerStep chainCodec) (CrashSafe chainCodec) noHeaders
    [.appendHeadersBatched [(header11, []), (header12, [0])], .appendHeader header11] := by
  refine (headerCrashes_iff whole_noHeaders).mpr ?_
  rw [along_cons]
  refine ⟨id, fun t taken => ?_⟩
  cases taken
  rw [along_cons]
  refine ⟨fun adds => ?_, fun t _ => along_nil⟩
  exact absurd adds.1 (by decide)

/-- A crash between the two writes of a header leaves it without a sum. -/
theorem single_header_not_crashSafe : Whole noHeaders ∧
    ¬ Along (headerStep chainCodec) (CrashSafe chainCodec) noHeaders [.appendHeader header11] := by
  refine ⟨whole_noHeaders, fun along => ?_⟩
  refine whole_noHeaders.crashSafe_iff.mp along.head ⟨by decide, by decide, [], ?_⟩
  rfl

end Samples

end ErgoNode.Proof.Manager
