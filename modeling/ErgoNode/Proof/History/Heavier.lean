import ErgoNode.Proof.History.Index

/-!
# The work of a header

A header adds work to its parent's as long as its target is not above the maximal one. The sums have a
base: up to height 2 a header counts on its own.
-/

namespace ErgoNode.Proof.History
open Lib

/-! ### Difficulties -/

theorem one_le_nbitsToDifficulty (nbits : UInt32) : 1 ≤ nbitsToDifficulty nbits ↔ nbitsToTarget nbits ≤ maxTarget := by
  have positive : 1 ≤ maxTarget := by decide +kernel
  simp only [nbitsToDifficulty]
  split
  case isTrue zero => simp [zero, positive]
  case isFalse nonzero =>
    rw [Nat.le_div_iff_mul_le (Nat.pos_of_ne_zero nonzero), Nat.one_mul]

theorem nbitsToDifficulty_anti {nbits nbits' : UInt32} (le : nbitsToTarget nbits ≤ nbitsToTarget nbits') :
    nbitsToDifficulty nbits' ≤ nbitsToDifficulty nbits := by
  have most : nbitsToDifficulty nbits' ≤ maxTarget := by
    simp only [nbitsToDifficulty]
    split
    · exact le_rfl
    · exact Nat.div_le_self ..
  by_cases zero : nbitsToTarget nbits = 0
  · have largest : nbitsToDifficulty nbits = maxTarget := by simp [nbitsToDifficulty, zero]
    rwa [largest]
  · have nonzero : nbitsToTarget nbits' ≠ 0 := by omega
    simp only [nbitsToDifficulty, if_neg zero, if_neg nonzero]
    exact Nat.div_le_div_left le (Nat.pos_of_ne_zero zero)

/-! ### The calls -/

/-- The cumulative difficulty of a stored header is above its stored parent's. -/
def ChildrenHeavier (table : HeaderTable) (st : State) : Prop :=
  ∀ id, stored st.db.columns id → stored st.db.columns (parent table id) →
    ∃ p c, cumulativeOf st.db.columns (parent table id) = some p ∧ cumulativeOf st.db.columns id = some c ∧ p < c

/-- Headers that count on their own have more work than the parents among them. -/
def BaseGrows (table : HeaderTable) (present : BlockId → Prop) : Prop :=
  ∀ id, present id → height table id ≤ 2 → present (parent table id) →
    height table (parent table id) ≤ 2 ∧ difficulty table (parent table id) < difficulty table id

structure AddsWork (table : HeaderTable) (st : State) (call : HistoryCall) : Prop where
  known : ∀ header ∈ call.headers, table.header header.id = header
  precede : ParentsPrecede (call.written st)
  parentFirst : call.ParentFirst st
  work : ∀ header ∈ call.headers, nbitsToTarget header.nBits ≤ maxTarget
  base : BaseGrows table fun id => stored st.db.columns id ∨ id ∈ call.headers.map Header.id

structure Growing (table : HeaderTable) (st : State) : Prop where
  summed : Summed table (stored st.db.columns) (cumulativeOf st.db.columns)
  work : ∀ {id}, stored st.db.columns id → 1 ≤ difficulty table id
  base : BaseGrows table (stored st.db.columns)

section Steps
variable {table : HeaderTable} {sr : SigmaRust} {st after : State} {call : HistoryCall}

theorem childrenHeavier_of_growing (growing : Growing table st) : ChildrenHeavier table st := by
  intro id here parentHere
  have own := growing.work here
  rcases Nat.lt_or_ge 2 (height table id) with high | low
  · obtain ⟨-, p, parentSum, sum⟩ := growing.summed.high here high
    exact ⟨p, _, parentSum, sum, by omega⟩
  · obtain ⟨parentLow, less⟩ := growing.base id here low parentHere
    exact ⟨_, _, growing.summed.low parentHere parentLow, growing.summed.low here low, less⟩

theorem stored_outcome {headers : List Header} (outcome : Outcome st after headers) {id : BlockId}
    (here : stored after.db.columns id) : stored st.db.columns id ∨ id ∈ headers.map Header.id := by
  rcases outcome with ⟨columns, -⟩ | ⟨first, rest, items, added, -, items_eq, batched, appended⟩
  · rw [columns] at here
    exact .inl here
  · refine ((stored_after appended.writes id).mp here).imp_right fun member => ?_
    obtain ⟨a, mem, rfl⟩ := List.mem_map.mp member
    have fresh : a.header ∈ freshHeaders st (items.map Prod.fst) := by
      rw [← batched_headers batched]
      exact List.mem_map_of_mem mem
    rw [← items_eq]
    exact List.mem_map_of_mem (List.mem_filter.mp fresh).1

theorem summed_historyStep (summed : Summed table (stored st.db.columns) (cumulativeOf st.db.columns))
    (adds : AddsWork table st call) (taken : historyStep sr st call = some after) :
    Summed table (stored after.db.columns) (cumulativeOf after.db.columns) ∧
      ∀ {id}, stored after.db.columns id → stored st.db.columns id ∨ id ∈ call.headers.map Header.id := by
  cases taken
  cases call with
  | header call =>
      have outcome := headerCall_outcome sr st call adds.parentFirst
      exact ⟨summed_call adds.known adds.precede outcome summed, stored_outcome outcome⟩
  | appendFullBlock block =>
      rcases appendFullBlock_summed sr summed (adds.known block.header List.mem_cons_self) adds.parentFirst with
        ⟨columns, -⟩ | ⟨headerBytes, cumulative, writes, -, summedAfter⟩
      · rw [← columns] at summed
        exact ⟨summed, fun here => .inl (columns ▸ here)⟩
      · exact ⟨summedAfter, (stored_after writes _).mp⟩

theorem growing_step (growing : Growing table st) (adds : AddsWork table st call)
    (taken : historyStep sr st call = some after) : Growing table after := by
  obtain ⟨summed, grown⟩ := summed_historyStep growing.summed adds taken
  refine ⟨summed, fun here => ?_, fun id here low parentHere => adds.base id (grown here) low (grown parentHere)⟩
  rcases grown here with before | new
  · exact growing.work before
  · obtain ⟨header, member, rfl⟩ := List.mem_map.mp new
    rw [difficulty, adds.known header member]
    exact (one_le_nbitsToDifficulty _).mpr (adds.work header member)

end Steps

theorem growing_empty (table : HeaderTable) (faults : List Bool) : Growing table (emptyHistory faults) where
  summed := summed_empty faults
  work here := absurd rfl here
  base _ here := absurd rfl here

/-! ### Runs -/

structure Among (table : HeaderTable) (listed : List BlockId) (st : State) (call : HistoryCall) : Prop where
  headers : ∀ header ∈ call.headers, table.header header.id = header ∧ nbitsToTarget header.nBits ≤ maxTarget ∧
    header.id ∈ listed
  precede : ParentsPrecede (call.written st)
  parentFirst : call.ParentFirst st

instance (table : HeaderTable) (listed : List BlockId) (st : State) (call : HistoryCall) :
    Decidable (Among table listed st call) :=
  decidable_of_iff ((∀ header ∈ call.headers, table.header header.id = header ∧
      nbitsToTarget header.nBits ≤ maxTarget ∧ header.id ∈ listed) ∧ ParentsPrecede (call.written st) ∧
      call.ParentFirst st)
    ⟨fun ⟨headers, precede, parentFirst⟩ => ⟨headers, precede, parentFirst⟩,
      fun among => ⟨among.headers, among.precede, among.parentFirst⟩⟩

theorem addsWork_of_among {table : HeaderTable} {sr : SigmaRust} {listed : List BlockId} {faults : List Bool}
    {calls : List HistoryCall} (base : BaseGrows table (· ∈ listed))
    (among : Along (historyStep sr) (Among table listed) (emptyHistory faults) calls) :
    Along (historyStep sr) (AddsWork table) (emptyHistory faults) calls := by
  have adds {st : State} {call : HistoryCall} (inside : ∀ {id}, stored st.db.columns id → id ∈ listed)
      (among : Among table listed st call) : AddsWork table st call := by
    have present : ∀ {id}, stored st.db.columns id ∨ id ∈ call.headers.map Header.id → id ∈ listed := by
      rintro id (before | new)
      · exact inside before
      · obtain ⟨header, member, rfl⟩ := List.mem_map.mp new
        exact (among.headers header member).2.2
    exact ⟨fun header member => (among.headers header member).1, among.precede, among.parentFirst,
      fun header member => (among.headers header member).2.1,
      fun id here low parentHere => base id (present here) low (present parentHere)⟩
  have always := among.invariant (fun st => Growing table st ∧ ∀ {id}, stored st.db.columns id → id ∈ listed)
    (by
      rintro st call after ⟨growing, inside⟩ among taken
      have now := adds inside among
      refine ⟨growing_step growing now taken, fun here => ?_⟩
      rcases (summed_historyStep growing.summed now taken).2 here with before | new
      · exact inside before
      · obtain ⟨header, member, rfl⟩ := List.mem_map.mp new
        exact (among.headers header member).2.2)
    ⟨growing_empty table faults, fun here => absurd rfl here⟩
  intro before call prefixed st ran
  have visited := always st ⟨before, (List.prefix_append before [call]).trans prefixed, ran⟩
  exact adds visited.2 (among before call prefixed st ran)

theorem difficulty_adds_work (nbits nbits' : UInt32) (table : HeaderTable) (sr : SigmaRust) (faults : List Bool)
    (calls : List HistoryCall) :
    (1 ≤ nbitsToDifficulty nbits ↔ nbitsToTarget nbits ≤ maxTarget) ∧
      (nbitsToTarget nbits ≤ nbitsToTarget nbits' → nbitsToDifficulty nbits' ≤ nbitsToDifficulty nbits) ∧
      (Along (historyStep sr) (AddsWork table) (emptyHistory faults) calls →
        Always (historyStep sr) (ChildrenHeavier table) (emptyHistory faults) calls) := by
  refine ⟨one_le_nbitsToDifficulty nbits, nbitsToDifficulty_anti, fun adds => ?_⟩
  intro st visited
  exact childrenHeavier_of_growing (adds.invariant (Growing table) growing_step (growing_empty table faults) st visited)

def rootlessCalls : List HistoryCall :=
  [.header (.appendHeadersBatched [(Sample.header12, [1]), (Sample.header13, [2])]),
    .appendFullBlock (Sample.sampleBlock Sample.header22), .header (.appendHeader Sample.header23)]

theorem rootlessCalls_childrenHeavier : Always (historyStep Sample.chainCodec)
    (ChildrenHeavier sampleTree.toHeaderTable) (emptyHistory []) rootlessCalls := by
  have base : BaseGrows sampleTree.toHeaderTable
      (· ∈ [Sample.header12, Sample.header13, Sample.header22, Sample.header23].map Header.id) := by
    unfold BaseGrows
    decide
  exact (difficulty_adds_work 0 0 _ _ _ _).2.2 (addsWork_of_among base (by decide +kernel))

def idleHeader : Header := Sample.sampleHeader 14 12 3 0x22010000

def idleTable : HeaderTable where
  header id := if id = idleHeader.id then idleHeader else sampleHeaderOf id
  id_header id := by
    split
    · next same => exact same.symm
    · exact (sampleHeaderOf_cases id).2

def idleCalls : List HistoryCall :=
  [.header (.appendHeaderWithBytes Sample.header12 [1]), .header (.appendHeaderWithBytes idleHeader [2])]

theorem idleCalls_not_childrenHeavier : nbitsToDifficulty idleHeader.nBits = 0 ∧
    ¬ Always (historyStep Sample.chainCodec) (ChildrenHeavier idleTable) (emptyHistory []) idleCalls := by
  refine ⟨by decide +kernel, fun always => ?_⟩
  obtain ⟨p, c, parentSum, sum, less⟩ := always _ ⟨idleCalls, List.prefix_rfl, rfl⟩ (.filled 14)
    (by decide +kernel) (by decide +kernel)
  have two : some p = some 2 := parentSum.symm.trans (by decide +kernel)
  have same : some c = some 2 := sum.symm.trans (by decide +kernel)
  cases two
  cases same
  exact Nat.lt_irrefl 2 less

end ErgoNode.Proof.History
