import ErgoNode.Proof.History.Block
import ErgoNode.Proof.History.Sums

/-!
# How a call grows the history

With the sums in order, a call adds its new headers to the store and to the height index, and
compares the work of the last one with the best header's.
-/

namespace ErgoNode.Proof.History
open Lib

theorem Summed.eq_work {tree : HeaderTree} {present : BlockId → Prop} {cumulative : BlockId → Option Nat}
    (summed : Summed tree.toHeaderTable present cumulative) {id : BlockId} (here : present id) :
    cumulative id = some (tree.workAboveRoot id) := by
  induction same : height tree.toHeaderTable id using Nat.strong_induction_on generalizing id with
  | _ n ih =>
      rcases Nat.lt_or_ge 2 (height tree.toHeaderTable id) with high | low
      · have below := tree.height_parent id (by omega)
        obtain ⟨parentHere, c, found, sum⟩ := summed.high here high
        rw [ih _ (by omega) parentHere rfl] at found
        cases found
        rw [sum, HeaderTree.workAboveRoot_of_high high, Nat.add_comm]
      · rw [summed.low here low, HeaderTree.workAboveRoot_of_low low]

/-! ### Full blocks -/

theorem block_writes (block : FullBlock) (before : Columns) (history : ErgoNode.History)
    (headerBytes : Bytes) (txs : Bytes) (cumulative : Nat) :
    Writes before (before.write (History.putBestBlock history (blockOps block headerBytes txs cumulative)
      block.id block.height cumulative)) [⟨block.header, headerBytes, cumulative⟩] := by
  apply writes_of_column
  intro cf known
  have other : .metadata ≠ cf := by
    rintro rfl
    simp [HeaderColumn] at known
  rw [putBestBlock_column other, blockOps, batchColumn_append]
  rcases known with rfl | rfl | rfl <;> cases block.adProofs <;>
    simp [Added.ops, batchColumn_cons_of_ne, FullBlock.id, FullBlock.height]

theorem appendFullBlock_summed {table : HeaderTable} {st : State} (sr : SigmaRust) {block : FullBlock}
    (summed : Summed table (stored st.db.columns) (cumulativeOf st.db.columns))
    (known : table.header block.header.id = block.header)
    (parentFirst : 2 < block.header.height → HeaderStore.contains st.db block.header.parentId = true) :
    let after := ((History.appendFullBlock sr block).exec st).2
    Unchanged st after ∨ ∃ headerBytes cumulative,
      Writes st.db.columns after.db.columns [⟨block.header, headerBytes, cumulative⟩] ∧
      after.mem = st.mem.withBestBlock block.id block.height cumulative ∧
      Summed table (stored after.db.columns) (cumulativeOf after.db.columns) := by
  intro after
  rcases ran : (History.appendFullBlock sr block).exec st with ⟨error | selection, final⟩
  · obtain rfl : after = final := congrArg Prod.snd ran
    exact .inl (appendFullBlock_eq_error ran)
  · obtain rfl : after = final := congrArg Prod.snd ran
    obtain ⟨batch, cumulative, built, columns, mem⟩ := appendFullBlock_eq_ok ran
    obtain ⟨headerBytes, txs, -, -, sum, rfl⟩ := addBlockToBatch_eq_ok.mp built
    have writes := block_writes block st.db.columns st.mem headerBytes txs cumulative
    rw [← List.nil_append (blockOps block headerBytes txs cumulative), ← columns] at writes
    have level : height table block.header.id = block.header.height := by rw [height, known]
    have own : difficulty table block.header.id = nbitsToDifficulty block.header.nBits := by
      rw [difficulty, known]
    refine .inr ⟨headerBytes, cumulative, writes, mem, ?_⟩
    have added := summed.add block.header.id cumulative
      (by
        intro low
        rw [sum, own, History.parentCumulative, if_pos (level ▸ low), Nat.zero_add])
      (by
        intro high
        have here := (contains_iff _ _).mp (parentFirst (level ▸ high))
        obtain ⟨c, found⟩ := summed.exists here
        have read : History.getCumulativeDifficulty st.db block.header.parentId = some c := found
        rw [parent, known]
        refine ⟨here, c, found, ?_⟩
        rw [sum, own, History.parentCumulative, if_neg (Nat.not_le.mpr (level ▸ high)), read]
        rfl)
    have columnsNow : cumulativeOf after.db.columns =
        Function.update (cumulativeOf st.db.columns) block.header.id (some cumulative) :=
      funext (congrFun writes.cumulative)
    have presentNow : stored after.db.columns = fun other => stored st.db.columns other ∨ other = block.header.id :=
      funext fun id => propext (by rw [stored_after writes, presentAfter]; simp [ids])
    rw [columnsNow, presentNow]
    exact added

/-! ### The best header -/

def bestHeader (history : ErgoNode.History) : Option BlockId × Nat × Nat :=
  (history.bestHeaderId, history.bestHeight, history.bestCumulativeDifficulty)

theorem bestHeader_withBestBlock (history : ErgoNode.History) (id : BlockId) (height cumulative : Nat) :
    bestHeader (history.withBestBlock id height cumulative) =
      if cumulative > history.bestCumulativeDifficulty then (some id, height, cumulative)
      else bestHeader history := by
  rw [History.withBestBlock]
  split <;> split <;> rfl

def bestAfter (tree : HeaderTree) (history : ErgoNode.History) : Option Header → Option BlockId × Nat × Nat
  | none => bestHeader history
  | some last =>
      if tree.workAboveRoot last.id > history.bestCumulativeDifficulty then
        (some last.id, last.height, tree.workAboveRoot last.id)
      else bestHeader history

structure Growth (tree : HeaderTree) (before after : State) (fresh : List Header) : Prop where
  stored : ∀ id, stored after.db.columns id ↔
    stored before.db.columns id ∨ id ∈ fresh.map Header.id
  index : after.db.columns.column .headerChain =
    (before.db.columns.column .headerChain).write (puts Header.height Header.id fresh)
  best : bestHeader after.mem = bestAfter tree before.mem fresh.getLast?

section Growth
variable {tree : HeaderTree} {st after : State} {call : HeaderCall}

def ParentsBounded (tree : HeaderTree) (st : State) : Prop :=
  ∀ id, stored st.db.columns id → 2 < height tree.toHeaderTable id →
    tree.workAboveRoot (parent tree.toHeaderTable id) ≤ st.mem.bestCumulativeDifficulty

theorem parentCumulative_eq
    (summed : Summed tree.toHeaderTable (stored st.db.columns) (cumulativeOf st.db.columns))
    {header : Header} (known : tree.header header.id = header) (low : 2 < header.height)
    (here : stored st.db.columns header.parentId) :
    History.parentCumulative st.db header = tree.workAboveRoot (parent tree.toHeaderTable header.id) := by
  have read : History.getCumulativeDifficulty st.db header.parentId =
      some (tree.workAboveRoot header.parentId) := summed.eq_work here
  rw [History.parentCumulative, if_neg (Nat.not_le.mpr low), read, parent, known]
  rfl

theorem parentCumulative_le
    (summed : Summed tree.toHeaderTable (stored st.db.columns) (cumulativeOf st.db.columns))
    (bounded : ParentsBounded tree st) {header : Header} (known : tree.header header.id = header)
    (here : stored st.db.columns header.id) :
    History.parentCumulative st.db header ≤ st.mem.bestCumulativeDifficulty := by
  have tall : height tree.toHeaderTable header.id = header.height := by rw [height, known]
  rcases Nat.lt_or_ge 2 header.height with high | low
  · have parentHere := (summed.high here (tall.symm ▸ high)).1
    rw [parent, known] at parentHere
    rw [parentCumulative_eq summed known high parentHere]
    exact bounded header.id here (tall.symm ▸ high)
  · rw [History.parentCumulative, if_pos low]
    exact Nat.zero_le _

theorem ids_eq_fresh {start : Nat} {items : List (Header × Bytes)} {added : List Added}
    (batched : Batched st.db start items added) :
    ids added = (freshHeaders st (items.map Prod.fst)).map Header.id := by
  rw [← batched_headers batched, List.map_map]
  rfl

theorem stored_of_none_added {start : Nat} {items : List (Header × Bytes)} {item : Header × Bytes}
    (batched : Batched st.db start items []) (member : item ∈ items) : stored st.db.columns item.1.id := by
  rw [← contains_iff]
  by_contra new
  have fresh : item ∈ items.filter fun item => !HeaderStore.contains st.db item.1.id :=
    List.mem_filter.mpr ⟨member, by simpa using new⟩
  rw [← batched.fresh] at fresh
  cases fresh

theorem final_stored {first : Header × Bytes} {rest : List (Header × Bytes)} {added : List Added} {start : Nat}
    (batched : Batched st.db start (first :: rest) added) (writes : Writes st.db.columns after.db.columns added) :
    ∃ header ∈ (first :: rest).map Prod.fst, stored after.db.columns header.id ∧
      ((added.getLast?).map (·.header.id)).getD first.1.id = header.id ∧
      ((added.getLast?).map (·.header.height)).getD first.1.height = header.height := by
  cases final : added.getLast? with
  | none =>
      obtain rfl := List.getLast?_eq_none_iff.mp final
      refine ⟨first.1, by simp, ?_, rfl, rfl⟩
      exact (stored_after writes _).mpr (.inl (stored_of_none_added batched List.mem_cons_self))
  | some last =>
      have member : last ∈ added := List.mem_of_getLast? final
      have fresh : (last.header, last.rawBytes) ∈ (first :: rest).filter fun item =>
          !HeaderStore.contains st.db item.1.id := by
        rw [← batched.fresh]
        exact List.mem_map_of_mem member
      exact ⟨last.header, List.mem_map_of_mem (List.mem_filter.mp fresh).1,
        (stored_after writes _).mpr (.inr (List.mem_map_of_mem member)), rfl, rfl⟩

/-- What the last header is compared with is the work of its chain. -/
theorem total_eq_work {start : Nat} {added : List Added} {a : Added}
    (summedAfter : Summed tree.toHeaderTable (stored after.db.columns) (cumulativeOf after.db.columns))
    (writes : Writes st.db.columns after.db.columns added) (final : added.getLast? = some a) :
    total start added = tree.workAboveRoot a.header.id := by
  have here : stored after.db.columns a.header.id :=
    (stored_after writes _).mpr (.inr (List.mem_map_of_mem (List.mem_of_getLast? final)))
  have sum := summedAfter.eq_work here
  have last : added.getLast?.map (·.header.id) = some a.header.id := by rw [final]; rfl
  have column : cumulativeOf after.db.columns = cumulativeAfter st added := funext (congrFun writes.cumulative)
  rw [column, cumulativeAfter_last st start last] at sum
  exact Option.some.inj sum

theorem header_growth
    (summed : Summed tree.toHeaderTable (stored st.db.columns) (cumulativeOf st.db.columns))
    (bounded : ParentsBounded tree st) (ordered : Ordered tree.toHeaderTable st call)
    (outcome : Outcome st after call.headers) :
    Unchanged st after ∨ Growth tree st after (freshHeaders st call.headers) := by
  have summedAfter := summed_call ordered.known ordered.precede outcome summed
  rcases outcome with unchanged | ⟨first, rest, items, added, headers, items_eq, batched, appended⟩
  · exact .inl unchanged
  · right
    have fresh := batched_headers batched
    rw [items_eq] at fresh
    have known := ids_eq_fresh batched
    rw [items_eq] at known
    refine ⟨fun id => ?_, ?_, ?_⟩
    · rw [stored_after appended.writes, presentAfter, known]
    · rw [appended.writes.chain, ← fresh, puts, puts, List.map_map]
      rfl
    · rw [← fresh, List.getLast?_map]
      cases final : added.getLast? with
      | none =>
          -- all headers are stored: the first one's parent is compared
          have empty : added = [] := List.getLast?_eq_none_iff.mp final
          rw [empty] at batched
          have listed : first ∈ items.map Prod.fst := by rw [items_eq, headers]; exact List.mem_cons_self
          obtain ⟨item, member, rfl⟩ := List.mem_map.mp listed
          have le := parentCumulative_le summed bounded (ordered.known item.1 (by simp [headers]))
            (stored_of_none_added batched member)
          rw [appended.best, empty, if_neg (by simpa [total] using le)]
          rfl
      | some a =>
          rw [appended.best, final, total_eq_work summedAfter appended.writes final]
          simp only [Option.map_some, bestAfter]
          by_cases heavier : tree.workAboveRoot a.header.id > st.mem.bestCumulativeDifficulty
          · rw [if_pos heavier, if_pos heavier]
            rfl
          · rw [if_neg heavier, if_neg heavier]

end Growth

end ErgoNode.Proof.History
