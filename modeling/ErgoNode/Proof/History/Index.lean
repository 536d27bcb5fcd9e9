import ErgoNode.Proof.History.Growth
import Mathlib.Data.List.Chain

/-!
# The height index

The index has one slot for each height, and every header that is written takes the slot of its
height, on whatever branch it is. The slots hold the best header's ancestors as long as the headers
of a call are one path that either ends in the new best header, on top of its ancestors' slots, or
leaves the slots up to the best height as they are.
-/

namespace ErgoNode.Proof.History
open Lib

inductive HistoryCall where
  | header (call : HeaderCall)
  | appendFullBlock (block : FullBlock)

namespace HistoryCall

def exec (sr : SigmaRust) : HistoryCall → Op State StateError ChainSelection
  | .header call => call.exec sr
  | .appendFullBlock block => History.appendFullBlock sr block

def headers : HistoryCall → List Header
  | .header call => call.headers
  | .appendFullBlock block => [block.header]

/-- A block's header is written even if it is stored. -/
def written (st : State) : HistoryCall → List Header
  | .header call => freshHeaders st call.headers
  | .appendFullBlock block => [block.header]

/-- The header calls check that parents come first; for a block the caller sees to it. -/
def ParentFirst (st : State) : HistoryCall → Prop
  | .header call => call.WritesTogether st
  | .appendFullBlock block =>
      2 < block.header.height → HeaderStore.contains st.db block.header.parentId = true

instance (st : State) : (call : HistoryCall) → Decidable (call.ParentFirst st)
  | .header call => inferInstanceAs (Decidable (call.WritesTogether st))
  | .appendFullBlock _ => inferInstanceAs (Decidable (_ → _))

end HistoryCall

def historyStep (sr : SigmaRust) (st : State) (call : HistoryCall) : Option State :=
  some ((call.exec sr).exec st).2

def slot (columns : Columns) (height : Nat) : Option BlockId := columns.column .headerChain height

/-- From the lowest stored header up to the best one, the index holds the best header's ancestors. -/
def IndexHolds (tree : HeaderTree) (st : State) : Prop :=
  ∀ ⦃best id h⦄, st.mem.bestHeaderId = some best → stored st.db.columns id →
    height tree.toHeaderTable id ≤ h → h ≤ st.mem.bestHeight →
      slot st.db.columns h = some (tree.ancestor (st.mem.bestHeight - h) best)

def IsPath (headers : List Header) : Prop :=
  headers.IsChain fun lower upper => upper.parentId = lower.id

instance (headers : List Header) : Decidable (IsPath headers) :=
  inferInstanceAs (Decidable (List.IsChain _ _))

/-- A path that ends in the new best header needs its ancestors in the slots below it; any other
path must not change a slot up to the best height. -/
def SlotsFit (tree : HeaderTree) (st : State) (written : List Header) (last : Header) : Prop :=
  if st.mem.bestCumulativeDifficulty < tree.workAboveRoot last.id then
    ∀ first ∈ written.head?, ∀ h < first.height, ∀ id ∈ slot st.db.columns h,
      id = tree.ancestor (last.height - h) last.id
  else ∀ header ∈ written,
    st.mem.bestHeight < header.height ∨ slot st.db.columns header.height = some header.id

instance (tree : HeaderTree) (st : State) (written : List Header) (last : Header) :
    Decidable (SlotsFit tree st written last) :=
  inferInstanceAs (Decidable (ite _ _ _))

structure KeepsIndex (tree : HeaderTree) (st : State) (call : HistoryCall) : Prop where
  known : ∀ header ∈ call.headers, tree.header header.id = header
  positive : ∀ header ∈ call.headers, 0 < header.height
  parentFirst : call.ParentFirst st
  path : IsPath (call.written st)
  slots : ∀ last ∈ (call.written st).getLast?, SlotsFit tree st (call.written st) last

instance (tree : HeaderTree) (st : State) (call : HistoryCall) : Decidable (KeepsIndex tree st call) :=
  decidable_of_iff ((∀ header ∈ call.headers, tree.header header.id = header) ∧
      (∀ header ∈ call.headers, 0 < header.height) ∧ call.ParentFirst st ∧ IsPath (call.written st) ∧
      ∀ last ∈ (call.written st).getLast?, SlotsFit tree st (call.written st) last)
    ⟨fun ⟨known, positive, parentFirst, path, slots⟩ => ⟨known, positive, parentFirst, path, slots⟩,
      fun keeps => ⟨keeps.known, keeps.positive, keeps.parentFirst, keeps.path, keeps.slots⟩⟩

/-! ### Paths -/

section Path
variable {tree : HeaderTree} {headers before : List Header} {last : Header}

theorem parentsPrecede_of_isPath (path : IsPath headers) : ParentsPrecede headers := by
  intro i _ inBatch
  obtain ⟨_, lower, same⟩ := List.mem_map.mp inBatch
  obtain ⟨last, final⟩ : ∃ last, (headers.take i).getLast? = some last := by
    exact Option.isSome_iff_exists.mp (List.getLast?_isSome.mpr (List.ne_nil_of_mem lower))
  have split : headers = headers.take i ++ headers.get i :: headers.drop (i + 1) := by
    rw [List.get_eq_getElem, List.getElem_cons_drop, List.take_append_drop]
  rw [IsPath, split, List.isChain_append] at path
  rw [final, path.2.2 last final (headers.get i) rfl]
  rfl

theorem ancestor_parent (header : Header) (known : tree.header header.id = header) (n : Nat) :
    tree.ancestor (n + 1) header.id = tree.ancestor n header.parentId := by
  rw [HeaderTree.ancestor, Function.iterate_succ_apply, parent, known]
  rfl

theorem height_of_known {header : Header} (known : tree.header header.id = header) :
    height tree.toHeaderTable header.id = header.height := by
  rw [height, known]

theorem height_child {lower upper : Header} (knownLower : tree.header lower.id = lower)
    (knownUpper : tree.header upper.id = upper) (positive : 0 < upper.height)
    (child : upper.parentId = lower.id) : upper.height = lower.height + 1 := by
  have below := tree.height_parent upper.id (height_of_known knownUpper ▸ positive)
  rw [parent, knownUpper, child, height_of_known knownLower, height_of_known knownUpper] at below
  exact below.symm

structure Ancestry (tree : HeaderTree) (headers : List Header) (last : Header) : Prop where
  ancestor : ∀ header ∈ headers, header.height ≤ last.height ∧
    header.id = tree.ancestor (last.height - header.height) last.id
  filled : ∀ first ∈ headers.head?, ∀ h, first.height ≤ h → h ≤ last.height →
    ∃ header ∈ headers, header.height = h

theorem ancestry_of_isPath (path : IsPath headers)
    (known : ∀ header ∈ headers, tree.header header.id = header)
    (positive : ∀ header ∈ headers, 0 < header.height) (final : headers.getLast? = some last) :
    Ancestry tree headers last := by
  induction headers using List.reverseRecOn generalizing last with
  | nil => simp at final
  | append_singleton before top ih =>
      obtain rfl : top = last := by simpa using final
      cases lowerFinal : before.getLast? with
      | none =>
          obtain rfl := List.getLast?_eq_none_iff.mp lowerFinal
          constructor
          · intro header member
            obtain rfl : header = top := by simpa using member
            rw [Nat.sub_self]
            exact ⟨le_rfl, rfl⟩
          · intro first isFirst h low high
            obtain rfl : top = first := by simpa using isFirst
            exact ⟨top, by simp, by omega⟩
      | some lower =>
          have inBefore : lower ∈ before := List.mem_of_getLast? lowerFinal
          rw [IsPath, List.isChain_append] at path
          have child := path.2.2 lower lowerFinal top rfl
          have knownTop := known top (by simp)
          have up := height_child (known lower (List.mem_append_left _ inBefore)) knownTop
            (positive top (by simp)) child
          have below := ih path.1 (fun header member => known header (List.mem_append_left _ member))
            (fun header member => positive header (List.mem_append_left _ member)) lowerFinal
          constructor
          · intro header member
            rcases List.mem_append.mp member with earlier | same
            · obtain ⟨le, ancestor⟩ := below.ancestor header earlier
              refine ⟨by omega, ?_⟩
              rw [up, Nat.sub_add_comm le, ancestor_parent top knownTop, child]
              exact ancestor
            · obtain rfl : header = top := by simpa using same
              rw [Nat.sub_self]
              exact ⟨le_rfl, rfl⟩
          · intro first isFirst h low high
            have firstBefore : first ∈ before.head? := by
              obtain ⟨x, rest, rfl⟩ := List.exists_cons_of_ne_nil (List.ne_nil_of_mem inBefore)
              simpa using isFirst
            rcases Nat.lt_or_ge lower.height h with above | within
            · exact ⟨top, by simp, by omega⟩
            · obtain ⟨header, member, same⟩ := below.filled first firstBefore h low within
              exact ⟨header, List.mem_append_left _ member, same⟩

end Path

/-! ### One call -/

/-- What holds beside the index: the sums, the best header's height and sum, and that the slots hold
stored headers of their heights. -/
structure Indexed (tree : HeaderTree) (st : State) : Prop where
  summed : Summed tree.toHeaderTable (stored st.db.columns) (cumulativeOf st.db.columns)
  positive : ∀ {id}, stored st.db.columns id → 0 < height tree.toHeaderTable id
  bounded : ∀ {id}, stored st.db.columns id → 2 ≤ height tree.toHeaderTable id →
    tree.workAboveRoot id ≤ st.mem.bestCumulativeDifficulty
  best : ∀ {id}, st.mem.bestHeaderId = some id →
    stored st.db.columns id ∧ st.mem.bestHeight = height tree.toHeaderTable id
  slots : ∀ {h id}, slot st.db.columns h = some id →
    stored st.db.columns id ∧ height tree.toHeaderTable id = h
  occupied : ∀ {id}, stored st.db.columns id →
    slot st.db.columns (height tree.toHeaderTable id) ≠ none
  ancestors : ∀ {best}, st.mem.bestHeaderId = some best → ∀ {h id}, h ≤ st.mem.bestHeight →
    slot st.db.columns h = some id → id = tree.ancestor (st.mem.bestHeight - h) best

section Step
variable {tree : HeaderTree} {sr : SigmaRust} {st after : State} {call : HistoryCall}
variable {written : List Header} {last : Header}

theorem indexed_empty (tree : HeaderTree) (faults : List Bool) : Indexed tree (emptyHistory faults) where
  summed := summed_empty faults
  positive here := absurd rfl here
  bounded here := absurd rfl here
  best none := nomatch none
  slots none := nomatch none
  occupied here := absurd rfl here
  ancestors none := nomatch none

theorem stored_ancestor (indexed : Indexed tree st) {n : Nat} : ∀ {id}, stored st.db.columns id →
    n + 2 ≤ height tree.toHeaderTable id → stored st.db.columns (tree.ancestor n id) ∧
      height tree.toHeaderTable (tree.ancestor n id) + n = height tree.toHeaderTable id := by
  induction n with
  | zero => exact fun here _ => ⟨here, rfl⟩
  | succ n ih =>
      intro id here high
      have below := tree.height_parent id (by omega)
      obtain ⟨stored, same⟩ := ih (indexed.summed.high here (by omega)).1 (by omega)
      rw [HeaderTree.ancestor, Function.iterate_succ_apply]
      exact ⟨stored, by rw [← HeaderTree.ancestor, ← Nat.add_assoc, same, below]⟩

theorem indexHolds_of_indexed (indexed : Indexed tree st) : IndexHolds tree st := by
  intro best id h isBest here low high
  obtain ⟨bestStored, bestHeight⟩ := indexed.best isBest
  have full : slot st.db.columns h ≠ none := by
    rcases Nat.lt_or_ge h 2 with root | above
    · -- the lowest stored header has height 1 itself
      have positive := indexed.positive here
      have one : h = height tree.toHeaderTable id := by omega
      rw [one]
      exact indexed.occupied here
    · obtain ⟨ancestorStored, same⟩ := stored_ancestor indexed (n := st.mem.bestHeight - h) bestStored
        (by omega)
      have level : height tree.toHeaderTable (tree.ancestor (st.mem.bestHeight - h) best) = h := by omega
      rw [← level]
      exact indexed.occupied ancestorStored
  obtain ⟨found, there⟩ := Option.ne_none_iff_exists'.mp full
  rw [there, indexed.ancestors isBest high there]

theorem parentsBounded_of_indexed (indexed : Indexed tree st) : ParentsBounded tree st := by
  intro id here high
  have below := tree.height_parent id (by omega)
  exact indexed.bounded (indexed.summed.high here high).1 (by omega)

theorem slot_growth (growth : Growth tree st after written) (h : Nat) :
    (∃ header ∈ written, header.height = h ∧ slot after.db.columns h = some header.id) ∨
      ((∀ header ∈ written, header.height ≠ h) ∧ slot after.db.columns h = slot st.db.columns h) := by
  rw [slot, growth.index]
  by_cases member : h ∈ written.map Header.height
  · left
    exact Store.exists_of_write_puts _ _ member
  · right
    exact ⟨fun header there same => member (same ▸ List.mem_map_of_mem there),
      Store.write_puts_of_not_mem _ _ member⟩

theorem slots_growth (indexed : Indexed tree st) (growth : Growth tree st after written)
    (known : ∀ header ∈ written, tree.header header.id = header) {h : Nat} {id : BlockId}
    (there : slot after.db.columns h = some id) :
    stored after.db.columns id ∧ height tree.toHeaderTable id = h := by
  rw [growth.stored]
  rcases slot_growth growth h with ⟨header, member, rfl, now⟩ | ⟨-, kept⟩
  · obtain rfl : header.id = id := by simpa [now] using there
    exact ⟨.inr (List.mem_map_of_mem member), height_of_known (known header member)⟩
  · obtain ⟨here, same⟩ := indexed.slots (kept ▸ there)
    exact ⟨.inl here, same⟩

theorem occupied_growth (indexed : Indexed tree st) (growth : Growth tree st after written)
    (known : ∀ header ∈ written, tree.header header.id = header) {id : BlockId}
    (here : stored after.db.columns id) : slot after.db.columns (height tree.toHeaderTable id) ≠ none := by
  rcases slot_growth growth (height tree.toHeaderTable id) with ⟨_, -, -, now⟩ | ⟨others, kept⟩
  · simp [now]
  · rw [kept]
    rcases (growth.stored id).mp here with old | new
    · exact indexed.occupied old
    · obtain ⟨header, member, rfl⟩ := List.mem_map.mp new
      exact absurd (height_of_known (known header member)).symm (others header member)

/-- The new best header's ancestors are on its path, and below the path in the slots it found. -/
theorem ancestors_won (growth : Growth tree st after written) (ancestry : Ancestry tree written last)
    (nonempty : written ≠ []) (below : ∀ first ∈ written.head?, ∀ h < first.height,
      ∀ id ∈ slot st.db.columns h, id = tree.ancestor (last.height - h) last.id)
    {h : Nat} {id : BlockId} (high : h ≤ last.height) (there : slot after.db.columns h = some id) :
    id = tree.ancestor (last.height - h) last.id := by
  rcases slot_growth growth h with ⟨header, member, rfl, now⟩ | ⟨others, kept⟩
  · obtain rfl : header.id = id := by simpa [now] using there
    exact (ancestry.ancestor header member).2
  · obtain ⟨first, rest, rfl⟩ := List.exists_cons_of_ne_nil nonempty
    apply below first rfl h _ id (kept ▸ there)
    by_contra low
    obtain ⟨header, member, same⟩ := ancestry.filled first rfl h (Nat.not_lt.mp low) high
    exact others header member same

theorem slot_lost (growth : Growth tree st after written) (fits : ∀ header ∈ written,
      st.mem.bestHeight < header.height ∨ slot st.db.columns header.height = some header.id)
    {h : Nat} (low : h ≤ st.mem.bestHeight) : slot after.db.columns h = slot st.db.columns h := by
  rcases slot_growth growth h with ⟨header, member, rfl, now⟩ | ⟨-, kept⟩
  · rw [now, (fits header member).resolve_left (Nat.not_lt.mpr low)]
  · exact kept

theorem work_le_last (ancestry : Ancestry tree written last) (knownLast : tree.header last.id = last)
    (known : ∀ header ∈ written, tree.header header.id = header) {header : Header} (member : header ∈ written)
    (high : 2 ≤ height tree.toHeaderTable header.id) :
    tree.workAboveRoot header.id ≤ tree.workAboveRoot last.id := by
  obtain ⟨le, same⟩ := ancestry.ancestor header member
  rw [height_of_known (known header member)] at high
  rw [same]
  exact HeaderTree.workAboveRoot_ancestor_le (by rw [height_of_known knownLast]; omega)

theorem positive_growth (indexed : Indexed tree st) (growth : Growth tree st after written)
    (known : ∀ header ∈ written, tree.header header.id = header)
    (positive : ∀ header ∈ written, 0 < header.height) {id : BlockId} (here : stored after.db.columns id) :
    0 < height tree.toHeaderTable id := by
  rcases (growth.stored id).mp here with old | new
  · exact indexed.positive old
  · obtain ⟨header, member, rfl⟩ := List.mem_map.mp new
    rw [height_of_known (known header member)]
    exact positive header member

theorem work_le_growth (indexed : Indexed tree st) (growth : Growth tree st after written) {bound : Nat}
    (old : st.mem.bestCumulativeDifficulty ≤ bound)
    (new : ∀ header ∈ written, 2 ≤ height tree.toHeaderTable header.id → tree.workAboveRoot header.id ≤ bound)
    {id : BlockId} (here : stored after.db.columns id) (high : 2 ≤ height tree.toHeaderTable id) :
    tree.workAboveRoot id ≤ bound := by
  rcases (growth.stored id).mp here with before | added
  · exact (indexed.bounded before high).trans old
  · obtain ⟨header, member, rfl⟩ := List.mem_map.mp added
    exact new header member high

theorem indexed_won (indexed : Indexed tree st) (growth : Growth tree st after written)
    (summed : Summed tree.toHeaderTable (stored after.db.columns) (cumulativeOf after.db.columns))
    (known : ∀ header ∈ written, tree.header header.id = header)
    (positive : ∀ header ∈ written, 0 < header.height) (path : IsPath written)
    (final : last ∈ written.getLast?) (heavier : st.mem.bestCumulativeDifficulty < tree.workAboveRoot last.id)
    (fits : SlotsFit tree st written last) : Indexed tree after := by
  have member : last ∈ written := List.mem_of_getLast? final
  have ancestry := ancestry_of_isPath path known positive final
  rw [SlotsFit, if_pos heavier] at fits
  have best := growth.best
  rw [Option.mem_def.mp final, bestAfter, if_pos heavier] at best
  simp only [bestHeader, Prod.mk.injEq] at best
  obtain ⟨bestId, bestHeight, bestSum⟩ := best
  refine ⟨summed, positive_growth indexed growth known positive, ?_, ?_, slots_growth indexed growth known,
    occupied_growth indexed growth known, ?_⟩
  · rw [bestSum]
    exact work_le_growth indexed growth heavier.le fun header there high =>
      work_le_last ancestry (known last member) known there high
  · intro id isBest
    obtain rfl : last.id = id := by simpa [bestId] using isBest
    rw [growth.stored, bestHeight]
    exact ⟨.inr (List.mem_map_of_mem member), (height_of_known (known last member)).symm⟩
  · intro id isBest h other low there
    obtain rfl : last.id = id := by simpa [bestId] using isBest
    rw [bestHeight] at low ⊢
    exact ancestors_won growth ancestry (List.ne_nil_of_mem member) fits low there

theorem indexed_lost (indexed : Indexed tree st) (growth : Growth tree st after written)
    (summed : Summed tree.toHeaderTable (stored after.db.columns) (cumulativeOf after.db.columns))
    (known : ∀ header ∈ written, tree.header header.id = header)
    (positive : ∀ header ∈ written, 0 < header.height) (path : IsPath written)
    (light : ∀ last ∈ written.getLast?, ¬ st.mem.bestCumulativeDifficulty < tree.workAboveRoot last.id)
    (slots : ∀ last ∈ written.getLast?, SlotsFit tree st written last) : Indexed tree after := by
  have lasts {header : Header} (member : header ∈ written) : ∃ last, last ∈ written.getLast? :=
    Option.isSome_iff_exists.mp (List.getLast?_isSome.mpr (List.ne_nil_of_mem member))
  have fits : ∀ header ∈ written,
      st.mem.bestHeight < header.height ∨ slot st.db.columns header.height = some header.id := by
    intro header member
    obtain ⟨last, final⟩ := lasts member
    have fits := slots last final
    rw [SlotsFit, if_neg (light last final)] at fits
    exact fits header member
  have kept : bestHeader after.mem = bestHeader st.mem := by
    rw [growth.best]
    cases final : written.getLast? with
    | none => rfl
    | some last => exact if_neg (light last final)
  simp only [bestHeader, Prod.mk.injEq] at kept
  obtain ⟨bestId, bestHeight, bestSum⟩ := kept
  refine ⟨summed, positive_growth indexed growth known positive, ?_, ?_, slots_growth indexed growth known,
    occupied_growth indexed growth known, ?_⟩
  · rw [bestSum]
    refine work_le_growth indexed growth le_rfl fun header there high => ?_
    obtain ⟨last, final⟩ := lasts there
    have le := work_le_last (ancestry_of_isPath path known positive final)
      (known last (List.mem_of_getLast? final)) known there high
    exact le.trans (Nat.not_lt.mp (light last final))
  · intro id isBest
    rw [bestId] at isBest
    rw [growth.stored, bestHeight]
    exact ⟨.inl (indexed.best isBest).1, (indexed.best isBest).2⟩
  · intro id isBest h other low there
    rw [bestId] at isBest
    rw [bestHeight] at low ⊢
    rw [slot_lost growth fits low] at there
    exact indexed.ancestors isBest low there

theorem indexed_growth (indexed : Indexed tree st) (growth : Growth tree st after written)
    (summed : Summed tree.toHeaderTable (stored after.db.columns) (cumulativeOf after.db.columns))
    (known : ∀ header ∈ written, tree.header header.id = header)
    (positive : ∀ header ∈ written, 0 < header.height) (path : IsPath written)
    (slots : ∀ last ∈ written.getLast?, SlotsFit tree st written last) : Indexed tree after := by
  by_cases won : ∃ last ∈ written.getLast?,
      st.mem.bestCumulativeDifficulty < tree.workAboveRoot last.id
  · obtain ⟨last, final, heavier⟩ := won
    exact indexed_won indexed growth summed known positive path final heavier (slots last final)
  · exact indexed_lost indexed growth summed known positive path
      (fun last final heavier => won ⟨last, final, heavier⟩) slots

theorem appendFullBlock_growth (sr : SigmaRust) {block : FullBlock}
    (summed : Summed tree.toHeaderTable (stored st.db.columns) (cumulativeOf st.db.columns))
    (known : tree.header block.header.id = block.header)
    (parentFirst : 2 < block.header.height → HeaderStore.contains st.db block.header.parentId = true) :
    let after := ((History.appendFullBlock sr block).exec st).2
    Unchanged st after ∨ Growth tree st after [block.header] ∧
      Summed tree.toHeaderTable (stored after.db.columns) (cumulativeOf after.db.columns) := by
  intro after
  rcases appendFullBlock_summed sr summed known parentFirst with same | ⟨headerBytes, cumulative, writes, mem, summedAfter⟩
  · exact .inl same
  · have present : ∀ id, stored after.db.columns id ↔
        stored st.db.columns id ∨ id ∈ [block.header].map Header.id := fun id => stored_after writes id
    refine .inr ⟨⟨present, writes.chain, ?_⟩, summedAfter⟩
    have value : cumulative = tree.workAboveRoot block.header.id := by
      have here : stored after.db.columns block.header.id := (present _).mpr (.inr (by simp))
      have now : cumulativeOf after.db.columns block.header.id = some cumulative :=
        (congrFun writes.cumulative block.header.id).trans (Function.update_self ..)
      rw [summedAfter.eq_work here] at now
      exact (Option.some.inj now).symm
    rw [mem, bestHeader_withBestBlock, value]
    rfl

theorem indexed_step (indexed : Indexed tree st) (keeps : KeepsIndex tree st call)
    (taken : historyStep sr st call = some after) : Indexed tree after := by
  cases taken
  have unchanged {after : State} (same : Unchanged st after) : Indexed tree after := by
    obtain ⟨⟨columns, faults⟩, mem⟩ := after
    obtain ⟨rfl, rfl⟩ := same
    exact ⟨indexed.summed, indexed.positive, indexed.bounded, indexed.best, indexed.slots,
      indexed.occupied, indexed.ancestors⟩
  have member : ∀ header ∈ call.written st, header ∈ call.headers := by
    cases call with
    | header call => exact fun header there => (List.mem_filter.mp there).1
    | appendFullBlock block => exact fun header there => there
  have grown {after : State} (growth : Growth tree st after (call.written st))
      (summed : Summed tree.toHeaderTable (stored after.db.columns) (cumulativeOf after.db.columns)) :
      Indexed tree after :=
    indexed_growth indexed growth summed (fun header there => keeps.known header (member header there))
      (fun header there => keeps.positive header (member header there)) keeps.path keeps.slots
  cases call with
  | header call =>
      have ordered : Ordered tree.toHeaderTable st call :=
        ⟨keeps.known, parentsPrecede_of_isPath keeps.path, keeps.parentFirst⟩
      have outcome := headerCall_outcome sr st call ordered.together
      have summed := summed_call ordered.known ordered.precede outcome indexed.summed
      rcases header_growth indexed.summed (parentsBounded_of_indexed indexed) ordered outcome with same | growth
      · exact unchanged same
      · exact grown growth summed
  | appendFullBlock block =>
      rcases appendFullBlock_growth sr indexed.summed (keeps.known block.header (by simp [HistoryCall.headers]))
        keeps.parentFirst with same | ⟨growth, summed⟩
      · exact unchanged same
      · exact grown growth summed

end Step

/-- Over a run whose calls keep to the best header's branch, the index holds its ancestors. -/
theorem indexHolds_of_keepsIndex (tree : HeaderTree) (sr : SigmaRust) (faults : List Bool)
    (calls : List HistoryCall)
    (keeps : Along (historyStep sr) (KeepsIndex tree) (emptyHistory faults) calls) :
    Always (historyStep sr) (IndexHolds tree) (emptyHistory faults) calls := by
  intro st visited
  exact indexHolds_of_indexed (keeps.invariant (Indexed tree) indexed_step (indexed_empty tree faults) st visited)

/-- A block, a branch on top of it, and a heavier branch in one batch. -/
def switchingCalls : List HistoryCall :=
  [.appendFullBlock (Sample.sampleBlock Sample.header11),
    .header (.appendHeadersBatched [(Sample.header12, [1]), (Sample.header13, [2])]),
    .header (.appendHeadersBatched [(Sample.header22, [3]), (Sample.header23, [4])])]

theorem switchingCalls_indexHolds : Always (historyStep Sample.chainCodec) (IndexHolds sampleTree)
    (emptyHistory []) switchingCalls :=
  indexHolds_of_keepsIndex _ _ [] _ (by decide)

def losingForkCalls : List HistoryCall :=
  [.header (.appendHeader Sample.header11),
    .header (.appendHeadersBatched [(Sample.header12, [1]), (Sample.header13, [2])]),
    .header (.appendHeader Sample.header22)]

theorem losingForkCalls_not_indexHolds : ¬ Always (historyStep Sample.chainCodec)
    (IndexHolds sampleTree) (emptyHistory []) losingForkCalls := by
  intro always
  have holds : IndexHolds sampleTree _ := always _ ⟨losingForkCalls, List.prefix_rfl, rfl⟩
  have held := @holds (.filled 13) (.filled 11) 2 (by decide) (by decide) (by decide) (by decide)
  exact absurd held (by decide)

end ErgoNode.Proof.History
