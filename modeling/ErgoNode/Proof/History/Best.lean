import ErgoNode.Lib.Argmax
import ErgoNode.Proof.History.Growth

/-!
# The best header

The best header should be the first of the heaviest stored headers. A call compares one header with
it, the last one it adds: this is enough where no other new header is as heavy as that one, or none
is heavier than the best header.
-/

namespace ErgoNode.Proof.History
open Lib

structure HeaderRun where
  history : State
  arrivals : List BlockId

def emptyRun (faults : List Bool) : HeaderRun := ⟨emptyHistory faults, []⟩

def arrivalStep (sr : SigmaRust) (run : HeaderRun) (call : HeaderCall) : Option HeaderRun :=
  let after := ((call.exec sr).exec run.history).2
  some ⟨after, run.arrivals ++ ((freshHeaders run.history call.headers).map Header.id).filter
    fun id => HeaderStore.contains after.db id⟩

/-- The best header is the first of the stored headers of maximal total work. -/
structure BestIsFirstHeaviest (tree : HeaderTree) (run : HeaderRun) : Prop where
  arrived : ∀ id, stored run.history.db.columns id ↔ id ∈ run.arrivals
  best : run.history.mem.bestHeaderId = run.arrivals.argmax tree.totalWork

def workOf (work : BlockId → Nat) (best : Option BlockId) : Nat := (best.map work).getD 0

/-- The last new header outweighs the best header and every other new one, or no new header
outweighs the best header. -/
def LastDecides (tree : HeaderTree) (best : Option BlockId) (fresh : List Header) (last : BlockId) :
    Prop :=
  (workOf tree.totalWork best < tree.totalWork last ∧
      ∀ header ∈ fresh, header.id ≠ last → tree.totalWork header.id < tree.totalWork last) ∨
    (best ≠ none ∧ ∀ header ∈ fresh, tree.totalWork header.id ≤ workOf tree.totalWork best)

/-- What a call needs to find the best header. Sums start at height 2, so the root must not make
the difference. -/
structure Decided (tree : HeaderTree) (st : State) (call : HeaderCall) : Prop where
  ordered : Ordered tree.toHeaderTable st call
  positive : ∀ header ∈ call.headers, 0 < header.height
  decides : ∀ last ∈ ((freshHeaders st call.headers).getLast?).map Header.id,
    LastDecides tree st.mem.bestHeaderId (freshHeaders st call.headers) last
  rootless : ∀ last ∈ ((freshHeaders st call.headers).getLast?).map Header.id,
    (workOf tree.workAboveRoot st.mem.bestHeaderId < tree.workAboveRoot last ↔
      workOf tree.totalWork st.mem.bestHeaderId < tree.totalWork last)

instance (tree : HeaderTree) (best : Option BlockId) (fresh : List Header) (last : BlockId) :
    Decidable (LastDecides tree best fresh last) :=
  inferInstanceAs (Decidable ((_ ∧ _) ∨ (_ ∧ _)))

instance (tree : HeaderTree) (st : State) (call : HeaderCall) : Decidable (Decided tree st call) :=
  decidable_of_iff (Ordered tree.toHeaderTable st call ∧ (∀ header ∈ call.headers, 0 < header.height) ∧
      (∀ last ∈ ((freshHeaders st call.headers).getLast?).map Header.id,
        LastDecides tree st.mem.bestHeaderId (freshHeaders st call.headers) last) ∧
      ∀ last ∈ ((freshHeaders st call.headers).getLast?).map Header.id,
        (workOf tree.workAboveRoot st.mem.bestHeaderId < tree.workAboveRoot last ↔
          workOf tree.totalWork st.mem.bestHeaderId < tree.totalWork last))
    ⟨fun ⟨ordered, positive, decides, rootless⟩ => ⟨ordered, positive, decides, rootless⟩,
      fun decided => ⟨decided.ordered, decided.positive, decided.decides, decided.rootless⟩⟩

structure Tracked (tree : HeaderTree) (run : HeaderRun) : Prop extends BestIsFirstHeaviest tree run where
  summed : Summed tree.toHeaderTable (stored run.history.db.columns) (cumulativeOf run.history.db.columns)
  positive : ∀ id, stored run.history.db.columns id → 0 < height tree.toHeaderTable id
  cumulative : run.history.mem.bestCumulativeDifficulty =
    workOf tree.workAboveRoot run.history.mem.bestHeaderId

section Step
variable {tree : HeaderTree} {sr : SigmaRust} {run after : HeaderRun} {call : HeaderCall}

theorem tracked_empty (tree : HeaderTree) (faults : List Bool) : Tracked tree (emptyRun faults) where
  arrived id := by simp [emptyRun, emptyHistory, stored, Database.empty, Store.column]
  best := rfl
  summed := summed_empty faults
  positive id here := absurd rfl here
  cumulative := rfl

theorem parentsBounded_of_tracked (tracked : Tracked tree run) : ParentsBounded tree run.history := by
  intro id here high
  have below := tree.height_parent id (by omega)
  have parentHere := (tracked.summed.high here high).1
  obtain ⟨best, chosen⟩ : ∃ best, run.arrivals.argmax tree.totalWork = some best := by
    rw [← Option.ne_none_iff_exists', ne_eq, List.argmax_eq_none]
    exact List.ne_nil_of_mem ((tracked.arrived _).mp here)
  have le := List.le_of_mem_argmax ((tracked.arrived _).mp parentHere) chosen
  have bestHere := (tracked.arrived best).mpr (List.argmax_mem chosen)
  rw [tracked.cumulative, tracked.best, chosen]
  exact HeaderTree.workAboveRoot_le (by omega) (tracked.positive best bestHere) le

theorem workOf_le_of_argmax {arrivals : List BlockId} {id : BlockId} (member : id ∈ arrivals) :
    tree.totalWork id ≤ workOf tree.totalWork (arrivals.argmax tree.totalWork) := by
  cases chosen : arrivals.argmax tree.totalWork with
  | none =>
      rw [List.argmax_eq_none.mp chosen] at member
      cases member
  | some best => exact List.le_of_mem_argmax member chosen

/-- The choice between the best header and the last new one is the first maximum of all. -/
theorem argmax_of_lastDecides {arrivals : List BlockId} {fresh : List Header} {last : Header}
    (final : fresh.getLast? = some last)
    (decides : LastDecides tree (arrivals.argmax tree.totalWork) fresh last.id) :
    (arrivals ++ fresh.map Header.id).argmax tree.totalWork =
      if workOf tree.totalWork (arrivals.argmax tree.totalWork) < tree.totalWork last.id then some last.id
      else arrivals.argmax tree.totalWork := by
  have member : last ∈ fresh := List.mem_of_getLast? final
  rcases decides with ⟨heavier, others⟩ | ⟨existing, none⟩
  · rw [if_pos heavier]
    apply argmax_eq_of_lt (List.mem_append_right _ (List.mem_map_of_mem member))
    intro id here other
    rcases List.mem_append.mp here with old | new
    · exact (workOf_le_of_argmax old).trans_lt heavier
    · obtain ⟨header, inFresh, rfl⟩ := List.mem_map.mp new
      exact others header inFresh other
  · rw [if_neg (none last member).not_gt]
    obtain ⟨best, chosen⟩ := Option.ne_none_iff_exists'.mp existing
    rw [chosen] at none ⊢
    apply argmax_append_of_le chosen
    intro id new
    obtain ⟨header, inFresh, rfl⟩ := List.mem_map.mp new
    exact none header inFresh

theorem arrived_unchanged {st afterCall : State} (same : afterCall.db.columns = st.db.columns)
    (headers : List Header) : ((freshHeaders st headers).map Header.id).filter
      (fun id => HeaderStore.contains afterCall.db id) = [] := by
  rw [List.filter_eq_nil_iff]
  intro id member
  obtain ⟨header, fresh, rfl⟩ := List.mem_map.mp member
  rw [contains_iff, same, ← contains_iff]
  simpa using (List.mem_filter.mp fresh).2

theorem arrived_all {st afterCall : State} {fresh : List Header} (growth : Growth tree st afterCall fresh) :
    (fresh.map Header.id).filter (fun id => HeaderStore.contains afterCall.db id) =
      fresh.map Header.id := by
  rw [List.filter_eq_self]
  intro id member
  rw [contains_iff, growth.stored]
  exact .inr member

theorem best_of_growth {afterCall : State} {fresh : List Header} (tracked : Tracked tree run)
    (growth : Growth tree run.history afterCall fresh)
    (decides : ∀ last ∈ fresh.getLast?.map Header.id,
      LastDecides tree run.history.mem.bestHeaderId fresh last)
    (rootless : ∀ last ∈ fresh.getLast?.map Header.id,
      (workOf tree.workAboveRoot run.history.mem.bestHeaderId < tree.workAboveRoot last ↔
        workOf tree.totalWork run.history.mem.bestHeaderId < tree.totalWork last)) :
    afterCall.mem.bestHeaderId = (run.arrivals ++ fresh.map Header.id).argmax tree.totalWork ∧
      afterCall.mem.bestCumulativeDifficulty =
        workOf tree.workAboveRoot afterCall.mem.bestHeaderId := by
  have best := growth.best
  cases final : fresh.getLast? with
  | none =>
      simp only [final, bestAfter, bestHeader, Prod.mk.injEq] at best
      rw [List.getLast?_eq_none_iff.mp final, List.map_nil, List.append_nil, best.1, best.2.2]
      exact ⟨tracked.best, tracked.cumulative⟩
  | some last =>
      have inLast : last.id ∈ fresh.getLast?.map Header.id := by
        rw [final]
        rfl
      have chosen := argmax_of_lastDecides final (tracked.best ▸ decides last.id inLast)
      rw [final, bestAfter, tracked.cumulative] at best
      rw [chosen, ← tracked.best]
      by_cases heavier : workOf tree.workAboveRoot run.history.mem.bestHeaderId <
          tree.workAboveRoot last.id
      · simp only [if_pos heavier, bestHeader, Prod.mk.injEq] at best
        rw [if_pos ((rootless _ inLast).mp heavier), best.1, best.2.2]
        exact ⟨rfl, rfl⟩
      · simp only [if_neg heavier, bestHeader, Prod.mk.injEq] at best
        rw [if_neg fun total => heavier ((rootless _ inLast).mpr total), best.1, best.2.2]
        exact ⟨rfl, tracked.cumulative⟩

theorem tracked_step (tracked : Tracked tree run) (decided : Decided tree run.history call)
    (taken : arrivalStep sr run call = some after) : Tracked tree after := by
  have outcome := headerCall_outcome sr run.history call decided.ordered.together
  have summed := summed_call decided.ordered.known decided.ordered.precede outcome tracked.summed
  cases taken
  generalize ((call.exec sr).exec run.history).2 = afterCall at outcome summed
  rcases header_growth tracked.summed (parentsBounded_of_tracked tracked) decided.ordered outcome with
    ⟨columns, mem⟩ | growth
  · rw [arrived_unchanged columns, List.append_nil]
    exact ⟨⟨by rw [columns]; exact tracked.arrived, by rw [mem]; exact tracked.best⟩, summed,
      by rw [columns]; exact tracked.positive, by rw [mem]; exact tracked.cumulative⟩
  · rw [arrived_all growth]
    obtain ⟨best, cumulative⟩ := best_of_growth tracked growth decided.decides decided.rootless
    refine ⟨⟨?_, best⟩, summed, ?_, cumulative⟩
    · intro id
      rw [growth.stored, tracked.arrived, List.mem_append]
    · intro id here
      rcases (growth.stored id).mp here with old | new
      · exact tracked.positive id old
      · obtain ⟨header, fresh, rfl⟩ := List.mem_map.mp new
        have member := (List.mem_filter.mp fresh).1
        rw [height, decided.ordered.known header member]
        exact decided.positive header member

end Step

/-- Over a run whose calls end with the header that decides, the best header is the heaviest one
that came first. -/
theorem bestIsFirstHeaviest_of_decided (tree : HeaderTree) (sr : SigmaRust) (faults : List Bool)
    (calls : List HeaderCall)
    (decided : Along (arrivalStep sr) (fun run => Decided tree run.history) (emptyRun faults) calls) :
    Always (arrivalStep sr) (BestIsFirstHeaviest tree) (emptyRun faults) calls := by
  intro run visited
  exact (decided.invariant (Tracked tree) tracked_step (tracked_empty tree faults) run visited).toBestIsFirstHeaviest

theorem orderedCalls_bestIsFirstHeaviest : Always (arrivalStep Sample.chainCodec)
    (BestIsFirstHeaviest sampleTree) (emptyRun []) orderedCalls :=
  bestIsFirstHeaviest_of_decided _ _ [] _ (by decide)

def lightLastCalls : List HeaderCall :=
  [.appendHeader Sample.header11, .appendHeadersBatched [(Sample.header22, [2]), (Sample.header23, [3]),
    (Sample.header12, [4])]]

theorem lightLastCalls_not_bestIsFirstHeaviest : ¬ Always (arrivalStep Sample.chainCodec)
    (BestIsFirstHeaviest sampleTree) (emptyRun []) lightLastCalls := by
  intro always
  have best := (always _ ⟨lightLastCalls, List.prefix_rfl, rfl⟩).best
  exact absurd best (by decide)

end ErgoNode.Proof.History
