import ErgoNode.Lib.Run
import ErgoNode.Proof.History.Effect
import ErgoNode.Proof.History.Tree

/-!
# Cumulative difficulties

A header's cumulative difficulty is its parent's plus its own. A batch keeps one running total: it
is the parent's as long as each header whose parent is in the batch comes right after it.
-/

namespace ErgoNode.Proof.History
open Lib

def stored (columns : Columns) (id : BlockId) : Prop := columns.column .headers id ≠ none

instance (columns : Columns) (id : BlockId) : Decidable (stored columns id) :=
  inferInstanceAs (Decidable (_ ≠ none))

def cumulativeOf (columns : Columns) (id : BlockId) : Option Nat :=
  columns.column .cumulativeDifficulty id

theorem contains_iff (db : Database) (id : BlockId) :
    HeaderStore.contains db id = true ↔ stored db.columns id := by
  rw [HeaderStore.contains, Database.contains, Option.isSome_iff_ne_none]
  rfl

section Summed
variable (table : HeaderTable)

/-- Every stored header above height 2 has its parent's cumulative difficulty plus its own. -/
def SumsHold (columns : Columns) : Prop :=
  ∀ id, stored columns id → 2 < height table id →
    ∃ c, cumulativeOf columns (parent table id) = some c ∧
      cumulativeOf columns id = some (c + difficulty table id)

/-- The sums with their base: up to height 2 a sum starts, above it the parent is present too. -/
structure Summed (present : BlockId → Prop) (cumulative : BlockId → Option Nat) : Prop where
  low : ∀ {id}, present id → height table id ≤ 2 → cumulative id = some (difficulty table id)
  high : ∀ {id}, present id → 2 < height table id → present (parent table id) ∧
    ∃ c, cumulative (parent table id) = some c ∧ cumulative id = some (c + difficulty table id)

variable {table} {present : BlockId → Prop} {cumulative : BlockId → Option Nat}

theorem Summed.exists (summed : Summed table present cumulative) {id : BlockId}
    (here : present id) : ∃ c, cumulative id = some c := by
  rcases Nat.lt_or_ge 2 (height table id) with high | low
  · obtain ⟨-, c, -, sum⟩ := summed.high here high
    exact ⟨_, sum⟩
  · exact ⟨_, summed.low here low⟩

theorem Summed.add (summed : Summed table present cumulative) (id : BlockId) (c : Nat)
    (low : height table id ≤ 2 → c = difficulty table id)
    (high : 2 < height table id → present (parent table id) ∧
      ∃ p, cumulative (parent table id) = some p ∧ c = p + difficulty table id) :
    Summed table (fun other => present other ∨ other = id)
      (Function.update cumulative id (some c)) := by
  by_cases again : present id
  · have same : cumulative id = some c := by
      rcases Nat.lt_or_ge 2 (height table id) with above | base
      · obtain ⟨-, p, found, rfl⟩ := high above
        obtain ⟨-, q, foundAgain, sum⟩ := summed.high again above
        rw [found] at foundAgain
        cases foundAgain
        exact sum
      · rw [low base, summed.low again base]
    rw [← same, Function.update_eq_self]
    have unchanged : ∀ {other}, present other ∨ other = id → present other := by
      rintro other (before | rfl)
      · exact before
      · exact again
    exact ⟨fun here => summed.low (unchanged here),
      fun here above => ⟨.inl (summed.high (unchanged here) above).1,
        (summed.high (unchanged here) above).2⟩⟩
  · constructor
    · rintro other (before | rfl) base
      · have different : other ≠ id := fun same => again (same ▸ before)
        rw [Function.update_of_ne different]
        exact summed.low before base
      · rw [Function.update_self, low base]
    · rintro other (before | rfl) above
      · have different : other ≠ id := fun same => again (same ▸ before)
        obtain ⟨parentHere, p, found, sum⟩ := summed.high before above
        have parentOther : parent table other ≠ id := fun same => again (same ▸ parentHere)
        exact ⟨.inl parentHere, p, by rw [Function.update_of_ne parentOther, found],
          by rw [Function.update_of_ne different, sum]⟩
      · obtain ⟨parentHere, p, found, rfl⟩ := high above
        have parentOther : parent table other ≠ other := fun same => again (same ▸ parentHere)
        exact ⟨.inl parentHere, p, by rw [Function.update_of_ne parentOther, found],
          Function.update_self ..⟩

end Summed

/-! ### One call -/

/-- Each header whose parent comes earlier in the list comes right after it. -/
def ParentsPrecede (headers : List Header) : Prop :=
  ∀ i : Fin headers.length, 2 < (headers.get i).height →
    (headers.get i).parentId ∈ (headers.take i).map Header.id →
      ((headers.take i).getLast?).map Header.id = some (headers.get i).parentId

instance (headers : List Header) : Decidable (ParentsPrecede headers) :=
  inferInstanceAs (Decidable (∀ _, _))

theorem ParentsPrecede.last {headers before : List Header} {header : Header}
    (precede : ParentsPrecede headers) (prefixed : before ++ [header] <+: headers)
    (high : 2 < header.height) (inBatch : header.parentId ∈ before.map Header.id) :
    (before.getLast?).map Header.id = some header.parentId := by
  obtain ⟨rest, rfl⟩ := prefixed
  have here := precede ⟨before.length, by simp⟩
  simp only [List.get_eq_getElem, List.append_assoc, List.singleton_append, List.getElem_append_right,
    le_refl, Nat.sub_self, List.getElem_cons_zero, List.take_left] at here
  exact here high inBatch

def freshHeaders (st : State) (headers : List Header) : List Header :=
  headers.filter fun header => !HeaderStore.contains st.db header.id

section Call
variable {table : HeaderTable} {st after : State} {start : Nat} {added : List Added}
variable {items : List (Header × Bytes)} {headers : List Header}

theorem batched_headers (batched : Batched st.db start items added) :
    added.map (·.header) = freshHeaders st (items.map Prod.fst) := by
  have projected := congrArg (List.map Prod.fst) batched.fresh
  rw [List.map_map] at projected
  rw [freshHeaders, List.filter_map]
  exact projected

theorem write_puts_concat {B : Type} (column : Store fun _ : BlockId => B) (value : Added → B)
    (before : List Added) (a : Added) :
    column.write (puts (·.header.id) value (before ++ [a])) =
      Function.update (column.write (puts (·.header.id) value before)) a.header.id (some (value a)) := by
  rw [puts, List.map_append, Store.write_append]
  rfl

def cumulativeAfter (st : State) (before : List Added) : BlockId → Option Nat :=
  (st.db.columns.column .cumulativeDifficulty).write (puts (·.header.id) (·.cumulative) before)

def presentAfter (st : State) (before : List Added) (id : BlockId) : Prop :=
  stored st.db.columns id ∨ id ∈ ids before

theorem cumulativeAfter_last (st : State) (start : Nat) {before : List Added} {id : BlockId}
    (last : (before.getLast?).map (·.header.id) = some id) :
    cumulativeAfter st before id = some (total start before) := by
  rcases before.eq_nil_or_concat with rfl | ⟨front, a, rfl⟩
  · simp at last
  · simp only [List.concat_eq_append, List.getLast?_concat, Option.map_some, Option.some.injEq] at last
    subst last
    rw [cumulativeAfter, List.concat_eq_append, write_puts_concat, Function.update_self, total,
      List.getLast?_concat]
    rfl

theorem presentAfter_nil (st : State) : presentAfter st [] = stored st.db.columns := by
  funext id
  simp [presentAfter, ids]

theorem presentAfter_append (st : State) (before : List Added) (a : Added) :
    presentAfter st (before ++ [a]) = fun other => presentAfter st before other ∨ other = a.header.id := by
  funext other
  simp [presentAfter, ids, or_assoc]

/-- The parent of a header of an ordered call has its sum when the header's turn comes. -/
theorem parentSum {before : List Added} {a : Added} (batched : Batched st.db start items added)
    (ordered : ParentsPrecede (added.map (·.header))) (prefixed : before ++ [a] <+: added)
    (sofar : ∀ {id}, stored st.db.columns id → ∃ c, cumulativeOf st.db.columns id = some c)
    (high : 2 < a.header.height) :
    presentAfter st before a.header.parentId ∧ ∃ c, cumulativeAfter st before a.header.parentId = some c ∧
      a.cumulative = c + nbitsToDifficulty a.header.nBits := by
  obtain ⟨parentKnown, value⟩ := batched.step before a prefixed
  rw [value, nextCumulative]
  by_cases inBatch : a.header.parentId ∈ ids before
  · -- the running total is the parent's: the parent is the header before
    have last : (before.getLast?).map (·.header.id) = some a.header.parentId := by
      have headers : before.map (·.header) ++ [a.header] <+: added.map (·.header) := by
        simpa using prefixed.map (·.header)
      have here := ordered.last headers high (by simpa [ids] using inBatch)
      simpa [List.getLast?_map, Option.map_map, Function.comp_def] using here
    exact ⟨.inr inBatch, total start before, cumulativeAfter_last st start last,
      by rw [if_pos ⟨high, inBatch⟩]⟩
  · have inStore := (contains_iff _ _).mp ((parentKnown high).resolve_left inBatch)
    obtain ⟨c, found⟩ := sofar inStore
    refine ⟨.inl inStore, c, ?_, ?_⟩
    · rw [cumulativeAfter, Store.write_puts_of_not_mem _ _ inBatch]
      exact found
    · have read : History.getCumulativeDifficulty st.db a.header.parentId = some c := found
      rw [if_neg (fun both => inBatch both.2), History.parentCumulative,
        if_neg (Nat.not_le.mpr high), read]
      rfl

theorem summed_after (known : ∀ a ∈ added, table.header a.header.id = a.header)
    (batched : Batched st.db start items added) (ordered : ParentsPrecede (added.map (·.header)))
    (summed : Summed table (stored st.db.columns) (cumulativeOf st.db.columns)) :
    ∀ before, before <+: added → Summed table (presentAfter st before) (cumulativeAfter st before) := by
  intro before
  induction before using List.reverseRecOn with
  | nil =>
      intro _
      rw [presentAfter_nil]
      exact summed
  | append_singleton before a ih =>
      intro prefixed
      have sofar := ih ((List.prefix_append before [a]).trans prefixed)
      have header := known a (prefixed.subset (by simp))
      have own : difficulty table a.header.id = nbitsToDifficulty a.header.nBits := by
        rw [difficulty, header]
      rw [cumulativeAfter, write_puts_concat, presentAfter_append]
      apply sofar.add
      · intro low
        rw [height, header] at low
        rw [(batched.step before a prefixed).2, own, nextCumulative, if_neg (by omega), History.parentCumulative,
          if_pos low, Nat.zero_add]
      · intro high
        rw [height, header] at high
        rw [parent, header, own]
        exact parentSum batched ordered prefixed summed.exists high

theorem stored_after (writes : Writes st.db.columns after.db.columns added) (id : BlockId) :
    stored after.db.columns id ↔ presentAfter st added id := by
  rw [stored, writes.headers]
  exact Store.write_puts_ne_none _ id

theorem summed_call (known : ∀ header ∈ headers, table.header header.id = header)
    (ordered : ParentsPrecede (freshHeaders st headers)) (outcome : Outcome st after headers)
    (summed : Summed table (stored st.db.columns) (cumulativeOf st.db.columns)) :
    Summed table (stored after.db.columns) (cumulativeOf after.db.columns) := by
  rcases outcome with ⟨columns, -⟩ | ⟨first, rest, items, added, -, items_eq, batched, appended⟩
  · rw [columns]
    exact summed
  · rw [← items_eq, ← batched_headers batched] at ordered
    have knownAdded : ∀ a ∈ added, table.header a.header.id = a.header := by
      intro a member
      apply known
      have fresh : a.header ∈ freshHeaders st (items.map Prod.fst) := by
        rw [← batched_headers batched]
        exact List.mem_map_of_mem member
      rw [← items_eq]
      exact (List.mem_filter.mp fresh).1
    have now := summed_after knownAdded batched ordered summed added List.prefix_rfl
    have present : stored after.db.columns = presentAfter st added :=
      funext fun id => propext (stored_after appended.writes id)
    have cumulative : cumulativeOf after.db.columns = cumulativeAfter st added := by
      funext id
      exact congrFun appended.writes.cumulative id
    rw [present, cumulative]
    exact now

end Call

/-! ### Runs of header calls -/

def emptyHistory (faults : List Bool) : State := ⟨⟨Database.empty.columns, faults⟩, .new⟩

def headerStep (sr : SigmaRust) (st : State) (call : HeaderCall) : Option State :=
  some ((call.exec sr).exec st).2

structure Ordered (table : HeaderTable) (st : State) (call : HeaderCall) : Prop where
  known : ∀ header ∈ call.headers, table.header header.id = header
  precede : ParentsPrecede (freshHeaders st call.headers)
  together : call.WritesTogether st

instance (table : HeaderTable) (st : State) (call : HeaderCall) : Decidable (Ordered table st call) :=
  decidable_of_iff ((∀ header ∈ call.headers, table.header header.id = header) ∧
      ParentsPrecede (freshHeaders st call.headers) ∧ call.WritesTogether st)
    ⟨fun ⟨known, precede, together⟩ => ⟨known, precede, together⟩,
      fun ordered => ⟨ordered.known, ordered.precede, ordered.together⟩⟩

section Runs
variable {table : HeaderTable} {sr : SigmaRust} {st after : State} {call : HeaderCall}

theorem summed_empty (faults : List Bool) : Summed table (stored (emptyHistory faults).db.columns)
    (cumulativeOf (emptyHistory faults).db.columns) :=
  ⟨fun here => absurd rfl here, fun here => absurd rfl here⟩

theorem summed_step (summed : Summed table (stored st.db.columns) (cumulativeOf st.db.columns))
    (ordered : Ordered table st call) (taken : headerStep sr st call = some after) :
    Summed table (stored after.db.columns) (cumulativeOf after.db.columns) := by
  cases taken
  exact summed_call ordered.known ordered.precede (headerCall_outcome sr st call ordered.together)
    summed

/-- Over a run whose batches are ordered, every sum is the parent's plus the header's own. -/
theorem sumsHold_of_ordered (table : HeaderTable) (sr : SigmaRust) (faults : List Bool)
    (calls : List HeaderCall)
    (ordered : Along (headerStep sr) (Ordered table) (emptyHistory faults) calls) :
    Always (headerStep sr) (fun st => SumsHold table st.db.columns) (emptyHistory faults) calls := by
  intro st visited
  have summed := ordered.invariant (fun st =>
    Summed table (stored st.db.columns) (cumulativeOf st.db.columns)) summed_step
    (summed_empty faults) st visited
  exact fun id here high => (summed.high here high).2

end Runs

def orderedCalls : List HeaderCall :=
  [.appendHeader Sample.header11, .appendHeadersBatched [(Sample.header22, [2]), (Sample.header23, [3])],
    .appendHeadersBatched [(Sample.header12, [4]), (Sample.header13, [5])]]

theorem orderedCalls_sumsHold : Always (headerStep Sample.chainCodec)
    (fun st => SumsHold sampleTree.toHeaderTable st.db.columns) (emptyHistory []) orderedCalls :=
  sumsHold_of_ordered _ _ [] _ (by decide)

/-- One batch with both branches, the second one first: 13 follows 23. -/
def interleavedCalls : List HeaderCall :=
  [.appendHeader Sample.header11, .appendHeadersBatched [(Sample.header12, [4]), (Sample.header22, [2]),
    (Sample.header23, [3]), (Sample.header13, [5])]]

theorem interleavedCalls_not_sumsHold : ¬ Always (headerStep Sample.chainCodec)
    (fun st => SumsHold sampleTree.toHeaderTable st.db.columns) (emptyHistory []) interleavedCalls := by
  intro always
  obtain ⟨c, parentSum, sum⟩ := always _ ⟨interleavedCalls, List.prefix_rfl, rfl⟩ (.filled 13)
    (by decide) (by decide)
  have two : some c = some 2 := parentSum.symm.trans (by decide)
  have eight : some (c + 2) = some 8 := sum.symm.trans (by decide)
  cases two
  cases eight

end ErgoNode.Proof.History
