import ErgoNode.Lib.Argmax
import ErgoNode.Proof.History.Growth
import Mathlib.Data.List.Nodup

/-!
# Batches against single headers

A batch of headers should leave what its headers leave when they are appended one after the other. Both
store the same headers under the same heights. They differ in the cumulative difficulties, where the
running total of the batch is not the parent's, and in the best header, which the batch compares with
its last header only.
-/

namespace ErgoNode.Proof.History
open Lib

/-! ### Readable headers -/

section Readable
variable {sr : SigmaRust} {db : Database}

def Readable (sr : SigmaRust) (db : Database) : Prop :=
  ∀ id bytes, db.get .headers id = some bytes → ∃ header, sr.parseHeader bytes = .ok header

theorem Readable.get (readable : Readable sr db) (id : BlockId) :
    ∃ result, HeaderStore.get sr db id = .ok result ∧ (HeaderStore.contains db id = true → result ≠ none) := by
  unfold HeaderStore.get HeaderStore.contains Database.contains
  cases held : db.get .headers id with
  | none => exact ⟨none, rfl, by simp⟩
  | some bytes =>
      obtain ⟨header, parsed⟩ := readable id bytes held
      exact ⟨some { header with id := sr.blake2b256 bytes }, by simp [parsed], by simp⟩

theorem Readable.getByHeight (readable : Readable sr db) (height : Nat) :
    ∃ result, HeaderStore.getByHeight sr db height = .ok result := by
  unfold HeaderStore.getByHeight
  split
  · next id _ => exact (readable.get id).imp fun _ found => found.1
  · exact ⟨none, rfl⟩

theorem Readable.walkToFork (readable : Readable sr db) (height : Nat) (id : BlockId) :
    ∃ fork, History.walkToFork sr db id height = .ok fork := by
  induction height generalizing id with
  | zero => exact ⟨1, rfl⟩
  | succ height ih =>
      obtain ⟨slot, inSlot⟩ := readable.getByHeight (height + 1)
      obtain ⟨result, found, -⟩ := readable.get id
      by_cases there : ∃ main ∈ slot, main.id = id
      · obtain ⟨main, rfl, same⟩ := there
        exact ⟨_, walkToFork_of_found inSlot same⟩
      · have other : ∀ main ∈ slot, main.id ≠ id := fun main member same => there ⟨main, member, same⟩
        cases result with
        | none => exact ⟨1, walkToFork_of_missing inSlot other found⟩
        | some header =>
            rw [walkToFork_of_parent inSlot other found]
            exact ih header.parentId

theorem Readable.findForkHeight (readable : Readable sr db) {id : BlockId}
    (here : HeaderStore.contains db id = true) : ∃ fork, History.findForkHeight sr db id = .ok fork := by
  obtain ⟨result, found, stored⟩ := readable.get id
  rw [History.findForkHeight, found]
  cases result with
  | none => exact absurd rfl (stored here)
  | some header => exact readable.walkToFork _ _

theorem Readable.selectionAfter {st after : State} (readable : Readable sr after.db) {id : BlockId}
    (here : HeaderStore.contains after.db id = true) (height cumulative : Nat) :
    ∃ selection, selectionAfter sr st after id height cumulative = .ok selection := by
  obtain ⟨fork, found⟩ := readable.findForkHeight here
  unfold History.selectionAfter
  split
  · split
    · rw [found]
      exact ⟨_, rfl⟩
    · exact ⟨_, rfl⟩
  · exact ⟨_, rfl⟩

theorem Readable.writes {before after : Columns} {faults later : List Bool} {added : List Added}
    (readable : Readable sr ⟨before, faults⟩) (writes : Writes before after added)
    (parses : ∀ a ∈ added, ∃ header, sr.parseHeader a.rawBytes = .ok header) : Readable sr ⟨after, later⟩ := by
  intro id bytes held
  have held : after.column .headers id = some bytes := held
  rw [writes.headers] at held
  by_cases member : id ∈ ids added
  · obtain ⟨a, inAdded, -, now⟩ := Store.exists_of_write_puts (before.column .headers)
      (fun a : Added => a.rawBytes) member
    rw [now, Option.some.injEq] at held
    exact held ▸ parses a inAdded
  · rw [Store.write_puts_of_not_mem _ _ member] at held
    exact readable id bytes held

end Readable

/-! ### One header after the other -/

def singleCumulative (st : State) (before : List Added) (header : Header) : Nat :=
  (if header.height ≤ 2 then 0 else (cumulativeAfter st before header.parentId).getD 0) +
    nbitsToDifficulty header.nBits

def addSingly (st : State) (before : List Added) (item : Header × Bytes) : List Added :=
  if HeaderStore.contains st.db item.1.id then before
  else before ++ [⟨item.1, item.2, singleCumulative st before item.1⟩]

def addedSingly (st : State) (items : List (Header × Bytes)) : List Added := items.foldl (addSingly st) []

def heavierOf (best : Option BlockId × Nat × Nat) (a : Added) : Option BlockId × Nat × Nat :=
  if a.cumulative > best.2.2 then (some a.header.id, a.header.height, a.cumulative) else best

section Heavier
variable {best : Option BlockId × Nat × Nat} {added : List Added} {a : Added}

def offered (a : Added) : Option BlockId × Nat × Nat := (some a.header.id, a.header.height, a.cumulative)

theorem foldl_heavierOf (best : Option BlockId × Nat × Nat) (added : List Added) :
    added.foldl heavierOf best = (added.map offered).foldl (better fun offer => offer.2.2) best := by
  rw [List.foldl_map]
  rfl

/-- The last header outweighs the best header and every other one, or no header outweighs the best one. -/
def LastHeaviest (best : Option BlockId × Nat × Nat) (added : List Added) (last : Added) : Prop :=
  (best.2.2 < last.cumulative ∧ ∀ a ∈ added, a.header.id ≠ last.header.id → a.cumulative < last.cumulative) ∨
    ∀ a ∈ added, a.cumulative ≤ best.2.2

instance (best : Option BlockId × Nat × Nat) (added : List Added) (last : Added) :
    Decidable (LastHeaviest best added last) :=
  inferInstanceAs (Decidable ((_ ∧ _) ∨ _))

/-- Comparing every header comes to comparing the last one exactly where that one decides. -/
theorem foldl_heavierOf_eq_iff {front : List Added} {last : Added} (distinct : (ids (front ++ [last])).Nodup) :
    (front ++ [last]).foldl heavierOf best = heavierOf best last ↔ LastHeaviest best (front ++ [last]) last := by
  have others : ∀ a ∈ front, a.header.id ≠ last.header.id := by
    rw [ids, List.map_append, List.nodup_append'] at distinct
    intro a member same
    exact distinct.2.2 (List.mem_map_of_mem member) (by simp [same])
  have other : offered last ∉ front.map offered := by
    intro member
    obtain ⟨a, inFront, same⟩ := List.mem_map.mp member
    exact others a inFront (Option.some.inj (congrArg Prod.fst same))
  have offers : heavierOf best last = better (fun offer => offer.2.2) best (offered last) := rfl
  rw [foldl_heavierOf, List.map_append, List.map_singleton, offers, foldl_better_concat_iff other]
  refine or_congr (and_congr Iff.rfl ?_) ?_
  · rw [List.forall_mem_map]
    constructor
    · intro lighter a member differs
      rcases List.mem_append.mp member with inFront | single
      · exact lighter a inFront
      · exact absurd (congrArg (·.header.id) (List.mem_singleton.mp single)) differs
    · intro lighter a member
      exact lighter a (List.mem_append_left _ member) (others a member)
  · rw [← List.map_singleton, ← List.map_append, List.forall_mem_map]
    exact Iff.rfl

end Heavier

/-- A history and headers for it: writes work, all bytes parse, ids are distinct, and a parent is stored
or earlier in the list. -/
structure Appendable (sr : SigmaRust) (st : State) (items : List (Header × Bytes)) : Prop where
  sound : st.db.faults = []
  readable : Readable sr st.db
  parses : ∀ item ∈ items, ∃ header, sr.parseHeader item.2 = .ok header
  distinct : (items.map (·.1.id)).Nodup
  parents : ∀ i : Fin items.length, 2 < (items.get i).1.height →
    (items.get i).1.parentId ∈ (items.take i).map (·.1.id) ∨
      HeaderStore.contains st.db (items.get i).1.parentId = true

def appendItem (sr : SigmaRust) (item : Header × Bytes) : Op State StateError Unit := do
  let _ ← History.appendHeaderWithBytes sr item.1 item.2

def appendOneByOne (sr : SigmaRust) (items : List (Header × Bytes)) : Op State StateError Unit :=
  Op.forEach (appendItem sr) items

structure Reached (sr : SigmaRust) (st : State) (added : List Added) (now : State) : Prop where
  writes : Writes st.db.columns now.db.columns added
  best : bestHeader now.mem = added.foldl heavierOf (bestHeader st.mem)
  sound : now.db.faults = []
  readable : Readable sr now.db

section Singly
variable {sr : SigmaRust} {st now : State} {items done rest : List (Header × Bytes)} {added before : List Added}
variable {header : Header} {rawBytes : Bytes}

theorem Appendable.parent {item : Header × Bytes} (appendable : Appendable sr st items)
    (prefixed : done ++ [item] <+: items) (high : 2 < item.1.height) :
    item.1.parentId ∈ done.map (·.1.id) ∨ HeaderStore.contains st.db item.1.parentId = true := by
  obtain ⟨rest, rfl⟩ := prefixed
  have here := appendable.parents ⟨done.length, by simp⟩
  simp only [List.get_eq_getElem, List.append_assoc, List.singleton_append, List.getElem_append_right,
    le_refl, Nat.sub_self, List.getElem_cons_zero, List.take_left] at here
  exact here high

theorem Writes.append {first second third : Columns} {more : List Added} (writes : Writes first second added)
    (later : Writes second third more) : Writes first third (added ++ more) where
  headers := by rw [later.headers, writes.headers, ← Store.write_append, puts, puts, puts, List.map_append]
  chain := by rw [later.chain, writes.chain, ← Store.write_append, puts, puts, puts, List.map_append]
  cumulative := by
    rw [later.cumulative, writes.cumulative, ← Store.write_append, puts, puts, puts, List.map_append]

theorem reached_start (appendable : Appendable sr st items) : Reached sr st [] st :=
  ⟨⟨rfl, rfl, rfl⟩, rfl, appendable.sound, appendable.readable⟩

theorem Reached.single (reached : Reached sr st before now)
    (unstored : HeaderStore.contains now.db header.id = false)
    (parent : 2 < header.height → HeaderStore.contains now.db header.parentId = true)
    (parses : ∃ parsed, sr.parseHeader rawBytes = .ok parsed) :
    ∃ selection next, (History.appendHeaderWithBytes sr header rawBytes).exec now = (.ok selection, next) ∧
      Reached sr st (before ++ [⟨header, rawBytes, singleCumulative st before header⟩]) next := by
  have cumulative : singleSum now header = singleCumulative st before header := by
    have read : History.getCumulativeDifficulty now.db header.parentId = cumulativeAfter st before header.parentId :=
      congrFun reached.writes.cumulative header.parentId
    rw [singleSum, History.parentCumulative, read]
    rfl
  have works : Database.writeFails now.db.faults = false := by rw [reached.sound]; rfl
  have worksAgain : Database.writeFails now.db.faults.tail = false := by rw [reached.sound]; rfl
  have ran := @exec_appendHeaderInternal sr now header (some rawBytes) _ works worksAgain unstored parent rfl
  have appended := appended_headerAppended now header rawBytes
  have faults : (headerAppended now header rawBytes).db.faults = now.db.faults.tail.tail := chainSelected_faults ..
  rw [cumulative] at ran appended
  generalize headerAppended now header rawBytes = next at ran appended faults
  have readable : Readable sr next.db := reached.readable.writes appended.writes (by simpa using parses)
  have here : HeaderStore.contains next.db header.id = true := by
    rw [contains_iff, stored_after appended.writes]
    exact .inr (by simp [ids])
  obtain ⟨selection, selected⟩ : ∃ selection, selectionAfter sr now next header.id header.height
      (singleCumulative st before header) = .ok selection := readable.selectionAfter here _ _
  refine ⟨selection, next, ?_, reached.writes.append appended.writes, ?_, ?_, readable⟩
  · rw [← selected]
    exact ran
  · rw [List.foldl_append, ← reached.best, appended.best, List.foldl_cons, List.foldl_nil]
    exact apply_ite bestHeader _ _ _
  · rw [faults, reached.sound]
    rfl

theorem addedSingly_append (st : State) (done : List (Header × Bytes)) (item : Header × Bytes) :
    addedSingly st (done ++ [item]) = addSingly st (addedSingly st done) item := by
  rw [addedSingly, List.foldl_append]
  rfl

theorem addedSingly_items (st : State) (items : List (Header × Bytes)) :
    (addedSingly st items).map (fun a => (a.header, a.rawBytes)) =
      items.filter fun item => !HeaderStore.contains st.db item.1.id := by
  induction items using List.reverseRecOn with
  | nil => rfl
  | append_singleton done item ih =>
      rw [addedSingly_append, addSingly, List.filter_append, ← ih]
      split
      · next stored => simp [stored]
      · next unstored => simp [unstored]

theorem ids_addedSingly (st : State) (items : List (Header × Bytes)) :
    ids (addedSingly st items) =
      (items.filter fun item => !HeaderStore.contains st.db item.1.id).map (·.1.id) := by
  rw [← addedSingly_items, List.map_map]
  rfl

theorem Reached.contains_iff (reached : Reached sr st (addedSingly st done) now) (id : BlockId) :
    HeaderStore.contains now.db id = true ↔
      HeaderStore.contains st.db id = true ∨ id ∈ done.map (·.1.id) ∧ HeaderStore.contains st.db id = false := by
  rw [History.contains_iff, stored_after reached.writes, presentAfter, ← History.contains_iff, ids_addedSingly]
  simp only [List.mem_map, List.mem_filter, Bool.not_eq_true']
  constructor
  · rintro (here | ⟨item, ⟨member, unstored⟩, rfl⟩)
    · exact .inl here
    · exact .inr ⟨⟨item, member, rfl⟩, unstored⟩
  · rintro (here | ⟨⟨item, member, rfl⟩, unstored⟩)
    · exact .inl here
    · exact .inr ⟨item, ⟨member, unstored⟩, rfl⟩

theorem Reached.oneByOne (appendable : Appendable sr st items) (split : items = done ++ rest)
    (reached : Reached sr st (addedSingly st done) now) :
    ∃ final, (appendOneByOne sr rest).exec now = (.ok (), final) ∧ Reached sr st (addedSingly st items) final := by
  induction rest generalizing done now with
  | nil =>
      rw [List.append_nil] at split
      subst split
      exact ⟨now, rfl, reached⟩
  | cons item rest ih =>
      have prefixed : done ++ [item] <+: items := ⟨rest, by rw [split]; simp⟩
      have member : item ∈ items := prefixed.subset (by simp)
      have next : ∃ selection after, (History.appendHeaderWithBytes sr item.1 item.2).exec now =
          (.ok selection, after) ∧ Reached sr st (addedSingly st (done ++ [item])) after := by
        rw [addedSingly_append, addSingly]
        cases stored : HeaderStore.contains st.db item.1.id with
        | true =>
            have still : HeaderStore.contains now.db item.1.id = true := (reached.contains_iff _).mpr (.inl stored)
            refine ⟨.ignored, now, ?_, by rw [if_pos rfl]; exact reached⟩
            unfold History.appendHeaderWithBytes History.appendHeaderInternal
            rw [Op.exec_bind_of_ok (Op.exec_get now), Op.exec_ite, if_pos still]
            rfl
        | false =>
            rw [if_neg (by simp)]
            apply reached.single
            · rw [Bool.eq_false_iff, ne_eq, reached.contains_iff]
              rintro (here | ⟨earlier, -⟩)
              · rw [stored] at here
                cases here
              · have distinct := appendable.distinct
                rw [split, List.map_append, List.nodup_append'] at distinct
                exact distinct.2.2 earlier (by simp)
            · intro high
              rw [reached.contains_iff]
              rcases appendable.parent prefixed high with earlier | here
              · cases parent : HeaderStore.contains st.db item.1.parentId with
                | true => exact .inl rfl
                | false => exact .inr ⟨earlier, rfl⟩
              · exact .inl here
            · exact appendable.parses item member
      obtain ⟨selection, after, ran, reachedNext⟩ := next
      obtain ⟨final, later, done⟩ := ih (by rw [split]; simp) reachedNext
      refine ⟨final, ?_, done⟩
      have first : (appendItem sr item).exec now = (.ok (), after) := by
        rw [appendItem, Op.exec_bind_of_ok ran]
        rfl
      exact (Op.exec_forEach_cons_of_ok first).trans later

end Singly

/-! ### The batch -/

/-- Each header whose parent is among the new ones comes after a header with its parent's cumulative
difficulty. -/
def TotalsAgree (added : List Added) : Prop :=
  ∀ i : Fin added.length, 2 < (added.get i).header.height →
    (added.get i).header.parentId ∈ ids (added.take i) →
      ((added.take i).getLast?).map (·.cumulative) =
        ((added.take i).find? (·.header.id = (added.get i).header.parentId)).map (·.cumulative)

instance (added : List Added) : Decidable (TotalsAgree added) := inferInstanceAs (Decidable (∀ _, _))

section Batch
variable {sr : SigmaRust} {st : State} {items done rest : List (Header × Bytes)} {added before : List Added}
variable {first : Header} {start : Nat} {acc : History.HeaderBatch}

theorem ids_batched (batched : Batched st.db start done added) :
    ids added = (done.filter fun item => !HeaderStore.contains st.db item.1.id).map (·.1.id) := by
  rw [← batched.fresh, List.map_map]
  rfl

theorem foldlM_addHeaderToBatch_ok (appendable : Appendable sr st items) (split : items = done ++ rest)
    (batched : Batched st.db start done added) (state : LoopState first start added acc) :
    ∃ next, rest.foldlM (History.addHeaderToBatch st.db) acc = .ok next := by
  induction rest generalizing done added acc with
  | nil => exact ⟨acc, rfl⟩
  | cons item rest ih =>
      have prefixed : done ++ [item] <+: items := ⟨rest, by rw [split]; simp⟩
      have turn : ∃ next, History.addHeaderToBatch st.db acc item = .ok next := by
        obtain ⟨header, rawBytes⟩ := item
        dsimp only [History.addHeaderToBatch]
        split
        · exact ⟨_, rfl⟩
        · rw [if_neg]
          · exact ⟨_, rfl⟩
          · rintro ⟨high, inBatch, missing⟩
            rw [state.headerIds, ids_batched batched] at inBatch
            rcases appendable.parent prefixed high with earlier | here
            · obtain ⟨parent, member, same⟩ := List.mem_map.mp earlier
              have same : parent.1.id = header.parentId := same
              have unstored : (!HeaderStore.contains st.db parent.1.id) = true := by rw [same]; exact missing
              have fresh : parent ∈ done.filter fun item => !HeaderStore.contains st.db item.1.id :=
                List.mem_filter.mpr ⟨member, unstored⟩
              have listed : header.parentId ∈ (done.filter fun item =>
                  !HeaderStore.contains st.db item.1.id).map (·.1.id) := List.mem_map.mpr ⟨parent, fresh, same⟩
              simp [listed] at inBatch
            · rw [here] at missing
              cases missing
      obtain ⟨next, turn⟩ := turn
      have split : items = (done ++ [item]) ++ rest := by rw [split]; simp
      have later : ∃ final, rest.foldlM (History.addHeaderToBatch st.db) next = .ok final := by
        rcases addHeaderToBatch_eq_ok state turn with ⟨stored, rfl⟩ |
          ⟨a, rfl, unstored, parent, cumulative, stateAfter⟩
        · exact ih split (batched_skip batched stored) state
        · exact ih split (batched_add batched unstored parent cumulative) stateAfter
      obtain ⟨final, later⟩ := later
      exact ⟨final, by rw [List.foldlM_cons, turn]; exact later⟩

/-- The best header compared with the batch's final one: the last new header, or the first header of the
list with its parent's cumulative difficulty. -/
def bestOfBatch (st : State) (first : Header) (added : List Added) : Option BlockId × Nat × Nat :=
  let cumulative := total (History.parentCumulative st.db first) added
  if cumulative > st.mem.bestCumulativeDifficulty then
    (some (((added.getLast?).map (·.header.id)).getD first.id),
      ((added.getLast?).map (·.header.height)).getD first.height, cumulative)
  else bestHeader st.mem

theorem bestOfBatch_append (st : State) (first : Header) (front : List Added) (last : Added) :
    bestOfBatch st first (front ++ [last]) = heavierOf (bestHeader st.mem) last := by
  simp only [bestOfBatch, total, List.getLast?_concat, Option.map_some, Option.getD_some]
  rfl

theorem appendHeadersBatched_reached {item : Header × Bytes} (appendable : Appendable sr st (item :: rest)) :
    ∃ selection after added, (History.appendHeadersBatched sr (item :: rest)).exec st = (.ok selection, after) ∧
      Batched st.db (History.parentCumulative st.db item.1) (item :: rest) added ∧
      Writes st.db.columns after.db.columns added ∧ bestHeader after.mem = bestOfBatch st item.1 added := by
  have start : LoopState item.1 (History.parentCumulative st.db item.1) []
      (History.HeaderBatch.start st.db item.1) := ⟨rfl, rfl, rfl, rfl, rfl, rfl⟩
  obtain ⟨acc, built⟩ := foldlM_addHeaderToBatch_ok appendable (List.nil_append _).symm (batched_nil st.db _) start
  obtain ⟨added, batched, state⟩ := foldlM_addHeaderToBatch start (batched_nil st.db _) built
  rw [List.nil_append] at batched
  have works : Database.writeFails st.db.faults = false := by rw [appendable.sound]; rfl
  have ran : (History.appendHeadersBatched sr (item :: rest)).exec st =
      (selectionAfter sr st (chainSelected st acc.batch acc.finalHeaderId acc.finalHeight
        acc.finalCumulativeDifficulty) acc.finalHeaderId acc.finalHeight acc.finalCumulativeDifficulty,
        chainSelected st acc.batch acc.finalHeaderId acc.finalHeight acc.finalCumulativeDifficulty) := by
    simp only [History.appendHeadersBatched]
    rw [Op.exec_bind_of_ok (Op.exec_get st), built, Op.exec_bind_of_ok (Op.exec_ofExcept _ st)]
    exact exec_selectChain sr works _ _ _ _
  have columns := chainSelected_columns st acc.batch acc.finalHeaderId acc.finalHeight acc.finalCumulativeDifficulty
  have mem := chainSelected_mem st acc.batch acc.finalHeaderId acc.finalHeight acc.finalCumulativeDifficulty
  generalize chainSelected st acc.batch acc.finalHeaderId acc.finalHeight acc.finalCumulativeDifficulty = after
    at ran columns mem
  have writes : Writes st.db.columns after.db.columns added := by
    rw [columns]
    apply writes_of_column
    intro cf known
    rw [bestHeader_column known, state.batch]
  have readable : Readable sr after.db := by
    refine appendable.readable.writes writes fun a member => ?_
    have fresh : (a.header, a.rawBytes) ∈ (item :: rest).filter fun item => !HeaderStore.contains st.db item.1.id := by
      rw [← batched.fresh]
      exact List.mem_map_of_mem member
    exact appendable.parses _ (List.mem_filter.mp fresh).1
  have here : HeaderStore.contains after.db acc.finalHeaderId = true := by
    obtain ⟨header, -, stored, same, -⟩ := final_stored batched writes
    rw [contains_iff, state.finalId, same]
    exact stored
  obtain ⟨selection, selected⟩ : ∃ selection, selectionAfter sr st after acc.finalHeaderId acc.finalHeight
      acc.finalCumulativeDifficulty = .ok selection := readable.selectionAfter here _ _
  refine ⟨selection, after, added, by rw [ran, selected], batched, writes, ?_⟩
  rw [mem, state.finalId, state.finalHeight, state.finalCumulative]
  exact apply_ite bestHeader _ _ _

/-! ### Both sides -/

theorem cumulativeAfter_of_mem (st : State) {id : BlockId} (distinct : (ids before).Nodup) (member : id ∈ ids before) :
    cumulativeAfter st before id = (before.find? (·.header.id = id)).map (·.cumulative) ∧
      (before.find? (·.header.id = id)).isSome := by
  cases found : before.find? (·.header.id = id) with
  | none =>
      obtain ⟨a, inBefore, rfl⟩ := List.mem_map.mp member
      have := List.find?_eq_none.mp found a inBefore
      simp at this
  | some a =>
      obtain rfl : a.header.id = id := by simpa using List.find?_some found
      exact ⟨Store.write_puts_of_mem _ distinct (List.mem_of_find?_eq_some found), rfl⟩

theorem nextCumulative_eq_iff {header : Header} (distinct : (ids before).Nodup) :
    nextCumulative st.db start before header = singleCumulative st before header ↔
      (2 < header.height → header.parentId ∈ ids before → (before.getLast?).map (·.cumulative) =
        (before.find? (·.header.id = header.parentId)).map (·.cumulative)) := by
  unfold nextCumulative singleCumulative
  rw [Nat.add_right_cancel_iff]
  by_cases high : 2 < header.height
  · rw [if_neg (Nat.not_le.mpr high)]
    by_cases inBefore : header.parentId ∈ ids before
    · obtain ⟨sum, known⟩ := cumulativeAfter_of_mem st distinct inBefore
      obtain ⟨parent, found⟩ := Option.isSome_iff_exists.mp known
      rcases before.eq_nil_or_concat with rfl | ⟨front, last, rfl⟩
      · simp [ids] at inBefore
      · rw [List.concat_eq_append] at *
        rw [if_pos ⟨high, inBefore⟩, sum, found, total, List.getLast?_concat]
        simp [high, inBefore]
    · have column : cumulativeAfter st before header.parentId =
          History.getCumulativeDifficulty st.db header.parentId := Store.write_puts_of_not_mem _ _ inBefore
      rw [if_neg fun both => inBefore both.2, column, History.parentCumulative, if_neg (Nat.not_le.mpr high)]
      simp [inBefore]
  · rw [if_neg fun both => high both.1, if_pos (Nat.not_lt.mp high), History.parentCumulative,
      if_pos (Nat.not_lt.mp high)]
    simp [high]

theorem addedSingly_cumulative (st : State) (items : List (Header × Bytes)) {a : Added}
    (prefixed : before ++ [a] <+: addedSingly st items) : a.cumulative = singleCumulative st before a.header := by
  induction items using List.reverseRecOn with
  | nil => simp [addedSingly] at prefixed
  | append_singleton done item ih =>
      rw [addedSingly_append, addSingly] at prefixed
      split at prefixed
      · exact ih prefixed
      · rcases List.prefix_concat_iff.mp prefixed with same | earlier
        · obtain ⟨rfl, last⟩ := List.append_inj' same rfl
          cases last
          rfl
        · exact ih earlier

theorem added_unique {rule : List Added → Header → Nat} {xs ys : List Added}
    (same : xs.map (fun a => (a.header, a.rawBytes)) = ys.map fun a => (a.header, a.rawBytes))
    (left : ∀ before a, before ++ [a] <+: xs → a.cumulative = rule before a.header)
    (right : ∀ before a, before ++ [a] <+: ys → a.cumulative = rule before a.header) : xs = ys := by
  induction xs using List.reverseRecOn generalizing ys with
  | nil => exact (List.map_eq_nil_iff.mp same.symm).symm
  | append_singleton front a ih =>
      rcases ys.eq_nil_or_concat with rfl | ⟨others, b, rfl⟩
      · simp at same
      · rw [List.concat_eq_append, List.map_append, List.map_append] at same
        obtain ⟨fronts, lasts⟩ := List.append_inj' same rfl
        have equal := ih fronts
          (fun before c prefixed => left before c (prefixed.trans (List.prefix_append front [a])))
          (fun before c prefixed => right before c
            (prefixed.trans (by rw [List.concat_eq_append]; exact List.prefix_append others [b])))
        subst equal
        have leftLast := left front a List.prefix_rfl
        have rightLast := right front b (by rw [List.concat_eq_append])
        obtain ⟨header, rawBytes, cumulative⟩ := a
        obtain ⟨otherHeader, otherBytes, otherCumulative⟩ := b
        simp only [List.map_cons, List.map_nil, List.cons.injEq, Prod.mk.injEq, and_true] at lasts
        obtain ⟨rfl, rfl⟩ := lasts
        have sums : cumulative = otherCumulative := leftLast.trans rightLast.symm
        rw [sums, List.concat_eq_append]

theorem batched_eq_iff (batched : Batched st.db start items added) (distinct : (items.map (·.1.id)).Nodup) :
    added = addedSingly st items ↔ TotalsAgree (addedSingly st items) := by
  have distinctSingly : (ids (addedSingly st items)).Nodup := by
    rw [ids_addedSingly]
    exact distinct.sublist (List.filter_sublist.map _)
  have distinctBefore {before : List Added} {a : Added} (prefixed : before ++ [a] <+: addedSingly st items) :
      (ids before).Nodup :=
    distinctSingly.sublist (((List.prefix_append before [a]).trans prefixed).sublist.map _)
  constructor
  · rintro rfl i high inBatch
    have prefixed : (addedSingly st items).take i ++ [(addedSingly st items).get i] <+: addedSingly st items := by
      rw [List.get_eq_getElem, ← List.take_succ_eq_append_getElem i.isLt]
      exact List.take_prefix ..
    have sums := (batched.step _ _ prefixed).2.symm.trans (addedSingly_cumulative st items prefixed)
    exact (nextCumulative_eq_iff (distinctBefore prefixed)).mp sums high inBatch
  · intro agree
    refine @added_unique (nextCumulative st.db start) _ _ (batched.fresh.trans (addedSingly_items st items).symm)
      (fun before a prefixed => (batched.step before a prefixed).2) fun before a prefixed => ?_
    rw [addedSingly_cumulative st items prefixed, eq_comm, nextCumulative_eq_iff (distinctBefore prefixed)]
    obtain ⟨rest, split⟩ := prefixed
    rw [← split] at agree
    have here := agree ⟨before.length, by simp⟩
    simpa only [List.get_eq_getElem, List.append_assoc, List.singleton_append, List.getElem_append_right,
      le_refl, Nat.sub_self, List.getElem_cons_zero, List.take_left] using here

end Batch

structure SameHistory (left right : State) : Prop where
  headers : left.db.columns.column .headers = right.db.columns.column .headers
  chain : left.db.columns.column .headerChain = right.db.columns.column .headerChain
  cumulative : left.db.columns.column .cumulativeDifficulty = right.db.columns.column .cumulativeDifficulty
  best : bestHeader left.mem = bestHeader right.mem

/-- Where the running total is each parent's sum, and the last header decides about the best one. -/
structure BatchAgrees (st : State) (items : List (Header × Bytes)) : Prop where
  totals : TotalsAgree (addedSingly st items)
  best : ∀ last ∈ (addedSingly st items).getLast?,
    LastHeaviest (bestHeader st.mem) (addedSingly st items) last
  skipped : addedSingly st items = [] → ∀ first ∈ items.head?,
    History.parentCumulative st.db first.1 ≤ st.mem.bestCumulativeDifficulty

section Agree
variable {sr : SigmaRust} {st left right : State} {items : List (Header × Bytes)} {added others : List Added}

theorem columns_eq_iff {before : Columns} (leftWrites : Writes before left.db.columns added)
    (rightWrites : Writes before right.db.columns others)
    (same : added.map (fun a => (a.header, a.rawBytes)) = others.map fun a => (a.header, a.rawBytes))
    (distinct : (ids added).Nodup) :
    (left.db.columns.column .headers = right.db.columns.column .headers ∧
      left.db.columns.column .headerChain = right.db.columns.column .headerChain ∧
      left.db.columns.column .cumulativeDifficulty = right.db.columns.column .cumulativeDifficulty) ↔
      added = others := by
  have idsSame : ids added = ids others := by
    have := congrArg (List.map (·.1.id)) same
    rwa [List.map_map, List.map_map] at this
  have distinctOthers : (ids others).Nodup := idsSame ▸ distinct
  constructor
  · rintro ⟨-, -, cumulative⟩
    have sums : added.map (fun a => ((a.header, a.rawBytes), a.cumulative)) =
        others.map fun a => ((a.header, a.rawBytes), a.cumulative) := by
      refine map_eq_map_of_keys same fun a inAdded b inOthers equal => ?_
      have key : a.header.id = b.header.id := congrArg (·.1.id) equal
      have atLeft : left.db.columns.column .cumulativeDifficulty a.header.id = some a.cumulative := by
        rw [leftWrites.cumulative]
        exact Store.write_puts_of_mem _ distinct inAdded
      have atRight : right.db.columns.column .cumulativeDifficulty b.header.id = some b.cumulative := by
        rw [rightWrites.cumulative]
        exact Store.write_puts_of_mem _ distinctOthers inOthers
      have equalSums : a.cumulative = b.cumulative := by
        rw [cumulative, key, atRight] at atLeft
        exact (Option.some.inj atLeft).symm
      rw [equal, equalSums]
    refine List.map_injective_iff.mpr (fun a b equal => ?_) sums
    obtain ⟨header, rawBytes, cumulative⟩ := a
    obtain ⟨otherHeader, otherBytes, otherCumulative⟩ := b
    simp only [Prod.mk.injEq] at equal
    obtain ⟨⟨rfl, rfl⟩, rfl⟩ := equal
    rfl
  · rintro rfl
    exact ⟨leftWrites.headers.trans rightWrites.headers.symm, leftWrites.chain.trans rightWrites.chain.symm,
      leftWrites.cumulative.trans rightWrites.cumulative.symm⟩

theorem bestOfBatch_eq_iff (distinct : (ids added).Nodup) (first : Header) :
    bestOfBatch st first added = added.foldl heavierOf (bestHeader st.mem) ↔
      (∀ last ∈ added.getLast?, LastHeaviest (bestHeader st.mem) added last) ∧
        (added = [] → History.parentCumulative st.db first ≤ st.mem.bestCumulativeDifficulty) := by
  rcases added.eq_nil_or_concat with rfl | ⟨front, last, rfl⟩
  · have base : bestOfBatch st first [] = if History.parentCumulative st.db first > st.mem.bestCumulativeDifficulty
        then (some first.id, first.height, History.parentCumulative st.db first) else bestHeader st.mem := rfl
    rw [base, List.foldl_nil]
    constructor
    · intro same
      refine ⟨by simp, fun _ => ?_⟩
      by_contra heavier
      rw [if_pos (Nat.lt_of_not_le heavier)] at same
      have equal : History.parentCumulative st.db first = st.mem.bestCumulativeDifficulty :=
        congrArg (·.2.2) same
      exact heavier equal.le
    · rintro ⟨-, light⟩
      exact if_neg (Nat.not_lt.mpr (light rfl))
  · rw [List.concat_eq_append] at *
    rw [bestOfBatch_append, eq_comm, foldl_heavierOf_eq_iff distinct, List.getLast?_concat]
    simp

/-- The batch does what its headers do one after the other exactly where no header of it builds on
another header than the one before, and the last one decides. -/
theorem appendHeadersBatched_agrees_iff (appendable : Appendable sr st items) :
    ((((∃ selection, ((History.appendHeadersBatched sr items).exec st).1 = .ok selection) ↔
        ((appendOneByOne sr items).exec st).1 = .ok ()) ∧
      SameHistory ((History.appendHeadersBatched sr items).exec st).2 ((appendOneByOne sr items).exec st).2)) ↔
      BatchAgrees st items := by
  cases items with
  | nil =>
      refine ⟨fun _ => ⟨fun i => i.elim0, by simp [addedSingly], by simp⟩, fun _ => ?_⟩
      exact ⟨⟨fun _ => rfl, fun _ => ⟨.ignored, rfl⟩⟩, rfl, rfl, rfl, rfl⟩
  | cons first rest =>
      obtain ⟨selection, after, added, ran, batched, batchWrites, batchBest⟩ := appendHeadersBatched_reached appendable
      obtain ⟨final, ranSingly, reached⟩ := Reached.oneByOne appendable (List.nil_append _).symm
        (reached_start appendable)
      have distinct : (ids added).Nodup := by
        rw [ids_batched batched]
        exact appendable.distinct.sublist (List.filter_sublist.map _)
      have columns := columns_eq_iff batchWrites reached.writes
        (batched.fresh.trans (addedSingly_items st (first :: rest)).symm) distinct
      have totals := batched_eq_iff batched appendable.distinct
      rw [ran, ranSingly]
      constructor
      · rintro ⟨-, same⟩
        have equal := columns.mp ⟨same.headers, same.chain, same.cumulative⟩
        have best := same.best
        rw [batchBest, reached.best, ← equal] at best
        obtain ⟨last, skipped⟩ := (bestOfBatch_eq_iff distinct first.1).mp best
        rw [equal] at last skipped
        exact ⟨totals.mp equal, last, fun none item isFirst => by
          obtain rfl : first = item := by simpa using isFirst
          exact skipped none⟩
      · intro agrees
        have equal := totals.mpr agrees.totals
        obtain ⟨headers, chain, cumulative⟩ := columns.mpr equal
        refine ⟨⟨fun _ => rfl, fun _ => ⟨selection, rfl⟩⟩, headers, chain, cumulative, ?_⟩
        rw [batchBest, reached.best, ← equal, bestOfBatch_eq_iff distinct, equal]
        exact ⟨agrees.best, fun none => agrees.skipped none first rfl⟩

end Agree

/-! ### Both branches in one batch -/

theorem readable_empty (sr : SigmaRust) (faults : List Bool) : Readable sr (emptyHistory faults).db := by
  rintro id bytes ⟨⟩

def branchesInOrder : List (Header × Bytes) :=
  [(Sample.header11, []), (Sample.header12, [0]), (Sample.header22, [0, 0, 0]), (Sample.header23, [0, 0, 0, 0])]

/-- Header 13 comes after the other branch. -/
def branchesMixed : List (Header × Bytes) := branchesInOrder ++ [(Sample.header13, [0, 0])]

theorem appendable_mixed : Appendable Sample.chainCodec (emptyHistory []) branchesMixed where
  sound := rfl
  readable := readable_empty _ _
  parses := by
    simp only [branchesMixed, branchesInOrder, List.cons_append, List.nil_append, List.forall_mem_cons]
    exact ⟨⟨_, rfl⟩, ⟨_, rfl⟩, ⟨_, rfl⟩, ⟨_, rfl⟩, ⟨_, rfl⟩, by simp⟩
  distinct := by decide
  parents := by decide

theorem appendable_inOrder : Appendable Sample.chainCodec (emptyHistory []) branchesInOrder where
  sound := rfl
  readable := readable_empty _ _
  parses item member := appendable_mixed.parses item (List.mem_append_left _ member)
  distinct := by decide
  parents := by decide

theorem branchesInOrder_agrees :
    (((∃ selection, ((History.appendHeadersBatched Sample.chainCodec branchesInOrder).exec (emptyHistory [])).1 =
          .ok selection) ↔
        ((appendOneByOne Sample.chainCodec branchesInOrder).exec (emptyHistory [])).1 = .ok ()) ∧
      SameHistory ((History.appendHeadersBatched Sample.chainCodec branchesInOrder).exec (emptyHistory [])).2
        ((appendOneByOne Sample.chainCodec branchesInOrder).exec (emptyHistory [])).2) :=
  (appendHeadersBatched_agrees_iff appendable_inOrder).mpr
    ⟨by decide, by decide, by decide⟩

/-- The batch adds header 13 to the sum of header 23 and takes it as the best header. -/
theorem branchesMixed_differ : Appendable Sample.chainCodec (emptyHistory []) branchesMixed ∧
    ¬ SameHistory ((History.appendHeadersBatched Sample.chainCodec branchesMixed).exec (emptyHistory [])).2
      ((appendOneByOne Sample.chainCodec branchesMixed).exec (emptyHistory [])).2 := by
  refine ⟨appendable_mixed, fun same => ?_⟩
  exact absurd same.best (by decide)

end ErgoNode.Proof.History
