import ErgoNode.Lib.Forest
import ErgoNode.Proof.History.Index

/-!
# The selection result

A header that becomes the best one should be reported as an extension where it is on top of the old best
header, else as a reorganisation from their last common ancestor. The code reports every higher header
as an extension. For the others it walks down the new branch to the first header that the height index
holds too, whichever branch has written the slot.
-/

namespace ErgoNode.Proof.History
open Lib

def HeaderTree.forest (tree : HeaderTree) : Forest BlockId where
  parent := parent tree.toHeaderTable
  level := height tree.toHeaderTable
  level_parent := tree.height_parent

def ReadsAs (sr : SigmaRust) (bytes : Bytes) (header : Header) : Prop :=
  ∃ parsed, sr.parseHeader bytes = .ok parsed ∧ { parsed with id := sr.blake2b256 bytes } = header

instance (sr : SigmaRust) (bytes : Bytes) (header : Header) : Decidable (ReadsAs sr bytes header) :=
  match parses : sr.parseHeader bytes with
  | .ok parsed => decidable_of_iff ({ parsed with id := sr.blake2b256 bytes } = header) (by simp [ReadsAs, parses])
  | .error _ => .isFalse (by simp [ReadsAs, parses])

/-- Every stored header is read back, down to its ancestor at height 2 at least, and slots and the best
header name stored headers. -/
structure Rooted (tree : HeaderTree) (sr : SigmaRust) (st : State) : Prop where
  reads : ∀ {id bytes}, st.db.get .headers id = some bytes → ReadsAs sr bytes (tree.header id)
  parents : ∀ {id}, stored st.db.columns id → 2 < tree.forest.level id →
    stored st.db.columns (tree.forest.parent id)
  slots : ∀ {h id}, slot st.db.columns h = some id → stored st.db.columns id
  positive : ∀ {id}, stored st.db.columns id → 0 < tree.forest.level id
  best : ∀ {id}, st.mem.bestHeaderId = some id →
    stored st.db.columns id ∧ st.mem.bestHeight = tree.forest.level id

structure Places (before after : Columns) (items : List (Header × Bytes)) : Prop where
  headers : after.column .headers = (before.column .headers).write (puts (·.1.id) (·.2) items)
  chain : after.column .headerChain = (before.column .headerChain).write (puts (·.1.height) (·.1.id) items)

section Places
variable {before after : Columns} {items : List (Header × Bytes)}

theorem places_of_writes {added : List Added} (writes : Writes before after added) :
    Places before after (added.map fun a => (a.header, a.rawBytes)) where
  headers := by
    rw [writes.headers, puts, puts, List.map_map]
    rfl
  chain := by
    rw [writes.chain, puts, puts, List.map_map]
    rfl

theorem Places.stored (places : Places before after items) (id : BlockId) :
    stored after id ↔ stored before id ∨ id ∈ items.map (·.1.id) := by
  rw [History.stored, places.headers]
  by_cases member : id ∈ items.map (·.1.id)
  · obtain ⟨_, -, -, now⟩ := Store.exists_of_write_puts (before.column .headers)
      (fun item : Header × Bytes => item.2) member
    simp [now, member]
  · rw [Store.write_puts_of_not_mem _ _ member, or_iff_left member]
    rfl

theorem Places.slot (places : Places before after items) (h : Nat) :
    (∃ item ∈ items, item.1.height = h ∧ slot after h = some item.1.id) ∨ slot after h = slot before h := by
  rw [History.slot, places.chain]
  by_cases member : h ∈ items.map (·.1.height)
  · exact .inl (Store.exists_of_write_puts _ (fun item : Header × Bytes => item.1.id) member)
  · exact .inr (Store.write_puts_of_not_mem _ _ member)

theorem Places.reads (places : Places before after items) {sr : SigmaRust} {header : BlockId → Header}
    (readable : ∀ item ∈ items, header item.1.id = item.1 ∧ ReadsAs sr item.2 item.1) {id : BlockId} {bytes : Bytes}
    (old : before.column .headers id = some bytes → ReadsAs sr bytes (header id))
    (held : after.column .headers id = some bytes) : ReadsAs sr bytes (header id) := by
  rw [places.headers] at held
  by_cases member : id ∈ items.map (·.1.id)
  · obtain ⟨item, inItems, rfl, now⟩ := Store.exists_of_write_puts (before.column .headers)
      (fun item : Header × Bytes => item.2) member
    rw [now, Option.some.injEq] at held
    rw [(readable item inItems).1, ← held]
    exact (readable item inItems).2
  · rw [Store.write_puts_of_not_mem _ _ member] at held
    exact old held

end Places

def bestPlace (history : ErgoNode.History) : Option BlockId × Nat := (history.bestHeaderId, history.bestHeight)

structure Widened (tree : HeaderTree) (before after : State) (items : List (Header × Bytes)) : Prop where
  headers : after.db.columns.column .headers =
    (before.db.columns.column .headers).write (puts (·.1.id) (·.2) items)
  chain : after.db.columns.column .headerChain =
    (before.db.columns.column .headerChain).write (puts (·.1.height) (·.1.id) items)
  best : bestPlace after.mem = bestPlace before.mem ∨ ∃ header, tree.header header.id = header ∧
    stored after.db.columns header.id ∧ bestPlace after.mem = (some header.id, header.height)

structure Writable (tree : HeaderTree) (sr : SigmaRust) (st : State) (ids : List BlockId)
    (item : Header × Bytes) : Prop where
  known : tree.header item.1.id = item.1
  positive : 0 < item.1.height
  reads : ReadsAs sr item.2 item.1
  parent : 2 < item.1.height → stored st.db.columns item.1.parentId ∨ item.1.parentId ∈ ids

section Widen
variable {tree : HeaderTree} {sr : SigmaRust} {st after : State} {items : List (Header × Bytes)}

theorem rooted_empty (tree : HeaderTree) (sr : SigmaRust) (faults : List Bool) :
    Rooted tree sr (emptyHistory faults) where
  reads none := nomatch none
  parents here := absurd rfl here
  slots none := nomatch none
  positive here := absurd rfl here
  best none := nomatch none

theorem Widened.places (widened : Widened tree st after items) : Places st.db.columns after.db.columns items :=
  ⟨widened.headers, widened.chain⟩

theorem Widened.stored (widened : Widened tree st after items) (id : BlockId) :
    stored after.db.columns id ↔ stored st.db.columns id ∨ id ∈ items.map (·.1.id) :=
  widened.places.stored id

theorem Widened.rooted (widened : Widened tree st after items) (rooted : Rooted tree sr st)
    (writable : ∀ item ∈ items, Writable tree sr st (items.map (·.1.id)) item) : Rooted tree sr after where
  reads := by
    intro id bytes held
    exact widened.places.reads (fun item inItems => ⟨(writable item inItems).known, (writable item inItems).reads⟩)
      rooted.reads held
  parents := by
    intro id here high
    rw [widened.stored]
    rcases (widened.stored id).mp here with old | new
    · exact .inl (rooted.parents old high)
    · obtain ⟨item, inItems, rfl⟩ := List.mem_map.mp new
      have known := (writable item inItems).known
      have level : tree.forest.level item.1.id = item.1.height := height_of_known known
      have same : tree.forest.parent item.1.id = item.1.parentId := congrArg Header.parentId known
      rw [same]
      exact (writable item inItems).parent (level ▸ high)
  slots := by
    intro h id there
    rw [widened.stored]
    rcases widened.places.slot h with ⟨item, inItems, rfl, now⟩ | kept
    · rw [now, Option.some.injEq] at there
      exact .inr (there ▸ List.mem_map_of_mem inItems)
    · exact .inl (rooted.slots (kept.symm.trans there))
  positive := by
    intro id here
    rcases (widened.stored id).mp here with old | new
    · exact rooted.positive old
    · obtain ⟨item, inItems, rfl⟩ := List.mem_map.mp new
      have level : tree.forest.level item.1.id = item.1.height := height_of_known (writable item inItems).known
      rw [level]
      exact (writable item inItems).positive
  best := by
    intro id isBest
    rcases widened.best with same | ⟨header, known, here, now⟩
    · simp only [bestPlace, Prod.mk.injEq] at same
      rw [same.1] at isBest
      obtain ⟨here, level⟩ := rooted.best isBest
      exact ⟨(widened.stored id).mpr (.inl here), same.2.trans level⟩
    · simp only [bestPlace, Prod.mk.injEq] at now
      rw [now.1, Option.some.injEq] at isBest
      rw [← isBest]
      exact ⟨here, now.2.trans (height_of_known known).symm⟩

theorem Rooted.of_columns (rooted : Rooted tree sr st)
    (headers : after.db.columns.column .headers = st.db.columns.column .headers)
    (chain : after.db.columns.column .headerChain = st.db.columns.column .headerChain)
    (mem : bestPlace after.mem = bestPlace st.mem) : Rooted tree sr after :=
  have widened : Widened tree st after [] := ⟨headers, chain, .inl mem⟩
  widened.rooted rooted (by simp)

theorem widened_of_writes {added : List Added} (writes : Writes st.db.columns after.db.columns added)
    (best : bestPlace after.mem = bestPlace st.mem ∨ ∃ header, tree.header header.id = header ∧
      History.stored after.db.columns header.id ∧ bestPlace after.mem = (some header.id, header.height)) :
    Widened tree st after (added.map fun a => (a.header, a.rawBytes)) where
  headers := (places_of_writes writes).headers
  chain := (places_of_writes writes).chain
  best := best

end Widen

/-! ### The walk -/

section Walk
variable {tree : HeaderTree} {sr : SigmaRust} {st : State} {id : BlockId}

theorem get_of_readsAs {db : Database} {bytes : Bytes} {header : Header}
    (held : db.get .headers id = some bytes) (reads : ReadsAs sr bytes header) :
    HeaderStore.get sr db id = .ok (some header) := by
  obtain ⟨parsed, parses, same⟩ := reads
  rw [HeaderStore.get, held]
  dsimp only
  rw [parses, ← same]
  rfl

theorem Rooted.get (rooted : Rooted tree sr st) (here : stored st.db.columns id) :
    HeaderStore.get sr st.db id = .ok (some (tree.header id)) := by
  obtain ⟨bytes, held⟩ := Option.ne_none_iff_exists'.mp here
  exact get_of_readsAs held (rooted.reads held)

theorem get_of_not_stored {db : Database} (missing : ¬ stored db.columns id) :
    HeaderStore.get sr db id = .ok none := by
  have none : db.get .headers id = none := not_not.mp missing
  rw [HeaderStore.get, none]
  rfl

theorem Rooted.stored_on (rooted : Rooted tree sr st) {k : Nat} (here : stored st.db.columns id) (two : 2 ≤ k)
    (low : k ≤ tree.forest.level id) : stored st.db.columns (tree.forest.on k id) := by
  induction same : tree.forest.level id - k generalizing id with
  | zero =>
      obtain rfl : k = tree.forest.level id := by omega
      rw [Forest.on_level]
      exact here
  | succ n ih =>
      have below := tree.forest.level_parent id (by omega)
      rw [← Forest.on_parent (by omega)]
      exact ih (rooted.parents here (by omega)) (by omega) (by omega)

/-- The walk ends at the highest slot with an ancestor of the new header, at height 1 if there is none. -/
theorem Rooted.walkToFork (rooted : Rooted tree sr st) {k : Nat}
    (here : ∀ j, 2 ≤ j → j ≤ k → stored st.db.columns (tree.forest.on j id)) (low : k ≤ tree.forest.level id) :
    History.walkToFork sr st.db (tree.forest.on k id) k = .ok (max 1
      (Nat.findGreatest (fun j => slot st.db.columns j = some (tree.forest.on j id)) k)) := by
  induction k with
  | zero => rfl
  | succ k ih =>
      have lower := ih (fun j two le => here j two (by omega)) (by omega)
      have up : (tree.header (tree.forest.on (k + 1) id)).parentId = tree.forest.on k id := by
        have steps : tree.forest.level id - k = tree.forest.level id - (k + 1) + 1 := by omega
        rw [Forest.on, Forest.on, steps, Function.iterate_succ_apply']
        rfl
      have goOn {found : Option Header} (inSlot : HeaderStore.getByHeight sr st.db (k + 1) = .ok found)
          (other : ∀ main ∈ found, main.id ≠ tree.forest.on (k + 1) id) :
          History.walkToFork sr st.db (tree.forest.on (k + 1) id) (k + 1) = .ok (max 1
            (Nat.findGreatest (fun j => slot st.db.columns j = some (tree.forest.on j id)) k)) := by
        by_cases stored : stored st.db.columns (tree.forest.on (k + 1) id)
        · rw [walkToFork_of_parent inSlot other (rooted.get stored), up]
          exact lower
        · have bottom : k = 0 := by
            by_contra above
            exact stored (here (k + 1) (by omega) (by omega))
          subst bottom
          rw [walkToFork_of_missing inSlot other (get_of_not_stored stored)]
          rfl
      rw [Nat.findGreatest_succ]
      cases found : slot st.db.columns (k + 1) with
      | none =>
          have inSlot : HeaderStore.getByHeight sr st.db (k + 1) = .ok none := by
            have found : st.db.get .headerChain (k + 1) = none := found
            rw [HeaderStore.getByHeight, found]
            rfl
          rw [if_neg (by simp)]
          exact goOn inSlot (by simp)
      | some main =>
          have inSlot : HeaderStore.getByHeight sr st.db (k + 1) = .ok (some (tree.header main)) := by
            have inStore := rooted.get (rooted.slots found)
            have found : st.db.get .headerChain (k + 1) = some main := found
            rw [HeaderStore.getByHeight, found]
            exact inStore
          by_cases same : main = tree.forest.on (k + 1) id
          · rw [walkToFork_of_found inSlot ((tree.id_header main).trans same), if_pos (congrArg some same)]
            exact congrArg Except.ok (Nat.max_eq_right (Nat.le_add_left 1 k)).symm
          · rw [if_neg (by simpa using same)]
            refine goOn inSlot fun other member equal => same ?_
            obtain rfl := Option.mem_some.mp member
            exact (tree.id_header main).symm.trans equal

end Walk

/-! ### One header -/

/-- What is to be returned where `header` has become the best header after `old`. -/
structure SelectsRight (tree : HeaderTree) (st : State) (old : BlockId) (header : Header)
    (result : StateResult ChainSelection) : Prop where
  extended : tree.forest.IsAncestor old header.id → result = .ok .extended
  reorg : ¬ tree.forest.IsAncestor old header.id → ∃ fork, tree.forest.LastCommon fork old header.id ∧
    tree.forest.level fork ≤ st.mem.bestHeight ∧
    result = .ok (.reorg (tree.forest.level fork) (st.mem.bestHeight - tree.forest.level fork))

/-- A higher header is on top of the old best one. For any other, the index holds the last common
ancestor, unless it is the root, and nothing of the new branch above it. -/
def IndexShowsFork (tree : HeaderTree) (st : State) (old : BlockId) (header : Header) : Prop :=
  if st.mem.bestHeight < header.height then tree.forest.IsAncestor old header.id
  else
    let fork := tree.forest.forkLevel old header.id
    (fork = 1 ∨ slot st.db.columns fork = some (tree.forest.on fork header.id)) ∧
      ∀ k < header.height, fork < k → slot st.db.columns k ≠ some (tree.forest.on k header.id)

instance (tree : HeaderTree) (st : State) (old : BlockId) (header : Header) :
    Decidable (IndexShowsFork tree st old header) :=
  inferInstanceAs (Decidable (ite _ _ _))

section Select
variable {tree : HeaderTree} {sr : SigmaRust} {st : State} {old : BlockId} {header : Header}
variable {rawBytes : Option Bytes} {a b : BlockId}

theorem HeaderTree.on_one (positive : 0 < tree.forest.level a) : tree.forest.on 1 a = tree.root :=
  tree.height_root _ (Forest.level_on positive)

theorem HeaderTree.forkLevel_pos (left : 0 < tree.forest.level a) (right : 0 < tree.forest.level b) :
    0 < tree.forest.forkLevel a b :=
  Forest.le_forkLevel left right ((tree.on_one left).trans (tree.on_one right).symm)

theorem HeaderTree.on_zero (left : 0 < tree.forest.level a) (right : 0 < tree.forest.level b) :
    tree.forest.on 0 a = tree.forest.on 0 b :=
  Forest.on_eq_of_le (Nat.zero_le 1) left right ((tree.on_one left).trans (tree.on_one right).symm)

theorem max_findGreatest_eq_iff {P : Nat → Prop} [DecidablePred P] {n level : Nat} (one : 1 ≤ level)
    (low : level ≤ n ∨ level = 1) :
    max 1 (Nat.findGreatest P n) = level ↔ (level = 1 ∨ P level) ∧ ∀ k ≤ n, level < k → ¬ P k := by
  constructor
  · rintro rfl
    refine ⟨?_, fun k le above => Nat.findGreatest_is_greatest (by omega) le⟩
    rcases Nat.eq_zero_or_pos (Nat.findGreatest P n) with zero | positive
    · exact .inl (by rw [zero]; rfl)
    · right
      rw [Nat.max_eq_right positive]
      exact Nat.findGreatest_of_ne_zero rfl (Nat.ne_of_gt positive)
  · rintro ⟨here, above⟩
    have le : Nat.findGreatest P n ≤ level := by
      by_contra higher
      exact above _ (Nat.findGreatest_le n) (by omega)
        (Nat.findGreatest_of_ne_zero rfl (by omega))
    rcases here with rfl | here
    · omega
    · rcases low with low | rfl
      · have := Nat.le_findGreatest low here
        omega
      · omega

theorem slot_headerAppended {raw : Bytes} {h : Nat} (other : h ≠ header.height) :
    slot (headerAppended st header raw).db.columns h = slot st.db.columns h := by
  rw [slot, (appended_headerAppended st header raw).writes.chain]
  exact Store.write_puts_of_not_mem _ _ (by simpa using other)

theorem widened_headerAppended (known : tree.header header.id = header) (raw : Bytes) :
    Widened tree st (headerAppended st header raw) [(header, raw)] := by
  have appended := appended_headerAppended st header raw
  refine widened_of_writes appended.writes ?_
  rw [appended.best]
  split
  · exact .inr ⟨header, known, (stored_after appended.writes _).mpr (.inr (by simp [ids])), rfl⟩
  · exact .inl rfl

theorem appended_of_best (isBest : st.mem.bestHeaderId = some old) (other : old ≠ header.id)
    (became : ((History.appendHeaderInternal sr header rawBytes).exec st).2.mem.bestHeaderId = some header.id) :
    ∃ raw, History.headerBatch sr header rawBytes = .ok (HeaderStore.putWithBytesBatched [] header raw) ∧
      HeaderStore.contains st.db header.id = false ∧
      (2 < header.height → HeaderStore.contains st.db header.parentId = true) ∧
      st.mem.bestCumulativeDifficulty < singleSum st header ∧
      (History.appendHeaderInternal sr header rawBytes).exec st =
        (selectionAfter sr st (headerAppended st header raw) header.id header.height (singleSum st header),
          headerAppended st header raw) := by
  have notYet : st.mem.bestHeaderId ≠ some header.id := by
    rw [isBest]
    exact fun same => other (Option.some.inj same)
  rcases appendHeaderInternal_cases sr st header rawBytes with
    ⟨-, mem⟩ | ⟨raw, encoded, unstored, parent, works, half⟩
  · rw [mem] at became
    exact absurd became notYet
  · rcases fails : Database.writeFails st.db.faults.tail with _ | _
    · have ran := exec_appendHeaderInternal works fails unstored parent encoded
      refine ⟨raw, encoded, unstored, parent, ?_, ran⟩
      rw [ran, (appended_headerAppended st header raw).best] at became
      by_contra light
      rw [if_neg light] at became
      exact notYet became
    · rw [(half fails).2] at became
      exact absurd became notYet

theorem findForkHeight_headerAppended (rooted : Rooted tree sr st) (known : tree.header header.id = header)
    (positive : 0 < header.height) {raw : Bytes} (reads : ReadsAs sr raw header)
    (parentHere : 2 < header.height → HeaderStore.contains st.db header.parentId = true) :
    History.findForkHeight sr (headerAppended st header raw).db header.id =
      .ok (max 1 (Nat.findGreatest (fun j => slot (headerAppended st header raw).db.columns j =
        some (tree.forest.on j header.id)) (header.height - 1))) := by
  have level : tree.forest.level header.id = header.height := height_of_known known
  have rootedAfter : Rooted tree sr (headerAppended st header raw) := by
    refine (widened_headerAppended known raw).rooted rooted fun item member => ?_
    obtain rfl := List.mem_singleton.mp member
    exact ⟨known, positive, reads, fun high => .inl ((contains_iff _ _).mp (parentHere high))⟩
  have here : stored (headerAppended st header raw).db.columns header.id :=
    (stored_after (appended_headerAppended st header raw).writes _).mpr (.inr (by simp [ids]))
  have start : header.parentId = tree.forest.on (header.height - 1) header.id := by
    have steps : tree.forest.level header.id - (header.height - 1) = 1 := by omega
    rw [Forest.on, steps]
    exact (congrArg Header.parentId known).symm
  have walk := rootedAfter.walkToFork (k := header.height - 1)
    (fun j two le => rootedAfter.stored_on here two (by omega)) (by omega)
  rw [History.findForkHeight, rootedAfter.get here, known, ← walk, ← start]
  rfl

theorem Rooted.forkLevel_of_not_stored (rooted : Rooted tree sr st) (here : stored st.db.columns old)
    (absent : ¬ stored st.db.columns a) (bottom : tree.forest.on 0 old = tree.forest.on 0 a) :
    tree.forest.forkLevel old a ≤ tree.forest.level a - 1 ∨ tree.forest.forkLevel old a = 1 := by
  have le := @Forest.forkLevel_le _ tree.forest old a _
  by_contra top
  have equal : tree.forest.forkLevel old a = tree.forest.level a := by omega
  have meet := Forest.on_forkLevel bottom
  rw [equal, Forest.on_level] at meet
  have inStore := rooted.stored_on here (k := tree.forest.level a) (by omega) (by omega)
  rw [meet] at inStore
  exact absent inStore

theorem selectsRight_reorg_iff {depth : Nat} (apart : ¬ tree.forest.IsAncestor old header.id)
    (bottom : tree.forest.on 0 old = tree.forest.on 0 header.id) (height : st.mem.bestHeight = tree.forest.level old) :
    SelectsRight tree st old header (.ok (.reorg depth (st.mem.bestHeight - depth))) ↔
      depth = tree.forest.forkLevel old header.id := by
  constructor
  · intro right
    obtain ⟨fork, common, -, result⟩ := right.reorg apart
    injection result with result
    injection result with equal _
    exact equal.trans (common.level_eq bottom)
  · rintro rfl
    refine ⟨fun ancestor => absurd ancestor apart, fun _ => ⟨_, Forest.lastCommon_forkLevel bottom, ?_, ?_⟩⟩
    · rw [Forest.level_on Forest.forkLevel_le.2, height]
      exact Forest.forkLevel_le.1
    · rw [Forest.level_on Forest.forkLevel_le.2]

/-- The result is right exactly where the height index shows the last common ancestor. -/
theorem selectsRight_iff (rooted : Rooted tree sr st) (known : tree.header header.id = header)
    (positive : 0 < header.height)
    (reads : ∀ raw, History.headerBatch sr header rawBytes = .ok (HeaderStore.putWithBytesBatched [] header raw) →
      ReadsAs sr raw header)
    (isBest : st.mem.bestHeaderId = some old) (other : old ≠ header.id)
    (became : ((History.appendHeaderInternal sr header rawBytes).exec st).2.mem.bestHeaderId = some header.id) :
    SelectsRight tree st old header ((History.appendHeaderInternal sr header rawBytes).exec st).1 ↔
      IndexShowsFork tree st old header := by
  obtain ⟨raw, encoded, unstored, parentHere, heavier, ran⟩ := appended_of_best isBest other became
  obtain ⟨oldStored, oldHeight⟩ := rooted.best isBest
  have level : tree.forest.level header.id = header.height := height_of_known known
  have oldPositive := rooted.positive oldStored
  have bottom := HeaderTree.on_zero oldPositive (level ▸ positive)
  have one := HeaderTree.forkLevel_pos oldPositive (level ▸ positive)
  rw [ran, selectionAfter, if_pos heavier, IndexShowsFork]
  by_cases higher : st.mem.bestHeight < header.height
  · rw [if_neg (by omega), if_pos higher]
    constructor
    · intro right
      by_contra apart
      obtain ⟨fork, -, -, result⟩ := right.reorg apart
      cases result
    · exact fun above => ⟨fun _ => rfl, fun apart => absurd above apart⟩
  · rw [if_pos ⟨by omega, by omega⟩, if_neg higher]
    have apart : ¬ tree.forest.IsAncestor old header.id := by
      rintro ⟨le, same⟩
      have equal : tree.forest.level old = tree.forest.level header.id := by omega
      rw [equal, Forest.on_level] at same
      exact other same.symm
    have absent : ¬ stored st.db.columns header.id := by
      rw [← contains_iff, unstored]
      exact Bool.false_ne_true
    have low := rooted.forkLevel_of_not_stored oldStored absent bottom
    rw [level] at low
    have slots (k : Nat) (below : k < header.height) :
        slot (headerAppended st header raw).db.columns k = slot st.db.columns k :=
      slot_headerAppended (Nat.ne_of_lt below)
    have found := findForkHeight_headerAppended rooted known positive (reads raw encoded) parentHere
    rw [found]
    refine (selectsRight_reorg_iff apart bottom oldHeight).trans ((max_findGreatest_eq_iff one low).trans ?_)
    refine and_congr ?_ ?_
    · by_cases root : tree.forest.forkLevel old header.id = 1
      · simp [root]
      · rw [slots _ (by omega)]
    · constructor
      · intro above k below beyond
        rw [← slots k below]
        exact above k (by omega) beyond
      · intro above k le beyond
        rw [slots k (by omega)]
        exact above k (by omega) beyond

end Select

end ErgoNode.Proof.History
