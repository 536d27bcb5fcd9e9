import ErgoNode.Lib.Entries
import ErgoNode.Proof.Sample
import ErgoNode.Sync.Headers

/-!
# The map of waiting headers

The map lists under each parent the headers that wait for it, and all of them by height; both lists are
made again from the entries whenever these change.
-/

namespace ErgoNode.Proof.Sync
open Lib

/-! ### Headers that wait -/

section Pending
variable {map : PendingHeadersMap} {id other parentId : Bytes} {pending found : PendingHeader}

def Waits (map : PendingHeadersMap) (parentId id : Bytes) : Prop := id ∈ (map.byParent.lookup parentId).getD []

theorem lookup_remove (here : (map.remove id).byId.lookup other = some found) : map.byId.lookup other = some found := by
  unfold PendingHeadersMap.remove at here
  split at here
  · exact here
  · by_cases same : other = id
    · subst same
      rw [AList.lookup_erase] at here
      cases here
    · rwa [AList.lookup_erase_ne same] at here

theorem waits_remove (here : Waits (map.remove id) parentId other) : Waits map parentId other := by
  unfold Waits PendingHeadersMap.remove at *
  split at here
  · exact here
  · next pending _ =>
      dsimp only at here
      split at here
      · next children listed =>
          by_cases same : parentId = pending.parentId
          · subst same
            split at here
            · rw [AList.lookup_erase] at here
              cases here
            · rw [AList.lookup_insert] at here
              rw [listed]
              exact List.mem_of_mem_erase here
          · split at here
            · rwa [AList.lookup_erase_ne same] at here
            · rwa [AList.lookup_insert_ne same] at here
      · exact here

theorem evict_cases (map : PendingHeadersMap) (maxSize : Nat) :
    map.evict maxSize = map ∨ ∃ id, map.evict maxSize = map.remove id := by
  unfold PendingHeadersMap.evict
  split
  · split
    · exact .inr ⟨_, rfl⟩
    · exact .inl rfl
  · exact .inl rfl

theorem lookup_insert {maxSize : Nat} (here : (map.insert id pending maxSize).byId.lookup other = some found) :
    (other = id ∧ found = pending) ∨ map.byId.lookup other = some found := by
  have now : ((map.evict maxSize).byId.insert id pending).lookup other = some found := here
  by_cases same : other = id
  · subst same
    rw [AList.lookup_insert] at now
    exact .inl ⟨rfl, (Option.some.inj now).symm⟩
  · rw [AList.lookup_insert_ne same] at now
    rcases evict_cases map maxSize with unchanged | ⟨gone, removed⟩
    · rw [unchanged] at now
      exact .inr now
    · rw [removed] at now
      exact .inr (lookup_remove now)

theorem waits_insert {maxSize : Nat} (here : Waits (map.insert id pending maxSize) parentId other) :
    (parentId = pending.parentId ∧ other = id) ∨ Waits map parentId other := by
  have kept (before : Waits (map.evict maxSize) parentId other) : Waits map parentId other := by
    rcases evict_cases map maxSize with unchanged | ⟨gone, removed⟩
    · rwa [unchanged] at before
    · rw [removed] at before
      exact waits_remove before
  have now : other ∈ ((((map.evict maxSize).byParent.insert pending.parentId
      ((((map.evict maxSize).byParent.lookup pending.parentId).getD []).insert id)).lookup parentId).getD []) := here
  by_cases same : parentId = pending.parentId
  · subst same
    rw [AList.lookup_insert, Option.getD_some, List.mem_insert_iff] at now
    rcases now with rfl | before
    · exact .inl ⟨rfl, rfl⟩
    · exact .inr (kept before)
  · rw [AList.lookup_insert_ne same] at now
    exact .inr (kept now)

theorem mem_getByParent {order : SetOrder} (member : (id, pending) ∈ map.getByParent order parentId) :
    Waits map parentId id ∧ map.byId.lookup id = some pending := by
  obtain ⟨child, listed, same⟩ := List.mem_filterMap.mp member
  obtain ⟨entry, here, equal⟩ := Option.map_eq_some_iff.mp same
  cases equal
  exact ⟨(order.perm _).mem_iff.mp listed, here⟩

end Pending

/-! ### The map of waiting headers -/

section Pending
variable {map : PendingHeadersMap} {id other parentId : Bytes} {pending : PendingHeader}

def waitingFor (map : PendingHeadersMap) (parentId : Bytes) : List Bytes := (map.byParent.lookup parentId).getD []

/-- Every waiting header is listed under its parent, once, and nothing else is. -/
structure Listing (map : PendingHeadersMap) : Prop where
  listed : ∀ {parentId id}, id ∈ waitingFor map parentId ↔
    ∃ pending, map.byId.lookup id = some pending ∧ pending.parentId = parentId
  once : ∀ parentId, (waitingFor map parentId).Nodup

theorem listing_new : Listing .new where
  listed := by simp [PendingHeadersMap.new, waitingFor]
  once parentId := by simp [PendingHeadersMap.new, waitingFor]

structure Indexed (map : PendingHeadersMap) : Prop where
  keyed : ∀ {id pending}, map.byId.lookup id = some pending →
    pending.header.id.bytes = id ∧ pending.parentId = pending.header.parentId.bytes
  listed : ∀ {parentId id}, id ∈ waitingFor map parentId ↔
    ∃ pending, map.byId.lookup id = some pending ∧ pending.parentId = parentId
  once : ∀ parentId, (waitingFor map parentId).Nodup

theorem indexed_new : Indexed .new where
  keyed here := by simp [PendingHeadersMap.new] at here
  listed := listing_new.listed
  once := listing_new.once

theorem Indexed.listing (indexed : Indexed map) : Listing map := ⟨indexed.listed, indexed.once⟩

theorem lookup_remove_eq :
    (map.remove id).byId.lookup other = if other = id then none else map.byId.lookup other := by
  unfold PendingHeadersMap.remove
  by_cases same : other = id
  · subst same
    cases held : map.byId.lookup other with
    | none => simp [held]
    | some pending => simp
  · cases held : map.byId.lookup id with
    | none => simp [same]
    | some pending => simp [same]

theorem waitingFor_remove (here : map.byId.lookup id = some pending) :
    waitingFor (map.remove id) parentId =
      if parentId = pending.parentId then (waitingFor map parentId).erase id else waitingFor map parentId := by
  unfold waitingFor PendingHeadersMap.remove
  rw [here]
  dsimp only
  by_cases same : parentId = pending.parentId
  · subst same
    rw [if_pos rfl]
    cases listed : map.byParent.lookup pending.parentId with
    | none => simp [listed]
    | some children =>
        dsimp only
        split
        · next none => simp [none]
        · simp
  · rw [if_neg same]
    cases listed : map.byParent.lookup pending.parentId with
    | none => rfl
    | some children =>
        dsimp only
        split <;> simp [same]

theorem remove_of_lookup_eq_none (absent : map.byId.lookup id = none) : map.remove id = map := by
  unfold PendingHeadersMap.remove
  rw [absent]

theorem Listing.remove (listing : Listing map) (id : Bytes) : Listing (map.remove id) := by
  cases here : map.byId.lookup id with
  | none =>
      rw [remove_of_lookup_eq_none here]
      exact listing
  | some pending =>
      constructor
      case listed =>
        intro parentId other
        rw [waitingFor_remove here]
        simp only [lookup_remove_eq, Option.ite_none_left_eq_some]
        by_cases same : parentId = pending.parentId
        · rw [if_pos same, (listing.once parentId).mem_erase_iff, listing.listed]
          simp only [and_assoc, exists_and_left]
        · rw [if_neg same, listing.listed]
          refine exists_congr fun found => ⟨?_, fun ⟨⟨_, held⟩, parent⟩ => ⟨held, parent⟩⟩
          rintro ⟨held, parent⟩
          refine ⟨⟨?_, held⟩, parent⟩
          rintro rfl
          rw [here] at held
          cases held
          exact same parent.symm
      case once =>
        intro parentId
        rw [waitingFor_remove here]
        split
        · exact (listing.once parentId).erase id
        · exact listing.once parentId

theorem Indexed.remove (indexed : Indexed map) (id : Bytes) : Indexed (map.remove id) where
  keyed held := indexed.keyed (lookup_remove held)
  listed := (indexed.listing.remove id).listed
  once := (indexed.listing.remove id).once

section Insert
variable {maxSize : Nat}

theorem evict_of_lt (room : map.len < maxSize) : map.evict maxSize = map := by
  unfold PendingHeadersMap.evict
  rw [if_neg (Nat.not_le.mpr room)]

theorem lookup_insert_evict : (map.insert id pending maxSize).byId.lookup other =
    if other = id then some pending else (map.evict maxSize).byId.lookup other := by
  unfold PendingHeadersMap.insert
  by_cases same : other = id
  · subst same
    simp
  · simp [same]

theorem lookup_insert_eq (room : map.len < maxSize) :
    (map.insert id pending maxSize).byId.lookup other = if other = id then some pending else map.byId.lookup other := by
  rw [lookup_insert_evict, evict_of_lt room]

theorem waitingFor_insert : waitingFor (map.insert id pending maxSize) parentId =
    if parentId = pending.parentId then (waitingFor (map.evict maxSize) parentId).insert id
    else waitingFor (map.evict maxSize) parentId := by
  unfold waitingFor PendingHeadersMap.insert
  by_cases same : parentId = pending.parentId
  · subst same
    simp
  · simp [same]

theorem Listing.evict (listing : Listing map) (maxSize : Nat) : Listing (map.evict maxSize) := by
  rcases evict_cases map maxSize with same | ⟨evicted, same⟩
  · rw [same]
    exact listing
  · rw [same]
    exact listing.remove evicted

theorem lookup_evict (here : (map.evict maxSize).byId.lookup id = some pending) :
    map.byId.lookup id = some pending := by
  rcases evict_cases map maxSize with unchanged | ⟨evicted, removed⟩
  · rwa [unchanged] at here
  · rw [removed] at here
    exact lookup_remove here

theorem Listing.insert (listing : Listing map)
    (again : ∀ {old}, map.byId.lookup id = some old → old.parentId = pending.parentId) :
    Listing (map.insert id pending maxSize) := by
  have evicted := listing.evict maxSize
  constructor
  case listed =>
    intro parentId other
    rw [waitingFor_insert]
    simp only [lookup_insert_evict]
    by_cases same : other = id
    · subst same
      simp only [if_pos, Option.some.injEq, exists_eq_left']
      by_cases mine : parentId = pending.parentId
      · simp [mine]
      · rw [if_neg mine, evicted.listed]
        constructor
        · rintro ⟨old, held, parent⟩
          exact (again (lookup_evict held)).symm.trans parent
        · exact fun equal => absurd equal.symm mine
    · rw [if_neg same, ← evicted.listed]
      split
      · simp [same]
      · rfl
  case once =>
    intro parentId
    rw [waitingFor_insert]
    split
    · exact (evicted.once parentId).insert
    · exact evicted.once parentId

theorem Indexed.insert (indexed : Indexed map) (room : map.len < maxSize) (key : pending.header.id.bytes = id)
    (parent : pending.parentId = pending.header.parentId.bytes)
    (again : ∀ {old}, map.byId.lookup id = some old → old.parentId = pending.parentId) :
    Indexed (map.insert id pending maxSize) where
  keyed := by
    intro other found held
    rw [lookup_insert_eq room] at held
    split at held
    · next same =>
        cases held
        exact ⟨key.trans same.symm, parent⟩
    · exact indexed.keyed held
  listed := (indexed.listing.insert again).listed
  once := (indexed.listing.insert again).once

end Insert

theorem Indexed.mem_getByParent {order : SetOrder} (indexed : Indexed map) :
    (id, pending) ∈ map.getByParent order parentId ↔ map.byId.lookup id = some pending ∧ pending.parentId = parentId := by
  have listed := @Indexed.listed map indexed parentId id
  unfold PendingHeadersMap.getByParent
  rw [List.mem_filterMap]
  constructor
  · rintro ⟨child, member, same⟩
    obtain ⟨entry, here, equal⟩ := Option.map_eq_some_iff.mp same
    cases equal
    obtain ⟨found, held, parent⟩ := listed.mp ((order.perm _).mem_iff.mp member)
    rw [here] at held
    cases held
    exact ⟨here, parent⟩
  · rintro ⟨here, parent⟩
    exact ⟨id, (order.perm _).mem_iff.mpr (listed.mpr ⟨pending, here, parent⟩), by simp [here]⟩

theorem sublist_waiting (byId : Table Bytes PendingHeader) (ids : List Bytes) :
    ((ids.filterMap fun id => (byId.lookup id).map fun pending => (id, pending)).map Prod.fst).Sublist ids := by
  induction ids with
  | nil => exact .refl _
  | cons child rest ih =>
      rw [List.filterMap_cons]
      cases byId.lookup child with
      | none => exact ih.cons child
      | some pending => exact ih.cons_cons child

theorem Indexed.nodup_getByParent (indexed : Indexed map) (order : SetOrder) (parentId : Bytes) :
    ((map.getByParent order parentId).map Prod.fst).Nodup := by
  have once := (order.perm _).nodup_iff.mpr (indexed.once parentId)
  exact once.sublist (sublist_waiting map.byId _)

end Pending

/-! ### How many headers wait -/

section Order
variable {entry first second third : Nat × Bytes} {entries : List (Nat × Bytes)}

theorem precedes_iff : PendingHeadersMap.precedes first second = true ↔
    first.1 < second.1 ∨ first.1 = second.1 ∧ first.2 < second.2 := by
  simp [PendingHeadersMap.precedes]

theorem precedes_irrefl (entry : Nat × Bytes) : PendingHeadersMap.precedes entry entry = false := by
  simp [PendingHeadersMap.precedes]

theorem precedes_trans (before : PendingHeadersMap.precedes first second = true)
    (after : PendingHeadersMap.precedes second third = true) : PendingHeadersMap.precedes first third = true := by
  rw [precedes_iff] at *
  rcases before with lower | ⟨same, less⟩
  · rcases after with higher | ⟨equal, -⟩
    · exact .inl (Nat.lt_trans lower higher)
    · exact .inl (equal ▸ lower)
  · rcases after with higher | ⟨equal, more⟩
    · exact .inl (same ▸ higher)
    · exact .inr ⟨same.trans equal, List.lt_trans less more⟩

theorem precedes_of_not (different : first ≠ second) (upper : ¬ PendingHeadersMap.precedes second first = true) :
    PendingHeadersMap.precedes first second = true := by
  rw [precedes_iff] at *
  obtain ⟨height, id⟩ := first
  obtain ⟨otherHeight, otherId⟩ := second
  rcases Nat.lt_trichotomy height otherHeight with lower | same | higher
  · exact .inl lower
  · subst same
    refine .inr ⟨rfl, ?_⟩
    by_contra less
    have most : id ≤ otherId := List.not_lt.mp fun more => upper (.inr ⟨rfl, more⟩)
    have equal : id = otherId := List.le_antisymm most (List.not_lt.mp less)
    exact different (congrArg _ equal)
  · exact absurd (.inl higher) upper

theorem mem_insertByHeight : second ∈ PendingHeadersMap.insertByHeight entry entries ↔
    second = entry ∨ second ∈ entries := by
  induction entries with
  | nil => simp [PendingHeadersMap.insertByHeight]
  | cons first rest ih =>
      rw [PendingHeadersMap.insertByHeight]
      split
      · next same => simp [same]
      · split
        · simp
        · rw [List.mem_cons, ih, List.mem_cons]
          tauto

theorem sorted_insertByHeight (sorted : entries.Pairwise fun a b => PendingHeadersMap.precedes a b = true) :
    (PendingHeadersMap.insertByHeight entry entries).Pairwise fun a b => PendingHeadersMap.precedes a b = true := by
  induction sorted with
  | nil => simp [PendingHeadersMap.insertByHeight]
  | @cons first rest lowest later ih =>
      rw [PendingHeadersMap.insertByHeight]
      split
      · exact .cons lowest later
      · next different =>
          split
          · next before =>
              refine .cons (fun other member => ?_) (.cons lowest later)
              rcases List.mem_cons.mp member with rfl | inside
              · exact before
              · exact precedes_trans before (lowest other inside)
          · next upper =>
              refine .cons (fun other member => ?_) ih
              rcases mem_insertByHeight.mp member with rfl | inside
              · exact precedes_of_not different upper
              · exact lowest other inside

theorem nodup_of_sorted (sorted : entries.Pairwise fun a b => PendingHeadersMap.precedes a b = true) :
    entries.Nodup :=
  sorted.imp fun before same => by
    subst same
    rw [precedes_irrefl] at before
    cases before

end Order

/-- The waiting headers by height: each once, under its height, and nothing else. -/
structure Ranked (map : PendingHeadersMap) : Prop where
  sorted : map.byHeight.Pairwise fun a b => PendingHeadersMap.precedes a b = true
  listed : ∀ {height id}, (height, id) ∈ map.byHeight ↔
    ∃ pending, map.byId.lookup id = some pending ∧ pending.header.height = height

section Ranked
variable {map : PendingHeadersMap} {id : Bytes} {pending : PendingHeader} {maxSize : Nat}

theorem ranked_new : Ranked .new where
  sorted := .nil
  listed := by simp [PendingHeadersMap.new]

theorem Ranked.remove (ranked : Ranked map) (id : Bytes) : Ranked (map.remove id) := by
  cases here : map.byId.lookup id with
  | none => exact (remove_of_lookup_eq_none here).symm ▸ ranked
  | some pending =>
      have heights : (map.remove id).byHeight = map.byHeight.erase (pending.header.height, id) := by
        unfold PendingHeadersMap.remove
        rw [here]
      constructor
      case sorted => exact heights ▸ ranked.sorted.sublist List.erase_sublist
      case listed =>
        intro height other
        rw [heights, (nodup_of_sorted ranked.sorted).mem_erase_iff, ranked.listed]
        simp only [lookup_remove_eq, Option.ite_none_left_eq_some]
        constructor
        · rintro ⟨different, found, held, same⟩
          refine ⟨found, ⟨?_, held⟩, same⟩
          rintro rfl
          cases here.symm.trans held
          exact different (by rw [same])
        · rintro ⟨found, ⟨different, held⟩, same⟩
          exact ⟨fun equal => different (Prod.mk.inj equal).2, found, held, same⟩

theorem len_eq_length_keys (map : PendingHeadersMap) : map.len = map.byId.keys.length := by
  simp [PendingHeadersMap.len, AList.keys, List.keys]

theorem len_remove_lt (here : map.byId.lookup id = some pending) : (map.remove id).len < map.len := by
  have absent : id ∉ (map.remove id).byId.keys := by
    rw [Entries.mem_keys_iff, lookup_remove_eq, if_pos rfl]
    simp
  have fewer : id :: (map.remove id).byId.keys ⊆ map.byId.keys := by
    refine List.cons_subset.mpr ⟨Entries.mem_keys_iff.mpr ⟨pending, here⟩, fun other member => ?_⟩
    obtain ⟨found, held⟩ := Entries.mem_keys_iff.mp member
    exact Entries.mem_keys_iff.mpr ⟨found, lookup_remove held⟩
  have shorter := (List.subperm_of_subset ((AList.keys_nodup _).cons absent) fewer).length_le
  rwa [List.length_cons, ← len_eq_length_keys, ← len_eq_length_keys, Nat.succ_le_iff] at shorter

theorem len_remove_le (id : Bytes) : (map.remove id).len ≤ map.len := by
  cases here : map.byId.lookup id with
  | none => rw [remove_of_lookup_eq_none here]
  | some pending => exact Nat.le_of_lt (len_remove_lt here)

theorem Ranked.evict (ranked : Ranked map) (maxSize : Nat) : Ranked (map.evict maxSize) := by
  rcases evict_cases map maxSize with same | ⟨evicted, same⟩
  · rw [same]
    exact ranked
  · rw [same]
    exact ranked.remove evicted

theorem Ranked.len_evict (ranked : Ranked map) (positive : 0 < maxSize) (fits : map.len ≤ maxSize) :
    (map.evict maxSize).len < maxSize := by
  unfold PendingHeadersMap.evict
  split
  · next full =>
      have some : map.byId.keys ≠ [] := List.ne_nil_of_length_pos (by rw [← len_eq_length_keys]; omega)
      obtain ⟨id, present⟩ := List.exists_mem_of_ne_nil _ some
      obtain ⟨pending, here⟩ := Entries.mem_keys_iff.mp present
      have listed := ranked.listed.mpr ⟨pending, here, rfl⟩
      split
      · next height evictId rest heights =>
          obtain ⟨found, held, -⟩ := ranked.listed.mp (heights ▸ List.mem_cons_self : (height, evictId) ∈ map.byHeight)
          exact Nat.lt_of_lt_of_le (len_remove_lt held) fits
      · next none =>
          rw [none] at listed
          cases listed
  · next room => exact Nat.not_le.mp room

theorem len_insert_le (ranked : Ranked map) (positive : 0 < maxSize) (fits : map.len ≤ maxSize) :
    (map.insert id pending maxSize).len ≤ maxSize := by
  have room := ranked.len_evict positive fits
  have grown : (map.insert id pending maxSize).len ≤ (map.evict maxSize).len + 1 := by
    have fewer : (map.insert id pending maxSize).byId.keys ⊆ id :: (map.evict maxSize).byId.keys := by
      intro other member
      have member : other ∈ (map.evict maxSize).byId.insert id pending := AList.mem_keys.mpr member
      exact List.mem_cons.mpr ((AList.mem_insert _).mp member)
    have shorter := (List.subperm_of_subset (AList.keys_nodup _) fewer).length_le
    rwa [List.length_cons, ← len_eq_length_keys, ← len_eq_length_keys] at shorter
  omega

theorem Ranked.insert (ranked : Ranked map)
    (again : ∀ {old}, map.byId.lookup id = some old → old.header.height = pending.header.height) :
    Ranked (map.insert id pending maxSize) := by
  have evicted := ranked.evict maxSize
  constructor
  case sorted => exact sorted_insertByHeight evicted.sorted
  case listed =>
    intro height other
    simp only [PendingHeadersMap.insert, mem_insertByHeight, evicted.listed, Prod.mk.injEq]
    by_cases equal : other = id
    · subst equal
      simp only [and_true, AList.lookup_insert, Option.some.injEq, exists_eq_left']
      constructor
      · rintro (here | ⟨old, held, height⟩)
        · exact here.symm
        · exact (again (lookup_evict held)).symm.trans height
      · exact fun here => .inl here.symm
    · simp [equal]

end Ranked

/-! ### All lists together -/

/-- Both lists hold what follows from the entries, and no parent has an empty list. -/
structure Exact (map : PendingHeadersMap) : Prop where
  listing : Listing map
  filled : ∀ parentId, map.byParent.lookup parentId ≠ some []
  ranked : Ranked map

/-- The map gives up one header for the new one, and none of those that it holds is lower. -/
def EvictsLowest (map : PendingHeadersMap) (maxSize : Nat) (id : Bytes) (pending : PendingHeader) : Prop :=
  ∃ lowest victim, map.byId.lookup lowest = some victim ∧
    (∀ other found, map.byId.lookup other = some found → victim.header.height ≤ found.header.height) ∧
    map.evictedHeight maxSize = some victim.header.height ∧
    ∀ other, (map.insert id pending maxSize).byId.lookup other =
      if other = id then some pending else if other = lowest then none else map.byId.lookup other

section Exact
variable {map : PendingHeadersMap} {id other : Bytes} {pending found : PendingHeader} {maxSize : Nat}

theorem exact_new : Exact .new := ⟨listing_new, by simp [PendingHeadersMap.new], ranked_new⟩

theorem Exact.remove (exact : Exact map) (id : Bytes) : Exact (map.remove id) where
  listing := exact.listing.remove id
  filled parentId := by
    unfold PendingHeadersMap.remove
    cases map.byId.lookup id with
    | none => exact exact.filled parentId
    | some pending =>
        dsimp only
        cases listed : map.byParent.lookup pending.parentId with
        | none => exact exact.filled parentId
        | some children =>
            dsimp only
            by_cases same : parentId = pending.parentId
            · subst same
              split
              · simp
              · next left => rwa [AList.lookup_insert, Ne, Option.some.injEq]
            · split
              · rw [AList.lookup_erase_ne same]
                exact exact.filled parentId
              · rw [AList.lookup_insert_ne same]
                exact exact.filled parentId
  ranked := exact.ranked.remove id

theorem Exact.evict (exact : Exact map) (maxSize : Nat) : Exact (map.evict maxSize) := by
  rcases evict_cases map maxSize with same | ⟨evicted, same⟩
  · rw [same]
    exact exact
  · rw [same]
    exact exact.remove evicted

theorem Exact.insert (exact : Exact map)
    (again : ∀ {old}, map.byId.lookup id = some old →
      old.header.height = pending.header.height ∧ old.parentId = pending.parentId) :
    Exact (map.insert id pending maxSize) where
  listing := exact.listing.insert fun held => (again held).2
  filled parentId := by
    have evicted := (exact.evict maxSize).filled parentId
    unfold PendingHeadersMap.insert
    by_cases same : parentId = pending.parentId
    · subst same
      intro empty
      have inside : id ∈ ([] : List Bytes) := by
        rw [← Option.some.inj ((AList.lookup_insert _).symm.trans empty)]
        exact List.mem_insert_self
      cases inside
    · simpa [same] using evicted
  ranked := exact.ranked.insert fun held => (again held).1

theorem Ranked.lowest (ranked : Ranked map) {height : Nat} {rest : List (Nat × Bytes)}
    (heights : map.byHeight = (height, id) :: rest) (here : map.byId.lookup other = some found) :
    height ≤ found.header.height := by
  have member := ranked.listed.mpr ⟨found, here, rfl⟩
  have sorted := ranked.sorted
  rw [heights] at member sorted
  rcases List.mem_cons.mp member with same | later
  · exact le_of_eq (Prod.mk.inj same).1.symm
  · rcases precedes_iff.mp ((List.pairwise_cons.mp sorted).1 _ later) with lower | ⟨same, -⟩
    · exact Nat.le_of_lt lower
    · exact le_of_eq same

theorem Ranked.evictsLowest (ranked : Ranked map) (positive : 0 < maxSize) (full : map.len = maxSize) :
    EvictsLowest map maxSize id pending := by
  have some : map.byId.keys ≠ [] := List.ne_nil_of_length_pos (by rw [← len_eq_length_keys]; omega)
  obtain ⟨present, inside⟩ := List.exists_mem_of_ne_nil _ some
  obtain ⟨waiting, held⟩ := Entries.mem_keys_iff.mp inside
  have listed := ranked.listed.mpr ⟨waiting, held, rfl⟩
  rcases heights : map.byHeight with - | ⟨⟨height, lowest⟩, rest⟩
  · rw [heights] at listed
    cases listed
  · obtain ⟨victim, here, rfl⟩ := ranked.listed.mp (heights ▸ List.mem_cons_self : (height, lowest) ∈ map.byHeight)
    have evicted : map.evict maxSize = map.remove lowest := by
      simp [PendingHeadersMap.evict, full, heights]
    refine ⟨lowest, victim, here, fun other found => ranked.lowest heights, ?_, fun other => ?_⟩
    · simp [PendingHeadersMap.evictedHeight, full, heights]
    · rw [lookup_insert_evict, evicted, lookup_remove_eq]

end Exact

section Reached
variable {maxSize : Nat} {carried : Bytes → Header × Bytes} {map : PendingHeadersMap}
variable {actions : List PendingHeadersMap.Action}

def Carries (carried : Bytes → Header × Bytes) (map : PendingHeadersMap) : Prop :=
  ∀ id pending, map.byId.lookup id = some pending → (pending.header, pending.parentId) = carried id

theorem exact_run (positive : 0 < maxSize) (exact : Exact map) (carries : Carries carried map) (fits : map.len ≤ maxSize)
    (same : ∀ id pending, .insert id pending ∈ actions → (pending.header, pending.parentId) = carried id) :
    Exact (actions.foldl (PendingHeadersMap.step maxSize) map) ∧
      (actions.foldl (PendingHeadersMap.step maxSize) map).len ≤ maxSize := by
  induction actions generalizing map with
  | nil => exact ⟨exact, fits⟩
  | cons action rest ih =>
      have later := fun id pending member => same id pending (List.mem_cons_of_mem _ member)
      rw [List.foldl_cons]
      cases action with
      | insert id pending =>
          have new := same id pending List.mem_cons_self
          refine ih (exact.insert fun held => ?_) (fun other found here => ?_) (len_insert_le exact.ranked positive fits) later
          · have before := Prod.mk.inj ((carries _ _ held).trans new.symm)
            exact ⟨congrArg Header.height before.1, before.2⟩
          · rcases lookup_insert here with ⟨rfl, rfl⟩ | before
            · exact new
            · exact carries other found before
      | remove id =>
          exact ih (exact.remove id) (fun other found here => carries other found (lookup_remove here))
            ((len_remove_le id).trans fits) later
      | clear =>
          refine ih exact_new (fun _ _ here => ?_) (Nat.zero_le _) later
          simp [PendingHeadersMap.step, PendingHeadersMap.clear] at here

/-- However headers come and go, the lists fit the entries, of which there are not too many; and a full map
gives up a lowest header for the next. -/
theorem exact_reached (positive : 0 < maxSize)
    (same : ∀ id pending, .insert id pending ∈ actions → (pending.header, pending.parentId) = carried id) :
    Exact (actions.foldl (PendingHeadersMap.step maxSize) .new) ∧
      (actions.foldl (PendingHeadersMap.step maxSize) .new).len ≤ maxSize ∧
      ((actions.foldl (PendingHeadersMap.step maxSize) .new).len = maxSize → ∀ id pending,
        EvictsLowest (actions.foldl (PendingHeadersMap.step maxSize) .new) maxSize id pending) := by
  obtain ⟨exact, fits⟩ := @exact_run maxSize carried .new actions positive exact_new
    (fun _ _ here => by simp [PendingHeadersMap.new] at here) (Nat.zero_le _) same
  exact ⟨exact, fits, fun full id pending => exact.ranked.evictsLowest positive full⟩

end Reached

section Samples
open Sample

/-- Two headers fit; the third is the parent of the others and lower than both. -/
def crowdedActions : List PendingHeadersMap.Action :=
  [(2, 1, 9), (3, 1, 8), (1, 0, 7)].map fun (id, parentId, height) =>
    .insert [id] ⟨sampleHeader id parentId height 1, [], [parentId]⟩

theorem crowdedActions_evict :
    EvictsLowest (crowdedActions.foldl (PendingHeadersMap.step 2) .new) 2 [4] ⟨sampleHeader 4 2 10 1, [], [2]⟩ := by
  refine (@exact_reached 2 (fun id =>
    if id = [1] then (sampleHeader 1 0 7 1, [0])
    else if id = [2] then (sampleHeader 2 1 9 1, [1]) else (sampleHeader 3 1 8 1, [1])) _ (by decide) ?_).2.2 rfl _ _
  intro id pending member
  simp only [crowdedActions, List.map_cons, List.map_nil, List.mem_cons, List.not_mem_nil, or_false,
    PendingHeadersMap.Action.insert.injEq] at member
  rcases member with ⟨rfl, rfl⟩ | ⟨rfl, rfl⟩ | ⟨rfl, rfl⟩ <;> rfl

end Samples

end ErgoNode.Proof.Sync
