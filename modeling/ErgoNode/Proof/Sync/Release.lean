import ErgoNode.Lib.Entries
import ErgoNode.Lib.Ledger
import ErgoNode.Proof.Sync.Checked
import ErgoNode.Proof.Sync.Journal

/-!
# Releasing what waits

A header that is passed on releases all that wait for it, directly or further down, each after its
parent; nothing that is left waits for one of them. The map of waiting headers has to list under each
parent the headers that wait for it.
-/

namespace ErgoNode.Proof.Sync
open Lib

/-! ### The order of passing on -/

def itemIds (items : List (Header × Bytes)) : List Bytes := items.map fun item => item.1.id.bytes

@[simp] theorem itemIds_append (first second : List (Header × Bytes)) :
    itemIds (first ++ second) = itemIds first ++ itemIds second := List.map_append

@[simp] theorem itemIds_cons (item : Header × Bytes) (items : List (Header × Bytes)) :
    itemIds (item :: items) = item.1.id.bytes :: itemIds items := rfl

def arrival (item : Header × Bytes) : Move Bytes := ⟨[item.1.parentId.bytes], [item.1.id.bytes]⟩

/-- The parent of each header is known or comes before it. -/
def ParentFirst (known : Set Bytes) (items : List (Header × Bytes)) : Prop :=
  Ledger.Available known (items.map arrival)

section Order
variable {known larger : Set Bytes} {items first second : List (Header × Bytes)} {item : Header × Bytes}

theorem created_arrival (items : List (Header × Bytes)) : Ledger.created (items.map arrival) = itemIds items := by
  induction items with
  | nil => rfl
  | cons item rest ih => rw [List.map_cons, Ledger.created_cons, ih]; rfl

theorem ParentFirst.mono (ordered : ParentFirst known items) (grows : known ⊆ larger) : ParentFirst larger items :=
  Ledger.Available.mono ordered grows

theorem parentFirst_cons : ParentFirst known (item :: items) ↔
    item.1.parentId.bytes ∈ known ∧ ParentFirst {id | id ∈ known ∨ id = item.1.id.bytes} items := by
  simp [ParentFirst, Ledger.Available, arrival]

theorem parentFirst_append : ParentFirst known (first ++ second) ↔
    ParentFirst known first ∧ ParentFirst {id | id ∈ known ∨ id ∈ itemIds first} second := by
  rw [ParentFirst, List.map_append, Ledger.available_append, created_arrival]
  rfl

theorem ParentFirst.parent (ordered : ParentFirst known items) (member : item ∈ items) :
    item.1.parentId.bytes ∈ known ∨ item.1.parentId.bytes ∈ itemIds items := by
  rw [← created_arrival]
  refine Ledger.Available.source ordered (List.mem_flatMap.mpr ⟨arrival item, List.mem_map_of_mem member, ?_⟩)
  exact List.mem_singleton.mpr rfl

end Order

/-! ### What is released -/

/-- The items have been put into the buffer in this order, and none of them waits any more. -/
structure Released (s t : Journaled) (items : List (Header × Bytes)) : Prop where
  buffered : t.2.buffered = s.2.buffered ++ items
  stored : t.1.storedHeaders = s.1.storedHeaders.putAll (itemIds items)
  waiting : ∀ id, t.1.pendingHeaders.byId.lookup id =
    if id ∈ itemIds items then none else s.1.pendingHeaders.byId.lookup id
  indexed : Indexed t.1.pendingHeaders

/-- Items that waited are released after the headers they wait for, and nothing is left behind them. -/
structure Descend (s t : Journaled) (root : Bytes) (items : List (Header × Bytes)) : Prop where
  once : (itemIds items).Nodup
  waited : ∀ item ∈ items, ∃ pending, s.1.pendingHeaders.byId.lookup item.1.id.bytes = some pending ∧
    (pending.header, pending.rawBytes) = item
  ordered : ParentFirst {root} items
  done : ∀ {id pending}, t.1.pendingHeaders.byId.lookup id = some pending → pending.parentId ∉ itemIds items

section Release
variable {sr : SigmaRust} {s t u : Journaled} {items more : List (Header × Bytes)} {root id : Bytes}
variable {pending : PendingHeader} {header : Header} {rawBytes : Bytes}

theorem Released.refl (indexed : Indexed s.1.pendingHeaders) : Released s s [] :=
  ⟨(List.append_nil _).symm, rfl, fun _ => rfl, indexed⟩

theorem Released.trans (first : Released s t items) (second : Released t u more) : Released s u (items ++ more) where
  buffered := by rw [second.buffered, first.buffered, List.append_assoc]
  stored := by rw [second.stored, first.stored, itemIds_append, LruCache.putAll_append]
  waiting id := by
    rw [second.waiting, first.waiting, itemIds_append]
    by_cases earlier : id ∈ itemIds items <;> simp [earlier]
  indexed := second.indexed

theorem Released.before (released : Released s t items) (here : t.1.pendingHeaders.byId.lookup id = some pending) :
    id ∉ itemIds items ∧ s.1.pendingHeaders.byId.lookup id = some pending := by
  rw [released.waiting] at here
  exact Option.ite_none_left_eq_some.mp here

theorem Released.len_le (released : Released s t items) : t.1.pendingHeaders.len ≤ s.1.pendingHeaders.len := by
  have fewer : waitingIds t.1 ⊆ waitingIds s.1 := by
    intro id member
    obtain ⟨pending, here⟩ := Entries.mem_keys_iff.mp member
    exact Entries.mem_keys_iff.mpr ⟨pending, (released.before here).2⟩
  have shorter := (List.subperm_of_subset (AList.keys_nodup t.1.pendingHeaders.byId) fewer).length_le
  simpa [waitingIds, AList.keys, List.keys, PendingHeadersMap.len] using shorter

theorem flushIfDue_ok (ran : (Journaled.flushIfDue sr).exec s = (.ok (), t)) :
    t.1.pendingHeaders = s.1.pendingHeaders ∧ t.1.storedHeaders = s.1.storedHeaders ∧ t.2 = s.2 := by
  obtain ⟨pending, stored⟩ := Prod.mk.inj (@keeps_flushIfDue sr s.1)
  rw [Journaled.flushIfDue, Op.exec_noted] at ran
  rcases flushed : (HeaderSync.flushIfDue sr).exec s.1 with ⟨result, after⟩
  rw [flushed] at ran pending stored
  cases ran
  exact ⟨pending, stored, rfl⟩

theorem Released.child {child : Bytes × PendingHeader} (indexed : Indexed s.1.pendingHeaders)
    (here : s.1.pendingHeaders.byId.lookup child.1 = some child.2)
    (released : Released (Journaled.removePending child.1 s) t ((child.2.header, child.2.rawBytes) :: items)) :
    Released s t ((child.2.header, child.2.rawBytes) :: items) where
  buffered := released.buffered
  stored := released.stored
  waiting id := by
    rw [released.waiting]
    have removed : (Journaled.removePending child.1 s).1.pendingHeaders.byId.lookup id =
        if id = child.1 then none else s.1.pendingHeaders.byId.lookup id := lookup_remove_eq
    rw [removed, itemIds_cons, (indexed.keyed here).1]
    by_cases same : id = child.1 <;> simp [same]
  indexed := released.indexed

theorem Descend.join {child : Bytes × PendingHeader} {middle : Journaled} (indexed : Indexed s.1.pendingHeaders)
    (here : s.1.pendingHeaders.byId.lookup child.1 = some child.2) (parent : child.2.parentId = root)
    (released : Released s middle ((child.2.header, child.2.rawBytes) :: items))
    (below : Descend (Journaled.removePending child.1 s) middle child.1 items)
    (behind : ∀ {id pending}, middle.1.pendingHeaders.byId.lookup id = some pending → pending.parentId ≠ child.1)
    (others : Released middle t more) (rest : Descend middle t root more) :
    Descend s t root ((child.2.header, child.2.rawBytes) :: items ++ more) := by
  have key := indexed.keyed here
  have removed (id : Bytes) : (Journaled.removePending child.1 s).1.pendingHeaders.byId.lookup id =
      if id = child.1 then none else s.1.pendingHeaders.byId.lookup id := lookup_remove_eq
  constructor
  case once =>
    rw [itemIds_append, itemIds_cons, key.1, List.nodup_append]
    refine ⟨List.nodup_cons.mpr ⟨?_, below.once⟩, rest.once, ?_⟩
    · intro member
      obtain ⟨item, inside, same⟩ := List.mem_map.mp member
      obtain ⟨pending, held, -⟩ := below.waited item inside
      rw [removed, same, if_pos rfl] at held
      cases held
    · rintro id earlier _ later rfl
      obtain ⟨item, inside, rfl⟩ := List.mem_map.mp later
      obtain ⟨pending, held, -⟩ := rest.waited item inside
      rw [← key.1, ← itemIds_cons (child.2.header, child.2.rawBytes)] at earlier
      exact (released.before held).1 earlier
  case waited =>
    intro item member
    rcases List.mem_append.mp member with first | later
    · rcases List.mem_cons.mp first with rfl | inside
      · exact ⟨child.2, by rw [key.1, here], rfl⟩
      · obtain ⟨pending, held, same⟩ := below.waited item inside
        rw [removed] at held
        exact ⟨pending, (Option.ite_none_left_eq_some.mp held).2, same⟩
    · obtain ⟨pending, held, same⟩ := rest.waited item later
      exact ⟨pending, (released.before held).2, same⟩
  case ordered =>
    refine parentFirst_append.mpr ⟨parentFirst_cons.mpr ⟨key.2.symm.trans parent, below.ordered.mono ?_⟩,
      rest.ordered.mono fun id known => .inl known⟩
    intro id known
    exact .inr (known.trans key.1.symm)
  case done =>
    intro id pending held
    obtain ⟨-, earlier⟩ := others.before held
    rw [itemIds_append, itemIds_cons, key.1, List.mem_append, List.mem_cons]
    rintro ((same | inside) | later)
    · exact behind earlier same
    · exact below.done earlier inside
    · exact rest.done held later

/-- Of the headers that wait for the same parent none comes below another. -/
theorem Descend.apart {child : Bytes × PendingHeader} {middle : Journaled} (indexed : Indexed s.1.pendingHeaders)
    (absent : s.1.pendingHeaders.byId.lookup root = none)
    (here : s.1.pendingHeaders.byId.lookup child.1 = some child.2)
    (below : Descend (Journaled.removePending child.1 s) middle child.1 items) {id : Bytes} {pending : PendingHeader}
    (held : s.1.pendingHeaders.byId.lookup id = some pending) (waits : pending.parentId = root)
    (different : id ≠ child.1) : id ∉ itemIds ((child.2.header, child.2.rawBytes) :: items) := by
  have waited {item : Header × Bytes} (there : item ∈ items) :
      ∃ found, s.1.pendingHeaders.byId.lookup item.1.id.bytes = some found ∧ (found.header, found.rawBytes) = item := by
    obtain ⟨found, earlier, same⟩ := below.waited item there
    exact ⟨found, lookup_remove earlier, same⟩
  rw [itemIds_cons, (indexed.keyed here).1]
  intro inside
  rcases List.mem_cons.mp inside with same | deeper
  · exact different same
  · obtain ⟨item, there, same⟩ := List.mem_map.mp deeper
    obtain ⟨found, earlier, rfl⟩ := waited there
    rw [same, held] at earlier
    cases earlier
    -- its parent is the root, and so neither the child nor below it
    have parents := below.ordered.parent there
    rw [← (indexed.keyed held).2, waits] at parents
    rcases parents with isChild | isBelow
    · rw [Set.mem_singleton_iff.mp isChild, here] at absent
      cases absent
    · obtain ⟨item, there, same⟩ := List.mem_map.mp isBelow
      obtain ⟨found, earlier, -⟩ := waited there
      rw [same, absent] at earlier
      cases earlier

def Releases (sr : SigmaRust) (fuel : Nat) : Prop :=
  ∀ {s t : Journaled} {header : Header} {rawBytes : Bytes}, Indexed s.1.pendingHeaders →
    s.1.pendingHeaders.byId.lookup header.id.bytes = none → s.1.pendingHeaders.len < fuel →
    (Journaled.storeHeaderAndDescendants sr fuel header rawBytes).exec s = (.ok (), t) →
    ∃ items, Released s t ((header, rawBytes) :: items) ∧ Descend s t header.id.bytes items ∧
      ∀ {id pending}, t.1.pendingHeaders.byId.lookup id = some pending → pending.parentId ≠ header.id.bytes

theorem releases_children {fuel : Nat} (recursion : Releases sr fuel) {children : List (Bytes × PendingHeader)}
    (indexed : Indexed s.1.pendingHeaders) (absent : s.1.pendingHeaders.byId.lookup root = none)
    (enough : s.1.pendingHeaders.len ≤ fuel) (once : (children.map Prod.fst).Nodup)
    (waits : ∀ child ∈ children, s.1.pendingHeaders.byId.lookup child.1 = some child.2 ∧ child.2.parentId = root)
    (ran : (Op.forEach (fun (id, pending) => do
      modify (Journaled.removePending id)
      Journaled.storeHeaderAndDescendants sr fuel pending.header pending.rawBytes) children).exec s = (.ok (), t)) :
    ∃ items, Released s t items ∧ Descend s t root items ∧ ∀ child ∈ children, child.1 ∈ itemIds items := by
  induction children generalizing s with
  | nil =>
      cases ran
      exact ⟨[], .refl indexed, ⟨List.nodup_nil, List.forall_mem_nil _, trivial, fun _ => List.not_mem_nil⟩,
        List.forall_mem_nil _⟩
  | cons child rest ih =>
      obtain ⟨here, parent⟩ := waits child List.mem_cons_self
      obtain ⟨different, onceRest⟩ := List.nodup_cons.mp once
      have key := (indexed.keyed here).1
      obtain ⟨_, middle, first, second⟩ := Op.exec_bind_eq_ok.mp ran
      rw [Op.exec_bind_of_ok (Op.exec_modify _ s)] at first
      have shorter : (Journaled.removePending child.1 s).1.pendingHeaders.len < s.1.pendingHeaders.len :=
        len_removePending_lt (fun _ member => member) (Entries.mem_keys_iff.mpr ⟨_, here⟩)
      obtain ⟨items, released, below, behind⟩ := recursion (indexed.remove child.1)
        (lookup_remove_eq.trans (if_pos key)) (Nat.lt_of_lt_of_le shorter enough) first
      rw [key] at below behind
      have released := released.child indexed here
      have apart : ∀ other ∈ rest, other.1 ∉ itemIds ((child.2.header, child.2.rawBytes) :: items) := by
        intro other member
        obtain ⟨held, waitsToo⟩ := waits other (List.mem_cons_of_mem _ member)
        exact below.apart indexed absent here held waitsToo fun same =>
          different (List.mem_map.mpr ⟨other, member, same⟩)
      have absentToo : middle.1.pendingHeaders.byId.lookup root = none := by
        rw [released.waiting, absent, ite_self]
      have waitsRest : ∀ other ∈ rest, middle.1.pendingHeaders.byId.lookup other.1 = some other.2 ∧
          other.2.parentId = root := by
        intro other member
        rw [released.waiting, if_neg (apart other member)]
        exact waits other (List.mem_cons_of_mem _ member)
      obtain ⟨more, others, later, all⟩ :=
        ih released.indexed absentToo (released.len_le.trans enough) onceRest waitsRest second
      refine ⟨_, released.trans others, .join indexed here parent released below behind others later, ?_⟩
      intro other member
      rw [itemIds_append]
      rcases List.mem_cons.mp member with rfl | inside
      · rw [itemIds_cons, key]
        exact List.mem_append_left _ List.mem_cons_self
      · exact List.mem_append_right _ (all other inside)

theorem releases (fuel : Nat) : Releases sr fuel := by
  induction fuel with
  | zero => exact fun _ _ impossible => absurd impossible (Nat.not_lt_zero _)
  | succ fuel ih =>
      intro s t header rawBytes indexed absent enough ran
      have waiting : (Journaled.bufferHeader sr header rawBytes s).1.pendingHeaders = s.1.pendingHeaders :=
        HeaderSync.bufferHeader_pendingHeaders sr header rawBytes s.1
      rw [Journaled.storeHeaderAndDescendants, Op.exec_bind_of_ok (Op.exec_modify _ s),
        Op.exec_bind_of_ok (Op.exec_get _), waiting] at ran
      obtain ⟨_, u, looped, flushed⟩ := Op.exec_bind_eq_ok.mp ran
      obtain ⟨samePending, sameStored, sameJournal⟩ := flushIfDue_ok flushed
      obtain ⟨items, released, descend, all⟩ := releases_children (s := Journaled.bufferHeader sr header rawBytes s) ih
        (waiting.symm ▸ indexed) (waiting.symm ▸ absent) (waiting.symm ▸ Nat.le_of_lt_succ enough)
        (indexed.nodup_getByParent _ header.id.bytes)
        (fun child member => waiting.symm ▸ indexed.mem_getByParent.mp member) looped
      have first : Released (Journaled.bufferHeader sr header rawBytes s) t items :=
        ⟨sameJournal ▸ released.buffered, sameStored ▸ released.stored, samePending ▸ released.waiting,
          samePending ▸ released.indexed⟩
      refine ⟨items, ⟨?_, ?_, fun id => ?_, first.indexed⟩, ⟨descend.once, ?_, descend.ordered, ?_⟩, ?_⟩
      · rw [first.buffered]
        exact List.append_assoc ..
      · rw [first.stored, itemIds_cons, LruCache.putAll_cons]
        exact congrArg (fun cache => cache.putAll (itemIds items)) (HeaderSync.bufferHeader_storedHeaders sr header rawBytes s.1)
      · rw [first.waiting, waiting, itemIds_cons]
        by_cases same : id = header.id.bytes
        · subst same
          simp [absent]
        · simp [same]
      · exact waiting ▸ descend.waited
      · rw [samePending]
        exact descend.done
      · intro id pending held parent
        obtain ⟨outside, before⟩ := first.before held
        rw [waiting] at before
        exact outside (all (id, pending) (indexed.mem_getByParent.mpr ⟨before, parent⟩))

end Release

end ErgoNode.Proof.Sync
