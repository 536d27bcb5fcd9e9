import ErgoNode.Lib.BigEndian
import ErgoNode.Proof.Sync.Release

/-!
# Headers in any order

Headers that grow from headers which were passed on lately come in, each as often as it likes and in any
order. Each is put into the write buffer once, after its parent, and none is left waiting. The headers
they grow from have to be recent enough to stay in the cache of passed-on headers until the end.
-/

namespace ErgoNode.Proof.Sync
open Lib HeaderSync

/-- The header hangs from a root, directly or by headers of the forest. -/
inductive Rooted (root : Bytes → Prop) (forest : List (Header × Bytes)) : Header × Bytes → Prop where
  | top {item : Header × Bytes} (here : root item.1.parentId.bytes) : Rooted root forest item
  | under {item parent : Header × Bytes} (member : parent ∈ forest) (up : Rooted root forest parent)
      (link : item.1.parentId = parent.1.id) : Rooted root forest item

/-- So many keys may have been put since a root was. -/
def rootRoom (forest : List (Header × Bytes)) : Nat := storedHeadersCacheSize + 1 - forest.length

/-- New headers, no more than can wait, that form trees over recent headers, before any of them comes in. -/
structure Grown (sr : SigmaRust) (start : HeaderSync) (forest : List (Header × Bytes)) : Prop where
  parsed : ∀ item ∈ forest, receivedHeader sr item.2 = .ok item.1
  distinct : (itemIds forest).Nodup
  fits : forest.length ≤ maxPendingHeaders
  fresh : ∀ item ∈ forest, item.1.id.bytes ∉ start.storedHeaders
  rooted : ∀ item ∈ forest, Rooted (start.storedHeaders.Recent (rootRoom forest)) forest item
  waiting : start.pendingHeaders = .new

def Arrives (forest : List (Header × Bytes)) : Action → Prop
  | .receive data => ∃ item ∈ forest, item.2 = data
  | .tick => True
  | .storeHeader _ => False

def Succeeds (sr : SigmaRust) (s : Journaled) : Action → Prop
  | .receive data => ((onHeaderReceived sr data).exec s.1).1 = .ok ()
  | .tick => ((onTick sr).exec s.1).1 = .ok ()
  | .storeHeader _ => True

instance (sr : SigmaRust) (s : Journaled) : DecidablePred (Succeeds sr s)
  | .receive _ | .tick => inferInstanceAs (Decidable (_ = _))
  | .storeHeader _ => inferInstanceAs (Decidable True)

structure Collected (start : HeaderSync) (forest : List (Header × Bytes)) (seen : List Bytes) (s : Journaled) : Prop where
  inside : ∀ item ∈ s.2.buffered, item ∈ forest
  once : (itemIds s.2.buffered).Nodup
  ordered : ParentFirst {id | id ∈ start.storedHeaders} s.2.buffered
  settled : ∀ item ∈ forest, item.2 ∈ seen → item ∈ s.2.buffered ∨ item.1.id.bytes ∈ s.1.pendingHeaders.byId
  indexed : Indexed s.1.pendingHeaders
  waiting : ∀ {id pending}, s.1.pendingHeaders.byId.lookup id = some pending →
    (pending.header, pending.rawBytes) ∈ forest ∧ id ∉ itemIds s.2.buffered ∧
      pending.parentId ∉ itemIds s.2.buffered ∧ ¬ start.storedHeaders.Recent (rootRoom forest) pending.parentId
  stored : s.1.storedHeaders = start.storedHeaders.putAll (itemIds s.2.buffered)

section Steps
variable {sr : SigmaRust} {start : HeaderSync} {forest : List (Header × Bytes)} {seen : List Bytes} {s t : Journaled}
variable {item other : Header × Bytes} {id : Bytes}

theorem Grown.unique (grown : Grown sr start forest) (first : item ∈ forest) (second : other ∈ forest)
    (same : item.1.id.bytes = other.1.id.bytes) : item = other :=
  List.inj_on_of_nodup_map grown.distinct first second same

theorem Collected.length_le (collected : Collected start forest seen s) :
    s.2.buffered.length ≤ forest.length := by
  have fewer := (List.subperm_of_subset collected.once (List.map_subset _ collected.inside)).length_le
  simpa [itemIds] using fewer

theorem Collected.length_lt (collected : Collected start forest seen s)
    (member : item ∈ forest) (outside : item.1.id.bytes ∉ itemIds s.2.buffered) :
    s.2.buffered.length < forest.length := by
  have more : (item.1.id.bytes :: itemIds s.2.buffered) ⊆ itemIds forest :=
    List.cons_subset.mpr ⟨List.mem_map_of_mem member, List.map_subset _ collected.inside⟩
  have fewer := (List.subperm_of_subset (List.nodup_cons.mpr ⟨outside, collected.once⟩) more).length_le
  simpa [itemIds, Nat.succ_le_iff] using fewer

theorem Collected.mem_stored (collected : Collected start forest seen s) (grown : Grown sr start forest)
    (member : item ∈ forest) : item.1.id.bytes ∈ s.1.storedHeaders ↔ item ∈ s.2.buffered := by
  rw [collected.stored]
  constructor
  · intro here
    rcases LruCache.mem_of_putAll here with put | old
    · obtain ⟨buffered, inside, same⟩ := List.mem_map.mp put
      obtain rfl := grown.unique (collected.inside buffered inside) member same
      exact inside
    · exact absurd old (grown.fresh item member)
  · intro here
    refine (LruCache.recent_putAll (List.mem_map_of_mem here) ?_).mem
    have := collected.length_le
    have := grown.fits
    simp only [List.length_map, maxPendingHeaders, storedHeadersCacheSize] at *
    omega

/-- While a header is missing the roots are still in the cache. -/
theorem Collected.mem_stored_of_root (collected : Collected start forest seen s) (grown : Grown sr start forest)
    (missing : s.2.buffered.length < forest.length) (root : start.storedHeaders.Recent (rootRoom forest) id) :
    id ∈ s.1.storedHeaders := by
  rw [collected.stored]
  refine (LruCache.Recent.putAll root ?_).mem
  have := grown.fits
  simp only [rootRoom, itemIds, List.length_map, maxPendingHeaders, storedHeadersCacheSize] at *
  omega

theorem Collected.waits_inside (collected : Collected start forest seen s) (grown : Grown sr start forest)
    (member : item ∈ forest) {pending : PendingHeader}
    (here : s.1.pendingHeaders.byId.lookup item.1.id.bytes = some pending) :
    (pending.header, pending.rawBytes) = item ∧ pending.parentId = item.1.parentId.bytes := by
  obtain ⟨key, parent⟩ := collected.indexed.keyed here
  have same := grown.unique (collected.waiting here).1 member key
  subst same
  exact ⟨rfl, parent⟩

theorem Collected.not_waiting (collected : Collected start forest seen s) (grown : Grown sr start forest)
    (member : item ∈ forest) (available : item.1.parentId.bytes ∈ s.1.storedHeaders) :
    s.1.pendingHeaders.byId.lookup item.1.id.bytes = none := by
  cases here : s.1.pendingHeaders.byId.lookup item.1.id.bytes with
  | none => rfl
  | some pending =>
      obtain ⟨-, -, unbuffered, unrooted⟩ := collected.waiting here
      rw [(collected.waits_inside grown member here).2] at unbuffered unrooted
      cases grown.rooted item member with
      | top root => exact absurd root unrooted
      | under inside up link =>
          rw [link] at available unbuffered
          exact absurd (List.mem_map_of_mem ((collected.mem_stored grown inside).mp available)) unbuffered

theorem exists_top {root : Bytes → Prop} (rooted : Rooted root forest item) (member : item ∈ forest) :
    ∃ top ∈ forest, root top.1.parentId.bytes := by
  induction rooted with
  | top here => exact ⟨_, member, here⟩
  | under inside up link ih => exact ih inside

/-- A header over a root never waits, so there is always room for another. -/
theorem Collected.room (collected : Collected start forest seen s) (grown : Grown sr start forest)
    (member : item ∈ forest) : s.1.pendingHeaders.len < maxPendingHeaders := by
  obtain ⟨top, inside, root⟩ := exists_top (grown.rooted item member) member
  have absent : top.1.id.bytes ∉ waitingIds s.1 := by
    intro waits
    obtain ⟨pending, here⟩ := Entries.mem_keys_iff.mp waits
    rw [← (collected.waits_inside grown inside here).2] at root
    exact (collected.waiting here).2.2.2 root
  have known : top.1.id.bytes :: waitingIds s.1 ⊆ itemIds forest := by
    refine List.cons_subset.mpr ⟨List.mem_map_of_mem inside, fun id waits => ?_⟩
    obtain ⟨pending, here⟩ := Entries.mem_keys_iff.mp waits
    exact List.mem_map.mpr ⟨_, (collected.waiting here).1, (collected.indexed.keyed here).1⟩
  have fewer := (List.subperm_of_subset (List.nodup_cons.mpr ⟨absent, AList.keys_nodup _⟩) known).length_le
  have fits := grown.fits
  simp only [waitingIds, AList.keys, List.keys, itemIds, List.length_cons, List.length_map] at fewer
  unfold PendingHeadersMap.len
  omega

theorem Collected.not_mem_ids (collected : Collected start forest seen s) (grown : Grown sr start forest)
    (member : item ∈ forest) (outside : item ∉ s.2.buffered) : item.1.id.bytes ∉ itemIds s.2.buffered := by
  intro inside
  obtain ⟨buffered, there, same⟩ := List.mem_map.mp inside
  exact outside (grown.unique (collected.inside buffered there) member same ▸ there)

theorem Grown.same (grown : Grown sr start forest) (first : item ∈ forest) (second : other ∈ forest)
    (bytes : other.2 = item.2) : other = item := by
  have parsed := grown.parsed other second
  rw [bytes, grown.parsed item first, Except.ok.injEq] at parsed
  exact Prod.ext parsed.symm bytes

theorem Collected.once_append (collected : Collected start forest seen s) (grown : Grown sr start forest)
    (member : item ∈ forest) (outside : item ∉ s.2.buffered)
    (absent : s.1.pendingHeaders.byId.lookup item.1.id.bytes = none) {items : List (Header × Bytes)}
    (descend : Descend s t item.1.id.bytes items) : (itemIds (s.2.buffered ++ item :: items)).Nodup := by
  rw [itemIds_append, itemIds_cons, List.nodup_append]
  refine ⟨collected.once, List.nodup_cons.mpr ⟨?_, descend.once⟩, ?_⟩
  · intro inside
    obtain ⟨other, there, same⟩ := List.mem_map.mp inside
    obtain ⟨pending, here, -⟩ := descend.waited other there
    rw [same, absent] at here
    cases here
  · rintro id before _ new rfl
    rcases List.mem_cons.mp new with rfl | inside
    · exact collected.not_mem_ids grown member outside before
    · obtain ⟨other, there, rfl⟩ := List.mem_map.mp inside
      obtain ⟨pending, here, -⟩ := descend.waited other there
      exact (collected.waiting here).2.1 before

theorem Collected.settled_release (collected : Collected start forest seen s) (grown : Grown sr start forest)
    (member : item ∈ forest) {items : List (Header × Bytes)} (released : Released s t (item :: items))
    (known : ∀ put ∈ item :: items, put ∈ forest) (there : other ∈ forest) (arrived : other.2 ∈ item.2 :: seen) :
    other ∈ t.2.buffered ∨ other.1.id.bytes ∈ t.1.pendingHeaders.byId := by
  have passed (inside : other.1.id.bytes ∈ itemIds (item :: items)) : other ∈ t.2.buffered := by
    obtain ⟨put, among, same⟩ := List.mem_map.mp inside
    rw [released.buffered, ← grown.unique (known put among) there same]
    exact List.mem_append_right _ among
  rcases List.mem_cons.mp arrived with now | earlier
  · rw [grown.same member there now] at passed ⊢
    exact .inl (passed List.mem_cons_self)
  · rcases collected.settled other there earlier with before | waits
    · rw [released.buffered]
      exact .inl (List.mem_append_left _ before)
    · by_cases inside : other.1.id.bytes ∈ itemIds (item :: items)
      · exact .inl (passed inside)
      · refine .inr (AList.lookup_isSome.mp ?_)
        rw [released.waiting, if_neg inside]
        exact AList.lookup_isSome.mpr waits

theorem Collected.waiting_release (collected : Collected start forest seen s) {items : List (Header × Bytes)}
    (released : Released s t items)
    (behind : ∀ {id pending}, t.1.pendingHeaders.byId.lookup id = some pending → pending.parentId ∉ itemIds items)
    {pending : PendingHeader} (here : t.1.pendingHeaders.byId.lookup id = some pending) :
    (pending.header, pending.rawBytes) ∈ forest ∧ id ∉ itemIds t.2.buffered ∧
      pending.parentId ∉ itemIds t.2.buffered ∧ ¬ start.storedHeaders.Recent (rootRoom forest) pending.parentId := by
  obtain ⟨notNew, before⟩ := released.before here
  obtain ⟨known, unbuffered, parent, unrooted⟩ := collected.waiting before
  rw [released.buffered, itemIds_append]
  refine ⟨known, ?_, ?_, unrooted⟩
  · exact fun inside => (List.mem_append.mp inside).elim unbuffered notNew
  · exact fun inside => (List.mem_append.mp inside).elim parent (behind here)

theorem Collected.release (collected : Collected start forest seen s) (grown : Grown sr start forest)
    (member : item ∈ forest) (outside : item ∉ s.2.buffered) (available : item.1.parentId.bytes ∈ s.1.storedHeaders)
    (ran : (Journaled.storeHeaderAndDescendants sr (s.1.pendingHeaders.len + 1) item.1 item.2).exec s = (.ok (), t)) :
    Collected start forest (item.2 :: seen) t := by
  have absent := collected.not_waiting grown member available
  obtain ⟨items, released, descend, behind⟩ := releases _ collected.indexed absent (Nat.lt_succ_self _) ran
  have known : ∀ put ∈ item :: items, put ∈ forest := by
    intro put among
    rcases List.mem_cons.mp among with rfl | new
    · exact member
    · obtain ⟨pending, here, rfl⟩ := descend.waited put new
      exact (collected.waiting here).1
  constructor
  case inside =>
    intro other there
    rw [released.buffered] at there
    exact (List.mem_append.mp there).elim (collected.inside other) (known other)
  case once =>
    rw [released.buffered]
    exact collected.once_append grown member outside absent descend
  case ordered =>
    rw [released.buffered]
    refine parentFirst_append.mpr ⟨collected.ordered, parentFirst_cons.mpr ⟨?_, descend.ordered.mono ?_⟩⟩
    · rw [collected.stored] at available
      exact (LruCache.mem_of_putAll available).symm
    · intro id known
      exact .inr known
  case settled => exact fun other there => collected.settled_release grown member released known there
  case indexed => exact released.indexed
  case waiting =>
    refine collected.waiting_release released fun here inside => ?_
    rcases List.mem_cons.mp inside with same | deeper
    · exact behind here same
    · exact descend.done here deeper
  case stored =>
    rw [released.stored, collected.stored, released.buffered, itemIds_append, LruCache.putAll_append]

theorem Collected.wait (collected : Collected start forest seen s) (grown : Grown sr start forest)
    (member : item ∈ forest) (outside : item ∉ s.2.buffered) (missing : item.1.parentId.bytes ∉ s.1.storedHeaders) :
    Collected start forest (item.2 :: seen) ({ s.1 with
      pendingHeaders := s.1.pendingHeaders.insert item.1.id.bytes
        ⟨item.1, item.2, item.1.parentId.bytes⟩ maxPendingHeaders }, s.2) := by
  have room := collected.room grown member
  have new := collected.not_mem_ids grown member outside
  constructor
  case inside => exact collected.inside
  case once => exact collected.once
  case ordered => exact collected.ordered
  case settled =>
    intro other there arrived
    have stays (known : other.1.id.bytes = item.1.id.bytes ∨ other.1.id.bytes ∈ s.1.pendingHeaders.byId) :
        other.1.id.bytes ∈ (s.1.pendingHeaders.insert item.1.id.bytes
          ⟨item.1, item.2, item.1.parentId.bytes⟩ maxPendingHeaders).byId := by
      rw [← AList.lookup_isSome, lookup_insert_eq room]
      split
      · rfl
      · next apart => exact AList.lookup_isSome.mpr (known.resolve_left apart)
    rcases List.mem_cons.mp arrived with now | earlier
    · exact .inr (stays (.inl (by rw [grown.same member there now])))
    · exact (collected.settled other there earlier).imp_right fun waits => stays (.inr waits)
  case indexed =>
    exact collected.indexed.insert room rfl rfl fun held => (collected.waits_inside grown member held).2
  case waiting =>
    intro id pending here
    dsimp only at here
    rw [lookup_insert_eq room] at here
    split at here
    · next same =>
        cases here
        subst same
        refine ⟨member, new, fun inside => ?_, fun root => ?_⟩
        · obtain ⟨parent, there, same⟩ := List.mem_map.mp inside
          have stored := (collected.mem_stored grown (collected.inside parent there)).mpr there
          exact missing ((show parent.1.id.bytes = item.1.parentId.bytes from same) ▸ stored)
        · exact missing (collected.mem_stored_of_root grown (collected.length_lt member new) root)
    · exact collected.waiting here
  case stored => exact collected.stored

theorem Collected.receive (collected : Collected start forest seen s) (grown : Grown sr start forest)
    (member : item ∈ forest) (succeeds : Succeeds sr s (.receive item.2))
    (taken : Journaled.step sr s (.receive item.2) = some t) : Collected start forest (item.2 :: seen) t := by
  have result := (@erases_onHeaderReceived sr item.2 s).1.trans succeeds
  rcases ran : (Journaled.onHeaderReceived sr item.2).exec s with ⟨ended, after⟩
  simp only [Journaled.step, ran, Option.some.injEq] at taken
  subst taken
  rw [ran] at result
  cases result
  simp only [Journaled.onHeaderReceived, grown.parsed item member] at ran
  rw [Op.exec_bind_of_ok (Op.exec_get s), Op.exec_ite, Op.exec_ite] at ran
  split at ran
  · next here =>
      cases ran
      have buffered := (collected.mem_stored grown member).mp here
      refine { collected with settled := fun other there arrived => ?_ }
      rcases List.mem_cons.mp arrived with now | earlier
      · exact .inl (grown.same member there now ▸ buffered)
      · exact collected.settled other there earlier
  · next new =>
      have outside : item ∉ s.2.buffered := fun inside => new ((collected.mem_stored grown member).mpr inside)
      split at ran
      · next available => exact collected.release grown member outside available ran
      · next missing =>
          cases ran
          exact collected.wait grown member outside missing

theorem Collected.step (collected : Collected start forest seen s) (grown : Grown sr start forest) {action : Action}
    (arrives : Arrives forest action) (succeeds : Succeeds sr s action)
    (taken : Journaled.step sr s action = some t) : Collected start forest (received action ++ seen) t := by
  cases action with
  | receive data =>
      obtain ⟨item, member, rfl⟩ := arrives
      exact collected.receive grown member succeeds taken
  | tick =>
      rcases ran : (Journaled.flushIfDue sr).exec s with ⟨ended, after⟩
      simp only [Journaled.step, ran, Option.some.injEq] at taken
      subst taken
      obtain rfl : ended = .ok () := (congrArg Prod.fst ran).symm.trans succeeds
      obtain ⟨pending, stored, journal⟩ := flushIfDue_ok ran
      constructor
      case inside => exact journal ▸ collected.inside
      case once => exact journal ▸ collected.once
      case ordered => exact journal ▸ collected.ordered
      case settled =>
        rw [journal, pending]
        exact collected.settled
      case indexed => exact pending ▸ collected.indexed
      case waiting =>
        rw [journal, pending]
        exact collected.waiting
      case stored =>
        rw [journal, stored]
        exact collected.stored
  | storeHeader data => exact arrives.elim

theorem Collected.run (collected : Collected start forest seen s) (grown : Grown sr start forest)
    {actions : List Action} (arrive : ∀ action ∈ actions, Arrives forest action)
    (succeed : Along (Journaled.step sr) (Succeeds sr) s actions)
    (ran : Lib.run (Journaled.step sr) s actions = some t) :
    ∃ all, Collected start forest all t ∧ (∀ data ∈ seen, data ∈ all) ∧ ∀ data, .receive data ∈ actions → data ∈ all := by
  induction actions generalizing s seen with
  | nil =>
      cases ran
      exact ⟨seen, collected, fun _ member => member, by simp⟩
  | cons action rest ih =>
      rw [run_cons_eq_some] at ran
      obtain ⟨next, taken, later⟩ := ran
      obtain ⟨all, final, old, new⟩ := ih
        (collected.step grown (arrive action List.mem_cons_self) succeed.head taken)
        (fun other member => arrive other (List.mem_cons_of_mem _ member)) (succeed.tail taken) later
      refine ⟨all, final, fun data member => old data (List.mem_append_right _ member), fun data member => ?_⟩
      rcases List.mem_cons.mp member with rfl | after
      · exact old data (List.mem_append_left _ (List.mem_singleton.mpr rfl))
      · exact new data after

theorem collected_start (grown : Grown sr start forest) : Collected start forest [] (start, .empty) where
  inside := List.forall_mem_nil _
  once := List.nodup_nil
  ordered := trivial
  settled _ _ arrived := absurd arrived List.not_mem_nil
  indexed := by
    rw [grown.waiting]
    exact indexed_new
  waiting here := by simp [grown.waiting, PendingHeadersMap.new] at here
  stored := rfl

/-- Once every header has come in, all have been passed on: by induction on how a header is rooted, since
none is left that waits for one that was passed on. -/
theorem Collected.complete (collected : Collected start forest seen s) (grown : Grown sr start forest)
    (all : ∀ item ∈ forest, item.2 ∈ seen) (member : item ∈ forest) : item ∈ s.2.buffered := by
  have rooted := grown.rooted item member
  induction rooted with
  | @top item root =>
      refine (collected.settled item member (all item member)).resolve_right fun waits => ?_
      obtain ⟨pending, here⟩ := Entries.mem_iff.mp waits
      rw [← (collected.waits_inside grown member here).2] at root
      exact (collected.waiting here).2.2.2 root
  | @under item parent inside up link ih =>
      refine (collected.settled item member (all item member)).resolve_right fun waits => ?_
      obtain ⟨pending, here⟩ := Entries.mem_iff.mp waits
      refine (collected.waiting here).2.2.1 ?_
      rw [(collected.waits_inside grown member here).2, link]
      exact List.mem_map_of_mem (ih inside)

end Steps

/-- Headers that grow from recent ones are each put into the write buffer once, after their parents, in
whatever order they come in and how often, and none is left waiting. -/
theorem forest_collected {sr : SigmaRust} {start : HeaderSync} {forest : List (Header × Bytes)}
    (grown : Grown sr start forest) {actions : List Action} (arrive : ∀ action ∈ actions, Arrives forest action)
    (complete : ∀ item ∈ forest, .receive item.2 ∈ actions)
    (succeed : Along (Journaled.step sr) (Succeeds sr) (start, .empty) actions) {t : Journaled}
    (ran : run (Journaled.step sr) (start, .empty) actions = some t) :
    t.2.buffered.Perm forest ∧ ParentFirst {id | id ∈ start.storedHeaders} t.2.buffered ∧ t.1.pendingHeaders.len = 0 := by
  obtain ⟨seen, collected, -, all⟩ := (collected_start grown).run grown arrive succeed ran
  have passed (item : Header × Bytes) (member : item ∈ forest) : item ∈ t.2.buffered :=
    collected.complete grown (fun other there => all _ (complete other there)) member
  refine ⟨?_, collected.ordered, ?_⟩
  · exact (List.perm_ext_iff_of_nodup (List.Nodup.of_map _ collected.once) (List.Nodup.of_map _ grown.distinct)).mpr
      fun item => ⟨collected.inside item, passed item⟩
  · have none : waitingIds t.1 = [] := by
      refine List.eq_nil_iff_forall_not_mem.mpr fun id waits => ?_
      obtain ⟨pending, here⟩ := Entries.mem_keys_iff.mp waits
      obtain ⟨known, unbuffered, -⟩ := collected.waiting here
      exact unbuffered (List.mem_map.mpr ⟨_, passed _ known, (collected.indexed.keyed here).1⟩)
    simpa [waitingIds, AList.keys, List.keys, PendingHeadersMap.len] using none

/-! ### A root that is forgotten -/

section Leaf
variable {sr : SigmaRust} {s : HeaderSync} {header : Header} {rawBytes : Bytes}

theorem exec_onHeaderReceived_leaf (parsed : receivedHeader sr rawBytes = .ok header)
    (new : header.id.bytes ∉ s.storedHeaders) (available : header.parentId.bytes ∈ s.storedHeaders)
    (alone : s.pendingHeaders = .new) (early : s.pendingHeaderWrites.length + 1 < headerBatchSize)
    (clock : s.timeouts = []) :
    (onHeaderReceived sr rawBytes).exec s = (.ok (), HeaderSync.bufferHeader sr header rawBytes s) := by
  have asked : shouldFlushHeaders.exec (HeaderSync.bufferHeader sr header rawBytes s) =
      (.ok false, HeaderSync.bufferHeader sr header rawBytes s) := by
    unfold shouldFlushHeaders
    rw [Op.exec_bind_of_ok (Op.exec_get _), Op.exec_ite, Op.exec_ite, bufferHeader_pendingHeaderWrites,
      if_neg (by simp), if_neg (by simpa using early)]
    cases s
    cases clock
    rfl
  simp only [onHeaderReceived, parsed]
  rw [Op.exec_bind_of_ok (Op.exec_get s), Op.exec_ite, Op.exec_ite, if_neg new, if_pos available,
    storeHeaderAndDescendants, Op.exec_bind_of_ok (Op.exec_modify _ s), Op.exec_bind_of_ok (Op.exec_get _),
    bufferHeader_pendingHeaders, alone]
  have none (order : SetOrder) : PendingHeadersMap.new.getByParent order header.id.bytes = [] := by
    simp [PendingHeadersMap.getByParent, PendingHeadersMap.new, (order.perm []).eq_nil]
  rw [none, Op.exec_bind_of_ok (Op.exec_forEach_nil _ _), flushIfDue, Op.exec_bind_of_ok asked, Op.exec_ite]
  rfl

theorem exec_onHeaderReceived_orphan (parsed : receivedHeader sr rawBytes = .ok header)
    (new : header.id.bytes ∉ s.storedHeaders) (missing : header.parentId.bytes ∉ s.storedHeaders) :
    (onHeaderReceived sr rawBytes).exec s = (.ok (), { s with
      pendingHeaders := s.pendingHeaders.insert header.id.bytes
        ⟨header, rawBytes, header.parentId.bytes⟩ maxPendingHeaders }) := by
  simp only [onHeaderReceived, parsed]
  rw [Op.exec_bind_of_ok (Op.exec_get s), Op.exec_ite, Op.exec_ite, if_neg new, if_neg missing]
  rfl

theorem step_receive_of_exec {result : Except SyncError Unit} {t : HeaderSync} (journal : Journal)
    (ran : (onHeaderReceived sr rawBytes).exec s = (result, t)) :
    ∃ noted, Journaled.step sr (s, journal) (.receive rawBytes) = some (t, noted) :=
  ⟨_, congrArg some (Prod.ext ((erases_onHeaderReceived rawBytes (s, journal)).2.trans (congrArg Prod.snd ran)) rfl)⟩

end Leaf

section Samples
open Sample

def orphanCodec : SigmaRust := headerCodec [minedHeader 11 0 1, minedHeader 12 11 2]

def orphanStart : HeaderSync := .new (.new ⟨Database.empty.columns, []⟩) [] lastFirst

def orphanForest : List (Header × Bytes) := [(minedHeader 11 0 1, []), (minedHeader 12 11 2, [0])]

theorem orphanForest_grown : Grown orphanCodec orphanStart orphanForest where
  parsed := by decide
  distinct := by decide
  fits := by decide
  fresh := by decide
  rooted item member := by
    have first : Rooted (orphanStart.storedHeaders.Recent (rootRoom orphanForest)) orphanForest (minedHeader 11 0 1, []) :=
      .top (by unfold LruCache.Recent; decide)
    rcases List.mem_pair.mp member with rfl | rfl
    · exact first
    · exact .under List.mem_cons_self first rfl
  waiting := rfl

def orphanArrivals : List Action := [.receive [0], .receive [0], .receive [], .tick]

theorem orphanForest_collected : ∃ t, run (Journaled.step orphanCodec) (orphanStart, .empty) orphanArrivals = some t ∧
    t.2.buffered.Perm orphanForest ∧ ParentFirst {id | id ∈ orphanStart.storedHeaders} t.2.buffered ∧
    t.1.pendingHeaders.len = 0 := by
  obtain ⟨t, ran⟩ : ∃ t, run (Journaled.step orphanCodec) (orphanStart, .empty) orphanArrivals = some t := ⟨_, rfl⟩
  refine ⟨t, ran, forest_collected orphanForest_grown ?_ (by simp [orphanArrivals, orphanForest]) (by decide) ran⟩
  simp [orphanArrivals, orphanForest, Arrives]

def countedIds : List Bytes := (List.range (storedHeadersCacheSize - 1)).map fun n => BigEndian.write 32 (n + 1)

theorem read_lt_of_mem_countedIds {id : Bytes} (member : id ∈ countedIds) : BigEndian.read id < storedHeadersCacheSize := by
  obtain ⟨n, inside, rfl⟩ := List.mem_map.mp member
  have few := List.mem_range.mp inside
  rw [BigEndian.read_write]
  exact Nat.lt_of_le_of_lt (Nat.mod_le _ _) (by omega)

theorem countedIds_nodup : countedIds.Nodup := by
  refine List.nodup_range.map_on fun first inside second other same => ?_
  have reads := congrArg BigEndian.read same
  have few := List.mem_range.mp inside
  have fewOther := List.mem_range.mp other
  simp only [storedHeadersCacheSize] at few fewOther
  rw [BigEndian.read_write, BigEndian.read_write, Nat.mod_eq_of_lt (by norm_num; omega),
    Nat.mod_eq_of_lt (by norm_num; omega)] at reads
  omega

def twinRoot : Header := minedHeader 11 0 1

theorem not_mem_countedIds {id : UInt8} (far : storedHeadersCacheSize ≤ BigEndian.read (Digest32.filled id).bytes) :
    (Digest32.filled id).bytes ∉ countedIds :=
  fun member => absurd (read_lt_of_mem_countedIds member) (Nat.not_lt.mpr far)

def agedCache : LruCache Bytes storedHeadersCacheSize where
  keys := countedIds ++ [twinRoot.id.bytes]
  nodup := List.nodup_append.mpr ⟨countedIds_nodup, List.nodup_singleton _, fun id member root same => by
    rintro rfl
    rw [List.mem_singleton.mp same] at member
    exact not_mem_countedIds (by decide) member⟩
  bound := by simp [countedIds, storedHeadersCacheSize]

theorem not_mem_agedCache {id : UInt8} (far : storedHeadersCacheSize ≤ BigEndian.read (Digest32.filled id).bytes)
    (apart : (Digest32.filled id).bytes ≠ twinRoot.id.bytes) : (Digest32.filled id).bytes ∉ agedCache := by
  intro member
  rcases List.mem_append.mp member with counted | root
  · exact not_mem_countedIds far counted
  · exact apart (List.mem_singleton.mp root)

def twinCodec : SigmaRust := headerCodec [twinRoot, minedHeader 12 11 2, minedHeader 13 11 2]

def agedStart : HeaderSync := { handleStoreHeader twinCodec twinRoot [] orphanStart with storedHeaders := agedCache }

def twins : List (Header × Bytes) := [(minedHeader 12 11 2, [0]), (minedHeader 13 11 2, [0, 0])]

/-- Two headers over one stored header: the first pushes it out of the cache, and the second waits for it. -/
theorem twins_stranded :
    HeaderStore.get twinCodec agedStart.state.db twinRoot.id = .ok (some twinRoot) ∧
    ((∀ item ∈ twins, receivedHeader twinCodec item.2 = .ok item.1) ∧ (itemIds twins).Nodup ∧
      twins.length ≤ maxPendingHeaders ∧ (∀ item ∈ twins, item.1.id.bytes ∉ agedStart.storedHeaders) ∧
      (∀ item ∈ twins, Rooted (fun id => id = twinRoot.id.bytes ∧ id ∈ agedStart.storedHeaders) twins item) ∧
      agedStart.pendingHeaders = .new) ∧
    Along (Journaled.step twinCodec) (Succeeds twinCodec) (agedStart, .empty) [.receive [0], .receive [0, 0]] ∧
    ∃ t, run (Journaled.step twinCodec) (agedStart, .empty) [.receive [0], .receive [0, 0]] = some t ∧
      t.1.pendingHeaders.len = 1 := by
  have root : twinRoot.id.bytes ∈ agedStart.storedHeaders := List.mem_append_right _ List.mem_cons_self
  have new : (minedHeader 12 11 2).id.bytes ∉ agedStart.storedHeaders := not_mem_agedCache (by decide) (by decide)
  have newTwin : (minedHeader 13 11 2).id.bytes ∉ agedStart.storedHeaders := not_mem_agedCache (by decide) (by decide)
  have first : (onHeaderReceived twinCodec [0]).exec agedStart =
      (.ok (), HeaderSync.bufferHeader twinCodec (minedHeader 12 11 2) [0] agedStart) :=
    exec_onHeaderReceived_leaf rfl new root rfl (by decide) rfl
  have second := @exec_onHeaderReceived_orphan twinCodec
    (HeaderSync.bufferHeader twinCodec (minedHeader 12 11 2) [0] agedStart) (minedHeader 13 11 2) [0, 0] rfl
    (by
      rw [bufferHeader_storedHeaders]
      exact fun member => (LruCache.mem_of_put member).elim (by decide) newTwin)
    (by
      rw [bufferHeader_storedHeaders]
      exact LruCache.not_mem_put_of_full (show agedStart.storedHeaders.keys = countedIds ++ [twinRoot.id.bytes] from rfl)
        (by simp [countedIds, storedHeadersCacheSize]) new)
  obtain ⟨journal, taken⟩ := step_receive_of_exec .empty first
  obtain ⟨last, takenTwin, waits⟩ : ∃ last, Journaled.step twinCodec
      (HeaderSync.bufferHeader twinCodec (minedHeader 12 11 2) [0] agedStart, journal) (.receive [0, 0]) = some last ∧
        last.1.pendingHeaders.len = 1 := by
    obtain ⟨noted, taken⟩ := step_receive_of_exec journal second
    exact ⟨_, taken, rfl⟩
  refine ⟨by decide, ⟨by decide, by decide, by decide, ?_, ?_, rfl⟩, ?_, last, ?_, waits⟩
  · intro item member
    rcases List.mem_pair.mp member with rfl | rfl
    · exact new
    · exact newTwin
  · intro item member
    rcases List.mem_pair.mp member with rfl | rfl <;> exact .top ⟨rfl, root⟩
  · refine along_cons.mpr ⟨congrArg Prod.fst first, fun t next => ?_⟩
    obtain rfl := Option.some.inj (taken.symm.trans next)
    exact along_cons.mpr ⟨congrArg Prod.fst second, fun _ _ => along_nil⟩
  · rw [run_cons, taken, Option.bind_some, run_cons, takenTwin, Option.bind_some, run_nil]

end Samples

end ErgoNode.Proof.Sync
