import ErgoNode.Lib.Pace
import ErgoNode.Proof.Sync.Downloads
import ErgoNode.Proof.Sync.Queued
import ErgoNode.Proof.Sync.Tracking
import ErgoNode.Proof.Validation.Together
import ErgoNode.Sync.Dispatch

/-!
# Requests to peers

Whatever order events, ticks and peers come in: which requests are open, how often one modifier is asked
for, and how fast one peer is asked.
-/

namespace ErgoNode.Proof.Sync
open Lib

/-! ### One modifier of the downloader -/

/-- A task is under its own id. It is dropped at the last retry, each of its failed peers has cost a retry,
and it is with none of them. -/
structure Tried (id : ModifierId) (task : DownloadTask) : Prop where
  named : task.id = id
  retried : task.retries < BlockDownloader.maxRetries
  failures : task.failedPeers.length ≤ task.retries
  elsewhere : ∀ peer, task.peer = some peer → peer ∉ task.failedPeers

/-- The modifier is in flight with the peer that its task is given to, and has not come in. -/
structure Consistent (downloader : BlockDownloader) (id : ModifierId) : Prop where
  open_iff : downloader.inFlight.lookup id = (downloader.pending.lookup id).bind DownloadTask.peer
  awaited : ∀ {task}, downloader.pending.lookup id = some task → id ∉ downloader.completed ∧ Tried id task

/-- The requests that the retries of the task leave, without the one that is in flight. -/
def budget (downloader : BlockDownloader) (id : ModifierId) : Nat :=
  match downloader.pending.lookup id with
  | none => 0
  | some task => BlockDownloader.maxRetries - task.retries - task.peer.toList.length

/-- Nothing is done to the modifier; others that come in may push it out of those that are completed. -/
structure Untouched (before after : BlockDownloader) (id : ModifierId) : Prop where
  pending : after.pending.lookup id = before.pending.lookup id
  inFlight : after.inFlight.lookup id = before.inFlight.lookup id
  completed : id ∈ after.completed → id ∈ before.completed

section Downloader
variable {downloader after : BlockDownloader} {id other : ModifierId} {peer : PeerId}

theorem Consistent.untouched (consistent : Consistent downloader id) (same : Untouched downloader after id) :
    Consistent after id where
  open_iff := by rw [same.inFlight, same.pending, consistent.open_iff]
  awaited here := by
    obtain ⟨missing, awaited⟩ := consistent.awaited (same.pending ▸ here)
    exact ⟨fun done => missing (same.completed done), awaited⟩

theorem budget_untouched (same : Untouched downloader after id) : budget after id = budget downloader id := by
  unfold budget
  rw [same.pending]

theorem untouched_dispatch (apart : other ≠ id) : Untouched downloader (downloader.dispatch id peer) other := by
  unfold BlockDownloader.dispatch
  refine ⟨?_, AList.lookup_insert_ne apart, fun member => member⟩
  dsimp only
  split
  · exact AList.lookup_insert_ne apart
  · rfl

theorem untouched_complete (apart : other ≠ id) : Untouched downloader (downloader.complete id) other :=
  ⟨AList.lookup_erase_ne apart, AList.lookup_erase_ne apart,
    fun member => (BlockDownloader.mem_completed_complete member).resolve_left apart⟩

theorem untouched_fail (apart : other ≠ id) : Untouched downloader (downloader.fail id peer) other := by
  unfold BlockDownloader.fail
  dsimp only
  cases downloader.pending.lookup id with
  | none => exact ⟨rfl, AList.lookup_erase_ne apart, fun member => member⟩
  | some task =>
      dsimp only
      split
      · exact ⟨AList.lookup_erase_ne apart, AList.lookup_erase_ne apart, fun member => member⟩
      · exact ⟨AList.lookup_insert_ne apart, AList.lookup_erase_ne apart, fun member => member⟩

theorem untouched_uncomplete : Untouched downloader (downloader.uncomplete id) other :=
  ⟨rfl, rfl, fun member => (BlockDownloader.mem_completed_uncomplete.mp member).2⟩

theorem untouched_clearFailedPeers (apart : other ≠ id) :
    Untouched downloader (downloader.clearFailedPeers id) other := by
  unfold BlockDownloader.clearFailedPeers
  split
  · exact ⟨AList.lookup_insert_ne apart, rfl, fun member => member⟩
  · exact ⟨rfl, rfl, fun member => member⟩

theorem untouched_queueTask {task : DownloadTask} (apart : other ≠ task.id) :
    Untouched downloader (BlockDownloader.queueTask false downloader task) other := by
  have added : Untouched downloader { downloader with pending := downloader.pending.insert task.id task } other :=
    ⟨AList.lookup_insert_ne apart, rfl, fun member => member⟩
  have same : Untouched downloader downloader other := ⟨rfl, rfl, fun member => member⟩
  unfold BlockDownloader.queueTask
  split
  · exact same
  · split
    · exact same
    · exact added

/-! ### What is done to it -/

theorem Consistent.dispatch {task : DownloadTask} (consistent : Consistent downloader id)
    (here : downloader.pending.lookup id = some task) (fresh : peer ∉ task.failedPeers) :
    Consistent (downloader.dispatch id peer) id := by
  obtain ⟨missing, awaited⟩ := consistent.awaited here
  have given : (downloader.dispatch id peer).pending.lookup id = some { task with peer := some peer } := by
    unfold BlockDownloader.dispatch
    rw [here]
    exact AList.lookup_insert _
  constructor
  case open_iff =>
    rw [given]
    exact AList.lookup_insert _
  case awaited =>
    intro task' there
    rw [given] at there
    cases there
    refine ⟨missing, awaited.named, awaited.retried, awaited.failures, ?_⟩
    rintro _ ⟨⟩
    exact fresh

theorem Consistent.complete (downloader : BlockDownloader) (id : ModifierId) : Consistent (downloader.complete id) id where
  open_iff := by simp [BlockDownloader.complete]
  awaited here := by simp [BlockDownloader.complete] at here

theorem pending_fail {task : DownloadTask} (peer : PeerId) (here : downloader.pending.lookup id = some task) :
    (downloader.fail id peer).pending.lookup id =
      if task.retries + 1 ≥ BlockDownloader.maxRetries then none
      else some { task with
        retries := task.retries + 1
        peer := none
        failedPeers := task.failedPeers.insert peer } := by
  unfold BlockDownloader.fail
  dsimp only
  rw [here]
  dsimp only
  split
  · exact AList.lookup_erase _ _
  · exact AList.lookup_insert _

theorem pending_fail_of_none (peer : PeerId) (none : downloader.pending.lookup id = none) :
    (downloader.fail id peer).pending.lookup id = .none := by
  unfold BlockDownloader.fail
  dsimp only
  rw [none]
  exact none

theorem inFlight_fail : (downloader.fail id peer).inFlight = downloader.inFlight.erase id := by
  unfold BlockDownloader.fail
  dsimp only
  cases downloader.pending.lookup id with
  | none => rfl
  | some task =>
      dsimp only
      split <;> rfl

theorem length_insert_le (peers : List PeerId) : (peers.insert peer).length ≤ peers.length + 1 := by
  by_cases member : peer ∈ peers
  · rw [List.insert_of_mem member]
    exact Nat.le_succ _
  · rw [List.insert_of_not_mem member, List.length_cons]

theorem Consistent.fail (consistent : Consistent downloader id) : Consistent (downloader.fail id peer) id := by
  have landed : (downloader.fail id peer).inFlight.lookup id = none := by
    rw [inFlight_fail]
    exact AList.lookup_erase _ _
  cases here : downloader.pending.lookup id with
  | none =>
      have gone := pending_fail_of_none peer here
      exact ⟨by rw [landed, gone]; rfl, fun there => by rw [gone] at there; cases there⟩
  | some task =>
      obtain ⟨missing, awaited⟩ := consistent.awaited here
      have left := pending_fail peer here
      by_cases last : task.retries + 1 ≥ BlockDownloader.maxRetries
      · rw [if_pos last] at left
        exact ⟨by rw [landed, left]; rfl, fun there => by rw [left] at there; cases there⟩
      · rw [if_neg last] at left
        refine ⟨by rw [landed, left]; rfl, fun there => ?_⟩
        rw [left] at there
        cases there
        rw [BlockDownloader.completed_fail]
        exact ⟨missing, awaited.named, Nat.lt_of_not_le last,
          (length_insert_le _).trans (Nat.succ_le_succ awaited.failures), nofun⟩

theorem Consistent.clearFailedPeers (consistent : Consistent downloader id) :
    Consistent (downloader.clearFailedPeers id) id := by
  unfold BlockDownloader.clearFailedPeers
  cases here : downloader.pending.lookup id with
  | none => exact consistent
  | some task =>
      obtain ⟨missing, awaited⟩ := consistent.awaited here
      constructor
      case open_iff =>
        dsimp only
        rw [AList.lookup_insert, consistent.open_iff, here]
        rfl
      case awaited =>
        intro task' there
        dsimp only at there
        rw [AList.lookup_insert] at there
        cases there
        exact ⟨missing, awaited.named, awaited.retried, Nat.zero_le _, fun _ _ => List.not_mem_nil⟩

theorem Consistent.queueTask {task : DownloadTask} (consistent : Consistent downloader task.id)
    (new : task = .new task.id task.typeId) : Consistent (BlockDownloader.queueTask false downloader task) task.id := by
  unfold BlockDownloader.queueTask
  split
  · exact consistent
  · next absent =>
      split
      · exact consistent
      · next undone =>
          obtain ⟨landed, -⟩ := not_or.mp absent
          constructor
          case open_iff =>
            dsimp only
            rw [AList.lookup_insert, AList.lookup_eq_none.mpr landed, new]
            rfl
          case awaited =>
            intro task' there
            dsimp only at there
            rw [AList.lookup_insert] at there
            cases there
            refine ⟨undone, rfl, ?_, ?_, ?_⟩
            · rw [new]
              exact Nat.succ_pos _
            · rw [new]
              exact Nat.le_refl _
            · rw [new]
              nofun

theorem budget_dispatch {task : DownloadTask} (consistent : Consistent downloader id)
    (here : downloader.pending.lookup id = some task) (free : task.peer = none) :
    budget (downloader.dispatch id peer) id + 1 = budget downloader id := by
  obtain ⟨-, awaited⟩ := consistent.awaited here
  have retried := awaited.retried
  have given : (downloader.dispatch id peer).pending.lookup id = some { task with peer := some peer } := by
    unfold BlockDownloader.dispatch
    rw [here]
    exact AList.lookup_insert _
  unfold budget
  rw [given, here]
  dsimp only
  rw [free]
  simp only [Option.toList_some, Option.toList_none, List.length_cons, List.length_nil]
  omega

theorem budget_complete : budget (downloader.complete id) id = 0 := by
  unfold budget
  have gone : (downloader.complete id).pending.lookup id = none := AList.lookup_erase _ _
  rw [gone]

theorem budget_fail_le : budget (downloader.fail id peer) id ≤ budget downloader id := by
  cases here : downloader.pending.lookup id with
  | none =>
      unfold budget
      rw [pending_fail_of_none peer here]
      exact Nat.zero_le _
  | some task =>
      have left := pending_fail peer here
      have one : task.peer.toList.length ≤ 1 := by cases task.peer <;> simp
      unfold budget
      rw [left, here]
      split
      · next gone =>
          exact Nat.zero_le _
      · next there =>
          obtain ⟨-, same⟩ := Option.ite_none_left_eq_some.mp there
          cases same
          simp only [Option.toList_none, List.length_nil]
          omega

theorem budget_clearFailedPeers : budget (downloader.clearFailedPeers id) id = budget downloader id := by
  unfold budget BlockDownloader.clearFailedPeers
  cases here : downloader.pending.lookup id with
  | none =>
      dsimp only
      rw [here]
  | some task =>
      dsimp only
      rw [AList.lookup_insert]

theorem budget_le (downloader : BlockDownloader) (id : ModifierId) : budget downloader id ≤ BlockDownloader.maxRetries := by
  unfold budget
  split
  · exact Nat.zero_le _
  · exact (Nat.sub_le ..).trans (Nat.sub_le ..)

end Downloader

/-! ### Several modifiers -/

/-- Nothing but the requests is paid for: each takes one of the retries that are left, and is in flight from
then on. -/
structure Spends (before after : BlockDownloader) (requests : List ModifierId) : Prop where
  consistent : ∀ id, Consistent after id
  grown : after.inFlight.entries.length ≤ before.inFlight.entries.length + requests.length
  paid : ∀ id, requests.count id + budget after id ≤ budget before id

section Downloader
variable {downloader middle after : BlockDownloader} {id : ModifierId} {peer : PeerId}
variable {first second : List ModifierId}

theorem spends_refl (consistent : ∀ id, Consistent downloader id) : Spends downloader downloader [] :=
  ⟨consistent, Nat.le_refl _, fun id => by rw [List.count_nil, Nat.zero_add]⟩

theorem Spends.trans (begun : Spends downloader middle first) (ended : Spends middle after second) :
    Spends downloader after (first ++ second) where
  consistent := ended.consistent
  grown := by
    have before := begun.grown
    have later := ended.grown
    rw [List.length_append]
    omega
  paid id := by
    have before := begun.paid id
    have later := ended.paid id
    rw [List.count_append]
    omega

theorem spends_of_untouched (consistent : ∀ id, Consistent downloader id)
    (same : ∀ other, other ≠ id → Untouched downloader after other) (kept : Consistent after id)
    (grown : after.inFlight.entries.length ≤ downloader.inFlight.entries.length + first.length)
    (others : ∀ other ∈ first, other = id) (paid : first.count id + budget after id ≤ budget downloader id) :
    Spends downloader after first := by
  refine ⟨fun other => ?_, grown, fun other => ?_⟩
  · by_cases apart : other = id
    · exact apart ▸ kept
    · exact (consistent other).untouched (same other apart)
  · by_cases apart : other = id
    · exact apart ▸ paid
    · rw [List.count_eq_zero_of_not_mem fun member => apart (others other member), Nat.zero_add,
        budget_untouched (same other apart)]

theorem spends_fail (consistent : ∀ id, Consistent downloader id) (id : ModifierId) (peer : PeerId) :
    Spends downloader (downloader.fail id peer) [] := by
  refine spends_of_untouched consistent (fun _ => untouched_fail) (consistent id).fail ?_ (by simp) ?_
  · rw [inFlight_fail]
    exact Entries.length_erase_le
  · rw [List.count_nil, Nat.zero_add]
    exact budget_fail_le

theorem spends_complete (consistent : ∀ id, Consistent downloader id) (id : ModifierId) :
    Spends downloader (downloader.complete id) [] := by
  refine spends_of_untouched consistent (fun _ => untouched_complete) (.complete downloader id)
    Entries.length_erase_le (by simp) ?_
  rw [budget_complete]
  exact Nat.zero_le _

theorem spends_uncomplete (consistent : ∀ id, Consistent downloader id) (id : ModifierId) :
    Spends downloader (downloader.uncomplete id) [] where
  consistent other := (consistent other).untouched untouched_uncomplete
  grown := Nat.le_refl _
  paid other := by rw [List.count_nil, Nat.zero_add, budget_untouched untouched_uncomplete]

theorem spends_clearFailedPeers (consistent : ∀ id, Consistent downloader id) (id : ModifierId) :
    Spends downloader (downloader.clearFailedPeers id) [] := by
  refine spends_of_untouched consistent (fun _ => untouched_clearFailedPeers) (consistent id).clearFailedPeers ?_
    (by simp) ?_
  · unfold BlockDownloader.clearFailedPeers
    split <;> exact Nat.le_refl _
  · rw [List.count_nil, Nat.zero_add, budget_clearFailedPeers]

theorem spends_foldl {α : Type} {call : BlockDownloader → α → BlockDownloader}
    (spends : ∀ {downloader} a, (∀ id, Consistent downloader id) → Spends downloader (call downloader a) [])
    (consistent : ∀ id, Consistent downloader id) (list : List α) :
    Spends downloader (list.foldl call downloader) [] := by
  induction list generalizing downloader with
  | nil => exact spends_refl consistent
  | cons a rest ih =>
      have begun := spends a consistent
      exact begun.trans (ih begun.consistent)

structure Ready (downloader : BlockDownloader) (peer : PeerId) (task : DownloadTask) : Prop where
  here : downloader.pending.lookup task.id = some task
  free : task.peer = none
  fresh : peer ∉ task.failedPeers

theorem spends_dispatch {task : DownloadTask} (consistent : ∀ id, Consistent downloader id)
    (ready : Ready downloader peer task) : Spends downloader (downloader.dispatch task.id peer) [task.id] := by
  refine spends_of_untouched consistent (fun _ => untouched_dispatch)
    ((consistent task.id).dispatch ready.here ready.fresh) ?_ (by simp) ?_
  · unfold BlockDownloader.dispatch
    rw [Entries.length_insert, List.length_singleton]
    split
    · exact Nat.le_succ _
    · exact Nat.le_refl _
  · rw [List.count_singleton_self, Nat.add_comm, budget_dispatch (consistent task.id) ready.here ready.free]

theorem spends_dispatchAll {tasks : List DownloadTask} (consistent : ∀ id, Consistent downloader id)
    (distinct : (tasks.map DownloadTask.id).Nodup) (ready : ∀ task ∈ tasks, Ready downloader peer task) :
    Spends downloader (tasks.foldl (fun downloader task => downloader.dispatch task.id peer) downloader)
      (tasks.map DownloadTask.id) := by
  induction tasks generalizing downloader with
  | nil => exact spends_refl consistent
  | cons task rest ih =>
      obtain ⟨fresh, distinct⟩ := List.nodup_cons.mp distinct
      have begun := spends_dispatch consistent (ready task List.mem_cons_self)
      refine begun.trans (ih begun.consistent distinct fun other member => ?_)
      obtain ⟨here, free, untried⟩ := ready other (List.mem_cons_of_mem _ member)
      have apart : other.id ≠ task.id := fun same => fresh (same ▸ List.mem_map_of_mem member)
      exact ⟨(untouched_dispatch apart).pending.trans here, free, untried⟩

theorem ready_of_getReadyTasksForPeer (consistent : ∀ id, Consistent downloader id)
    (order : Iteration ModifierId DownloadTask) (maxParallel count : Nat) (peer : PeerId) :
    (∀ task ∈ downloader.getReadyTasksForPeer order maxParallel count peer, Ready downloader peer task) ∧
      ((downloader.getReadyTasksForPeer order maxParallel count peer).map DownloadTask.id).Nodup := by
  have perm := order.perm downloader.pending
  have named : (order.entries downloader.pending).map (DownloadTask.id ∘ Prod.snd) =
      (order.entries downloader.pending).map Prod.fst := by
    apply List.map_congr_left
    rintro ⟨id, task⟩ member
    exact ((consistent id).awaited ((Entries.mem_of_perm perm).mp member)).2.named
  have taken : ((downloader.getReadyTasksForPeer order maxParallel count peer).map DownloadTask.id).Sublist
      ((order.entries downloader.pending).map Prod.fst) := by
    rw [← named, ← List.map_map]
    exact (((List.take_sublist ..).trans List.filter_sublist).map _)
  refine ⟨fun task member => ?_, taken.nodup (Entries.nodup_of_perm perm)⟩
  obtain ⟨among, free⟩ := List.mem_filter.mp (List.mem_of_mem_take member)
  obtain ⟨⟨id, _⟩, entry, rfl⟩ := List.mem_map.mp among
  have here := (Entries.mem_of_perm perm).mp entry
  obtain ⟨unassigned, untried⟩ := Bool.and_eq_true_iff.mp free
  refine ⟨?_, Option.isNone_iff_eq_none.mp unassigned, ?_⟩
  · rw [((consistent id).awaited here).2.named]
    exact here
  · simpa [DownloadTask.peerFailed] using untried

theorem length_getReadyTasksForPeer (downloader : BlockDownloader) (order : Iteration ModifierId DownloadTask)
    (maxParallel count : Nat) (peer : PeerId) :
    (downloader.getReadyTasksForPeer order maxParallel count peer).length ≤
      min count (maxParallel - downloader.inFlight.entries.length) :=
  List.length_take_le ..

/-! ### Modifiers that are queued -/

theorem consistent_queue {tasks : List DownloadTask} (consistent : ∀ id, Consistent downloader id)
    (new : ∀ task ∈ tasks, task = .new task.id task.typeId) : ∀ id, Consistent (downloader.queue tasks) id := by
  unfold BlockDownloader.queue BlockDownloader.queueInner
  induction tasks generalizing downloader with
  | nil => exact consistent
  | cons task rest ih =>
      refine ih (fun id => ?_) fun other member => new other (List.mem_cons_of_mem _ member)
      by_cases apart : id = task.id
      · subst apart
        exact (consistent task.id).queueTask (new task List.mem_cons_self)
      · exact (consistent id).untouched (untouched_queueTask apart)

theorem untouched_queue {tasks : List DownloadTask} (known : id ∈ downloader.pending ∨ id ∈ downloader.completed ∨
    id ∉ tasks.map DownloadTask.id) : Untouched downloader (downloader.queue tasks) id := by
  unfold BlockDownloader.queue BlockDownloader.queueInner
  induction tasks generalizing downloader with
  | nil => exact ⟨rfl, rfl, fun member => member⟩
  | cons task rest ih =>
      have first : Untouched downloader (BlockDownloader.queueTask false downloader task) id := by
        by_cases apart : id = task.id
        · subst apart
          rcases known with waiting | done | other
          · have same : BlockDownloader.queueTask false downloader task = downloader := if_pos (.inr waiting)
            rw [same]
            exact ⟨rfl, rfl, fun member => member⟩
          · have same : BlockDownloader.queueTask false downloader task = downloader := by
              unfold BlockDownloader.queueTask
              rw [if_pos done]
              simp
            rw [same]
            exact ⟨rfl, rfl, fun member => member⟩
          · exact absurd List.mem_cons_self other
        · exact untouched_queueTask apart
      have known : id ∈ (BlockDownloader.queueTask false downloader task).pending ∨
          id ∈ (BlockDownloader.queueTask false downloader task).completed ∨ id ∉ rest.map DownloadTask.id := by
        refine known.imp (fun waiting => ?_) (Or.imp (fun done => ?_) fun missing member => ?_)
        · rwa [← AList.lookup_isSome, first.pending, AList.lookup_isSome]
        · rwa [BlockDownloader.completed_queueTask]
        · exact missing (List.mem_cons_of_mem _ member)
      have later := ih known
      exact ⟨later.pending.trans first.pending, later.inFlight.trans first.inFlight,
        fun member => first.completed (later.completed member)⟩

end Downloader

/-! ### What is sent -/

def requested (s : PeerDownloads) : List ModifierId := s.sent.flatMap fun message => message.2.ids

def requestedFrom (peer : PeerId) (s : PeerDownloads) : List ModifierId :=
  (s.sent.filter fun message => message.1 == peer).flatMap fun message => message.2.ids

section Dispatch
open PeerDownloads
variable {s t : PeerDownloads} {orders : DispatchOrders} {now : Int} {peer other : PeerId}

theorem perm_byType (tasks : List DownloadTask) :
    ((byType tasks).entries.flatMap Sigma.snd).Perm (tasks.map DownloadTask.id) := by
  have all (table : Table UInt8 (List ModifierId)) :
      ((tasks.foldl (fun table task => table.insert task.typeId ((table.lookup task.typeId).getD [] ++ [task.id]))
        table).entries.flatMap Sigma.snd).Perm (table.entries.flatMap Sigma.snd ++ tasks.map DownloadTask.id) := by
    induction tasks generalizing table with
    | nil => simp
    | cons task rest ih =>
        refine (ih _).trans ?_
        rw [List.map_cons, ← List.singleton_append, ← List.append_assoc]
        exact Entries.perm_push.append_right _
  exact all ∅

theorem perm_messages (order : Iteration UInt8 (List ModifierId)) (peer : PeerId) (tasks : List DownloadTask) :
    (((order.entries (byType tasks)).map fun (typeId, ids) => (peer, ModifierRequest.mk typeId ids)).flatMap
      fun message => message.2.ids).Perm (tasks.map DownloadTask.id) := by
  refine List.Perm.trans ?_ (perm_byType tasks)
  rw [List.flatMap_map]
  have same := (order.perm (byType tasks)).flatMap_right Prod.snd
  rwa [List.flatMap_map] at same

theorem dispatchTo_cases (orders : DispatchOrders) (now : Int) (s : PeerDownloads) (peer : PeerId) :
    dispatchTo orders now s peer = s ∨
    ∃ tasks messages, tasks = s.downloader.getReadyTasksForPeer orders.tasks parallelDownloads maxBlocksPerPeer peer ∧
      (∀ message ∈ messages, message.1 = peer) ∧
      (messages.flatMap fun message => message.2.ids).Perm (tasks.map DownloadTask.id) ∧
      dispatchTo orders now s peer =
        { s.withDownloader (tasks.foldl (fun downloader task => downloader.dispatch task.id peer) s.downloader) with
          syncPeers := if peer ∈ s.syncPeers then s.syncPeers.insert peer now else s.syncPeers
          sent := s.sent ++ messages } := by
  unfold dispatchTo
  dsimp only
  split
  · exact .inl rfl
  · refine .inr ⟨_, _, rfl, ?_, perm_messages orders.types peer _, rfl⟩
    intro message member
    obtain ⟨entry, -, rfl⟩ := List.mem_map.mp member
    rfl

/-! ### What every step keeps -/

structure Dispatching (s : PeerDownloads) : Prop where
  consistent : ∀ id, Consistent s.downloader id
  few : s.downloader.inFlight.entries.length ≤ parallelDownloads
  none : s.heights.missingBlocks = []

def requests (id : ModifierId) (s : PeerDownloads) : Nat := (requested s).count id + budget s.downloader id

/-- A move that queues nothing. -/
structure Moves (s t : PeerDownloads) : Prop where
  kept : Dispatching t
  paid : ∀ id, requests id t ≤ requests id s

theorem moves_refl (dispatching : Dispatching s) : Moves s s := ⟨dispatching, fun _ => Nat.le_refl _⟩

theorem Moves.trans {u : PeerDownloads} (begun : Moves s t) (ended : Moves t u) : Moves s u :=
  ⟨ended.kept, fun id => (ended.paid id).trans (begun.paid id)⟩

theorem moves_of_spends {ids : List ModifierId} (dispatching : Dispatching s)
    (spends : Spends s.downloader t.downloader ids) (sent : (requested t).Perm (requested s ++ ids))
    (room : s.downloader.inFlight.entries.length + ids.length ≤ parallelDownloads)
    (same : t.heights.missingBlocks = s.heights.missingBlocks) : Moves s t where
  kept := ⟨spends.consistent, spends.grown.trans room, same.trans dispatching.none⟩
  paid id := by
    have paid := spends.paid id
    unfold requests
    rw [sent.count_eq, List.count_append]
    omega

theorem moves_of_spends_nil (dispatching : Dispatching s) (spends : Spends s.downloader t.downloader [])
    (sent : t.sent = s.sent) (same : t.heights.missingBlocks = s.heights.missingBlocks) : Moves s t := by
  refine moves_of_spends dispatching spends ?_ dispatching.few same
  rw [List.append_nil, requested, sent]
  exact .rfl

theorem moves_dispatchTo (dispatching : Dispatching s) (orders : DispatchOrders) (now : Int) (peer : PeerId) :
    Moves s (dispatchTo orders now s peer) := by
  rcases dispatchTo_cases orders now s peer with same | ⟨tasks, messages, listed, -, asked, sent⟩
  · rw [same]
    exact moves_refl dispatching
  · obtain ⟨ready, distinct⟩ := ready_of_getReadyTasksForPeer dispatching.consistent orders.tasks parallelDownloads
      maxBlocksPerPeer peer
    have room := length_getReadyTasksForPeer s.downloader orders.tasks parallelDownloads maxBlocksPerPeer peer
    rw [← listed] at ready distinct room
    have few := dispatching.few
    rw [sent]
    refine moves_of_spends dispatching (spends_dispatchAll dispatching.consistent distinct ready) ?_ ?_ rfl
    · unfold requested
      rw [List.flatMap_append]
      exact asked.append_left _
    · rw [List.length_map]
      omega

theorem moves_foldl {α : Type} {call : PeerDownloads → α → PeerDownloads}
    (moves : ∀ {s} a, Dispatching s → Moves s (call s a)) (dispatching : Dispatching s) (list : List α) :
    Moves s (list.foldl call s) := by
  induction list generalizing s with
  | nil => exact moves_refl dispatching
  | cons a rest ih =>
      have begun := moves a dispatching
      exact begun.trans (ih begun.kept)

theorem moves_dispatchDownloads (dispatching : Dispatching s) (orders : DispatchOrders) (now : Int) :
    Moves s (s.dispatchDownloads orders now) := by
  unfold dispatchDownloads
  dsimp only
  split
  · exact moves_refl dispatching
  · split
    · exact moves_refl dispatching
    · have cleared : Moves s (s.withDownloader ((s.downloader.getStuckTasks orders.tasks s.syncPeers.keys).foldl
          BlockDownloader.clearFailedPeers s.downloader)) :=
        moves_of_spends_nil dispatching
          (spends_foldl (fun id consistent => spends_clearFailedPeers consistent id) dispatching.consistent _) rfl rfl
      exact cleared.trans
        (moves_foldl (fun peer dispatching => moves_dispatchTo dispatching orders now peer) cleared.kept _)

theorem moves_failAll (dispatching : Dispatching s) (failed : List (ModifierId × PeerId)) : Moves s (s.failAll failed) :=
  moves_of_spends_nil dispatching
    (spends_foldl (fun entry consistent => spends_fail consistent entry.1 entry.2) dispatching.consistent failed) rfl rfl

theorem moveBlocks_of_nil {heights : SyncHeights} (none : heights.missingBlocks = []) (count : Nat) :
    (heights.moveBlocks count).protocol.downloader = heights.protocol.downloader ∧
      (heights.moveBlocks count).missingBlocks = [] := by
  unfold SyncHeights.moveBlocks
  dsimp only
  rw [none, List.take_nil, List.drop_nil]
  exact ⟨rfl, rfl⟩

theorem queueBlockDownloads_of_nil {heights : SyncHeights} (none : heights.missingBlocks = []) :
    heights.queueBlockDownloads.value.protocol.downloader = heights.protocol.downloader ∧
      heights.queueBlockDownloads.value.missingBlocks = [] := by
  unfold SyncHeights.queueBlockDownloads
  split
  · exact ⟨rfl, none⟩
  · exact moveBlocks_of_nil none _

theorem moves_onTick (dispatching : Dispatching s) (orders : DispatchOrders) (timedOut : DownloadTask → Bool) (now : Int) :
    Moves s (s.onTick orders timedOut now) := by
  have failed := moves_failAll dispatching (s.downloader.checkTimeouts orders.tasks timedOut)
  unfold onTick
  dsimp only
  set failures := s.downloader.checkTimeouts orders.tasks timedOut
  obtain ⟨same, none⟩ := queueBlockDownloads_of_nil failed.kept.none
  set due : PeerDownloads :=
    { (s.failAll failures).removeUnresponsive failures with
      heights := ((s.failAll failures).removeUnresponsive failures).heights.queueBlockDownloads.value }
  have queued : Moves (s.failAll failures) due := by
    refine moves_of_spends_nil failed.kept ?_ rfl (none.trans failed.kept.none.symm)
    have unchanged : due.downloader = (s.failAll failures).downloader := same
    rw [unchanged]
    exact spends_refl failed.kept.consistent
  exact (failed.trans queued).trans (moves_dispatchDownloads queued.kept orders now)

end Dispatch

section Chain
variable {chain : HeaderChain} {header : Header} {txId headerId : Bytes}

theorem missingBlocks_dropHeaders (chain : HeaderChain) (oldest : List Header) :
    (oldest.foldl HeaderChain.dropHeader chain).missingBlocks = chain.missingBlocks := by
  induction oldest generalizing chain with
  | nil => rfl
  | cons header rest ih =>
      rw [List.foldl_cons, ih]
      exact missingBlocks_removeHeader

theorem missingBlocks_trimmed (none : chain.missingBlocks = []) (oldest : List Header) (count : Nat) :
    (((oldest.foldl HeaderChain.dropHeader chain).missingBlocks.take count).foldl HeaderChain.dropBlock
      (oldest.foldl HeaderChain.dropHeader chain)).missingBlocks = [] := by
  have trimmed := (missingBlocks_dropHeaders chain oldest).trans none
  rw [trimmed, List.take_nil, List.foldl_nil]
  exact trimmed

theorem missingBlocks_enforceLimits (none : chain.missingBlocks = []) : chain.enforceLimits.missingBlocks = [] :=
  missingBlocks_trimmed none _ _

theorem missingBlocks_storeHeader {sync : SyncProtocol} (sr : SigmaRust) (header : Header)
    (none : sync.headerChain.missingBlocks = []) : (sync.storeHeader sr header).headerChain.missingBlocks = [] :=
  @missingBlocks_enforceLimits (sync.headerChain.trackHeader header (transactionsId sr header) header.id.bytes) none

theorem missingBlocks_trackRequested (sr : SigmaRust) (headers : List Header) :
    (headers.foldl (SyncProtocol.trackRequested sr) chain).missingBlocks = chain.missingBlocks := by
  induction headers generalizing chain with
  | nil => rfl
  | cons header rest ih =>
      rw [List.foldl_cons, ih]
      unfold SyncProtocol.trackRequested
      split <;> rfl

end Chain

section Steps
open PeerDownloads
variable {sr : SigmaRust} {interpreter : Interpreter} {s t : PeerDownloads} {action : PeerDownloads.Action}
variable {sync : SyncProtocol} {id : ModifierId}

def queues (sr : SigmaRust) (id : ModifierId) (s : PeerDownloads) : PeerDownloads.Action → Nat
  | .event _ _ (.requestBlocks headers) =>
      if ((headers.flatMap (SyncProtocol.blockTasks sr)).map DownloadTask.id).contains id ∧
        id ∉ s.downloader.pending ∧ id ∉ s.downloader.completed then 1 else 0
  | _ => 0

theorem spends_onModifier (sr : SigmaRust) (interpreter : Interpreter) (consistent : ∀ id, Consistent sync.downloader id) (typeId : UInt8) (id : ModifierId)
    (data : Bytes) : Spends sync.downloader (sync.onModifier sr interpreter typeId id data).1.downloader [] ∧
      (sync.onModifier sr interpreter typeId id data).1.headerChain.missingBlocks = sync.headerChain.missingBlocks := by
  unfold SyncProtocol.onModifier
  split
  · unfold SyncProtocol.onBlockReceived
    split
    · exact ⟨spends_fail consistent id [], rfl⟩
    · split
      · exact ⟨spends_fail consistent id [], rfl⟩
      · exact ⟨spends_complete consistent id, rfl⟩
  · exact ⟨spends_complete consistent id, rfl⟩
  · exact ⟨spends_refl consistent, rfl⟩

theorem spends_onBlockApplied (consistent : ∀ id, Consistent sync.downloader id) (blockId : Bytes) :
    Spends sync.downloader (sync.onBlockApplied blockId).downloader [] := by
  unfold SyncProtocol.onBlockApplied
  dsimp only
  split
  · next txId _ =>
      have first := spends_uncomplete consistent txId
      exact first.trans (spends_uncomplete first.consistent blockId)
  · exact spends_uncomplete consistent blockId

theorem spends_onBlockFailed (consistent : ∀ id, Consistent sync.downloader id) (blockId : Bytes) :
    Spends sync.downloader (sync.onBlockFailed blockId).downloader [] := by
  have first := spends_uncomplete consistent blockId
  unfold SyncProtocol.onBlockFailed
  dsimp only
  split
  · next txId _ => exact first.trans (spends_uncomplete first.consistent txId)
  · exact first

theorem blockTasks_new (headers : List Header) :
    ∀ task ∈ headers.flatMap (SyncProtocol.blockTasks sr), task = .new task.id task.typeId := by
  intro task member
  obtain ⟨header, -, among⟩ := List.mem_flatMap.mp member
  rcases List.mem_cons.mp among with rfl | among
  · rfl
  · obtain rfl := List.mem_singleton.mp among
    rfl

theorem dispatching_onRequestBlocks (sr : SigmaRust) (dispatching : Dispatching s) (headers : List Header) :
    Dispatching (s.withProtocol (s.heights.protocol.onRequestBlocks sr headers)) where
  consistent := consistent_queue dispatching.consistent (blockTasks_new headers)
  few := by
    have same : (s.downloader.queue (headers.flatMap (SyncProtocol.blockTasks sr))).inFlight = s.downloader.inFlight :=
      inFlight_queue ..
    exact (congrArg (fun table : Table ModifierId PeerId => table.entries.length) same).trans_le dispatching.few
  none := (missingBlocks_trackRequested sr headers).trans dispatching.none

theorem requests_onRequestBlocks (orders : DispatchOrders) (now : Int) (headers : List Header) :
    requests id (s.withProtocol (s.heights.protocol.onRequestBlocks sr headers)) ≤
      requests id s + BlockDownloader.maxRetries * queues sr id s (.event orders now (.requestBlocks headers)) := by
  have cost : queues sr id s (.event orders now (.requestBlocks headers)) =
      if ((headers.flatMap (SyncProtocol.blockTasks sr)).map DownloadTask.id).contains id ∧
        id ∉ s.downloader.pending ∧ id ∉ s.downloader.completed then 1 else 0 := rfl
  unfold requests
  rw [Nat.add_assoc, cost]
  refine Nat.add_le_add_left ?_ _
  split
  · rw [Nat.mul_one]
    exact (budget_le ..).trans (Nat.le_add_left ..)
  · next known =>
      rw [Nat.mul_zero, Nat.add_zero]
      rw [List.contains_iff_mem] at known
      refine Nat.le_of_eq (budget_untouched (untouched_queue ?_))
      tauto

theorem moves_handleEvent (dispatching : Dispatching s) (orders : DispatchOrders) (now : Int) (event : SyncEvent) :
    Dispatching (s.handleEvent sr interpreter orders now event) ∧
      requests id (s.handleEvent sr interpreter orders now event) ≤
        requests id s + BlockDownloader.maxRetries * queues sr id s (.event orders now event) := by
  have quiet {t : PeerDownloads} (moves : Moves s t) : Dispatching t ∧ requests id t ≤ requests id s :=
    ⟨moves.kept, moves.paid id⟩
  cases event with
  | modifierReceived typeId modifier data =>
      obtain ⟨spends, same⟩ := spends_onModifier sr interpreter dispatching.consistent typeId modifier data
      exact quiet (moves_of_spends_nil dispatching spends rfl same)
  | blockApplied blockId height =>
      exact quiet (moves_of_spends_nil dispatching (spends_onBlockApplied dispatching.consistent blockId) rfl
        missingBlocks_removeHeader)
  | blockFailed blockId =>
      exact quiet (moves_of_spends_nil dispatching (spends_onBlockFailed dispatching.consistent blockId) rfl rfl)
  | requestBlocks headers =>
      unfold PeerDownloads.handleEvent
      dsimp only
      split
      · exact ⟨dispatching, Nat.le_add_right ..⟩
      · have queued := dispatching_onRequestBlocks sr dispatching headers
        have moved := moves_dispatchDownloads queued orders now
        exact ⟨moved.kept, (moved.paid id).trans (requests_onRequestBlocks orders now headers)⟩

theorem step_eq_some (taken : PeerDownloads.step sr interpreter s action = some t) :
    s.clock ≤ action.now s ∧ t = { s.perform sr interpreter action with clock := action.now s } := by
  unfold PeerDownloads.step at taken
  obtain ⟨late, same⟩ := Option.ite_none_left_eq_some.mp taken
  exact ⟨Int.not_lt.mp late, (Option.some.inj same).symm⟩

theorem moves_withProtocol (dispatching : Dispatching s) (same : sync.downloader = s.downloader)
    (none : sync.headerChain.missingBlocks = []) : Moves s (s.withProtocol sync) := by
  refine moves_of_spends_nil dispatching ?_ rfl (none.trans dispatching.none.symm)
  have unchanged : (s.withProtocol sync).downloader = s.downloader := same
  rw [unchanged]
  exact spends_refl dispatching.consistent

theorem dispatching_perform (sr : SigmaRust) (interpreter : Interpreter) (dispatching : Dispatching s) (id : ModifierId)
    (action : PeerDownloads.Action) :
    Dispatching (s.perform sr interpreter action) ∧
      requests id (s.perform sr interpreter action) ≤
        requests id s + BlockDownloader.maxRetries * queues sr id s action := by
  have quiet (moves : Moves s (s.perform sr interpreter action)) :
      Dispatching (s.perform sr interpreter action) ∧ requests id (s.perform sr interpreter action) ≤
        requests id s + BlockDownloader.maxRetries * queues sr id s action :=
    ⟨moves.kept, (moves.paid id).trans (Nat.le_add_right ..)⟩
  have same := spends_refl dispatching.consistent
  cases action with
  | peerConnected peer now => exact quiet (moves_of_spends_nil dispatching same rfl rfl)
  | peerDisconnected order peer =>
      have removed : Moves s { s with syncPeers := s.syncPeers.erase peer } := moves_of_spends_nil dispatching same rfl rfl
      exact quiet (removed.trans (moves_failAll removed.kept _))
  | tick orders timedOut now => exact quiet (moves_onTick dispatching orders timedOut now)
  | event orders now event => exact moves_handleEvent dispatching orders now event
  | headersRequested peer now => exact quiet (moves_of_spends_nil dispatching same rfl rfl)
  | headerStored header =>
      have kept : (s.heights.protocol.storeHeader sr header).downloader = s.downloader := by
        unfold SyncProtocol.storeHeader
        rfl
      exact quiet (moves_withProtocol dispatching kept (missingBlocks_storeHeader sr header dispatching.none))
  | heightsLearned synchronizer => exact quiet (moves_of_spends_nil dispatching same rfl rfl)

theorem dispatching_step (dispatching : Dispatching s) (id : ModifierId)
    (taken : PeerDownloads.step sr interpreter s action = some t) :
    Dispatching t ∧ requests id t ≤ requests id s + BlockDownloader.maxRetries * queues sr id s action := by
  obtain ⟨-, rfl⟩ := step_eq_some taken
  obtain ⟨kept, paid⟩ := dispatching_perform sr interpreter dispatching id action
  exact ⟨⟨kept.consistent, kept.few, kept.none⟩, paid⟩

theorem dispatching_new : Dispatching .new where
  consistent _ := ⟨rfl, nofun⟩
  few := Nat.zero_le _
  none := rfl

end Steps

/-! ### Runs -/

section Runs
variable (sr : SigmaRust) (interpreter : Interpreter) (actions : List PeerDownloads.Action)

/-- Whatever happens in whatever order, a modifier is in flight exactly with the peer that its pending task is
given to, a task that is pending has been given up by nobody else and tried less than five times, and no more
than 512 modifiers are in flight. -/
theorem always_dispatching : Always (PeerDownloads.step sr interpreter) Dispatching .new actions :=
  always_of_step (fun dispatching taken => (dispatching_step dispatching [] taken).1) dispatching_new

variable {t : PeerDownloads}

/-- However often peers time out, leave or send what does not fit, a modifier is requested no more than five
times for each time that its block is asked for while it is neither waiting nor delivered. -/
theorem requested_le (id : ModifierId) (ran : run (PeerDownloads.step sr interpreter) .new actions = some t) :
    (requested t).count id ≤
      BlockDownloader.maxRetries * total (PeerDownloads.step sr interpreter) (queues sr id) .new actions := by
  have paid : requests id t ≤ requests id .new + total (PeerDownloads.step sr interpreter)
      (fun s a => BlockDownloader.maxRetries * queues sr id s a) .new actions :=
    measure_le_total (fun dispatching taken => dispatching_step dispatching id taken) dispatching_new ran
  rw [total_mul] at paid
  exact (Nat.le_add_right ..).trans (paid.trans_eq (Nat.zero_add _))

end Runs

section Samples
open Sample Validation

def listed : DispatchOrders := ⟨insertionOrder, ⟨_, fun _ => .rfl⟩, ⟨_, fun _ => .rfl⟩⟩

/-- The only peer is asked for a block and does not answer. Too soon after it nothing is asked, and then the
same again: there is nobody else. -/
def retriedBlock : List PeerDownloads.Action :=
  [.peerConnected [7] 0, .event listed 0 (.requestBlocks [sampleHeader 1 0 1 easyBits]),
    .tick listed (fun _ => true) 60, .tick listed (fun _ => false) 100]

def afterRetry : PeerDownloads := (run (PeerDownloads.step typedCodec sampleInterpreter) .new retriedBlock).getD .new

theorem retriedBlock_ran : run (PeerDownloads.step typedCodec sampleInterpreter) .new retriedBlock = some afterRetry := by
  have taken : (run (PeerDownloads.step typedCodec sampleInterpreter) .new retriedBlock).isSome := by decide +kernel
  exact (Option.getD_of_ne_none (Option.isSome_iff_ne_none.mp taken) _).symm

def retriedSection : ModifierId := transactionsId typedCodec (sampleHeader 1 0 1 easyBits)

theorem retriedBlock_requested : (requested afterRetry).count retriedSection = 2 ∧
    (requested afterRetry).count retriedSection ≤ BlockDownloader.maxRetries *
      total (PeerDownloads.step typedCodec sampleInterpreter) (queues typedCodec retriedSection) .new retriedBlock :=
  ⟨by decide +kernel, requested_le typedCodec sampleInterpreter retriedBlock retriedSection retriedBlock_ran⟩

end Samples

/-! ### The rate of requests -/

section Rate
open PeerDownloads
variable {sr : SigmaRust} {interpreter : Interpreter} {s t u : PeerDownloads} {orders : DispatchOrders} {now : Int}
variable {peer other : PeerId} {action : PeerDownloads.Action}

def requestPace (peer : PeerId) : Pace PeerDownloads where
  count s := (requestedFrom peer s).length
  clock := PeerDownloads.clock
  last s := s.syncPeers.lookup peer

abbrev Paced (peer : PeerId) (now : Int) (s t : PeerDownloads) : Prop :=
  (requestPace peer).Step minRequestInterval maxBlocksPerPeer s { t with clock := now }

theorem paced_refl (peer : PeerId) (now : Int) (s : PeerDownloads) : Paced peer now s s :=
  .quiet (Int.le_refl _) .inl

structure LeavesAlone (peer : PeerId) (s t : PeerDownloads) : Prop where
  asked : requestedFrom peer t = requestedFrom peer s
  dated : t.syncPeers.lookup peer = s.syncPeers.lookup peer

theorem Paced.leavesAlone (paced : Paced peer now s t) (same : LeavesAlone peer t u) : Paced peer now s u := by
  refine paced.before ?_ rfl same.dated
  unfold requestPace
  dsimp only
  exact congrArg (fun ids : List ModifierId => (ids.length : Int)) same.asked

theorem Paced.of_forgotten (paced : Paced peer now t u) (asked : requestedFrom peer t = requestedFrom peer s)
    (dated : ∀ {last}, t.syncPeers.lookup peer = some last → s.syncPeers.lookup peer = some last) :
    Paced peer now s u := by
  refine paced.after ?_ dated
  unfold requestPace
  dsimp only
  rw [asked]

theorem leavesAlone_withProtocol (protocol : SyncProtocol) : LeavesAlone peer s (s.withProtocol protocol) := ⟨rfl, rfl⟩

theorem requestedFrom_append {messages : List (PeerId × ModifierRequest)} {after : PeerDownloads}
    (before : PeerDownloads) (sent : after.sent = before.sent ++ messages) : requestedFrom peer after = requestedFrom peer before ++
      (messages.filter fun message => message.1 == peer).flatMap fun message => message.2.ids := by
  unfold requestedFrom
  rw [sent, List.filter_append, List.flatMap_append]

theorem leavesAlone_dispatchTo (apart : peer ≠ other) : LeavesAlone peer s (dispatchTo orders now s other) := by
  rcases dispatchTo_cases orders now s other with same | ⟨tasks, messages, -, receivers, -, sent⟩
  · rw [same]
    exact ⟨rfl, rfl⟩
  · rw [sent]
    constructor
    case asked =>
      have none : (messages.filter fun message => message.1 == peer) = [] := by
        rw [List.filter_eq_nil_iff]
        intro message member same
        exact apart ((beq_iff_eq.mp same).symm.trans (receivers message member))
      rw [requestedFrom_append s rfl, none]
      exact List.append_nil _
    case dated =>
      dsimp only
      split
      · exact AList.lookup_insert_ne apart
      · rfl

theorem leavesAlone_foldl {peers : List PeerId} (absent : peer ∉ peers) :
    LeavesAlone peer s (peers.foldl (dispatchTo orders now) s) := by
  induction peers generalizing s with
  | nil => exact ⟨rfl, rfl⟩
  | cons other rest ih =>
      obtain ⟨apart, absent⟩ := not_or.mp (List.mem_cons.not.mp absent)
      have first : LeavesAlone peer s (dispatchTo orders now s other) := leavesAlone_dispatchTo apart
      have later := ih (s := dispatchTo orders now s other) absent
      exact ⟨later.asked.trans first.asked, later.dated.trans first.dated⟩

theorem paced_dispatchTo {last : Int} (known : s.syncPeers.lookup peer = some last) (due : canSendRequest now last) :
    Paced peer now s (dispatchTo orders now s peer) := by
  rcases dispatchTo_cases orders now s peer with same | ⟨tasks, messages, listed, receivers, asked, sent⟩
  · rw [same]
    exact paced_refl peer now s
  · have every : (messages.filter fun message => message.1 == peer) = messages := by
      rw [List.filter_eq_self]
      exact fun message member => beq_iff_eq.mpr (receivers message member)
    have room := length_getReadyTasksForPeer s.downloader orders.tasks parallelDownloads maxBlocksPerPeer peer
    rw [← listed] at room
    rw [sent]
    have more : (messages.flatMap fun message => message.2.ids).length ≤ maxBlocksPerPeer := by
      rw [asked.length_eq, List.length_map]
      exact room.trans (Nat.min_le_left ..)
    have interval : minRequestInterval ≤ now - last := of_decide_eq_true due
    refine .event ?_ known (Int.add_le_of_le_sub_left interval) ?_
    · unfold requestPace
      dsimp only
      rw [requestedFrom_append s rfl, every, List.length_append, Nat.cast_add]
      exact Int.add_le_add_left (Int.ofNat_le.mpr more) _
    · unfold requestPace
      dsimp only
      rw [if_pos (Entries.mem_iff.mpr ⟨last, known⟩), AList.lookup_insert]

theorem paced_foldl {peers : List PeerId} (distinct : peers.Nodup)
    (due : ∀ other ∈ peers, ∃ last, s.syncPeers.lookup other = some last ∧ canSendRequest now last) :
    Paced peer now s (peers.foldl (dispatchTo orders now) s) := by
  induction peers generalizing s with
  | nil => exact paced_refl peer now s
  | cons other rest ih =>
      obtain ⟨absent, distinct⟩ := List.nodup_cons.mp distinct
      rw [List.foldl_cons]
      by_cases same : peer = other
      · subst same
        obtain ⟨last, known, ready⟩ := due peer List.mem_cons_self
        exact (paced_dispatchTo known ready).leavesAlone (leavesAlone_foldl absent)
      · have first : LeavesAlone peer s (dispatchTo orders now s other) := leavesAlone_dispatchTo same
        refine (ih distinct fun later member => ?_).of_forgotten first.asked fun found => first.dated ▸ found
        have apart : later ≠ other := fun same => absent (same ▸ member)
        have kept : LeavesAlone later s (dispatchTo orders now s other) := leavesAlone_dispatchTo apart
        rw [kept.dated]
        exact due later (List.mem_cons_of_mem _ member)

theorem paced_dispatchDownloads (orders : DispatchOrders) (now : Int) : Paced peer now s (s.dispatchDownloads orders now) := by
  have perm := orders.peers.perm s.syncPeers
  unfold dispatchDownloads
  dsimp only
  split
  · exact paced_refl peer now s
  · split
    · exact paced_refl peer now s
    · set cleared := s.withDownloader ((s.downloader.getStuckTasks orders.tasks s.syncPeers.keys).foldl
        BlockDownloader.clearFailedPeers s.downloader)
      have paced : Paced peer now cleared (((((orders.peers.entries s.syncPeers).filter fun entry =>
          canSendRequest now entry.2).map Prod.fst).take maxPeersToUse).foldl (dispatchTo orders now) cleared) := by
        refine paced_foldl ?_ fun other member => ?_
        · have within := (List.take_sublist maxPeersToUse _).trans
            (List.Sublist.map Prod.fst (List.filter_sublist (p := fun entry : PeerId × Int => canSendRequest now entry.2)
              (l := orders.peers.entries s.syncPeers)))
          exact within.nodup (Entries.nodup_of_perm perm)
        · obtain ⟨⟨_, last⟩, chosen, rfl⟩ := List.mem_map.mp (List.mem_of_mem_take member)
          obtain ⟨among, ready⟩ := List.mem_filter.mp chosen
          exact ⟨last, (Entries.mem_of_perm perm).mp among, ready⟩
      exact paced.of_forgotten rfl id

def Connects (peer : PeerId) : PeerDownloads.Action → Prop
  | .peerConnected other _ => other = peer
  | _ => False

theorem paced_perform (sr : SigmaRust) (interpreter : Interpreter) (s : PeerDownloads) (old : ¬ Connects peer action) :
    Paced peer (action.now s) s (s.perform sr interpreter action) := by
  cases action with
  | peerConnected other now =>
      refine .quiet (Int.le_refl _) fun found => .inl ?_
      exact (AList.lookup_insert_ne (Ne.symm old)).symm.trans found
  | peerDisconnected order other => exact .quiet (Int.le_refl _) fun found => .inl (Entries.lookup_erase_iff.mp found).2
  | tick orders timedOut now =>
      unfold perform onTick
      dsimp only
      exact (paced_dispatchDownloads orders now).of_forgotten rfl fun found => (Entries.lookup_retain.mp found).1
  | event orders now event =>
      unfold perform PeerDownloads.handleEvent
      dsimp only
      split
      · split
        · exact paced_refl peer now s
        · exact (paced_dispatchDownloads orders now).of_forgotten rfl id
      · exact (paced_refl peer now s).leavesAlone (leavesAlone_withProtocol _)
  | headersRequested other now =>
      refine .quiet (Int.le_refl _) fun found => ?_
      unfold requestPace perform at found
      dsimp only at found
      split at found
      · exact (Entries.lookup_insert_iff.mp found).elim (fun same => .inr same.2) fun kept => .inl kept.2
      · exact .inl found
  | headerStored header =>
      exact (paced_refl peer s.clock s).leavesAlone (leavesAlone_withProtocol _)
  | heightsLearned synchronizer => exact (paced_refl peer s.clock s).leavesAlone ⟨rfl, rfl⟩

instance : DecidablePred (Connects peer)
  | .peerConnected other _ => inferInstanceAs (Decidable (other = peer))
  | .peerDisconnected .. | .tick .. | .event .. | .headersRequested .. | .headerStored _ | .heightsLearned _ =>
      inferInstanceAs (Decidable False)

/-- A peer that is not connected anew is asked for no more than 32 modifiers in each tenth of a second, whatever
happens meanwhile. -/
theorem requestedFrom_le (sr : SigmaRust) (interpreter : Interpreter) (peer : PeerId)
    (actions : List PeerDownloads.Action) (ran : run (PeerDownloads.step sr interpreter) s actions = some t)
    (old : ∀ action ∈ actions, ¬ Connects peer action) :
    ((requestedFrom peer t).length : Int) ≤
      (requestedFrom peer s).length + maxBlocksPerPeer * ((t.clock - s.clock) / minRequestInterval + 1) := by
  have interval : 0 < minRequestInterval := by decide
  have free : (0 : Int) ≤ maxBlocksPerPeer := by decide
  refine (requestPace peer).count_le interval free (fun (_ : True) old taken => ?_) trivial ((along_actions ran).mpr old) ran
  obtain ⟨late, rfl⟩ := step_eq_some taken
  exact ⟨trivial, late, paced_perform sr interpreter _ old⟩

/-- From when the peer is connected: four requests in a tenth of a second. -/
theorem retriedBlock_rate :
    ((requestedFrom [7] afterRetry).length : Int) ≤ (requestedFrom [7] (PeerDownloads.new.onPeerConnected [7] 0)).length +
      maxBlocksPerPeer * ((afterRetry.clock - 0) / minRequestInterval + 1) :=
  requestedFrom_le typedCodec Validation.sampleInterpreter [7] retriedBlock.tail retriedBlock_ran (by decide)

end Rate
end ErgoNode.Proof.Sync
