import ErgoNode.Lib.Entries
import ErgoNode.Lib.Run
import ErgoNode.Sync.Download

/-!
# The stages of a download

A modifier waits in the pending tasks, is in flight with its task still there, or is completed. The
tasks that are ready are looked up first and dispatched later; what has been completed or given up in
between is put in flight without a task.
-/

namespace ErgoNode.Proof.Sync
open Lib BlockDownloader

inductive Stage where
  | pending | inFlight | completed

def InStage (downloader : BlockDownloader) (id : ModifierId) : Stage → Prop
  | .pending => id ∈ downloader.pending ∧ id ∉ downloader.inFlight
  | .inFlight => id ∈ downloader.inFlight
  | .completed => id ∈ downloader.completed

structure Staged (downloader : BlockDownloader) : Prop where
  assigned : ∀ {id peer}, downloader.inFlight.lookup id = some peer →
    ∃ task, downloader.pending.lookup id = some task ∧ task.peer = some peer
  once : ∀ {id}, id ∈ downloader.completed → id ∉ downloader.inFlight
  one : ∀ {id}, id ∈ downloader.pending ∨ id ∈ downloader.inFlight ∨ id ∈ downloader.completed →
    ∃! stage, InStage downloader id stage

section Operations
variable {downloader : BlockDownloader} {id other : ModifierId}

/-- Every id in flight has its task, and nothing that is pending is completed. -/
structure Tasked (downloader : BlockDownloader) : Prop where
  assigned : ∀ {id peer}, downloader.inFlight.lookup id = some peer →
    ∃ task, downloader.pending.lookup id = some task ∧ task.peer = some peer
  fresh : ∀ {id}, id ∈ downloader.pending → id ∉ downloader.completed

theorem Tasked.pending (tasked : Tasked downloader) (flying : id ∈ downloader.inFlight) : id ∈ downloader.pending := by
  obtain ⟨peer, found⟩ := Entries.mem_iff.mp flying
  obtain ⟨task, here, -⟩ := tasked.assigned found
  exact Entries.mem_iff.mpr ⟨task, here⟩

theorem staged_iff_tasked : Staged downloader ↔ Tasked downloader := by
  constructor
  · intro staged
    refine ⟨staged.assigned, fun {id} waiting done => ?_⟩
    obtain ⟨stage, -, only⟩ := staged.one (.inl waiting)
    have first := only .completed done
    have second := only .pending ⟨waiting, staged.once done⟩
    exact Stage.noConfusion (first.trans second.symm)
  · intro tasked
    have once : ∀ {id}, id ∈ downloader.completed → id ∉ downloader.inFlight :=
      fun done flying => tasked.fresh (tasked.pending flying) done
    refine ⟨tasked.assigned, once, fun {id} somewhere => ?_⟩
    by_cases flying : id ∈ downloader.inFlight
    · refine ⟨.inFlight, flying, fun stage here => ?_⟩
      cases stage with
      | pending => exact absurd flying here.2
      | inFlight => rfl
      | completed => exact absurd flying (once here)
    · by_cases done : id ∈ downloader.completed
      · refine ⟨.completed, done, fun stage here => ?_⟩
        cases stage with
        | pending => exact absurd done (tasked.fresh here.1)
        | inFlight => exact absurd here flying
        | completed => rfl
      · refine ⟨.pending, ⟨?_, flying⟩, fun stage here => ?_⟩
        · rcases somewhere with waiting | elsewhere | elsewhere
          · exact waiting
          · exact absurd elsewhere flying
          · exact absurd elsewhere done
        · cases stage with
          | pending => rfl
          | inFlight => exact absurd here flying
          | completed => exact absurd here done

theorem lookup_erase_eq_some {V : Type} {table : Table ModifierId V} {value : V}
    (found : (table.erase id).lookup other = some value) : other ≠ id ∧ table.lookup other = some value := by
  by_cases same : other = id
  · subst same
    simp at found
  · rw [AList.lookup_erase_ne same] at found
    exact ⟨same, found⟩

theorem Tasked.queueTask (tasked : Tasked downloader) (force : Bool) (task : DownloadTask) :
    Tasked (BlockDownloader.queueTask force downloader task) := by
  have added {completed : LruCache ModifierId completedCacheSize} (landed : task.id ∉ downloader.inFlight)
      (undone : task.id ∉ completed) (kept : ∀ other ∈ completed, other ∈ downloader.completed) :
      Tasked { downloader with completed, pending := downloader.pending.insert task.id task } := by
    constructor
    case assigned =>
      intro id peer flying
      have other : id ≠ task.id := fun same => landed (same ▸ Entries.mem_iff.mpr ⟨_, flying⟩)
      dsimp only
      rw [AList.lookup_insert_ne other]
      exact tasked.assigned flying
    case fresh =>
      intro id waiting done
      rcases (AList.mem_insert _).mp waiting with rfl | before
      · exact undone done
      · exact tasked.fresh before (kept id done)
  unfold BlockDownloader.queueTask
  split
  · exact tasked
  · next new =>
      have landed : task.id ∉ downloader.inFlight := fun flying => new (.inl flying)
      split
      · split
        · exact added landed (fun member => (LruCache.mem_pop.mp member).1 rfl)
            fun _ member => (LruCache.mem_pop.mp member).2
        · exact tasked
      · next undone => exact added landed undone fun _ member => member

theorem Tasked.queueInner (tasked : Tasked downloader) (tasks : List DownloadTask) (force : Bool) :
    Tasked (downloader.queueInner tasks force) := by
  unfold BlockDownloader.queueInner
  induction tasks generalizing downloader with
  | nil => exact tasked
  | cons task rest ih => exact ih (tasked.queueTask force task)

theorem dispatch_of_pending {task : DownloadTask} (peer : PeerId) (here : downloader.pending.lookup id = some task) :
    downloader.dispatch id peer = { downloader with
      pending := downloader.pending.insert id { task with peer := some peer }
      inFlight := downloader.inFlight.insert id peer } := by
  unfold BlockDownloader.dispatch
  rw [here]

theorem Tasked.fresh_insert (tasked : Tasked downloader) (waiting : id ∈ downloader.pending) {task : DownloadTask}
    {other : ModifierId} (member : other ∈ downloader.pending.insert id task) : other ∉ downloader.completed := by
  rcases (AList.mem_insert _).mp member with rfl | before
  · exact tasked.fresh waiting
  · exact tasked.fresh before

theorem Tasked.dispatch (tasked : Tasked downloader) (peer : PeerId) (waiting : id ∈ downloader.pending) :
    Tasked (downloader.dispatch id peer) := by
  obtain ⟨task, here⟩ := Entries.mem_iff.mp waiting
  rw [dispatch_of_pending peer here]
  constructor
  case assigned =>
    intro other taker flying
    by_cases same : other = id
    · subst same
      rw [AList.lookup_insert] at flying
      cases flying
      exact ⟨_, AList.lookup_insert _, rfl⟩
    · rw [AList.lookup_insert_ne same] at flying
      dsimp only
      rw [AList.lookup_insert_ne same]
      exact tasked.assigned flying
  case fresh => exact fun member => tasked.fresh_insert waiting member

theorem pending_of_tasked_dispatch {peer : PeerId} (tasked : Tasked (downloader.dispatch id peer)) :
    id ∈ downloader.pending := by
  by_contra missing
  have same : downloader.dispatch id peer =
      { downloader with inFlight := downloader.inFlight.insert id peer } := by
    unfold BlockDownloader.dispatch
    rw [AList.lookup_eq_none.mpr missing]
  rw [same] at tasked
  exact missing (tasked.pending ((AList.mem_insert _).mpr (.inl rfl)))

theorem Tasked.complete (tasked : Tasked downloader) (id : ModifierId) : Tasked (downloader.complete id) := by
  constructor
  case assigned =>
    intro other peer flying
    obtain ⟨apart, before⟩ := lookup_erase_eq_some flying
    dsimp only [BlockDownloader.complete]
    rw [AList.lookup_erase_ne apart]
    exact tasked.assigned before
  case fresh =>
    intro other waiting done
    obtain ⟨apart, before⟩ := AList.mem_erase.mp waiting
    rcases mem_completed_complete done with same | earlier
    · exact apart same
    · exact tasked.fresh before earlier

theorem Tasked.fail (tasked : Tasked downloader) (id : ModifierId) (peer : PeerId) :
    Tasked (downloader.fail id peer) := by
  have landed : Tasked { downloader with inFlight := downloader.inFlight.erase id } :=
    ⟨fun flying => tasked.assigned (lookup_erase_eq_some flying).2, tasked.fresh⟩
  unfold BlockDownloader.fail
  dsimp only
  cases found : downloader.pending.lookup id with
  | none => exact landed
  | some task =>
      have waiting : id ∈ downloader.pending := Entries.mem_iff.mpr ⟨_, found⟩
      dsimp only
      split
      · constructor
        case assigned =>
          intro other taker flying
          obtain ⟨apart, before⟩ := lookup_erase_eq_some flying
          dsimp only
          rw [AList.lookup_erase_ne apart]
          exact tasked.assigned before
        case fresh => exact fun member => tasked.fresh (AList.mem_erase.mp member).2
      · constructor
        case assigned =>
          intro other taker flying
          obtain ⟨apart, before⟩ := lookup_erase_eq_some flying
          dsimp only
          rw [AList.lookup_insert_ne apart]
          exact tasked.assigned before
        case fresh => exact fun member => tasked.fresh_insert waiting member

theorem Tasked.uncomplete (tasked : Tasked downloader) (id : ModifierId) : Tasked (downloader.uncomplete id) where
  assigned := tasked.assigned
  fresh waiting done := tasked.fresh waiting (mem_completed_uncomplete.mp done).2

end Operations

/-! ### Runs -/

structure Downloading where
  downloader : BlockDownloader
  returned : List (ModifierId × PeerId)

namespace Downloading

def start : Downloading := ⟨.new, []⟩

inductive Action where
  | queue (tasks : List DownloadTask)
  | queueForce (tasks : List DownloadTask)
  | getReadyTasksForPeer (order : Iteration ModifierId DownloadTask) (maxParallel count : Nat) (peer : PeerId)
  | dispatch (id : ModifierId) (peer : PeerId)
  | complete (id : ModifierId)
  | fail (id : ModifierId) (peer : PeerId)
  | checkTimeouts (order : Iteration ModifierId DownloadTask) (timedOut : DownloadTask → Bool)
  | uncomplete (id : ModifierId)

def step (s : Downloading) : Action → Option Downloading
  | .queue tasks => some { s with downloader := s.downloader.queue tasks }
  | .queueForce tasks => some { s with downloader := s.downloader.queueForce tasks }
  | .getReadyTasksForPeer order maxParallel count peer =>
      some { s with returned := s.returned ++
        (s.downloader.getReadyTasksForPeer order maxParallel count peer).map fun task => (task.id, peer) }
  | .dispatch id peer =>
      if (id, peer) ∈ s.returned then some { s with downloader := s.downloader.dispatch id peer } else none
  | .complete id => some { s with downloader := s.downloader.complete id }
  | .fail id peer => some { s with downloader := s.downloader.fail id peer }
  | .checkTimeouts _ _ => some s
  | .uncomplete id => some { s with downloader := s.downloader.uncomplete id }

end Downloading

def StillPending (s : Downloading) : Downloading.Action → Prop
  | .dispatch id _ => id ∈ s.downloader.pending
  | _ => True

instance (s : Downloading) : DecidablePred (StillPending s)
  | .dispatch _ _ => inferInstanceAs (Decidable (_ ∈ AList.keys _))
  | .queue _ | .queueForce _ | .getReadyTasksForPeer .. | .complete _ | .fail .. | .checkTimeouts .. | .uncomplete _ =>
      inferInstanceAs (Decidable True)

section Steps
variable {s t : Downloading} {action : Downloading.Action}

theorem Tasked.step (tasked : Tasked s.downloader) (condition : StillPending s action)
    (taken : Downloading.step s action = some t) : Tasked t.downloader := by
  cases action with
  | queue tasks =>
      cases taken
      exact tasked.queueInner tasks false
  | queueForce tasks =>
      cases taken
      exact tasked.queueInner tasks true
  | getReadyTasksForPeer order maxParallel count peer =>
      cases taken
      exact tasked
  | dispatch id peer =>
      obtain ⟨-, ⟨⟩⟩ := Option.ite_none_right_eq_some.mp taken
      exact tasked.dispatch peer condition
  | complete id =>
      cases taken
      exact tasked.complete id
  | fail id peer =>
      cases taken
      exact tasked.fail id peer
  | checkTimeouts order timedOut =>
      cases taken
      exact tasked
  | uncomplete id =>
      cases taken
      exact tasked.uncomplete id

theorem stillPending_of_staged (taken : Downloading.step s action = some t) (staged : Staged t.downloader) :
    StillPending s action := by
  cases action with
  | dispatch id peer =>
      obtain ⟨-, ⟨⟩⟩ := Option.ite_none_right_eq_some.mp taken
      exact pending_of_tasked_dispatch (staged_iff_tasked.mp staged)
  | queue | queueForce | getReadyTasksForPeer | complete | fail | checkTimeouts | uncomplete => trivial

end Steps

/-- Every download is in one stage, with a task for each that is in flight, exactly as long as no task is
dispatched that was completed or given up after it was returned as ready. -/
theorem always_staged_iff {actions : List Downloading.Action} {t : Downloading}
    (ran : run Downloading.step .start actions = some t) :
    Always Downloading.step (fun s => Staged s.downloader) .start actions ↔
      Along Downloading.step StillPending .start actions :=
  always_iff_along (fun (tasked : Tasked _) condition taken => tasked.step condition taken)
    (fun _ taken staged => stillPending_of_staged taken staged) (fun tasked => staged_iff_tasked.mpr tasked)
    ⟨nofun, nofun⟩ ran

section Samples

def insertionOrder : Iteration ModifierId DownloadTask := ⟨_, fun _ => .rfl⟩

def retriedTask : List Downloading.Action :=
  [.queue [.new [1] 102], .getReadyTasksForPeer insertionOrder 16 4 [7], .dispatch [1] [7], .fail [1] [7],
    .getReadyTasksForPeer insertionOrder 16 4 [8], .dispatch [1] [8], .complete [1]]

theorem retriedTask_staged : Always Downloading.step (fun s => Staged s.downloader) .start retriedTask :=
  (always_staged_iff (t := (run Downloading.step .start retriedTask).getD .start) rfl).mpr (by decide)

def outdatedTask : List Downloading.Action :=
  [.queue [.new [1] 102], .getReadyTasksForPeer insertionOrder 16 4 [7], .complete [1], .dispatch [1] [7]]

theorem outdatedTask_leaks : ¬ Always Downloading.step (fun s => Staged s.downloader) .start outdatedTask := by
  intro always
  have last := always _ ⟨outdatedTask, List.prefix_rfl, rfl⟩
  exact @Staged.once _ last [1] (by decide) (by decide)

end Samples

end ErgoNode.Proof.Sync
