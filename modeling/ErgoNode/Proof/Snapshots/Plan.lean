import ErgoNode.Lib.Run
import ErgoNode.State.Snapshots
import Mathlib.Data.List.Nodup
import Mathlib.Data.List.Zip

/-!
# Chunks in flight

A chunk is in flight from the moment the plan hands it out until it is reported. The plan itself only
counts, and moves its cursor back when a chunk fails, so it can hand out a chunk that is in flight and
count down for one that is not.
-/

namespace ErgoNode.Proof.Snapshots
open Lib UtxoSetSnapshotDownloadPlan

/-! ### What the operations do -/

section Operations
variable {plan : UtxoSetSnapshotDownloadPlan} {chunkId : SubtreeId} {downloaded : List SubtreeId}

theorem selectChunks_fst (howMany : Nat) (chunks : List (SubtreeId × Bool)) :
    (selectChunks howMany chunks).1 = ((chunks.filter fun chunk => !chunk.2).map Prod.fst).take howMany := by
  induction chunks generalizing howMany with
  | nil => cases howMany <;> simp [selectChunks]
  | cons chunk rest ih =>
      obtain ⟨id, flag⟩ := chunk
      cases howMany with
      | zero => simp [selectChunks]
      | succ howMany => cases flag <;> simp [selectChunks, ih]

/-- The flags say which chunks have been reported as downloaded. -/
def Flagged (plan : UtxoSetSnapshotDownloadPlan) (downloaded : List SubtreeId) : Prop :=
  plan.downloadedChunkIds = plan.expectedChunkIds.map fun id => decide (id ∈ downloaded)

def upcoming (plan : UtxoSetSnapshotDownloadPlan) (downloaded : List SubtreeId) (howMany : Nat) : List SubtreeId :=
  ((plan.expectedChunkIds.drop plan.nextChunkIndex).filter fun id => id ∉ downloaded).take howMany

theorem getChunkIdsToDownload_fst (flagged : Flagged plan downloaded) (howMany : Nat) :
    (plan.getChunkIdsToDownload howMany).1 = upcoming plan downloaded howMany := by
  have zipped : plan.expectedChunkIds.zip plan.downloadedChunkIds =
      plan.expectedChunkIds.map fun id => (id, decide (id ∈ downloaded)) := by
    rw [show plan.downloadedChunkIds = _ from flagged]
    simpa using @List.zip_map' _ _ _ id (fun id => decide (id ∈ downloaded)) plan.expectedChunkIds
  rw [getChunkIdsToDownload]
  dsimp only
  rw [selectChunks_fst, zipped, ← List.map_drop, List.filter_map, List.map_map]
  simp [upcoming, Function.comp_def]

theorem flagged_new (expected : List SubtreeId) : Flagged (.new expected) [] := by
  simp [Flagged, UtxoSetSnapshotDownloadPlan.new, List.map_const']

theorem Flagged.at (flagged : Flagged plan downloaded) {idx : Nat}
    (found : plan.expectedChunkIds.idxOf? chunkId = some idx) :
    plan.downloadedChunkIds[idx]? = some (decide (chunkId ∈ downloaded)) := by
  obtain ⟨inside, here, -⟩ := List.idxOf?_eq_some_iff.mp found
  rw [show plan.downloadedChunkIds = _ from flagged, List.getElem?_map, List.getElem?_eq_getElem inside, here]
  rfl

theorem set_flags {expected : List SubtreeId} (distinct : expected.Nodup) {idx : Nat}
    (found : expected.idxOf? chunkId = some idx) :
    (expected.map fun id => decide (id ∈ downloaded)).set idx true =
      expected.map fun id => decide (id ∈ chunkId :: downloaded) := by
  obtain ⟨inside, here, -⟩ := List.idxOf?_eq_some_iff.mp found
  refine List.ext_getElem (by simp) fun i left right => ?_
  rw [List.getElem_set]
  split
  · next same =>
      subst same
      simp [here]
  · next apart =>
      have bound : i < expected.length := by simpa using right
      have other : expected[i] ≠ chunkId := fun same => apart ((distinct.getElem_inj_iff).mp (here.trans same.symm))
      simp [other]

theorem Flagged.markChunkDownloaded (flagged : Flagged plan downloaded) (distinct : plan.expectedChunkIds.Nodup) :
    Flagged (plan.markChunkDownloaded chunkId).2 (chunkId :: downloaded) := by
  unfold UtxoSetSnapshotDownloadPlan.markChunkDownloaded
  cases found : plan.expectedChunkIds.idxOf? chunkId with
  | none =>
      refine (show plan.downloadedChunkIds = _ from flagged).trans (List.map_congr_left fun id member => ?_)
      have other : id ≠ chunkId := ne_of_mem_of_not_mem member (List.idxOf?_eq_none_iff.mp found)
      simp [other]
  | some idx =>
      have flag := flagged.at found
      dsimp only
      split
      · next unset =>
          rw [Flagged]
          dsimp only
          rw [show plan.downloadedChunkIds = _ from flagged, set_flags distinct found]
      · next set =>
          have before : chunkId ∈ downloaded := by
            by_contra missing
            exact set (by rw [flag, decide_eq_false missing])
          refine (show plan.downloadedChunkIds = _ from flagged).trans (List.map_congr_left fun id _ => ?_)
          by_cases same : id = chunkId <;> simp [same, before]

theorem downloadingChunks_markChunkDownloaded (flagged : Flagged plan downloaded) :
    (plan.markChunkDownloaded chunkId).2.downloadingChunks =
      if chunkId ∈ plan.expectedChunkIds ∧ chunkId ∉ downloaded then plan.downloadingChunks - 1
      else plan.downloadingChunks := by
  unfold UtxoSetSnapshotDownloadPlan.markChunkDownloaded
  cases found : plan.expectedChunkIds.idxOf? chunkId with
  | none => simp [List.idxOf?_eq_none_iff.mp found]
  | some idx =>
      have expected : chunkId ∈ plan.expectedChunkIds := List.isSome_idxOf?.mp (by rw [found, Option.isSome_some])
      have flag := flagged.at found
      by_cases before : chunkId ∈ downloaded <;> simp [flag, before, expected]

@[simp] theorem expectedChunkIds_markChunkDownloaded :
    (plan.markChunkDownloaded chunkId).2.expectedChunkIds = plan.expectedChunkIds := by
  unfold UtxoSetSnapshotDownloadPlan.markChunkDownloaded
  split
  · split <;> rfl
  · rfl

theorem downloadingChunks_markChunkFailed :
    (plan.markChunkFailed chunkId).downloadingChunks =
      if chunkId ∈ plan.expectedChunkIds then plan.downloadingChunks - 1 else plan.downloadingChunks := by
  unfold markChunkFailed
  cases found : plan.expectedChunkIds.idxOf? chunkId with
  | none => simp [List.idxOf?_eq_none_iff.mp found]
  | some idx =>
      have expected : chunkId ∈ plan.expectedChunkIds := List.isSome_idxOf?.mp (by rw [found, Option.isSome_some])
      simp [expected]

@[simp] theorem expectedChunkIds_markChunkFailed :
    (plan.markChunkFailed chunkId).expectedChunkIds = plan.expectedChunkIds := by
  unfold markChunkFailed
  split <;> rfl

@[simp] theorem downloadedChunkIds_markChunkFailed :
    (plan.markChunkFailed chunkId).downloadedChunkIds = plan.downloadedChunkIds := by
  unfold markChunkFailed
  split <;> rfl

theorem isFullyDownloaded_of (flagged : Flagged plan downloaded) (idle : plan.downloadingChunks = 0)
    (all : ∀ id ∈ plan.expectedChunkIds, id ∈ downloaded) : plan.isFullyDownloaded = true := by
  unfold isFullyDownloaded
  rw [idle, show plan.downloadedChunkIds = _ from flagged]
  simpa using all

end Operations

/-! ### Runs -/

structure Download where
  plan : UtxoSetSnapshotDownloadPlan
  inFlight : List SubtreeId
  downloaded : List SubtreeId
  repeated : List SubtreeId

namespace Download

def start (expectedChunkIds : List SubtreeId) : Download := ⟨.new expectedChunkIds, [], [], []⟩

inductive Action where
  | getChunkIdsToDownload (howMany : Nat)
  | markChunkDownloaded (chunkId : SubtreeId)
  | markChunkFailed (chunkId : SubtreeId)

def step (s : Download) : Action → Option Download
  | .getChunkIdsToDownload howMany =>
      let (result, plan) := s.plan.getChunkIdsToDownload howMany
      some { s with
        plan
        inFlight := s.inFlight ++ result
        repeated := s.repeated ++ result.filter fun id => id ∈ s.inFlight ∨ id ∈ s.downloaded }
  | .markChunkDownloaded chunkId =>
      some { s with
        plan := (s.plan.markChunkDownloaded chunkId).2
        inFlight := s.inFlight.erase chunkId
        downloaded := chunkId :: s.downloaded }
  | .markChunkFailed chunkId =>
      some { s with
        plan := s.plan.markChunkFailed chunkId
        inFlight := s.inFlight.erase chunkId }

end Download

structure Accurate (s : Download) : Prop where
  counted : s.plan.downloadingChunks = s.inFlight.length
  once : s.repeated = []
  complete : (∀ id ∈ s.plan.expectedChunkIds, id ∈ s.downloaded) → s.plan.isFullyDownloaded = true

/-- A request reaches no chunk that is in flight. A report on a chunk of the snapshot is about one that is
in flight, or nothing is in flight; a chunk may be reported again once it is downloaded. -/
def Orderly (s : Download) : Download.Action → Prop
  | .getChunkIdsToDownload howMany => ∀ id ∈ upcoming s.plan s.downloaded howMany, id ∉ s.inFlight
  | .markChunkDownloaded chunkId =>
      chunkId ∈ s.plan.expectedChunkIds → chunkId ∉ s.downloaded → chunkId ∈ s.inFlight ∨ s.inFlight = []
  | .markChunkFailed chunkId => chunkId ∈ s.plan.expectedChunkIds → chunkId ∈ s.inFlight ∨ s.inFlight = []

instance (s : Download) : DecidablePred (Orderly s)
  | .getChunkIdsToDownload _ => inferInstanceAs (Decidable (∀ id ∈ upcoming _ _ _, _))
  | .markChunkDownloaded _ => inferInstanceAs (Decidable (_ → _ → _))
  | .markChunkFailed _ => inferInstanceAs (Decidable (_ → _))

structure Tracked (s : Download) : Prop where
  distinct : s.plan.expectedChunkIds.Nodup
  flagged : Flagged s.plan s.downloaded
  once : s.inFlight.Nodup
  expected : s.inFlight ⊆ s.plan.expectedChunkIds
  apart : ∀ id ∈ s.inFlight, id ∉ s.downloaded
  counted : s.plan.downloadingChunks = s.inFlight.length
  fresh : s.repeated = []

section Steps
variable {s t : Download} {action : Download.Action}

theorem Tracked.accurate (tracked : Tracked s) : Accurate s where
  counted := tracked.counted
  once := tracked.fresh
  complete all := by
    have idle : s.inFlight = [] :=
      List.eq_nil_iff_forall_not_mem.mpr fun id flying => tracked.apart id flying (all id (tracked.expected flying))
    exact isFullyDownloaded_of tracked.flagged (by simp [tracked.counted, idle]) all

theorem mem_upcoming {howMany : Nat} {id : SubtreeId} (member : id ∈ upcoming s.plan s.downloaded howMany) :
    id ∈ s.plan.expectedChunkIds ∧ id ∉ s.downloaded := by
  obtain ⟨here, missing⟩ := List.mem_filter.mp (List.mem_of_mem_take member)
  exact ⟨List.mem_of_mem_drop here, by simpa using missing⟩

theorem step_getChunkIdsToDownload (flagged : Flagged s.plan s.downloaded) (howMany : Nat) :
    Download.step s (.getChunkIdsToDownload howMany) = some { s with
      plan := (s.plan.getChunkIdsToDownload howMany).2
      inFlight := s.inFlight ++ upcoming s.plan s.downloaded howMany
      repeated := s.repeated ++
        (upcoming s.plan s.downloaded howMany).filter fun id => id ∈ s.inFlight ∨ id ∈ s.downloaded } := by
  rw [← getChunkIdsToDownload_fst flagged]
  rfl

theorem Tracked.request (tracked : Tracked s) {howMany : Nat}
    (fresh : ∀ id ∈ upcoming s.plan s.downloaded howMany, id ∉ s.inFlight)
    (taken : Download.step s (.getChunkIdsToDownload howMany) = some t) : Tracked t := by
  have result := getChunkIdsToDownload_fst tracked.flagged howMany
  have once : (upcoming s.plan s.downloaded howMany).Nodup :=
    ((tracked.distinct.sublist (List.drop_sublist _ _)).filter _).sublist (List.take_sublist _ _)
  rw [step_getChunkIdsToDownload tracked.flagged] at taken
  cases taken
  constructor
  case distinct => exact tracked.distinct
  case flagged => exact tracked.flagged
  case once =>
    exact List.nodup_append.mpr ⟨tracked.once, once, fun _ flying _ member same => fresh _ member (same ▸ flying)⟩
  case expected => exact List.append_subset.mpr ⟨tracked.expected, fun _ member => (mem_upcoming member).1⟩
  case apart =>
    intro id flying
    rcases List.mem_append.mp flying with before | member
    · exact tracked.apart id before
    · exact (mem_upcoming member).2
  case counted =>
    rw [List.length_append, ← tracked.counted, ← result]
    rfl
  case fresh =>
    dsimp only
    rw [tracked.fresh, List.nil_append, List.filter_eq_nil_iff]
    intro id member
    simp [fresh id member, (mem_upcoming member).2]

theorem Tracked.length_erase (tracked : Tracked s) {chunkId : SubtreeId} :
    (s.inFlight.erase chunkId).length =
      if chunkId ∈ s.inFlight then s.plan.downloadingChunks - 1 else s.plan.downloadingChunks := by
  rw [List.length_erase, tracked.counted]

theorem Tracked.step (tracked : Tracked s) (orderly : Orderly s action)
    (taken : Download.step s action = some t) : Tracked t := by
  cases action with
  | getChunkIdsToDownload howMany => exact tracked.request orderly taken
  | markChunkDownloaded chunkId =>
      cases taken
      constructor
      case distinct => simpa using tracked.distinct
      case flagged => exact tracked.flagged.markChunkDownloaded tracked.distinct
      case once => exact tracked.once.erase chunkId
      case expected => simpa using List.Subset.trans List.erase_subset tracked.expected
      case apart =>
        intro id flying
        obtain ⟨other, before⟩ := tracked.once.mem_erase_iff.mp flying
        simp [other, tracked.apart id before]
      case counted =>
        dsimp only
        rw [tracked.length_erase, downloadingChunks_markChunkDownloaded tracked.flagged]
        by_cases flying : chunkId ∈ s.inFlight
        · rw [if_pos flying, if_pos ⟨tracked.expected flying, tracked.apart chunkId flying⟩]
        · rw [if_neg flying]
          split
          · next counts =>
              obtain idle := (orderly counts.1 counts.2).resolve_left flying
              simp [tracked.counted, idle]
          · rfl
      case fresh => exact tracked.fresh
  | markChunkFailed chunkId =>
      cases taken
      constructor
      case distinct => simpa using tracked.distinct
      case flagged => simpa [Flagged] using tracked.flagged
      case once => exact tracked.once.erase chunkId
      case expected => simpa using List.Subset.trans List.erase_subset tracked.expected
      case apart => exact fun id flying => tracked.apart id (List.mem_of_mem_erase flying)
      case counted =>
        dsimp only
        rw [tracked.length_erase, downloadingChunks_markChunkFailed]
        by_cases flying : chunkId ∈ s.inFlight
        · rw [if_pos flying, if_pos (tracked.expected flying)]
        · rw [if_neg flying]
          split
          · next expected =>
              obtain idle := (orderly expected).resolve_left flying
              simp [tracked.counted, idle]
          · rfl
      case fresh => exact tracked.fresh

/-- A report on a chunk that is not in flight makes the counter fall short. -/
theorem Tracked.idle_of_unmoved (tracked : Tracked s) {chunkId : SubtreeId} (landed : chunkId ∉ s.inFlight)
    (counted : s.plan.downloadingChunks - 1 = (s.inFlight.erase chunkId).length) : s.inFlight = [] := by
  rw [tracked.length_erase, if_neg landed, tracked.counted] at counted
  exact List.eq_nil_iff_length_eq_zero.mpr (by omega)

theorem Tracked.needed (tracked : Tracked s) (taken : Download.step s action = some t) (accurate : Accurate t) :
    Orderly s action := by
  cases action with
  | getChunkIdsToDownload howMany =>
      rw [step_getChunkIdsToDownload tracked.flagged] at taken
      cases taken
      have once := accurate.once
      dsimp only at once
      rw [tracked.fresh, List.nil_append, List.filter_eq_nil_iff] at once
      intro id member flying
      exact once id member (by simp [flying])
  | markChunkDownloaded chunkId =>
      cases taken
      intro expected missing
      have counted := accurate.counted
      dsimp only at counted
      rw [downloadingChunks_markChunkDownloaded tracked.flagged, if_pos ⟨expected, missing⟩] at counted
      exact or_iff_not_imp_left.mpr fun landed => tracked.idle_of_unmoved landed counted
  | markChunkFailed chunkId =>
      cases taken
      intro expected
      have counted := accurate.counted
      dsimp only at counted
      rw [downloadingChunks_markChunkFailed, if_pos expected] at counted
      exact or_iff_not_imp_left.mpr fun landed => tracked.idle_of_unmoved landed counted

end Steps

/-- A plan keeps its account exactly as long as no chunk fails while a later one is in flight and is
requested over again, and no report comes for a chunk that is not in flight. -/
theorem always_accurate_iff {expectedChunkIds : List SubtreeId} (distinct : expectedChunkIds.Nodup)
    (actions : List Download.Action) :
    Always Download.step Accurate (.start expectedChunkIds) actions ↔
      Along Download.step Orderly (.start expectedChunkIds) actions := by
  obtain ⟨t, ran⟩ := @exists_run _ _ Download.step (fun s a => by cases a <;> rfl) (.start expectedChunkIds) actions
  exact always_iff_along (fun tracked orderly taken => tracked.step orderly taken)
    (fun tracked taken accurate => tracked.needed taken accurate) Tracked.accurate
    ⟨distinct, flagged_new expectedChunkIds, List.nodup_nil, List.nil_subset _, nofun, rfl, rfl⟩ ran

section Samples

def sampleChunks : List SubtreeId := [.filled 1, .filled 2]

def retriedDownload : List Download.Action :=
  [.getChunkIdsToDownload 2, .markChunkDownloaded (.filled 1), .markChunkFailed (.filled 2),
    .getChunkIdsToDownload 2, .markChunkDownloaded (.filled 2)]

theorem retriedDownload_accurate : Always Download.step Accurate (.start sampleChunks) retriedDownload :=
  (always_accurate_iff (by decide) retriedDownload).mpr (by decide)

def rewoundDownload : List Download.Action :=
  [.getChunkIdsToDownload 2, .markChunkFailed (.filled 1), .getChunkIdsToDownload 2]

theorem rewoundDownload_repeats : ¬ Always Download.step Accurate (.start sampleChunks) rewoundDownload := by
  intro always
  have last := always _ ⟨rewoundDownload, List.prefix_rfl, rfl⟩
  exact absurd last.once (by decide)

end Samples

end ErgoNode.Proof.Snapshots
