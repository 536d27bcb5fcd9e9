import ErgoNode.Lib.Run
import ErgoNode.Sync.Synchronizer
import Mathlib.Data.List.Perm.Basic

/-!
# When a chunk download is complete

The synchronizer compares the number of ids marked as downloaded with the number of chunks, and only
while its state is that of the download. So an id from outside the manifest counts like a chunk, and
once a height or a block has overwritten the state no mark completes anything.
-/

namespace ErgoNode.Proof.Snapshots
open Lib

/-! ### Counting marks -/

section Counts
variable {chunks marked : List SubtreeId}

def missing (chunks marked : List SubtreeId) : List SubtreeId := chunks.filter fun id => id ∉ marked

def foreign (chunks marked : List SubtreeId) : List SubtreeId := marked.filter fun id => id ∉ chunks

theorem missing_eq_nil : missing chunks marked = [] ↔ ∀ id ∈ chunks, id ∈ marked := by
  simp [missing, List.filter_eq_nil_iff]

theorem length_marked (distinct : chunks.Nodup) (once : marked.Nodup) :
    marked.length + (missing chunks marked).length = (foreign chunks marked).length + chunks.length := by
  have same : (marked.filter fun id => id ∈ chunks).Perm (chunks.filter fun id => id ∈ marked) := by
    refine (List.perm_ext_iff_of_nodup (once.filter _) (distinct.filter _)).mpr fun id => ?_
    simp [and_comm]
  have split (list other : List SubtreeId) :
      list.length = (list.filter fun id => id ∈ other).length + (list.filter fun id => id ∉ other).length := by
    simpa using List.length_eq_length_filter_add (l := list) fun id => decide (id ∈ other)
  have := split marked chunks
  have := split chunks marked
  have := same.length_eq
  unfold missing foreign
  omega

end Counts

/-! ### Runs -/

structure ChunkDownload where
  sync : Synchronizer
  marked : List SubtreeId

namespace ChunkDownload

def start (sync : Synchronizer) (manifestId : ManifestId) (height : Nat) (chunks : List SubtreeId) : ChunkDownload :=
  ⟨sync.startChunkDownload manifestId height chunks.length, []⟩

inductive Action where
  | markChunkDownloading (chunkId : SubtreeId) (peer : PeerId)
  | markChunkDownloaded (chunkId : SubtreeId)
  | markChunkFailed (chunkId : SubtreeId)
  | setHeight (height : Nat)
  | setPeerHeight (peer : PeerId) (height : Nat)
  | blockReceived (blockId : ModifierId)

def step (s : ChunkDownload) : Action → Option ChunkDownload
  | .markChunkDownloading chunkId peer => some { s with sync := s.sync.markChunkDownloading chunkId peer }
  | .markChunkDownloaded chunkId =>
      some ⟨(s.sync.markChunkDownloaded chunkId).2, s.marked.insert chunkId⟩
  | .markChunkFailed chunkId => some { s with sync := s.sync.markChunkFailed chunkId }
  | .setHeight height => some { s with sync := s.sync.setHeight height }
  | .setPeerHeight peer height => some { s with sync := s.sync.setPeerHeight peer height }
  | .blockReceived blockId => some { s with sync := s.sync.blockReceived blockId }

end ChunkDownload

/-- A mark that returns true leaves no chunk unmarked, and the mark of the last one returns true. -/
def Reported (chunks : List SubtreeId) (s : ChunkDownload) : ChunkDownload.Action → Prop
  | .markChunkDownloaded chunkId =>
      ((s.sync.markChunkDownloaded chunkId).1 = true → ∀ id ∈ chunks, id ∈ s.marked.insert chunkId) ∧
        ((∃ id ∈ chunks, id ∉ s.marked) → (∀ id ∈ chunks, id ∈ s.marked.insert chunkId) →
          (s.sync.markChunkDownloaded chunkId).1 = true)
  | _ => True

/-- The state of the download has not been overwritten. -/
def Underway (sync : Synchronizer) : Prop :=
  match sync.state with
  | .downloadingChunks .. => True
  | _ => False

instance (sync : Synchronizer) : Decidable (Underway sync) := by
  unfold Underway
  exact match sync.state with
    | .downloadingChunks .. => .isTrue trivial
    | .idle | .awaitingSnapshotsInfo .. | .awaitingManifest .. | .applyingSnapshot _ | .syncingHeaders ..
    | .syncingBlocks _ | .synchronized => .isFalse id

/-- At each mark of a download that is underway the ids from outside the manifest, this one included, are
fewer than the chunks still missing, unless none is; and the last chunk comes while it is underway. -/
def Undisturbed (chunks : List SubtreeId) (s : ChunkDownload) : ChunkDownload.Action → Prop
  | .markChunkDownloaded chunkId =>
      (Underway s.sync → missing chunks (s.marked.insert chunkId) ≠ [] →
        (foreign chunks (s.marked.insert chunkId)).length < (missing chunks (s.marked.insert chunkId)).length) ∧
      (missing chunks s.marked = [chunkId] → Underway s.sync)
  | _ => True

instance (chunks : List SubtreeId) (s : ChunkDownload) : DecidablePred (Undisturbed chunks s)
  | .markChunkDownloaded _ => inferInstanceAs (Decidable (_ ∧ _))
  | .markChunkDownloading .. | .markChunkFailed _ | .setHeight _ | .setPeerHeight .. | .blockReceived _ =>
      inferInstanceAs (Decidable True)

structure Counting (chunks : List SubtreeId) (s : ChunkDownload) : Prop where
  marked : s.sync.downloadedChunks = s.marked
  once : s.marked.Nodup
  total : ∀ {manifestId height total count}, s.sync.state = .downloadingChunks manifestId height total count →
    total = chunks.length

section Steps
variable {chunks : List SubtreeId} {s t : ChunkDownload} {chunkId : SubtreeId}

theorem markChunkDownloaded_fst (counting : Counting chunks s) :
    (s.sync.markChunkDownloaded chunkId).1 = true ↔
      Underway s.sync ∧ chunks.length ≤ (s.marked.insert chunkId).length := by
  unfold Synchronizer.markChunkDownloaded Underway
  cases state : s.sync.state with
  | downloadingChunks manifestId height total count =>
      have total := counting.total state
      simp [total, counting.marked]
  | idle | awaitingSnapshotsInfo | awaitingManifest | applyingSnapshot | syncingHeaders | syncingBlocks | synchronized =>
      simp

/-- Comparing the counts is comparing foreign ids with missing chunks. -/
theorem length_le_marked_iff (distinct : chunks.Nodup) (counting : Counting chunks s) :
    chunks.length ≤ (s.marked.insert chunkId).length ↔
      (missing chunks (s.marked.insert chunkId)).length ≤ (foreign chunks (s.marked.insert chunkId)).length := by
  have := length_marked distinct (counting.once.insert (a := chunkId))
  omega

theorem last_iff (distinct : chunks.Nodup) :
    ((∃ id ∈ chunks, id ∉ s.marked) ∧ ∀ id ∈ chunks, id ∈ s.marked.insert chunkId) ↔
      missing chunks s.marked = [chunkId] := by
  constructor
  · rintro ⟨⟨id, member, unmarked⟩, all⟩
    have only : ∀ other ∈ missing chunks s.marked, other = chunkId := by
      intro other here
      obtain ⟨inside, outside⟩ := List.mem_filter.mp here
      exact (List.mem_insert_iff.mp (all other inside)).resolve_right (by simpa using outside)
    have here : id ∈ missing chunks s.marked := List.mem_filter.mpr ⟨member, by simpa using unmarked⟩
    obtain rfl := only id here
    have alone : (missing chunks s.marked).Perm [id] := by
      refine (List.perm_ext_iff_of_nodup (distinct.filter _) (List.nodup_singleton id)).mpr fun other => ?_
      refine ⟨fun there => List.mem_singleton.mpr (only other there), fun there => ?_⟩
      cases List.mem_singleton.mp there
      exact here
    exact List.perm_singleton.mp alone
  · intro last
    have here : chunkId ∈ missing chunks s.marked := by simp [last]
    obtain ⟨member, unmarked⟩ := List.mem_filter.mp here
    refine ⟨⟨chunkId, member, by simpa using unmarked⟩, fun id inside => List.mem_insert_iff.mpr ?_⟩
    by_contra neither
    obtain ⟨other, outside⟩ := not_or.mp neither
    have there : id ∈ missing chunks s.marked := List.mem_filter.mpr ⟨inside, by simpa using outside⟩
    rw [last] at there
    exact other (List.mem_singleton.mp there)

theorem reported_iff_undisturbed (distinct : chunks.Nodup) (counting : Counting chunks s)
    (action : ChunkDownload.Action) : Reported chunks s action ↔ Undisturbed chunks s action := by
  cases action with
  | markChunkDownloaded chunkId =>
      have returns := @markChunkDownloaded_fst _ _ chunkId counting
      rw [length_le_marked_iff distinct counting] at returns
      have last := @last_iff _ s chunkId distinct
      refine and_congr ?_ ?_
      · rw [returns, ← missing_eq_nil, ← not_lt]
        tauto
      · rw [returns, ← and_imp, last]
        refine forall_congr' fun here => ⟨And.left, fun underway => ⟨underway, ?_⟩⟩
        simp [missing_eq_nil.mpr (last.mpr here).2]
  | markChunkDownloading | markChunkFailed | setHeight | setPeerHeight | blockReceived => rfl

theorem Counting.checkSyncStatus (counting : Counting chunks s) :
    Counting chunks { s with sync := s.sync.checkSyncStatus } := by
  rcases s.sync.checkSyncStatus_cases with same | ⟨start, target, same⟩ | same
  · exact ⟨by simp [same, counting.marked], counting.once, by simp [same]⟩
  · exact ⟨by simp [same, counting.marked], counting.once, by simp [same]⟩
  · rw [same]
    exact counting

theorem Counting.step (counting : Counting chunks s) {action : ChunkDownload.Action}
    (taken : ChunkDownload.step s action = some t) : Counting chunks t := by
  cases action with
  | markChunkDownloaded chunkId =>
      cases taken
      have once := counting.once.insert (a := chunkId)
      unfold Synchronizer.markChunkDownloaded
      dsimp only
      split
      · next here =>
          refine ⟨by simp [counting.marked], once, fun state => ?_⟩
          cases state
          exact counting.total here
      · next elsewhere => exact ⟨by simp [counting.marked], once, fun state => absurd state (elsewhere _ _ _ _)⟩
  | markChunkDownloading chunkId peer =>
      cases taken
      exact ⟨counting.marked, counting.once, counting.total⟩
  | markChunkFailed chunkId =>
      cases taken
      exact ⟨counting.marked, counting.once, counting.total⟩
  | setHeight height =>
      cases taken
      exact @Counting.checkSyncStatus _ ⟨{ s.sync with ourHeight := height }, s.marked⟩
        ⟨counting.marked, counting.once, counting.total⟩
  | setPeerHeight peer height =>
      cases taken
      exact @Counting.checkSyncStatus _ ⟨{ s.sync with peerHeights := s.sync.peerHeights.insert peer height }, s.marked⟩
        ⟨counting.marked, counting.once, counting.total⟩
  | blockReceived blockId =>
      cases taken
      have here : Counting chunks ⟨{ s.sync with pending := s.sync.pending.erase blockId }, s.marked⟩ :=
        ⟨counting.marked, counting.once, counting.total⟩
      unfold Synchronizer.blockReceived
      dsimp only
      split
      · exact here.checkSyncStatus
      · exact ⟨counting.marked, counting.once, nofun⟩

theorem counting_start (sync : Synchronizer) (manifestId : ManifestId) (height : Nat) (chunks : List SubtreeId) :
    Counting chunks (.start sync manifestId height chunks) where
  marked := rfl
  once := List.nodup_nil
  total state := by
    cases state
    rfl

end Steps

/-- A mark tells when the download is complete exactly as long as no id from outside the manifest makes up
for a chunk and nothing overwrites the state before the last chunk is marked. -/
theorem along_reported_iff {chunks : List SubtreeId} (distinct : chunks.Nodup) (sync : Synchronizer)
    (manifestId : ManifestId) (height : Nat) (actions : List ChunkDownload.Action) :
    Along ChunkDownload.step (Reported chunks) (.start sync manifestId height chunks) actions ↔
      Along ChunkDownload.step (Undisturbed chunks) (.start sync manifestId height chunks) actions :=
  along_iff_along (fun counting _ => reported_iff_undisturbed distinct counting _)
    (fun counting _ _ taken => counting.step taken) (counting_start sync manifestId height chunks)
    along_true

section Samples

def wholeManifest : List SubtreeId := [.filled 1, .filled 2]

def wholeDownload : List ChunkDownload.Action :=
  [.markChunkDownloading (.filled 1) [1], .markChunkDownloaded (.filled 1), .setPeerHeight [1] 10,
    .markChunkFailed (.filled 2), .markChunkDownloaded (.filled 1), .markChunkDownloaded (.filled 2)]

theorem wholeDownload_reported :
    Along ChunkDownload.step (Reported wholeManifest) (.start (.new .default) (.filled 9) 5 wholeManifest) wholeDownload :=
  (along_reported_iff (by decide) (.new .default) (.filled 9) 5 wholeDownload).mpr (by decide)

def foreignDownload : List ChunkDownload.Action :=
  [.markChunkDownloaded (.filled 1), .markChunkDownloaded (.filled 7)]

theorem foreignDownload_misreported :
    ¬ Along ChunkDownload.step (Reported wholeManifest) (.start (.new .default) (.filled 9) 5 wholeManifest)
      foreignDownload := by
  intro along
  have second := along [.markChunkDownloaded (.filled 1)] (.markChunkDownloaded (.filled 7)) List.prefix_rfl _ rfl
  exact absurd (second.1 (by decide)) (by decide)

end Samples

end ErgoNode.Proof.Snapshots
