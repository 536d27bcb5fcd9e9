import ErgoNode.Lib.Entries
import ErgoNode.Proof.Sample
import ErgoNode.Sync.Heights

/-!
# Blocks that are queued for download

The room for new downloads is taken from a queue of 16, while the guard before it lets through all that is
below 512 downloads.
-/

namespace ErgoNode.Proof.Sync
open Lib SyncHeights

section Queue
variable (downloader : BlockDownloader)

@[simp] theorem inFlight_queueTask (force : Bool) (task : DownloadTask) :
    (BlockDownloader.queueTask force downloader task).inFlight = downloader.inFlight := by
  unfold BlockDownloader.queueTask
  repeat' split
  all_goals rfl

theorem pending_queueTask (force : Bool) (task : DownloadTask) :
    (BlockDownloader.queueTask force downloader task).pending.entries.length ≤
      downloader.pending.entries.length + 1 := by
  have inserted : (downloader.pending.insert task.id task).entries.length ≤ downloader.pending.entries.length + 1 := by
    rw [Entries.length_insert]
    split
    · exact Nat.le_succ _
    · exact Nat.le_refl _
  unfold BlockDownloader.queueTask
  repeat' split
  · exact Nat.le_succ _
  · exact inserted
  · exact Nat.le_succ _
  · exact inserted

theorem inFlight_queue (tasks : List DownloadTask) : (downloader.queue tasks).inFlight = downloader.inFlight := by
  rw [BlockDownloader.queue, BlockDownloader.queueInner]
  induction tasks generalizing downloader with
  | nil => rfl
  | cons task rest ih => rw [List.foldl_cons, ih, inFlight_queueTask]

theorem pending_queue (tasks : List DownloadTask) :
    (downloader.queue tasks).pending.entries.length ≤ downloader.pending.entries.length + tasks.length := by
  rw [BlockDownloader.queue, BlockDownloader.queueInner]
  induction tasks generalizing downloader with
  | nil => exact Nat.le_refl _
  | cons task rest ih =>
      rw [List.foldl_cons, List.length_cons]
      have first := pending_queueTask downloader false task
      have later := ih (BlockDownloader.queueTask false downloader task)
      omega

end Queue

/-- The blocks that are moved leave the front of the missing blocks, and there are no more of them than the
limit leaves room for. -/
structure MovesWithin (limit : Nat) (s t : SyncHeights) (moved : List ModifierId) : Prop where
  front : s.missingBlocks = moved ++ t.missingBlocks
  room : moved = [] ∨ s.pendingAndInFlight + moved.length ≤ limit
  after : t.pendingAndInFlight ≤ s.pendingAndInFlight + moved.length

section Moves
variable {s : SyncHeights} {limit count : Nat}

theorem movesWithin_refl (limit : Nat) (s : SyncHeights) : MovesWithin limit s s [] :=
  ⟨rfl, .inl rfl, Nat.le_refl _⟩

theorem movesWithin_moveBlocks (room : count = 0 ∨ s.pendingAndInFlight + count ≤ limit) :
    MovesWithin limit s (s.moveBlocks count) (s.missingBlocks.take count) := by
  refine ⟨(List.take_append_drop count s.missingBlocks).symm, ?_, ?_⟩
  · rcases room with rfl | room
    · exact .inl List.take_zero
    · exact .inr ((Nat.add_le_add_left (List.length_take_le ..) _).trans room)
  · have queued := pending_queue s.protocol.downloader
      ((s.missingBlocks.take count).map fun id => .new id ModifierType.blockTransactions.toByte)
    rw [List.length_map] at queued
    unfold pendingAndInFlight moveBlocks
    dsimp only
    rw [inFlight_queue]
    omega

end Moves

/-- Both differences stay in range as long as no more than 16 downloads are there. -/
theorem room_eq {pending inFlight : Nat} (few : pending + inFlight ≤ queueLength) :
    (do let room ← Overflowing.sub (2 ^ 64) queueLength pending; Overflowing.sub (2 ^ 64) room inFlight) =
      pure (queueLength - (pending + inFlight)) := by
  unfold queueLength at few ⊢
  rw [Overflowing.sub_eq (by omega) (by decide), pure_bind, Overflowing.sub_eq (by omega) (by omega), Nat.sub_sub]

theorem few_of_room {pending inFlight : Nat}
    (fits : (do let room ← Overflowing.sub (2 ^ 64) queueLength pending
                Overflowing.sub (2 ^ 64) room inFlight).overflowed = false) : pending + inFlight ≤ queueLength := by
  rw [Overflowing.overflowed_bind, Bool.or_eq_false_iff] at fits
  obtain ⟨first, second⟩ := fits
  have below : pending ≤ queueLength := Nat.le_of_not_lt (of_decide_eq_false first)
  rw [Overflowing.sub_eq below (by decide), Overflowing.value_pure] at second
  have rest : inFlight ≤ queueLength - pending := Nat.le_of_not_lt (of_decide_eq_false second)
  omega

/-- The room is computed safely, and so many blocks are moved, exactly if there are at most 16 downloads or
the call ends before. -/
theorem queueBlockDownloads_within_iff (s : SyncHeights) :
    (s.queueBlockDownloads.overflowed = false ∧
      ∃ moved, MovesWithin queueLength s s.queueBlockDownloads.value moved) ↔
    s.headersFirst ∨ parallelDownloads ≤ s.pendingAndInFlight ∨ s.pendingAndInFlight ≤ queueLength := by
  by_cases early : s.headersFirst ∨ s.pendingAndInFlight ≥ parallelDownloads
  · have done : s.queueBlockDownloads = pure s := if_pos early
    rw [done]
    exact iff_of_true ⟨rfl, [], movesWithin_refl _ s⟩ (early.imp_right .inl)
  · have due : s.queueBlockDownloads = (do
        let room ← (do let room ← .sub (2 ^ 64) queueLength s.protocol.downloader.pending.entries.length
                       .sub (2 ^ 64) room s.protocol.downloader.inFlight.entries.length)
        return s.moveBlocks (min room s.missingBlocks.length)) := (if_neg early).trans (bind_assoc ..).symm
    rw [due]
    constructor
    · rintro ⟨fits, -⟩
      rw [Overflowing.overflowed_bind, Bool.or_eq_false_iff] at fits
      exact .inr (.inr (few_of_room fits.1))
    · intro condition
      have few : s.pendingAndInFlight ≤ queueLength :=
        (condition.resolve_left fun far => early (.inl far)).resolve_left fun many => early (.inr many)
      rw [room_eq few, pure_bind]
      refine ⟨rfl, _, movesWithin_moveBlocks (.inr ?_)⟩
      have least := Nat.min_le_left (queueLength - s.pendingAndInFlight) s.missingBlocks.length
      unfold pendingAndInFlight at few least ⊢
      omega

section Samples
open Sample

def typedCodec : SigmaRust :=
  { codec [] [] [] with blake2b256 := fun bytes => .filled (bytes.getD 0 0 + 16 * bytes.getD 1 0) }

def nineRequested : SyncHeights :=
  { SyncHeights.new with
    protocol := SyncProtocol.new.onRequestBlocks typedCodec
      ((List.range 9).map fun n => sampleHeader (UInt8.ofNat n) 0 (n + 1) easyBits) }

theorem queueBlockDownloads_underflows :
    ¬ (nineRequested.queueBlockDownloads.overflowed = false ∧
      ∃ moved, MovesWithin queueLength nineRequested nineRequested.queueBlockDownloads.value moved) := by
  rintro ⟨fits, -⟩
  revert fits
  decide +kernel

end Samples

end ErgoNode.Proof.Sync
