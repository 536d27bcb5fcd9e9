import ErgoNode.Lib.Effect
import ErgoNode.Lib.Run
import ErgoNode.Sync.Headers

/-!
# The journal of the write buffer

The header protocol beside a journal of all that was put into its write buffer, and of the batches that
were taken out and not written. The journal changes nothing: without it the steps are those of the
protocol.
-/

namespace ErgoNode.Proof.Sync
open Lib

structure Journal where
  buffered : List (Header × Bytes)
  lost : List (Header × Bytes)

def Journal.empty : Journal := ⟨[], []⟩

abbrev Journaled := HeaderSync × Journal

namespace Journaled
variable (sr : SigmaRust)

def noteFlush (s : HeaderSync) (result : Except SyncError Unit) (journal : Journal) : Journal :=
  match result with
  | .ok _ => journal
  | .error _ => { journal with lost := journal.lost ++ s.pendingHeaderWrites }

def flushIfDue : Op Journaled SyncError Unit := (HeaderSync.flushIfDue sr).noted noteFlush

def bufferHeader (header : Header) (rawBytes : Bytes) (s : Journaled) : Journaled :=
  (HeaderSync.bufferHeader sr header rawBytes s.1, { s.2 with buffered := s.2.buffered ++ [(header, rawBytes)] })

def removePending (id : Bytes) (s : Journaled) : Journaled := (HeaderSync.removePending id s.1, s.2)

def storeHeaderAndDescendants : Nat → Header → Bytes → Op Journaled SyncError Unit
  | 0, _, _ => return ()
  | fuel + 1, header, rawBytes => do
      modify (bufferHeader sr header rawBytes)
      let s ← get
      Op.forEach (fun (id, pending) => do
        modify (removePending id)
        storeHeaderAndDescendants fuel pending.header pending.rawBytes)
        (s.1.pendingHeaders.getByParent s.1.childOrder header.id.bytes)
      flushIfDue sr

def onHeaderReceived (data : Bytes) : Op Journaled SyncError Unit :=
  match HeaderSync.receivedHeader sr data with
  | .error e => throw (.invalidData s!"Failed to parse header: {e}")
  | .ok header => do
      let s ← get
      if header.id.bytes ∈ s.1.storedHeaders then return ()
      else if header.parentId.bytes ∈ s.1.storedHeaders then
        storeHeaderAndDescendants sr (s.1.pendingHeaders.len + 1) header data
      else
        set ({ s.1 with
          pendingHeaders := s.1.pendingHeaders.insert header.id.bytes
            ⟨header, data, header.parentId.bytes⟩ HeaderSync.maxPendingHeaders }, s.2)

def step (s : Journaled) : HeaderSync.Action → Option Journaled
  | .receive data => some ((onHeaderReceived sr data).exec s).2
  | .tick => some ((flushIfDue sr).exec s).2
  | .storeHeader data => (HeaderSync.step sr s.1 (.storeHeader data)).map fun next => (next, s.2)

end Journaled

section Erasure
variable {sr : SigmaRust}

theorem erases_storeHeaderAndDescendants (fuel : Nat) (header : Header) (rawBytes : Bytes) :
    Op.Erases (Journaled.storeHeaderAndDescendants sr fuel header rawBytes)
      (HeaderSync.storeHeaderAndDescendants sr fuel header rawBytes) := by
  induction fuel generalizing header rawBytes with
  | zero => exact Op.erases_pure ()
  | succ fuel ih =>
      refine (Op.erases_modify fun _ => rfl).bind fun _ => Op.Erases.get_bind fun s => ?_
      refine (Op.Erases.forEach (fun entry => ?_) _).bind fun _ => Op.erases_noted _
      exact (Op.erases_modify fun _ => rfl).bind fun _ => ih _ _

theorem erases_onHeaderReceived (data : Bytes) :
    Op.Erases (Journaled.onHeaderReceived sr data) (HeaderSync.onHeaderReceived sr data) := by
  unfold Journaled.onHeaderReceived HeaderSync.onHeaderReceived
  cases HeaderSync.receivedHeader sr data with
  | error e => exact Op.erases_throw _
  | ok header =>
      refine Op.Erases.get_bind fun s => .ite (Op.erases_pure ()) (.ite ?_ ?_)
      · exact erases_storeHeaderAndDescendants _ _ _
      · exact fun _ => ⟨rfl, rfl⟩

theorem map_step (s : Journaled) (action : HeaderSync.Action) :
    (Journaled.step sr s action).map Prod.fst = HeaderSync.step sr s.1 action := by
  cases action with
  | receive data => exact congrArg some (erases_onHeaderReceived data s).2
  | tick => rfl
  | storeHeader data =>
      rw [Journaled.step, Option.map_map]
      exact Option.map_id'

end Erasure

end ErgoNode.Proof.Sync
