import ErgoNode.Sync.Headers

/-!
# The sync protocol: header requests

Announced headers are asked for in batches. What does not fit into the first batch waits in a queue; a
request is in flight until a delivery comes under its id or its time is over, when it goes back to the
front of the queue.
-/

namespace ErgoNode
open Lib

/-- The header protocol with the announced ids: those that wait to be requested, and those in flight
with the time of the request in milliseconds. -/
structure HeaderRequests where
  sync : HeaderSync
  pendingHeaderInv : List Bytes
  inFlightHeaders : Table Bytes Nat

/-- What a tick meets: the time, the requests whose time is over in the order of the table, whether the
block downloads before the header requests go through, and whether a peer may be asked. -/
structure Tick where
  now : Nat
  timedOut : List Bytes
  dispatched : Bool
  peerAvailable : Bool

namespace HeaderRequests
variable (sr : SigmaRust)

def maxRequestSize : Nat := 400

def maxPendingHeaderInv : Nat := 10000

def headerTimeout : Nat := 10000

def enoughInFlight : Nat := 300

def new (sync : HeaderSync) : HeaderRequests := ⟨sync, [], ∅⟩

def track (now : Nat) (ids : List Bytes) (inFlight : Table Bytes Nat) : Table Bytes Nat :=
  ids.foldl (fun inFlight id => inFlight.insert id now) inFlight

def evictOldest (spaceNeeded : Nat) : List Bytes → List Bytes
  | [] => []
  | id :: rest =>
      if (id :: rest).length + spaceNeeded > maxPendingHeaderInv then evictOldest spaceNeeded rest else id :: rest

def onInv (now : Nat) (ids : List Bytes) (s : HeaderRequests) : HeaderRequests :=
  let filtered := ids.filter fun id => id ∉ s.sync.storedHeaders
  let remaining := filtered.drop maxRequestSize
  { s with
    pendingHeaderInv :=
      if remaining = [] then s.pendingHeaderInv
      else evictOldest remaining.length s.pendingHeaderInv ++ remaining
    inFlightHeaders := track now (filtered.take maxRequestSize) s.inFlightHeaders }

def removeInFlight (id : Bytes) (s : HeaderRequests) : HeaderRequests :=
  { s with inFlightHeaders := s.inFlightHeaders.erase id }

/-- The id that the peer gives ends the request, before the data are looked at. -/
def onHeaderReceived (id : Bytes) (data : Bytes) : Op HeaderRequests SyncError Unit := do
  modify (removeInFlight id)
  Op.zoom sync (fun sync s => { s with sync }) (HeaderSync.onHeaderReceived sr data)

def timedOutHeaders (now : Nat) (s : HeaderRequests) : List Bytes :=
  (s.inFlightHeaders.entries.filter fun entry => now - entry.2 > headerTimeout).map Sigma.fst

def requeue (s : HeaderRequests) (id : Bytes) : HeaderRequests :=
  { s with
    inFlightHeaders := s.inFlightHeaders.erase id
    pendingHeaderInv := id ::
      if s.pendingHeaderInv.length ≥ maxPendingHeaderInv then s.pendingHeaderInv.dropLast else s.pendingHeaderInv }

def popRequests (stored : LruCache Bytes storedHeadersCacheSize) : Nat → List Bytes → List Bytes × List Bytes
  | _, [] => ([], [])
  | 0, id :: rest => ([], id :: rest)
  | room + 1, id :: rest =>
      if id ∈ stored then popRequests stored (room + 1) rest
      else
        let (ids, left) := popRequests stored room rest
        (id :: ids, left)

/-- Waiting headers are given up as long as nothing at all counts as stored. -/
def clearStuck (sync : HeaderSync) : HeaderSync :=
  if sync.pendingHeaders.len > 0 ∧ sync.storedHeaders.keys = [] ∧ sync.protocol.headerChain.headers = [] then
    { sync with pendingHeaders := .new }
  else sync

def requestMoreHeadersIfNeeded (now : Nat) (peerAvailable : Bool) (s : HeaderRequests) : HeaderRequests :=
  if s.inFlightHeaders.entries.length > enoughInFlight then s
  else
    let s := { s with sync := clearStuck s.sync }
    if s.pendingHeaderInv ≠ [] ∧ peerAvailable then
      let (ids, left) := popRequests s.sync.storedHeaders maxRequestSize s.pendingHeaderInv
      { s with
        pendingHeaderInv := left
        inFlightHeaders := track now ids s.inFlightHeaders }
    else s

/-- The error of a dispatch that fails is not modelled. -/
def onTick (tick : Tick) : Op HeaderRequests SyncError Unit := do
  Op.zoom sync (fun sync s => { s with sync }) (HeaderSync.flushIfDue sr)
  modify fun s => tick.timedOut.foldl requeue s
  if tick.dispatched then modify (requestMoreHeadersIfNeeded tick.now tick.peerAvailable) else return ()

inductive Action where
  | inv (now : Nat) (ids : List Bytes)
  | receive (id : Bytes) (data : Bytes)
  | tick (tick : Tick)

def step (s : HeaderRequests) : Action → Option HeaderRequests
  | .inv now ids => some (onInv now ids s)
  | .receive id data => some ((onHeaderReceived sr id data).exec s).2
  | .tick tick =>
      if tick.timedOut.Perm (timedOutHeaders tick.now s) then some ((onTick sr tick).exec s).2 else none

end HeaderRequests
end ErgoNode
