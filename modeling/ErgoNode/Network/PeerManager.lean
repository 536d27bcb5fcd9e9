import ErgoNode.Chain.Types
import ErgoNode.Lib.Entries
import ErgoNode.Lib.Guards

/-!
# The peer manager

The peers that are known, which of them are connected, and which addresses are banned until when. Times are in
nanoseconds; a call reads the clock once. Of a peer's score only the penalty is modelled.
-/

namespace ErgoNode
open Lib

/-! ### Penalties -/

namespace Penalties

def slowResponse : Nat := 2
def missingResponse : Nat := 10
def duplicateMessage : Nat := 5
def invalidChecksum : Nat := 5
def invalidMessageFormat : Nat := 20
def unexpectedMessage : Nat := 30
def invalidModifier : Nat := 50
def declinedModifier : Nat := 40
def invalidTransaction : Nat := 80
def invalidBlock : Nat := 100
def spamDetected : Nat := 150
def sizeLimitExceeded : Nat := 100
def protocolViolation : Nat := 500
def maliciousBehavior : Nat := 1000

def banThreshold : Nat := 500
def decayPerMinute : Nat := 10
def maxPenalty : Nat := 1000

end Penalties

inductive PenaltyReason where
  | slowResponse
  | missingResponse
  | duplicateMessage
  | invalidChecksum
  | invalidMessageFormat
  | unexpectedMessage
  | invalidModifier
  | declinedModifier
  | invalidTransaction
  | invalidBlock
  | spamDetected
  | sizeLimitExceeded
  | protocolViolation
  | maliciousBehavior
  deriving DecidableEq

def PenaltyReason.penalty : PenaltyReason → Nat
  | slowResponse => Penalties.slowResponse
  | missingResponse => Penalties.missingResponse
  | duplicateMessage => Penalties.duplicateMessage
  | invalidChecksum => Penalties.invalidChecksum
  | invalidMessageFormat => Penalties.invalidMessageFormat
  | unexpectedMessage => Penalties.unexpectedMessage
  | invalidModifier => Penalties.invalidModifier
  | declinedModifier => Penalties.declinedModifier
  | invalidTransaction => Penalties.invalidTransaction
  | invalidBlock => Penalties.invalidBlock
  | spamDetected => Penalties.spamDetected
  | sizeLimitExceeded => Penalties.sizeLimitExceeded
  | protocolViolation => Penalties.protocolViolation
  | maliciousBehavior => Penalties.maliciousBehavior

structure PeerScore where
  penalty : Nat
  lastPenaltyTime : Nat
  deriving DecidableEq

namespace PeerScore

def new (now : Nat) : PeerScore := ⟨0, now⟩

def secondsToMinutes (elapsed : Nat) : Nat := elapsed / 10 ^ 9 / 60

/-- The minutes are cut to 32 bits before they are multiplied. -/
def currentPenalty (now : Nat) (score : PeerScore) : Nat :=
  let minutesElapsed := secondsToMinutes (now - score.lastPenaltyTime)
  let decay := min (minutesElapsed % 2 ^ 32 * Penalties.decayPerMinute) (2 ^ 32 - 1)
  score.penalty - decay

def shouldBan (now : Nat) (score : PeerScore) : Bool := Penalties.banThreshold ≤ score.currentPenalty now

def applyPenaltyAmount (now amount : Nat) (score : PeerScore) : PeerScore :=
  let current := score.currentPenalty now
  ⟨min (min (current + amount) (2 ^ 32 - 1)) Penalties.maxPenalty, now⟩

end PeerScore

/-! ### Peers -/

inductive SocketAddr where
  | v4 (ip : UInt32) (port : UInt16)
  | v6 (ip : BitVec 128) (port : UInt16) (flowinfo scopeId : UInt32)
  deriving DecidableEq

abbrev PeerId := Bytes

inductive PeerState where
  | disconnected
  | connecting
  | handshaking
  | connected
  | banned
  deriving DecidableEq

structure PeerInfo where
  id : PeerId
  addr : SocketAddr
  state : PeerState
  score : PeerScore
  lastSeen : Nat
  deriving DecidableEq

structure PeerManager where
  banDuration : Nat
  peers : Table PeerId PeerInfo
  connected : List PeerId
  banned : Table SocketAddr Nat

namespace PeerManager

def new (banDuration : Nat) : PeerManager := ⟨banDuration, ∅, [], ∅⟩

def defaultBanDuration : Nat := 3600 * 10 ^ 9

def addPeer (info : PeerInfo) (manager : PeerManager) : PeerManager :=
  { manager with peers := manager.peers.insert info.id info }

def setState (now : Nat) (id : PeerId) (state : PeerState) (manager : PeerManager) : PeerManager :=
  match manager.peers.lookup id with
  | none => manager
  | some peer =>
      let manager := { manager with peers := manager.peers.insert id { peer with state, lastSeen := now } }
      match state with
      | .connected => { manager with connected := manager.connected.insert id }
      | .disconnected | .banned => { manager with connected := manager.connected.filter (· ≠ id) }
      | .connecting | .handshaking => manager

def penalizeAmount (now : Nat) (id : PeerId) (amount : Nat) (manager : PeerManager) : Bool × PeerManager :=
  match manager.peers.lookup id with
  | none => (false, manager)
  | some peer =>
      let score := peer.score.applyPenaltyAmount now amount
      if score.shouldBan now then
        (true, { manager with
          peers := manager.peers.insert id { peer with score, state := .banned }
          connected := manager.connected.filter (· ≠ id)
          banned := manager.banned.insert peer.addr (now + manager.banDuration) })
      else (false, { manager with peers := manager.peers.insert id { peer with score } })

def penalize (now : Nat) (id : PeerId) (reason : PenaltyReason) (manager : PeerManager) : Bool × PeerManager :=
  manager.penalizeAmount now id reason.penalty

/-- Of several peers with the address only the first one that is met is reset. -/
def unban (order : Iteration PeerId PeerInfo) (now : Nat) (addr : SocketAddr) (manager : PeerManager) : PeerManager :=
  let manager := { manager with banned := manager.banned.erase addr }
  match (order.entries manager.peers).find? fun entry => entry.2.addr = addr with
  | none => manager
  | some (id, peer) =>
      let state := if peer.state = .banned then .disconnected else peer.state
      { manager with peers := manager.peers.insert id { peer with score := .new now, state } }

def cleanupExpiredBans (now : Nat) (manager : PeerManager) : PeerManager :=
  { manager with banned := Entries.retain (fun _ unbanTime => now < unbanTime) manager.banned }

/-! ### Calls that hold guards -/

inductive PeerLock where
  | peers (shard : Nat)
  | banned (shard : Nat)
  deriving DecidableEq

structure Sharding where
  peer : PeerId → Nat
  addr : SocketAddr → Nat

abbrev PeerOp := Guards.GuardedOp PeerLock PeerManager

variable (sharding : Sharding) (now : Nat)

/-- The guard of the entry is held while it is removed. -/
def isBanned (addr : SocketAddr) : PeerOp Bool :=
  Guards.withGuard (.banned (sharding.addr addr)) .read do
    match (← get).value.banned.lookup addr with
    | none => return false
    | some unbanTime =>
        if now < unbanTime then return true
        else
          Guards.withGuard (.banned (sharding.addr addr)) .write
            (modify fun s => { s with value := { s.value with banned := s.value.banned.erase addr } })
          return false

/-- The entries are met one after the other, each with its shard held, until there are enough. -/
def toConnect : Nat → List (PeerId × PeerInfo) → PeerOp (List SocketAddr)
  | _, [] => return []
  | 0, _ => return []
  | count + 1, (id, peer) :: rest => do
      let kept ← Guards.withGuard (.peers (sharding.peer id)) .read do
        if peer.state = .disconnected then return !(← isBanned sharding now peer.addr)
        else return false
      if kept then return peer.addr :: (← toConnect count rest)
      else toConnect (count + 1) rest

def getPeersToConnect (order : Iteration PeerId PeerInfo) (count : Nat) : PeerOp (List SocketAddr) := do
  toConnect sharding now count (order.entries (← get).value.peers)

end PeerManager
end ErgoNode

/-!
### The decline table

The modifiers that were found to be invalid, each for a time. Times are in nanoseconds; a call reads the
clock once.
-/

namespace ErgoNode
open Lib

structure DeclineEntry where
  addedAt : Nat
  reason : String
  deriving DecidableEq

structure DeclineTable where
  entries : Table Digest32 DeclineEntry
  ttl : Nat
  maxSize : Nat

namespace DeclineTable

def new (maxSize ttl : Nat) : DeclineTable := ⟨∅, ttl, maxSize⟩

def withDefaults : DeclineTable := new 10000 (600 * 10 ^ 9)

def len (table : DeclineTable) : Nat := table.entries.entries.length

def isFresh (ttl now : Nat) (entry : DeclineEntry) : Bool := now - entry.addedAt < ttl

def cleanup (now : Nat) (table : DeclineTable) : DeclineTable :=
  { table with entries := Entries.retain (fun _ entry => isFresh table.ttl now entry) table.entries }

def decline (now : Nat) (id : Digest32) (reason : String) (table : DeclineTable) : DeclineTable :=
  let table := if table.len ≥ table.maxSize then table.cleanup now else table
  { table with entries := table.entries.insert id ⟨now, reason⟩ }

def isDeclined (now : Nat) (id : Digest32) (table : DeclineTable) : Option String :=
  match table.entries.lookup id with
  | some entry => if isFresh table.ttl now entry then some entry.reason else none
  | none => none

def clear (table : DeclineTable) : DeclineTable := { table with entries := ∅ }

def remove (id : Digest32) (table : DeclineTable) : DeclineTable := { table with entries := table.entries.erase id }

end DeclineTable
end ErgoNode
