import ErgoNode.Node.ApplyBlock

/-!
# The sync protocol: headers

A header from a peer is passed on when its parent has been passed on before, else it waits for its
parent. What is passed on is collected and written in batches by the node. On this way a header is
parsed and its id is computed from its bytes; nothing else about it is checked.
-/

namespace ErgoNode
open Lib

/-! ### Headers that wait for their parent -/

structure PendingHeader where
  header : Header
  rawBytes : Bytes
  parentId : Bytes

/-- The order in which a hash set hands out its ids; nothing is promised about it. -/
structure SetOrder where
  ids : List Bytes → List Bytes
  perm : ∀ set, (ids set).Perm set

structure PendingHeadersMap where
  byId : Table Bytes PendingHeader
  byParent : Table Bytes (List Bytes)
  byHeight : List (Nat × Bytes)

namespace PendingHeadersMap

def new : PendingHeadersMap := ⟨∅, ∅, []⟩

def len (map : PendingHeadersMap) : Nat := map.byId.entries.length

def precedes (first second : Nat × Bytes) : Bool :=
  first.1 < second.1 || (first.1 == second.1 && decide (first.2 < second.2))

def insertByHeight (entry : Nat × Bytes) : List (Nat × Bytes) → List (Nat × Bytes)
  | [] => [entry]
  | first :: rest =>
      if first = entry then first :: rest
      else if precedes entry first then entry :: first :: rest
      else first :: insertByHeight entry rest

def remove (map : PendingHeadersMap) (id : Bytes) : PendingHeadersMap :=
  match map.byId.lookup id with
  | none => map
  | some pending =>
      { byId := map.byId.erase id
        byParent := match map.byParent.lookup pending.parentId with
          | some children =>
              if children.erase id = [] then map.byParent.erase pending.parentId
              else map.byParent.insert pending.parentId (children.erase id)
          | none => map.byParent
        byHeight := map.byHeight.erase (pending.header.height, id) }

/-- A full map gives up its lowest header. -/
def evict (map : PendingHeadersMap) (maxSize : Nat) : PendingHeadersMap :=
  if map.len ≥ maxSize then
    match map.byHeight with
    | (_, evictId) :: _ => map.remove evictId
    | [] => map
  else map

def evictedHeight (map : PendingHeadersMap) (maxSize : Nat) : Option Nat :=
  if map.len ≥ maxSize then map.byHeight.head?.map Prod.fst else none

def insert (map : PendingHeadersMap) (id : Bytes) (pending : PendingHeader) (maxSize : Nat) : PendingHeadersMap :=
  let map := map.evict maxSize
  { byId := map.byId.insert id pending
    byParent := map.byParent.insert pending.parentId
      (((map.byParent.lookup pending.parentId).getD []).insert id)
    byHeight := insertByHeight (pending.header.height, id) map.byHeight }

def getByParent (map : PendingHeadersMap) (order : SetOrder) (parentId : Bytes) : List (Bytes × PendingHeader) :=
  (order.ids ((map.byParent.lookup parentId).getD [])).filterMap fun id =>
    (map.byId.lookup id).map fun pending => (id, pending)

def clear (map : PendingHeadersMap) : PendingHeadersMap :=
  { map with
    byId := ∅
    byParent := ∅
    byHeight := [] }

inductive Action where
  | insert (id : Bytes) (pending : PendingHeader)
  | remove (id : Bytes)
  | clear

def step (maxSize : Nat) (map : PendingHeadersMap) : Action → PendingHeadersMap
  | .insert id pending => map.insert id pending maxSize
  | .remove id => map.remove id
  | .clear => map.clear

end PendingHeadersMap

/-! ### The protocol -/

/-- The text of an internal error is not modelled. -/
inductive SyncError where
  | invalidData (reason : String)
  | internal (cause : StateError)
  deriving DecidableEq

def storedHeadersCacheSize : Nat := 100000

/-- The protocol and the node that answers its batches. `timeouts` scripts the clock: whether the time
to collect headers is over when it is next looked at. Past its end it never is. `childOrder` is the order of
the headers that wait for the same one. -/
structure HeaderSync where
  protocol : SyncProtocol
  pendingHeaders : PendingHeadersMap
  storedHeaders : LruCache Bytes storedHeadersCacheSize
  pendingHeaderWrites : List (Header × Bytes)
  timeouts : List Bool
  childOrder : SetOrder
  state : StateManager

namespace HeaderSync
variable (sr : SigmaRust)

def headerBatchSize : Nat := 500

def maxPendingHeaders : Nat := 10000

/-- The id of zeros, the parent of the first header, counts as stored. -/
def new (state : StateManager) (timeouts : List Bool) (childOrder : SetOrder) : HeaderSync where
  protocol := .new
  pendingHeaders := .new
  storedHeaders := LruCache.empty.put Digest32.zero.bytes
  pendingHeaderWrites := []
  timeouts
  childOrder
  state

/-- The ids of the stored headers that are loaded at the start, the oldest first; no more are taken than
fit into the cache. -/
def initFromStoredHeaders (allHeaderIds : List Bytes) (s : HeaderSync) : HeaderSync :=
  { s with
    storedHeaders := s.storedHeaders.putAll (allHeaderIds.drop (allHeaderIds.length - storedHeadersCacheSize)) }

def shouldFlushHeaders : Op HeaderSync SyncError Bool := do
  let s ← get
  if s.pendingHeaderWrites = [] then return false
  else if s.pendingHeaderWrites.length ≥ headerBatchSize then return true
  else do
    set { s with timeouts := s.timeouts.tail }
    return s.timeouts.headD false

/-- The headers leave the buffer whether or not they are stored. -/
def flushPendingHeadersToStorage : Op HeaderSync SyncError Unit := do
  let s ← get
  if s.pendingHeaderWrites = [] then return ()
  else do
    set { s with
      pendingHeaderWrites := []
      state := Node.storeHeadersBatch sr s.pendingHeaderWrites s.state }
    match ((StateManager.applyHeadersBatched sr s.pendingHeaderWrites).exec s.state).1 with
    | .ok _ => return ()
    | .error cause => throw (.internal cause)

def flushIfDue : Op HeaderSync SyncError Unit := do
  let due ← shouldFlushHeaders
  if due then flushPendingHeadersToStorage sr else return ()

/-- The header counts as stored from here on. -/
def bufferHeader (header : Header) (rawBytes : Bytes) (s : HeaderSync) : HeaderSync :=
  { s with
    pendingHeaderWrites := s.pendingHeaderWrites ++ [(header, rawBytes)]
    storedHeaders := s.storedHeaders.put header.id.bytes
    protocol := s.protocol.storeHeader sr header }

section Buffer
variable (header : Header) (rawBytes : Bytes) (s : HeaderSync)

@[simp] theorem bufferHeader_state : (bufferHeader sr header rawBytes s).state = s.state := by
  cases s
  rfl

@[simp] theorem bufferHeader_childOrder : (bufferHeader sr header rawBytes s).childOrder = s.childOrder := by
  cases s
  rfl

@[simp] theorem bufferHeader_pendingHeaders :
    (bufferHeader sr header rawBytes s).pendingHeaders = s.pendingHeaders := by
  cases s
  rfl

@[simp] theorem bufferHeader_pendingHeaderWrites :
    (bufferHeader sr header rawBytes s).pendingHeaderWrites = s.pendingHeaderWrites ++ [(header, rawBytes)] := by
  cases s
  rfl

@[simp] theorem bufferHeader_storedHeaders :
    (bufferHeader sr header rawBytes s).storedHeaders = s.storedHeaders.put header.id.bytes := by
  cases s
  rfl

end Buffer

def removePending (id : Bytes) (s : HeaderSync) : HeaderSync :=
  { s with pendingHeaders := s.pendingHeaders.remove id }

/-- Each level of the recursion takes a waiting header away, so `fuel` is the number of levels. -/
def storeHeaderAndDescendants : Nat → Header → Bytes → Op HeaderSync SyncError Unit
  | 0, _, _ => return ()
  | fuel + 1, header, rawBytes => do
      modify (bufferHeader sr header rawBytes)
      let s ← get
      Op.forEach (fun (id, pending) => do
        modify (removePending id)
        storeHeaderAndDescendants fuel pending.header pending.rawBytes)
        (s.pendingHeaders.getByParent s.childOrder header.id.bytes)
      flushIfDue sr

def receivedHeader (data : Bytes) : Except String Header :=
  return { ← sr.parseHeader data with id := sr.blake2b256 data }

def onHeaderReceived (data : Bytes) : Op HeaderSync SyncError Unit :=
  match receivedHeader sr data with
  | .error e => throw (.invalidData s!"Failed to parse header: {e}")
  | .ok header => do
      let s ← get
      if header.id.bytes ∈ s.storedHeaders then return ()
      else if header.parentId.bytes ∈ s.storedHeaders then
        storeHeaderAndDescendants sr (s.pendingHeaders.len + 1) header data
      else
        set { s with
          pendingHeaders := s.pendingHeaders.insert header.id.bytes
            ⟨header, data, header.parentId.bytes⟩ maxPendingHeaders }

def onTick : Op HeaderSync SyncError Unit := flushIfDue sr

def handleStoreHeader (header : Header) (rawBytes : Bytes) (s : HeaderSync) : HeaderSync :=
  { s with state := ((StateManager.applyHeaderWithBytes sr header rawBytes).exec s.state).2 }

/-- A header modifier comes in, time passes, or a received header is stored by the command of its own;
no function of the protocol sends that command. -/
inductive Action where
  | receive (data : Bytes)
  | tick
  | storeHeader (data : Bytes)

def step (s : HeaderSync) : Action → Option HeaderSync
  | .receive data => some ((onHeaderReceived sr data).exec s).2
  | .tick => some ((onTick sr).exec s).2
  | .storeHeader data =>
      match receivedHeader sr data with
      | .ok header => some (handleStoreHeader sr header data s)
      | .error _ => none

end HeaderSync
end ErgoNode
