import ErgoNode.Lib.Roster
import ErgoNode.Node.Router
import ErgoNode.Proof.Network.Safety
import ErgoNode.Proof.Network.Tasks
import ErgoNode.Proof.Sample

/-!
# Who is taken to be connected

The service, the peer manager, the router and the sync protocol each keep a table of the connected peers. Tasks
change the first two as they go; the others hear of it by events, and late. Every peer in one of them has a task,
and those with a task are all there unless two tasks have one peer or the sync protocol has taken one out for being
unresponsive. Whoever asks is told of them.
-/

namespace ErgoNode.Proof.Network
open Lib PeerConnection

/-! ### The tables -/

/-- What is kept of connected peers. The router and the sync protocol are taken as they are once the events on
their way have come. -/
inductive PeerTable where
  | service
  | manager
  | router
  | sync

def arrival : NetworkEvent → Option (PeerId × Bool)
  | .peerConnected peerId _ _ => some (peerId, true)
  | .peerDisconnected peerId => some (peerId, false)
  | _ => none

def syncArrival : EventRouter.SyncEvent → Option (PeerId × Bool)
  | .peerConnected peer => some (peer, true)
  | .peerDisconnected peer => some (peer, false)
  | _ => none

def outgoingArrival : EventRouter.Outgoing → Option (PeerId × Bool)
  | .sync event => syncArrival event
  | _ => none

namespace PeerTable

def holds : PeerTable → Stage → Bool
  | .service, .adding _ _ | .service, .marking _ | .service, .announcing _ => true
  | .manager, .announcing _ | .manager, .unmarking => true
  | .router, .unmarking | .router, .leaving => true
  | .sync, .unmarking | .sync, .leaving => true
  | _, stage => working stage

def notice : PeerTable → Effect → Option Bool
  | .service, .register _ => some true
  | .service, .unregister => some false
  | .manager, .setState .connected => some true
  | .manager, .setState .disconnected => some false
  | .router, .emit event => (arrival event).map Prod.snd
  | .sync, .emit event => (arrival event).map Prod.snd
  | _, _ => none

def listed (s : NetworkStack) (peer : PeerId) : PeerTable → Bool
  | .service => decide (peer ∈ s.service.peers)
  | .manager => s.service.peerManager.connected.any fun id => id = peer
  | .router => settled peer (decide (peer ∈ s.router.peerAddresses)) (s.service.events.filterMap arrival)
  | .sync => settled peer (decide (peer ∈ s.exchange.syncPeers))
      (s.toSync.filterMap syncArrival ++ s.outgoing.filterMap outgoingArrival ++ s.service.events.filterMap arrival)

def roster (s : NetworkStack) (peer : PeerId) (table : PeerTable) : Roster where
  held := Roster.heldBy PeerConnection.peerId (fun c => table.holds c.stage) s.service.connections peer
  listed := table.listed s peer

variable {table : PeerTable} {addr : SocketAddr} {stage next : Stage} {effect : Effect}

theorem holds_of_pending (early : pending stage ∨ ended stage) : table.holds stage = false := by
  cases table <;> cases stage <;> simp_all [holds, pending, working, ended]

theorem holds_of_working (works : working stage) : table.holds stage = true := by
  cases table <;> cases stage <;> simp_all [holds, working]

@[simp] theorem notice_quiet : table.notice .quiet = none := by cases table <;> rfl

theorem holds_passes (passes : Passes addr stage next effect) :
    table.holds stage = (table.notice effect).elim (table.holds stage) not ∧
      table.holds next = (table.notice effect).getD (table.holds stage) := by
  cases passes with
  | early before later => simp [holds_of_pending (.inl before), holds_of_pending later]
  | work before later => simp [holds_of_working before, holds_of_working later]
  | register | add | mark | announce | deliver | remove | unmark | leave | fail => cases table <;> exact ⟨rfl, rfl⟩

end PeerTable

/-! ### Steps of the service -/

section Moves
variable {table : PeerTable} {s : NetworkStack} {service : NetworkService} {action : NetworkService.Action}
variable {manager : PeerManager} {peer peerId : PeerId} {index now : Nat} {effect : Effect} {drops : Prop}
variable {addr : SocketAddr} {stage next : Stage}

theorem eq_of_entered {after before : Bool} (entered : after = true ↔ peer = peerId ∨ before = true) :
    after = if peerId = peer then true else before := by
  by_cases same : peerId = peer
  · rw [if_pos same]
    exact entered.mpr (.inl same.symm)
  · rw [if_neg same]
    exact Bool.eq_iff_iff.mpr (entered.trans (or_iff_right (Ne.symm same)))

theorem eq_of_left {after before : Bool} (left : after = true ↔ peer ≠ peerId ∧ before = true) :
    after = if peerId = peer then false else before := by
  by_cases same : peerId = peer
  · rw [if_pos same]
    exact Bool.eq_false_iff.mpr fun there => (left.mp there).1 same.symm
  · rw [if_neg same]
    exact Bool.eq_iff_iff.mpr (left.trans (and_iff_right (Ne.symm same)))

theorem decide_entered {P Q : Prop} [Decidable P] [Decidable Q] (entered : P ↔ peer = peerId ∨ Q) :
    decide P = if peerId = peer then true else decide Q :=
  eq_of_entered (by simpa only [decide_eq_true_iff] using entered)

theorem decide_left {P Q : Prop} [Decidable P] [Decidable Q] (left : P ↔ peer ≠ peerId ∧ Q) :
    decide P = if peerId = peer then false else decide Q :=
  eq_of_left (by simpa only [decide_eq_true_iff] using left)

theorem connected_of_connected (known : peerId ∈ manager.peers) :
    ((manager.setState now peerId .connected).connected.any fun id => id = peer) =
      if peerId = peer then true else manager.connected.any fun id => id = peer := by
  obtain ⟨info, found⟩ := Entries.mem_iff.mp known
  apply eq_of_entered
  rw [@eq_comm _ peer]
  unfold PeerManager.setState
  simp [found]

theorem connected_of_disconnected (known : peerId ∈ manager.peers) :
    ((manager.setState now peerId .disconnected).connected.any fun id => id = peer) =
      if peerId = peer then false else manager.connected.any fun id => id = peer := by
  obtain ⟨info, found⟩ := Entries.mem_iff.mp known
  apply eq_of_left
  unfold PeerManager.setState
  simp [found, and_comm]

theorem arrival_passes {event : NetworkEvent} {notice : PeerId × Bool} (passes : Passes addr stage next (.emit event))
    (told : arrival event = some notice) : notice.1 = .fromAddr addr := by
  cases passes with
  | announce | leave =>
      cases told
      rfl
  | deliver | fail => cases told

theorem settled_emit {listed : Bool} {notices : List (PeerId × Bool)} {events : List NetworkEvent} {event : NetworkEvent}
    (own : ∀ notice, arrival event = some notice → notice.1 = peerId) :
    settled peer listed (notices ++ (events ++ [event]).filterMap arrival) =
      if peerId = peer then ((arrival event).map Prod.snd).getD (settled peer listed (notices ++ events.filterMap arrival))
      else settled peer listed (notices ++ events.filterMap arrival) := by
  rw [List.filterMap_append, ← List.append_assoc, settled_append]
  cases told : arrival event with
  | none => simp [told]
  | some notice => simp [told, own notice told]

theorem listed_perform (done : s.service.perform index now peerId effect = some service)
    (passes : Passes addr stage next effect) (own : peerId = .fromAddr addr)
    (enrolled : Enrolled s.service.peerManager peerId stage) :
    table.listed { s with service } peer =
      if peerId = peer then (table.notice effect).getD (table.listed s peer) else table.listed s peer := by
  have whole := passes
  cases passes with
  | early | work =>
      obtain rfl : s.service = service := Option.some.inj done
      simp
  | register theirs info owned =>
      obtain rfl := Option.some.inj done
      cases table with
      | service => exact decide_entered (AList.mem_insert _)
      | manager | router | sync => exact (ite_self _).symm
  | add theirs info =>
      obtain rfl := Option.some.inj done
      cases table <;> exact (ite_self _).symm
  | mark theirs =>
      obtain rfl := Option.some.inj done
      cases table with
      | manager => exact connected_of_connected enrolled
      | service | router | sync => exact (ite_self _).symm
  | remove =>
      obtain rfl := Option.some.inj done
      cases table with
      | service => exact decide_left AList.mem_erase
      | manager | router | sync => exact (ite_self _).symm
  | unmark =>
      obtain rfl := Option.some.inj done
      cases table with
      | manager => exact connected_of_disconnected enrolled
      | service | router | sync => exact (ite_self _).symm
  | announce | deliver | leave | fail =>
      unfold NetworkService.perform at done
      dsimp only at done
      split at done <;> cases done
      subst own
      have told := fun notice => @arrival_passes addr _ _ _ notice whole
      cases table with
      | service | manager => exact (ite_self _).symm
      | router => exact @settled_emit peer (.fromAddr addr) _ [] _ _ told
      | sync => exact settled_emit told

theorem moves_shifts (shifts : Shifts s.service action service) (unstruck : striking s.service action = none)
    (enrolled : ∀ c ∈ s.service.connections, Enrolled s.service.peerManager c.peerId c.stage) :
    Roster.Moves drops (table.roster s peer) (table.roster { s with service } peer) := by
  cases shifts with
  | start c of fresh room fewer next =>
      have same : table.listed { s with service } peer = table.listed s peer := by rw [next]; cases table <;> rfl
      have idle : ∀ other ∈ [c], table.holds other.stage = false := fun other new => by
        rw [List.mem_singleton.mp new]
        exact PeerTable.holds_of_pending (.inl fresh)
      unfold PeerTable.roster
      rw [same, congrArg NetworkService.connections next]
      exact Roster.moves_append idle
  | strike struck of fewer next => exact absurd (of.symm.trans unstruck) nofun
  | @receive index c here inbox next =>
      have same : table.listed { s with service } peer = table.listed s peer := by rw [next]; cases table <;> rfl
      unfold PeerTable.roster
      rw [same, congrArg NetworkService.connections next]
      exact @Roster.moves_set _ _ _ _ _ _ _ _ _ _ _ _ _ none here rfl rfl rfl (ite_self _).symm
  | cleanup now next =>
      refine .kept ?_ ?_ <;> rw [next]
      · rfl
      · cases table <;> rfl
  | pass fewer next =>
      refine .kept ?_ ?_ <;> rw [next]
      · rfl
      · cases table <;> rfl
  | @task index now c after effect here same passes done =>
      have old := enrolled c (List.mem_of_getElem? here)
      have told := @listed_perform table
        { s with service := { s.service with connections := s.service.connections.set index after } } service peer _
        index now effect _ _ _ done passes rfl old
      have named : after.peerId = c.peerId := congrArg PeerId.fromAddr same
      obtain ⟨before, later⟩ := table.holds_passes passes
      unfold PeerTable.roster
      rw [(frame_perform done).1]
      refine Roster.moves_set here named before later ?_
      rw [told]
      cases table <;> rfl

end Moves

/-! ### Steps of the router and of the sync protocol -/

theorem filterMap_cons_toList {A B : Type} {f : A → Option B} {a : A} {rest : List A} :
    (a :: rest).filterMap f = (f a).toList ++ rest.filterMap f := by
  cases told : f a <;> simp [told]

section Router
open EventRouter
variable {router : EventRouter} {now : Nat} {order : Iteration PeerId SocketAddr} {peer peerId : PeerId}
variable {event : NetworkEvent}

theorem foldl_discover_eq (specs : List PeerSpec) :
    ∃ discovered, specs.foldl discover router = { router with discoveredPeers := discovered } := by
  induction specs generalizing router with
  | nil => exact ⟨_, rfl⟩
  | cons spec specs ih =>
      obtain ⟨discovered, same⟩ := @ih (router.discover spec)
      rw [List.foldl_cons, same]
      unfold discover
      split
      · exact ⟨_, rfl⟩
      · dsimp only
        split <;> exact ⟨_, rfl⟩

theorem peerAddresses_discover (specs : List PeerSpec) :
    (specs.foldl discover router).peerAddresses = router.peerAddresses := by
  obtain ⟨discovered, same⟩ := @foldl_discover_eq router specs
  rw [same]

theorem mem_onPeerDisconnected : peer ∈ (router.onPeerDisconnected now peerId).peerAddresses ↔
    peer ≠ peerId ∧ peer ∈ router.peerAddresses := by
  unfold onPeerDisconnected
  cases found : router.peerAddresses.lookup peerId with
  | none =>
      have gone : peerId ∉ router.peerAddresses := AList.lookup_eq_none.mp found
      refine ⟨fun there => ⟨?_, there⟩, And.right⟩
      rintro rfl
      exact gone there
  | some addr => exact AList.mem_erase

theorem mem_onEvent : decide (peer ∈ (router.onEvent now order event).1.peerAddresses) =
    settled peer (decide (peer ∈ router.peerAddresses)) (arrival event).toList := by
  cases event with
  | peerConnected peerId addr handshake => exact decide_entered (AList.mem_insert _)
  | peerDisconnected peerId => exact decide_left mem_onPeerDisconnected
  | messageReceived peerId message =>
      have same : (router.handleMessage order peerId message).1.peerAddresses = router.peerAddresses := by
        cases message with
        | peers specs => exact peerAddresses_discover specs
        | _ => rfl
      unfold onEvent
      rw [same]
      rfl
  | connectionFailed addr error => rfl

/-- The router ends no connection, and what it may give up says of no peer whether it is there. -/
def Harmless : Outgoing → Prop
  | .command command => ∀ peer, command ≠ .disconnect peer
  | .sync _ => True
  | .trySync events => ∀ event ∈ events, syncArrival event = none

theorem outgoing_onEvent : (router.onEvent now order event).2.filterMap outgoingArrival = (arrival event).toList ∧
    ∀ sent ∈ (router.onEvent now order event).2, Harmless sent := by
  cases event with
  | peerConnected peerId addr handshake => exact ⟨rfl, by simp [onEvent, Harmless]⟩
  | peerDisconnected peerId => exact ⟨rfl, by simp [onEvent, Harmless]⟩
  | connectionFailed addr error => exact ⟨rfl, nofun⟩
  | messageReceived peerId message =>
      cases message with
      | syncInfo | inv | modifier => exact ⟨rfl, by simp [onEvent, handleMessage, Harmless, syncArrival]⟩
      | getPeers =>
          unfold onEvent
          dsimp only [handleMessage]
          split
          · exact ⟨rfl, nofun⟩
          · exact ⟨rfl, by simp [Harmless]⟩
      | _ => exact ⟨rfl, nofun⟩

theorem peerAddresses_retryPeers {queueOrder : Iteration SocketAddr ReconnectInfo} :
    (router.retryPeers now queueOrder).1.peerAddresses = router.peerAddresses := by
  unfold retryPeers
  split <;> rfl

theorem peerAddresses_tryDiscovered {discoveredOrder : Iteration SocketAddr Unit} :
    (router.tryDiscovered discoveredOrder).1.peerAddresses = router.peerAddresses := by
  unfold tryDiscovered
  split <;> rfl

theorem onReconnectTick_spec {queueOrder : Iteration SocketAddr ReconnectInfo} {discoveredOrder : Iteration SocketAddr Unit} :
    (router.onReconnectTick now queueOrder discoveredOrder).1.peerAddresses = router.peerAddresses ∧
      (router.onReconnectTick now queueOrder discoveredOrder).2.filterMap outgoingArrival = [] ∧
        ∀ sent ∈ (router.onReconnectTick now queueOrder discoveredOrder).2, Harmless sent := by
  refine ⟨peerAddresses_tryDiscovered.trans peerAddresses_retryPeers, ?_, ?_⟩
  · unfold onReconnectTick
    simp [List.filterMap_map, List.filterMap_eq_nil_iff, outgoingArrival]
  · intro sent member
    obtain ⟨addr, -, rfl⟩ := List.mem_map.mp member
    exact fun peer => nofun

end Router

section Exchange
open SyncExchange
variable {sr : SigmaRust} {now : Int} {exchange : SyncExchange} {peer other : PeerId} {info : SyncInfo}
variable {update : PeerSyncState → PeerSyncState}

theorem mem_updatePeer : other ∈ (exchange.updatePeer peer update).syncPeers ↔ other ∈ exchange.syncPeers := by
  unfold updatePeer
  cases known : exchange.syncPeers.lookup peer with
  | none => rfl
  | some state =>
      have there : peer ∈ exchange.syncPeers := Entries.mem_iff.mpr ⟨state, known⟩
      refine (AList.mem_insert _).trans ⟨?_, .inr⟩
      rintro (rfl | old)
      · exact there
      · exact old

theorem mem_onSyncInfo : other ∈ (exchange.onSyncInfo sr now peer info).syncPeers ↔ other ∈ exchange.syncPeers := by
  unfold onSyncInfo
  split
  · rfl
  · split
    · exact mem_updatePeer.trans mem_updatePeer
    · exact mem_updatePeer

theorem mem_requestMoreHeaders {order : Iteration PeerId PeerSyncState} :
    other ∈ (exchange.requestMoreHeaders sr now order).syncPeers ↔ other ∈ exchange.syncPeers := by
  unfold requestMoreHeaders
  split
  · exact mem_updatePeer
  · rfl

theorem mem_removeUnresponsive {peers : List PeerId} :
    other ∈ (exchange.removeUnresponsive peers).syncPeers ↔ other ∉ peers ∧ other ∈ exchange.syncPeers := by
  induction peers generalizing exchange with
  | nil => simp [removeUnresponsive]
  | cons slow rest ih =>
      have first : other ∈ (exchange.removePeer slow).syncPeers ↔ other ≠ slow ∧ other ∈ exchange.syncPeers :=
        AList.mem_erase
      rw [removeUnresponsive, List.foldl_cons, ← removeUnresponsive, ih, first, List.mem_cons, not_or]
      tauto

theorem mem_onSyncEvent {s : NetworkStack} {unresponsive : List PeerId} {more : Option (Iteration PeerId PeerSyncState)}
    {event : EventRouter.SyncEvent} :
    decide (other ∈ (s.onSyncEvent sr now unresponsive more event).syncPeers) =
      settled other (decide (other ∈ s.exchange.syncPeers)) (syncArrival event).toList ∨
    other ∈ unresponsive ∧ syncArrival event = none ∧
      decide (other ∈ (s.onSyncEvent sr now unresponsive more event).syncPeers) = false := by
  cases event with
  | peerConnected peer => exact .inl (decide_entered (AList.mem_insert _))
  | peerDisconnected peer => exact .inl (decide_left AList.mem_erase)
  | syncInfoReceived peer info => exact .inl (decide_eq_decide.mpr mem_onSyncInfo)
  | tick =>
      have known : other ∈ (s.onSyncEvent sr now unresponsive more .tick).syncPeers ↔
          other ∉ unresponsive ∧ other ∈ s.exchange.syncPeers := by
        cases more with
        | none => exact mem_removeUnresponsive
        | some order => exact mem_requestMoreHeaders.trans mem_removeUnresponsive
      by_cases slow : other ∈ unresponsive
      · exact .inr ⟨slow, rfl, decide_eq_false fun there => (known.mp there).1 slow⟩
      · exact .inl (decide_eq_decide.mpr (known.trans (and_iff_right slow)))
  | _ => exact .inl rfl

end Exchange

/-! ### What the router knows -/

section Known
open EventRouter
variable {router receiver : EventRouter} {now : Nat} {order : Iteration PeerId SocketAddr} {peer peerId : PeerId}
variable {addr other : SocketAddr} {event : NetworkEvent} {handshake : Handshake}

theorem isConnected_iff : router.isConnected addr = true ↔ ∃ peer, router.peerAddresses.lookup peer = some addr := by
  rw [← Entries.mem_values]
  simp [isConnected]

/-- The connected peers are those with a handshake, and no address that was heard of is that of one. -/
structure RouterAgrees (router : EventRouter) : Prop where
  handshakes : ∀ peer, peer ∈ router.peerHandshakes ↔ peer ∈ router.peerAddresses
  discovered : ∀ addr ∈ router.discoveredPeers, ¬ router.isConnected addr

theorem agrees_new : RouterAgrees .new := ⟨fun _ => Iff.rfl, fun _ member => absurd member (AList.notMem_empty _)⟩

theorem RouterAgrees.discover (agrees : RouterAgrees router) (spec : PeerSpec) : RouterAgrees (router.discover spec) := by
  unfold EventRouter.discover
  split
  · exact agrees
  · dsimp only
    split
    · exact agrees
    · next unconnected =>
        refine ⟨agrees.handshakes, fun other member => ?_⟩
        rcases (AList.mem_insert _).mp member with rfl | old
        · exact unconnected
        · exact agrees.discovered other old

theorem RouterAgrees.foldl_discover (agrees : RouterAgrees router) (specs : List PeerSpec) :
    RouterAgrees (specs.foldl EventRouter.discover router) := by
  induction specs generalizing router with
  | nil => exact agrees
  | cons spec specs ih => exact ih (agrees.discover spec)

theorem RouterAgrees.onPeerConnected (agrees : RouterAgrees router) :
    RouterAgrees (router.onPeerConnected peerId addr handshake) where
  handshakes := fun peer =>
    (AList.mem_insert _).trans ((or_congr_right (agrees.handshakes peer)).trans (AList.mem_insert _).symm)
  discovered := by
    intro other member connected
    obtain ⟨apart, old⟩ := AList.mem_erase.mp member
    obtain ⟨peer, found⟩ := isConnected_iff.mp connected
    rcases Entries.lookup_insert_iff.mp found with ⟨-, same⟩ | ⟨-, before⟩
    · exact apart same
    · exact agrees.discovered other old (isConnected_iff.mpr ⟨peer, before⟩)

theorem onPeerDisconnected_rest :
    (router.onPeerDisconnected now peerId).peerHandshakes = router.peerHandshakes.erase peerId ∧
    (router.onPeerDisconnected now peerId).discoveredPeers = router.discoveredPeers ∧
      ∀ peer addr, (router.onPeerDisconnected now peerId).peerAddresses.lookup peer = some addr →
        router.peerAddresses.lookup peer = some addr := by
  unfold EventRouter.onPeerDisconnected
  cases router.peerAddresses.lookup peerId with
  | none => exact ⟨rfl, rfl, fun _ _ found => found⟩
  | some addr => exact ⟨rfl, rfl, fun _ _ found => (Entries.lookup_erase_iff.mp found).2⟩

theorem RouterAgrees.onPeerDisconnected (agrees : RouterAgrees router) :
    RouterAgrees (router.onPeerDisconnected now peerId) := by
  obtain ⟨handshakes, discovered, fewer⟩ := @onPeerDisconnected_rest router now peerId
  refine ⟨fun peer => ?_, fun other member connected => ?_⟩
  · rw [handshakes, AList.mem_erase, mem_onPeerDisconnected, agrees.handshakes]
  · rw [discovered] at member
    obtain ⟨peer, found⟩ := isConnected_iff.mp connected
    exact agrees.discovered other member (isConnected_iff.mpr ⟨peer, fewer peer other found⟩)

theorem RouterAgrees.onEvent (agrees : RouterAgrees router) : RouterAgrees (router.onEvent now order event).1 := by
  cases event with
  | peerConnected peerId addr handshake => exact agrees.onPeerConnected
  | peerDisconnected peerId => exact agrees.onPeerDisconnected
  | connectionFailed addr error => exact ⟨agrees.handshakes, agrees.discovered⟩
  | messageReceived peerId message =>
      cases message with
      | peers specs => exact agrees.foldl_discover specs
      | _ => exact agrees

theorem mem_of_mem_foldl_erase {discovered : Table SocketAddr Unit} (tried : List SocketAddr)
    (member : other ∈ tried.foldl (fun discovered addr => discovered.erase addr) discovered) : other ∈ discovered := by
  induction tried generalizing discovered with
  | nil => exact member
  | cons addr tried ih => exact (AList.mem_erase.mp (ih member)).2

theorem RouterAgrees.onReconnectTick (agrees : RouterAgrees router) {queueOrder : Iteration SocketAddr ReconnectInfo}
    {discoveredOrder : Iteration SocketAddr Unit} : RouterAgrees (router.onReconnectTick now queueOrder discoveredOrder).1 := by
  have retried : RouterAgrees (router.retryPeers now queueOrder).1 := by
    unfold EventRouter.retryPeers
    split
    · exact ⟨agrees.handshakes, agrees.discovered⟩
    · exact agrees
  have tried : RouterAgrees ((router.retryPeers now queueOrder).1.tryDiscovered discoveredOrder).1 := by
    unfold EventRouter.tryDiscovered
    split
    · exact ⟨retried.handshakes, fun other member => retried.discovered other (mem_of_mem_foldl_erase _ member)⟩
    · exact retried
  exact tried

/-! ### Telling of peers -/

def told : SocketAddr → SocketAddr
  | .v4 ip port => .v4 ip port
  | .v6 ip port _ _ => .v6 ip port 0 0

theorem new_told (addr : SocketAddr) : SocketAddr.new addr.ip addr.port = told addr := by
  cases addr with
  | v4 ip port =>
      have small : ip.toNat % 256 ^ 4 = ip.toNat := Nat.mod_eq_of_lt ip.toNat_lt
      dsimp only [SocketAddr.new, SocketAddr.ip, SocketAddr.port, told]
      rw [BigEndian.read_write, small, UInt32.ofNat_toNat]
  | v6 ip port flowinfo scopeId =>
      have small : ip.toNat % 256 ^ 16 = ip.toNat := Nat.mod_eq_of_lt ip.isLt
      dsimp only [SocketAddr.new, SocketAddr.ip, SocketAddr.port, told]
      rw [BigEndian.read_write, small, BitVec.ofNat_toNat, BitVec.setWidth_eq]

theorem mem_foldl_discover {specs : List PeerSpec} :
    other ∈ (specs.foldl EventRouter.discover receiver).discoveredPeers ↔
      other ∈ receiver.discoveredPeers ∨ ¬ receiver.isConnected other ∧
        ∃ spec ∈ specs, ∃ declared, spec.declaredAddr = some declared ∧
          SocketAddr.new declared.ip declared.port = other := by
  induction specs generalizing receiver with
  | nil => simp
  | cons spec specs ih =>
      have same : (receiver.discover spec).isConnected other = receiver.isConnected other :=
        congrArg (fun table : Table PeerId SocketAddr => table.entries.any fun entry => entry.2 = other)
          (peerAddresses_discover [spec])
      have here : other ∈ (receiver.discover spec).discoveredPeers ↔ other ∈ receiver.discoveredPeers ∨
          ¬ receiver.isConnected other ∧
            ∃ declared, spec.declaredAddr = some declared ∧ SocketAddr.new declared.ip declared.port = other := by
        unfold EventRouter.discover
        cases declares : spec.declaredAddr with
        | none => simp
        | some declared =>
            dsimp only
            split
            · next connected =>
                refine ⟨.inl, ?_⟩
                rintro (old | ⟨unconnected, _, ⟨⟩, rfl⟩)
                · exact old
                · exact absurd connected unconnected
            · next unconnected =>
                rw [AList.mem_insert, or_comm]
                refine or_congr_right ⟨?_, ?_⟩
                · rintro rfl
                  exact ⟨unconnected, declared, rfl, rfl⟩
                · rintro ⟨-, _, ⟨⟩, rfl⟩
                  rfl
      rw [List.foldl_cons, ih, same, here, or_assoc, ← and_or_left]
      simp only [List.mem_cons, exists_eq_or_imp]

theorem mem_knownPeers {spec : PeerSpec} (known : spec ∈ router.knownPeers order peerId) :
    ∃ id addr handshake, id ≠ peerId ∧ router.peerAddresses.lookup id = some addr ∧
      router.peerHandshakes.lookup id = some handshake ∧ spec = sharedPeer addr handshake := by
  obtain ⟨⟨id, addr⟩, member, shared⟩ := List.mem_filterMap.mp (List.mem_of_mem_take known)
  obtain ⟨entered, apart⟩ := List.mem_filter.mp member
  obtain ⟨handshake, found, rfl⟩ := Option.map_eq_some_iff.mp shared
  exact ⟨id, addr, handshake, of_decide_eq_true apart, (Entries.mem_of_perm (order.perm _)).mp entered, found, rfl⟩

def others (router : EventRouter) (peerId : PeerId) : Nat := router.peerAddresses.keys.countP fun id => id ≠ peerId

theorem length_entries_others :
    ((order.entries router.peerAddresses).filter fun entry => entry.1 ≠ peerId).length = others router peerId := by
  rw [((order.perm router.peerAddresses).filter _).length_eq, ← List.countP_eq_length_filter, List.countP_map]
  unfold others AList.keys List.keys
  rw [List.countP_map]
  rfl

theorem length_knownPeers (agrees : RouterAgrees router) :
    (router.knownPeers order peerId).length = min maxSharedPeers (others router peerId) := by
  unfold EventRouter.knownPeers
  rw [List.length_take, List.filterMap_length_eq_length.mpr, length_entries_others]
  rintro ⟨id, addr⟩ member
  have entered := (Entries.mem_of_perm (order.perm _)).mp (List.mem_filter.mp member).1
  have greeted := (agrees.handshakes id).mpr (Entries.mem_iff.mpr ⟨addr, entered⟩)
  rw [Option.isSome_map, AList.lookup_isSome]
  exact greeted

theorem knownPeers_of_few (agrees : RouterAgrees router) (few : others router peerId ≤ maxSharedPeers) {id : PeerId}
    (apart : id ≠ peerId) (found : router.peerAddresses.lookup id = some addr) :
    ∃ handshake, sharedPeer addr handshake ∈ router.knownPeers order peerId := by
  obtain ⟨handshake, greeted⟩ := Entries.mem_iff.mp ((agrees.handshakes id).mpr (Entries.mem_iff.mpr ⟨addr, found⟩))
  refine ⟨handshake, ?_⟩
  unfold EventRouter.knownPeers
  rw [List.take_of_length_le]
  · have entered := (Entries.mem_of_perm (order.perm _)).mpr found
    exact List.mem_filterMap.mpr ⟨(id, addr), List.mem_filter.mpr ⟨entered, decide_eq_true apart⟩, by simp [greeted]⟩
  · exact Nat.le_trans (List.length_filterMap_le ..) (length_entries_others ▸ few)

theorem discovered_iff (agrees : RouterAgrees router) (few : others router peerId ≤ maxSharedPeers) :
    other ∈ ((router.knownPeers order peerId).foldl EventRouter.discover receiver).discoveredPeers ↔
      other ∈ receiver.discoveredPeers ∨ ¬ receiver.isConnected other ∧
        ∃ id addr, id ≠ peerId ∧ router.peerAddresses.lookup id = some addr ∧ told addr = other := by
  rw [mem_foldl_discover]
  refine or_congr_right (and_congr_right fun _ => ⟨?_, ?_⟩)
  · rintro ⟨spec, known, declared, declares, rfl⟩
    obtain ⟨id, addr, handshake, apart, found, -, rfl⟩ := mem_knownPeers known
    cases declares
    exact ⟨id, addr, apart, found, (new_told addr).symm⟩
  · rintro ⟨id, addr, apart, found, rfl⟩
    obtain ⟨handshake, known⟩ := @knownPeers_of_few router order peerId addr agrees few id apart found
    exact ⟨_, known, _, rfl, new_told addr⟩

end Known

/-! ### Trying again -/

def Waits (addr : SocketAddr) (info : ReconnectInfo) : Prop :=
  info.addr = addr ∧ (info.attempts = 0 ∨ info.nextAttempt = info.lastAttempt + info.backoffDuration)

def QueueWaits (router : EventRouter) : Prop :=
  ∀ addr info, router.reconnectQueue.lookup addr = some info → Waits addr info

section Again
open EventRouter
variable {router : EventRouter} {now : Nat} {order : Iteration PeerId SocketAddr} {peerId : PeerId}
variable {addr other : SocketAddr} {info : ReconnectInfo} {event : NetworkEvent}
variable {queueOrder : Iteration SocketAddr ReconnectInfo} {discoveredOrder : Iteration SocketAddr Unit}

theorem waits_new : Waits addr (.new now addr) := ⟨rfl, .inl rfl⟩

theorem Waits.markFailed (waits : Waits addr info) : Waits addr (info.markFailed now) := by
  refine ⟨waits.1, .inr ?_⟩
  simp only [ReconnectInfo.markFailed, ReconnectInfo.backoffDuration]

theorem QueueWaits.insert (queue : QueueWaits router) (waits : Waits addr info) {peers : Table PeerId SocketAddr}
    {handshakes : Table PeerId Handshake} :
    QueueWaits ⟨peers, handshakes, router.reconnectQueue.insert addr info, router.discoveredPeers⟩ := by
  intro other entry found
  rcases Entries.lookup_insert_iff.mp found with ⟨rfl, rfl⟩ | ⟨-, old⟩
  · exact waits
  · exact queue other entry old

theorem reconnectQueue_discover (specs : List PeerSpec) :
    (specs.foldl discover router).reconnectQueue = router.reconnectQueue := by
  obtain ⟨discovered, same⟩ := @foldl_discover_eq router specs
  rw [same]

theorem QueueWaits.onEvent (queue : QueueWaits router) : QueueWaits (router.onEvent now order event).1 := by
  cases event with
  | peerConnected peerId addr handshake =>
      intro other info found
      exact queue other info (Entries.lookup_erase_iff.mp found).2
  | peerDisconnected peerId =>
      unfold EventRouter.onEvent EventRouter.onPeerDisconnected
      dsimp only
      cases router.peerAddresses.lookup peerId with
      | none => exact queue
      | some addr =>
          dsimp only
          cases router.reconnectQueue.lookup addr with
          | none => exact queue.insert waits_new
          | some info => exact queue
  | connectionFailed addr error =>
      refine QueueWaits.insert queue ?_
      cases found : router.reconnectQueue.lookup addr with
      | none => exact waits_new.markFailed
      | some info => exact (queue addr info found).markFailed
  | messageReceived peerId message =>
      cases message with
      | peers specs =>
          intro other info found
          exact queue other info (reconnectQueue_discover specs ▸ found)
      | _ => exact queue

theorem QueueWaits.retryPeers (queue : QueueWaits router) : QueueWaits (router.retryPeers now queueOrder).1 := by
  unfold EventRouter.retryPeers
  split
  · intro other info found
    exact queue other info (Entries.lookup_retain.mp found).1
  · exact queue

theorem QueueWaits.onReconnectTick (queue : QueueWaits router) :
    QueueWaits (router.onReconnectTick now queueOrder discoveredOrder).1 := by
  have retried := @QueueWaits.retryPeers router now queueOrder queue
  have tried : QueueWaits ((router.retryPeers now queueOrder).1.tryDiscovered discoveredOrder).1 := by
    unfold EventRouter.tryDiscovered
    split
    · exact retried
    · exact retried
  exact tried

theorem connects_onReconnectTick (agrees : RouterAgrees router) (queue : QueueWaits router)
    (sent : .command (.connect addr) ∈ (router.onReconnectTick now queueOrder discoveredOrder).2) :
    (router.peerAddresses.entries.length < minConnections ∧ ∃ info, router.reconnectQueue.lookup addr = some info ∧
      info.attempts < maxReconnectAttempts ∧ (info.attempts = 0 ∨ info.lastAttempt + info.backoffDuration ≤ now)) ∨
    (router.peerAddresses.entries.length < maxConnections ∧ addr ∈ router.discoveredPeers ∧ ¬ router.isConnected addr) := by
  unfold EventRouter.onReconnectTick at sent
  dsimp only at sent
  obtain ⟨other, member, same⟩ := List.mem_map.mp sent
  cases same
  rcases List.mem_append.mp member with again | heard
  · unfold EventRouter.retryPeers at again
    split at again
    · next few =>
        obtain ⟨⟨key, info⟩, due, rfl⟩ := List.mem_map.mp again
        obtain ⟨entered, both⟩ := List.mem_filter.mp due
        obtain ⟨left, ready⟩ := Bool.and_eq_true_iff.mp both
        have found := (Entries.mem_of_perm (queueOrder.perm _)).mp entered
        refine .inl ⟨few, info, found, of_decide_eq_true left, ?_⟩
        refine (queue key info found).2.imp_right fun next => ?_
        exact next ▸ of_decide_eq_true ready
    · cases again
  · have same : (router.retryPeers now queueOrder).1.peerAddresses = router.peerAddresses := peerAddresses_retryPeers
    have known : (router.retryPeers now queueOrder).1.discoveredPeers = router.discoveredPeers := by
      unfold EventRouter.retryPeers
      split <;> rfl
    unfold EventRouter.tryDiscovered at heard
    split at heard
    · next room =>
        rw [same] at room
        obtain ⟨listed, -⟩ := List.mem_filter.mp (List.mem_of_mem_take heard)
        obtain ⟨⟨key, there⟩, entered, rfl⟩ := List.mem_map.mp listed
        have found := (Entries.mem_of_perm (discoveredOrder.perm _)).mp entered
        have member : key ∈ router.discoveredPeers := known ▸ Entries.mem_iff.mpr ⟨there, found⟩
        exact .inr ⟨room, member, agrees.discovered key member⟩
    · cases heard

end Again

/-! ### Steps of the stack -/

section Stack
variable {blake2b256 : Bytes → Digest32} {json : SerdeJson} {sr : SigmaRust} {s t : NetworkStack}
variable {action : NetworkStack.Action} {actions : List NetworkStack.Action} {table : PeerTable} {peer : PeerId}
variable {dropped : List PeerId}

/-- The peer manager knows whom the tasks set a state of, and no connection is to be ended. -/
structure Kept (s : NetworkStack) : Prop where
  enrolled : ∀ c ∈ s.service.connections, Enrolled s.service.peerManager c.peerId c.stage
  commands : ∀ command ∈ s.service.commands, ∀ peer, command ≠ .disconnect peer
  outgoing : ∀ sent ∈ s.outgoing, Harmless sent

/-- A step of the router or of the sync protocol, which is known to have come once its events have. The sync protocol
may drop peers of its own accord. -/
structure Aside (dropped : List PeerId) (s t : NetworkStack) : Prop where
  config : t.service.config = s.service.config
  peers : t.service.peers = s.service.peers
  connections : t.service.connections = s.service.connections
  manager : t.service.peerManager = s.service.peerManager
  listed : ∀ (table : PeerTable) peer, table.listed t peer = table.listed s peer ∨
    (table = .sync ∧ peer ∈ dropped) ∧ table.listed t peer = false

theorem Kept.unstruck {action : NetworkService.Action} (kept : Kept s) : striking s.service action = none := by
  cases action with
  | command time sessionId order =>
      unfold striking
      cases queue : s.service.commands with
      | nil => rfl
      | cons command rest =>
          have other := kept.commands command (queue ▸ List.mem_cons_self)
          cases command with
          | disconnect peer => exact absurd rfl (other peer)
          | _ => rfl
  | _ => rfl

theorem Aside.enrolled (aside : Aside dropped s t) (kept : Kept s) :
    ∀ c ∈ t.service.connections, Enrolled t.service.peerManager c.peerId c.stage := by
  rw [aside.connections, aside.manager]
  exact kept.enrolled

theorem Aside.moves (aside : Aside dropped s t) :
    Roster.Moves (table = .sync ∧ peer ∈ dropped) (table.roster s peer) (table.roster t peer) := by
  have held : (table.roster t peer).held = (table.roster s peer).held := by
    unfold PeerTable.roster
    rw [aside.connections]
  rcases aside.listed table peer with same | ⟨own, gone⟩
  · exact .kept held same
  · exact .dropped own held gone

theorem aside_begin {turn : EventRouter × List EventRouter.Outgoing} (empty : s.outgoing = [])
    (same : turn.1.peerAddresses = s.router.peerAddresses) (silent : turn.2.filterMap outgoingArrival = []) :
    Aside [] s (s.begin turn) where
  config := rfl
  peers := rfl
  connections := rfl
  manager := rfl
  listed := by
    refine fun table peer => .inl ?_
    cases table with
    | service | manager => rfl
    | router =>
        unfold PeerTable.listed NetworkStack.begin
        rw [same]
    | sync =>
        unfold PeerTable.listed NetworkStack.begin
        rw [silent, empty]
        rfl

theorem aside_event {now : Nat} {order : Iteration PeerId SocketAddr} {event : NetworkEvent} {events : List NetworkEvent}
    (empty : s.outgoing = []) (queued : s.service.events = event :: events) :
    Aside [] s ({ s with service := { s.service with events } }.begin (s.router.onEvent now order event)) where
  config := rfl
  peers := rfl
  connections := rfl
  manager := rfl
  listed := by
    refine fun table peer => .inl ?_
    cases table with
    | service | manager => rfl
    | router =>
        dsimp only [PeerTable.listed, NetworkStack.begin]
        rw [mem_onEvent, queued, filterMap_cons_toList, settled_append]
    | sync =>
        dsimp only [PeerTable.listed, NetworkStack.begin]
        rw [outgoing_onEvent.1, empty, queued, filterMap_cons_toList, List.filterMap_nil, List.append_nil,
          List.append_assoc]

theorem aside_queues {commands : List NetworkCommand} {outgoing : List EventRouter.Outgoing}
    {toSync : List EventRouter.SyncEvent}
    (same : toSync.filterMap syncArrival ++ outgoing.filterMap outgoingArrival =
      s.toSync.filterMap syncArrival ++ s.outgoing.filterMap outgoingArrival) :
    Aside [] s { s with service := { s.service with commands }, outgoing, toSync } where
  config := rfl
  peers := rfl
  connections := rfl
  manager := rfl
  listed := by
    refine fun table peer => .inl ?_
    cases table with
    | sync =>
        dsimp only [PeerTable.listed]
        rw [same]
    | _ => rfl

theorem kept_dispatch (kept : Kept s) (taken : s.dispatch = some t) : Kept t ∧ Aside [] s t := by
  unfold NetworkStack.dispatch at taken
  have harmless := kept.outgoing
  split at taken
  · cases taken
  · next command rest sending =>
      rw [sending] at harmless
      obtain ⟨head, tail⟩ := List.forall_mem_cons.mp harmless
      split at taken <;> cases taken
      have aside := @aside_queues s (s.service.commands ++ [command]) rest s.toSync (by rw [sending]; rfl)
      refine ⟨⟨aside.enrolled kept, ?_, tail⟩, aside⟩
      intro other member
      rcases List.mem_append.mp member with old | new
      · exact kept.commands other old
      · exact List.mem_singleton.mp new ▸ head
  · next event rest sending =>
      rw [sending] at harmless
      obtain ⟨-, tail⟩ := List.forall_mem_cons.mp harmless
      split at taken <;> cases taken
      have aside := @aside_queues s s.service.commands rest (s.toSync ++ [event]) (by
        rw [sending, filterMap_cons_toList, List.filterMap_append, filterMap_cons_toList]
        simp [outgoingArrival])
      exact ⟨⟨aside.enrolled kept, kept.commands, tail⟩, aside⟩
  · next rest sending =>
      rw [sending] at harmless
      obtain ⟨-, tail⟩ := List.forall_mem_cons.mp harmless
      cases taken
      have aside := @aside_queues s s.service.commands rest s.toSync (by rw [sending]; rfl)
      exact ⟨⟨aside.enrolled kept, kept.commands, tail⟩, aside⟩
  · next event events rest sending =>
      rw [sending] at harmless
      obtain ⟨head, tail⟩ := List.forall_mem_cons.mp harmless
      obtain ⟨silent, later⟩ := List.forall_mem_cons.mp head
      split at taken <;> cases taken
      · have aside := @aside_queues s s.service.commands (.trySync events :: rest) (s.toSync ++ [event]) (by
          rw [sending, List.filterMap_append, List.filterMap_cons_none silent, List.filterMap_nil, List.append_nil]
          rfl)
        exact ⟨⟨aside.enrolled kept, kept.commands, List.forall_mem_cons.mpr ⟨later, tail⟩⟩, aside⟩
      · have aside := @aside_queues s s.service.commands rest s.toSync (by rw [sending]; rfl)
        exact ⟨⟨aside.enrolled kept, kept.commands, tail⟩, aside⟩

theorem aside_sync {now : Int} {unresponsive : List PeerId} {more : Option (Iteration PeerId PeerSyncState)}
    {event : EventRouter.SyncEvent} {toSync : List EventRouter.SyncEvent} (queued : s.toSync = event :: toSync) :
    Aside unresponsive s { s with toSync, exchange := s.onSyncEvent sr now unresponsive more event } where
  config := rfl
  peers := rfl
  connections := rfl
  manager := rfl
  listed := by
    intro table peer
    cases table with
    | sync =>
        dsimp only [PeerTable.listed]
        rw [queued, filterMap_cons_toList]
        simp only [List.append_assoc]
        generalize toSync.filterMap syncArrival ++ _ = coming
        rcases @mem_onSyncEvent sr now peer s unresponsive more event with same | ⟨slow, silent, gone⟩
        · rw [same, settled_append]
          exact .inl rfl
        · -- what is still to come decides, unless it says nothing of the peer
          rw [gone, silent, Option.toList_none, List.nil_append]
          cases later : settled peer false coming with
          | true => exact .inl (settled_of_unlisted later).symm
          | false => exact .inr ⟨⟨trivial, slow⟩, rfl⟩
    | _ => exact .inl rfl

theorem kept_begin {turn : EventRouter × List EventRouter.Outgoing} (kept : Kept s) (empty : s.outgoing.isEmpty = true)
    (same : turn.1.peerAddresses = s.router.peerAddresses) (silent : turn.2.filterMap outgoingArrival = [])
    (harmless : ∀ sent ∈ turn.2, Harmless sent) : Kept (s.begin turn) ∧ Aside [] s (s.begin turn) := by
  have aside := aside_begin (List.isEmpty_iff.mp empty) same silent
  exact ⟨⟨aside.enrolled kept, kept.commands, harmless⟩, aside⟩

theorem kept_event {now : Nat} {order : Iteration PeerId SocketAddr}
    (kept : Kept s) (taken : s.step blake2b256 json sr (.event now order) = some t) : Kept t ∧ Aside [] s t := by
  unfold NetworkStack.step at taken
  dsimp only at taken
  split at taken
  · next event events empty queued =>
      cases taken
      have aside := @aside_event s now order event events empty queued
      exact ⟨⟨aside.enrolled kept, kept.commands, outgoing_onEvent.2⟩, aside⟩
  · cases taken

theorem kept_sync {now : Int} {unresponsive : List PeerId} {more : Option (Iteration PeerId PeerSyncState)}
    (kept : Kept s) (taken : s.step blake2b256 json sr (.sync now unresponsive more) = some t) :
    Kept t ∧ Aside unresponsive s t := by
  unfold NetworkStack.step at taken
  dsimp only at taken
  split at taken
  · cases taken
  · next event toSync queued =>
      cases taken
      have aside := @aside_sync sr s now unresponsive more event toSync queued
      exact ⟨⟨aside.enrolled kept, kept.commands, kept.outgoing⟩, aside⟩

/-- The peers that a step drops from the sync protocol's. -/
def droppedBy : NetworkStack.Action → List PeerId
  | .sync _ unresponsive _ => unresponsive
  | _ => []

/-- What a step of the stack can be. -/
theorem kept_step (kept : Kept s) (taken : s.step blake2b256 json sr action = some t) :
    Kept t ∧ ((∃ moved service, action = .service moved ∧ Shifts s.service moved service ∧ { s with service } = t) ∨
      Aside (droppedBy action) s t) := by
  cases action with
  | service action =>
      obtain ⟨service, next, rfl⟩ := Option.map_eq_some_iff.mp taken
      have shifts := shifts_of_step next
      refine ⟨⟨shifts.enrolled kept.enrolled, ?_, kept.outgoing⟩, .inl ⟨action, service, rfl, shifts, rfl⟩⟩
      exact fun command member => kept.commands command (shifts.commands member)
  | event now order => exact (kept_event kept taken).imp_right .inr
  | reconnect now queueOrder discoveredOrder =>
      obtain ⟨empty, next⟩ := Option.ite_none_right_eq_some.mp taken
      cases next
      obtain ⟨same, silent, harmless⟩ := @onReconnectTick_spec s.router now queueOrder discoveredOrder
      exact (kept_begin kept empty same silent harmless).imp_right .inr
  | tick =>
      obtain ⟨empty, next⟩ := Option.ite_none_right_eq_some.mp taken
      cases next
      refine (kept_begin kept empty rfl rfl ?_).imp_right .inr
      simp [Harmless, syncArrival]
  | relay receiver message =>
      obtain ⟨empty, next⟩ := Option.ite_none_right_eq_some.mp taken
      cases next
      refine (kept_begin kept empty rfl rfl ?_).imp_right .inr
      cases receiver <;> simp [Harmless]
  | report event =>
      obtain ⟨empty, next⟩ := Option.ite_none_right_eq_some.mp taken
      cases next
      refine (kept_begin kept empty rfl rfl ?_).imp_right .inr
      simp [Harmless]
  | dispatch => exact (kept_dispatch kept taken).imp_right .inr
  | sync now unresponsive more => exact (kept_sync kept taken).imp_right .inr
  | headersChanged heights ourBestHeaders =>
      cases taken
      have aside : Aside [] s { s with exchange := s.exchange.perform sr 0 (.headersChanged heights ourBestHeaders) } :=
        ⟨rfl, rfl, rfl, rfl, fun table peer => .inl (by cases table <;> rfl)⟩
      exact ⟨⟨aside.enrolled kept, kept.commands, kept.outgoing⟩, .inr aside⟩

theorem moves_step (kept : Kept s) (taken : s.step blake2b256 json sr action = some t) :
    Roster.Moves (table = .sync ∧ peer ∈ droppedBy action) (table.roster s peer) (table.roster t peer) := by
  obtain ⟨action, service, rfl, shifts, rfl⟩ | aside := (kept_step kept taken).2
  · exact moves_shifts shifts kept.unstruck kept.enrolled
  · exact aside.moves

theorem frame_dispatch (taken : s.dispatch = some t) : t.router = s.router := by
  unfold NetworkStack.dispatch at taken
  split at taken
  · cases taken
  · split at taken <;> cases taken
    rfl
  · split at taken <;> cases taken
    rfl
  · cases taken
    rfl
  · split at taken <;> cases taken <;> rfl

theorem router_step {Inv : EventRouter → Prop}
    (events : ∀ {router now order event}, Inv router → Inv (EventRouter.onEvent now router order event).1)
    (ticks : ∀ {router now queueOrder discoveredOrder},
      Inv router → Inv (EventRouter.onReconnectTick now router queueOrder discoveredOrder).1)
    (holds : Inv s.router) (taken : s.step blake2b256 json sr action = some t) : Inv t.router := by
  unfold NetworkStack.step at taken
  cases action with
  | service action =>
      obtain ⟨service, -, rfl⟩ := Option.map_eq_some_iff.mp taken
      exact holds
  | event now order =>
      dsimp only at taken
      split at taken <;> cases taken
      exact events holds
  | reconnect now queueOrder discoveredOrder =>
      dsimp only at taken
      split at taken <;> cases taken
      exact ticks holds
  | tick | relay | report | sync =>
      dsimp only at taken
      split at taken <;> cases taken
      exact holds
  | dispatch =>
      rw [frame_dispatch taken]
      exact holds
  | headersChanged heights ourBestHeaders =>
      cases taken
      exact holds

/-! ### Runs -/

variable {config : NetworkConfig} {manager : PeerManager} {knownPeers : List SocketAddr}

theorem kept_new : Kept (.new config manager knownPeers) where
  enrolled := fun _ member => absurd member List.not_mem_nil
  commands := by
    rintro command member peer rfl
    obtain ⟨addr, -, same⟩ := List.mem_map.mp member
    cases same
  outgoing := fun _ member => absurd member List.not_mem_nil

theorem listed_new (fresh : manager.connected = []) : table.listed (.new config manager knownPeers) peer = false := by
  cases table with
  | manager =>
      dsimp only [PeerTable.listed, NetworkStack.new, NetworkService.new]
      rw [fresh]
      rfl
  | _ => rfl

variable (blake2b256 json sr config manager knownPeers)

/-- A peer that is taken to be connected has a task that is at work with it, or has panicked. -/
theorem listed_held (actions : List NetworkStack.Action) (fresh : manager.connected = [])
    (ran : run (NetworkStack.step blake2b256 json sr) (.new config manager knownPeers) actions = some t)
    (table : PeerTable) (peer : PeerId) (listed : table.listed t peer = true) :
    ∃ c ∈ t.service.connections, c.peerId = peer ∧ table.holds c.stage = true := by
  have always : Always (NetworkStack.step blake2b256 json sr) (fun s => Kept s ∧ (table.roster s peer).Sound)
      (.new config manager knownPeers) actions := by
    refine always_of_step ?_ ⟨kept_new, fun listed => ?_⟩
    · rintro s a u ⟨kept, sound⟩ taken
      exact ⟨(kept_step kept taken).1, sound.moves (moves_step kept taken)⟩
    · cases (listed_new fresh).symm.trans listed
  obtain ⟨-, sound⟩ := always t ⟨actions, List.prefix_rfl, ran⟩
  exact Roster.heldBy_pos_iff.mp (sound listed)

/-- No two tasks have the same peer in the table. -/
def Once (table : PeerTable) (s : NetworkStack) : Prop := ∀ peer, (table.roster s peer).held ≤ 1

/-- Where no two tasks have the same peer, every peer with a task that is at work is taken to be connected, unless
the sync protocol has found it unresponsive. -/
theorem listed_iff_held (actions : List NetworkStack.Action) (fresh : manager.connected = [])
    (ran : run (NetworkStack.step blake2b256 json sr) (.new config manager knownPeers) actions = some t)
    (table : PeerTable) (peer : PeerId)
    (once : Always (NetworkStack.step blake2b256 json sr) (Once table) (.new config manager knownPeers) actions)
    (spared : table = .sync → ∀ action ∈ actions, peer ∉ droppedBy action) :
    table.listed t peer = true ↔ ∃ c ∈ t.service.connections, c.peerId = peer ∧ table.holds c.stage = true := by
  obtain ⟨-, single⟩ := always_iff.mp once
  have keeps : Along (NetworkStack.step blake2b256 json sr) (fun _ action => ¬ (table = .sync ∧ peer ∈ droppedBy action))
      (.new config manager knownPeers) actions :=
    (along_actions ran).mpr fun action member drops => spared drops.1 action member drops.2
  have always : Always (NetworkStack.step blake2b256 json sr) (fun s => Kept s ∧ (table.roster s peer).Exact)
      (.new config manager knownPeers) actions := by
    refine (single.and keeps).invariant _ ?_ ⟨kept_new, ?_⟩
    · rintro s a u ⟨kept, exact⟩ ⟨once, keeps⟩ taken
      exact ⟨(kept_step kept taken).1, exact.moves (moves_step kept taken) keeps (once u taken peer)⟩
    · unfold Roster.Exact PeerTable.roster
      rw [listed_new fresh]
      rfl
  obtain ⟨-, exact⟩ := always t ⟨actions, List.prefix_rfl, ran⟩
  exact exact.listed_iff

/-- Where a connection is started only while fewer than `k` are not entered yet, the peers that are entered and those
connections exceed the limit by less than `k`. -/
theorem peers_le (k : Nat) (actions : List NetworkStack.Action)
    (few : Along (NetworkStack.step blake2b256 json sr)
      (fun s action => ∀ moved, action = .service moved → starting s.service moved ≠ none → shaking s.service < k)
      (.new config manager knownPeers) actions)
    (ran : run (NetworkStack.step blake2b256 json sr) (.new config manager knownPeers) actions = some t) :
    t.service.peers.entries.length + shaking t.service ≤ config.maxConnections - 1 + k := by
  have always : Always (NetworkStack.step blake2b256 json sr)
      (fun s => Kept s ∧ s.service.config = config ∧
        s.service.peers.entries.length + shaking s.service ≤ config.maxConnections - 1 + k)
      (.new config manager knownPeers) actions := by
    refine Along.invariant _ ?_ ⟨kept_new, rfl, Nat.zero_le _⟩ few
    rintro s a u ⟨kept, same, below⟩ room taken
    obtain ⟨after, ⟨moved, service, rfl, shifts, rfl⟩ | aside⟩ := kept_step kept taken
    · have within := limit_shifts shifts (room moved rfl) (same ▸ below)
      rw [same] at within
      exact ⟨after, within⟩
    · refine ⟨after, aside.config.trans same, ?_⟩
      unfold shaking at below ⊢
      rw [aside.peers, aside.connections]
      exact below
  exact (always t ⟨actions, List.prefix_rfl, ran⟩).2.2

/-- What events and ticks preserve holds of the router whatever happens. -/
theorem router_run {Inv : EventRouter → Prop}
    (events : ∀ {router now order event}, Inv router → Inv (EventRouter.onEvent now router order event).1)
    (ticks : ∀ {router now queueOrder discoveredOrder},
      Inv router → Inv (EventRouter.onReconnectTick now router queueOrder discoveredOrder).1)
    (start : Inv .new) (actions : List NetworkStack.Action)
    (ran : run (NetworkStack.step blake2b256 json sr) (.new config manager knownPeers) actions = some t) :
    Inv t.router := by
  have always : Always (NetworkStack.step blake2b256 json sr) (fun s => Inv s.router)
      (.new config manager knownPeers) actions :=
    always_of_step (fun holds taken => router_step events ticks holds taken) start
  exact always t ⟨actions, List.prefix_rfl, ran⟩

theorem agrees_run (actions : List NetworkStack.Action)
    (ran : run (NetworkStack.step blake2b256 json sr) (.new config manager knownPeers) actions = some t) :
    RouterAgrees t.router :=
  router_run blake2b256 json sr config manager knownPeers (fun agrees => agrees.onEvent)
    (fun agrees => agrees.onReconnectTick) agrees_new actions ran

/-- A peer that asks for peers is told of the other ones, up to the limit; and if these are not more, it has then
heard of exactly their addresses, besides those that it had heard of and without those that it is connected to. -/
theorem peers_told (actions : List NetworkStack.Action)
    (ran : run (NetworkStack.step blake2b256 json sr) (.new config manager knownPeers) actions = some t)
    (order : Iteration PeerId SocketAddr) (peerId : PeerId) :
    (t.router.knownPeers order peerId).length = min EventRouter.maxSharedPeers (others t.router peerId) ∧
    (∀ spec ∈ t.router.knownPeers order peerId, ∃ id addr handshake, id ≠ peerId ∧
      t.router.peerAddresses.lookup id = some addr ∧ t.router.peerHandshakes.lookup id = some handshake ∧
      spec = EventRouter.sharedPeer addr handshake) ∧
    (others t.router peerId ≤ EventRouter.maxSharedPeers → ∀ (receiver : EventRouter) (other : SocketAddr),
      other ∈ ((t.router.knownPeers order peerId).foldl EventRouter.discover receiver).discoveredPeers ↔
        other ∈ receiver.discoveredPeers ∨ ¬ receiver.isConnected other ∧
          ∃ id addr, id ≠ peerId ∧ t.router.peerAddresses.lookup id = some addr ∧ told addr = other) := by
  have agrees := agrees_run blake2b256 json sr config manager knownPeers actions ran
  exact ⟨length_knownPeers agrees, fun _ known => mem_knownPeers known, fun few _ _ => discovered_iff agrees few⟩

/-- Whatever has happened, a tick tries a peer again only when its time to wait since its last failure is over, and
not after too many failures; and it tries no address that it has heard of from others while that is connected. -/
theorem tries_again (actions : List NetworkStack.Action)
    (ran : run (NetworkStack.step blake2b256 json sr) (.new config manager knownPeers) actions = some t)
    (now : Nat) (queueOrder : Iteration SocketAddr ReconnectInfo) (discoveredOrder : Iteration SocketAddr Unit)
    (addr : SocketAddr)
    (sent : .command (.connect addr) ∈ (t.router.onReconnectTick now queueOrder discoveredOrder).2) :
    (t.router.peerAddresses.entries.length < EventRouter.minConnections ∧
      ∃ info, t.router.reconnectQueue.lookup addr = some info ∧ info.attempts < maxReconnectAttempts ∧
        (info.attempts = 0 ∨ info.lastAttempt + info.backoffDuration ≤ now)) ∨
    (t.router.peerAddresses.entries.length < EventRouter.maxConnections ∧ addr ∈ t.router.discoveredPeers ∧
      ¬ t.router.isConnected addr) := by
  have agrees := agrees_run blake2b256 json sr config manager knownPeers actions ran
  have queue : QueueWaits t.router :=
    router_run blake2b256 json sr config manager knownPeers (fun queue => queue.onEvent)
      (fun queue => queue.onReconnectTick) nofun actions ran
  exact connects_onReconnectTick agrees queue sent

end Stack

section Samples
open Sample

def shortHandshake : HandshakeData := .new 0 "ergo" protocolVersion "node"

def greeted : List NetworkStack.Action :=
  [.service (.accept (.v4 0 9030) 0 0), .service (.task 0 0 (.read (.bytes shortHandshake.serialize))),
    .service (.task 0 0 (.write .done)), .service (.task 0 0 .proceed)]

def noHash (_ : Bytes) : Digest32 := ⟨List.replicate 32 0, rfl⟩

abbrev stackStep : NetworkStack → NetworkStack.Action → Option NetworkStack := NetworkStack.step noHash noJson chainCodec

def freshStack : NetworkStack := .new .default (.new PeerManager.defaultBanDuration) []

def greetedStack : NetworkStack := (run stackStep freshStack greeted).getD freshStack

theorem greeted_ran : run stackStep freshStack greeted = some greetedStack := rfl

theorem greetedStack_listed : PeerTable.listed greetedStack (.fromAddr (.v4 0 9030)) .service = true := by
  have entered : greetedStack.service.peers =
      (∅ : Table PeerId PeerHandle).insert (.fromAddr (.v4 0 9030)) ⟨0, .new 0 (.v4 0 9030)⟩ := rfl
  unfold PeerTable.listed
  rw [entered]
  exact decide_eq_true ((AList.mem_insert _).mpr (.inl rfl))

theorem greeted_held : ∃ c ∈ greetedStack.service.connections,
    c.peerId = .fromAddr (.v4 0 9030) ∧ PeerTable.holds .service c.stage = true :=
  listed_held noHash noJson chainCodec .default _ [] greeted rfl greeted_ran .service _ greetedStack_listed

theorem once_of_few {s : NetworkStack} {table : PeerTable} (few : s.service.connections.length ≤ 1) : Once table s :=
  fun _ => Nat.le_trans List.countP_le_length few

theorem greeted_few : Along stackStep
    (fun s action => ∀ moved, action = .service moved → starting s.service moved ≠ none → shaking s.service < 1)
    freshStack greeted := by
  unfold greeted
  refine along_cons.mpr ⟨fun _ _ _ => Nat.one_pos, fun t taken => ?_⟩
  obtain rfl := Option.some.inj taken
  iterate 3
    refine along_cons.mpr ⟨?_, fun t taken => ?_⟩
    · rintro moved ⟨⟩ started
      exact absurd rfl started
    obtain rfl := Option.some.inj taken
  exact along_nil

theorem greeted_le : greetedStack.service.peers.entries.length + shaking greetedStack.service ≤
    NetworkConfig.default.maxConnections - 1 + 1 :=
  peers_le noHash noJson chainCodec .default _ [] 1 greeted greeted_few greeted_ran

def addressOrder : Iteration PeerId SocketAddr := ⟨_, fun _ => .rfl⟩

def announced : List NetworkStack.Action :=
  [.service (.task 0 0 .proceed), .service (.task 0 0 .proceed), .service (.task 0 0 .proceed), .event 0 addressOrder]

def announcedStack : NetworkStack := (run stackStep greetedStack announced).getD greetedStack

theorem announced_ran : run stackStep freshStack (greeted ++ announced) = some announcedStack := by
  rw [run_append, greeted_ran]
  rfl

def enlisted : List NetworkStack.Action :=
  [.dispatch, .dispatch, .sync 0 [] none, .tick, .dispatch, .sync 0 [[1]] none]

def enlistedStack : NetworkStack := (run stackStep announcedStack enlisted).getD announcedStack

theorem enlisted_ran : run stackStep freshStack (greeted ++ announced ++ enlisted) = some enlistedStack := by
  rw [run_append, announced_ran]
  rfl

theorem enlisted_once : Always stackStep (Once .sync) freshStack (greeted ++ announced ++ enlisted) := by
  refine always_iff.mpr ⟨once_of_few (Nat.zero_le 1), ?_⟩
  unfold greeted announced enlisted
  iterate 14
    refine along_cons.mpr ⟨fun t taken => ?_, fun t taken => ?_⟩
    · obtain rfl := Option.some.inj taken
      exact once_of_few (Nat.le_refl 1)
    obtain rfl := Option.some.inj taken
  exact along_nil

theorem enlisted_listed_iff : PeerTable.listed enlistedStack (.fromAddr (.v4 0 9030)) .sync = true ↔
    ∃ c ∈ enlistedStack.service.connections, c.peerId = .fromAddr (.v4 0 9030) ∧ PeerTable.holds .sync c.stage = true :=
  listed_iff_held noHash noJson chainCodec .default _ [] (greeted ++ announced ++ enlisted) rfl enlisted_ran .sync _
    enlisted_once fun _ => by decide

theorem announced_told : others announcedStack.router [] = 1 ∧
    (announcedStack.router.knownPeers addressOrder []).length =
      min EventRouter.maxSharedPeers (others announcedStack.router []) :=
  ⟨by decide, (peers_told noHash noJson chainCodec .default _ [] (greeted ++ announced) announced_ran addressOrder []).1⟩

def refused : List NetworkStack.Action :=
  [.service (.command 0 0 ⟨_, fun _ => .rfl⟩), .service (.task 0 0 (.connect (.error "refused"))),
    .service (.task 0 0 .proceed), .event 0 addressOrder]

def knowingStack : NetworkStack := .new .default (.new PeerManager.defaultBanDuration) [.v4 0 9030]

def refusedStack : NetworkStack := (run stackStep knowingStack refused).getD knowingStack

theorem refused_ran : run stackStep knowingStack refused = some refusedStack := rfl

theorem refused_tried : .command (.connect (.v4 0 9030)) ∈
    (refusedStack.router.onReconnectTick (10 * 10 ^ 9) ⟨_, fun _ => .rfl⟩ ⟨_, fun _ => .rfl⟩).2 := by
  decide

theorem refused_again : ∃ info, refusedStack.router.reconnectQueue.lookup (.v4 0 9030) = some info ∧
    info.attempts < maxReconnectAttempts ∧ (info.attempts = 0 ∨ info.lastAttempt + info.backoffDuration ≤ 10 * 10 ^ 9) := by
  have tried := tries_again noHash noJson chainCodec .default _ [.v4 0 9030] refused refused_ran (10 * 10 ^ 9)
    ⟨_, fun _ => .rfl⟩ ⟨_, fun _ => .rfl⟩ (.v4 0 9030) refused_tried
  rcases tried with ⟨-, again⟩ | ⟨-, heard, -⟩
  · exact again
  · exact absurd heard (AList.notMem_empty _)

end Samples
end ErgoNode.Proof.Network
