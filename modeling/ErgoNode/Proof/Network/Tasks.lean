import ErgoNode.Lib.Threads
import ErgoNode.Network.Service

/-!
# Connection tasks

What a step of a task can be, and what a step of the service does to the tasks and the tables. The limit of
connections holds up to the tasks that are exchanging handshakes.
-/

namespace ErgoNode.Proof.Network
open Lib PeerConnection

/-! ### One task -/

def pending : Stage → Bool
  | .connecting | .greeting | .handshaking _ | .answering _ | .registering _ => true
  | _ => false

def working : Stage → Bool
  | .looping _ | .delivering _ _ | .removing | .panicked => true
  | _ => false

def ended : Stage → Bool
  | .failing _ | .finished => true
  | _ => false

/-- The ways of a task, with what it does on them. -/
inductive Passes (addr : SocketAddr) : Stage → Stage → Effect → Prop where
  | early {stage after : Stage} (before : pending stage) (later : pending after ∨ ended after) :
      Passes addr stage after .quiet
  | register (theirs : HandshakeData) (info : PeerInfo) (own : info.id = .fromAddr addr) :
      Passes addr (.registering theirs) (.adding theirs info) (.register info)
  | add (theirs : HandshakeData) (info : PeerInfo) : Passes addr (.adding theirs info) (.marking theirs) (.addPeer info)
  | mark (theirs : HandshakeData) : Passes addr (.marking theirs) (.announcing theirs) (.setState .connected)
  | announce (theirs : HandshakeData) : Passes addr (.announcing theirs) (.looping [])
      (.emit (.peerConnected (.fromAddr addr) addr theirs.toHandshake))
  | work {stage after : Stage} (before : working stage) (later : working after) : Passes addr stage after .quiet
  | deliver (message : Message) (buffer : Bytes) : Passes addr (.delivering message buffer) (.looping buffer)
      (.emit (.messageReceived (.fromAddr addr) message))
  | remove : Passes addr .removing .unmarking .unregister
  | unmark : Passes addr .unmarking .leaving (.setState .disconnected)
  | leave : Passes addr .leaving .finished (.emit (.peerDisconnected (.fromAddr addr)))
  | fail (error : String) : Passes addr (.failing error) .finished (.emit (.connectionFailed addr error))

section Task
variable {blake2b256 : Bytes → Digest32} {json : SerdeJson} {magic : Octets 4} {now : Nat} {step : TaskStep}
variable {c after : PeerConnection} {effect : Effect} {buffer : Bytes} {stage : Stage}

theorem fail_ended (error : String) : ended (c.fail error) := by
  unfold PeerConnection.fail
  split <;> rfl

theorem readHandshake_stage : pending (c.readHandshake buffer) ∨ ended (c.readHandshake buffer) := by
  unfold PeerConnection.readHandshake
  split
  · exact .inr (fail_ended _)
  · split
    · split
      · split
        · exact .inl rfl
        · exact .inl rfl
      · exact .inr rfl
      · exact .inl rfl
    · exact .inl rfl

theorem onHandshakeRead_stage {result : StreamRead} (read : c.onHandshakeRead buffer result = some stage) :
    pending stage ∨ ended stage := by
  unfold onHandshakeRead at read
  split at read
  · exact .inr (Option.some.inj read ▸ fail_ended _)
  · split at read
    · exact Option.some.inj read ▸ readHandshake_stage
    · cases read
  · exact .inr (Option.some.inj read ▸ fail_ended _)
  · exact .inr (Option.some.inj read ▸ fail_ended _)

theorem nextFrame_stage (taken : nextFrame blake2b256 json magic buffer = some stage) : working stage := by
  unfold nextFrame at taken
  split at taken <;> cases taken <;> rfl

theorem onFrameRead_stage {result : StreamRead} (read : onFrameRead buffer result = some stage) : working stage := by
  unfold onFrameRead at read
  split at read <;> cases read <;> rfl

theorem sendNext_stage {result : StreamWrite} (sent : c.sendNext blake2b256 json magic buffer result = some after) :
    after.addr = c.addr ∧ working after.stage := by
  unfold PeerConnection.sendNext at sent
  split at sent
  · cases sent
  · split at sent <;> cases sent <;> exact ⟨rfl, rfl⟩

theorem writeHandshake_stage {next : Stage} {result : StreamWrite} (later : pending next) :
    (c.writeHandshake next result).addr = c.addr ∧
      (pending (c.writeHandshake next result).stage ∨ ended (c.writeHandshake next result).stage) := by
  unfold writeHandshake
  split
  · exact ⟨rfl, .inl later⟩
  · exact ⟨rfl, .inr (fail_ended _)⟩

theorem passes_of_connect {result : Except String Unit}
    (taken : c.next blake2b256 json magic now (.connect result) = some (after, effect)) :
    after.addr = c.addr ∧ Passes c.addr c.stage after.stage effect := by
  unfold PeerConnection.next at taken
  dsimp only at taken
  split at taken <;> cases taken
  · next stage => exact ⟨rfl, .early (by simp [stage, pending]) (.inl rfl)⟩
  · next stage => exact ⟨rfl, .early (by simp [stage, pending]) (.inr rfl)⟩

theorem passes_of_write {result : StreamWrite}
    (taken : c.next blake2b256 json magic now (.write result) = some (after, effect)) :
    after.addr = c.addr ∧ Passes c.addr c.stage after.stage effect := by
  unfold PeerConnection.next at taken
  dsimp only at taken
  split at taken <;> cases taken
  · next stage =>
      obtain ⟨same, later⟩ := @writeHandshake_stage c (.handshaking []) result rfl
      exact ⟨same, .early (by simp [stage, pending]) later⟩
  · next theirs stage =>
      obtain ⟨same, later⟩ := @writeHandshake_stage c (.registering theirs) result rfl
      exact ⟨same, .early (by simp [stage, pending]) later⟩

theorem passes_of_read {result : StreamRead}
    (taken : c.next blake2b256 json magic now (.read result) = some (after, effect)) :
    after.addr = c.addr ∧ Passes c.addr c.stage after.stage effect := by
  unfold PeerConnection.next at taken
  dsimp only at taken
  split at taken
  · next buffer here =>
      obtain ⟨stage, read, same⟩ := Option.map_eq_some_iff.mp taken
      cases same
      exact ⟨rfl, .early (by simp [here, pending]) (onHandshakeRead_stage read)⟩
  · next buffer here =>
      split at taken
      · obtain ⟨stage, read, same⟩ := Option.map_eq_some_iff.mp taken
        cases same
        exact ⟨rfl, .work (by simp [here, working]) (onFrameRead_stage read)⟩
      · cases taken
  · cases taken

theorem passes_of_send {result : StreamWrite}
    (taken : c.next blake2b256 json magic now (.send result) = some (after, effect)) :
    after.addr = c.addr ∧ Passes c.addr c.stage after.stage effect := by
  unfold PeerConnection.next at taken
  dsimp only at taken
  split at taken
  · next buffer here =>
      obtain ⟨sent, found, same⟩ := Option.map_eq_some_iff.mp taken
      cases same
      obtain ⟨addr, later⟩ := sendNext_stage found
      exact ⟨addr, .work (by simp [here, working]) later⟩
  · cases taken

theorem passes_of_proceed (taken : c.next blake2b256 json magic now .proceed = some (after, effect)) :
    after.addr = c.addr ∧ Passes c.addr c.stage after.stage effect := by
  unfold PeerConnection.next at taken
  dsimp only at taken
  split at taken
  · next theirs here =>
      cases taken
      exact ⟨rfl, here ▸ .register theirs _ rfl⟩
  · next theirs info here =>
      cases taken
      exact ⟨rfl, here ▸ .add theirs info⟩
  · next theirs here =>
      cases taken
      exact ⟨rfl, here ▸ .mark theirs⟩
  · next theirs here =>
      cases taken
      exact ⟨rfl, here ▸ .announce theirs⟩
  · next buffer here =>
      obtain ⟨stage, found, same⟩ := Option.map_eq_some_iff.mp taken
      cases same
      exact ⟨rfl, .work (by simp [here, working]) (nextFrame_stage found)⟩
  · next message buffer here =>
      cases taken
      exact ⟨rfl, here ▸ .deliver message buffer⟩
  · next here =>
      cases taken
      exact ⟨rfl, here ▸ .remove⟩
  · next here =>
      cases taken
      exact ⟨rfl, here ▸ .unmark⟩
  · next here =>
      cases taken
      exact ⟨rfl, here ▸ .leave⟩
  · next error here =>
      cases taken
      exact ⟨rfl, here ▸ .fail error⟩
  · cases taken

/-- What a step of a task can be. -/
theorem passes_of_next (taken : c.next blake2b256 json magic now step = some (after, effect)) :
    after.addr = c.addr ∧ Passes c.addr c.stage after.stage effect := by
  cases step with
  | connect result => exact passes_of_connect taken
  | write result => exact passes_of_write taken
  | read result => exact passes_of_read taken
  | send result => exact passes_of_send taken
  | proceed => exact passes_of_proceed taken

end Task

/-! ### The service -/

section Service
open NetworkService
variable {blake2b256 : Bytes → Digest32} {json : SerdeJson} {s t : NetworkService} {action : NetworkService.Action}

def starting (s : NetworkService) : NetworkService.Action → Option SocketAddr
  | .accept addr _ _ => some addr
  | .command _ _ _ => s.commands.head?.bind fun command =>
      match command with
      | .connect addr => some addr
      | _ => none
  | _ => none

def striking (s : NetworkService) : NetworkService.Action → Option PeerId
  | .command _ _ _ => s.commands.head?.bind fun command =>
      match command with
      | .disconnect peerId => some peerId
      | _ => none
  | _ => none

/-- What a step of the service does to the connections and the tables. -/
inductive Shifts (s : NetworkService) (action : NetworkService.Action) (t : NetworkService) : Prop where
  | start (c : PeerConnection) (of : starting s action = some c.addr) (fresh : pending c.stage)
      (room : s.peers.entries.length < s.config.maxConnections) (fewer : t.commands ⊆ s.commands)
      (next : t = { s with connections := s.connections ++ [c], commands := t.commands })
  | strike (peerId : PeerId) (of : striking s action = some peerId) (fewer : t.commands ⊆ s.commands)
      (next : t = { s with peers := s.peers.erase peerId, commands := t.commands })
  | receive (index : Nat) {c : PeerConnection} (here : s.connections[index]? = some c) (inbox : List Message)
      (next : t = { s with connections := s.connections.set index { c with inbox }, sending := t.sending })
  | cleanup (now : Nat) (next : t = { s with peerManager := s.peerManager.cleanupExpiredBans now })
  | pass (fewer : t.commands ⊆ s.commands)
      (next : t = { s with sending := t.sending, commands := t.commands, running := t.running })
  | task (index now : Nat) {c after : PeerConnection} {effect : Effect} (here : s.connections[index]? = some c)
      (same : after.addr = c.addr) (passes : Passes c.addr c.stage after.stage effect)
      (next : { s with connections := s.connections.set index after }.perform index now c.peerId effect = some t)

theorem shifts_start {c : PeerConnection} {commands : List NetworkCommand} (of : starting s action = some c.addr)
    (fresh : pending c.stage) (fewer : commands ⊆ s.commands) : Shifts s action ({ s with commands }.start c) := by
  unfold NetworkService.start
  split
  · exact .pass fewer rfl
  · next room => exact .start c of fresh (Nat.lt_of_not_le room) fewer rfl

theorem shifts_deliver {tx : Nat} {message : Message} {sending : List Sending}
    (taken : { s with sending }.deliver tx message = some t) : Shifts s action t := by
  unfold deliver at taken
  split at taken
  · cases taken
    exact .pass (List.Subset.refl _) rfl
  · next c here =>
      split at taken
      · cases taken
        exact .pass (List.Subset.refl _) rfl
      · split at taken
        · cases taken
          exact .receive tx here _ rfl
        · cases taken

theorem shifts_of_step (taken : s.step blake2b256 json action = some t) : Shifts s action t := by
  unfold NetworkService.step at taken
  cases action with
  | accept addr time sessionId =>
      dsimp only at taken
      split at taken
      · cases taken
        exact shifts_start rfl rfl (List.Subset.refl _)
      · cases taken
  | command time sessionId order =>
      dsimp only at taken
      split at taken
      · next command commands queued =>
          have fewer : commands ⊆ s.commands := queued ▸ List.subset_cons_self command commands
          split at taken
          · cases taken
            cases command with
            | connect addr => exact shifts_start (by simp [starting, queued, PeerConnection.outbound]) rfl fewer
            | disconnect peerId => exact .strike peerId (by simp [striking, queued]) fewer rfl
            | sendMessage peerId message => exact .pass fewer rfl
            | broadcast message => exact .pass fewer rfl
            | shutdown => exact .pass fewer rfl
          · cases taken
      · cases taken
  | send =>
      dsimp only at taken
      split at taken
      · unfold NetworkService.sendNext at taken
        split at taken
        · cases taken
        · split at taken <;> cases taken <;> exact .pass (List.Subset.refl _) rfl
        · exact shifts_deliver taken
      · cases taken
  | cleanup now =>
      dsimp only at taken
      split at taken
      · cases taken
        exact .cleanup now rfl
      · cases taken
  | task index now step =>
      obtain ⟨c, here, moved⟩ := Option.bind_eq_some_iff.mp taken
      obtain ⟨⟨after, effect⟩, next, done⟩ := Option.bind_eq_some_iff.mp moved
      obtain ⟨same, passes⟩ := passes_of_next next
      exact .task index now here same passes done

/-! ### Known peers -/

def Enrolled (manager : PeerManager) (peerId : PeerId) : Stage → Prop
  | .adding _ info => info.id = peerId
  | .marking _ | .announcing _ | .looping _ | .delivering _ _ | .removing | .unmarking | .panicked => peerId ∈ manager.peers
  | _ => True

variable {manager after : PeerManager} {peerId other : PeerId} {addr : SocketAddr} {stage next : Stage} {effect : Effect}
variable {index now : Nat}

theorem enrolled_of_pending (early : pending stage ∨ ended stage) : Enrolled manager peerId stage := by
  cases stage <;> simp_all [Enrolled, pending, ended]

theorem enrolled_of_working (works : working stage) : Enrolled manager peerId stage ↔ peerId ∈ manager.peers := by
  cases stage <;> simp_all [Enrolled, working]

theorem Enrolled.mono (grown : peerId ∈ manager.peers → peerId ∈ after.peers) (enrolled : Enrolled manager peerId stage) :
    Enrolled after peerId stage := by
  unfold Enrolled at enrolled ⊢
  split at enrolled
  · exact enrolled
  all_goals first | exact grown enrolled | trivial

theorem Enrolled.passes (passes : Passes addr stage next effect) (own : peerId = .fromAddr addr)
    (enrolled : Enrolled manager peerId stage) (grown : peerId ∈ manager.peers → peerId ∈ after.peers)
    (added : ∀ info, effect = .addPeer info → info.id ∈ after.peers) : Enrolled after peerId next := by
  cases passes with
  | early _ later => exact enrolled_of_pending later
  | register theirs info owned => exact owned.trans own.symm
  | add theirs info =>
      have named : info.id = peerId := enrolled
      exact named ▸ added info rfl
  | work before later => exact (enrolled_of_working later).mpr (grown ((enrolled_of_working before).mp enrolled))
  | mark | announce | deliver | remove => exact grown enrolled
  | unmark | leave | fail => trivial

theorem mem_peers_setState {state : PeerState} (known : other ∈ manager.peers) :
    other ∈ (manager.setState now peerId state).peers := by
  unfold PeerManager.setState
  split
  · exact known
  · split <;> exact (AList.mem_insert _).mpr (.inr known)

theorem mem_peers_perform (done : s.perform index now peerId effect = some t) :
    ∀ other, other ∈ s.peerManager.peers → other ∈ t.peerManager.peers := by
  intro other known
  unfold perform at done
  split at done
  · exact Option.some.inj done ▸ known
  · exact Option.some.inj done ▸ known
  · exact Option.some.inj done ▸ (AList.mem_insert _).mpr (.inr known)
  · exact Option.some.inj done ▸ mem_peers_setState known
  · exact Option.some.inj done ▸ known
  · split at done
    · exact Option.some.inj done ▸ known
    · cases done

theorem frame_perform (done : s.perform index now peerId effect = some t) :
    t.connections = s.connections ∧ t.commands = s.commands := by
  unfold perform at done
  split at done
  all_goals first | exact Option.some.inj done ▸ ⟨rfl, rfl⟩ | skip
  split at done
  · exact Option.some.inj done ▸ ⟨rfl, rfl⟩
  · cases done

theorem Shifts.enrolled (shifts : Shifts s action t)
    (enrolled : ∀ c ∈ s.connections, Enrolled s.peerManager c.peerId c.stage) :
    ∀ c ∈ t.connections, Enrolled t.peerManager c.peerId c.stage := by
  cases shifts with
  | start c of fresh room fewer next =>
      rw [next]
      intro other member
      rcases List.mem_append.mp member with old | new
      · exact enrolled other old
      · rw [List.mem_singleton.mp new]
        exact enrolled_of_pending (.inl fresh)
  | strike peerId of fewer next =>
      rw [next]
      exact enrolled
  | @receive index c here inbox next =>
      rw [next]
      have old := enrolled c (List.mem_of_getElem? here)
      exact Threads.forall_mem_set old enrolled
  | cleanup now next =>
      rw [next]
      exact enrolled
  | pass fewer next =>
      rw [next]
      exact enrolled
  | @task index now c after effect here same passes done =>
      have old := enrolled c (List.mem_of_getElem? here)
      have named : after.peerId = c.peerId := congrArg PeerId.fromAddr same
      have grown := mem_peers_perform done
      rw [(frame_perform done).1]
      refine Threads.forall_mem_set ?_ fun other member => (enrolled other member).mono (grown _)
      rw [named]
      refine old.passes passes rfl (grown _) ?_
      rintro info rfl
      exact Option.some.inj done ▸ (AList.mem_insert _).mpr (.inl rfl)

theorem Shifts.commands (shifts : Shifts s action t) : t.commands ⊆ s.commands := by
  cases shifts with
  | start c of fresh room fewer next => exact fewer
  | strike peerId of fewer next => exact fewer
  | receive index here inbox next =>
      rw [next]
      exact List.Subset.refl _
  | cleanup now next =>
      rw [next]
      exact List.Subset.refl _
  | pass fewer next => exact fewer
  | task index now here same passes done =>
      have same := (frame_perform done).2
      exact fun command member => same ▸ member

end Service

/-! ### The limit of connections -/

section Limit
variable {s t : NetworkService} {action : NetworkService.Action} {index now k : Nat} {peerId : PeerId} {effect : Effect}
variable {addr : SocketAddr} {stage next : Stage}

def shaking (s : NetworkService) : Nat := s.connections.countP fun c => pending c.stage

theorem pending_of_working (works : working stage) : pending stage = false := by
  cases stage <;> simp_all [pending, working]

theorem config_perform (done : s.perform index now peerId effect = some t) : t.config = s.config := by
  unfold NetworkService.perform at done
  split at done
  all_goals first | exact Option.some.inj done ▸ rfl | skip
  split at done
  · exact Option.some.inj done ▸ rfl
  · cases done

theorem length_peers_perform (done : s.perform index now peerId effect = some t) (passes : Passes addr stage next effect) :
    t.peers.entries.length + (if pending next then 1 else 0) ≤ s.peers.entries.length + if pending stage then 1 else 0 := by
  cases passes with
  | early before later =>
      obtain rfl : s = t := Option.some.inj done
      rw [if_pos before]
      split <;> omega
  | work before later =>
      obtain rfl : s = t := Option.some.inj done
      rw [pending_of_working before, pending_of_working later]
  | register theirs info own =>
      obtain rfl := Option.some.inj done
      have entered := @Entries.length_insert _ _ _ s.peers peerId ⟨index, info⟩
      dsimp only [pending]
      rw [entered]
      split <;> simp
  | add | mark | unmark =>
      obtain rfl := Option.some.inj done
      exact Nat.le_refl _
  | remove =>
      obtain rfl := Option.some.inj done
      exact Entries.length_erase_le
  | announce | deliver | leave | fail =>
      unfold NetworkService.perform at done
      dsimp only at done
      split at done <;> cases done
      exact Nat.le_refl _

theorem limit_shifts (shifts : Shifts s action t) (few : starting s action ≠ none → shaking s < k)
    (below : s.peers.entries.length + shaking s ≤ s.config.maxConnections - 1 + k) :
    t.config = s.config ∧ t.peers.entries.length + shaking t ≤ s.config.maxConnections - 1 + k := by
  cases shifts with
  | start c of fresh room fewer next =>
      have some := few (by rw [of]; nofun)
      have more : shaking t = shaking s + 1 := by
        unfold shaking
        rw [next, List.countP_append, List.countP_singleton, if_pos fresh]
      rw [more, next]
      refine ⟨rfl, ?_⟩
      dsimp only
      omega
  | strike struck of fewer next =>
      have same : shaking t = shaking s := by
        unfold shaking
        rw [next]
      have less := @Entries.length_erase_le _ _ _ s.peers struck
      rw [same, next]
      refine ⟨rfl, ?_⟩
      dsimp only
      omega
  | @receive index c here inbox next =>
      have moved := @Threads.countP_set_add _ _ _ _ { c with inbox } (fun c => pending c.stage) here
      have same : shaking t = shaking s := by
        unfold shaking
        rw [next]
        exact Nat.add_right_cancel moved
      rw [same, next]
      exact ⟨rfl, below⟩
  | cleanup now next =>
      have same : shaking t = shaking s := by
        unfold shaking
        rw [next]
      rw [same, next]
      exact ⟨rfl, below⟩
  | pass fewer next =>
      have same : shaking t = shaking s := by
        unfold shaking
        rw [next]
      rw [same, next]
      exact ⟨rfl, below⟩
  | @task index now c after effect here same passes done =>
      have moved := @Threads.countP_set_add _ _ _ _ after (fun c => pending c.stage) here
      have entered := length_peers_perform done passes
      have unchanged := config_perform done
      refine ⟨unchanged, ?_⟩
      unfold shaking at below ⊢
      rw [(frame_perform done).1]
      dsimp only at moved entered ⊢
      omega

end Limit

end ErgoNode.Proof.Network
