import ErgoNode.Lib.Entries
import ErgoNode.Lib.Pace
import ErgoNode.Proof.Sync.Heights
import ErgoNode.Sync.Exchange

/-!
# How many SyncInfos are exchanged

Two nodes that answer each other would never stop. One that finds the other on a shorter chain, or on the
same, is slow to answer, and keeps both slow. Of two that find each other on a fork none is.
-/

namespace ErgoNode.Proof.Sync
open Lib SyncExchange

/-! ### One node -/

def answers (peer : PeerId) (s : SyncExchange) : Nat := s.sent.countP fun message => message.1 == peer

def drops (id : PeerId) : SyncExchange.Action → Bool
  | .peerDisconnected other => other == id
  | .unresponsive peers => peers.contains id
  | _ => false

section Node
variable {sr : SigmaRust} {now : Int} {s t : SyncExchange} {peer other : PeerId} {info : SyncInfo}
variable {update : PeerSyncState → PeerSyncState}

structure LeavesPeer (peer : PeerId) (s t : SyncExchange) : Prop where
  sent : answers peer t = answers peer s
  kept : t.syncPeers.lookup peer = s.syncPeers.lookup peer

theorem LeavesPeer.trans {u : SyncExchange} (first : LeavesPeer peer s t) (second : LeavesPeer peer t u) :
    LeavesPeer peer s u := ⟨second.sent.trans first.sent, second.kept.trans first.kept⟩

theorem sent_updatePeer : (s.updatePeer peer update).sent = s.sent := by
  unfold updatePeer
  split <;> rfl

theorem lookup_updatePeer :
    (s.updatePeer peer update).syncPeers.lookup peer = (s.syncPeers.lookup peer).map update := by
  unfold updatePeer
  cases known : s.syncPeers.lookup peer with
  | none => exact known
  | some state => exact AList.lookup_insert _

theorem leavesPeer_updatePeer (apart : other ≠ peer) : LeavesPeer other s (s.updatePeer peer update) where
  sent := by
    unfold answers
    rw [sent_updatePeer]
  kept := by
    unfold updatePeer
    split
    · exact AList.lookup_insert_ne apart
    · rfl

theorem answers_sendSyncInfo : answers peer (s.sendSyncInfo sr peer) = answers peer s + 1 := by
  unfold answers sendSyncInfo
  rw [List.countP_append]
  simp

theorem leavesPeer_sendSyncInfo (apart : other ≠ peer) : LeavesPeer other s (s.sendSyncInfo sr peer) where
  sent := by
    unfold answers sendSyncInfo
    rw [List.countP_append]
    simp [Ne.symm apart]
  kept := rfl

theorem answers_updatePeer : answers other (s.updatePeer peer update) = answers other s := by
  unfold answers
  rw [sent_updatePeer]

theorem leavesPeer_sendDated (apart : other ≠ peer) : LeavesPeer other s (s.sendDated sr now peer) :=
  (leavesPeer_updatePeer apart).trans (leavesPeer_sendSyncInfo apart)

theorem answers_sendDated : answers peer (s.sendDated sr now peer) = answers peer s + 1 :=
  answers_sendSyncInfo.trans (congrArg (· + 1) answers_updatePeer)

theorem lookup_sendDated : (s.sendDated sr now peer).syncPeers.lookup peer =
    (s.syncPeers.lookup peer).map fun state => { state with lastSyncSent := now } := lookup_updatePeer

def recordedState (sr : SigmaRust) (now : Int) (s : SyncExchange) (peer : PeerId) (info : SyncInfo)
    (state : PeerSyncState) : PeerSyncState :=
  { state with
    height := s.estimatedHeight sr peer info
    lastSyncReceived := now
    chainStatus := s.chainStatus sr peer info }

theorem answers_recordSyncInfo : answers other (s.recordSyncInfo sr now peer info) = answers other s := answers_updatePeer

theorem lookup_recordSyncInfo : (s.recordSyncInfo sr now peer info).syncPeers.lookup peer =
    (s.syncPeers.lookup peer).map (recordedState sr now s peer info) := lookup_updatePeer

theorem leavesPeer_recordSyncInfo (apart : other ≠ peer) : LeavesPeer other s (s.recordSyncInfo sr now peer info) :=
  ⟨(leavesPeer_updatePeer apart).sent, (leavesPeer_updatePeer apart).kept⟩

theorem leavesPeer_onSyncInfo (apart : other ≠ peer) : LeavesPeer other s (s.onSyncInfo sr now peer info) := by
  unfold onSyncInfo
  split
  · exact ⟨rfl, rfl⟩
  · split
    · exact (leavesPeer_recordSyncInfo apart).trans (leavesPeer_sendDated apart)
    · exact leavesPeer_recordSyncInfo apart

theorem sent_removeUnresponsive (peers : List PeerId) : (s.removeUnresponsive peers).sent = s.sent := by
  induction peers generalizing s with
  | nil => rfl
  | cons slow rest ih => exact ih

theorem answers_removeUnresponsive {peers : List PeerId} : answers peer (s.removeUnresponsive peers) = answers peer s := by
  unfold answers
  rw [sent_removeUnresponsive]

theorem lookup_removeUnresponsive (peers : List PeerId) : (s.removeUnresponsive peers).syncPeers.lookup peer =
    if peer ∈ peers then none else s.syncPeers.lookup peer := by
  induction peers generalizing s with
  | nil => rfl
  | cons slow rest ih =>
      have later := @ih (s.removePeer slow)
      rw [removeUnresponsive, List.foldl_cons, ← removeUnresponsive, later]
      by_cases same : peer = slow
      · have gone : (s.removePeer slow).syncPeers.lookup peer = none := by
          rw [same]
          exact AList.lookup_erase _ _
        simp [gone, same]
      · have kept : (s.removePeer slow).syncPeers.lookup peer = s.syncPeers.lookup peer := AList.lookup_erase_ne same
        simp [kept, same]

theorem requestMoreHeaders_cases (sr : SigmaRust) (now : Int) (s : SyncExchange) (order : Iteration PeerId PeerSyncState)
    (peer : PeerId) : LeavesPeer peer s (s.requestMoreHeaders sr now order) ∨
      s.requestMoreHeaders sr now order = s.sendDated sr now peer ∧
        ∃ state, s.syncPeers.lookup peer = some state ∧ state.canSendSync now := by
  unfold requestMoreHeaders findPeerForSync
  cases found : (order.entries s.syncPeers).find? fun entry => entry.2.canSendSync now with
  | none => exact .inl ⟨rfl, rfl⟩
  | some entry =>
      dsimp only [Option.map_some]
      by_cases same : peer = entry.1
      · have known := (Entries.mem_of_perm (order.perm s.syncPeers)).mp (List.mem_of_find?_eq_some found)
        have due := List.find?_some found
        exact .inr ⟨by rw [same], entry.2, same ▸ known, due⟩
      · exact .inl (leavesPeer_sendDated same)

theorem perform_cases {action : SyncExchange.Action} (old : action ≠ .peerConnected peer)
    (elsewhere : ∀ info, action ≠ .syncInfo peer info) :
    LeavesPeer peer s (s.perform sr now action) ∨
    (drops peer action = true ∧ answers peer (s.perform sr now action) = answers peer s ∧
      (s.perform sr now action).syncPeers.lookup peer = none) ∨
    s.perform sr now action = s.sendDated sr now peer ∧
      ∃ state, s.syncPeers.lookup peer = some state ∧ state.canSendSync now := by
  cases action with
  | peerConnected other =>
      have apart : peer ≠ other := fun same => old (same ▸ rfl)
      have known : LeavesPeer peer s { s with
          syncPeers := s.syncPeers.insert other { PeerSyncState.new now with lastSyncSent := now } } :=
        ⟨rfl, AList.lookup_insert_ne apart⟩
      exact .inl (known.trans (leavesPeer_sendSyncInfo apart))
  | peerDisconnected other =>
      by_cases same : peer = other
      · subst same
        exact .inr (.inl ⟨beq_self_eq_true peer, rfl, AList.lookup_erase _ _⟩)
      · exact .inl ⟨rfl, AList.lookup_erase_ne same⟩
  | syncInfo other info => exact .inl (leavesPeer_onSyncInfo fun same => elsewhere info (same ▸ rfl))
  | unresponsive peers =>
      by_cases slow : peer ∈ peers
      · exact .inr (.inl ⟨List.contains_iff_mem.mpr slow, answers_removeUnresponsive, by
          rw [perform, lookup_removeUnresponsive, if_pos slow]⟩)
      · exact .inl ⟨answers_removeUnresponsive, by rw [perform, lookup_removeUnresponsive, if_neg slow]⟩
  | tick order => exact (requestMoreHeaders_cases sr now s order peer).imp_right .inr
  | headersChanged heights ourBestHeaders => exact .inl ⟨rfl, rfl⟩

theorem sent_perform (sr : SigmaRust) (now : Int) (s : SyncExchange) (action : SyncExchange.Action) :
    s.sent <+: (s.perform sr now action).sent := by
  have dated (s : SyncExchange) (peer : PeerId) : s.sent <+: (s.sendDated sr now peer).sent := by
    have same := @sent_updatePeer s peer fun state => { state with lastSyncSent := now }
    exact same ▸ List.prefix_append ..
  cases action with
  | peerConnected peer => exact List.prefix_append ..
  | peerDisconnected peer => exact List.prefix_rfl
  | syncInfo peer info =>
      unfold perform onSyncInfo
      dsimp only
      split
      · exact List.prefix_rfl
      · have recorded : (s.recordSyncInfo sr now peer info).sent = s.sent := sent_updatePeer
        split
        · exact recorded ▸ dated _ peer
        · exact recorded ▸ List.prefix_rfl
  | unresponsive peers => rw [perform, sent_removeUnresponsive]
  | tick order =>
      unfold perform requestMoreHeaders
      dsimp only
      split
      · exact dated s _
      · exact List.prefix_rfl
  | headersChanged heights ourBestHeaders => exact List.prefix_rfl

theorem length_sentTo (peer : PeerId) (prefixed : s.sent <+: t.sent) :
    (SyncLink.sentTo peer s t).length + answers peer s = answers peer t := by
  obtain ⟨more, same⟩ := prefixed
  unfold SyncLink.sentTo answers
  rw [← same, List.drop_left, List.length_map, ← List.countP_eq_length_filter, List.countP_append, Nat.add_comm]

end Node

/-! ### Two nodes -/

section Link
open SyncLink
variable {sr : SigmaRust} {peer : Side → PeerId} {link next : SyncLink} {now : Int} {side : Side}
variable {action : SyncExchange.Action} {taken : Int × SyncLink.Action}

def sentBy (peer : Side → PeerId) (side : Side) (link : SyncLink) : Nat := answers (peer side.other) (link.node side)

theorem link_step_cases (took : link.step sr peer taken = some next) : ∃ now side, link.clock ≤ now ∧
    ((∃ info rest, taken = (now, .deliver side) ∧ link.inbox side = info :: rest ∧
      next = { link with inbox := Function.update link.inbox side rest }.moveNode sr peer now side
        (.syncInfo (peer side.other) info)) ∨
    ∃ action, taken = (now, .perform side action) ∧ (∀ info, action ≠ .syncInfo (peer side.other) info) ∧
      next = link.moveNode sr peer now side action) := by
  obtain ⟨now, side | ⟨side, action⟩⟩ := taken
  · unfold SyncLink.step at took
    dsimp only at took
    split at took
    · next info rest waiting =>
        obtain ⟨late, same⟩ := Option.ite_none_left_eq_some.mp took
        exact ⟨now, side, Int.not_lt.mp late, .inl ⟨info, rest, rfl, waiting, (Option.some.inj same).symm⟩⟩
    · cases took
  · unfold SyncLink.step at took
    dsimp only at took
    split at took
    · next sender info =>
        obtain ⟨none, same⟩ := Option.ite_none_left_eq_some.mp took
        obtain ⟨late, apart⟩ := not_or.mp none
        refine ⟨now, side, Int.not_lt.mp late, .inr ⟨_, rfl, fun other equal => apart ?_, (Option.some.inj same).symm⟩⟩
        cases equal
        rfl
    · next different =>
        obtain ⟨late, same⟩ := Option.ite_none_left_eq_some.mp took
        exact ⟨now, side, Int.not_lt.mp late, .inr ⟨_, rfl, fun info => different _ info, (Option.some.inj same).symm⟩⟩

@[simp] theorem other_other : side.other.other = side := by cases side <;> rfl

theorem other_ne : side.other ≠ side := by cases side <;> nofun

theorem eq_or_eq_other (moved side : Side) : moved = side ∨ moved = side.other := by
  cases moved <;> cases side <;> simp [Side.other]

theorem node_moveNode : (link.moveNode sr peer now side action).node side = (link.node side).perform sr now action :=
  Function.update_self ..

theorem node_moveNode_other : (link.moveNode sr peer now side action).node side.other = link.node side.other :=
  Function.update_of_ne other_ne ..

theorem inbox_moveNode : (link.moveNode sr peer now side action).inbox side = link.inbox side :=
  Function.update_of_ne other_ne.symm ..

theorem inbox_moveNode_other : ((link.moveNode sr peer now side action).inbox side.other).length + sentBy peer side link =
    (link.inbox side.other).length + sentBy peer side (link.moveNode sr peer now side action) := by
  have sent := length_sentTo (peer side.other) (sent_perform sr now (link.node side) action)
  unfold sentBy
  rw [node_moveNode, ← sent]
  unfold moveNode
  dsimp only
  rw [Function.update_self, List.length_append]
  omega

theorem sentBy_moveNode_other :
    sentBy peer side.other (link.moveNode sr peer now side action) = sentBy peer side.other link := by
  unfold sentBy
  rw [node_moveNode_other]

/-! ### Answers -/

def lastSent (peer : Side → PeerId) (side : Side) (link : SyncLink) : Option Int :=
  ((link.node side).syncPeers.lookup (peer side.other)).map PeerSyncState.lastSyncSent

/-- The SyncInfos that a node has sent, but for one for each that it has received. -/
def unasked (peer : Side → PeerId) (side : Side) : Pace SyncLink where
  count link := sentBy peer side link + (link.inbox side).length - sentBy peer side.other link
  clock := SyncLink.clock
  last := lastSent peer side

def connects (id : PeerId) : SyncExchange.Action → Bool
  | .peerConnected other => other == id
  | _ => false

theorem ne_of_connects (old : connects (peer side.other) action = false) : action ≠ .peerConnected (peer side.other) := by
  rintro rfl
  simp [connects] at old

def StaysConnected (peer : Side → PeerId) (side : Side) (_ : SyncLink) : Int × SyncLink.Action → Prop
  | (_, .perform moved action) => moved = side → connects (peer side.other) action = false
  | (_, .deliver _) => True

instance : DecidablePred (StaysConnected peer side link)
  | (_, .perform _ _) => inferInstanceAs (Decidable (_ → _))
  | (_, .deliver _) => inferInstanceAs (Decidable True)

theorem unasked_moveNode_other : (unasked peer side).Step PeerSyncState.minSyncInterval 1 link
    (link.moveNode sr peer now side.other action) := by
  refine .quiet ?_ fun {last} found => .inl ?_
  · have flow := @inbox_moveNode_other sr peer link now side.other action
    have still := @sentBy_moveNode_other sr peer link now side.other action
    rw [other_other] at flow still
    unfold unasked
    dsimp only
    omega
  · have same := @node_moveNode_other sr peer link now side.other action
    rw [other_other] at same
    have kept : lastSent peer side (link.moveNode sr peer now side.other action) = lastSent peer side link := by
      unfold lastSent
      rw [same]
    exact kept.symm.trans found

theorem unasked_perform (old : action ≠ .peerConnected (peer side.other))
    (elsewhere : ∀ info, action ≠ .syncInfo (peer side.other) info) :
    (unasked peer side).Step PeerSyncState.minSyncInterval 1 link (link.moveNode sr peer now side action) := by
  have still := @sentBy_moveNode_other sr peer link now side action
  have waiting := @inbox_moveNode sr peer link now side action
  have moved := @node_moveNode sr peer link now side action
  rcases @perform_cases sr now (link.node side) _ action old elsewhere with
    ⟨sent, kept⟩ | ⟨-, sent, kept⟩ | ⟨dated, state, known, due⟩
  · refine .quiet ?_ fun {last} found => .inl ?_
    · unfold unasked sentBy at *
      dsimp only
      rw [still, waiting, moved, sent]
    · unfold unasked lastSent at *
      dsimp only at found ⊢
      rwa [moved, kept] at found
  · refine .quiet ?_ fun {last} found => ?_
    · unfold unasked sentBy at *
      dsimp only
      rw [still, waiting, moved, sent]
    · unfold unasked lastSent at found
      dsimp only at found
      rw [moved, kept] at found
      cases found
  · have interval : PeerSyncState.minSyncInterval ≤ now - state.lastSyncSent := of_decide_eq_true due
    have date : (unasked peer side).last link = some state.lastSyncSent := by
      unfold unasked lastSent
      dsimp only
      rw [known, Option.map_some]
    refine .event ?_ date (Int.add_le_of_le_sub_left interval) ?_
    · unfold unasked sentBy at *
      dsimp only
      rw [still, waiting, moved, dated, answers_sendDated]
      omega
    · unfold unasked lastSent
      dsimp only
      rw [moved, dated, lookup_sendDated, known]
      rfl

theorem unasked_deliver {info : SyncInfo} {rest : List SyncInfo} (waiting : link.inbox side = info :: rest) :
    (unasked peer side).Step PeerSyncState.minSyncInterval 1 link
      ({ link with inbox := Function.update link.inbox side rest }.moveNode sr peer now side
        (.syncInfo (peer side.other) info)) := by
  set left : SyncLink := { link with inbox := Function.update link.inbox side rest }
  have still := @sentBy_moveNode_other sr peer left now side (.syncInfo (peer side.other) info)
  have taken := @inbox_moveNode sr peer left now side (.syncInfo (peer side.other) info)
  have moved := @node_moveNode sr peer left now side (.syncInfo (peer side.other) info)
  have fewer : (left.inbox side).length + 1 = (link.inbox side).length := by
    have here : left.inbox side = rest := Function.update_self ..
    rw [here, waiting, List.length_cons]
  set t := left.moveNode sr peer now side (.syncInfo (peer side.other) info)
  have sent : sentBy peer side t ≤ sentBy peer side link + 1 ∧ ∀ {last}, lastSent peer side t = some last →
      lastSent peer side link = some last ∨ last = now := by
    unfold sentBy lastSent
    rw [moved]
    unfold perform onSyncInfo
    dsimp only
    split
    · exact ⟨Nat.le_succ _, .inl⟩
    · split
      · rw [answers_sendDated, answers_recordSyncInfo, lookup_sendDated]
        refine ⟨Nat.le_refl _, fun found => .inr ?_⟩
        rw [Option.map_map] at found
        obtain ⟨state, -, same⟩ := Option.map_eq_some_iff.mp found
        exact same.symm
      · rw [answers_recordSyncInfo, lookup_recordSyncInfo, Option.map_map]
        exact ⟨Nat.le_succ _, .inl⟩
  refine .quiet ?_ fun found => sent.2 found
  have count := sent.1
  unfold unasked
  dsimp only
  have others : sentBy peer side.other left = sentBy peer side.other link := rfl
  rw [still, taken, others]
  omega

theorem unasked_step (stays : StaysConnected peer side link taken) (took : link.step sr peer taken = some next) :
    link.clock ≤ next.clock ∧ (unasked peer side).Step PeerSyncState.minSyncInterval 1 link next := by
  obtain ⟨now, moved, late, ⟨info, rest, rfl, waiting, rfl⟩ | ⟨action, rfl, elsewhere, rfl⟩⟩ := link_step_cases took
  · refine ⟨late, ?_⟩
    rcases eq_or_eq_other moved side with rfl | rfl
    · exact unasked_deliver waiting
    · refine unasked_moveNode_other.after (le_of_eq ?_) id
      unfold unasked
      dsimp only
      rw [Function.update_of_ne other_ne.symm]
      rfl
  · refine ⟨late, ?_⟩
    rcases eq_or_eq_other moved side with rfl | rfl
    · exact unasked_perform (ne_of_connects (stays rfl)) elsewhere
    · exact unasked_moveNode_other

/-! ### The slower side -/

def knownStatus (peer : Side → PeerId) (side : Side) (link : SyncLink) : Option PeerChainStatus :=
  ((link.node side).syncPeers.lookup (peer side.other)).map PeerSyncState.chainStatus

/-- The SyncInfos that a node has sent, and one that it may send when it first finds the status. -/
def settling (peer : Side → PeerId) (status : PeerChainStatus) (side : Side) : Pace SyncLink where
  count link := sentBy peer side link + if knownStatus peer side link = some status then 0 else 1
  clock := SyncLink.clock
  last := lastSent peer side

/-- The other one stays among the sync peers, and whatever it lists is found to have the status. -/
def Settled (sr : SigmaRust) (peer : Side → PeerId) (status : PeerChainStatus) (side : Side) (link : SyncLink) :
    Int × SyncLink.Action → Prop
  | (_, .perform moved action) =>
      moved = side → connects (peer side.other) action = false ∧ drops (peer side.other) action = false
  | (_, .deliver moved) =>
      moved = side → ∀ info ∈ (link.inbox side).head?, (link.node side).chainStatus sr (peer side.other) info = status

instance {status : PeerChainStatus} : DecidablePred (Settled sr peer status side link)
  | (_, .perform _ _) => inferInstanceAs (Decidable (_ → _))
  | (_, .deliver _) => inferInstanceAs (Decidable (_ → _))

theorem settling_of_node {status : PeerChainStatus} (same : next.node side = link.node side) :
    (settling peer status side).Step PeerSyncState.minSyncInterval 1 link next := by
  refine .quiet (le_of_eq ?_) fun {last} found => .inl ?_
  · unfold settling sentBy knownStatus
    dsimp only
    rw [same]
  · unfold settling lastSent at *
    dsimp only at found ⊢
    rwa [same] at found

theorem settling_perform {status : PeerChainStatus} (old : action ≠ .peerConnected (peer side.other))
    (stays : drops (peer side.other) action = false) (elsewhere : ∀ info, action ≠ .syncInfo (peer side.other) info) :
    (settling peer status side).Step PeerSyncState.minSyncInterval 1 link (link.moveNode sr peer now side action) := by
  have moved := @node_moveNode sr peer link now side action
  rcases @perform_cases sr now (link.node side) _ action old elsewhere with
    ⟨sent, kept⟩ | ⟨gone, -⟩ | ⟨dated, state, known, due⟩
  · refine .quiet (le_of_eq ?_) fun {last} found => .inl ?_
    · unfold settling sentBy knownStatus
      dsimp only
      rw [moved, sent, kept]
    · unfold settling lastSent at *
      dsimp only at found ⊢
      rwa [moved, kept] at found
  · cases gone.symm.trans stays
  · have interval : PeerSyncState.minSyncInterval ≤ now - state.lastSyncSent := of_decide_eq_true due
    have date : (settling peer status side).last link = some state.lastSyncSent := by
      unfold settling lastSent
      dsimp only
      rw [known, Option.map_some]
    refine .event (le_of_eq ?_) date (Int.add_le_of_le_sub_left interval) ?_
    · unfold settling sentBy knownStatus
      dsimp only
      rw [moved, dated, answers_sendDated, lookup_sendDated, known, Option.map_some, Option.map_some, Option.map_some]
      push_cast
      omega
    · unfold settling lastSent
      dsimp only
      rw [moved, dated, lookup_sendDated, known]
      rfl

theorem knownStatus_of_lookup {state : PeerSyncState}
    (known : (link.node side).syncPeers.lookup (peer side.other) = some state) :
    knownStatus peer side link = some state.chainStatus := by
  unfold knownStatus
  rw [known, Option.map_some]

theorem last_settling_of_lookup {status : PeerChainStatus} {state : PeerSyncState}
    (known : (link.node side).syncPeers.lookup (peer side.other) = some state) :
    (settling peer status side).last link = some state.lastSyncSent := by
  unfold settling lastSent
  dsimp only
  rw [known, Option.map_some]

/-- A SyncInfo that is answered: either the status is new, or a while has passed since the last one. -/
theorem settling_answered {status : PeerChainStatus} (behind : status ≠ .older) (whole : status ≠ .fork)
    {state recorded : PeerSyncState} (known : (link.node side).syncPeers.lookup (peer side.other) = some state)
    (found : recorded.chainStatus = status) (answered : state.shouldSendSyncResponse next.clock state.chainStatus status = true)
    (after : (next.node side).syncPeers.lookup (peer side.other) = some { recorded with lastSyncSent := next.clock })
    (sent : sentBy peer side next = sentBy peer side link + 1) :
    (settling peer status side).Step PeerSyncState.minSyncInterval 1 link next := by
  have settled : knownStatus peer side next = some status :=
    (knownStatus_of_lookup after).trans (congrArg some found)
  have dated := @last_settling_of_lookup peer next side status _ after
  unfold PeerSyncState.shouldSendSyncResponse at answered
  split at answered
  · next fresh =>
      have unsettled : knownStatus peer side link ≠ some status := by
        rw [knownStatus_of_lookup known]
        exact fun equal => fresh (Option.some.inj equal)
      refine .quiet ?_ fun later => .inr (Option.some.inj (later.symm.trans dated))
      unfold settling
      dsimp only
      rw [sent, if_pos settled, if_neg unsettled]
      omega
  · next again =>
      rw [if_neg (not_or.mpr ⟨behind, whole⟩)] at answered
      have interval : PeerSyncState.minSyncInterval ≤ next.clock - state.lastSyncSent := of_decide_eq_true answered
      have before : knownStatus peer side link = some status :=
        (knownStatus_of_lookup known).trans (congrArg some (not_not.mp again))
      refine .event ?_ (last_settling_of_lookup known) (Int.add_le_of_le_sub_left interval) dated
      unfold settling
      dsimp only
      rw [sent, if_pos settled, if_pos before]
      omega

/-- A SyncInfo that is only recorded. -/
theorem settling_unanswered {status : PeerChainStatus} {state recorded : PeerSyncState}
    (known : (link.node side).syncPeers.lookup (peer side.other) = some state)
    (found : recorded.chainStatus = status) (date : recorded.lastSyncSent = state.lastSyncSent)
    (after : (next.node side).syncPeers.lookup (peer side.other) = some recorded)
    (sent : sentBy peer side next = sentBy peer side link) :
    (settling peer status side).Step PeerSyncState.minSyncInterval 1 link next := by
  have settled : knownStatus peer side next = some status :=
    (knownStatus_of_lookup after).trans (congrArg some found)
  refine .quiet ?_ fun {last} later => .inl ?_
  · unfold settling
    dsimp only
    rw [sent, if_pos settled]
    split <;> omega
  · rw [last_settling_of_lookup after, date] at later
    exact (last_settling_of_lookup known).trans later

/-- A node that finds the other one behind, or level on the same chain, answers when it first finds it so and
then once in a while. -/
theorem settling_deliver {status : PeerChainStatus} {info : SyncInfo} (behind : status ≠ .older) (whole : status ≠ .fork)
    {state : PeerSyncState} (known : (link.node side).syncPeers.lookup (peer side.other) = some state)
    (found : (link.node side).chainStatus sr (peer side.other) info = status) {left : SyncLink}
    (same : left.node side = link.node side) :
    (settling peer status side).Step PeerSyncState.minSyncInterval 1 link
      (left.moveNode sr peer now side (.syncInfo (peer side.other) info)) := by
  have moved := @node_moveNode sr peer left now side (.syncInfo (peer side.other) info)
  rw [same] at moved
  set t := left.moveNode sr peer now side (.syncInfo (peer side.other) info)
  have recorded : (recordedState sr now (link.node side) (peer side.other) info state).chainStatus = status := found
  unfold perform onSyncInfo at moved
  dsimp only at moved
  split at moved
  · exact settling_of_node moved
  · next heard =>
      split at moved
      · next answered =>
          rw [shouldAnswer, known, Option.all_some, found] at answered
          refine settling_answered behind whole known recorded answered ?_ ?_
          · rw [moved, lookup_sendDated, lookup_recordSyncInfo, known]
            rfl
          · rw [sentBy, sentBy, moved, answers_sendDated, answers_recordSyncInfo]
      · refine settling_unanswered known recorded rfl ?_ ?_
        · rw [moved, lookup_recordSyncInfo, known]
          rfl
        · rw [sentBy, sentBy, moved, answers_recordSyncInfo]

abbrev Knows (peer : Side → PeerId) (side : Side) (link : SyncLink) : Prop :=
  peer side.other ∈ (link.node side).syncPeers

theorem knows_iff : Knows peer side link ↔ ∃ state, (link.node side).syncPeers.lookup (peer side.other) = some state :=
  Entries.mem_iff

theorem knows_onSyncInfo {s : SyncExchange} {id : PeerId} {info : SyncInfo} {state : PeerSyncState}
    (known : s.syncPeers.lookup id = some state) : ∃ state, (s.onSyncInfo sr now id info).syncPeers.lookup id = some state := by
  unfold onSyncInfo
  split
  · exact ⟨state, known⟩
  · split
    · rw [lookup_sendDated, lookup_recordSyncInfo, known]
      exact ⟨_, rfl⟩
    · rw [lookup_recordSyncInfo, known]
      exact ⟨_, rfl⟩

theorem settling_step {status : PeerChainStatus} (behind : status ≠ .older) (whole : status ≠ .fork)
    (knows : Knows peer side link) (settled : Settled sr peer status side link taken)
    (took : link.step sr peer taken = some next) : Knows peer side next ∧ link.clock ≤ next.clock ∧
      (settling peer status side).Step PeerSyncState.minSyncInterval 1 link next := by
  obtain ⟨state, known⟩ := knows_iff.mp knows
  have still {left : SyncLink} {action : SyncExchange.Action} {now : Int} (same : left.node side = link.node side) :
      Knows peer side (left.moveNode sr peer now side.other action) ∧
        (settling peer status side).Step PeerSyncState.minSyncInterval 1 link
          (left.moveNode sr peer now side.other action) := by
    have kept := @node_moveNode_other sr peer left now side.other action
    rw [other_other, same] at kept
    exact ⟨knows_iff.mpr ⟨state, kept ▸ known⟩, settling_of_node kept⟩
  obtain ⟨now, moved, late, ⟨info, rest, rfl, waiting, rfl⟩ | ⟨action, rfl, elsewhere, rfl⟩⟩ := link_step_cases took
  · rcases eq_or_eq_other moved side with rfl | rfl
    · have found : (link.node moved).chainStatus sr (peer moved.other) info = status := by
        refine settled rfl info ?_
        rw [waiting]
        exact rfl
      refine ⟨knows_iff.mpr ?_, late, settling_deliver behind whole known found rfl⟩
      rw [node_moveNode]
      exact knows_onSyncInfo known
    · obtain ⟨after, step⟩ := @still { link with inbox := Function.update link.inbox side.other rest }
        (.syncInfo (peer side.other.other) info) now rfl
      exact ⟨after, late, step⟩
  · rcases eq_or_eq_other moved side with rfl | rfl
    · obtain ⟨old, stays⟩ := (settled rfl).imp_left ne_of_connects
      refine ⟨knows_iff.mpr ?_, late, settling_perform old stays elsewhere⟩
      rw [node_moveNode]
      rcases @perform_cases sr now (link.node moved) _ action old elsewhere with
        ⟨-, kept⟩ | ⟨gone, -⟩ | ⟨dated, -⟩
      · exact ⟨state, kept.trans known⟩
      · cases gone.symm.trans stays
      · rw [dated, lookup_sendDated, known]
        exact ⟨_, rfl⟩
    · exact ⟨(still rfl).1, late, (still rfl).2⟩

def exchanged (peer : Side → PeerId) (link : SyncLink) : Nat := sentBy peer .first link + sentBy peer .second link

end Link

/-! ### Two nodes at the same height -/

/-- A node that has its tip from peers: it was started without headers, and lists only the last one. -/
structure AtHeight (sr : SigmaRust) (height : Nat) (s : SyncExchange) : Prop where
  fresh : s.ourBestHeaders = []
  tip : s.heights.headers.getLast?.map Header.height = some height
  listed : (listedHeaders sr (s.heights.buildV2SyncInfo sr)).2 = some height

/-- Two such nodes, and all that is on its way between them. -/
structure Level (sr : SigmaRust) (height : Nat) (link : SyncLink) : Prop where
  node : ∀ side, AtHeight sr height (link.node side)
  inbox : ∀ side, ∀ info ∈ link.inbox side, (listedHeaders sr info).2 = some height

/-- Only deliveries, each late enough after the last SyncInfo that was taken from the same peer. -/
def Heard (peer : Side → PeerId) (link : SyncLink) : Int × SyncLink.Action → Prop
  | (now, .deliver side) => (link.node side).ignores now (peer side.other) = false
  | (_, .perform ..) => False

section Endless
open SyncLink
variable {sr : SigmaRust} {peer : Side → PeerId} {link next : SyncLink} {now : Int} {side : Side} {height : Nat}
variable {s : SyncExchange} {id : PeerId} {info : SyncInfo}

theorem chainStatus_atHeight (positive : 0 < height) (atHeight : AtHeight sr height s)
    (listed : (listedHeaders sr info).2 = some height) : s.chainStatus sr id info = .fork := by
  have shared : (listedHeaders sr info).1.any s.ourBestHeaders.contains = false := by
    rw [atHeight.fresh]
    simp
  unfold chainStatus estimatedHeight
  dsimp only
  rw [listed, atHeight.tip, shared, Option.getD_some, Option.getD_some, if_neg (by omega), if_neg (Nat.lt_irrefl _),
    if_neg (Nat.lt_irrefl _)]
  rfl

theorem shouldAnswer_of_fork (fork : s.chainStatus sr id info = .fork) : s.shouldAnswer sr now id info := by
  unfold shouldAnswer PeerSyncState.shouldSendSyncResponse
  rw [fork]
  cases s.syncPeers.lookup id with
  | none => rfl
  | some state =>
      rw [Option.all_some]
      split <;> rfl

theorem atHeight_recordSyncInfo (atHeight : AtHeight sr height s) : AtHeight sr height (s.recordSyncInfo sr now id info) := by
  have same : (s.updatePeer id (recordedState sr now s id info)).ourBestHeaders = s.ourBestHeaders := by
    unfold updatePeer
    split <;> rfl
  exact ⟨same.trans atHeight.fresh, atHeight.tip, atHeight.listed⟩

theorem heights_sendDated : (s.sendDated sr now id).heights = s.heights ∧
    (s.sendDated sr now id).ourBestHeaders = s.ourBestHeaders := by
  unfold sendDated updatePeer
  split <;> exact ⟨rfl, rfl⟩

theorem atHeight_sendDated (atHeight : AtHeight sr height s) : AtHeight sr height (s.sendDated sr now id) := by
  obtain ⟨heights, best⟩ := @heights_sendDated sr now s id
  exact ⟨best.trans atHeight.fresh, by rw [heights]; exact atHeight.tip, by rw [heights]; exact atHeight.listed⟩

theorem sentTo_sendDated (other : SyncExchange) (same : other.sent = s.sent) :
    sentTo id s (other.sendDated sr now id) = [other.heights.buildV2SyncInfo sr] := by
  have sent : (other.sendDated sr now id).sent = s.sent ++ [(id, other.heights.buildV2SyncInfo sr)] := by
    unfold sendDated sendSyncInfo
    dsimp only
    rw [sent_updatePeer, same]
    have heights : (other.updatePeer id fun state => { state with lastSyncSent := now }).heights = other.heights := by
      unfold updatePeer
      split <;> rfl
    rw [heights]
  unfold sentTo
  rw [sent, List.drop_left]
  simp

/-- Between such nodes a delivery that is heard is answered at once. -/
theorem deliver_heard {rest : List SyncInfo} (positive : 0 < height) (level : Level sr height link)
    (waiting : link.inbox side = info :: rest) (heard : (link.node side).ignores now (peer side.other) = false)
    (late : link.clock ≤ now) : ∃ reply next, link.step sr peer (now, .deliver side) = some next ∧ Level sr height next ∧
      next.clock = now ∧ next.inbox side = rest ∧ next.inbox side.other = link.inbox side.other ++ [reply] ∧
      next.node side = ((link.node side).recordSyncInfo sr now (peer side.other) info).sendDated sr now (peer side.other) ∧
      next.node side.other = link.node side.other := by
  have fork := @chainStatus_atHeight sr height (link.node side) (peer side.other) info positive (level.node side)
    (level.inbox side info (waiting ▸ List.mem_cons_self))
  have answered : (link.node side).perform sr now (.syncInfo (peer side.other) info) =
      ((link.node side).recordSyncInfo sr now (peer side.other) info).sendDated sr now (peer side.other) := by
    unfold perform onSyncInfo
    dsimp only
    rw [heard, if_neg Bool.false_ne_true, if_pos (shouldAnswer_of_fork fork)]
  set left : SyncLink := { link with inbox := Function.update link.inbox side rest }
  have taken : link.step sr peer (now, .deliver side) =
      some (left.moveNode sr peer now side (.syncInfo (peer side.other) info)) := by
    unfold SyncLink.step
    dsimp only
    rw [waiting]
    exact if_neg (Int.not_lt.mpr late)
  have moved := @node_moveNode sr peer left now side (.syncInfo (peer side.other) info)
  have still := @node_moveNode_other sr peer left now side (.syncInfo (peer side.other) info)
  have here := @inbox_moveNode sr peer left now side (.syncInfo (peer side.other) info)
  have shorter : left.inbox side = rest := Function.update_self ..
  have recorded : ((link.node side).recordSyncInfo sr now (peer side.other) info).sent = (link.node side).sent :=
    sent_updatePeer
  have atHeight := @atHeight_recordSyncInfo sr now height _ (peer side.other) info (level.node side)
  have there : (left.moveNode sr peer now side (.syncInfo (peer side.other) info)).inbox side.other =
      link.inbox side.other ++
        [((link.node side).recordSyncInfo sr now (peer side.other) info).heights.buildV2SyncInfo sr] := by
    have others : left.inbox side.other = link.inbox side.other := Function.update_of_ne other_ne ..
    have reply := @sentTo_sendDated sr now (link.node side) (peer side.other) _ recorded
    unfold moveNode
    dsimp only
    rw [Function.update_self, others]
    have same : (left.node side).perform sr now (.syncInfo (peer side.other) info) = _ := answered
    rw [same]
    exact congrArg _ reply
  rw [answered] at moved
  refine ⟨_, _, taken, ⟨fun which => ?_, fun which => ?_⟩, rfl, here.trans shorter, there, moved, still⟩
  · rcases eq_or_eq_other which side with rfl | rfl
    · rw [moved]
      exact atHeight_sendDated atHeight
    · rw [still]
      exact level.node side.other
  · rcases eq_or_eq_other which side with rfl | rfl
    · rw [here, shorter]
      exact fun later member => level.inbox which later (waiting ▸ List.mem_cons_of_mem _ member)
    · rw [there]
      intro later member
      rcases List.mem_append.mp member with before | reply
      · exact level.inbox side.other later before
      · rw [List.mem_singleton.mp reply]
        exact atHeight.listed

theorem sentBy_of_node {other : SyncLink} (same : other.node side = link.node side) :
    sentBy peer side other = sentBy peer side link := by
  unfold sentBy
  rw [same]

theorem exchanged_of_side : exchanged peer link = sentBy peer side link + sentBy peer side.other link := by
  cases side with
  | first => rfl
  | second => exact Nat.add_comm ..

theorem level_step {taken : Int × SyncLink.Action} (positive : 0 < height) (level : Level sr height link)
    (heard : Heard peer link taken) (took : link.step sr peer taken = some next) :
    Level sr height next ∧ exchanged peer next = exchanged peer link + 1 := by
  obtain ⟨now, side, late, ⟨info, rest, rfl, waiting, -⟩ | ⟨action, rfl, -⟩⟩ := link_step_cases took
  · obtain ⟨reply, other, taken, after, -, -, -, moved, still⟩ := deliver_heard positive level waiting heard late
    cases taken.symm.trans took
    refine ⟨after, ?_⟩
    have more : sentBy peer side next = sentBy peer side link + 1 := by
      unfold sentBy
      rw [moved, answers_sendDated, answers_recordSyncInfo]
    rw [@exchanged_of_side peer next side, @exchanged_of_side peer link side, more, sentBy_of_node still]
    omega
  · exact heard.elim

theorem exchanged_level (positive : 0 < height) {actions : List (Int × SyncLink.Action)} {t : SyncLink}
    (level : Level sr height link) (heard : Along (SyncLink.step sr peer) (Heard peer) link actions)
    (ran : run (SyncLink.step sr peer) link actions = some t) :
    exchanged peer t = exchanged peer link + actions.length := by
  induction actions generalizing link with
  | nil =>
      cases ran
      rfl
  | cons taken rest ih =>
      obtain ⟨next, took, later⟩ := run_cons_eq_some.mp ran
      obtain ⟨after, more⟩ := level_step positive level heard.head took
      rw [ih after (heard.tail took) later, more, List.length_cons]
      omega

/-- From the given time on each of the two nodes can take a SyncInfo that is there for it. -/
structure Busy (sr : SigmaRust) (peer : Side → PeerId) (height : Nat) (now : Int) (link : SyncLink) : Prop where
  level : Level sr height link
  late : link.clock ≤ now
  waiting : ∀ side, link.inbox side ≠ []
  heard : ∀ side, (link.node side).ignores now (peer side.other) = false

theorem ignores_after {s : SyncExchange} (known : ∀ state, s.syncPeers.lookup id = some state → state.lastSyncReceived = now) :
    s.ignores (now + PeerSyncState.perPeerSyncLockTime) id = false := by
  unfold ignores
  cases found : s.syncPeers.lookup id with
  | none => rfl
  | some state =>
      rw [Option.any_some, PeerSyncState.canProcessSync, known state found]
      simp

theorem lastSyncReceived_answered {state : PeerSyncState}
    (found : ((s.recordSyncInfo sr now id info).sendDated sr now id).syncPeers.lookup id = some state) :
    state.lastSyncReceived = now := by
  rw [lookup_sendDated, lookup_recordSyncInfo, Option.map_map] at found
  obtain ⟨before, -, rfl⟩ := Option.map_eq_some_iff.mp found
  rfl

/-- Each takes one SyncInfo from the other at the same time, and a tenth of a second later they are where they were. -/
theorem busy_round (positive : 0 < height) (busy : Busy sr peer height now link) :
    ∃ next, run (SyncLink.step sr peer) link [(now, .deliver .first), (now, .deliver .second)] = some next ∧
      Along (SyncLink.step sr peer) (Heard peer) link [(now, .deliver .first), (now, .deliver .second)] ∧
      Busy sr peer height (now + PeerSyncState.perPeerSyncLockTime) next ∧ next.clock = now := by
  obtain ⟨info, rest, waiting⟩ := List.exists_cons_of_ne_nil (busy.waiting .first)
  obtain ⟨reply, middle, taken, level, clock, left, sent, moved, still⟩ :=
    deliver_heard positive busy.level waiting (busy.heard .first) busy.late
  obtain ⟨more, later, again⟩ := List.exists_cons_of_ne_nil (List.append_ne_nil_of_left_ne_nil (busy.waiting .second) [reply])
  have heard : (middle.node .second).ignores now (peer .first) = false := by
    have same : middle.node .second = link.node .second := still
    rw [same]
    exact busy.heard .second
  obtain ⟨answer, last, ended, after, date, none, back, answered, kept⟩ :=
    @deliver_heard sr peer middle now .second height more later positive level (sent.trans again) heard (le_of_eq clock)
  refine ⟨last, ?_, ?_, ⟨after, ?_, ?_, ?_⟩, date⟩
  · rw [run_cons, taken, Option.bind_some, run_cons, ended]
    rfl
  · refine along_cons.mpr ⟨busy.heard .first, fun next took => along_cons.mpr ⟨?_, fun _ _ => along_nil⟩⟩
    cases taken.symm.trans took
    exact heard
  · rw [date]
    unfold PeerSyncState.perPeerSyncLockTime
    omega
  · intro side
    cases side with
    | first =>
        have inbox : last.inbox .first = middle.inbox .first ++ [answer] := back
        rw [inbox]
        exact List.append_ne_nil_of_right_ne_nil _ (List.cons_ne_nil answer [])
    | second =>
        -- What the first node has answered comes behind what was there.
        have length := congrArg List.length again
        rw [List.length_append, List.length_singleton, List.length_cons] at length
        have some : (link.inbox .second).length ≠ 0 := fun zero => busy.waiting .second (List.length_eq_zero_iff.mp zero)
        rw [none]
        exact fun empty => some (by rw [empty, List.length_nil] at length; omega)
  · intro side
    refine ignores_after fun state found => ?_
    cases side with
    | first =>
        have same : last.node .first = middle.node .first := kept
        rw [same, moved] at found
        exact lastSyncReceived_answered found
    | second =>
        rw [answered] at found
        exact lastSyncReceived_answered found

theorem busy_rounds (positive : 0 < height) (busy : Busy sr peer height now link) (rounds : Nat) :
    ∃ actions t, actions.length = 2 * rounds ∧ Along (SyncLink.step sr peer) (Heard peer) link actions ∧
      run (SyncLink.step sr peer) link actions = some t ∧ t.clock ≤ now + PeerSyncState.perPeerSyncLockTime * rounds := by
  induction rounds generalizing now link with
  | zero => exact ⟨[], link, rfl, along_nil, rfl, by simpa using busy.late⟩
  | succ rounds ih =>
      obtain ⟨next, first, heard, after, -⟩ := busy_round positive busy
      obtain ⟨actions, t, length, later, ran, clock⟩ := ih after
      refine ⟨[(now, .deliver .first), (now, .deliver .second)] ++ actions, t, ?_, ?_, ?_, ?_⟩
      · rw [List.length_append, length, List.length_cons, List.length_cons, List.length_nil]
        omega
      · exact heard.append first later
      · rw [run_append, first]
        exact ran
      · push_cast
        unfold PeerSyncState.perPeerSyncLockTime at *
        omega

/-! ### From the start -/

def freshNode (sr : SigmaRust) (headers : List Header) : SyncExchange :=
  { SyncExchange.new with heights := headers.foldl (SyncHeights.storeHeader sr) .new }

def connectedPair (sr : SigmaRust) (peer : Side → PeerId) (headers : Side → List Header) : SyncLink :=
  let apart : SyncLink := ⟨fun side => freshNode sr (headers side), fun _ => [], 0⟩
  (apart.moveNode sr peer 0 .first (.peerConnected (peer .second))).moveNode sr peer 0 .second (.peerConnected (peer .first))

def TipAt (sr : SigmaRust) (height : Nat) (headers : List Header) : Prop :=
  ∃ before tip bytes, headers = before ++ [tip] ∧ tip.height = height ∧ sr.headerBytes tip = .ok bytes ∧
    sr.parseHeader bytes = .ok tip

theorem getLast?_addHeader (chain : HeaderChain) (tip : Header) (txId : ModifierId) (headerId : Bytes) :
    (chain.addHeader tip txId headerId).headers.getLast? = some tip := by
  rw [headers_addHeader]
  generalize chain.headers.drop _ = kept
  exact List.getLast?_concat ..

theorem headers_mk (downloader : BlockDownloader) (chain : HeaderChain) (synchronizer : Synchronizer)
    (v2SyncHeaders : List Header) :
    SyncHeights.headers ⟨⟨downloader, chain⟩, synchronizer, v2SyncHeaders⟩ = chain.headers := rfl

theorem getLast?_storeHeader (heights : SyncHeights) (tip : Header) :
    (SyncHeights.storeHeader sr heights tip).headers.getLast? = some tip := by
  unfold SyncHeights.storeHeader SyncProtocol.storeHeader
  rw [headers_mk]
  exact getLast?_addHeader ..

theorem atHeight_freshNode {headers : List Header} (tipAt : TipAt sr height headers) :
    AtHeight sr height (freshNode sr headers) := by
  obtain ⟨before, tip, bytes, rfl, at', written, read⟩ := tipAt
  have v2 : (freshNode sr (before ++ [tip])).heights.v2SyncHeaders = [tip] := v2SyncHeaders_stored before tip .new
  refine ⟨rfl, ?_, ?_⟩
  · have heights : (freshNode sr (before ++ [tip])).heights =
        SyncHeights.storeHeader sr (before.foldl (SyncHeights.storeHeader sr) .new) tip := by
      unfold freshNode
      dsimp only
      rw [List.foldl_append, List.foldl_cons, List.foldl_nil]
    rw [heights, getLast?_storeHeader, Option.map_some, at']
  · have serialized : (freshNode sr (before ++ [tip])).heights.serializedHeaders sr = [bytes] := by
      unfold SyncHeights.serializedHeaders
      rw [v2]
      simp [written, Except.toOption]
    unfold SyncHeights.buildV2SyncInfo
    rw [serialized, if_neg (List.cons_ne_nil bytes [])]
    unfold listedHeaders SyncInfo.isV2 SyncInfo.v2
    simp [read, Except.toOption, at']

theorem atHeight_onPeerConnected (atHeight : AtHeight sr height s) : AtHeight sr height (s.onPeerConnected sr now id) :=
  ⟨atHeight.fresh, atHeight.tip, atHeight.listed⟩

theorem sentTo_onPeerConnected : sentTo id s (s.onPeerConnected sr now id) = [s.heights.buildV2SyncInfo sr] := by
  unfold sentTo onPeerConnected sendSyncInfo
  dsimp only
  rw [List.drop_left]
  simp

theorem busy_connectedPair {headers : Side → List Header} (tips : ∀ side, TipAt sr height (headers side)) :
    Busy sr peer height 0 (connectedPair sr peer headers) ∧ exchanged peer (connectedPair sr peer headers) = 2 := by
  have node (side : Side) : (connectedPair sr peer headers).node side =
      (freshNode sr (headers side)).onPeerConnected sr 0 (peer side.other) := by
    cases side <;> rfl
  have atHeight (side : Side) : AtHeight sr height (freshNode sr (headers side)) := atHeight_freshNode (tips side)
  have inbox (side : Side) : (connectedPair sr peer headers).inbox side =
      [(freshNode sr (headers side.other)).heights.buildV2SyncInfo sr] := by
    cases side with
    | first | second => exact sentTo_onPeerConnected
  refine ⟨⟨⟨fun side => ?_, fun side info member => ?_⟩, Int.le_refl _, fun side => ?_, fun side => ?_⟩, ?_⟩
  · rw [node]
    exact atHeight_onPeerConnected (atHeight side)
  · rw [inbox] at member
    rw [List.mem_singleton.mp member]
    exact (atHeight side.other).listed
  · rw [inbox]
    exact List.cons_ne_nil _ _
  · rw [node]
    unfold ignores onPeerConnected sendSyncInfo
    dsimp only
    rw [AList.lookup_insert, Option.any_some]
    rfl
  · have one (side : Side) : sentBy peer side (connectedPair sr peer headers) = 1 := by
      unfold sentBy
      rw [node]
      exact answers_sendSyncInfo
    rw [@exchanged_of_side peer _ .first, one, one]

/-- Two nodes that were started without headers and have come to the same height, be it by the same chain, answer
each other's SyncInfos as fast as they come, for as long as they are connected. -/
theorem answered_endlessly (sr : SigmaRust) (peer : Side → PeerId) {height : Nat} (positive : 0 < height)
    (headers : Side → List Header) (tips : ∀ side, TipAt sr height (headers side)) :
    (∀ actions t, Along (SyncLink.step sr peer) (Heard peer) (connectedPair sr peer headers) actions →
      run (SyncLink.step sr peer) (connectedPair sr peer headers) actions = some t →
      exchanged peer t = 2 + actions.length) ∧
    ∀ rounds : Nat, ∃ actions t, Along (SyncLink.step sr peer) (Heard peer) (connectedPair sr peer headers) actions ∧
      run (SyncLink.step sr peer) (connectedPair sr peer headers) actions = some t ∧
      t.clock ≤ PeerSyncState.perPeerSyncLockTime * rounds ∧ exchanged peer t = 2 + 2 * rounds := by
  obtain ⟨busy, two⟩ := @busy_connectedPair sr peer height headers tips
  have all (actions : List (Int × SyncLink.Action)) (t : SyncLink)
      (heard : Along (SyncLink.step sr peer) (Heard peer) (connectedPair sr peer headers) actions)
      (ran : run (SyncLink.step sr peer) (connectedPair sr peer headers) actions = some t) :
      exchanged peer t = 2 + actions.length := by
    rw [exchanged_level positive busy.level heard ran, two]
  refine ⟨all, fun rounds => ?_⟩
  obtain ⟨actions, t, length, heard, ran, clock⟩ := busy_rounds positive busy rounds
  rw [Int.zero_add] at clock
  exact ⟨actions, t, heard, ran, clock, by rw [all actions t heard ran, length]⟩

end Endless

section Samples
open Sample

def sampleIds : Side → PeerId
  | .first => [1]
  | .second => [2]

def unequalPair : SyncLink :=
  connectedPair chainCodec sampleIds fun
    | .first => [header11]
    | .second => [header11, header12, header13]

def shortExchange : List (Int × SyncLink.Action) :=
  [(100, .deliver .first), (100, .deliver .second), (250, .deliver .first), (250, .deliver .second),
    (400, .deliver .second)]

def afterShortExchange : SyncLink :=
  (run (SyncLink.step chainCodec sampleIds) unequalPair shortExchange).getD unequalPair

theorem shortExchange_ran :
    run (SyncLink.step chainCodec sampleIds) unequalPair shortExchange = some afterShortExchange := by
  have taken : (run (SyncLink.step chainCodec sampleIds) unequalPair shortExchange).isSome := by decide
  exact (Option.getD_of_ne_none (Option.isSome_iff_ne_none.mp taken) _).symm

/-- A hundred answers in five seconds. -/
theorem equalPair_endless : ∃ actions t,
    run (SyncLink.step chainCodec sampleIds) (connectedPair chainCodec sampleIds fun _ => [header11, header12]) actions = some t ∧
      t.clock ≤ 5000 ∧ exchanged sampleIds t = 102 := by
  have tip : TipAt chainCodec 2 [header11, header12] := ⟨[header11], header12, [0], rfl, rfl, by decide, by decide⟩
  obtain ⟨-, rounds⟩ := answered_endlessly chainCodec sampleIds Nat.two_pos (fun _ => [header11, header12]) fun _ => tip
  obtain ⟨actions, t, -, ran, clock, many⟩ := rounds 50
  exact ⟨actions, t, ran, clock, many⟩

end Samples
end ErgoNode.Proof.Sync
