import ErgoNode.Lib.Run
import ErgoNode.Proof.Network.Bans

/-!
# Connections and bans

What the peer manager knows of a connection is kept three times: in the peer's record, in the set of connected
peers and in the table of bans. Each call changes some of them.
-/

namespace ErgoNode.Proof.Network
open Lib PeerManager

/-! ### Agreement -/

structure Agrees (manager : PeerManager) (now : Nat) : Prop where
  connected : ∀ id, id ∈ manager.connected ↔ ∃ peer, manager.peers.lookup id = some peer ∧ peer.state = .connected
  banned : ∀ id peer, manager.peers.lookup id = some peer →
    (peer.state = .banned ↔ Unexpired manager now peer.addr)

section Agreement
variable {manager : PeerManager} {now : Nat} {id : PeerId} {peer old : PeerInfo} {addr : SocketAddr}

theorem Agrees.isConnected (agrees : Agrees manager now) (known : manager.peers.lookup id = some peer) :
    id ∈ manager.connected ↔ peer.state = .connected := by
  rw [agrees.connected, known]
  simp

theorem agrees_insert_iff (next : PeerManager) (agrees : Agrees manager now) (peers : next.peers = manager.peers.insert id peer)
    (others : ∀ other, other ≠ id → (other ∈ next.connected ↔ other ∈ manager.connected)) :
    Agrees next now ↔ (id ∈ next.connected ↔ peer.state = .connected) ∧
      (peer.state = .banned ↔ Unexpired next now peer.addr) ∧
      ∀ other, other ≠ id → ∀ info, manager.peers.lookup other = some info →
        (Unexpired next now info.addr ↔ Unexpired manager now info.addr) := by
  have here : next.peers.lookup id = some peer := by rw [peers, AList.lookup_insert]
  have there (other : PeerId) (different : other ≠ id) :
      next.peers.lookup other = manager.peers.lookup other := by
    rw [peers, AList.lookup_insert_ne different]
  constructor
  · intro after
    refine ⟨after.isConnected here, after.banned id peer here, fun other different info known => ?_⟩
    rw [← after.banned other info ((there other different).trans known), agrees.banned other info known]
  · rintro ⟨isConnected, isBanned, kept⟩
    constructor
    · intro other
      by_cases same : other = id
      · subst same
        rw [isConnected, here]
        simp
      · rw [others other same, there other same, agrees.connected]
    · intro other info known
      by_cases same : other = id
      · subst same
        rw [here] at known
        cases known
        exact isBanned
      · rw [there other same] at known
        rw [kept other same info known, agrees.banned other info known]

theorem unexpired_congr {next : PeerManager} (banned : next.banned = manager.banned) :
    Unexpired next now addr ↔ Unexpired manager now addr := by
  rw [Unexpired, Unexpired, banned]

theorem agrees_record_iff (next : PeerManager) (agrees : Agrees manager now)
    (peers : next.peers = manager.peers.insert id peer) (banned : next.banned = manager.banned)
    (others : ∀ other, other ≠ id → (other ∈ next.connected ↔ other ∈ manager.connected)) :
    Agrees next now ↔ (id ∈ next.connected ↔ peer.state = .connected) ∧
      (peer.state = .banned ↔ Unexpired manager now peer.addr) := by
  rw [agrees_insert_iff next agrees peers others, unexpired_congr banned]
  exact and_congr_right fun _ => and_iff_left fun _ _ _ _ => unexpired_congr banned

theorem agrees_iff_kept (next : PeerManager) {later : Nat} (agrees : Agrees manager now) (peers : next.peers = manager.peers)
    (connected : next.connected = manager.connected) : Agrees next later ↔
      ∀ id info, manager.peers.lookup id = some info →
        (Unexpired next later info.addr ↔ Unexpired manager now info.addr) := by
  constructor
  · intro after id info known
    rw [← after.banned id info (peers ▸ known), agrees.banned id info known]
  · intro kept
    constructor
    · intro id
      rw [peers, connected, agrees.connected]
    · intro id info known
      rw [peers] at known
      rw [kept id info known, agrees.banned id info known]

end Agreement

/-! ### Calls -/

inductive PeerCall where
  | addPeer (info : PeerInfo)
  | setState (id : PeerId) (state : PeerState)
  | penalize (id : PeerId) (reason : PenaltyReason)
  | penalizeAmount (id : PeerId) (amount : Nat)
  | unban (order : Iteration PeerId PeerInfo) (addr : SocketAddr)
  | cleanupExpiredBans
  | wait (duration : Nat)

structure PeerRun where
  manager : PeerManager
  now : Nat

namespace PeerRun

def start (banDuration now : Nat) : PeerRun := ⟨.new banDuration, now⟩

def after (s : PeerRun) : PeerCall → PeerRun
  | .addPeer info => ⟨s.manager.addPeer info, s.now⟩
  | .setState id state => ⟨s.manager.setState s.now id state, s.now⟩
  | .penalize id reason => ⟨(s.manager.penalize s.now id reason).2, s.now⟩
  | .penalizeAmount id amount => ⟨(s.manager.penalizeAmount s.now id amount).2, s.now⟩
  | .unban order addr => ⟨s.manager.unban order s.now addr, s.now⟩
  | .cleanupExpiredBans => ⟨s.manager.cleanupExpiredBans s.now, s.now⟩
  | .wait duration => ⟨s.manager, s.now + duration⟩

def step (s : PeerRun) (call : PeerCall) : Option PeerRun := some (s.after call)

end PeerRun

def Bans (s : PeerRun) (peer : PeerInfo) (amount : Nat) : Prop :=
  (peer.score.applyPenaltyAmount s.now amount).shouldBan s.now

/-- A ban that starts now is seen, and no other known peer has the address, unless it is banned already. -/
def BansOne (s : PeerRun) (id : PeerId) (amount : Nat) : Prop :=
  ∀ peer, s.manager.peers.lookup id = some peer → Bans s peer amount → 0 < s.manager.banDuration ∧
    ∀ other, other ≠ id → ∀ info, s.manager.peers.lookup other = some info → info.addr = peer.addr →
      Unexpired s.manager s.now peer.addr

def KeepsAgreement (s : PeerRun) : PeerCall → Prop
  | .addPeer info =>
      (info.id ∈ s.manager.connected ↔ info.state = .connected) ∧
        (info.state = .banned ↔ Unexpired s.manager s.now info.addr)
  | .setState id state => ∀ peer, s.manager.peers.lookup id = some peer →
      (state = .connecting ∨ state = .handshaking → id ∉ s.manager.connected) ∧
        (state = .banned ↔ Unexpired s.manager s.now peer.addr)
  | .penalize id reason => BansOne s id reason.penalty
  | .penalizeAmount id amount => BansOne s id amount
  | .unban _ addr => Unexpired s.manager s.now addr → ∀ id other info second,
      s.manager.peers.lookup id = some info → s.manager.peers.lookup other = some second →
      info.addr = addr → second.addr = addr → id = other
  | .cleanupExpiredBans => True
  | .wait duration => ∀ id peer, s.manager.peers.lookup id = some peer →
      Unexpired s.manager s.now peer.addr → Unexpired s.manager (s.now + duration) peer.addr

section Calls
variable {s t : PeerRun} {call : PeerCall} {id : PeerId} {peer : PeerInfo}

theorem agrees_addPeer_iff (agrees : Agrees s.manager s.now) (info : PeerInfo) :
    Agrees (s.manager.addPeer info) s.now ↔ KeepsAgreement s (.addPeer info) :=
  agrees_record_iff (s.manager.addPeer info) agrees rfl rfl fun _ _ => Iff.rfl

def connectedAfter (id : PeerId) (connected : List PeerId) : PeerState → List PeerId
  | .connected => connected.insert id
  | .disconnected | .banned => connected.filter (· ≠ id)
  | .connecting | .handshaking => connected

theorem mem_connectedAfter_of_ne {connected : List PeerId} {state : PeerState} {other : PeerId}
    (different : other ≠ id) : other ∈ connectedAfter id connected state ↔ other ∈ connected := by
  cases state <;> simp [connectedAfter, different]

theorem mem_connectedAfter_iff {connected : List PeerId} {state : PeerState} :
    (id ∈ connectedAfter id connected state ↔ state = .connected) ↔
      (state = .connecting ∨ state = .handshaking → id ∉ connected) := by
  cases state <;> simp [connectedAfter]

theorem setState_eq {manager : PeerManager} {now : Nat} (known : manager.peers.lookup id = some peer)
    (state : PeerState) : manager.setState now id state = { manager with
      peers := manager.peers.insert id { peer with state, lastSeen := now }
      connected := connectedAfter id manager.connected state } := by
  rw [setState, known]
  cases state <;> rfl

theorem agrees_setState_iff (agrees : Agrees s.manager s.now) (id : PeerId) (state : PeerState) :
    Agrees (s.manager.setState s.now id state) s.now ↔ KeepsAgreement s (.setState id state) := by
  cases known : s.manager.peers.lookup id with
  | none =>
      have same : s.manager.setState s.now id state = s.manager := by rw [setState, known]
      rw [same]
      refine iff_of_true agrees fun peer found => ?_
      rw [known] at found
      cases found
  | some peer =>
      rw [setState_eq known, agrees_record_iff { s.manager with
        peers := s.manager.peers.insert id { peer with state, lastSeen := s.now }
        connected := connectedAfter id s.manager.connected state } agrees rfl rfl
        fun _ => mem_connectedAfter_of_ne]
      simp only [KeepsAgreement, known, Option.some.injEq, forall_eq']
      rw [mem_connectedAfter_iff]

theorem unexpired_cleanup {manager : PeerManager} {now : Nat} {addr : SocketAddr} :
    Unexpired (manager.cleanupExpiredBans now) now addr ↔ Unexpired manager now addr := by
  refine exists_congr fun unbanTime => and_congr_left fun later => ?_
  rw [Option.mem_def, Option.mem_def, cleanupExpiredBans, Entries.lookup_retain]
  exact and_iff_left (decide_eq_true later)

theorem agrees_cleanup (agrees : Agrees s.manager s.now) : Agrees (s.manager.cleanupExpiredBans s.now) s.now :=
  (agrees_iff_kept (s.manager.cleanupExpiredBans s.now) agrees rfl rfl).mpr fun _ _ _ => unexpired_cleanup

theorem agrees_wait_iff (agrees : Agrees s.manager s.now) (duration : Nat) :
    Agrees s.manager (s.now + duration) ↔ KeepsAgreement s (.wait duration) := by
  refine (agrees_iff_kept s.manager agrees rfl rfl).trans (forall₃_congr fun id peer known => ?_)
  refine ⟨Iff.mpr, fun later => ⟨?_, later⟩⟩
  rintro ⟨unbanTime, entry, passed⟩
  exact ⟨unbanTime, entry, Nat.lt_of_le_of_lt (Nat.le_add_right _ _) passed⟩

theorem unexpired_insert_iff {manager next : PeerManager} {now unbanTime : Nat} {addr other : SocketAddr}
    (banned : next.banned = manager.banned.insert addr unbanTime) : Unexpired next now other ↔
      if other = addr then now < unbanTime else Unexpired manager now other := by
  rw [Unexpired, banned]
  split
  · next same =>
      rw [same, AList.lookup_insert]
      simp
  · next different => rw [AList.lookup_insert_ne different, Unexpired]

theorem penalizeAmount_banning (known : s.manager.peers.lookup id = some peer) {amount : Nat}
    (bans : Bans s peer amount) : (s.manager.penalizeAmount s.now id amount).2 = { s.manager with
      peers := s.manager.peers.insert id
        { peer with score := peer.score.applyPenaltyAmount s.now amount, state := .banned }
      connected := s.manager.connected.filter (· ≠ id)
      banned := s.manager.banned.insert peer.addr (s.now + s.manager.banDuration) } := by
  rw [Bans] at bans
  rw [penalizeAmount, known]
  dsimp only
  rw [if_pos bans]

theorem penalizeAmount_sparing (known : s.manager.peers.lookup id = some peer) {amount : Nat}
    (spares : ¬ Bans s peer amount) : (s.manager.penalizeAmount s.now id amount).2 = { s.manager with
      peers := s.manager.peers.insert id { peer with score := peer.score.applyPenaltyAmount s.now amount } } := by
  rw [Bans] at spares
  rw [penalizeAmount, known]
  dsimp only
  rw [if_neg spares]

theorem agrees_penalizeAmount_iff (agrees : Agrees s.manager s.now) (id : PeerId) (amount : Nat) :
    Agrees (s.manager.penalizeAmount s.now id amount).2 s.now ↔ BansOne s id amount := by
  cases known : s.manager.peers.lookup id with
  | none =>
      rw [penalizeAmount, known]
      refine iff_of_true agrees fun peer found => ?_
      rw [known] at found
      cases found
  | some peer =>
      simp only [BansOne, known, Option.some.injEq, forall_eq']
      by_cases bans : Bans s peer amount
      · rw [forall_prop_of_true bans]
        generalize penalized : (s.manager.penalizeAmount s.now id amount).2 = next
        rw [penalizeAmount_banning known bans] at penalized
        have banned : next.banned = s.manager.banned.insert peer.addr (s.now + s.manager.banDuration) := by
          rw [← penalized]
        rw [agrees_insert_iff next agrees (by rw [← penalized])
          (fun other different => by simp [← penalized, different])]
        have removed : id ∉ next.connected := by simp [← penalized]
        have starts : s.now < s.now + s.manager.banDuration ↔ 0 < s.manager.banDuration := Nat.lt_add_right_iff_pos
        simp only [unexpired_insert_iff banned, starts]
        constructor
        · rintro ⟨-, seen, others⟩
          have positive : 0 < s.manager.banDuration := by simpa using seen
          refine ⟨positive, fun other different info found same => ?_⟩
          have kept := others other different info found
          rw [if_pos same, same] at kept
          exact kept.mp positive
        · rintro ⟨positive, others⟩
          refine ⟨iff_of_false removed nofun, by simpa using positive, fun other different info found => ?_⟩
          split
          · next same =>
              rw [same]
              exact iff_of_true positive (others other different info found same)
          · exact Iff.rfl
      · rw [penalizeAmount_sparing known bans, forall_prop_of_false bans, iff_true]
        rw [agrees_record_iff { s.manager with
          peers := s.manager.peers.insert id { peer with score := peer.score.applyPenaltyAmount s.now amount } } agrees rfl
          rfl fun _ _ => Iff.rfl]
        have isConnected := agrees.isConnected known
        have isBanned := agrees.banned id peer known
        exact ⟨isConnected, isBanned⟩

theorem not_unexpired_erase {manager next : PeerManager} {now : Nat} {addr : SocketAddr}
    (banned : next.banned = manager.banned.erase addr) : ¬ Unexpired next now addr := by
  rw [Unexpired, banned, AList.lookup_erase]
  simp

theorem unexpired_erase_of_ne {manager next : PeerManager} {now : Nat} {addr other : SocketAddr}
    (banned : next.banned = manager.banned.erase addr) (different : other ≠ addr) :
    Unexpired next now other ↔ Unexpired manager now other := by
  rw [Unexpired, banned, AList.lookup_erase_ne different, Unexpired]

variable {order : Iteration PeerId PeerInfo} {addr : SocketAddr}

theorem unban_unknown (none : (order.entries s.manager.peers).find? (fun entry => entry.2.addr = addr) = none) :
    s.manager.unban order s.now addr = { s.manager with banned := s.manager.banned.erase addr } := by
  rw [unban]
  dsimp only
  rw [none]

theorem unban_known
    (found : (order.entries s.manager.peers).find? (fun entry => entry.2.addr = addr) = some (id, peer)) :
    s.manager.unban order s.now addr = { s.manager with
      banned := s.manager.banned.erase addr
      peers := s.manager.peers.insert id { peer with
        score := .new s.now, state := if peer.state = .banned then .disconnected else peer.state } } := by
  rw [unban]
  dsimp only
  rw [found]

theorem agrees_unban_iff (agrees : Agrees s.manager s.now) :
    Agrees (s.manager.unban order s.now addr) s.now ↔ KeepsAgreement s (.unban order addr) := by
  have listed (id : PeerId) (peer : PeerInfo) : (id, peer) ∈ order.entries s.manager.peers ↔
      s.manager.peers.lookup id = some peer := Entries.mem_of_perm (order.perm s.manager.peers)
  generalize unbanned : s.manager.unban order s.now addr = next
  cases found : (order.entries s.manager.peers).find? fun entry => entry.2.addr = addr with
  | none =>
      rw [unban_unknown found] at unbanned
      have elsewhere (id : PeerId) (peer : PeerInfo) (known : s.manager.peers.lookup id = some peer) :
          peer.addr ≠ addr := by
        simpa using List.find?_eq_none.mp found (id, peer) ((listed id peer).mpr known)
      refine iff_of_true ?_ ?_
      · rw [agrees_iff_kept next agrees (by rw [← unbanned]) (by rw [← unbanned])]
        exact fun id peer known => unexpired_erase_of_ne (by rw [← unbanned]) (elsewhere id peer known)
      · exact fun _ id _ peer _ known _ same => absurd same (elsewhere id peer known)
  | some entry =>
      obtain ⟨id, peer⟩ := entry
      rw [unban_known found] at unbanned
      have known := (listed id peer).mp (List.mem_of_find?_eq_some found)
      have same : peer.addr = addr := by simpa using List.find?_some found
      have erased : next.banned = s.manager.banned.erase addr := by rw [← unbanned]
      rw [agrees_insert_iff next agrees (by rw [← unbanned]) (fun _ _ => by rw [← unbanned])]
      constructor
      · rintro ⟨-, -, others⟩ unexpired
        have only (other : PeerId) (info : PeerInfo) (there : s.manager.peers.lookup other = some info)
            (again : info.addr = addr) : other = id := by
          by_contra different
          have kept := others other different info there
          rw [again] at kept
          exact not_unexpired_erase erased (kept.mpr unexpired)
        intro first second info info' there there' again again'
        rw [only first info there again, only second info' there' again']
      · intro alone
        refine ⟨?_, ?_, fun other different info there => ?_⟩
        · have unchanged : next.connected = s.manager.connected := by rw [← unbanned]
          rw [unchanged, agrees.isConnected known]
          dsimp only
          split
          · next wasBanned => simp [wasBanned]
          · exact Iff.rfl
        · refine iff_of_false ?_ ?_
          · dsimp only
            split
            · exact nofun
            · next other => exact other
          · rw [same]
            exact not_unexpired_erase erased
        · by_cases again : info.addr = addr
          · rw [again]
            refine iff_of_false (not_unexpired_erase erased) fun unexpired => ?_
            exact different (alone unexpired other id info peer there known again same)
          · exact unexpired_erase_of_ne erased again

theorem agrees_after_iff (agrees : Agrees s.manager s.now) (call : PeerCall) :
    Agrees (s.after call).manager (s.after call).now ↔ KeepsAgreement s call := by
  cases call with
  | addPeer info => exact agrees_addPeer_iff agrees info
  | setState id state => exact agrees_setState_iff agrees id state
  | penalize id reason => exact agrees_penalizeAmount_iff agrees id reason.penalty
  | penalizeAmount id amount => exact agrees_penalizeAmount_iff agrees id amount
  | unban order addr => exact agrees_unban_iff agrees
  | cleanupExpiredBans => exact iff_of_true (agrees_cleanup agrees) trivial
  | wait duration => exact agrees_wait_iff agrees duration

end Calls

theorem agrees_start (banDuration now : Nat) : Agrees (.new banDuration) now where
  connected _ := by simp [PeerManager.new]
  banned _ _ known := by simp [PeerManager.new] at known

/-- The three records agree in every state of a run exactly when every call finds them in a state that lets it. -/
theorem always_agrees_iff (banDuration now : Nat) (calls : List PeerCall) :
    Always PeerRun.step (fun s => Agrees s.manager s.now) (.start banDuration now) calls ↔
      Along PeerRun.step KeepsAgreement (.start banDuration now) calls := by
  obtain ⟨last, ran⟩ : ∃ last, run PeerRun.step (.start banDuration now) calls = some last :=
    exists_run (fun _ _ => rfl) _ _
  refine always_iff_along ?_ ?_ (fun agrees => agrees) (agrees_start banDuration now) ran
  · rintro s call t agrees keeps taken
    cases taken
    exact (agrees_after_iff agrees call).mpr keeps
  · rintro s call t agrees taken after
    cases taken
    exact (agrees_after_iff agrees call).mp after

/-! ### A ban that ends -/

def localPeer : PeerInfo := ⟨[1], localAddr, .disconnected, .new 0, 0⟩

def bannedCalls : List PeerCall := [.addPeer localPeer, .penalize [1] .maliciousBehavior, .wait (3600 * 10 ^ 9)]

theorem bannedCalls_disagree :
    ¬ Always PeerRun.step (fun s => Agrees s.manager s.now) (.start defaultBanDuration 0) bannedCalls := by
  intro always
  have agrees := always _ ⟨bannedCalls, List.prefix_refl _, rfl⟩
  have banned := agrees.banned [1] { localPeer with score := ⟨1000, 0⟩, state := .banned } (by decide +kernel)
  exact absurd (banned.mp rfl) (by decide +kernel)

end ErgoNode.Proof.Network
