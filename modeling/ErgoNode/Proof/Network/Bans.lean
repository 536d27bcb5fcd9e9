import ErgoNode.Network.PeerManager

/-!
# Asking for bans

The lookup of a ban keeps its shard for reading while the entry is removed, if it has expired: the call waits for
itself. The search for peers to connect to asks for the ban of every disconnected peer it meets.
-/

namespace ErgoNode.Proof.Network
open Lib Guards PeerManager

section Bans
variable (manager : PeerManager) (now : Nat) (addr : SocketAddr)

def Unexpired : Prop := ∃ unbanTime ∈ manager.banned.lookup addr, now < unbanTime

def Expired : Prop := ∃ unbanTime ∈ manager.banned.lookup addr, unbanTime ≤ now

instance : Decidable (Unexpired manager now addr) := inferInstanceAs (Decidable (∃ _ ∈ _, _))

instance : Decidable (Expired manager now addr) := inferInstanceAs (Decidable (∃ _ ∈ _, _))

variable {manager now addr} {sharding : Sharding} {held : List (PeerLock × Mode)}

def NoBanGuard (held : List (PeerLock × Mode)) : Prop := ∀ guard ∈ held, ∀ shard, guard.1 ≠ .banned shard

theorem NoBanGuard.free (none : NoBanGuard held) (shard : Nat) (mode : Mode) :
    held.any (blocks (.banned shard) mode) = false := by
  rw [List.any_eq_false]
  intro guard member
  simp [blocks, none guard member shard]

theorem exec_isBanned (none : NoBanGuard held) (current : ¬ Expired manager now addr) :
    (isBanned sharding now addr).exec ⟨manager, held⟩ = (.ok (decide (Unexpired manager now addr)), ⟨manager, held⟩) := by
  apply exec_withGuard (none.free _ _)
  rw [Op.exec_bind_of_ok (Op.exec_get _)]
  dsimp only
  cases entry : manager.banned.lookup addr with
  | none => simp [Unexpired, entry]
  | some unbanTime =>
      have later : now < unbanTime := by
        by_contra passed
        exact current ⟨unbanTime, entry, Nat.le_of_not_lt passed⟩
      simp [Unexpired, entry, later]

theorem stuck_isBanned (none : NoBanGuard held) (expired : Expired manager now addr) :
    Stuck (isBanned sharding now addr) ⟨manager, held⟩ := by
  obtain ⟨unbanTime, entry, passed⟩ := expired
  refine Stuck.withGuard (none.free _ _) (Stuck.later (Op.exec_get _) ?_)
  dsimp only
  rw [Option.mem_def.mp entry]
  dsimp only
  rw [if_neg (Nat.not_lt.mpr passed)]
  exact (stuck_of_held (by simp [blocks])).bind

/-! ### Peers to connect to -/

def eligible (manager : PeerManager) (now : Nat) (entry : PeerId × PeerInfo) : Bool :=
  entry.2.state = .disconnected ∧ ¬ Unexpired manager now entry.2.addr

/-- No disconnected peer that is met before there are enough has a ban that has expired. -/
def NoneExpired (manager : PeerManager) (now : Nat) (count : Nat) (entries : List (PeerId × PeerInfo)) : Prop :=
  ∀ front entry back, entries = front ++ entry :: back → (front.filter (eligible manager now)).length < count →
    entry.2.state = .disconnected → ¬ Expired manager now entry.2.addr

variable {count : Nat} {entry : PeerId × PeerInfo} {rest : List (PeerId × PeerInfo)}

theorem noneExpired_cons : NoneExpired manager now (count + 1) (entry :: rest) ↔
    (entry.2.state = .disconnected → ¬ Expired manager now entry.2.addr) ∧
      NoneExpired manager now (if eligible manager now entry then count else count + 1) rest := by
  constructor
  · intro clear
    refine ⟨clear [] entry rest rfl (Nat.succ_pos count), fun front other back split few => ?_⟩
    refine clear (entry :: front) other back (by rw [split]; rfl) ?_
    rw [List.filter_cons]
    split at few
    · next counts => simpa [counts] using few
    · next counts => simpa [counts] using few
  · rintro ⟨first, later⟩ front other back split few
    cases front with
    | nil =>
        cases split
        exact first
    | cons head front =>
        cases split
        refine later front other back rfl ?_
        rw [List.filter_cons] at few
        split
        · next counts => simpa [counts] using few
        · next counts => simpa [counts] using few

def turn (sharding : Sharding) (now : Nat) (entry : PeerId × PeerInfo) : PeerOp Bool :=
  withGuard (.peers (sharding.peer entry.1)) .read do
    if entry.2.state = .disconnected then return !(← isBanned sharding now entry.2.addr)
    else return false

theorem exec_turn (current : entry.2.state = .disconnected → ¬ Expired manager now entry.2.addr) :
    (turn sharding now entry).exec ⟨manager, []⟩ = (.ok (eligible manager now entry), ⟨manager, []⟩) := by
  apply exec_withGuard rfl
  rw [Op.exec_ite]
  split
  · next idle =>
      have asked := @exec_isBanned manager now entry.2.addr sharding
        [(.peers (sharding.peer entry.1), .read)] (by simp [NoBanGuard]) (current idle)
      rw [Op.exec_bind_of_ok asked]
      simp [eligible, idle]
  · next busy => simp [eligible, busy]

theorem stuck_turn (idle : entry.2.state = .disconnected) (expired : Expired manager now entry.2.addr) :
    Stuck (turn sharding now entry) ⟨manager, []⟩ := by
  refine Stuck.withGuard rfl ?_
  rw [if_pos idle]
  exact (stuck_isBanned (by simp [NoBanGuard]) expired).bind

theorem toConnect_cons : toConnect sharding now (count + 1) (entry :: rest) =
    (turn sharding now entry >>= fun kept =>
      if kept then toConnect sharding now count rest >>= fun later => return entry.2.addr :: later
      else toConnect sharding now (count + 1) rest) := rfl

theorem exec_toConnect (entries : List (PeerId × PeerInfo)) (clear : NoneExpired manager now count entries) :
    (toConnect sharding now count entries).exec ⟨manager, []⟩ =
      (.ok (((entries.filter (eligible manager now)).take count).map fun entry => entry.2.addr), ⟨manager, []⟩) := by
  induction entries generalizing count with
  | nil => cases count <;> rfl
  | cons entry rest ih =>
      cases count with
      | zero => rfl
      | succ count =>
          obtain ⟨first, later⟩ := noneExpired_cons.mp clear
          rw [toConnect_cons, Op.exec_bind_of_ok (exec_turn first), List.filter_cons]
          split at later
          · next counts =>
              rw [if_pos counts, if_pos counts, Op.exec_bind_of_ok (ih later)]
              rfl
          · next counts =>
              rw [if_neg counts, if_neg counts]
              exact ih later

theorem stuck_toConnect (entries : List (PeerId × PeerInfo)) (reached : ¬ NoneExpired manager now count entries) :
    Stuck (toConnect sharding now count entries) ⟨manager, []⟩ := by
  induction entries generalizing count with
  | nil => exact absurd (fun front entry back split => by simp at split) reached
  | cons entry rest ih =>
      cases count with
      | zero => exact absurd (fun front entry back _ few => absurd few (Nat.not_lt_zero _)) reached
      | succ count =>
          rw [noneExpired_cons, not_and_or] at reached
          rw [toConnect_cons]
          by_cases first : entry.2.state = .disconnected → ¬ Expired manager now entry.2.addr
          · refine Stuck.later (exec_turn first) ?_
            have later := reached.resolve_left (not_not_intro first)
            split at later
            · next counts =>
                rw [if_pos counts]
                exact (ih later).bind
            · next counts =>
                rw [if_neg counts]
                exact ih later
          · obtain ⟨idle, expired⟩ := Classical.not_imp.mp first
            exact (stuck_turn idle (not_not.mp expired)).bind

end Bans

structure Answers (sharding : Sharding) (order : Iteration PeerId PeerInfo) (manager : PeerManager) (now : Nat)
    (addr : SocketAddr) (count : Nat) : Prop where
  isBanned : (isBanned sharding now addr).exec ⟨manager, []⟩ =
    (.ok (decide (Unexpired manager now addr)), ⟨manager, []⟩)
  toConnect : (getPeersToConnect sharding now order count).exec ⟨manager, []⟩ =
    (.ok ((((order.entries manager.peers).filter (eligible manager now)).take count).map fun entry => entry.2.addr),
      ⟨manager, []⟩)

/-- The calls return, with the right answers, exactly when they meet no ban that has expired. -/
theorem answers_iff (sharding : Sharding) (order : Iteration PeerId PeerInfo) (manager : PeerManager) (now : Nat)
    (addr : SocketAddr) (count : Nat) : Answers sharding order manager now addr count ↔
      ¬ Expired manager now addr ∧ NoneExpired manager now count (order.entries manager.peers) := by
  constructor
  · rintro ⟨asked, searched⟩
    constructor
    · intro expired
      exact not_stuck asked (stuck_isBanned (by simp [NoBanGuard]) expired)
    · by_contra reached
      exact not_stuck searched (Stuck.later (Op.exec_get _) (stuck_toConnect _ reached))
  · rintro ⟨current, clear⟩
    refine ⟨exec_isBanned (by simp [NoBanGuard]) current, ?_⟩
    rw [getPeersToConnect, Op.exec_bind_of_ok (Op.exec_get _)]
    exact exec_toConnect _ clear

def oneShard : Sharding := ⟨fun _ => 0, fun _ => 0⟩

def localAddr : SocketAddr := .v4 2130706433 9030

def entryOrder : Iteration PeerId PeerInfo := ⟨_, fun _ => .rfl⟩

def lapsedBan : PeerManager :=
  { PeerManager.new defaultBanDuration with banned := (∅ : Table SocketAddr Nat).insert localAddr 5 }

theorem lapsedBan_not_answered : ¬ Answers oneShard entryOrder lapsedBan 10 localAddr 1 := by
  intro answers
  exact not_stuck answers.isBanned (stuck_isBanned (by simp [NoBanGuard]) (by decide))

end ErgoNode.Proof.Network
