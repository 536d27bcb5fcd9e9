import ErgoNode.Lib.Entries
import ErgoNode.Lib.Run
import ErgoNode.Lib.Wrapping
import ErgoNode.Wallet.Tracker

/-!
# The wallet's balance

The tracker adds up all boxes in its lists. That is the sum over the boxes that the wallet holds as long as no box
is in the lists twice, and the sums fit their words.
-/

namespace ErgoNode.Proof.Wallet
open Lib BoxTracker

/-! ### Sums -/

def ergTotal (boxes : List WalletBox) : Nat := (boxes.map fun walletBox => walletBox.value.toNat).sum

def amountOf (tokenId : Bytes) (tokens : List (Bytes × UInt64)) : Nat :=
  (tokens.map fun token => if token.1 = tokenId then token.2.toNat else 0).sum

def tokenTotal (boxes : List WalletBox) (tokenId : Bytes) : Nat :=
  (boxes.map fun walletBox => amountOf tokenId walletBox.tokens).sum

structure Fits (boxes : List WalletBox) : Prop where
  erg : ergTotal boxes < 2 ^ 64
  token : ∀ tokenId, tokenTotal boxes tokenId < 2 ^ 64

structure BalanceOf (boxes : List WalletBox) (balance : WalletBalance) : Prop where
  totalErg : balance.totalErg.toNat = ergTotal boxes
  confirmedErg : balance.confirmedErg.toNat = ergTotal boxes
  pendingErg : balance.pendingErg = 0
  token : ∀ tokenId, ((balance.tokens.lookup tokenId).getD 0).toNat = tokenTotal boxes tokenId

section Sums
variable {boxes others : List WalletBox} {tokenId : Bytes}

theorem lookup_foldl_addToken (tokens : List (Bytes × UInt64)) (table : Table Bytes UInt64) :
    (((tokens.foldl WalletBalance.addToken table).lookup tokenId).getD 0).toNat =
      (((table.lookup tokenId).getD 0).toNat + amountOf tokenId tokens) % 2 ^ 64 := by
  refine toNat_foldl_add (fun table => (table.lookup tokenId).getD 0) (fun table token => ?_) tokens table
  rw [WalletBalance.addToken]
  split
  · next same =>
      subst same
      rw [AList.lookup_insert, Option.getD_some, UInt64.toNat_add]
  · next different =>
      rw [AList.lookup_insert_ne (Ne.symm different), Nat.add_zero]
      exact (Nat.mod_eq_of_lt (UInt64.toNat_lt _)).symm

/-- The balance is right when all sums fit, and only then. -/
theorem balanceOf_iff_fits (sameErg : ergTotal boxes = ergTotal others)
    (sameTokens : ∀ tokenId, tokenTotal boxes tokenId = tokenTotal others tokenId) :
    BalanceOf others (boxes.foldl WalletBalance.addBox .empty) ↔ Fits others := by
  have total : (boxes.foldl WalletBalance.addBox .empty).totalErg.toNat = ergTotal others % 2 ^ 64 := by
    rw [toNat_foldl_add WalletBalance.totalErg (fun _ _ => UInt64.toNat_add _ _), ← sameErg]
    exact congrArg (· % 2 ^ 64) (Nat.zero_add _)
  have confirmed : (boxes.foldl WalletBalance.addBox .empty).confirmedErg.toNat = ergTotal others % 2 ^ 64 := by
    rw [toNat_foldl_add WalletBalance.confirmedErg (fun _ _ => UInt64.toNat_add _ _), ← sameErg]
    exact congrArg (· % 2 ^ 64) (Nat.zero_add _)
  have token (tokenId : Bytes) : (((boxes.foldl WalletBalance.addBox .empty).tokens.lookup tokenId).getD 0).toNat =
      tokenTotal others tokenId % 2 ^ 64 := by
    have adds (balance : WalletBalance) (walletBox : WalletBox) :
        (((balance.addBox walletBox).tokens.lookup tokenId).getD 0).toNat =
          (((balance.tokens.lookup tokenId).getD 0).toNat + amountOf tokenId walletBox.tokens) % 2 ^ 64 :=
      lookup_foldl_addToken walletBox.tokens balance.tokens
    have sum := toNat_foldl_add (fun balance : WalletBalance => (balance.tokens.lookup tokenId).getD 0) adds boxes .empty
    rw [← sameTokens]
    exact sum.trans (congrArg (· % 2 ^ 64) (Nat.zero_add _))
  have pending : (boxes.foldl WalletBalance.addBox .empty).pendingErg = 0 :=
    List.foldlRecOn boxes WalletBalance.addBox (motive := fun balance : WalletBalance => balance.pendingErg = 0) rfl
      fun _ kept _ _ => kept
  constructor
  · intro right
    constructor
    · rw [← right.totalErg]
      exact UInt64.toNat_lt _
    · intro tokenId
      rw [← right.token tokenId]
      exact UInt64.toNat_lt _
  · intro fits
    refine ⟨?_, ?_, pending, fun tokenId => ?_⟩
    · rw [total, Nat.mod_eq_of_lt fits.erg]
    · rw [confirmed, Nat.mod_eq_of_lt fits.erg]
    · rw [token, Nat.mod_eq_of_lt (fits.token tokenId)]

end Sums

/-! ### What the tracker holds -/

def heldBoxes (boxes : Table String (List WalletBox)) : List WalletBox := boxes.entries.flatMap Sigma.snd

section Held
variable {boxes : Table String (List WalletBox)} {address : String} {addrBoxes : List WalletBox} {boxId : Bytes}

theorem heldBoxes_insert : heldBoxes (boxes.insert address addrBoxes) = addrBoxes ++ heldBoxes (boxes.erase address) :=
  rfl

theorem heldBoxes_perm (found : boxes.lookup address = some addrBoxes) :
    (heldBoxes boxes).Perm (addrBoxes ++ heldBoxes (boxes.erase address)) :=
  (Entries.perm_erase found).flatMap_right _

theorem heldBoxes_erase (absent : boxes.lookup address = none) : heldBoxes (boxes.erase address) = heldBoxes boxes := by
  rw [AList.lookup_eq_none, AList.mem_keys] at absent
  exact congrArg (List.flatMap Sigma.snd) (List.kerase_of_notMem_keys absent)

theorem getUnspent_perm (order : Iteration String (List WalletBox)) (tracker : BoxTracker) :
    (tracker.getUnspent order).Perm ((heldBoxes tracker.boxes).filter fun walletBox => !walletBox.pendingSpent) := by
  refine List.Perm.filter _ (((order.perm tracker.boxes).flatMap_right _).trans ?_)
  rw [List.flatMap_map]
  rfl

theorem heldBoxes_removeSpent (tracker : BoxTracker) (boxIds : List Bytes) :
    heldBoxes (tracker.removeSpent boxIds).boxes =
      (heldBoxes tracker.boxes).filter fun walletBox => !boxIds.contains walletBox.boxId := by
  rw [heldBoxes, removeSpent, List.flatMap_map, heldBoxes, List.filter_flatMap]
  rfl

theorem heldBoxes_addBox (tracker : BoxTracker) (walletBox : WalletBox) :
    (heldBoxes (tracker.addBox address walletBox).boxes).Perm (walletBox :: heldBoxes tracker.boxes) := by
  unfold addBox
  split
  · next addrBoxes found =>
      rw [heldBoxes_insert, List.append_assoc]
      exact List.perm_middle.trans ((heldBoxes_perm found).symm.cons walletBox)
  · next absent =>
      rw [heldBoxes_insert, heldBoxes_erase absent]
      exact .rfl

theorem markFirst_eq_some {marked : List WalletBox} (found : markFirst boxId addrBoxes = some marked) :
    ∃ before walletBox after, addrBoxes = before ++ walletBox :: after ∧ walletBox.boxId = boxId ∧
      marked = before ++ { walletBox with pendingSpent := true } :: after := by
  induction addrBoxes generalizing marked with
  | nil => cases found
  | cons walletBox rest ih =>
      rw [markFirst] at found
      split at found
      · next same =>
          cases found
          exact ⟨[], walletBox, rest, rfl, same, rfl⟩
      · obtain ⟨later, inner, rfl⟩ := Option.map_eq_some_iff.mp found
        obtain ⟨before, other, after, rfl, same, rfl⟩ := ih inner
        exact ⟨walletBox :: before, other, after, rfl, same, rfl⟩

theorem markFirst_eq_none (missing : markFirst boxId addrBoxes = none) : ∀ walletBox ∈ addrBoxes, walletBox.boxId ≠ boxId := by
  induction addrBoxes with
  | nil => exact nofun
  | cons walletBox rest ih =>
      rw [markFirst] at missing
      split at missing
      · cases missing
      · next different =>
          rw [List.forall_mem_cons]
          exact ⟨different, ih (Option.map_eq_none_iff.mp missing)⟩

theorem markSpent_cases (order : Iteration String (List WalletBox)) (tracker : BoxTracker) (boxId : Bytes) :
    (∃ address before walletBox after, tracker.boxes.lookup address = some (before ++ walletBox :: after) ∧
      walletBox.boxId = boxId ∧ tracker.markSpent order boxId = { tracker with
        boxes := tracker.boxes.insert address (before ++ { walletBox with pendingSpent := true } :: after) }) ∨
    (∀ walletBox ∈ heldBoxes tracker.boxes, walletBox.boxId ≠ boxId) ∧ tracker.markSpent order boxId = tracker := by
  have listed (address : String) (addrBoxes : List WalletBox) : (address, addrBoxes) ∈ order.entries tracker.boxes ↔
      tracker.boxes.lookup address = some addrBoxes := Entries.mem_of_perm (order.perm tracker.boxes)
  unfold markSpent
  split
  · next missed =>
      refine .inr ⟨fun walletBox held => ?_, rfl⟩
      obtain ⟨entry, member, there⟩ := List.mem_flatMap.mp held
      have known := (listed entry.1 entry.2).mpr (AList.mem_lookup_iff.mpr member)
      exact markFirst_eq_none (Option.map_eq_none_iff.mp (List.findSome?_eq_none_iff.mp missed _ known)) walletBox there
  · next hit =>
      obtain ⟨⟨address, addrBoxes⟩, member, found⟩ := List.exists_of_findSome?_eq_some hit
      obtain ⟨_, found, same⟩ := Option.map_eq_some_iff.mp found
      cases same
      obtain ⟨before, walletBox, after, rfl, same, rfl⟩ := markFirst_eq_some found
      exact .inl ⟨address, before, walletBox, after, (listed _ _).mp member, same, rfl⟩

theorem heldBoxes_perm_middle {before after : List WalletBox} {walletBox : WalletBox}
    (found : boxes.lookup address = some (before ++ walletBox :: after)) :
    (heldBoxes boxes).Perm (walletBox :: (before ++ after ++ heldBoxes (boxes.erase address))) := by
  refine (heldBoxes_perm found).trans ?_
  rw [List.append_assoc, List.cons_append, List.append_assoc]
  exact List.perm_middle

end Held

/-! ### What the wallet holds -/

/-- The boxes that were added and not removed since, each once, with the mark of those that are spent. -/
abbrev Holdings := Table Bytes WalletBox

inductive TrackerCall where
  | trackAddress (address : Bytes)
  | addBox (address : String) (walletBox : WalletBox)
  | markSpent (order : Iteration String (List WalletBox)) (boxId : Bytes)
  | removeSpent (boxIds : List Bytes)

def performCall (tracker : BoxTracker) : TrackerCall → BoxTracker
  | .trackAddress address => tracker.trackAddress address
  | .addBox address walletBox => tracker.addBox address walletBox
  | .markSpent order boxId => tracker.markSpent order boxId
  | .removeSpent boxIds => tracker.removeSpent boxIds

namespace Holdings

def perform (holdings : Holdings) : TrackerCall → Holdings
  | .trackAddress _ => holdings
  | .addBox _ walletBox =>
      if walletBox.boxId ∈ holdings then holdings else holdings.insert walletBox.boxId walletBox
  | .markSpent _ boxId =>
      match holdings.lookup boxId with
      | some walletBox => holdings.insert boxId { walletBox with pendingSpent := true }
      | none => holdings
  | .removeSpent boxIds => Entries.retain (fun boxId _ => !boxIds.contains boxId) holdings

def boxes (holdings : Holdings) : List WalletBox := holdings.entries.map Sigma.snd

def unspent (holdings : Holdings) : List WalletBox := holdings.boxes.filter fun walletBox => !walletBox.pendingSpent

end Holdings

structure Holds (tracker : BoxTracker) (holdings : Holdings) : Prop where
  perm : (heldBoxes tracker.boxes).Perm holdings.boxes
  keyed : ∀ boxId walletBox, holdings.lookup boxId = some walletBox → walletBox.boxId = boxId
  tracked : ∀ address addrBoxes, tracker.boxes.lookup address = some addrBoxes → address ∈ tracker.addresses

def Fresh (holdings : Holdings) (call : TrackerCall) : Prop :=
  ∀ address walletBox, call = .addBox address walletBox → walletBox.boxId ∉ holdings

section Steps
variable {tracker : BoxTracker} {holdings : Holdings} {call : TrackerCall}

theorem Holdings.boxes_perm {boxId : Bytes} {walletBox : WalletBox} (found : holdings.lookup boxId = some walletBox) :
    holdings.boxes.Perm (walletBox :: Holdings.boxes (holdings.erase boxId)) :=
  (Entries.perm_erase found).map fun entry : (_ : Bytes) × WalletBox => entry.2

theorem holds_start : Holds .new ∅ where
  perm := .rfl
  keyed _ _ found := nomatch found
  tracked _ _ found := nomatch found

theorem Holds.trackAddress (holds : Holds tracker holdings) (address : Bytes) :
    Holds (tracker.trackAddress address) holdings := by
  unfold BoxTracker.trackAddress trackAddressStr
  split
  · exact holds
  · next untracked =>
      have absent : tracker.boxes.lookup (hexEncode address) = none := by
        rw [← Option.not_isSome_iff_eq_none, Option.isSome_iff_exists]
        rintro ⟨addrBoxes, found⟩
        exact untracked (holds.tracked _ addrBoxes found)
      refine ⟨?_, holds.keyed, fun other addrBoxes found => ?_⟩
      · rw [heldBoxes_insert, heldBoxes_erase absent]
        exact holds.perm
      · rcases Entries.lookup_insert_iff.mp found with ⟨rfl, -⟩ | ⟨-, old⟩
        · simp
        · exact List.mem_append_left _ (holds.tracked other addrBoxes old)

theorem Holds.keyed_insert (holds : Holds tracker holdings) {walletBox : WalletBox} {boxId : Bytes}
    (own : walletBox.boxId = boxId) {other : Bytes} {found : WalletBox}
    (there : (holdings.insert boxId walletBox).lookup other = some found) : found.boxId = other := by
  rcases Entries.lookup_insert_iff.mp there with ⟨rfl, rfl⟩ | ⟨-, old⟩
  · exact own
  · exact holds.keyed other found old

theorem Holds.addBox (holds : Holds tracker holdings) (address : String) {walletBox : WalletBox}
    (fresh : walletBox.boxId ∉ holdings) :
    Holds (tracker.addBox address walletBox) (holdings.insert walletBox.boxId walletBox) := by
  constructor
  · rw [Holdings.boxes, AList.entries_insert_of_notMem fresh]
    exact (heldBoxes_addBox tracker walletBox).trans (holds.perm.cons walletBox)
  · exact fun _ _ => holds.keyed_insert rfl
  · intro other addrBoxes found
    unfold BoxTracker.addBox at found ⊢
    split at found
    · next there =>
        rcases Entries.lookup_insert_iff.mp found with ⟨rfl, -⟩ | ⟨-, old⟩
        · exact holds.tracked other _ there
        · exact holds.tracked other addrBoxes old
    · rcases Entries.lookup_insert_iff.mp found with ⟨rfl, -⟩ | ⟨-, old⟩
      · exact List.mem_insert_self
      · exact List.mem_insert_of_mem (holds.tracked other addrBoxes old)

theorem Holds.lookup (holds : Holds tracker holdings) {walletBox : WalletBox}
    (held : walletBox ∈ heldBoxes tracker.boxes) : holdings.lookup walletBox.boxId = some walletBox := by
  obtain ⟨boxId, found⟩ := Entries.mem_values.mp (holds.perm.mem_iff.mp held)
  rwa [holds.keyed boxId walletBox found]

theorem Holds.missing (holds : Holds tracker holdings) {boxId : Bytes}
    (absent : ∀ walletBox ∈ heldBoxes tracker.boxes, walletBox.boxId ≠ boxId) : holdings.lookup boxId = none := by
  rw [← Option.not_isSome_iff_eq_none, Option.isSome_iff_exists]
  rintro ⟨walletBox, found⟩
  exact absent walletBox (holds.perm.mem_iff.mpr (Entries.mem_values.mpr ⟨boxId, found⟩))
    (holds.keyed boxId walletBox found)

theorem Holds.markSpent (holds : Holds tracker holdings) (order : Iteration String (List WalletBox)) (boxId : Bytes) :
    Holds (tracker.markSpent order boxId) (holdings.perform (.markSpent order boxId)) := by
  rcases markSpent_cases order tracker boxId with ⟨address, before, walletBox, after, there, rfl, marked⟩ | ⟨absent, same⟩
  · have first := heldBoxes_perm_middle there
    have found := holds.lookup (first.mem_iff.mpr List.mem_cons_self)
    rw [Holdings.perform, found, marked]
    constructor
    · have others := List.Perm.cons_inv (first.symm.trans (holds.perm.trans (Holdings.boxes_perm found)))
      rw [heldBoxes_insert, List.append_assoc, List.cons_append]
      refine List.perm_middle.trans (List.Perm.cons _ ?_)
      rwa [List.append_assoc] at others
    · have own : ({ walletBox with pendingSpent := true } : WalletBox).boxId = walletBox.boxId := rfl
      exact fun _ _ => holds.keyed_insert own
    · intro other addrBoxes found
      rcases Entries.lookup_insert_iff.mp found with ⟨rfl, -⟩ | ⟨-, old⟩
      · exact holds.tracked other _ there
      · exact holds.tracked other addrBoxes old
  · rw [same, Holdings.perform, holds.missing absent]
    exact holds

theorem Holds.removeSpent (holds : Holds tracker holdings) (boxIds : List Bytes) :
    Holds (tracker.removeSpent boxIds) (holdings.perform (.removeSpent boxIds)) := by
  constructor
  · rw [heldBoxes_removeSpent]
    refine (holds.perm.filter _).trans (List.Perm.of_eq ?_)
    rw [Holdings.boxes, List.filter_map]
    refine congrArg (List.map fun entry : (_ : Bytes) × WalletBox => entry.2)
      (List.filter_congr fun entry member => ?_)
    rw [Function.comp_apply, holds.keyed entry.1 entry.2 (AList.mem_lookup_iff.mpr member)]
  · intro boxId walletBox found
    exact holds.keyed boxId walletBox (Entries.lookup_retain.mp found).1
  · intro address addrBoxes found
    obtain ⟨entry, member, same⟩ := List.mem_map.mp (AList.mem_lookup_iff.mp found)
    cases same
    exact holds.tracked entry.1 entry.2 (AList.mem_lookup_iff.mpr member)

theorem Holds.step (holds : Holds tracker holdings) (fresh : Fresh holdings call) :
    Holds (performCall tracker call) (holdings.perform call) := by
  cases call with
  | trackAddress address => exact holds.trackAddress address
  | addBox address walletBox =>
      have new := fresh address walletBox rfl
      rw [Holdings.perform, if_neg new]
      exact holds.addBox address new
  | markSpent order boxId => exact holds.markSpent order boxId
  | removeSpent boxIds => exact holds.removeSpent boxIds

theorem Holds.balanced_iff (holds : Holds tracker holdings) (order : Iteration String (List WalletBox)) :
    BalanceOf holdings.unspent (tracker.balance order) ↔ Fits holdings.unspent := by
  have perm : (tracker.getUnspent order).Perm holdings.unspent :=
    (getUnspent_perm order tracker).trans (holds.perm.filter _)
  exact balanceOf_iff_fits (perm.map _).sum_nat fun tokenId => (perm.map _).sum_nat

end Steps

/-! ### Runs -/

structure TrackerRun where
  tracker : BoxTracker
  holdings : Holdings

namespace TrackerRun

def start : TrackerRun := ⟨.new, ∅⟩

def step (s : TrackerRun) (call : TrackerCall) : Option TrackerRun :=
  some ⟨performCall s.tracker call, s.holdings.perform call⟩

def Balanced (s : TrackerRun) : Prop := ∀ order, BalanceOf s.holdings.unspent (s.tracker.balance order)

end TrackerRun

open TrackerRun

/-- As long as only boxes are added that are not held, the balance is right throughout exactly when the sums
fit. -/
theorem always_balanced_iff {calls : List TrackerCall}
    (fresh : Along TrackerRun.step (fun s call => Fresh s.holdings call) .start calls) :
    Always TrackerRun.step Balanced .start calls ↔
      Along TrackerRun.step (fun s call => Fits (s.holdings.perform call).unspent) .start calls := by
  have balanced {s : TrackerRun} (holds : Holds s.tracker s.holdings) : Balanced s ↔ Fits s.holdings.unspent := by
    refine ⟨fun right => ?_, fun fits order => (holds.balanced_iff order).mpr fits⟩
    exact (holds.balanced_iff ⟨_, fun _ => .rfl⟩).mp (right ⟨_, fun _ => .rfl⟩)
  have empty : Fits (TrackerRun.start.holdings.unspent) := ⟨by decide, fun tokenId => Nat.two_pow_pos 64⟩
  rw [always_iff, balanced holds_start, and_iff_right empty]
  refine @along_iff_along _ _ _ _ _ _ _ _ (fun s => Holds s.tracker s.holdings) ?_ ?_ holds_start fresh
  · intro s call holds new
    have later := balanced (s := ⟨performCall s.tracker call, s.holdings.perform call⟩) (holds.step new)
    constructor
    · intro right
      exact later.mp (right _ rfl)
    · rintro fits t taken
      cases taken
      exact later.mpr fits
  · rintro s call t holds new - taken
    cases taken
    exact holds.step new

/-! ### A box that is found again -/

def thousand : WalletBox := ⟨[1], 1000, [], 5, "9a", false⟩

def soldBox : List TrackerCall := [.addBox "9a" thousand, .removeSpent [[1]], .addBox "9b" thousand]

/-- A box that comes back after it was removed counts once. -/
theorem soldBox_balanced : Always TrackerRun.step Balanced .start soldBox := by
  refine (always_balanced_iff ?_).mpr ?_
  · refine along_cons.mpr ⟨?_, fun _ first => ?_⟩
    · rintro _ _ ⟨⟩
      decide
    cases first
    refine along_cons.mpr ⟨nofun, fun _ second => ?_⟩
    cases second
    refine along_cons.mpr ⟨?_, fun _ _ => along_nil⟩
    rintro _ _ ⟨⟩
    decide
  · refine along_cons.mpr ⟨⟨by decide, fun _ => Nat.two_pow_pos 64⟩, fun _ first => ?_⟩
    cases first
    refine along_cons.mpr ⟨⟨by decide, fun _ => Nat.two_pow_pos 64⟩, fun _ second => ?_⟩
    cases second
    exact along_cons.mpr ⟨⟨by decide, fun _ => Nat.two_pow_pos 64⟩, fun _ _ => along_nil⟩

def scannedTwice : List TrackerCall := [.addBox "9a" thousand, .addBox "9a" thousand]

theorem scannedTwice_not_balanced : ¬ Always TrackerRun.step Balanced .start scannedTwice := by
  intro always
  have right := always _ ⟨scannedTwice, List.prefix_refl _, rfl⟩ ⟨_, fun _ => .rfl⟩
  exact absurd right.totalErg (by decide)

end ErgoNode.Proof.Wallet
