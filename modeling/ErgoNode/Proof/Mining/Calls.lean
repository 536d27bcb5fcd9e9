import ErgoNode.Mining.Miner
import ErgoNode.Proof.Mining.Candidates

/-!
# Calls of the miner

Candidates are asked for, solutions submitted and blocks announced from several threads. What the counters
count, what an accepted solution was checked against, and how many blocks come of one candidate.
-/

namespace ErgoNode
open Lib

namespace MinerPhase

/-- The candidate that a call has made the current one. -/
def handedOut : MinerPhase → Option BlockCandidate
  | .stored candidate => some candidate
  | .returned (.candidate (.ok candidate)) => some candidate
  | _ => none

def checkedAgainst : MinerPhase → Option BlockCandidate
  | .verifying _ candidate => some candidate
  | .accepted _ candidate => some candidate
  | .counted _ candidate => some candidate
  | .mined _ candidate => some candidate
  | .clearing _ candidate => some candidate
  | _ => none

/-- The solution and the candidate of a submission that is being accepted. -/
def accepting : MinerPhase → Option (AutolykosSolution × BlockCandidate)
  | .accepted solution candidate => some (solution, candidate)
  | .counted solution candidate => some (solution, candidate)
  | .mined solution candidate => some (solution, candidate)
  | .clearing solution candidate => some (solution, candidate)
  | _ => none

end MinerPhase

namespace Proof.Mining

inductive MiningCounter where
  | candidatesGenerated
  | solutionsReceived
  | validSolutions
  | invalidSolutions
  | blocksMined

namespace MiningCounter

def read : MiningCounter → MiningStats → UInt64
  | .candidatesGenerated => MiningStats.candidatesGenerated
  | .solutionsReceived => MiningStats.solutionsReceived
  | .validSolutions => MiningStats.validSolutions
  | .invalidSolutions => MiningStats.invalidSolutions
  | .blocksMined => MiningStats.blocksMined

def met : MiningCounter → MinerPhase → Bool
  | .candidatesGenerated, .returned (.candidate (.ok _)) => true
  | .solutionsReceived, .received _ => true
  | .solutionsReceived, .verifying _ _ => true
  | .solutionsReceived, .accepted _ _ => true
  | .solutionsReceived, .counted _ _ => true
  | .solutionsReceived, .mined _ _ => true
  | .solutionsReceived, .clearing _ _ => true
  | .solutionsReceived, .refused => true
  | .solutionsReceived, .returned (.submitted (.ok _)) => true
  | .solutionsReceived, .returned (.submitted (.error error)) => error ≠ Miner.notEnabled
  | .validSolutions, .counted _ _ => true
  | .validSolutions, .mined _ _ => true
  | .validSolutions, .clearing _ _ => true
  | .validSolutions, .returned (.submitted (.ok true)) => true
  | .invalidSolutions, .returned (.submitted (.ok false)) => true
  | .blocksMined, .mined _ _ => true
  | .blocksMined, .clearing _ _ => true
  | .blocksMined, .returned (.submitted (.ok true)) => true
  | _, _ => false

end MiningCounter

section Steps
variable {sr : SigmaRust} {threads next : Threads Miner MinerPhase}
variable {action : Threads.Action MinerCall MinerInputs}

theorem counts (counter : MiningCounter) :
    Threads.Counts (Miner.advance sr) (fun miner => counter.read miner.stats) (· + 1) counter.met := by
  intro inputs miner phase
  cases phase with
  | called call =>
      cases call with
      | getCandidate | submitSolution | handleFoundSolution =>
          simp only [Miner.advance, Miner.takeCall]
          split <;> cases counter <;> simp [MiningCounter.met, Miner.notEnabled]
      | start | stop | onNewBlock | setRewardAddress => cases counter <;> simp [Miner.advance, Miner.takeCall, MiningCounter.met]
  | lookingUp | generating | received | verifying =>
      simp only [Miner.advance]
      split <;> cases counter <;> simp [MiningCounter.met, Miner.notEnabled, Miner.noCandidate]
  | _ => cases counter <;> simp [Miner.advance, MiningCounter.met, MiningCounter.read]

/-! ### Steps -/

structure Moved (sr : SigmaRust) (miner after : Miner) (phase moved : MinerPhase) : Prop where
  verifier : after.autolykos = miner.autolykos
  handedOut : ∀ candidate, phase.handedOut = some candidate → moved.handedOut = some candidate
  current : after.currentCandidate = miner.currentCandidate ∨ after.currentCandidate = none ∨
    ∃ candidate, after.currentCandidate = some candidate ∧ moved.handedOut = some candidate
  checkedAgainst : ∀ candidate, moved.checkedAgainst = some candidate →
    phase.checkedAgainst = some candidate ∨ miner.currentCandidate = some candidate
  accepting : ∀ solution candidate, moved.accepting = some (solution, candidate) →
    phase.accepting = some (solution, candidate) ∨ miner.verify sr solution candidate = .ok true

theorem moved_advance (inputs : MinerInputs) (miner : Miner) (phase : MinerPhase) :
    Moved sr miner (miner.advance sr inputs phase).1 phase (miner.advance sr inputs phase).2 := by
  cases phase with
  | called call =>
      cases call with
      | getCandidate | submitSolution | handleFoundSolution =>
          simp only [Miner.advance, Miner.takeCall]
          split <;> constructor <;> simp [MinerPhase.handedOut, MinerPhase.checkedAgainst, MinerPhase.accepting]
      | start | stop | onNewBlock | setRewardAddress =>
          constructor <;> simp [Miner.advance, Miner.takeCall, MinerPhase.handedOut, MinerPhase.checkedAgainst,
            MinerPhase.accepting]
  | lookingUp | generating =>
      simp only [Miner.advance]
      split <;> constructor <;> simp [MinerPhase.handedOut, MinerPhase.checkedAgainst, MinerPhase.accepting]
  | received solution =>
      simp only [Miner.advance]
      split
      · constructor <;> simp [MinerPhase.handedOut, MinerPhase.checkedAgainst, MinerPhase.accepting]
      · next candidate current =>
          constructor <;> simp [MinerPhase.handedOut, MinerPhase.checkedAgainst, MinerPhase.accepting, current]
  | verifying solution candidate =>
      simp only [Miner.advance]
      split
      · constructor <;> simp [MinerPhase.handedOut, MinerPhase.checkedAgainst, MinerPhase.accepting]
      · next verified =>
          constructor <;> simp [MinerPhase.handedOut, MinerPhase.checkedAgainst, MinerPhase.accepting, verified]
      · constructor <;> simp [MinerPhase.handedOut, MinerPhase.checkedAgainst, MinerPhase.accepting]
  | _ => constructor <;> simp [Miner.advance, MinerPhase.handedOut, MinerPhase.checkedAgainst, MinerPhase.accepting]

/-! ### Accepted solutions -/

/-- The current candidate and those that solutions are checked against were handed out, and the solutions that are
being accepted solve theirs. -/
structure Backed (sr : SigmaRust) (threads : Threads Miner MinerPhase) : Prop where
  verifier : threads.shared.autolykos = .new
  current : ∀ candidate, threads.shared.currentCandidate = some candidate →
    ∃ call ∈ threads.calls, call.handedOut = some candidate
  checked : ∀ call ∈ threads.calls, ∀ candidate, call.checkedAgainst = some candidate →
    ∃ other ∈ threads.calls, other.handedOut = some candidate
  solved : ∀ call ∈ threads.calls, ∀ solution candidate, call.accepting = some (solution, candidate) →
    AutolykosV2.new.verifySolution sr candidate.headerBytes solution (nbitsToTarget candidate.nBits)
      candidate.height = .ok true

theorem backed_step (backed : Backed sr threads) (taken : Miner.step sr threads action = some next) : Backed sr next := by
  obtain ⟨request, -, rfl⟩ | ⟨index, inputs, phase, -, here, rfl⟩ := Threads.step_cases taken
  · have kept {P : MinerPhase → Prop} (reached : ∃ call ∈ threads.calls, P call) :
        ∃ call ∈ threads.calls ++ [.called request], P call := by
      obtain ⟨call, member, holds⟩ := reached
      exact ⟨call, List.mem_append_left _ member, holds⟩
    have old {call : MinerPhase} (member : call ∈ threads.calls ++ [.called request]) :
        call ∈ threads.calls ∨ call = .called request := by
      rwa [List.mem_append, List.mem_singleton] at member
    refine ⟨backed.verifier, fun candidate current => kept (backed.current candidate current), ?_, ?_⟩
    · intro call member candidate checked
      rcases old member with before | rfl
      · exact kept (backed.checked call before candidate checked)
      · cases checked
    · intro call member solution candidate accepting
      rcases old member with before | rfl
      · exact backed.solved call before solution candidate accepting
      · cases accepting
  · have member : phase ∈ threads.calls := List.mem_of_getElem? here
    obtain ⟨verifier, handedOut, current, checkedAgainst, accepting⟩ := @moved_advance sr inputs threads.shared phase
    have kept {candidate : BlockCandidate} (reached : ∃ call ∈ threads.calls, call.handedOut = some candidate) :
        ∃ call ∈ threads.calls.set index (threads.shared.advance sr inputs phase).2, call.handedOut = some candidate :=
      Threads.exists_mem_set here (handedOut candidate) reached
    refine ⟨verifier.trans backed.verifier, fun candidate now => ?_, ?_, ?_⟩
    · rcases current with same | cleared | ⟨stored, there, gave⟩
      · exact kept (backed.current candidate (same.symm.trans now))
      · exact absurd (cleared.symm.trans now) nofun
      · obtain ⟨inside, -⟩ := List.getElem?_eq_some_iff.mp here
        exact ⟨_, List.mem_set inside _, Option.some.inj (there.symm.trans now) ▸ gave⟩
    · refine Threads.forall_mem_set (fun candidate checked => ?_) fun call old candidate checked =>
        kept (backed.checked call old candidate checked)
      rcases checkedAgainst candidate checked with before | taken
      · exact kept (backed.checked phase member candidate before)
      · exact kept (backed.current candidate taken)
    · refine Threads.forall_mem_set (fun solution candidate accepted => ?_) backed.solved
      rcases accepting solution candidate accepted with before | verified
      · exact backed.solved phase member solution candidate before
      · rwa [Miner.verify, backed.verifier] at verified

/-! ### Blocks of one candidate -/

/-- The submissions that have taken a candidate and not yet cleared it, or turned their solution down. -/
def busy (phase : MinerPhase) : Bool := phase.checkedAgainst.isSome

def undecided : MinerPhase → Bool
  | .verifying _ _ => true
  | .accepted _ _ => true
  | .counted _ _ => true
  | _ => false

def gave (phase : MinerPhase) : Bool := phase.handedOut.isSome

def minedBlock : MinerPhase → Bool := MiningCounter.blocksMined.met

/-- What a step means for the candidates that are left. -/
inductive Spends (miner : Miner) : MinerPhase → Miner → MinerPhase → Prop where
  | nothing {phase moved : MinerPhase} {after : Miner} (mined : minedBlock moved = minedBlock phase)
      (sameUndecided : undecided moved = undecided phase) (sameBusy : busy moved = busy phase)
      (sameGave : gave moved = gave phase)
      (current : after.currentCandidate = miner.currentCandidate ∨ after.currentCandidate = none) :
      Spends miner phase after moved
  | take (solution : AutolykosSolution) (candidate : BlockCandidate)
      (current : miner.currentCandidate = some candidate) :
      Spends miner (.received solution) miner (.verifying solution candidate)
  | turnDown {moved : MinerPhase} (solution : AutolykosSolution) (candidate : BlockCandidate)
      (notMined : minedBlock moved = false) (decided : undecided moved = false) (idle : busy moved = false)
      (gaveNothing : gave moved = false) : Spends miner (.verifying solution candidate) miner moved
  | mine {after : Miner} (solution : AutolykosSolution) (candidate : BlockCandidate)
      (current : after.currentCandidate = miner.currentCandidate) :
      Spends miner (.counted solution candidate) after (.mined solution candidate)
  | clear {after : Miner} (solution : AutolykosSolution) (candidate : BlockCandidate)
      (current : after.currentCandidate = none) :
      Spends miner (.clearing solution candidate) after (.returned (.submitted (.ok true)))
  | store {after : Miner} (candidate : BlockCandidate) (current : after.currentCandidate = some candidate) :
      Spends miner (.found candidate) after (.stored candidate)

theorem spends_advance (inputs : MinerInputs) (miner : Miner) (phase : MinerPhase) :
    Spends miner phase (miner.advance sr inputs phase).1 (miner.advance sr inputs phase).2 := by
  cases phase with
  | called call =>
      cases call with
      | getCandidate | submitSolution | handleFoundSolution =>
          simp only [Miner.advance, Miner.takeCall]
          split <;> exact .nothing rfl rfl rfl rfl (.inl rfl)
      | start | stop | onNewBlock | setRewardAddress => exact .nothing rfl rfl rfl rfl (.inl rfl)
  | lookingUp | generating =>
      simp only [Miner.advance]
      split <;> exact .nothing rfl rfl rfl rfl (.inl rfl)
  | received solution =>
      simp only [Miner.advance]
      split
      · exact .nothing rfl rfl rfl rfl (.inl rfl)
      · next candidate current => exact .take solution candidate current
  | verifying solution candidate =>
      simp only [Miner.advance]
      split
      · exact .turnDown solution candidate rfl rfl rfl rfl
      · exact .nothing rfl rfl rfl rfl (.inl rfl)
      · exact .turnDown solution candidate rfl rfl rfl rfl
  | counted solution candidate => exact .mine solution candidate rfl
  | clearing solution candidate => exact .clear solution candidate rfl
  | found candidate => exact .store candidate rfl
  | invalidated => exact .nothing rfl rfl rfl rfl (.inr rfl)
  | _ => exact .nothing rfl rfl rfl rfl (.inl rfl)

def aboutToTake : MinerPhase → Bool
  | .received _ => true
  | _ => false

/-- No submission takes the current candidate while another one is busy. -/
def Alone (threads : Threads Miner MinerPhase) : Threads.Action MinerCall MinerInputs → Prop
  | .call _ => True
  | .advance index _ => threads.calls[index]?.any aboutToTake → threads.shared.currentCandidate.isSome →
      threads.calls.countP busy = 0

instance decidableAlone (threads : Threads Miner MinerPhase) :
    (action : Threads.Action MinerCall MinerInputs) → Decidable (Alone threads action)
  | .call _ => .isTrue trivial
  | .advance index _ => inferInstanceAs (Decidable (threads.calls[index]?.any aboutToTake → _ → _))

/-- A candidate that is still there is left for another block. -/
def left (threads : Threads Miner MinerPhase) : Nat :=
  if threads.shared.currentCandidate.isSome ∧ threads.calls.countP busy = 0 then 1 else 0

structure OneEach (threads : Threads Miner MinerPhase) : Prop where
  single : threads.calls.countP busy ≤ 1
  enough : threads.calls.countP minedBlock + threads.calls.countP undecided + left threads ≤ threads.calls.countP gave

theorem oneEach_call (one : OneEach threads) (request : MinerCall) :
    OneEach ⟨threads.shared, threads.calls ++ [.called request]⟩ := by
  have same (met : MinerPhase → Bool) (fresh : met (MinerPhase.called request) = false) :
      (threads.calls ++ [MinerPhase.called request]).countP met = threads.calls.countP met := by
    rw [List.countP_append, List.countP_singleton, fresh]
    rfl
  refine ⟨(same busy rfl).trans_le one.single, ?_⟩
  unfold left
  dsimp only
  rw [same busy rfl, same minedBlock rfl, same undecided rfl, same gave rfl]
  exact one.enough

variable {index : Nat} {phase moved : MinerPhase} {miner : Miner}
variable {solution : AutolykosSolution} {candidate : BlockCandidate}

theorem left_le_one : left threads ≤ 1 := by
  unfold left
  split <;> omega

theorem oneEach_nothing (one : OneEach threads) (here : threads.calls[index]? = some phase)
    (mined : minedBlock moved = minedBlock phase) (sameUndecided : undecided moved = undecided phase)
    (sameBusy : busy moved = busy phase) (sameGave : gave moved = gave phase)
    (current : miner.currentCandidate = threads.shared.currentCandidate ∨ miner.currentCandidate = none) :
    OneEach ⟨miner, threads.calls.set index moved⟩ := by
  have same (met : MinerPhase → Bool) (kept : met moved = met phase) :
      (threads.calls.set index moved).countP met = threads.calls.countP met := by
    have counted := @Threads.countP_set_add _ threads.calls index phase moved met here
    rw [kept] at counted
    exact Nat.add_right_cancel counted
  refine ⟨(same busy sameBusy).trans_le one.single, ?_⟩
  have enough := one.enough
  unfold left at enough ⊢
  dsimp only
  rw [same minedBlock mined, same undecided sameUndecided, same busy sameBusy, same gave sameGave]
  rcases current with unchanged | cleared
  · rw [unchanged]
    exact enough
  · rw [cleared]
    exact (Nat.le_add_right _ _).trans enough

/-- The candidate that is taken was left for a block, since no other submission was busy. -/
theorem oneEach_take (one : OneEach threads) (here : threads.calls[index]? = some (.received solution))
    (idle : threads.calls.countP busy = 0) (current : threads.shared.currentCandidate.isSome) :
    OneEach ⟨miner, threads.calls.set index (.verifying solution candidate)⟩ := by
  have enough := one.enough
  rw [left, if_pos ⟨current, idle⟩] at enough
  have counted (met : MinerPhase → Bool) :=
    @Threads.countP_set_add _ threads.calls index _ (MinerPhase.verifying solution candidate) met here
  have busyMoved : _ + 0 = _ + 1 := counted busy
  have minedMoved : _ + 0 = _ + 0 := counted minedBlock
  have undecidedMoved : _ + 0 = _ + 1 := counted undecided
  have gaveMoved : _ + 0 = _ + 0 := counted gave
  refine ⟨by dsimp only; omega, ?_⟩
  rw [left, if_neg (by dsimp only; omega)]
  dsimp only
  omega

theorem oneEach_turnDown (one : OneEach threads) (here : threads.calls[index]? = some (.verifying solution candidate))
    (notMined : minedBlock moved = false) (decided : undecided moved = false) (idle : busy moved = false)
    (gaveNothing : gave moved = false) : OneEach ⟨miner, threads.calls.set index moved⟩ := by
  have counted (met : MinerPhase → Bool) := @Threads.countP_set_add _ threads.calls index _ moved met here
  have busyMoved := counted busy
  have minedMoved := counted minedBlock
  have undecidedMoved := counted undecided
  have gaveMoved := counted gave
  rw [idle] at busyMoved
  rw [notMined] at minedMoved
  rw [decided] at undecidedMoved
  rw [gaveNothing] at gaveMoved
  replace busyMoved : _ + 1 = _ + 0 := busyMoved
  replace minedMoved : _ + 0 = _ + 0 := minedMoved
  replace undecidedMoved : _ + 1 = _ + 0 := undecidedMoved
  replace gaveMoved : _ + 0 = _ + 0 := gaveMoved
  obtain ⟨single, enough⟩ := one
  refine ⟨by dsimp only; omega, ?_⟩
  have most := @left_le_one ⟨miner, threads.calls.set index moved⟩
  dsimp only
  omega

/-- The block is counted while its submission is still busy. -/
theorem oneEach_mine (one : OneEach threads) (here : threads.calls[index]? = some (.counted solution candidate)) :
    OneEach ⟨miner, threads.calls.set index (.mined solution candidate)⟩ := by
  have atWork : 0 < threads.calls.countP busy := List.countP_pos_iff.mpr ⟨_, List.mem_of_getElem? here, rfl⟩
  have counted (met : MinerPhase → Bool) :=
    @Threads.countP_set_add _ threads.calls index _ (MinerPhase.mined solution candidate) met here
  have busyMoved : _ + 1 = _ + 1 := counted busy
  have minedMoved : _ + 0 = _ + 1 := counted minedBlock
  have undecidedMoved : _ + 1 = _ + 0 := counted undecided
  have gaveMoved : _ + 0 = _ + 0 := counted gave
  obtain ⟨single, enough⟩ := one
  refine ⟨by dsimp only; omega, ?_⟩
  rw [left, if_neg (by dsimp only; omega)]
  dsimp only
  omega

theorem oneEach_clear (one : OneEach threads) (here : threads.calls[index]? = some (.clearing solution candidate))
    (current : miner.currentCandidate = none) :
    OneEach ⟨miner, threads.calls.set index (.returned (.submitted (.ok true)))⟩ := by
  have counted (met : MinerPhase → Bool) :=
    @Threads.countP_set_add _ threads.calls index _ (MinerPhase.returned (.submitted (.ok true))) met here
  have busyMoved : _ + 1 = _ + 0 := counted busy
  have minedMoved : _ + 1 = _ + 1 := counted minedBlock
  have undecidedMoved : _ + 0 = _ + 0 := counted undecided
  have gaveMoved : _ + 0 = _ + 0 := counted gave
  obtain ⟨single, enough⟩ := one
  refine ⟨by dsimp only; omega, ?_⟩
  rw [left, if_neg (by simp [current])]
  dsimp only
  omega

theorem oneEach_store (one : OneEach threads) (here : threads.calls[index]? = some (.found candidate)) :
    OneEach ⟨miner, threads.calls.set index (.stored candidate)⟩ := by
  have counted (met : MinerPhase → Bool) :=
    @Threads.countP_set_add _ threads.calls index _ (MinerPhase.stored candidate) met here
  have busyMoved : _ + 0 = _ + 0 := counted busy
  have minedMoved : _ + 0 = _ + 0 := counted minedBlock
  have undecidedMoved : _ + 0 = _ + 0 := counted undecided
  have gaveMoved : _ + 0 = _ + 1 := counted gave
  obtain ⟨single, enough⟩ := one
  refine ⟨by dsimp only; omega, ?_⟩
  have most := @left_le_one ⟨miner, threads.calls.set index (.stored candidate)⟩
  dsimp only
  omega

theorem oneEach_step (one : OneEach threads) (alone : Alone threads action)
    (taken : Miner.step sr threads action = some next) : OneEach next := by
  obtain ⟨request, rfl, rfl⟩ | ⟨index, inputs, phase, rfl, here, rfl⟩ := Threads.step_cases taken
  · exact oneEach_call one request
  · have spends := @spends_advance sr inputs threads.shared phase
    generalize threads.shared.advance sr inputs phase = stepped at spends ⊢
    obtain ⟨after, moved⟩ := stepped
    dsimp only at spends ⊢
    cases spends with
    | nothing mined sameUndecided sameBusy sameGave current =>
        exact oneEach_nothing one here mined sameUndecided sameBusy sameGave current
    | take solution candidate current =>
        have idle := alone (by rw [here]; rfl) (by rw [current]; rfl)
        exact oneEach_take one here idle (by rw [current]; rfl)
    | turnDown solution candidate notMined decided idle gaveNothing =>
        exact oneEach_turnDown one here notMined decided idle gaveNothing
    | mine => exact oneEach_mine one here
    | clear solution candidate current => exact oneEach_clear one here current
    | store => exact oneEach_store one here

end Steps

/-! ### Runs -/

section Runs
variable {sr : SigmaRust} {rewardAddress : String} {actions : List (Threads.Action MinerCall MinerInputs)}
variable {threads : Threads Miner MinerPhase}

def idleMiner (rewardAddress : String) : Threads Miner MinerPhase := ⟨.new rewardAddress, []⟩

def replies (threads : Threads Miner MinerPhase) (wanted : MinerReply → Bool) : Nat :=
  threads.calls.countP fun
    | .returned reply => wanted reply
    | _ => false

def Settled (threads : Threads Miner MinerPhase) : Prop := ∀ call ∈ threads.calls, ∃ reply, call = .returned reply

def Counted (threads : Threads Miner MinerPhase) : Prop :=
  ∀ counter : MiningCounter, counter.read threads.shared.stats = UInt64.ofNat (threads.calls.countP counter.met)

/-- With no call in progress the counters count replies, and a submission that was let in was accepted, turned
down or failed. -/
structure Balanced (threads : Threads Miner MinerPhase) : Prop where
  candidates : threads.shared.stats.candidatesGenerated = UInt64.ofNat (replies threads fun
    | .candidate (.ok _) => true
    | _ => false)
  blocks : threads.shared.stats.blocksMined = threads.shared.stats.validSolutions
  valid : threads.shared.stats.validSolutions = UInt64.ofNat (replies threads (· = .submitted (.ok true)))
  invalid : threads.shared.stats.invalidSolutions = UInt64.ofNat (replies threads (· = .submitted (.ok false)))
  received : threads.shared.stats.solutionsReceived =
    threads.shared.stats.validSolutions + threads.shared.stats.invalidSolutions + UInt64.ofNat (replies threads fun
      | .submitted (.error error) => error ≠ Miner.notEnabled
      | _ => false)

theorem countP_of_settled {met : MinerPhase → Bool} {wanted : MinerReply → Bool} (settled : Settled threads)
    (same : ∀ reply, met (.returned reply) = wanted reply) : threads.calls.countP met = replies threads wanted := by
  refine List.countP_congr fun call member => ?_
  obtain ⟨reply, rfl⟩ := settled call member
  exact same reply ▸ Iff.rfl

theorem replies_split {whole first second third : MinerReply → Bool}
    (split : ∀ reply, (whole reply).toNat = (first reply).toNat + (second reply).toNat + (third reply).toNat) :
    replies threads whole = replies threads first + replies threads second + replies threads third := by
  have count (reply : MinerReply) (wanted : MinerReply → Bool) : (if wanted reply then 1 else 0) = (wanted reply).toNat := by
    cases wanted reply <;> rfl
  unfold replies
  induction threads.calls with
  | nil => rfl
  | cons call rest ih =>
      simp only [List.countP_cons, ih]
      cases call with
      | returned reply =>
          have parts := split reply
          dsimp only
          rw [count, count, count, count]
          omega
      | _ => simp

theorem balanced_of_counted (counted : Counted threads) (settled : Settled threads) : Balanced threads := by
  have of (counter : MiningCounter) {wanted : MinerReply → Bool}
      (same : ∀ reply, counter.met (.returned reply) = wanted reply) :
      counter.read threads.shared.stats = UInt64.ofNat (replies threads wanted) := by
    rw [counted counter, countP_of_settled settled same]
  have valid : threads.shared.stats.validSolutions = UInt64.ofNat (replies threads (· = .submitted (.ok true))) :=
    of .validSolutions fun reply => by
      rcases reply with _ | (_ | _) | (_ | (_ | _)) | _ <;> simp [MiningCounter.met]
  have blocks : threads.shared.stats.blocksMined = UInt64.ofNat (replies threads (· = .submitted (.ok true))) :=
    of .blocksMined fun reply => by
      rcases reply with _ | (_ | _) | (_ | (_ | _)) | _ <;> simp [MiningCounter.met]
  have invalid : threads.shared.stats.invalidSolutions = UInt64.ofNat (replies threads (· = .submitted (.ok false))) :=
    of .invalidSolutions fun reply => by
      rcases reply with _ | (_ | _) | (_ | (_ | _)) | _ <;> simp [MiningCounter.met]
  have received : threads.shared.stats.solutionsReceived = UInt64.ofNat (replies threads fun
      | .submitted (.error error) => error ≠ Miner.notEnabled
      | .submitted (.ok _) => true
      | _ => false) :=
    of .solutionsReceived fun reply => by
      rcases reply with _ | (_ | _) | (_ | (_ | _)) | _ <;> simp [MiningCounter.met]
  refine ⟨of .candidatesGenerated fun reply => ?_, blocks.trans valid.symm, valid, invalid, ?_⟩
  · rcases reply with _ | (_ | _) | (_ | (_ | _)) | _ <;> simp [MiningCounter.met]
  · rw [received, valid, invalid, ← UInt64.ofNat_add, ← UInt64.ofNat_add]
    refine congrArg UInt64.ofNat (replies_split fun reply => ?_)
    rcases reply with _ | (_ | _) | (_ | (_ | _)) | _ <;> simp

theorem counted_and_backed : Always (Miner.step sr) (fun threads => Counted threads ∧ Backed sr threads)
    (idleMiner rewardAddress) actions := by
  have iterate (n : Nat) : (· + 1)^[n] (0 : UInt64) = UInt64.ofNat n := by
    induction n with
    | zero => rfl
    | succ n ih => rw [Function.iterate_succ_apply', ih, UInt64.ofNat_add]; rfl
  refine always_of_step (fun inv taken => ⟨fun counter => ?_, backed_step inv.2 taken⟩) ⟨fun counter => ?_, ?_⟩
  · rw [← iterate]
    refine Threads.counter_step (counts counter) (fun request => ?_) taken ((inv.1 counter).trans (iterate _).symm)
    cases counter <;> rfl
  · cases counter <;> rfl
  · exact ⟨rfl, nofun, nofun, nofun⟩

/-- In every state of a run, whatever the order of the steps of its calls: each counter has the number of the calls it
counts; a solution that is being accepted solves a candidate that was handed out before; with no call in progress
every submission that was let in was accepted, turned down or failed, and each accepted one counts a block. -/
theorem miner_calls (sr : SigmaRust) (rewardAddress : String) (actions : List (Threads.Action MinerCall MinerInputs)) :
    Always (Miner.step sr) (fun threads => Counted threads ∧
        (∀ call ∈ threads.calls, ∀ solution candidate, call.accepting = some (solution, candidate) →
          AutolykosV2.new.verifySolution sr candidate.headerBytes solution (nbitsToTarget candidate.nBits)
              candidate.height = .ok true ∧ ∃ other ∈ threads.calls, other.handedOut = some candidate) ∧
        (Settled threads → Balanced threads))
      (idleMiner rewardAddress) actions := by
  intro threads visited
  obtain ⟨counted, backed⟩ := counted_and_backed threads visited
  refine ⟨counted, fun call member solution candidate accepting => ?_, balanced_of_counted counted⟩
  have against : call.checkedAgainst = some candidate := by
    cases call <;> simp_all [MinerPhase.accepting, MinerPhase.checkedAgainst]
  exact ⟨backed.solved call member solution candidate accepting, backed.checked call member candidate against⟩

/-- Where no submission takes the current candidate while another one is busy, there are never more blocks than
candidates that were handed out. -/
theorem miner_blocks_le (alone : Along (Miner.step sr) Alone (idleMiner rewardAddress) actions) :
    Always (Miner.step sr) (fun threads => threads.calls.countP minedBlock ≤ threads.calls.countP gave)
      (idleMiner rewardAddress) actions := by
  have start : OneEach (idleMiner rewardAddress) := ⟨Nat.zero_le 1, Nat.le_refl 0⟩
  intro threads visited
  have enough := (alone.invariant OneEach oneEach_step start threads visited).enough
  omega

end Runs
/-! ### Two submissions -/

def minerInputs : MinerInputs := ⟨emptyCandidates.shared.history.mem, sampleInputs⟩

def steps (call : MinerCall) (index count : Nat) : List (Threads.Action MinerCall MinerInputs) :=
  .call call :: List.replicate count (.advance index minerInputs)

def sampleSolution : AutolykosSolution := ⟨[], none, List.replicate 8 0, none⟩

def oneAfterAnother : List (Threads.Action MinerCall MinerInputs) :=
  steps .start 0 1 ++ steps .getCandidate 1 6 ++ steps (.submitSolution sampleSolution) 2 8 ++
    steps (.submitSolution sampleSolution) 3 4

theorem oneAfterAnother_blocks : Always (Miner.step rivalCodec)
    (fun threads => threads.calls.countP minedBlock ≤ threads.calls.countP gave) (idleMiner "reward") oneAfterAnother :=
  miner_blocks_le (by decide +kernel)

def overlapping : List (Threads.Action MinerCall MinerInputs) :=
  steps .start 0 1 ++ steps .getCandidate 1 6 ++ steps (.submitSolution sampleSolution) 2 4 ++
    steps (.submitSolution sampleSolution) 3 6 ++ [.advance 2 minerInputs, .advance 2 minerInputs]

example : (run (Miner.step rivalCodec) (idleMiner "reward") overlapping).map (fun threads =>
    (threads.calls.countP minedBlock, threads.calls.countP gave)) = some (2, 1) := by decide +kernel

end Proof.Mining
end ErgoNode
