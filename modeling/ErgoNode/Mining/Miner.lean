import ErgoNode.Lib.Threads
import ErgoNode.Mining.Candidate
import ErgoNode.Mining.Worker

/-!
# The miner

The miner keeps the candidate it handed out last and checks the solutions it is given against it. Each of
its fields has a lock of its own, so that calls from several threads interleave between one access and the
next. The hash rate is left out.
-/

namespace ErgoNode
open Lib

inductive MinerError where
  | generator (error : MiningError)
  | candidateFailed (message : String)
  | invalidSolution (message : String)
  | consensus (error : ConsensusError)
  deriving DecidableEq

structure MiningStats where
  candidatesGenerated : UInt64
  solutionsReceived : UInt64
  validSolutions : UInt64
  invalidSolutions : UInt64
  blocksMined : UInt64
  deriving DecidableEq

structure Miner where
  candidateGen : CandidateGenerator
  autolykos : AutolykosV2
  enabled : Bool
  internalRunning : Bool
  currentCandidate : Option BlockCandidate
  stats : MiningStats
  deriving DecidableEq

structure FoundSolution where
  taskHeight : Nat
  solution : AutolykosSolution
  deriving DecidableEq

inductive MinerCall where
  | start
  | stop
  | getCandidate
  | submitSolution (solution : AutolykosSolution)
  | handleFoundSolution (found : FoundSolution) (candidate : BlockCandidate)
  | onNewBlock
  | setRewardAddress (address : String)
  deriving DecidableEq

inductive MinerReply where
  | done
  | candidate (result : Except MinerError BlockCandidate)
  | submitted (result : Except MinerError Bool)
  | stale
  deriving DecidableEq

inductive MinerPhase where
  | called (call : MinerCall)
  -- `start` and `stop`
  | disabled
  -- `get_candidate`
  | lookingUp
  | generating
  | generated (candidate : BlockCandidate)
  | found (candidate : BlockCandidate)
  | stored (candidate : BlockCandidate)
  -- `submit_solution`
  | admitted (solution : AutolykosSolution)
  | received (solution : AutolykosSolution)
  | verifying (solution : AutolykosSolution) (candidate : BlockCandidate)
  | accepted (solution : AutolykosSolution) (candidate : BlockCandidate)
  | counted (solution : AutolykosSolution) (candidate : BlockCandidate)
  | mined (solution : AutolykosSolution) (candidate : BlockCandidate)
  | clearing (solution : AutolykosSolution) (candidate : BlockCandidate)
  | refused
  -- `on_new_block` and `set_reward_address`
  | invalidated
  | addressSet
  | returned (reply : MinerReply)
  deriving DecidableEq

structure MinerInputs where
  history : History
  candidate : CandidateInputs

namespace Miner
variable (sr : SigmaRust)

def new (rewardAddress : String) : Miner where
  candidateGen := if rewardAddress.isEmpty then .new else CandidateGenerator.new.setRewardAddress rewardAddress
  autolykos := .new
  enabled := false
  internalRunning := false
  currentCandidate := none
  stats := ⟨0, 0, 0, 0, 0⟩

def notEnabled : MinerError := .candidateFailed "Mining not enabled"

def noCandidate : MinerError := .invalidSolution "No current candidate"

def takeCall (miner : Miner) : MinerCall → Miner × MinerPhase
  | .start => ({ miner with enabled := true }, .returned .done)
  | .stop => ({ miner with enabled := false }, .disabled)
  | .getCandidate => (miner, if miner.enabled then .lookingUp else .returned (.candidate (.error notEnabled)))
  | .submitSolution solution =>
      (miner, if miner.enabled then .admitted solution else .returned (.submitted (.error notEnabled)))
  | .handleFoundSolution found candidate =>
      (miner, if found.taskHeight ≠ candidate.height then .returned .stale else .called (.submitSolution found.solution))
  | .onNewBlock => ({ miner with candidateGen := miner.candidateGen.invalidate }, .invalidated)
  | .setRewardAddress address =>
      ({ miner with candidateGen := { miner.candidateGen with rewardAddress := some address } }, .addressSet)

def verify (miner : Miner) (solution : AutolykosSolution) (candidate : BlockCandidate) : ConsensusResult Bool :=
  miner.autolykos.verifySolution sr candidate.headerBytes solution (nbitsToTarget candidate.nBits) candidate.height

/-- One step of a call; two that touch nothing the others can see are taken as one. -/
def advance (inputs : MinerInputs) (miner : Miner) : MinerPhase → Miner × MinerPhase
  | .called call => miner.takeCall call
  | .disabled => ({ miner with internalRunning := false }, .returned .done)
  | .lookingUp =>
      match miner.candidateGen.cachedCandidate.filter (CandidateGenerator.isFresh inputs.history inputs.candidate.now) with
      | some cached => (miner, .found cached)
      | none => (miner, .generating)
  | .generating =>
      match miner.candidateGen.rewardAddress with
      | none => (miner, .returned (.candidate (.error (.generator .noRewardAddress))))
      | some _ => (miner, .generated (CandidateGenerator.candidateFor sr inputs.history inputs.candidate))
  | .generated candidate =>
      ({ miner with candidateGen := { miner.candidateGen with cachedCandidate := some candidate } }, .found candidate)
  | .found candidate => ({ miner with currentCandidate := some candidate }, .stored candidate)
  | .stored candidate =>
      ({ miner with stats := { miner.stats with candidatesGenerated := miner.stats.candidatesGenerated + 1 } },
        .returned (.candidate (.ok candidate)))
  | .admitted solution =>
      ({ miner with stats := { miner.stats with solutionsReceived := miner.stats.solutionsReceived + 1 } },
        .received solution)
  | .received solution =>
      match miner.currentCandidate with
      | none => (miner, .returned (.submitted (.error noCandidate)))
      | some candidate => (miner, .verifying solution candidate)
  | .verifying solution candidate =>
      match miner.verify sr solution candidate with
      | .error error => (miner, .returned (.submitted (.error (.consensus error))))
      | .ok true => (miner, .accepted solution candidate)
      | .ok false => (miner, .refused)
  | .accepted solution candidate =>
      ({ miner with stats := { miner.stats with validSolutions := miner.stats.validSolutions + 1 } },
        .counted solution candidate)
  | .counted solution candidate =>
      ({ miner with stats := { miner.stats with blocksMined := miner.stats.blocksMined + 1 } },
        .mined solution candidate)
  | .mined solution candidate => ({ miner with candidateGen := miner.candidateGen.invalidate }, .clearing solution candidate)
  | .clearing _ _ => ({ miner with currentCandidate := none }, .returned (.submitted (.ok true)))
  | .refused =>
      ({ miner with stats := { miner.stats with invalidSolutions := miner.stats.invalidSolutions + 1 } },
        .returned (.submitted (.ok false)))
  | .invalidated => ({ miner with currentCandidate := none }, .returned .done)
  | .addressSet => ({ miner with candidateGen := miner.candidateGen.invalidate }, .returned .done)
  | .returned reply => (miner, .returned reply)

def step (threads : Threads Miner MinerPhase) (action : Threads.Action MinerCall MinerInputs) :
    Option (Threads Miner MinerPhase) := threads.step MinerPhase.called (advance sr) action

end Miner
end ErgoNode
