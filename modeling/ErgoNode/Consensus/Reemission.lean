import ErgoNode.Chain.Types
import ErgoNode.Lib.Overflow

/-!
# Emission and re-emission

Amounts are in nanoERG, 64-bit words.
-/

namespace ErgoNode
open Lib

structure ReemissionSettings where
  activationHeight : Nat
  reemissionStartHeight : Nat
  deriving DecidableEq

namespace ReemissionSettings

def mainnet : ReemissionSettings := ⟨777217, 2080800⟩

def testnet : ReemissionSettings := ⟨188001, 2080800⟩

def disabled : ReemissionSettings := ⟨2 ^ 32 - 1, 2 ^ 32 - 1⟩

end ReemissionSettings

structure ReemissionRules where
  settings : ReemissionSettings
  basicChargeAmount : Nat
  reemissionRewardPerBlock : Nat
  deriving DecidableEq

namespace ReemissionRules

def coinsInOneErg : Nat := 1000000000

def initialReward : Nat := 75 * coinsInOneErg

def rewardReduction : Nat := 3 * coinsInOneErg

def reductionPeriod : Nat := 64800

def fixedRatePeriod : Nat := 525600

def minReward : Nat := 3 * coinsInOneErg

def totalSupply : Nat := 97739924 * coinsInOneErg

def new (settings : ReemissionSettings) : ReemissionRules := ⟨settings, 12 * coinsInOneErg, 3 * coinsInOneErg⟩

abbrev u64 : Nat := 2 ^ 64

def emissionAtHeight (height : Nat) : Overflowing Nat :=
  if height = 0 then pure 0
  else if height ≤ fixedRatePeriod then pure initialReward
  else do
    let blocksAfterFixed ← Overflowing.sub u64 height fixedRatePeriod
    let reductionEpochs := blocksAfterFixed / reductionPeriod
    let reduction ← Overflowing.mul u64 reductionEpochs rewardReduction
    if reduction ≥ initialReward - minReward then pure minReward
    else Overflowing.sub u64 initialReward reduction

/-- The arithmetic series of the epochs before the n-th. -/
def fullEpochsReward (n : Nat) : Overflowing Nat :=
  if n > 0 then do
    let initial ← Overflowing.mul u64 n initialReward
    let scaled ← Overflowing.mul u64 rewardReduction n
    let before ← Overflowing.sub u64 n 1
    let doubled ← Overflowing.mul u64 scaled before
    let reward ← Overflowing.sub u64 initial (doubled / 2)
    Overflowing.mul u64 reductionPeriod reward
  else pure 0

def issuedAfterFixed (height : Nat) : Overflowing Nat := do
  let fixedPeriodTotal ← Overflowing.mul u64 fixedRatePeriod initialReward
  let blocksAfterFixed ← Overflowing.sub u64 height fixedRatePeriod
  let maxReductionEpochs := (initialReward - minReward) / rewardReduction
  let fullEpochs := min (blocksAfterFixed / reductionPeriod) maxReductionEpochs
  let blocksInFullEpochs ← Overflowing.mul u64 fullEpochs reductionPeriod
  let remainingBeforeMin ←
    if fullEpochs < maxReductionEpochs then do
      let remaining ← Overflowing.sub u64 blocksAfterFixed blocksInFullEpochs
      pure (min remaining reductionPeriod)
    else pure 0
  let blocksOfEpochs ← Overflowing.mul u64 maxReductionEpochs reductionPeriod
  let blocksBeforeMin ← Overflowing.add u64 blocksOfEpochs remainingBeforeMin
  let blocksAtMinimum := blocksAfterFixed - blocksBeforeMin
  let fullEpochsTotal ← fullEpochsReward fullEpochs
  let reduction ← Overflowing.mul u64 fullEpochs rewardReduction
  let partialEpochReward ← Overflowing.sub u64 initialReward reduction
  let partialEpochTotal ← Overflowing.mul u64 remainingBeforeMin partialEpochReward
  let minimumTotal ← Overflowing.mul u64 blocksAtMinimum minReward
  let total ← Overflowing.add u64 fixedPeriodTotal fullEpochsTotal
  let total ← Overflowing.add u64 total partialEpochTotal
  Overflowing.add u64 total minimumTotal

def issuedCoinsAfterHeight (height : Nat) : Overflowing Nat :=
  if height = 0 then pure 0
  else do
    let total ←
      if height ≤ fixedRatePeriod then Overflowing.mul u64 height initialReward else issuedAfterFixed height
    pure (min total totalSupply)

variable (rules : ReemissionRules)

def reemissionForHeight (height : Nat) : Overflowing Nat := do
  let emission ← emissionAtHeight height
  let threshold ← Overflowing.add u64 rules.basicChargeAmount minReward
  if height ≥ rules.settings.activationHeight ∧ emission ≥ threshold then pure rules.basicChargeAmount
  else if height ≥ rules.settings.activationHeight ∧ emission > minReward then
    Overflowing.sub u64 emission minReward
  else pure 0

def minerRewardAtHeight (height : Nat) : Overflowing Nat := do
  let emission ← emissionAtHeight height
  let reemission ← rules.reemissionForHeight height
  pure (emission - reemission)

def claimableReemissionAtHeight (height : Nat) : Nat :=
  if height ≥ rules.settings.reemissionStartHeight then rules.reemissionRewardPerBlock else 0

def totalMinerIncomeAtHeight (height : Nat) : Overflowing Nat := do
  let reward ← rules.minerRewardAtHeight height
  Overflowing.add u64 reward (rules.claimableReemissionAtHeight height)

end ReemissionRules
end ErgoNode
