import ErgoNode.Consensus.HeaderValidation
import Mathlib.Data.Rat.Floor

/-!
# Difficulty adjustment

Targets in compact form, and the target of a new epoch from a linear regression over the headers before
it. The floating point numbers of the regression are rationals here.
-/

namespace ErgoNode

def targetToNbits (target : Nat) : UInt32 :=
  if target = 0 then 0
  else
    let bytes := toBytesBe target
    let len := bytes.length
    let (size, word) : UInt32 × UInt32 :=
      if len ≤ 3 then
        -- One or two bytes stand at the upper end of the word, and their size is three as well.
        (3, bytes.zipIdx.foldl (fun word b => word ||| (b.1.toUInt32 <<< UInt32.ofNat (8 * (2 - b.2)))) 0)
      else
        (UInt32.ofNat len, (bytes.getD 0 0).toUInt32 <<< 16 ||| (bytes.getD 1 0).toUInt32 <<< 8 |||
          (bytes.getD 2 0).toUInt32)
    if word &&& 0x00800000 ≠ 0 then ((size + 1) <<< 24) ||| (word >>> 8) else (size <<< 24) ||| word

structure HeaderForDifficulty where
  height : UInt32
  timestamp : UInt64
  nBits : UInt32
  deriving DecidableEq

structure RegressionSums where
  x : ℚ
  y : ℚ
  xy : ℚ
  x2 : ℚ

def RegressionSums.add (sums : RegressionSums) (header : HeaderForDifficulty) : RegressionSums :=
  let x : ℚ := header.height.toNat
  let y : ℚ := header.timestamp.toNat
  ⟨sums.x + x, sums.y + y, sums.xy + x * y, sums.x2 + x * x⟩

structure DifficultyAdjustment where
  targetIntervalMs : UInt64
  epochLength : UInt32

namespace DifficultyAdjustment

def maxDifficultyChange : ℚ := 2

def epsilon : ℚ := 1 / 2 ^ 52

def new : DifficultyAdjustment := ⟨120 * 1000, 1024⟩

def regressionSums (headers : List HeaderForDifficulty) : RegressionSums :=
  headers.foldl RegressionSums.add ⟨0, 0, 0, 0⟩

def denominator (headers : List HeaderForDifficulty) : ℚ :=
  let sums := regressionSums headers
  headers.length * sums.x2 - sums.x * sums.x

def slope (headers : List HeaderForDifficulty) : ℚ :=
  let sums := regressionSums headers
  (headers.length * sums.xy - sums.x * sums.y) / denominator headers

variable (adjuster : DifficultyAdjustment)

/-- A slope of zero gives an infinite adjustment. -/
def clamped (slope : ℚ) : ℚ :=
  if slope = 0 then maxDifficultyChange
  else max (1 / maxDifficultyChange) (min (adjuster.targetIntervalMs.toNat / slope) maxDifficultyChange)

def adjustTarget (clamped : ℚ) (currentTarget : Nat) : Nat :=
  if 1 < clamped then currentTarget * 1000 / ⌊clamped * 1000⌋₊ else currentTarget * ⌊1000 / clamped⌋₊ / 1000

def linearRegressionDifficulty (headers : List HeaderForDifficulty) : ConsensusResult UInt32 :=
  if short : headers.length < 2 then
    .error (.invalidDifficulty s!"{headers.length} headers" "at least 2 headers")
  else if |denominator headers| < epsilon then
    .error (.invalidDifficulty "degenerate data" "non-degenerate header timestamps")
  else
    let last := headers.getLast (by rintro rfl; exact short (by decide))
    .ok (targetToNbits (adjustTarget (adjuster.clamped (slope headers)) (nbitsToTarget last.nBits)))

def calculateNextDifficulty (headers : List HeaderForDifficulty) (nextHeight : UInt32) : ConsensusResult UInt32 :=
  if nextHeight ≤ adjuster.epochLength then .ok ((headers.head?.map (·.nBits)).getD 0x1f00ffff)
  else if nextHeight % adjuster.epochLength ≠ 0 then
    match headers.getLast? with
    | some header => .ok header.nBits
    | none => .error (.invalidDifficulty "no headers" "at least one header")
  else adjuster.linearRegressionDifficulty headers

end DifficultyAdjustment

def calculateRequiredDifficulty (headers : List HeaderForDifficulty) (nextHeight : UInt32) :
    ConsensusResult UInt32 :=
  DifficultyAdjustment.new.calculateNextDifficulty headers nextHeight

end ErgoNode
