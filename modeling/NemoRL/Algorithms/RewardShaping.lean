import NemoRL.Error
import NemoRL.Lib.Dict
import Mathlib.Algebra.Order.Field.Basic

/-!
# Scaling and shaping of rewards

Rewards are first moved from one interval to another. Shaping then takes penalties off: for
repeated n-grams and for the length of the response, which read the messages of a row, and for
responses that were cut off.

Rewards are numbers of an ordered field, where division of a tensor by zero gives zero.

## Main definitions

* `scaleReward` — move a reward to the target interval.
* `applyRewardShaping` — take the penalties off.
-/

namespace NemoRL.Algorithms

open Lib

variable {K : Type}

/-! ## Scaling -/

/-- The intervals of the scaling. -/
structure RewardScalingConfig (K : Type) where
  enabled : Bool
  sourceMin : K
  sourceMax : K
  targetMin : K
  targetMax : K
  deriving DecidableEq, Repr

/-- Clamp a reward to the source interval and move it to the target interval. -/
def scaleReward [Field K] [LinearOrder K] (cfg : RewardScalingConfig K) (reward : K) : K :=
  if cfg.enabled then
    let r := min (max reward cfg.sourceMin) cfg.sourceMax
    cfg.targetMin + (r - cfg.sourceMin) / (cfg.sourceMax - cfg.sourceMin) *
      (cfg.targetMax - cfg.targetMin)
  else reward

/-! ## Shaping -/

/-- The penalties. One that misses a setting is not applied. -/
structure RewardShapingConfig (K : Type) where
  enabled : Bool
  overlongBufferLength : Option ℤ := none
  overlongBufferPenalty : Option K := none
  maxResponseLength : Option ℤ := none
  stopProperlyPenaltyCoef : Option K := none
  nGramSize : Option ℕ := none
  nGramThreshold : Option ℤ := none
  nGramRepetitionWeight : Option K := none
  deriving DecidableEq, Repr

/-- A message of a row. -/
structure Message where
  role : String
  tokenIds : List ℤ
  deriving DecidableEq, Repr

/-- The settings of the penalty for repeated n-grams: its weight, the size and the threshold. -/
def RewardShapingConfig.useNGramPenalty (cfg : RewardShapingConfig K) : Option (K × ℕ × ℤ) := do
  let weight ← cfg.nGramRepetitionWeight
  let size ← cfg.nGramSize
  let threshold ← cfg.nGramThreshold
  pure (weight, size, threshold)

/-- The settings of the penalty for long responses: the buffer, the penalty and the limit. -/
def RewardShapingConfig.useOverlongPenalty (cfg : RewardShapingConfig K) : Option (ℤ × K × ℤ) := do
  let bufferLength ← cfg.overlongBufferLength
  let penalty ← cfg.overlongBufferPenalty
  let maxResponseLength ← cfg.maxResponseLength
  pure (bufferLength, penalty, maxResponseLength)

/-- Whether a penalty is set that reads the messages. -/
def RewardShapingConfig.readsMessages (cfg : RewardShapingConfig K) : Bool :=
  cfg.useNGramPenalty.isSome || cfg.useOverlongPenalty.isSome

/-- What is counted of n-grams: how often each occurs, the largest of these numbers, and how
many are over the threshold. -/
structure NGramCount where
  freq : List (List ℤ × ℕ) := []
  maxFreq : ℕ := 0
  overCount : ℕ := 0
  deriving DecidableEq, Repr

/-- Count an n-gram. -/
def NGramCount.add (threshold : ℤ) (acc : NGramCount) (gram : List ℤ) : NGramCount :=
  let count := (acc.freq.lookup gram).getD 0 + 1
  { freq := dictSet acc.freq gram count
    maxFreq := max acc.maxFreq count
    overCount := if (count : ℤ) = threshold + 1 then acc.overCount + 1 else acc.overCount }

section Field
variable [Field K] [LinearOrder K]

/-- The penalty for n-grams that occur more often than a threshold. -/
def computeNGramRepetitionPenalty (tokenIds : List ℤ) (n : ℕ) (threshold : ℤ) :
    Except PyError K :=
  let seqLen := tokenIds.length
  if seqLen < n then .ok 0
  else
    let totalNGrams := seqLen - n + 1
    let counted := ((List.range totalNGrams).map fun i => (tokenIds.drop i).take n).foldl
      (NGramCount.add threshold) {}
    if counted.overCount = 0 then .ok 0
    else if n = 0 then .error ⟨.zeroDivisionError, "division by zero"⟩
    else .ok (max ((counted.overCount : K) / totalNGrams)
      ((counted.maxFreq : K) / ((seqLen : K) / n)))

/-- What is added for the length of a response. -/
def overlongReward (responseLength : ℕ) (bufferLength : ℤ) (penalty : K)
    (maxResponseLength : ℤ) : Except PyError K :=
  let exceedLength : ℤ := responseLength - (maxResponseLength - bufferLength)
  if bufferLength = 0 then .error ⟨.zeroDivisionError, "division by zero"⟩
  else .ok (min (-(exceedLength : K) / bufferLength * |penalty|) 0)

/-- The reward of a row with the penalties that read its messages. -/
def penalizedReward (cfg : RewardShapingConfig K) (messageLog : List Message) (reward : K) :
    Except PyError K :=
  match messageLog.find? fun message => message.role = "assistant" with
  | none => .error ⟨.assertionError, "Assistant response not found during reward shaping"⟩
  | some response => do
    let reward ← match cfg.useNGramPenalty with
      | none => Except.ok reward
      | some (weight, size, threshold) => do
        let penalty ← computeNGramRepetitionPenalty response.tokenIds size threshold
        pure (reward - |weight| * penalty)
    match cfg.useOverlongPenalty with
    | none => pure reward
    | some (bufferLength, penalty, maxResponseLength) => do
      let overlong ← overlongReward response.tokenIds.length bufferLength penalty
        maxResponseLength
      pure (reward + overlong)

/-- The rewards with the penalties that read the messages, which may be missing. -/
def penalizeMessages (cfg : RewardShapingConfig K) (messageLogs : Option (List (List Message)))
    (rewards : List K) : Except PyError (List K) :=
  if !cfg.readsMessages then .ok rewards
  else
    match messageLogs with
    | none => .error ⟨.keyError, "'message_log'"⟩
    | some messageLogs =>
      if messageLogs.length ≠ rewards.length then
        .error ⟨.assertionError,
          "The number of messages in the batch must match the number of rewards"⟩
      else (messageLogs.zip rewards).mapM fun p => penalizedReward cfg p.1 p.2

/-- The rewards with the penalty for responses that were cut off. -/
def penalizeTruncated (cfg : RewardShapingConfig K) (truncated : List Bool) (rewards : List K) :
    List K :=
  match cfg.stopProperlyPenaltyCoef with
  | none => rewards
  | some coef =>
    if truncated.any id then
      List.zipWith (fun reward cut => if cut then reward - |coef| else reward) rewards truncated
    else rewards

/-- The shaped rewards, and the rewards before shaping. -/
def applyRewardShaping (cfg : RewardShapingConfig K)
    (messageLogs : Option (List (List Message))) (truncated : List Bool) (rewards : List K) :
    Except PyError (List K × List K) := do
  let penalized ← penalizeMessages cfg messageLogs rewards
  pure (penalizeTruncated cfg truncated penalized, rewards)

/-- Without a penalty that reads the messages it does not matter what they are. -/
theorem applyRewardShaping_eq {cfg : RewardShapingConfig K} (h : cfg.readsMessages = false)
    (messageLogs : Option (List (List Message))) (truncated : List Bool) (rewards : List K) :
    applyRewardShaping cfg messageLogs truncated rewards =
      .ok (penalizeTruncated cfg truncated rewards, rewards) := by
  simp only [applyRewardShaping, penalizeMessages, h, Bool.not_false, if_true, bind, Except.bind,
    pure, Except.pure]

/-- Without the messages, a penalty that reads them raises. -/
theorem applyRewardShaping_none {cfg : RewardShapingConfig K} (h : cfg.readsMessages = true)
    (truncated : List Bool) (rewards : List K) :
    applyRewardShaping cfg none truncated rewards = .error ⟨.keyError, "'message_log'"⟩ := by
  simp only [applyRewardShaping, penalizeMessages, h, Bool.not_true, Bool.false_eq_true, if_false,
    bind, Except.bind]

end Field

end NemoRL.Algorithms
