import NemoRL.Algorithms.PromptGroups
import NemoRL.Algorithms.RewardShaping

/-!
# Two trainers with dynamic sampling

Both trainers scale and shape the rewards of a generated batch, compute baselines and
deviations, and give the rows to dynamic sampling. The slice of the trainer on the data plane
has no messages. The legacy trainer has them, and with dynamic sampling it computes the
deviations of the rewards before shaping.

What is observed of a trainer at each batch is whether it raises, the rows that it has
collected, or the rows that it trains on with the rewards that it reports.

## Main definitions

* `syncBatch`, `legacyBatch` — a batch of the two trainers.
* `syncObservations`, `legacyObservations` — what is observed of them over some batches.
-/

namespace NemoRL.Algorithms

open Lib

/-- What a trainer is configured with. -/
structure TrainerConfig (K : Type) where
  sampling : SamplingConfig
  useLeaveOneOutBaseline : Bool
  rewardScaling : RewardScalingConfig K
  rewardShaping : RewardShapingConfig K
  deriving DecidableEq, Repr

/-- The columns of a row beside its reward. The components of the reward are scaled with it. -/
structure RowData (K ρ : Type) where
  truncated : Bool
  messageLog : List Message
  rewardComponents : List K
  rest : ρ
  deriving DecidableEq, Repr

variable {P K ρ : Type}

/-- Replace the column of the rewards. -/
def setRewards {δ : Type} (rows : List (GeneratedRow P K δ)) (rewards : List K) :
    List (GeneratedRow P K δ) :=
  rows.mapIdx fun i row => { row with totalReward := (rewards[i]?).getD row.totalReward }

/-- Replace the column of the rewards of a rollout. -/
def Rollout.setRewards {δ : Type} (rollout : Rollout (GeneratedRow P K δ)) (rewards : List K) :
    Rollout (GeneratedRow P K δ) where
  sampleIds := rollout.sampleIds
  sequenceLengths := rollout.sequenceLengths
  rows := Algorithms.setRewards rollout.rows rewards
  length_sampleIds := by
    rw [Algorithms.setRewards, List.length_mapIdx]
    exact rollout.length_sampleIds

section Scale
variable [Field K] [LinearOrder K]

/-- Scale the rewards of a row. -/
def scaleRow (cfg : RewardScalingConfig K) (row : GeneratedRow P K (RowData K ρ)) :
    GeneratedRow P K (RowData K ρ) :=
  { row with
    totalReward := scaleReward cfg row.totalReward
    data := { row.data with
      rewardComponents := row.data.rewardComponents.map (scaleReward cfg) } }

/-- Scale the rewards of a rollout. -/
def Rollout.scale (cfg : RewardScalingConfig K)
    (rollout : Rollout (GeneratedRow P K (RowData K ρ))) :
    Rollout (GeneratedRow P K (RowData K ρ)) where
  sampleIds := rollout.sampleIds
  sequenceLengths := rollout.sequenceLengths
  rows := rollout.rows.map (scaleRow cfg)
  length_sampleIds := by
    rw [List.length_map]
    exact rollout.length_sampleIds

/-- The rewards of scaled rows after shaping, and before it when they are shaped. -/
def shapedRewards (cfg : TrainerConfig K) (messageLogs : Option (List (List Message)))
    (rows : List (GeneratedRow P K (RowData K ρ))) : Except PyError (List K × Option (List K)) :=
  if cfg.rewardShaping.enabled then do
    let (rewards, unshaped) ← applyRewardShaping cfg.rewardShaping messageLogs
      (rows.map (·.data.truncated)) (rows.map (·.totalReward))
    pure (rewards, some unshaped)
  else .ok (rows.map (·.totalReward), none)

variable [DecidableEq P] (sqrt : K → K) (cfg : TrainerConfig K)

/-! ## The trainers -/

/-- A batch of the trainer on the data plane. -/
def syncBatch (loop : SyncLoop P K (RowData K ρ))
    (rollout : Rollout (GeneratedRow P K (RowData K ρ))) :
    Except PyError (SyncLoop P K (RowData K ρ) × Option (TrainBatch P K (RowData K ρ)) ×
      List (List String × String)) := do
  let scaled := rollout.scale cfg.rewardScaling
  let (rewards, _) ← shapedRewards cfg none scaled.rows
  syncIteration cfg.sampling loop
    ((scaled.setRewards rewards).withBaselineStd sqrt cfg.useLeaveOneOutBaseline)

/-- The rows of the legacy trainer with their baselines and deviations. -/
def legacySamples (rows : List (GeneratedRow P K (RowData K ρ))) :
    Except PyError (List (SampleRow P K (RowData K ρ))) := do
  let scaled := rows.map (scaleRow cfg.rewardScaling)
  let (rewards, unshaped) ← shapedRewards cfg (some (scaled.map (·.data.messageLog))) scaled
  let stdRewards := if cfg.sampling.useDynamicSampling then unshaped else none
  pure (withBaselineStd sqrt cfg.useLeaveOneOutBaseline stdRewards (setRewards scaled rewards))

/-- A batch of the legacy trainer. -/
def legacyBatch (loop : LegacyLoop P K (RowData K ρ))
    (rows : List (GeneratedRow P K (RowData K ρ))) :
    Except PyError (LegacyLoop P K (RowData K ρ) × Option (LegacyBatch P K (RowData K ρ))) := do
  let samples ← legacySamples sqrt cfg rows
  legacyIteration cfg.sampling loop samples

/-! ## Observations -/

/-- What is observed of a trainer at a batch. -/
inductive Observation (P K ρ : Type)
  | raised
  | collected (rows : List (KeptRow P K ρ))
  | finished (rows : List (KeptRow P K ρ)) (unfilteredRewards : List K)
  deriving DecidableEq, Repr

/-- What is observed of the trainer on the data plane over some batches. -/
def syncObservations (loop : SyncLoop P K (RowData K ρ)) :
    List (Rollout (GeneratedRow P K (RowData K ρ))) → List (Observation P K (RowData K ρ))
  | [] => []
  | rollout :: rollouts =>
    match syncBatch sqrt cfg loop rollout with
    | .error _ => [.raised]
    | .ok (loop, none, _) =>
      .collected (loop.pending.pendingCarry.getD []) :: syncObservations loop rollouts
    | .ok (loop, some trained, _) =>
      .finished trained.rows trained.unfilteredRewards :: syncObservations loop rollouts

/-- What is observed of the legacy trainer over some batches. -/
def legacyObservations (loop : LegacyLoop P K (RowData K ρ)) :
    List (Rollout (GeneratedRow P K (RowData K ρ))) → List (Observation P K (RowData K ρ))
  | [] => []
  | rollout :: rollouts =>
    match legacyBatch sqrt cfg loop rollout.rows with
    | .error _ => [.raised]
    | .ok (loop, none) =>
      .collected ((loop.batchCache.map (·.rows)).getD []) :: legacyObservations loop rollouts
    | .ok (loop, some trained) =>
      .finished trained.rows trained.totalReward :: legacyObservations loop rollouts

end Scale

end NemoRL.Algorithms
