import NemoRL.Algorithms.SyncLegacy
import Mathlib.Analysis.Real.Sqrt

/-!
# Where the two trainers agree

The trainers agree batch by batch as long as the rows that they keep agree, up to the row that
makes a step complete, and as long as a step reports the same rewards. They compute the
deviations of different rewards, and the legacy trainer leaves out the rewards of batches
without a row to keep. A penalty that reads messages raises in the trainer on the data plane.

## Main definitions

* `Collected` — what both trainers have collected while they agree.
* `BatchAgrees` — the condition for a batch.
* `TrainersAgree` — the condition for batches one after another.

## Main results

* `syncObservations_eq_iff` — the trainers are observed to do the same just under the condition.
-/

namespace NemoRL.Algorithms

open Lib

variable {P K ρ δ : Type}

/-! ## What is collected -/

/-- What both trainers have collected for a step: the rows, the rewards of all batches, the
rewards of the batches with rows that are kept, and the number of batches. -/
structure Collected (P K δ : Type) where
  rows : List (KeptRow P K δ) := []
  unfilteredRewards : List K := []
  survivorRewards : List K := []
  numGenBatches : ℕ := 0
  deriving DecidableEq, Repr

namespace Collected
variable (cfg : SamplingConfig) (c : Collected P K δ) (kept : List (KeptRow P K δ))
  (rewards : List K)

/-- There are too few rows for a step. -/
def TooFew : Prop := (c.rows ++ kept).length < cfg.trainPromptsSize

/-- There were too many batches already. -/
def Exhausted : Prop := cfg.dynamicSamplingMaxGenBatches < ((c.numGenBatches + 1 : ℕ) : ℤ)

instance : Decidable (c.TooFew cfg kept) := inferInstanceAs (Decidable (_ < _))

instance : Decidable (c.Exhausted cfg) := inferInstanceAs (Decidable (_ < _))

/-- The rewards of the batches with rows that are kept. -/
def survivors : List K :=
  if kept.isEmpty then c.survivorRewards else c.survivorRewards ++ rewards

/-- What is observed of the trainer on the data plane when it keeps some rows. -/
def syncObservation : Observation P K δ :=
  if c.TooFew cfg kept then
    if c.Exhausted cfg then .raised else .collected (c.rows ++ kept)
  else if (c.rows ++ kept).isEmpty then .raised
  else .finished ((c.rows ++ kept).take cfg.trainPromptsSize)
    ((c.unfilteredRewards ++ rewards).take cfg.trainPromptsSize)

/-- What is observed of the legacy trainer when it keeps some rows. -/
def legacyObservation : Observation P K δ :=
  if c.TooFew cfg kept then
    if c.Exhausted cfg then .raised else .collected (c.rows ++ kept)
  else .finished ((c.rows ++ kept).take cfg.trainPromptsSize)
    ((c.survivors kept rewards).take cfg.trainPromptsSize)

/-- What is collected after a batch, unless the trainers raise. -/
def next : Option (Collected P K δ) :=
  if c.TooFew cfg kept then
    if c.Exhausted cfg then none
    else some ⟨c.rows ++ kept, c.unfilteredRewards ++ rewards, c.survivors kept rewards,
      c.numGenBatches + 1⟩
  else if (c.rows ++ kept).isEmpty then none
  else some {}

/-- The condition for a batch of which the two trainers keep some rows each. Both raise for too
few rows, or the rows up to the one that completes a step are the same; and a complete step has
rows, and reports the same rewards without the batches that have no rows to keep. -/
def SamplingAgrees (keptSync keptLegacy : List (KeptRow P K δ)) : Prop :=
  (c.TooFew cfg keptSync ∧ c.TooFew cfg keptLegacy ∧ c.Exhausted cfg) ∨
    (keptSync.take (cfg.trainPromptsSize - c.rows.length) =
        keptLegacy.take (cfg.trainPromptsSize - c.rows.length) ∧
      (¬ c.TooFew cfg keptSync → (c.rows ++ keptSync) ≠ [] ∧
        (c.unfilteredRewards ++ rewards).take cfg.trainPromptsSize =
          (c.survivors keptLegacy rewards).take cfg.trainPromptsSize))

variable {cfg c rewards} {keptSync keptLegacy : List (KeptRow P K δ)}

/-- The observations of a batch are the same just under the condition. -/
theorem syncObservation_eq_iff (hrows : c.rows.length ≤ cfg.trainPromptsSize) :
    c.syncObservation cfg keptSync rewards = c.legacyObservation cfg keptLegacy rewards ↔
      c.SamplingAgrees cfg rewards keptSync keptLegacy := by
  have htake : ∀ kept : List (KeptRow P K δ), (c.rows ++ kept).take cfg.trainPromptsSize =
      c.rows ++ kept.take (cfg.trainPromptsSize - c.rows.length) := by
    intro kept
    rw [List.take_append, List.take_of_length_le hrows]
  have hfew : ∀ {kept : List (KeptRow P K δ)}, c.TooFew cfg kept →
      kept.take (cfg.trainPromptsSize - c.rows.length) = kept := by
    intro kept h
    rw [TooFew, List.length_append] at h
    exact List.take_of_length_le (by omega)
  have hmany : ∀ {kept : List (KeptRow P K δ)}, ¬ c.TooFew cfg kept →
      (kept.take (cfg.trainPromptsSize - c.rows.length)).length =
        cfg.trainPromptsSize - c.rows.length := by
    intro kept h
    rw [TooFew, List.length_append] at h
    exact List.length_take_of_le (by omega)
  -- the rows up to the one that completes a step are as many as the step has room for
  have hdiffer : ∀ {few many : List (KeptRow P K δ)}, c.TooFew cfg few → ¬ c.TooFew cfg many →
      few.take (cfg.trainPromptsSize - c.rows.length) ≠
        many.take (cfg.trainPromptsSize - c.rows.length) := by
    intro few many hlt hle heq
    have hlength := hmany hle
    rw [← heq, hfew hlt] at hlength
    rw [TooFew, List.length_append] at hlt
    omega
  unfold syncObservation legacyObservation SamplingAgrees
  by_cases hsync : c.TooFew cfg keptSync
  · by_cases hlegacy : c.TooFew cfg keptLegacy
    · rw [if_pos hsync, if_pos hlegacy, hfew hsync, hfew hlegacy]
      by_cases hmax : c.Exhausted cfg
      · simp [hmax, hsync, hlegacy]
      · simp [hmax, hsync]
    · have hne := hdiffer hsync hlegacy
      rw [if_pos hsync, if_neg hlegacy]
      simp only [hlegacy, hne, false_and, and_false, or_false, iff_false]
      split_ifs
      · exact fun h => nomatch h
      · exact fun h => nomatch h
  · by_cases hlegacy : c.TooFew cfg keptLegacy
    · have hne := (hdiffer hlegacy hsync).symm
      have hsome : (c.rows ++ keptSync).isEmpty = false := by
        rw [TooFew] at hsync hlegacy
        rw [List.isEmpty_eq_false_iff, ← List.length_pos_iff]
        omega
      rw [if_neg hsync, if_pos hlegacy, if_neg (by simp [hsome])]
      simp only [hsync, hne, false_and, or_false, iff_false]
      split_ifs
      · exact fun h => nomatch h
      · exact fun h => nomatch h
    · rw [if_neg hsync, if_neg hlegacy]
      by_cases hnil : c.rows ++ keptSync = []
      · simp [hnil, hsync]
      · simp [hnil, hsync, htake]

/-- While the observations of a batch are the same and there are too few rows, the rows that are
kept are the same. -/
theorem SamplingAgrees.kept_eq (h : c.SamplingAgrees cfg rewards keptSync keptLegacy)
    (hfew : c.TooFew cfg keptSync) (hmax : ¬ c.Exhausted cfg) : keptSync = keptLegacy := by
  rcases h with ⟨-, -, hexhausted⟩ | ⟨htake, -⟩
  · exact absurd hexhausted hmax
  · rw [TooFew, List.length_append] at hfew
    have hsync : keptSync.take (cfg.trainPromptsSize - c.rows.length) = keptSync :=
      List.take_of_length_le (by omega)
    have hshort : (keptLegacy.take (cfg.trainPromptsSize - c.rows.length)).length <
        cfg.trainPromptsSize - c.rows.length := by
      rw [← htake, hsync]
      omega
    have hlegacy : keptLegacy.take (cfg.trainPromptsSize - c.rows.length) = keptLegacy := by
      apply List.take_of_length_le
      rw [List.length_take] at hshort
      omega
    rw [← hsync, htake, hlegacy]

end Collected

/-- Whether a trainer raises, and stops. -/
def Observation.isRaised : Observation P K δ → Bool
  | .raised => true
  | _ => false

/-- What the trainer on the data plane holds is what it is observed to have collected. -/
theorem SyncLoop.Holds.getD_pendingCarry {loop : SyncLoop P K δ} {ids : List String}
    {rows : List (KeptRow P K δ)} {unfiltered : List K} {num : ℕ}
    (h : loop.Holds ids rows unfiltered num) : loop.pending.pendingCarry.getD [] = rows := by
  cases h.pending with
  | empty _ hcarry => rw [hcarry, Option.getD_none]
  | collected _ _ _ hcarry _ _ _ => rw [hcarry, Option.getD_some]

/-- What the legacy trainer holds is what it is observed to have collected. -/
theorem LegacyLoop.Holds.getD_batchCache {loop : LegacyLoop P K δ} {size : ℕ}
    {rows : List (KeptRow P K δ)} {totalReward : List K} {num : ℕ}
    (h : loop.Holds size rows totalReward num) :
    (loop.batchCache.map (·.rows)).getD [] = rows := by
  rcases h.batchCache with ⟨hcache, hrows, -⟩ | ⟨hcache, -⟩
  · rw [hcache, hrows, Option.map_none, Option.getD_none]
  · rw [hcache, Option.map_some, Option.getD_some]

/-! ## The rows of a batch -/

section Trainers
variable [Field K] [LinearOrder K] (sqrt : K → K) (cfg : TrainerConfig K)

/-- Whether shaping reads the messages. -/
def TrainerConfig.needsMessages : Bool :=
  cfg.rewardShaping.enabled && cfg.rewardShaping.readsMessages

/-- The rewards of scaled rows with the penalty for responses that were cut off. -/
def penalizedRewards (rows : List (GeneratedRow P K (RowData K ρ))) : List K :=
  if cfg.rewardShaping.enabled then
    penalizeTruncated cfg.rewardShaping (rows.map (·.data.truncated)) (rows.map (·.totalReward))
  else rows.map (·.totalReward)

/-- The rows of a batch with the rewards that the trainers train on. -/
def shapedRows (rows : List (GeneratedRow P K (RowData K ρ))) :
    List (GeneratedRow P K (RowData K ρ)) :=
  setRewards (rows.map (scaleRow cfg.rewardScaling))
    (penalizedRewards cfg (rows.map (scaleRow cfg.rewardScaling)))

/-- The rewards before shaping. -/
def unshapedRewards (rows : List (GeneratedRow P K (RowData K ρ))) : Option (List K) :=
  if cfg.sampling.useDynamicSampling && cfg.rewardShaping.enabled then
    some ((rows.map (scaleRow cfg.rewardScaling)).map (·.totalReward))
  else none

theorem shapedRewards_eq (h : cfg.needsMessages = false)
    (messageLogs : Option (List (List Message)))
    (rows : List (GeneratedRow P K (RowData K ρ))) :
    shapedRewards cfg messageLogs rows = .ok (penalizedRewards cfg rows,
      if cfg.rewardShaping.enabled then some (rows.map (·.totalReward)) else none) := by
  unfold shapedRewards penalizedRewards
  cases henabled : cfg.rewardShaping.enabled with
  | false => simp
  | true =>
    have hreads : cfg.rewardShaping.readsMessages = false := by
      simpa [TrainerConfig.needsMessages, henabled] using h
    simp [applyRewardShaping_eq hreads, bind, Except.bind, pure, Except.pure]

variable [DecidableEq P]

/-- The rows with deviations of the rewards after shaping. -/
def syncSamples (rows : List (GeneratedRow P K (RowData K ρ))) :
    List (SampleRow P K (RowData K ρ)) :=
  withBaselineStd sqrt cfg.useLeaveOneOutBaseline none (shapedRows cfg rows)

/-- The rows with deviations of the rewards before shaping. -/
def unshapedSamples (rows : List (GeneratedRow P K (RowData K ρ))) :
    List (SampleRow P K (RowData K ρ)) :=
  withBaselineStd sqrt cfg.useLeaveOneOutBaseline (unshapedRewards cfg rows) (shapedRows cfg rows)

/-- The trainer on the data plane samples from the rows with deviations after shaping. -/
theorem syncBatch_eq (h : cfg.needsMessages = false) (loop : SyncLoop P K (RowData K ρ))
    (rollout : Rollout (GeneratedRow P K (RowData K ρ))) :
    ∃ sampled : Rollout (SampleRow P K (RowData K ρ)),
      sampled.rows = syncSamples sqrt cfg rollout.rows ∧
      syncBatch sqrt cfg loop rollout = syncIteration cfg.sampling loop sampled := by
  refine ⟨((rollout.scale cfg.rewardScaling).setRewards (penalizedRewards cfg
    (rollout.scale cfg.rewardScaling).rows)).withBaselineStd sqrt cfg.useLeaveOneOutBaseline,
    rfl, ?_⟩
  simp only [syncBatch, shapedRewards_eq cfg h, bind, Except.bind]

/-- The trainer on the data plane has no messages to read. -/
theorem syncBatch_raise (h : cfg.needsMessages = true) (loop : SyncLoop P K (RowData K ρ))
    (rollout : Rollout (GeneratedRow P K (RowData K ρ))) :
    syncBatch sqrt cfg loop rollout = .error ⟨.keyError, "'message_log'"⟩ := by
  obtain ⟨henabled, hreads⟩ := Bool.and_eq_true_iff.mp h
  simp only [syncBatch, shapedRewards, henabled, applyRewardShaping_none hreads, bind, Except.bind,
    if_true]

/-- The legacy trainer samples from the rows with deviations before shaping. -/
theorem legacySamples_eq (h : cfg.needsMessages = false)
    (rows : List (GeneratedRow P K (RowData K ρ))) :
    legacySamples sqrt cfg rows = .ok (unshapedSamples sqrt cfg rows) := by
  have hstd : (if cfg.sampling.useDynamicSampling then
      if cfg.rewardShaping.enabled then
        some ((rows.map (scaleRow cfg.rewardScaling)).map (·.totalReward)) else none
      else none) = unshapedRewards cfg rows := by
    unfold unshapedRewards
    cases cfg.sampling.useDynamicSampling with
    | false => rfl
    | true => simp
  simp only [legacySamples, shapedRewards_eq cfg h, hstd, bind, Except.bind, pure, Except.pure]
  rfl

/-! ## Where the trainers agree -/

/-- The legacy trainer raises: when it shapes the rewards, or for too few rows. -/
def LegacyRaises (c : Collected P K (RowData K ρ))
    (rows : List (GeneratedRow P K (RowData K ρ))) : Prop :=
  ∀ samples, legacySamples sqrt cfg rows = .ok samples →
    cfg.sampling.useDynamicSampling = true ∧ c.TooFew cfg.sampling (keptRows samples) ∧
      c.Exhausted cfg.sampling

/-- The condition for a batch of rows. -/
def BatchAgrees (c : Collected P K (RowData K ρ))
    (rows : List (GeneratedRow P K (RowData K ρ))) : Prop :=
  if cfg.needsMessages then LegacyRaises sqrt cfg c rows
  else cfg.sampling.useDynamicSampling = true →
    c.SamplingAgrees cfg.sampling ((shapedRows cfg rows).map (·.totalReward))
      (keptRows (syncSamples sqrt cfg rows)) (keptRows (unshapedSamples sqrt cfg rows))

/-- What is collected after a batch of rows, unless the trainers raise. -/
def nextCollected (c : Collected P K (RowData K ρ))
    (rows : List (GeneratedRow P K (RowData K ρ))) : Option (Collected P K (RowData K ρ)) :=
  if cfg.needsMessages then none
  else if cfg.sampling.useDynamicSampling then
    c.next cfg.sampling (keptRows (syncSamples sqrt cfg rows))
      ((shapedRows cfg rows).map (·.totalReward))
  else some {}

/-- The condition for batches one after another, up to one that raises. -/
def TrainersAgree (c : Collected P K (RowData K ρ)) :
    List (Rollout (GeneratedRow P K (RowData K ρ))) → Prop
  | [] => True
  | rollout :: rollouts => BatchAgrees sqrt cfg c rollout.rows ∧
      ∀ c', nextCollected sqrt cfg c rollout.rows = some c' → TrainersAgree c' rollouts

/-- What the two trainers have collected. -/
structure Collected.Held (c : Collected P K (RowData K ρ)) (sync : SyncLoop P K (RowData K ρ))
    (legacy : LegacyLoop P K (RowData K ρ)) : Prop where
  sync_holds : ∃ ids, sync.Holds ids c.rows c.unfilteredRewards c.numGenBatches
  legacy_holds :
    legacy.Holds cfg.sampling.trainPromptsSize c.rows c.survivorRewards c.numGenBatches

/-! ## Batches of the trainers -/

variable {cfg} {c : Collected P K (RowData K ρ)} {sync : SyncLoop P K (RowData K ρ)}
  {legacy : LegacyLoop P K (RowData K ρ)}

theorem totalReward_syncSamples (rows : List (GeneratedRow P K (RowData K ρ))) :
    (syncSamples sqrt cfg rows).map (·.totalReward) =
      (shapedRows cfg rows).map (·.totalReward) :=
  totalReward_withBaselineStd ..

theorem totalReward_unshapedSamples (rows : List (GeneratedRow P K (RowData K ρ))) :
    (unshapedSamples sqrt cfg rows).map (·.totalReward) =
      (shapedRows cfg rows).map (·.totalReward) :=
  totalReward_withBaselineStd ..

/-- A batch of the trainer on the data plane, with dynamic sampling. -/
theorem syncObservations_cons (hplain : cfg.needsMessages = false)
    (hds : cfg.sampling.useDynamicSampling = true) {ids : List String}
    (hloop : sync.Holds ids c.rows c.unfilteredRewards c.numGenBatches)
    (rollout : Rollout (GeneratedRow P K (RowData K ρ)))
    (rollouts : List (Rollout (GeneratedRow P K (RowData K ρ)))) :
    let kept := keptRows (syncSamples sqrt cfg rollout.rows)
    let rewards := (shapedRows cfg rollout.rows).map (·.totalReward)
    ∃ sync', syncObservations sqrt cfg sync (rollout :: rollouts) =
        c.syncObservation cfg.sampling kept rewards ::
          (if (c.syncObservation cfg.sampling kept rewards).isRaised then []
          else syncObservations sqrt cfg sync' rollouts) ∧
      ∀ c', c.next cfg.sampling kept rewards = some c' →
        ∃ ids', sync'.Holds ids' c'.rows c'.unfilteredRewards c'.numGenBatches := by
  intro kept rewards
  obtain ⟨sampled, hrows, hbatch⟩ := syncBatch_eq sqrt cfg hplain sync rollout
  have hkept : keptRows sampled.rows = kept := by rw [hrows]
  have hrewards : sampled.rows.map (·.totalReward) = rewards := by
    rw [hrows, totalReward_syncSamples]
  simp only [syncObservations, hbatch]
  unfold Collected.syncObservation Collected.next
  by_cases hfew : c.TooFew cfg.sampling kept
  · by_cases hmax : c.Exhausted cfg.sampling
    · have hraise : syncIteration cfg.sampling sync sampled = _ :=
        syncIteration_raise hds hloop (by rwa [hkept]) hmax
      rw [hraise]
      exact ⟨sync, by simp [hfew, hmax, Observation.isRaised], by simp [hfew, hmax]⟩
    · have hlt : (c.rows ++ keptRows sampled.rows).length < cfg.sampling.trainPromptsSize := by
        rwa [hkept]
      obtain ⟨sync', calls, heq, hholds, -⟩ := syncIteration_more hds hloop hlt (not_lt.mp hmax)
      rw [hkept, hrewards] at hholds
      rw [heq]
      refine ⟨sync', by simp [hfew, hmax, hholds.getD_pendingCarry, Observation.isRaised], ?_⟩
      intro c' hnext
      rw [if_pos hfew, if_neg hmax, Option.some.injEq] at hnext
      subst hnext
      exact ⟨_, hholds⟩
  · have hle : cfg.sampling.trainPromptsSize ≤ (c.rows ++ keptRows sampled.rows).length := by
      rw [hkept]
      exact not_lt.mp hfew
    by_cases hnil : c.rows ++ kept = []
    · have hraise := syncIteration_nothing hds hloop hle (by rwa [hkept])
      rw [hraise]
      exact ⟨sync, by simp [hfew, hnil, Observation.isRaised], by simp [hfew, hnil]⟩
    · obtain ⟨sync', trained, calls, heq, hholds, -, -, htrained, hunfiltered, -⟩ :=
        syncIteration_complete hds hloop hle (by rwa [hkept])
      rw [hkept] at htrained
      rw [hrewards] at hunfiltered
      rw [heq]
      refine ⟨sync', ?_, ?_⟩
      · simp [hfew, hnil, htrained, hunfiltered, Observation.isRaised]
      · intro c' hnext
        have hsome : ¬ (c.rows ++ kept).isEmpty = true := by rwa [List.isEmpty_iff]
        rw [if_neg hfew, if_neg hsome, Option.some.injEq] at hnext
        subst hnext
        exact ⟨[], hholds⟩

/-- A batch of the legacy trainer, with dynamic sampling. -/
theorem legacyObservations_cons (hplain : cfg.needsMessages = false)
    (hds : cfg.sampling.useDynamicSampling = true)
    (hloop : legacy.Holds cfg.sampling.trainPromptsSize c.rows c.survivorRewards c.numGenBatches)
    (rollout : Rollout (GeneratedRow P K (RowData K ρ)))
    (rollouts : List (Rollout (GeneratedRow P K (RowData K ρ)))) :
    let kept := keptRows (unshapedSamples sqrt cfg rollout.rows)
    let rewards := (shapedRows cfg rollout.rows).map (·.totalReward)
    ∃ legacy', legacyObservations sqrt cfg legacy (rollout :: rollouts) =
        c.legacyObservation cfg.sampling kept rewards ::
          (if (c.legacyObservation cfg.sampling kept rewards).isRaised then []
          else legacyObservations sqrt cfg legacy' rollouts) ∧
      (c.TooFew cfg.sampling kept → ¬ c.Exhausted cfg.sampling →
        legacy'.Holds cfg.sampling.trainPromptsSize (c.rows ++ kept) (c.survivors kept rewards)
          (c.numGenBatches + 1)) ∧
      (¬ c.TooFew cfg.sampling kept → legacy'.Holds cfg.sampling.trainPromptsSize [] [] 0) := by
  intro kept rewards
  have hsurvivors : legacyRewards c.survivorRewards (unshapedSamples sqrt cfg rollout.rows) =
      c.survivors kept rewards := by
    unfold legacyRewards Collected.survivors
    simp only [totalReward_unshapedSamples, List.isEmpty_iff]
    rfl
  simp only [legacyObservations, legacyBatch, legacySamples_eq sqrt cfg hplain, bind, Except.bind]
  unfold Collected.legacyObservation
  by_cases hfew : c.TooFew cfg.sampling kept
  · by_cases hmax : c.Exhausted cfg.sampling
    · obtain ⟨e, hraise⟩ := legacyIteration_raise hds hloop hfew hmax
      rw [hraise]
      exact ⟨legacy, by simp [hfew, hmax, Observation.isRaised], fun _ h => absurd hmax h,
        fun h => absurd hfew h⟩
    · obtain ⟨legacy', heq, hholds⟩ := legacyIteration_more hds hloop hfew (not_lt.mp hmax)
      have hcarried := hholds.getD_batchCache
      rw [hsurvivors] at hholds
      rw [heq]
      refine ⟨legacy', ?_, fun _ _ => hholds, fun h => absurd hfew h⟩
      simp [hfew, hmax, hcarried, kept, Observation.isRaised]
  · obtain ⟨legacy', heq, hholds⟩ := legacyIteration_complete hds hloop (not_lt.mp hfew)
    rw [hsurvivors] at heq
    rw [heq]
    refine ⟨legacy', ?_, fun h => absurd h hfew, fun _ => hholds⟩
    simp [hfew, kept, Observation.isRaised]

/-- Without dynamic sampling a batch is a step of both trainers. -/
theorem observations_cons_plain (hplain : cfg.needsMessages = false)
    (hds : cfg.sampling.useDynamicSampling = false) (sync : SyncLoop P K (RowData K ρ))
    (legacy : LegacyLoop P K (RowData K ρ)) (rollout : Rollout (GeneratedRow P K (RowData K ρ)))
    (rollouts : List (Rollout (GeneratedRow P K (RowData K ρ)))) :
    ∃ rows rewards sync' legacy',
      syncObservations sqrt cfg sync (rollout :: rollouts) =
        .finished rows rewards :: syncObservations sqrt cfg sync' rollouts ∧
      legacyObservations sqrt cfg legacy (rollout :: rollouts) =
        .finished rows rewards :: legacyObservations sqrt cfg legacy' rollouts := by
  obtain ⟨sampled, hrows, hbatch⟩ := syncBatch_eq sqrt cfg hplain sync rollout
  obtain ⟨trained, hsync, -, -, htrained, hunfiltered⟩ := syncIteration_plain hds sync sampled
  have hsame : unshapedSamples sqrt cfg rollout.rows = sampled.rows := by
    have hnone : unshapedRewards cfg rollout.rows = none := by simp [unshapedRewards, hds]
    rw [unshapedSamples, hnone, hrows]
    rfl
  refine ⟨trained.rows, trained.unfilteredRewards, ⟨sync.pending, 0⟩, ⟨none, 0⟩, ?_, ?_⟩
  · simp only [syncObservations, hbatch, hsync]
  · simp [legacyObservations, legacyBatch, legacyIteration, dynamicSampling, hds,
      legacySamples_eq sqrt cfg hplain, hsame, htrained, hunfiltered, bind, Except.bind, pure,
      Except.pure]

/-- Without dynamic sampling and without a penalty that reads messages the trainers do the
same. -/
theorem observations_eq_plain (hplain : cfg.needsMessages = false)
    (hds : cfg.sampling.useDynamicSampling = false)
    (rollouts : List (Rollout (GeneratedRow P K (RowData K ρ))))
    (sync : SyncLoop P K (RowData K ρ)) (legacy : LegacyLoop P K (RowData K ρ)) :
    syncObservations sqrt cfg sync rollouts = legacyObservations sqrt cfg legacy rollouts := by
  induction rollouts generalizing sync legacy with
  | nil => rfl
  | cons rollout rollouts ih =>
    obtain ⟨rows, rewards, sync', legacy', hsync, hlegacy⟩ :=
      observations_cons_plain sqrt hplain hds sync legacy rollout rollouts
    rw [hsync, hlegacy, ih]

/-- The condition asks nothing then. -/
theorem trainersAgree_plain (hplain : cfg.needsMessages = false)
    (hds : cfg.sampling.useDynamicSampling = false)
    (rollouts : List (Rollout (GeneratedRow P K (RowData K ρ))))
    (c : Collected P K (RowData K ρ)) : TrainersAgree sqrt cfg c rollouts := by
  induction rollouts generalizing c with
  | nil => trivial
  | cons rollout rollouts ih =>
    refine ⟨?_, fun c' _ => ih c'⟩
    rw [BatchAgrees, hplain, hds]
    simp

/-- With a penalty that reads messages the trainer on the data plane raises at once. -/
theorem observations_needsMessages (hneeds : cfg.needsMessages = true)
    (hheld : c.Held cfg sync legacy) (rollout : Rollout (GeneratedRow P K (RowData K ρ)))
    (rollouts : List (Rollout (GeneratedRow P K (RowData K ρ)))) :
    syncObservations sqrt cfg sync (rollout :: rollouts) =
        legacyObservations sqrt cfg legacy (rollout :: rollouts) ↔
      LegacyRaises sqrt cfg c rollout.rows := by
  simp only [syncObservations, syncBatch_raise sqrt cfg hneeds, legacyObservations, legacyBatch,
    bind, Except.bind, LegacyRaises]
  cases hsamples : legacySamples sqrt cfg rollout.rows with
  | error e => simp
  | ok samples =>
    simp only [Except.ok.injEq, forall_eq']
    cases hds : cfg.sampling.useDynamicSampling with
    | false => simp [legacyIteration, dynamicSampling, hds, bind, Except.bind, pure, Except.pure]
    | true =>
      by_cases hfew : c.TooFew cfg.sampling (keptRows samples)
      · by_cases hmax : c.Exhausted cfg.sampling
        · obtain ⟨e, hraise⟩ := legacyIteration_raise hds hheld.legacy_holds hfew hmax
          simp [hraise, hfew, hmax]
        · obtain ⟨legacy', heq, -⟩ :=
            legacyIteration_more hds hheld.legacy_holds hfew (not_lt.mp hmax)
          simp [heq, hmax]
      · obtain ⟨legacy', heq, -⟩ :=
          legacyIteration_complete hds hheld.legacy_holds (not_lt.mp hfew)
        simp [heq, hfew]

/-- With dynamic sampling the observations are the same just when those of the batch are and,
with what is collected then, those of the following batches. -/
theorem observations_cons_iff (hplain : cfg.needsMessages = false)
    (hds : cfg.sampling.useDynamicSampling = true) (hheld : c.Held cfg sync legacy)
    (rollout : Rollout (GeneratedRow P K (RowData K ρ)))
    (rollouts : List (Rollout (GeneratedRow P K (RowData K ρ))))
    (hrest : ∀ c' sync' legacy', Collected.Held cfg c' sync' legacy' →
      (syncObservations sqrt cfg sync' rollouts = legacyObservations sqrt cfg legacy' rollouts ↔
        TrainersAgree sqrt cfg c' rollouts)) :
    syncObservations sqrt cfg sync (rollout :: rollouts) =
        legacyObservations sqrt cfg legacy (rollout :: rollouts) ↔
      TrainersAgree sqrt cfg c (rollout :: rollouts) := by
  obtain ⟨ids, hsyncHolds⟩ := hheld.sync_holds
  obtain ⟨sync', hsync, hsync'⟩ := syncObservations_cons sqrt hplain hds hsyncHolds rollout rollouts
  obtain ⟨legacy', hlegacy, hmore, hcomplete⟩ :=
    legacyObservations_cons sqrt hplain hds hheld.legacy_holds rollout rollouts
  have hrows : c.rows.length ≤ cfg.sampling.trainPromptsSize := by
    rcases hheld.legacy_holds.batchCache with ⟨-, hnil, -⟩ | ⟨-, hlt⟩
    · simp [hnil]
    · exact hlt.le
  rw [hsync, hlegacy, List.cons.injEq, Collected.syncObservation_eq_iff hrows, TrainersAgree,
    BatchAgrees, nextCollected]
  simp only [hplain, hds, Bool.false_eq_true, if_false, if_true, forall_const]
  refine and_congr_right fun hagree => ?_
  have hhead := (Collected.syncObservation_eq_iff hrows).mpr hagree
  rw [← hhead]
  by_cases hfew : c.TooFew cfg.sampling (keptRows (syncSamples sqrt cfg rollout.rows))
  · by_cases hmax : c.Exhausted cfg.sampling
    · simp [Collected.syncObservation, Collected.next, hfew, hmax, Observation.isRaised]
    · have hkept := hagree.kept_eq hfew hmax
      have hheld' : Collected.Held cfg ⟨_, _, _, _⟩ sync' legacy' :=
        ⟨hsync' _ (by rw [Collected.next, if_pos hfew, if_neg hmax]),
          by simpa only [hkept] using hmore (hkept ▸ hfew) hmax⟩
      simpa [Collected.syncObservation, Collected.next, hfew, hmax, Observation.isRaised]
        using hrest _ _ _ hheld'
  · have hsome : c.rows ++ keptRows (syncSamples sqrt cfg rollout.rows) ≠ [] := by
      rcases hagree with ⟨h, -⟩ | ⟨-, h⟩
      · exact absurd h hfew
      · exact (h hfew).1
    have hlegacyMany :
        ¬ c.TooFew cfg.sampling (keptRows (unshapedSamples sqrt cfg rollout.rows)) := by
      intro hlt
      rw [Collected.syncObservation, Collected.legacyObservation, if_neg hfew, if_pos hlt,
        if_neg (by rwa [List.isEmpty_iff])] at hhead
      split_ifs at hhead
    have hheld' : Collected.Held cfg {} sync' legacy' :=
      ⟨hsync' _ (by rw [Collected.next, if_neg hfew, if_neg (by rwa [List.isEmpty_iff])]),
        hcomplete hlegacyMany⟩
    simpa [Collected.syncObservation, Collected.next, hfew, hsome, Observation.isRaised]
      using hrest _ _ _ hheld'

/-- From what both have collected, the trainers are observed to do the same just under the
condition. -/
theorem observations_eq_iff_of_held
    (rollouts : List (Rollout (GeneratedRow P K (RowData K ρ)))) (hheld : c.Held cfg sync legacy) :
    syncObservations sqrt cfg sync rollouts = legacyObservations sqrt cfg legacy rollouts ↔
      TrainersAgree sqrt cfg c rollouts := by
  induction rollouts generalizing c sync legacy with
  | nil => exact iff_of_true rfl trivial
  | cons rollout rollouts ih =>
    cases hneeds : cfg.needsMessages with
    | true =>
      rw [observations_needsMessages sqrt hneeds hheld, TrainersAgree, BatchAgrees, nextCollected]
      simp [hneeds]
    | false =>
      cases hds : cfg.sampling.useDynamicSampling with
      | false =>
        exact iff_of_true (observations_eq_plain sqrt hneeds hds _ sync legacy)
          (trainersAgree_plain sqrt hneeds hds _ c)
      | true =>
        exact observations_cons_iff sqrt hneeds hds hheld rollout rollouts fun c' s' l' h => ih h

variable (cfg)

/-- Over any batches, the trainer on the data plane is observed to do what the legacy trainer
does just when the condition holds of the batches. -/
theorem syncObservations_eq_iff (rollouts : List (Rollout (GeneratedRow P K (RowData K ρ)))) :
    syncObservations sqrt cfg {} rollouts = legacyObservations sqrt cfg {} rollouts ↔
      TrainersAgree sqrt cfg {} rollouts :=
  observations_eq_iff_of_held sqrt rollouts
    ⟨⟨[], .empty rfl rfl, rfl, rfl⟩, .inl ⟨rfl, rfl, rfl⟩, le_rfl, rfl⟩

end Trainers

/-! ## A penalty for long responses -/

/-- Two answers to a prompt, of one token each. -/
def twoAnswers : Rollout (GeneratedRow String ℝ (RowData ℝ Unit)) where
  sampleIds := ["a", "b"]
  sequenceLengths := none
  rows := [⟨"p", 1, false, [⟨"user", [1]⟩, ⟨"assistant", [2]⟩], [], ()⟩,
    ⟨"p", 0, false, [⟨"user", [1]⟩, ⟨"assistant", [3]⟩], [], ()⟩]
  length_sampleIds := rfl

/-- A penalty for answers of over three tokens. -/
noncomputable def penalizesLong : TrainerConfig ℝ where
  sampling := ⟨true, 1, 2, 10⟩
  useLeaveOneOutBaseline := false
  rewardScaling := ⟨false, 0, 1, 0, 1⟩
  rewardShaping := { enabled := true, overlongBufferLength := some 1,
                     overlongBufferPenalty := some 1, maxResponseLength := some 4 }

/-- The trainer on the data plane raises where the legacy trainer does not. -/
theorem twoAnswers_raise :
    syncObservations Real.sqrt penalizesLong {} [twoAnswers] ≠
      legacyObservations Real.sqrt penalizesLong {} [twoAnswers] := by
  have hheld : Collected.Held penalizesLong {} ({} : SyncLoop String ℝ (RowData ℝ Unit)) {} :=
    ⟨⟨[], .empty rfl rfl, rfl, rfl⟩, .inl ⟨rfl, rfl, rfl⟩, le_rfl, rfl⟩
  rw [Ne, observations_needsMessages Real.sqrt rfl hheld]
  intro hraises
  have hsamples : ∃ samples,
      legacySamples Real.sqrt penalizesLong twoAnswers.rows = .ok samples := by
    simp [legacySamples, shapedRewards, applyRewardShaping, penalizeMessages, penalizedReward,
      overlongReward, penalizesLong, twoAnswers, scaleRow, RewardShapingConfig.readsMessages,
      RewardShapingConfig.useNGramPenalty, RewardShapingConfig.useOverlongPenalty, bind,
      Except.bind, pure, Except.pure]
  obtain ⟨samples, hsamples⟩ := hsamples
  obtain ⟨-, -, hexhausted⟩ := hraises samples hsamples
  exact absurd hexhausted (by decide)

end NemoRL.Algorithms
