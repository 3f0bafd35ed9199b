import NemoRL.Algorithms.BaselineStd
import NemoRL.Error

/-!
# Dynamic sampling

A trainer drops the rows of a generated batch whose deviation is zero, and collects the others
until there are enough for a step. There are two trainers. The legacy trainer keeps the rows in
a cache of batches. The other one keeps the metadata of the rows, whose bulk stays in the data
plane, together with a slice of small columns; it discards from the data plane what it drops.

A batch is a list of rows. A column that has a length of its own stands beside the rows.

## Main definitions

* `applyDynamicSampling` — one batch of the trainer on the data plane.
* `dynamicSampling` — one batch of the legacy trainer.
* `syncIteration`, `legacyIteration` — the part of the two training loops that calls them.
-/

namespace NemoRL.Algorithms

open Lib

/-- What the trainers are configured with. -/
structure SamplingConfig where
  useDynamicSampling : Bool
  numPromptsPerStep : ℕ
  numGenerationsPerPrompt : ℕ
  dynamicSamplingMaxGenBatches : ℤ
  deriving DecidableEq, Repr

/-- The number of rows of a step. -/
def SamplingConfig.trainPromptsSize (cfg : SamplingConfig) : ℕ :=
  cfg.numPromptsPerStep * cfg.numGenerationsPerPrompt

variable {P K ρ : Type}

/-- A generated row, with its other columns. -/
structure GeneratedRow (P K ρ : Type) where
  promptIds : P
  totalReward : K
  data : ρ
  deriving DecidableEq, Repr

/-- A row with its baseline and its deviation. -/
structure SampleRow (P K ρ : Type) extends GeneratedRow P K ρ where
  baseline : K
  std : K
  deriving DecidableEq, Repr

/-- A row to train on. Its reward is that of the row before any filtering. -/
structure KeptRow (P K ρ : Type) where
  promptIds : P
  filteredReward : K
  baseline : K
  std : K
  data : ρ
  deriving DecidableEq, Repr

/-- Keep a row. -/
def SampleRow.keep (row : SampleRow P K ρ) : KeptRow P K ρ :=
  ⟨row.promptIds, row.totalReward, row.baseline, row.std, row.data⟩

/-- A generated batch: its rows with their sample ids, which are fresh. -/
structure Rollout (α : Type) where
  sampleIds : List String
  sequenceLengths : Option (List ℕ)
  rows : List α
  length_sampleIds : sampleIds.length = rows.length

section Baseline
variable [Field K] [LinearOrder K] [DecidableEq P]

/-- Add the columns of baselines and deviations. Every row is valid. -/
def withBaselineStd (sqrt : K → K) (leaveOneOutBaseline : Bool) (stdRewards : Option (List K))
    (rows : List (GeneratedRow P K ρ)) : List (SampleRow P K ρ) :=
  let (baseline, std) := calculateBaselineAndStdPerPrompt sqrt (rows.map (·.promptIds))
    (rows.map (·.totalReward)) (List.replicate rows.length 1) leaveOneOutBaseline stdRewards
  List.zipWith (fun row p => ⟨row, p.1, p.2⟩) rows (baseline.zip std)

end Baseline

/-! ## Metadata -/

/-- The scalars of a row in the metadata. -/
structure Tag (K : Type) where
  std : K
  baseline : K
  deriving DecidableEq, Repr

/-- The metadata of some rows in the data plane. -/
structure KVBatchMeta (K : Type) where
  partitionId : String
  sampleIds : List String
  sequenceLengths : Option (List ℕ)
  tags : Option (List (Tag K))
  deriving DecidableEq, Repr

namespace KVBatchMeta

/-- The metadata of the rows at some positions. -/
def subset (m : KVBatchMeta K) (indices : List ℕ) : KVBatchMeta K :=
  { m with
    sampleIds := select m.sampleIds indices
    sequenceLengths := m.sequenceLengths.map (select · indices)
    tags := m.tags.map (select · indices) }

/-- The metadata of the first rows. -/
def slice (m : KVBatchMeta K) (stop : ℕ) : KVBatchMeta K :=
  { m with
    sampleIds := m.sampleIds.take stop
    sequenceLengths := m.sequenceLengths.map (·.take stop)
    tags := m.tags.map (·.take stop) }

/-- Append metadata of the same partition. -/
def concat (m other : KVBatchMeta K) : Except PyError (KVBatchMeta K) :=
  if other.partitionId ≠ m.partitionId then
    .error ⟨.valueError, "KVBatchMeta.concat: partition_ids must match"⟩
  else .ok
    { m with
      sampleIds := m.sampleIds ++ other.sampleIds
      sequenceLengths := m.sequenceLengths.bind fun s => other.sequenceLengths.map (s ++ ·)
      tags := m.tags.bind fun t => other.tags.map (t ++ ·) }

/-- Mirror the columns of baselines and deviations onto the tags. -/
def stampTags (m : KVBatchMeta K) (std baseline : List K) : Except PyError (KVBatchMeta K) :=
  if std.length ≠ m.sampleIds.length then
    .error ⟨.valueError,
      s!"stamp_tags: 'std' has {std.length} values, expected {m.sampleIds.length}"⟩
  else if baseline.length ≠ m.sampleIds.length then
    .error ⟨.valueError,
      s!"stamp_tags: 'baseline' has {baseline.length} values, expected {m.sampleIds.length}"⟩
  else .ok { m with tags := some (List.zipWith Tag.mk std baseline) }

end KVBatchMeta

/-- The partition of the training rows. -/
def tqPartitionId : String := "train"

/-- The metadata of a generated batch, before its scalars are stamped. -/
def Rollout.batchMeta {α : Type} (rollout : Rollout α) : KVBatchMeta K :=
  ⟨tqPartitionId, rollout.sampleIds, rollout.sequenceLengths, none⟩

/-! ## The trainer on the data plane -/

/-- The metrics of a completed step. -/
structure DsMetrics where
  dynamicSamplingNumGenBatches : ℕ
  dynamicSamplingNumDiscardedValidSamples : Option ℕ
  deriving DecidableEq, Repr

/-- What is collected for a step. -/
structure Pending (P K ρ : Type) where
  pendingMeta : Option (KVBatchMeta K) := none
  pendingCarry : Option (List (KeptRow P K ρ)) := none
  pendingUnfilteredRewards : List (List K) := []
  deriving DecidableEq, Repr

/-- What a batch leaves: what is collected, the metrics and the unfiltered rewards when that is
enough, and the sample ids that are discarded with their partitions. -/
structure Sampled (P K ρ : Type) where
  pending : Pending P K ρ
  isComplete : Bool
  dsMetrics : Option DsMetrics
  unfilteredForLog : Option (List K)
  discarded : List (List String × String)
  deriving DecidableEq, Repr

/-- Raised when sampling takes too many batches. -/
def maxGenBatchesError (maxGenBatches : ℤ) : PyError :=
  ⟨.valueError, s!"Dynamic sampling reached max_gen_batches={maxGenBatches}. " ++
    "Increase grpo.dynamic_sampling_max_gen_batches or revisit data diversity / " ++
    "num_prompts_per_step / num_generations_per_prompt."⟩

/-- Merge the rows that survive into those that are collected. -/
def mergeSurvivors (pending : Pending P K ρ) (survivorsMeta : KVBatchMeta K)
    (survivorsCarry : List (KeptRow P K ρ)) : Except PyError (Pending P K ρ) :=
  match pending.pendingMeta, pending.pendingCarry with
  | none, _ =>
    .ok { pending with pendingMeta := some survivorsMeta, pendingCarry := some survivorsCarry }
  | some _, none => .error ⟨.assertionError, ""⟩
  | some pendingMeta, some pendingCarry => do
    let merged ← pendingMeta.concat survivorsMeta
    pure { pending with
      pendingMeta := some merged
      pendingCarry := some (pendingCarry ++ survivorsCarry) }

/-- The first rows of a slice. -/
def sliceCarry (rows : List (KeptRow P K ρ)) (stop : ℕ) : Except PyError (List (KeptRow P K ρ)) :=
  if rows.length < stop then
    .error ⟨.assertionError,
      s!"end: {stop} is greater than the shape of the tensor: {rows.length}"⟩
  else .ok (rows.take stop)

/-- Cut what is collected to the size of a step. -/
def completeStep (pending : Pending P K ρ) (discarded : List (List String × String))
    (trainPromptsSize numGenBatches : ℕ) : Except PyError (Sampled P K ρ) :=
  match pending.pendingMeta, pending.pendingCarry with
  | some pendingMeta, some pendingCarry => do
    let n := pendingMeta.sampleIds.length
    let unfilteredForLog := pending.pendingUnfilteredRewards.flatten.take trainPromptsSize
    if n > trainPromptsSize then
      let carry ← sliceCarry pendingCarry trainPromptsSize
      pure {
        pending := ⟨some (pendingMeta.slice trainPromptsSize), some carry, []⟩
        isComplete := true
        dsMetrics := some ⟨numGenBatches, some (n - trainPromptsSize)⟩
        unfilteredForLog := some unfilteredForLog
        discarded := discarded ++
          [(pendingMeta.sampleIds.drop trainPromptsSize, pendingMeta.partitionId)] }
    else
      pure {
        pending := ⟨some pendingMeta, some pendingCarry, []⟩
        isComplete := true
        dsMetrics := some ⟨numGenBatches, none⟩
        unfilteredForLog := some unfilteredForLog
        discarded := discarded }
  | _, _ => .error ⟨.assertionError, ""⟩

section Sync
variable [Field K] [DecidableEq K]

/-- Drop the rows without a deviation, merge the others into those that are collected, and see
whether they are enough. -/
def applyDynamicSampling (batchMeta : KVBatchMeta K) (driverCarry : List (SampleRow P K ρ))
    (pending : Pending P K ρ) (trainPromptsSize numGenBatches : ℕ) (maxGenBatches : ℤ) :
    Except PyError (Sampled P K ρ) :=
  let pending := { pending with
    pendingUnfilteredRewards :=
      pending.pendingUnfilteredRewards ++ [driverCarry.map (·.totalReward)] }
  match batchMeta.tags with
  | none => .error ⟨.valueError, "_apply_dynamic_sampling: meta.tags is None — driver must " ++
      "stamp 'std' into meta.tags before this call."⟩
  | some tags => do
    let keepIdx := indicesWhere (fun t => decide (t.std ≠ 0)) tags
    let dropKeys := ((batchMeta.sampleIds.zip tags).filter fun p => p.2.std = 0).map Prod.fst
    let discarded := if dropKeys = [] then [] else [(dropKeys, batchMeta.partitionId)]
    let survivorsCarry := (select driverCarry keepIdx).map SampleRow.keep
    let pending ← (if keepIdx = [] then .ok pending
      else mergeSurvivors pending (batchMeta.subset keepIdx) survivorsCarry)
    let n := (pending.pendingMeta.map (·.sampleIds.length)).getD 0
    if n < trainPromptsSize then
      if (numGenBatches : ℤ) > maxGenBatches then throw (maxGenBatchesError maxGenBatches)
      else pure ⟨pending, false, none, none, discarded⟩
    else completeStep pending discarded trainPromptsSize numGenBatches

/-- What the loop on the data plane keeps between its iterations. -/
structure SyncLoop (P K ρ : Type) where
  pending : Pending P K ρ := {}
  dynamicSamplingNumGenBatches : ℕ := 0
  deriving DecidableEq, Repr

/-- What a step trains on. -/
structure TrainBatch (P K ρ : Type) where
  batchMeta : KVBatchMeta K
  rows : List (KeptRow P K ρ)
  unfilteredRewards : List K
  deriving DecidableEq, Repr

/-- An iteration of the loop on the data plane, from the generated rows with their baselines
and deviations to the rows to train on, when they are enough. -/
def syncIteration (cfg : SamplingConfig) (loop : SyncLoop P K ρ)
    (rollout : Rollout (SampleRow P K ρ)) :
    Except PyError (SyncLoop P K ρ × Option (TrainBatch P K ρ) × List (List String × String)) := do
  let numGenBatches := loop.dynamicSamplingNumGenBatches + 1
  let driverCarry := rollout.rows
  let batchMeta ← rollout.batchMeta.stampTags (driverCarry.map (·.std))
    (driverCarry.map (·.baseline))
  if !cfg.useDynamicSampling then
    pure (⟨loop.pending, 0⟩, some ⟨batchMeta, driverCarry.map SampleRow.keep,
      driverCarry.map (·.totalReward)⟩, [])
  else
    let sampled ← applyDynamicSampling batchMeta driverCarry loop.pending cfg.trainPromptsSize
      numGenBatches cfg.dynamicSamplingMaxGenBatches
    match sampled.isComplete, sampled.pending.pendingMeta, sampled.pending.pendingCarry with
    | true, some adopted, some carry =>
      pure (⟨⟨none, none, sampled.pending.pendingUnfilteredRewards⟩, 0⟩,
        some ⟨adopted, carry, sampled.unfilteredForLog.getD []⟩, sampled.discarded)
    | _, _, _ => pure (⟨sampled.pending, numGenBatches⟩, none, sampled.discarded)

end Sync

/-! ## The legacy trainer -/

/-- A batch of the legacy trainer. The rewards before filtering are a column with a length of
its own. -/
structure LegacyBatch (P K ρ : Type) where
  rows : List (KeptRow P K ρ)
  totalReward : List K
  deriving DecidableEq, Repr

namespace LegacyBatch

/-- Append a batch. -/
def append (cache batch : LegacyBatch P K ρ) : LegacyBatch P K ρ :=
  ⟨cache.rows ++ batch.rows, cache.totalReward ++ batch.totalReward⟩

/-- Append a batch to the cache, which is the batch when there is none. -/
def mergeInto (batch : LegacyBatch P K ρ) : Option (LegacyBatch P K ρ) → LegacyBatch P K ρ
  | none => batch
  | some cache => cache.append batch

/-- The first rows, and the first rewards before filtering. -/
def slice (batch : LegacyBatch P K ρ) (stop : ℕ) : Except PyError (LegacyBatch P K ρ) :=
  if batch.totalReward.length < stop then
    .error ⟨.assertionError, s!"end: {stop} is greater than the shape of the tensor: " ++
      s!"{batch.totalReward.length} for key: total_reward"⟩
  else do
    let rows ← sliceCarry batch.rows stop
    pure ⟨rows, batch.totalReward.take stop⟩

end LegacyBatch

/-- What the legacy trainer returns for a batch. -/
structure LegacySampled (P K ρ : Type) where
  batchToReturn : LegacyBatch P K ρ
  isBatchComplete : Bool
  batchCache : Option (LegacyBatch P K ρ)
  numDiscardedValidSamples : Option ℕ
  deriving DecidableEq, Repr

section Legacy
variable [Field K] [DecidableEq K]

/-- Keep the rows with a deviation, append them to the cache, and see whether they are
enough. -/
def dynamicSampling (cfg : SamplingConfig) (repeatedBatch : List (SampleRow P K ρ))
    (numGenBatches : ℕ) (batchCache : Option (LegacyBatch P K ρ)) :
    Except PyError (LegacySampled P K ρ) :=
  let totalRewards := repeatedBatch.map (·.totalReward)
  if !cfg.useDynamicSampling then
    .ok ⟨⟨repeatedBatch.map SampleRow.keep, totalRewards⟩, true, batchCache, none⟩
  else
    let keepPromptIndices :=
      indicesWhere (fun std => decide (std ≠ 0)) (repeatedBatch.map (·.std))
    let filtered : LegacyBatch P K ρ :=
      ⟨(select repeatedBatch keepPromptIndices).map SampleRow.keep, totalRewards⟩
    let (filtered, batchCache) :=
      if filtered.rows.length > 0 then
        let cache := filtered.mergeInto batchCache
        (cache, some cache)
      else (filtered, batchCache)
    let filteredPromptsSize := filtered.rows.length
    if filteredPromptsSize < cfg.trainPromptsSize then
      if cfg.dynamicSamplingMaxGenBatches ≤ 0 then
        .error ⟨.assertionError, "When using grpo.use_dynamic_sampling, " ++
          "grpo.dynamic_sampling_max_gen_batches must be > 0"⟩
      else if (numGenBatches : ℤ) ≤ cfg.dynamicSamplingMaxGenBatches then
        .ok ⟨filtered, false, batchCache, none⟩
      else .error ⟨.valueError, "Dynamic sampling has reached the maximum allowed number of " ++
        s!"batches ({cfg.dynamicSamplingMaxGenBatches}). Consider evaluating the complexity " ++
        "of your data or adjusting the num_prompts_per_step or num_generations_per_prompt " ++
        "parameters to enhance the diversity of the samples."⟩
    else do
      let batch ← filtered.slice cfg.trainPromptsSize
      pure ⟨batch, true, batchCache, some (filteredPromptsSize - cfg.trainPromptsSize)⟩

/-- What the legacy loop keeps between its iterations. -/
structure LegacyLoop (P K ρ : Type) where
  batchCache : Option (LegacyBatch P K ρ) := none
  dynamicSamplingNumGenBatches : ℕ := 0
  deriving DecidableEq, Repr

/-- An iteration of the legacy loop, as for the loop on the data plane. -/
def legacyIteration (cfg : SamplingConfig) (loop : LegacyLoop P K ρ)
    (repeatedBatch : List (SampleRow P K ρ)) :
    Except PyError (LegacyLoop P K ρ × Option (LegacyBatch P K ρ)) := do
  let numGenBatches := loop.dynamicSamplingNumGenBatches + 1
  let sampled ← dynamicSampling cfg repeatedBatch numGenBatches loop.batchCache
  if sampled.isBatchComplete then pure (⟨none, 0⟩, some sampled.batchToReturn)
  else pure (⟨sampled.batchCache, numGenBatches⟩, none)

end Legacy

end NemoRL.Algorithms
