import NemoRL.Distributed.BatchedDataDict
import NemoRL.Lib.IndexPerm
import NemoRL.Lib.Tensor

/-!
# Driver-side fan-out of batch metadata

`shardMetaForDp` splits the sample ids of a batch over the data-parallel ranks. It
runs `shardByBatchSize` on a skeleton batch that holds nothing but each row's length
and index, and reads the indices of each shard back. `stampPadSeqlen` mints the width
that every rank pads its forward pass to.

## Main definitions

* `KVBatchMeta` — the metadata of a batch in the store.
* `shardMetaForDp` — the metadata of each rank and the indices for reordering.
* `stampPadSeqlen` — the forward pad target.
-/

namespace NemoRL.DataPlane

open Lib Distributed Data.Packing

/-- The keys of `extra_info` that the fan-out and the readers look at. -/
structure ExtraInfo where
  microBatchIndices : Option (List (List (ℕ × ℕ))) := none
  microBatchLengths : Option (List (List ℕ)) := none
  elemCountsPerGb : Option (List ℕ) := none
  globalForwardPadSeqlen : Option ℕ := none
  padToMultiple : Option ℕ := none
  deriving DecidableEq, Repr

/-- Primitive metadata of one sample. -/
abbrev Tag := List (String × String)

/-- Metadata of a batch whose rows are addressed by `sampleIds`. -/
structure KVBatchMeta where
  partitionId : String
  taskName : Option String
  sampleIds : List String
  fields : Option (List String)
  sequenceLengths : Option (List ℕ)
  extraInfo : ExtraInfo
  tags : Option (List Tag) := none
  deriving DecidableEq, Repr

/-- The packing arguments of the caller, without the keys of the columns. -/
structure PackingConfig where
  maxTokensPerMicrobatch : ℕ
  algorithm : PackingAlgorithm
  sequenceLengthPadMultiple : ℕ

/-- The dynamic-batching arguments of the caller, without the keys of the columns. -/
structure DynamicConfig where
  maxTokensPerMicrobatch : ℕ
  sequenceLengthRound : ℕ

/-- A row of the skeleton batch: the length of a sample and its index in the batch. -/
abbrev SkeletonRow := ℕ × ℕ

/-- The arguments of `shardByBatchSize` on the skeleton. -/
def PackingConfig.args (cfg : PackingConfig) : SequencePackingArgs SkeletonRow where
  maxTokensPerMicrobatch := cfg.maxTokensPerMicrobatch
  algorithm := cfg.algorithm
  inputLengths := Prod.fst
  sequenceLengthPadMultiple := cfg.sequenceLengthPadMultiple

/-- The arguments of `shardByBatchSize` on the skeleton. Its placeholder input ids are
as wide as the token limit, so that the width never caps a micro-batch length below
what the planner may ask for. -/
def DynamicConfig.args (cfg : DynamicConfig) : DynamicBatchingArgs SkeletonRow where
  maxTokensPerMicrobatch := cfg.maxTokensPerMicrobatch
  sequenceLengthRound := cfg.sequenceLengthRound
  inputWidth := cfg.maxTokensPerMicrobatch
  inputLengths := Prod.fst

/-- The metadata of one rank: its samples and the plan of its shard. -/
def rankMeta (batch : KVBatchMeta) (seqLens : List ℕ) (shard : BatchedDataDict SkeletonRow) :
    KVBatchMeta :=
  let idxList := shard.rows.map Prod.snd
  { partitionId := batch.partitionId
    taskName := batch.taskName
    sampleIds := select batch.sampleIds idxList
    fields := batch.fields
    sequenceLengths := some (select seqLens idxList)
    extraInfo := { batch.extraInfo with
      microBatchIndices := shard.microBatchIndices <|> batch.extraInfo.microBatchIndices
      microBatchLengths := shard.microBatchLengths <|> batch.extraInfo.microBatchLengths
      elemCountsPerGb := shard.elemCountsPerGb <|> batch.extraInfo.elemCountsPerGb } }

/-- The position at which each index stands: `unsorted[flatIdx[j]] = j`. -/
def unsortedIndices (flatIdx : List ℕ) (n : ℕ) : List ℕ :=
  setAll (List.replicate n 0) flatIdx.zipIdx

/-- Split a batch over the ranks. Returns the metadata of each rank in rank order and,
when the rows change places, the indices to pass to `reorderData` on the concatenated
results. -/
def shardMetaForDp (batch : KVBatchMeta) (rand : Shuffle) (dpWorld : ℕ) (batchSize : Option ℕ)
    (sequencePackingArgs : Option PackingConfig) (dynamicBatchingArgs : Option DynamicConfig) :
    Except PyError (List KVBatchMeta × Option (List ℕ)) :=
  let n := batch.sampleIds.length
  if n = 0 then
    .error ⟨.valueError, "shard_meta_for_dp: empty meta — nothing to shard"⟩
  else
    match batch.sequenceLengths with
    | none => .error ⟨.valueError,
        "shard_meta_for_dp requires meta.sequence_lengths populated and " ++
        s!"of length {n} (got None). The rollout " ++
        "actor's fan-out should populate this from input_lengths."⟩
    | some seqLens =>
      if seqLens.length ≠ n then
        .error ⟨.valueError,
          "shard_meta_for_dp requires meta.sequence_lengths populated and " ++
          s!"of length {n} (got {seqLens}). The rollout " ++
          "actor's fan-out should populate this from input_lengths."⟩
      else if sequencePackingArgs.isSome ∧ dynamicBatchingArgs.isSome then
        .error ⟨.valueError,
          "Pass at most one of sequence_packing_args / dynamic_batching_args."⟩
      else do
        let skeleton : BatchedDataDict SkeletonRow := { rows := seqLens.zipIdx }
        let (sharded, _) ← skeleton.shardByBatchSize rand dpWorld batchSize false
          (dynamicBatchingArgs.map DynamicConfig.args) (sequencePackingArgs.map PackingConfig.args)
        let flatIdx := sharded.flatMap fun shard => shard.rows.map Prod.snd
        return (sharded.map (rankMeta batch seqLens),
          if flatIdx = List.range n then none else some (unsortedIndices flatIdx n))

/-! ## The forward pad target -/

/-- Round up to a multiple; multiples up to one leave the value alone. -/
def roundUpSeqlen (value multiple : ℕ) : ℕ :=
  if multiple ≤ 1 then value else (value + multiple - 1) / multiple * multiple

/-- Write the forward pad target of a batch, unless it is there or the batch has no
sequence. -/
def stampPadSeqlen (batch : KVBatchMeta) (dynamicBatchingArgs : Option DynamicConfig) :
    KVBatchMeta :=
  match batch.sequenceLengths with
  | none | some [] => batch
  | some (len :: lens) =>
    if batch.extraInfo.globalForwardPadSeqlen.isSome then batch
    else
      let seqRound := (dynamicBatchingArgs.map DynamicConfig.sequenceLengthRound).getD 1
      let padMult := batch.extraInfo.padToMultiple.getD 1
      { batch with extraInfo := { batch.extraInfo with
          globalForwardPadSeqlen :=
            some (roundUpSeqlen (longest (len :: lens)) (max padMult seqRound)) } }

end NemoRL.DataPlane
