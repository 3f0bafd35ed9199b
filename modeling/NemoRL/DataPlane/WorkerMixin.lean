import NemoRL.DataPlane.ColumnIO
import Mathlib.Data.List.OfFn

/-!
# Log probabilities through the store

The driver splits the metadata of a batch over the ranks. Each rank fetches its samples, attaches
the micro-batch plan that the driver sent or makes its own, computes one row of log probabilities
for each row, and writes them back under the ids of its metadata.

A plan of its own comes from `shardByBatchSize` with one shard, which also lays the rows out in
another order. The order is dropped.

## Main definitions

* `TQWorker`, `getLogprobsPresharded` — a worker and its part of the call.
* `TQPolicy`, `logprobDispatch` — the driver and the whole call.
-/

namespace NemoRL.DataPlane

open Lib Distributed Data.Packing

variable {α σ : Type}

/-! ## Configuration -/

/-- The settings of dynamic batching. -/
structure DynamicBatching where
  sequenceLengthRound : ℕ
  trainMbTokens : ℕ
  logprobMbTokens : ℕ

/-- The settings of sequence packing. -/
structure SequencePacking where
  algorithm : PackingAlgorithm
  trainMbTokens : ℕ
  logprobMbTokens : ℕ

/-- The settings that the driver and its workers read. A part that is not enabled is `none`. -/
structure PolicyConfig where
  dynamicBatching : Option DynamicBatching
  sequencePacking : Option SequencePacking
  makeSequenceLengthDivisibleBy : ℕ

/-- The packing arguments that a worker makes of its settings. -/
def PolicyConfig.workerPackingArgs (cfg : PolicyConfig) :
    Option PackingConfig × Option DynamicConfig :=
  match cfg.sequencePacking, cfg.dynamicBatching with
  | some seqpack, _ =>
    (some ⟨seqpack.trainMbTokens, seqpack.algorithm, cfg.makeSequenceLengthDivisibleBy⟩, none)
  | none, some dynbatch => (none, some ⟨dynbatch.trainMbTokens, dynbatch.sequenceLengthRound⟩)
  | none, none => (none, none)

/-! ## The worker -/

/-- A row of a batch: the tensor of each of its columns. -/
abbrev Row (α : Type) := String → Option (Tensor α)

/-- The rows of columns. -/
def rowsOf (data : Columns α) : List (Row α) :=
  (List.range ((data.head?.map fun c => c.2.rows.length).getD 0)).map fun i key =>
    (data.lookup key).bind (·.rows[i]?)

/-- The length of a row. -/
def inputLengths (intOf : α → ℕ) (row : Row α) : ℕ :=
  (((row "input_lengths").bind (·.data.head?)).map intOf).getD 0

/-- A worker. A policy that is not configured by a dictionary has no settings. -/
structure TQWorker (α σ : Type) where
  cfg : Option PolicyConfig
  padTokenId : Option α
  dpClient : Option (DataPlaneClient α σ)
  isReplicaLeader : Bool
  /-- The integer in a cell of the lengths. -/
  intOf : α → ℕ
  rand : Shuffle

namespace TQWorker

/-- The client of the store. -/
def requireDpClient (self : TQWorker α σ) : Except PyError (DataPlaneClient α σ) :=
  match self.dpClient with
  | some client => .ok client
  | none => .error ⟨.runtimeError, "Data-plane client not initialised on worker. The driver " ++
      "must call setup_data_plane(cfg) before invoking any *_presharded entrypoint."⟩

/-- The pad values of the fields of token ids. -/
def padValueDict (self : TQWorker α σ) : List (String × α) :=
  match self.padTokenId with
  | some padId => [("input_ids", padId), ("prompt_ids_for_adv", padId)]
  | none => []

/-- Get the samples of a rank and decode them. The siblings of a rank get the columns of its
leader. -/
def fetch [Zero α] (self : TQWorker α σ) (store : σ) (batch : KVBatchMeta) :
    Except PyError (Columns α) := do
  let client ← self.requireDpClient
  match batch.fields with
  | none => .error ⟨.typeError, "'NoneType' object is not iterable"⟩
  | some fields =>
    let td ← client.getSamples store batch.sampleIds batch.partitionId fields
    return materialize td self.padValueDict (batch.extraInfo.globalForwardPadSeqlen.getD 0)

/-- Lay the rows out for micro-batches and attach their plan. -/
def applyPackingPrep (self : TQWorker α σ) (data : Columns α) :
    Except PyError (BatchedDataDict (Row α)) := do
  let batch : BatchedDataDict (Row α) := { rows := rowsOf data }
  match (self.cfg.map PolicyConfig.workerPackingArgs).getD (none, none) with
  | (none, none) => return batch
  | (packing, dynamic) =>
    let _ ← column data "input_lengths"
    let inputIds ← column data "input_ids"
    let (sharded, _) ← batch.shardByBatchSize self.rand 1 none false
      (dynamic.map fun cfg =>
        ⟨cfg.maxTokensPerMicrobatch, cfg.sequenceLengthRound, inputIds.width,
          inputLengths self.intOf⟩)
      (packing.map fun cfg =>
        ⟨cfg.maxTokensPerMicrobatch, cfg.algorithm, inputLengths self.intOf,
          cfg.sequenceLengthPadMultiple⟩)
    BatchedDataDict.getOrRaise sharded 0

/-- Attach the plan of the driver, or make one. -/
def attachOrRepackPackMetadata (self : TQWorker α σ) (data : Columns α) (batch : KVBatchMeta) :
    Except PyError (BatchedDataDict (Row α)) :=
  match batch.extraInfo.microBatchIndices, batch.extraInfo.microBatchLengths with
  | some indices, some lengths =>
    .ok ⟨rowsOf data, some indices, some lengths, batch.extraInfo.elemCountsPerGb⟩
  | _, _ => self.applyPackingPrep data

/-- The log probabilities of one row. -/
def rowLogprobs {seqlen : ℕ} (f : Row α → Fin seqlen → α) (row : Row α) : Tensor α :=
  Tensor.vector (List.ofFn (f row))

/-- The log probabilities of a batch: a function of each row. -/
def getLogprobs {seqlen : ℕ} (f : Row α → Fin seqlen → α) (data : BatchedDataDict (Row α)) :
    Rect α where
  rowShape := [seqlen]
  rows := data.rows.map (rowLogprobs f)
  shape_rows := by simp [rowLogprobs, Tensor.vector]

/-- Write columns under the ids of the metadata. -/
def writeColumns (client : DataPlaneClient α σ) (store : σ) (batch : KVBatchMeta)
    (fields : Columns α) : Except PyError σ :=
  if fields = [] then .ok store
  else do
    let td ← packJaggedFields fields batch.sequenceLengths tokenAlignedFields
    client.putSamples store batch.sampleIds batch.partitionId td none

/-- Only the leader of the replicas writes. -/
def writeBack (self : TQWorker α σ) (store : σ) (batch : KVBatchMeta) (fields : Columns α) :
    Except PyError σ :=
  if !self.isReplicaLeader ∨ fields = [] then .ok store
  else do
    let client ← self.requireDpClient
    writeColumns client store batch fields

/-- Write the result of a worker under a field of the store. -/
def writeBackResultField (self : TQWorker α σ) (store : σ) (batch : KVBatchMeta) (val : Rect α)
    (resultKey tqField : String) : Except PyError σ :=
  match self.dpClient with
  | none => .ok store
  | some _ =>
    if val.rows.length ≠ batch.sampleIds.length then
      .error ⟨.valueError, "_write_back_result_field: shape mismatch — " ++
        s!"result['{resultKey}'] has batch dim {val.rows.length} " ++
        s!"but meta.sample_ids has {batch.sampleIds.length}."⟩
    else self.writeBack store batch [(tqField, val)]

/-- The part of a rank: fetch, attach a plan, compute and write back. -/
def getLogprobsPresharded [Zero α] {seqlen : ℕ} (self : TQWorker α σ)
    (f : Row α → Fin seqlen → α) (store : σ) (batch : KVBatchMeta) : Except PyError σ := do
  let data ← self.fetch store batch
  let data ← self.attachOrRepackPackMetadata data batch
  self.writeBackResultField store batch (getLogprobs f data) "logprobs" "prev_logprobs"

end TQWorker

/-! ## The driver -/

/-- The fields that the log probabilities are computed from. -/
def lpSeedFields : List String := ["input_ids", "input_lengths", "token_mask", "sample_mask"]

/-- Fields with those of router replay, when it is enabled. -/
def fieldsWithOptionalRoutedExperts (fields : List String) (enabled : Bool) : List String :=
  if enabled ∧ "routed_experts" ∉ fields then fields ++ ["routed_experts"] else fields

/-- The limit of tokens that a stage reads. -/
inductive MbTokensKey
  | trainMbTokens
  | logprobMbTokens
  deriving DecidableEq

/-- The driver. -/
structure TQPolicy where
  cfg : PolicyConfig
  routerReplayEnabled : Bool
  dataParallel : ℕ
  rand : Shuffle

namespace TQPolicy

/-- The packing arguments of a stage. -/
def packingArgs (self : TQPolicy) (mbTokensKey : MbTokensKey) :
    Option PackingConfig × Option DynamicConfig :=
  match self.cfg.dynamicBatching, self.cfg.sequencePacking with
  | some dynbatch, _ =>
    (none, some ⟨match mbTokensKey with
      | .trainMbTokens => dynbatch.trainMbTokens
      | .logprobMbTokens => dynbatch.logprobMbTokens, dynbatch.sequenceLengthRound⟩)
  | none, some seqpack =>
    (some ⟨match mbTokensKey with
      | .trainMbTokens => seqpack.trainMbTokens
      | .logprobMbTokens => seqpack.logprobMbTokens, seqpack.algorithm,
      self.cfg.makeSequenceLengthDivisibleBy⟩, none)
  | none, none => (none, none)

/-- The metadata of the ranks. -/
def logprobMetas (self : TQPolicy) (batch : KVBatchMeta) (taskName : String)
    (includeRouterReplay : Bool) : Except PyError (List KVBatchMeta) := do
  let batch := stampPadSeqlen batch (self.packingArgs .trainMbTokens).2
  let (packing, dynamic) := self.packingArgs .logprobMbTokens
  let lpMeta := { batch with
    fields := some (fieldsWithOptionalRoutedExperts lpSeedFields
      (self.routerReplayEnabled && includeRouterReplay))
    taskName := some taskName }
  let (metas, _) ← shardMetaForDp lpMeta self.rand self.dataParallel none packing dynamic
  return metas

/-- The whole call: every rank does its part. The ranks do not wait for each other, so they are
done in the order of a schedule. -/
def getLogprobsFromMeta [Zero α] {seqlen : ℕ} (self : TQPolicy) (worker : TQWorker α σ)
    (f : Row α → Fin seqlen → α) (schedule : List KVBatchMeta → List KVBatchMeta) (store : σ)
    (batch : KVBatchMeta) : Except PyError σ := do
  let metas ← self.logprobMetas batch "prev_lp" true
  (schedule metas).foldlM (worker.getLogprobsPresharded f) store

end TQPolicy

end NemoRL.DataPlane
