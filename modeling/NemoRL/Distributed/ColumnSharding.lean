import NemoRL.Distributed.BatchedDataDict
import NemoRL.Lib.Blocks
import NemoRL.Lib.Dict
import NemoRL.Lib.Layout

/-!
# Sharding the columns of a batch

A batch is a dictionary of columns: a tensor, a list, or a packed tensor, which is a list of
tensors that may be missing. Plain sharding cuts each kind of column in its own way. A tensor is
allocated and filled range by range, the values of a list are collected one by one, and a packed
tensor is sliced for each range and the slices are joined. A packed tensor holds at least one
entry, so that for a shard without a range another one is made up.

A row of a column is a row of a tensor, a value of a list or an entry of a packed tensor.

## Main definitions

* `Column`, `PackedTensor` — the kinds of columns.
* `shardByBatchSizePlain` — sharding without packing and dynamic batching.
* `getBatchPlain` — a sub-batch of a shard.
-/

namespace NemoRL.Distributed

open Lib

variable {ρ : Type}

/-! ## Columns -/

/-- A list of tensors, some of them missing, to be packed along a dimension. There is at least
one entry. -/
structure PackedTensor (ρ : Type) where
  tensors : List (Option ρ)
  dimToPack : ℤ
  tensors_ne : tensors ≠ []

/-- A column of a batch. -/
inductive Column (ρ : Type)
  | tensor (rows : List ρ)
  | list (values : List ρ)
  | packed (t : PackedTensor ρ)

namespace PackedTensor

/-- The constructor refuses an empty list. -/
def ofTensors (tensors : List (Option ρ)) (dimToPack : ℤ) : Except PyError (PackedTensor ρ) :=
  if h : tensors = [] then
    .error ⟨.assertionError, "Input tensors to PackedTensor must be a non-empty list"⟩
  else .ok ⟨tensors, dimToPack, h⟩

/-- The entries at some indices. -/
def slice (t : PackedTensor ρ) (indices : List ℕ) : Except PyError (PackedTensor ρ) := do
  let tensors ← indices.mapM (BatchedDataDict.getOrRaise t.tensors)
  ofTensors tensors t.dimToPack

/-- As many entries as another one has, all of them missing. -/
def emptyLike (other : PackedTensor ρ) : PackedTensor ρ where
  tensors := List.replicate other.tensors.length none
  dimToPack := other.dimToPack
  tensors_ne := by
    rw [Ne, List.replicate_eq_nil_iff]
    exact List.length_eq_zero_iff.not.mpr other.tensors_ne

/-- Join packed tensors that are packed along one dimension. -/
def concat (fromPackedTensors : List (PackedTensor ρ)) : Except PyError (PackedTensor ρ) :=
  match fromPackedTensors with
  | [] => .error ⟨.assertionError, "All packed tensors must have the same dim_to_pack"⟩
  | t :: ts =>
    if ts.all fun t' => t'.dimToPack = t.dimToPack then
      ofTensors ((t :: ts).flatMap tensors) t.dimToPack
    else .error ⟨.assertionError, "All packed tensors must have the same dim_to_pack"⟩

end PackedTensor

/-- The rows of a column. -/
def Column.cells : Column ρ → List (Option ρ)
  | .tensor rows => rows.map some
  | .list values => values.map some
  | .packed t => t.tensors

/-- The number of rows of a column. -/
def Column.length (col : Column ρ) : ℕ := col.cells.length

/-! ## Cutting a column -/

/-- Copy the ranges of a tensor one behind the other. -/
def copyRanges (v : List ρ) (shardTensor : List ρ) (offset : ℕ) :
    List (ℕ × ℕ) → Except PyError (List ρ)
  | [] => .ok shardTensor
  | (start, stop) :: ranges =>
    let span := stop - start
    match assignSlice shardTensor offset (offset + span) (Lib.slice v start stop) with
    | some shardTensor => copyRanges v shardTensor (offset + span) ranges
    | none =>
      .error ⟨.runtimeError, "The size of the tensor must match the size of the slice"⟩

/-- The part of a column at some ranges. What a new tensor holds before it is filled is
given. -/
def shardColumn (uninitialized : ρ) (shardRanges : List (ℕ × ℕ)) :
    Column ρ → Except PyError (Column ρ)
  | .tensor v => do
    let rows := (shardRanges.map fun range => range.2 - range.1).sum
    let shardTensor ← copyRanges v (List.replicate rows uninitialized) 0 shardRanges
    return .tensor shardTensor
  | .packed t => do
    let packedSlices ← shardRanges.mapM fun range =>
      t.slice (List.range' range.1 (range.2 - range.1))
    if packedSlices = [] then return .packed t.emptyLike
    else
      let joined ← PackedTensor.concat packedSlices
      return .packed joined
  | .list v => do
    let shardValues ← shardRanges.mapM fun range =>
      (List.range' range.1 (range.2 - range.1)).mapM (BatchedDataDict.getOrRaise v)
    return .list shardValues.flatten

/-! ## Sharding -/

/-- The ranges of the rows that a shard takes from the chunks. A range without rows is left
out. -/
def shardRanges (total numChunks batchSize shardSize : ℕ) (allowUnevenShards : Bool)
    (shardIdx : ℕ) : List (ℕ × ℕ) :=
  ((List.range numChunks).map fun chunkIdx =>
    let chunkStart := chunkIdx * batchSize
    let shardStart := chunkStart + shardIdx * shardSize
    let shardEnd := chunkStart + (shardIdx + 1) * shardSize
    if allowUnevenShards then (min shardStart total, min shardEnd total)
    else (shardStart, shardEnd)).filter fun range => range.1 < range.2

/-- The number of rows of a batch, whose columns have to agree on it. -/
def totalBatchSize (data : List (String × Column ρ)) : Except PyError ℕ :=
  match (data.map fun p => p.2.length).dedup with
  | [total] => .ok total
  | batchSizes =>
    .error ⟨.assertionError,
      "Batch sizes are not the same across the rollout batch, found sizes: " ++
      "[" ++ ",".intercalate (batchSizes.map toString) ++ "]"⟩

/-- Divide a batch into chunks of `batchSize` rows and each chunk over the shards, and put
together what each shard gets, column by column. -/
def shardByBatchSizePlain (uninitialized : ρ) (data : List (String × Column ρ)) (shards : ℕ)
    (batchSize : Option ℕ) (allowUnevenShards : Bool) :
    Except PyError (List (List (String × Column ρ))) :=
  if allowUnevenShards ∧ batchSize ≠ none then
    .error ⟨.assertionError, "batch_size must be None if allow_uneven_shards is True"⟩
  else do
    let total ← totalBatchSize data
    let batchSize ← BatchedDataDict.checkShardArgs total shards batchSize allowUnevenShards false
    let numChunks := total / batchSize
    let shardSize := if allowUnevenShards then (batchSize + shards - 1) / shards
      else batchSize / shards
    (List.range shards).mapM fun shardIdx =>
      data.mapM fun p => do
        let col ← shardColumn uninitialized
          (shardRanges total numChunks batchSize shardSize allowUnevenShards shardIdx) p.2
        return (p.1, col)

/-! ## Reading a shard back -/

/-- The rows of a column from `start` up to `stop`. -/
def sliceColumn (key : String) (start stop : ℕ) : Column ρ → Except PyError (Column ρ)
  | .packed t => do
    let t ← t.slice (List.range' start (stop - start))
    return .packed t
  | .tensor rows =>
    if stop ≤ rows.length then .ok (.tensor (Lib.slice rows start stop))
    else
      .error ⟨.assertionError,
        s!"end: {stop} is greater than the shape of the tensor: {rows.length} for key: {key}"⟩
  | .list values => .ok (.list (Lib.slice values start stop))

/-- A sub-batch of a shard without a plan of micro-batches. -/
def getBatchPlain (data : List (String × Column ρ)) (batchIdx batchSize : ℕ) :
    Except PyError (List (String × Column ρ)) :=
  data.mapM fun p => do
    let col ← sliceColumn p.1 (batchSize * batchIdx) (batchSize * (batchIdx + 1)) p.2
    return (p.1, col)

end NemoRL.Distributed
