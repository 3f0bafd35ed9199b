import NemoRL.Data.Packing
import NemoRL.Lib.Distribute

/-!
# Batches and their sharding

A `BatchedDataDict` is a dictionary of columns of one length. It is modelled row by
row, so that the assertion that all columns have one length holds by construction,
and a column is a function on rows. `shardByBatchSize` divides a batch into chunks
and each chunk over the shards, in one of three ways: in contiguous parts, in parts
sorted for dynamic batching, or by bins of packed sequences.

## Main definitions

* `BatchedDataDict` — the rows and the micro-batch plan attached to them.
* `shardByBatchSize` — the three ways of sharding.
* `getBatch`, `makeMicrobatchIteratorForPackableSequences` — reading a shard back.
* `reorderData` — putting rows back in order.
-/

namespace NemoRL.Distributed

open Lib Data.Packing

/-- A batch of rows with the micro-batch plan of each global batch in it. -/
structure BatchedDataDict (ρ : Type) where
  rows : List ρ
  /-- For each global batch, the start and the end of each micro-batch. -/
  microBatchIndices : Option (List (List (ℕ × ℕ))) := none
  /-- For each global batch, the sequence length of each micro-batch. -/
  microBatchLengths : Option (List (List ℕ)) := none
  /-- For each global batch, the number of its rows. -/
  elemCountsPerGb : Option (List ℕ) := none
  deriving DecidableEq, Repr

/-- Configuration of dynamic batching. A key of the source is the column it names;
of the input ids only the width is read. -/
structure DynamicBatchingArgs (ρ : Type) where
  maxTokensPerMicrobatch : ℕ
  sequenceLengthRound : ℕ
  inputWidth : ℕ
  inputLengths : ρ → ℕ

/-- Configuration of sequence packing. -/
structure SequencePackingArgs (ρ : Type) where
  maxTokensPerMicrobatch : ℕ
  algorithm : PackingAlgorithm
  inputLengths : ρ → ℕ
  sequenceLengthPadMultiple : ℕ

/-- Round up to a multiple. -/
def roundUp (seqlen multiple : ℕ) : ℕ := (seqlen + multiple - 1) / multiple * multiple

theorem le_roundUp {multiple : ℕ} (h : 0 < multiple) (value : ℕ) :
    value ≤ roundUp value multiple := by
  have hmod := Nat.div_add_mod (value + multiple - 1) multiple
  have hlt := Nat.mod_lt (value + multiple - 1) h
  rw [roundUp, Nat.mul_comm]
  omega

variable {ρ : Type}

/-- The rows from `start` up to `stop`. -/
def sliceRows (rows : List ρ) (start stop : ℕ) : List ρ := (rows.drop start).take (stop - start)

/-! ## Contiguous shards -/

/-- The rows of one shard: its part of each chunk. -/
def shardRows (rows : List ρ) (numChunks batchSize shardSize : ℕ) (allowUnevenShards : Bool)
    (shardIdx : ℕ) : List ρ :=
  (List.range numChunks).flatMap fun chunkIdx =>
    let chunkStart := chunkIdx * batchSize
    let shardStart := chunkStart + shardIdx * shardSize
    let shardEnd := chunkStart + (shardIdx + 1) * shardSize
    if allowUnevenShards then
      sliceRows rows (min shardStart rows.length) (min shardEnd rows.length)
    else sliceRows rows shardStart shardEnd

/-! ## Dynamic batching -/

/-- The order in which dynamic batching lays out the rows: within each chunk sorted by
length and dealt out to the shards in turn. -/
def dynamicOrder (rows : List ρ) (inputLengths : ρ → ℕ) (numChunks batchSize shards : ℕ) :
    List ℕ :=
  (List.range numChunks).flatMap fun chunkIdx =>
    let chunkStart := chunkIdx * batchSize
    let seqlen (i : ℕ) : ℕ := (rows[chunkStart + i]?.map inputLengths).getD 0
    let sorted := (List.range batchSize).insertionSort fun i j => seqlen i ≤ seqlen j
    let indices := sorted.map (· + chunkStart)
    (List.range shards).flatMap (stride indices shards)

/-- The micro-batches of a chunk while they are planned: the closed ones and the
current one, each with its range and its length. -/
structure MicroPlan where
  closed : List ((ℕ × ℕ) × ℕ)
  current : (ℕ × ℕ) × ℕ
  maxSeqlenThisMb : ℕ
  deriving DecidableEq, Repr

/-- The longer of `longest` and the row of one shard. -/
def longerRow (inputLengths : ρ → ℕ) (i longest : ℕ) (shard : List ρ) : Except PyError ℕ :=
  match shard[i]? with
  | some row => .ok (max longest (inputLengths row))
  | none => .error ⟨.indexError, "index out of range"⟩

/-- The longest of the rows that the shards hold at one position. -/
def maxSeqlenAt (shards : List (List ρ)) (inputLengths : ρ → ℕ) (i : ℕ) : Except PyError ℕ :=
  shards.foldlM (longerRow inputLengths i) 0

/-- Plan one position of the shards: add it to the current micro-batch if the padded
tokens still fit, or open a new micro-batch. -/
def planStep (args : DynamicBatchingArgs ρ) (shards : List (List ρ)) (chunkStart : ℕ)
    (plan : MicroPlan) (shardIndice : ℕ) : Except PyError MicroPlan := do
  let longest ← maxSeqlenAt shards args.inputLengths (chunkStart + shardIndice)
  if args.sequenceLengthRound = 0 then
    .error ⟨.zeroDivisionError, "integer division or modulo by zero"⟩
  else
    let seqlen := min (roundUp longest args.sequenceLengthRound) args.inputWidth
    if args.maxTokensPerMicrobatch < seqlen then
      .error ⟨.assertionError, s!"got an input of padded ({args.sequenceLengthRound}) sequence " ++
        s!"length of {seqlen}, however max microbatch size is " ++
        s!"{args.maxTokensPerMicrobatch} tokens"⟩
    else
      let (start, stop) := plan.current.1
      let currMbsSize := stop - start + 1
      let maxSeqlenThisMb := max plan.maxSeqlenThisMb seqlen
      if currMbsSize * maxSeqlenThisMb ≤ args.maxTokensPerMicrobatch then
        .ok ⟨plan.closed, ((start, stop + 1), maxSeqlenThisMb), maxSeqlenThisMb⟩
      else
        .ok ⟨plan.closed ++ [plan.current], ((shardIndice, shardIndice + 1), seqlen), seqlen⟩

/-- The micro-batches of one chunk, the same for all shards. -/
def planChunk (args : DynamicBatchingArgs ρ) (shards : List (List ρ)) (shardSize chunkIdx : ℕ) :
    Except PyError (List ((ℕ × ℕ) × ℕ)) := do
  let plan ← (List.range shardSize).foldlM (planStep args shards (chunkIdx * shardSize))
    ⟨[], ((0, 0), 0), 0⟩
  return plan.closed ++ [plan.current]

/-! ## Sequence packing -/

/-- What one shard accumulates while bins are dealt out: the selected batches, the
global indices of their rows, the plan of each finished chunk and of the current one. -/
structure ShardAcc (ρ : Type) where
  data : List (List ρ) := []
  globalIndices : List ℕ := []
  microIndices : List (List (ℕ × ℕ)) := []
  microLengths : List (List ℕ) := []
  elemCountsPerGb : List ℕ := []
  chunkMicroIndices : List (ℕ × ℕ) := []
  chunkMicroLengths : List ℕ := []

/-- Give one bin to a shard. -/
def addBin (rows : List ρ) (paddedLength : ρ → ℕ) (chunkStart : ℕ) (acc : ShardAcc ρ)
    (binIndices : List ℕ) : ShardAcc ρ :=
  let globalBinIndices := binIndices.map (· + chunkStart)
  let bin := select rows globalBinIndices
  let prevBinEnd := (acc.chunkMicroIndices.getLast?.map Prod.snd).getD 0
  { acc with
    data := acc.data ++ [bin]
    globalIndices := acc.globalIndices ++ globalBinIndices
    chunkMicroIndices :=
      acc.chunkMicroIndices ++ [(prevBinEnd, prevBinEnd + binIndices.length)]
    chunkMicroLengths := acc.chunkMicroLengths ++ [(bin.map paddedLength).sum] }

/-- Close the current chunk of a shard. A shard without a bin has no last range. -/
def closeChunk (acc : ShardAcc ρ) : Except PyError (ShardAcc ρ) :=
  match acc.chunkMicroIndices.getLast? with
  | some (_, stop) => .ok { acc with
      microIndices := acc.microIndices ++ [acc.chunkMicroIndices]
      microLengths := acc.microLengths ++ [acc.chunkMicroLengths]
      elemCountsPerGb := acc.elemCountsPerGb ++ [stop]
      chunkMicroIndices := []
      chunkMicroLengths := [] }
  | none => .error ⟨.indexError, "list index out of range"⟩

/-- Deal out the bins of one chunk: bin number `i` goes to shard `i % shards`. -/
def distributeChunk (rows : List ρ) (paddedLength : ρ → ℕ) (batchSize : ℕ)
    (accs : List (ShardAcc ρ)) (chunk : List (List ℕ) × ℕ) : Except PyError (List (ShardAcc ρ)) :=
  (scatterFold (fun bin => bin.2 % accs.length)
    (fun acc bin => addBin rows paddedLength (chunk.2 * batchSize) acc bin.1)
    accs chunk.1.zipIdx).mapM closeChunk

/-- Pack each chunk into bins and deal the bins out to the shards. -/
def shardPacked (rows : List ρ) (args : SequencePackingArgs ρ) (rand : Shuffle)
    (shards numChunks batchSize : ℕ) :
    Except PyError (List (BatchedDataDict ρ) × List ℕ) := do
  let binPacker ← getPacker args.algorithm args.maxTokensPerMicrobatch (some shards) (some shards)
  let paddedLength (row : ρ) : ℕ := roundUp (args.inputLengths row) args.sequenceLengthPadMultiple
  let allChunkBinAssignments ← (List.range numChunks).mapM fun chunkIdx =>
    let chunk := sliceRows rows (chunkIdx * batchSize) ((chunkIdx + 1) * batchSize)
    if args.sequenceLengthPadMultiple = 0 ∧ chunk ≠ [] then
      .error ⟨.zeroDivisionError, "integer division or modulo by zero"⟩
    else binPacker.pack rand chunkIdx (chunk.map paddedLength)
  let accs ← allChunkBinAssignments.zipIdx.foldlM (distributeChunk rows paddedLength batchSize)
    (List.replicate shards {})
  return (accs.map fun acc => ⟨acc.data.flatten, some acc.microIndices, some acc.microLengths,
    some acc.elemCountsPerGb⟩, accs.flatMap ShardAcc.globalIndices)

/-! ## Sharding -/

namespace BatchedDataDict

/-- The checks on the arguments. Returns the chunk size. -/
def checkShardArgs (totalBatchSize shards : ℕ) (batchSize : Option ℕ)
    (allowUnevenShards bothArgs : Bool) : Except PyError ℕ :=
  if allowUnevenShards ∧ batchSize ≠ none then
    .error ⟨.assertionError, "batch_size must be None if allow_uneven_shards is True"⟩
  else if bothArgs then
    .error ⟨.assertionError,
      "dynamic_batching_args and sequence_packing_args cannot be passed together"⟩
  else
    let batchSize := batchSize.getD totalBatchSize
    if batchSize = 0 then .error ⟨.zeroDivisionError, "integer modulo by zero"⟩
    else if totalBatchSize % batchSize ≠ 0 then
      .error ⟨.assertionError, s!"Total batch size ({totalBatchSize}) is not a multiple of " ++
        s!"batch_size ({batchSize})"⟩
    else if shards = 0 then
      .error ⟨.zeroDivisionError,
        if allowUnevenShards then "integer division or modulo by zero"
        else "integer modulo by zero"⟩
    else if !allowUnevenShards ∧ batchSize % shards ≠ 0 then
      .error ⟨.assertionError,
        s!"Batch size ({batchSize}) is not a multiple of shards ({shards})"⟩
    else .ok batchSize

/-- The checks on the arguments leave positive sizes that divide each other. -/
theorem checkShardArgs_ok {total shards chunkSize : ℕ} {batchSize : Option ℕ}
    {allowUneven bothArgs : Bool}
    (h : checkShardArgs total shards batchSize allowUneven bothArgs = .ok chunkSize) :
    chunkSize = batchSize.getD total ∧ 0 < chunkSize ∧ chunkSize ∣ total ∧ 0 < shards ∧
      (allowUneven = false → shards ∣ chunkSize) := by
  simp only [checkShardArgs] at h
  split at h; · exact nomatch h
  split at h; · exact nomatch h
  split at h; · exact nomatch h
  split at h; · exact nomatch h
  split at h; · exact nomatch h
  split at h; · exact nomatch h
  rename_i hpos hdvd hshards heven
  obtain rfl := Except.ok.inj h
  refine ⟨rfl, by omega, Nat.dvd_of_mod_eq_zero (by omega), by omega, fun hallow => ?_⟩
  simp only [hallow, Bool.not_false, true_and, ne_eq, not_not] at heven
  exact Nat.dvd_of_mod_eq_zero heven

/-- Divide a batch into chunks of `batchSize` rows and each chunk over the shards.
Dynamic batching and sequence packing also return the order of the rows. -/
def shardByBatchSize (d : BatchedDataDict ρ) (rand : Shuffle) (shards : ℕ)
    (batchSize : Option ℕ) (allowUnevenShards : Bool)
    (dynamicBatchingArgs : Option (DynamicBatchingArgs ρ))
    (sequencePackingArgs : Option (SequencePackingArgs ρ)) :
    Except PyError (List (BatchedDataDict ρ) × Option (List ℕ)) := do
  let batchSize ← checkShardArgs d.rows.length shards batchSize allowUnevenShards
    (dynamicBatchingArgs.isSome && sequencePackingArgs.isSome)
  let numChunks := d.rows.length / batchSize
  let shardSize := if allowUnevenShards then (batchSize + shards - 1) / shards
    else batchSize / shards
  let aggregate (rows : List ρ) : List (List ρ) :=
    (List.range shards).map (shardRows rows numChunks batchSize shardSize allowUnevenShards)
  match dynamicBatchingArgs, sequencePackingArgs with
  | some args, _ =>
    let order := dynamicOrder d.rows args.inputLengths numChunks batchSize shards
    let aggregatedShards := aggregate (select d.rows order)
    let plans ← (List.range numChunks).mapM (planChunk args aggregatedShards shardSize)
    return (aggregatedShards.map fun rows =>
      ⟨rows, some (plans.map (List.map Prod.fst)), some (plans.map (List.map Prod.snd)), none⟩,
      some order)
  | none, some args =>
    let (sharded, order) ← shardPacked d.rows args rand shards numChunks batchSize
    return (sharded, some order)
  | none, none => return ((aggregate d.rows).map fun rows => { rows }, none)

/-! ## Reading a shard back -/

/-- Slice a batch. The columns are tensors, so the end must not exceed their size. -/
def slice (d : BatchedDataDict ρ) (start stop : ℕ) : Except PyError (BatchedDataDict ρ) :=
  if stop ≤ d.rows.length then .ok { rows := sliceRows d.rows start stop }
  else .error ⟨.assertionError,
    s!"end: {stop} is greater than the shape of the tensor: {d.rows.length}"⟩

/-- An entry of a list, or an `IndexError`. -/
def getOrRaise {α : Type} (l : List α) (i : ℕ) : Except PyError α :=
  match l[i]? with
  | some x => .ok x
  | none => .error ⟨.indexError, "list index out of range"⟩

/-- The running totals of the row counts, from `total` on. -/
def cumElemCount (total : ℕ) : List ℕ → List ℕ
  | [] => [total]
  | count :: counts => total :: cumElemCount (total + count) counts

/-- The plan of one global batch, for a batch that has plans. -/
def withPlan (batch d : BatchedDataDict ρ) (batchIdx : ℕ) : Except PyError (BatchedDataDict ρ) :=
  match d.microBatchIndices, d.microBatchLengths with
  | some indices, some lengths => do
    let indices ← getOrRaise indices batchIdx
    let lengths ← getOrRaise lengths batchIdx
    return { batch with microBatchIndices := some [indices], microBatchLengths := some [lengths] }
  | some _, none => .error ⟨.typeError, "'NoneType' object is not subscriptable"⟩
  | none, _ => .ok batch

/-- One global batch of a shard with its plan. Packed shards hold a different number of
rows for each global batch. -/
def getBatch (d : BatchedDataDict ρ) (batchIdx : ℕ) (batchSize : Option ℕ) :
    Except PyError (BatchedDataDict ρ) :=
  match d.elemCountsPerGb with
  | some elemCountsPerGb => do
    if d.microBatchIndices.isNone then
      throw ⟨.assertionError, "micro_batch_indices must be provided if sequence_packing is True"⟩
    let elemCount ← getOrRaise elemCountsPerGb batchIdx
    let cumElemCount := cumElemCount 0 elemCountsPerGb
    let start ← getOrRaise cumElemCount batchIdx
    let stop ← getOrRaise cumElemCount (batchIdx + 1)
    let batch ← d.slice start stop
    let batch ← batch.withPlan d batchIdx
    return { batch with elemCountsPerGb := some [elemCount] }
  | none =>
    match batchSize with
    | some batchSize => do
      let batch ← d.slice (batchSize * batchIdx) (batchSize * (batchIdx + 1))
      batch.withPlan d batchIdx
    | none => .error ⟨.typeError, "unsupported operand type(s) for *: 'NoneType' and 'int'"⟩

/-- The micro-batches of a batch with one plan. -/
def makeMicrobatchIteratorForPackableSequences (d : BatchedDataDict ρ) :
    Except PyError (List (BatchedDataDict ρ)) :=
  match d.microBatchIndices, d.microBatchLengths with
  | some [indices], some (lengths :: _) =>
    (lengths.zip indices).mapM fun (_, start, stop) => d.slice start stop
  | some [_], some [] => .error ⟨.indexError, "list index out of range"⟩
  | _, _ => .error ⟨.assertionError, ""⟩

/-- The number of micro-batches of a batch with one plan, and the longest. -/
def getMicrobatchIteratorForPackableSequencesLen (d : BatchedDataDict ρ) :
    Except PyError (ℕ × ℕ) :=
  match d.microBatchIndices, d.microBatchLengths with
  | some indices, some lengths => do
    let indices ← getOrRaise indices 0
    let lengths ← getOrRaise lengths 0
    match lengths.max? with
    | some longest => return (indices.length, longest)
    | none => .error ⟨.valueError, "max() iterable argument is empty"⟩
  | _, _ => .error ⟨.typeError, "'NoneType' object is not subscriptable"⟩

/-- The order that `reorder_data` gathers by: sort the given indices together with the
positions they stand at. -/
def reorderIndices (reordedIndices : List ℕ) (totalBatchSize : ℕ) : List ℕ :=
  ((reordedIndices.zip (List.range totalBatchSize)).insertionSort fun p q => p.1 ≤ q.1).map
    Prod.snd

/-- Reorder the rows along the batch dimension. -/
def reorderData (d : BatchedDataDict ρ) (reordedIndices : List ℕ) : BatchedDataDict ρ :=
  { d with rows := select d.rows (reorderIndices reordedIndices d.rows.length) }

end BatchedDataDict
end NemoRL.Distributed
