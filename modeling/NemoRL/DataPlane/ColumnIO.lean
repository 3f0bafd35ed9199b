import NemoRL.DataPlane.Codec
import NemoRL.DataPlane.Preshard
import NemoRL.Lib.Dict
import Mathlib.Data.List.Dedup

/-!
# Columns of a partition

`kvFirstWrite` encodes a batch and puts it into the store under given sample ids;
`readColumns` gets fields of some of these samples and decodes them. The store is a
client with two operations; `noOpClient` is the in-memory one.

## Main definitions

* `DataPlaneClient`, `noOpClient` — a store and its in-memory implementation.
* `kvFirstWrite`, `readColumns`.
-/

namespace NemoRL.DataPlane

open Lib

variable {α σ : Type}

/-- The fields that hold one entry for each token. -/
def tokenAlignedFields : List String :=
  ["input_ids", "generation_logprobs", "prev_logprobs", "reference_policy_logprobs",
    "advantages", "token_mask", "sample_mask", "routed_experts"]

/-- The two operations of a store that move tensors. -/
structure DataPlaneClient (α σ : Type) where
  putSamples (store : σ) (sampleIds : List String) (partitionId : String)
    (fields : TensorDict α) (tags : Option (List Tag)) : Except PyError σ
  getSamples (store : σ) (sampleIds : List String) (partitionId : String)
    (selectFields : List String) : Except PyError (TensorDict α)

/-- A column of the batch, or a `KeyError`. -/
def column (batch : Columns α) (key : String) : Except PyError (Rect α) :=
  match batch.lookup key with
  | some t => .ok t
  | none => .error ⟨.keyError, key⟩

/-- Read a column of scalars as lengths. -/
def lengthsOf (intOf : α → ℕ) (t : Rect α) : List ℕ :=
  t.rows.map fun row => (row.data.head?.map intOf).getD 0

/-- The first put of a batch. Returns the metadata of the written samples and the new
state of the store. -/
def kvFirstWrite (intOf : α → ℕ) (finalBatchCpu : Columns α) (sampleIds : List String)
    (dpClient : DataPlaneClient α σ) (store : σ) (partitionId : String) (extraInfo : ExtraInfo)
    (taskName : String) (padToMultiple : ℕ) (tags : Option (List Tag)) :
    Except PyError (KVBatchMeta × σ) := do
  let sampleMask ← column finalBatchCpu "sample_mask"
  let n := sampleMask.rows.length
  if n = 0 ∨ sampleIds.length ≠ n then
    throw ⟨.valueError, s!"kv_first_write: sample_ids ({sampleIds.length}) must match batch " ++
      s!"size ({n})"⟩
  if ∃ ts ∈ tags, ts.length ≠ n then
    throw ⟨.valueError, s!"kv_first_write: tags ({(tags.getD []).length}) must match batch " ++
      s!"size ({n})"⟩
  let inputLengths ← column finalBatchCpu "input_lengths"
  let lengths := lengthsOf intOf inputLengths
  let td ← packJaggedFields finalBatchCpu (some lengths) tokenAlignedFields
  let store ← dpClient.putSamples store sampleIds partitionId td tags
  return (
    { partitionId := partitionId
      taskName := some taskName
      sampleIds := sampleIds
      fields := some (td.map Prod.fst)
      sequenceLengths := some lengths
      extraInfo := { extraInfo with
        padToMultiple := if 1 < padToMultiple then some padToMultiple
          else extraInfo.padToMultiple }
      tags := tags }, store)

/-- Get fields of samples and decode them in the padded layout. -/
def readColumns [Zero α] (dpClient : DataPlaneClient α σ) (store : σ) (batch : KVBatchMeta)
    (selectFields : List String) (padValueDict : List (String × α)) :
    Except PyError (Columns α) := do
  let td ← dpClient.getSamples store batch.sampleIds batch.partitionId selectFields
  let padToSeqlen := batch.extraInfo.globalForwardPadSeqlen.getD 0
  return materialize td padValueDict padToSeqlen

/-! ## The in-memory store -/

/-- The rows of a partition: for each sample the tensors of its fields. -/
abbrev Partition (α : Type) := List (String × List (String × Tensor α))

/-- Write the tensors of one sample. -/
def putRow (rec : Partition α) (sid : String) (row : List (String × Tensor α)) : Partition α :=
  dictSet rec sid (row.foldl (fun d field => dictSet d field.1 field.2)
    ((rec.lookup sid).getD []))

/-- Row `i` of every field. -/
def rowAt (fields : TensorDict α) (i : ℕ) : Except PyError (List (String × Tensor α)) :=
  fields.mapM fun field =>
    match field.2.rows[i]? with
    | some val => .ok (field.1, val)
    | none => .error ⟨.indexError, "index out of range"⟩

/-- Write row `i` of every field for one sample. -/
def putSample (fields : TensorDict α) (rec : Partition α) (sample : String × ℕ) :
    Except PyError (Partition α) := do
  let row ← rowAt fields sample.2
  return putRow rec sample.1 row

/-- Put samples: row `i` of every field belongs to sample `i`. -/
def noOpPut (rec : Partition α) (sampleIds : List String) (fields : TensorDict α) :
    Except PyError (Partition α) :=
  sampleIds.zipIdx.foldlM (putSample fields) rec

/-- The tensors of one sample for the selected fields. -/
def getRow (rec : Partition α) (partitionId : String) (selectFields : List String)
    (sid : String) : Except PyError (List (Tensor α)) :=
  match rec.lookup sid with
  | none => .error ⟨.keyError, sid⟩
  | some row => selectFields.mapM fun f =>
    match row.lookup f with
    | some val => .ok val
    | none => .error ⟨.keyError, s!"field '{f}' not yet produced for sample_id '{sid}' " ++
        s!"in partition '{partitionId}'"⟩

/-- The tensors collected for one field. A field that is selected twice is collected
twice. -/
def collect (selectFields : List String) (rows : List (List (Tensor α))) (f : String) :
    List (Tensor α) :=
  rows.flatMap fun row =>
    (selectFields.zip row).filterMap fun p => if p.1 = f then some p.2 else none

/-- Stack the tensors collected for one field. -/
def stackField (selectFields : List String) (rows : List (List (Tensor α))) (f : String) :
    Except PyError (String × Leaf α) := do
  let leaf ← stackOrNest (collect selectFields rows f)
  return (f, leaf)

/-- Get samples: collect the tensors of each field and stack them. -/
def noOpGet (rec : Partition α) (partitionId : String) (sampleIds : List String)
    (selectFields : List String) : Except PyError (TensorDict α) :=
  if sampleIds = [] then .ok []
  else do
    let rows ← sampleIds.mapM (getRow rec partitionId selectFields)
    let stacked ← selectFields.dedup.mapM (stackField selectFields rows)
    tensorDict stacked sampleIds.length

/-- The in-memory store: partitions that have been registered. -/
def noOpClient : DataPlaneClient α (List (String × Partition α)) where
  putSamples store sampleIds partitionId fields _ :=
    match store.lookup partitionId with
    | none => .error ⟨.keyError, partitionId⟩
    | some rec => do
      let rec ← noOpPut rec sampleIds fields
      return dictSet store partitionId rec
  getSamples store sampleIds partitionId selectFields :=
    match store.lookup partitionId with
    | none => .error ⟨.keyError, partitionId⟩
    | some rec => noOpGet rec partitionId sampleIds selectFields

end NemoRL.DataPlane
