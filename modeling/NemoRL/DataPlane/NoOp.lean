import NemoRL.DataPlane.StoreReads
import NemoRL.Lib.DictTotal
import NemoRL.Lib.Transition

/-!
# The in-memory data plane

The in-memory client keeps its partitions in the memory of the process. A producer puts the fields
of samples, a consumer claims samples that have the fields it needs, and whoever knows the ids of
samples gets or clears them. For each task a partition remembers which of its samples the task has
claimed.

An operation that raises may have changed the store before: a put writes sample after sample, and
it checks its tags against its samples only at the end. So an operation returns the store beside its
result, and not only when there is one.

## Main definitions

* `PartitionState`, `NoOpStore` — a partition and the store.
* `registerPartition`, `claimMeta`, `putSamples`, `getSamples`, `getData`,
  `checkConsumptionStatus`, `clearSamples`, `close` — the operations.
* `StoreOp`, `noOpSystem` — the operations that change the store as a system.
-/

namespace NemoRL.DataPlane

open Lib

variable {α : Type}

/-- A partition: the fields of its samples, their tags, and for each task the samples it has
claimed. -/
structure PartitionState (α : Type) where
  rows : Partition α := []
  tags : List (String × Tag) := []
  consumed : List (String × Finset String) := []

/-- The state of the in-memory client. -/
structure NoOpStore (α : Type) where
  partitions : List (String × PartitionState α) := []
  closed : Bool := false

namespace NoOpStore

/-! ## Partitions and claims -/

/-- Begin a partition anew, with no sample claimed. -/
def registerPartition (self : NoOpStore α) (partitionId : String) (consumerTasks : List String) :
    NoOpStore α :=
  let rec' : PartitionState α :=
    { consumed := consumerTasks.foldl (fun d t => dictSet d t ∅) [] }
  { self with partitions := dictSet self.partitions partitionId rec' }

/-- A sample that a claim takes: the task has not claimed it and all fields are there. -/
def isReady (consumed : Finset String) (requiredFields : List String)
    (row : String × List (String × Tensor α)) : Bool :=
  decide (row.1 ∉ consumed) && requiredFields.all fun f => (row.2.lookup f).isSome

/-- The length of a sample according to its tags. -/
def inputLength (intOf : String → Except PyError ℕ) (tags : List (String × Tag)) (key : String) :
    Except PyError ℕ :=
  match ((tags.lookup key).getD []).lookup "input_lengths" with
  | some value => intOf value
  | none => .ok 0

/-- Go through the rows and take those that are ready, with their lengths, until there are as many
as asked for. The number is compared after a row was taken. -/
def claimRows (intOf : String → Except PyError ℕ) (tags : List (String × Tag))
    (consumed : Finset String) (requiredFields : List String) (batchSize : ℤ) :
    Partition α → ℕ → Except PyError (List (String × ℕ))
  | [], _ => .ok []
  | row :: rows, taken =>
    if isReady consumed requiredFields row then do
      let seq ← inputLength intOf tags row.1
      if batchSize ≤ taken + 1 then
        return [(row.1, seq)]
      let ready ← claimRows intOf tags consumed requiredFields batchSize rows (taken + 1)
      return (row.1, seq) :: ready
    else claimRows intOf tags consumed requiredFields batchSize rows taken

/-- Claim samples for a task. -/
def claimMeta (intOf : String → Except PyError ℕ) (self : NoOpStore α)
    (partitionId taskName : String) (requiredFields : List String) (batchSize : ℤ) :
    Except PyError KVBatchMeta × NoOpStore α :=
  match self.partitions.lookup partitionId with
  | none => (.error ⟨.keyError, partitionId⟩, self)
  | some rec' =>
    match rec'.consumed.lookup taskName with
    | none => (.error ⟨.keyError, s!"task '{taskName}' not registered as a consumer of " ++
        s!"partition '{partitionId}'"⟩, self)
    | some consumed =>
      match claimRows intOf rec'.tags consumed requiredFields batchSize rec'.rows 0 with
      | .error e => (.error e, self)
      | .ok ready =>
        let claimed := consumed ∪ (ready.map Prod.fst).toFinset
        let partition' := { rec' with consumed := dictSet rec'.consumed taskName claimed }
        (.ok
          { partitionId := partitionId
            taskName := some taskName
            sampleIds := ready.map Prod.fst
            fields := some requiredFields
            sequenceLengths :=
              if ready.any (·.2 ≠ 0) then some (ready.map Prod.snd) else none
            extraInfo := {} },
          { self with partitions := dictSet self.partitions partitionId partition' })

/-- A task is registered and has claimed as many samples as there are. -/
def hasConsumed (rec' : PartitionState α) (taskName : String) : Bool :=
  match rec'.consumed.lookup taskName with
  | none => false
  | some consumed => decide (rec'.rows.length ≤ consumed.card)

/-- All tasks have claimed as many samples as there are. -/
def checkConsumptionStatus (self : NoOpStore α) (partitionId : String) (taskNames : List String) :
    Except PyError Bool :=
  match self.partitions.lookup partitionId with
  | none => .error ⟨.keyError, partitionId⟩
  | some rec' => .ok (taskNames.all (hasConsumed rec'))

/-! ## Samples by their ids -/

/-- Write row `i` of the fields into the row of a sample, one field after the other. -/
def writeFields (i : ℕ) : TensorDict α → List (String × Tensor α) →
    Option PyError × List (String × Tensor α)
  | [], row => (none, row)
  | (fname, leaf) :: fields, row =>
    match leaf.rows[i]? with
    | none => (some ⟨.indexError, "index out of range"⟩, row)
    | some val => writeFields i fields (dictSet row fname val)

/-- Write the samples one after the other. What was written before an error stays. -/
def writeSamples (fields : TensorDict α) : List (String × ℕ) → Partition α →
    Option PyError × Partition α
  | [], rows => (none, rows)
  | (sid, i) :: samples, rows =>
    let written := writeFields i fields ((rows.lookup sid).getD [])
    match written.1 with
    | some e => (some e, dictSet rows sid written.2)
    | none => writeSamples fields samples (dictSet rows sid written.2)

/-- Update the tags of samples. -/
def updateTags (tags : List (String × Tag)) (samples : List (String × Tag)) :
    List (String × Tag) :=
  samples.foldl (fun tags p => dictSet tags p.1
    (p.2.foldl (fun tag entry => dictSet tag entry.1 entry.2) ((tags.lookup p.1).getD []))) tags

/-- The metadata of samples, which checks that there are as many tags as samples. -/
def putMeta (sampleIds : List String) (partitionId : String) (fields : Option (TensorDict α))
    (tags : Option (List Tag)) : Except PyError KVBatchMeta :=
  if ∃ ts ∈ tags, ts.length ≠ sampleIds.length then
    .error ⟨.valueError, s!"KVBatchMeta: tags ({(tags.getD []).length}) must align 1:1 with " ++
      s!"sample_ids ({sampleIds.length})"⟩
  else .ok
    { partitionId := partitionId
      taskName := none
      sampleIds := sampleIds
      fields := fields.map (List.map Prod.fst)
      sequenceLengths := none
      extraInfo := {}
      tags := tags }

/-- Put fields and tags of samples. -/
def putSamples (self : NoOpStore α) (sampleIds : List String) (partitionId : String)
    (fields : Option (TensorDict α)) (tags : Option (List Tag)) :
    Except PyError KVBatchMeta × NoOpStore α :=
  match self.partitions.lookup partitionId with
  | none => (.error ⟨.keyError, partitionId⟩, self)
  | some rec' =>
    let written := writeSamples (fields.getD [])
      (if fields.isSome then sampleIds.zipIdx else []) rec'.rows
    let partition' := { rec' with rows := written.2 }
    match written.1 with
    | some e => (.error e,
        { self with partitions := dictSet self.partitions partitionId partition' })
    | none =>
      let tagged := { partition' with
        tags := updateTags rec'.tags (sampleIds.zip (tags.getD [])) }
      (putMeta sampleIds partitionId fields tags,
        { self with partitions := dictSet self.partitions partitionId tagged })

/-- Get fields of samples. -/
def getSamples (self : NoOpStore α) (sampleIds : List String) (partitionId : String)
    (selectFields : List String) : Except PyError (TensorDict α) :=
  match self.partitions.lookup partitionId with
  | none => .error ⟨.keyError, partitionId⟩
  | some rec' => noOpGet rec'.rows partitionId sampleIds selectFields

/-- Get the data of a batch. -/
def getData (self : NoOpStore α) (batch : KVBatchMeta) (selectFields : Option (List String)) :
    Except PyError (TensorDict α) :=
  match selectFields <|> batch.fields with
  | none => .error ⟨.valueError, "get_data requires either select_fields or meta.fields; " ++
      "fetching all fields silently is forbidden."⟩
  | some fields => self.getSamples batch.sampleIds batch.partitionId fields

/-- Clear samples, or a whole partition. -/
def clearSamples (self : NoOpStore α) (sampleIds : Option (List String)) (partitionId : String) :
    NoOpStore α :=
  match self.partitions.lookup partitionId, sampleIds with
  | none, _ => self
  | some _, none => { self with partitions := popAll self.partitions [partitionId] }
  | some rec', some ids =>
    let partition' : PartitionState α :=
      { rows := popAll rec'.rows ids
        tags := popAll rec'.tags ids
        consumed := rec'.consumed.map fun p => (p.1, p.2.filter (· ∉ ids)) }
    { self with partitions := dictSet self.partitions partitionId partition' }

/-- Close the client. A second call does nothing. -/
def close (self : NoOpStore α) : NoOpStore α :=
  if self.closed then self else { partitions := [], closed := true }

end NoOpStore

/-! ## The client as a system -/

/-- An operation that changes the store. -/
inductive StoreOp (α : Type)
  | register (partitionId : String) (consumerTasks : List String)
  | claim (partitionId taskName : String) (requiredFields : List String) (batchSize : ℤ)
  | put (sampleIds : List String) (partitionId : String) (fields : Option (TensorDict α))
      (tags : Option (List Tag))
  | clear (sampleIds : Option (List String)) (partitionId : String)
  | close

/-- The store after an operation, whether it returns or raises. -/
def NoOpStore.run (intOf : String → Except PyError ℕ) (self : NoOpStore α) :
    StoreOp α → NoOpStore α
  | .register partitionId consumerTasks => self.registerPartition partitionId consumerTasks
  | .claim partitionId taskName requiredFields batchSize =>
    (self.claimMeta intOf partitionId taskName requiredFields batchSize).2
  | .put sampleIds partitionId fields tags => (self.putSamples sampleIds partitionId fields tags).2
  | .clear sampleIds partitionId => self.clearSamples sampleIds partitionId
  | .close => self.close

/-- The client: it begins empty, and any operation may come next. -/
def noOpSystem (α : Type) (intOf : String → Except PyError ℕ) :
    System (NoOpStore α) (StoreOp α) where
  init s := s = {}
  step s op := some (s.run intOf op)

end NemoRL.DataPlane
