import NemoRL.DataPlane.NoOp
import Mathlib.Algebra.Order.Group.Nat
import Mathlib.Algebra.Ring.Int.Defs

/-!
# The metrics of the data plane

`MetricsDataPlaneClient` wraps any client. Each operation goes to the inner client and is reported as
one event, whether it returns, raises or times out. The bytes of each put that returns are spread
over its samples, and a clear that returns takes the bytes of its samples off again, so the wrapper
knows at any time how many bytes are held for which sample.

The inner client is a parameter. What a callback does with an event and the time an operation takes
are left out.

## Main definitions

* `InnerClient`, `noOpInner` — the operations of a client, and those of the in-memory client.
* `MetricsClient` — the wrapper with its statistics.
* `MetricsClient.run`, `metricsSystem` — an operation and the system of all operations.
-/

namespace NemoRL.DataPlane

open Lib

variable {α σ : Type}

/-- What an operation of a client does. -/
inductive Outcome (ρ : Type)
  | returned (out : ρ)
  | raised (e : PyError)
  | timedOut (message : String)

/-- The outcome of a computation that never times out. -/
def Outcome.ofExcept {ρ : Type} : Except PyError ρ → Outcome ρ
  | .ok out => .returned out
  | .error e => .raised e

/-- The operations of a client on its state. Those that read are also given the state they leave,
which may be another one. -/
structure InnerClient (α σ : Type) where
  registerPartition (inner : σ) (partitionId : String) (consumerTasks : List String) :
    Outcome Unit × σ
  claimMeta (inner : σ) (partitionId taskName : String) (requiredFields : List String)
    (batchSize : ℤ) : Outcome KVBatchMeta × σ
  getData (inner : σ) (batch : KVBatchMeta) (selectFields : Option (List String)) :
    Outcome (TensorDict α) × σ
  checkConsumptionStatus (inner : σ) (partitionId : String) (taskNames : List String) :
    Outcome Bool × σ
  putSamples (inner : σ) (sampleIds : List String) (partitionId : String)
    (fields : Option (TensorDict α)) (tags : Option (List Tag)) : Outcome KVBatchMeta × σ
  getSamples (inner : σ) (sampleIds : List String) (partitionId : String)
    (selectFields : List String) : Outcome (TensorDict α) × σ
  clearSamples (inner : σ) (sampleIds : Option (List String)) (partitionId : String) :
    Outcome Unit × σ
  close (inner : σ) : Outcome Unit × σ

/-- The in-memory client. -/
def noOpInner (intOf : String → Except PyError ℕ) : InnerClient α (NoOpStore α) where
  registerPartition inner partitionId consumerTasks :=
    (.returned (), inner.registerPartition partitionId consumerTasks)
  claimMeta inner partitionId taskName requiredFields batchSize :=
    let out := inner.claimMeta intOf partitionId taskName requiredFields batchSize
    (.ofExcept out.1, out.2)
  getData inner batch selectFields := (.ofExcept (inner.getData batch selectFields), inner)
  checkConsumptionStatus inner partitionId taskNames :=
    (.ofExcept (inner.checkConsumptionStatus partitionId taskNames), inner)
  putSamples inner sampleIds partitionId fields tags :=
    let out := inner.putSamples sampleIds partitionId fields tags
    (.ofExcept out.1, out.2)
  getSamples inner sampleIds partitionId selectFields :=
    (.ofExcept (inner.getSamples sampleIds partitionId selectFields), inner)
  clearSamples inner sampleIds partitionId :=
    (.returned (), inner.clearSamples sampleIds partitionId)
  close inner := (.returned (), inner.close)

/-! ## Statistics -/

/-- How an operation ended. -/
inductive EventStatus
  | ok
  | error
  | timeout
  deriving DecidableEq

/-- What is reported of an operation. -/
structure DataPlaneEvent where
  op : String
  partitionId : String
  nKeys : ℕ
  nBytes : ℕ
  status : EventStatus
  deriving DecidableEq

/-- The statistics of a wrapper. -/
structure DataPlaneStats where
  totalBytes : ℕ := 0
  totalKeys : ℕ := 0
  totalOps : ℕ := 0
  bytesOutstanding : ℤ := 0
  peakBytesOutstanding : ℤ := 0
  maxBytesPerKeySeen : ℕ := 0
  lastPutBytesPerKey : ℕ := 0

/-- A wrapper around a client: its statistics, the bytes held for each sample of each partition, and
the events reported, latest first. -/
structure MetricsClient (σ : Type) where
  inner : σ
  stats : DataPlaneStats := {}
  bytesByPartition : List (String × List (String × ℕ)) := []
  events : List DataPlaneEvent := []

/-- The bytes of named tensors. -/
def tdBytes (elementSize : Leaf α → ℕ) (td : TensorDict α) : ℕ :=
  (td.map fun field => (field.2.rows.map fun row => row.data.length).sum * elementSize field.2).sum

namespace MetricsClient

/-- The number of samples for which bytes are held. -/
def nKeysOutstanding (self : MetricsClient σ) : ℕ :=
  (self.bytesByPartition.map fun p => p.2.length).sum

/-- The bytes held in each partition. -/
def bytesOutstandingByPartition (self : MetricsClient σ) : List (String × ℕ) :=
  self.bytesByPartition.map fun p => (p.1, total p.2)

/-- Report an event, and count it when the operation returned. -/
def emit (self : MetricsClient σ) (op partitionId : String) (nKeys nBytes : ℕ)
    (status : EventStatus) : MetricsClient σ :=
  let self := { self with events := ⟨op, partitionId, nKeys, nBytes, status⟩ :: self.events }
  if status ≠ .ok then self
  else
    let stats := { self.stats with
      totalBytes := self.stats.totalBytes + nBytes
      totalKeys := self.stats.totalKeys + nKeys
      totalOps := self.stats.totalOps + 1 }
    if op = "put" ∧ nKeys ≠ 0 then
      let perKey := nBytes / nKeys
      { self with stats := { stats with
          lastPutBytesPerKey := perKey
          maxBytesPerKeySeen := max stats.maxBytesPerKeySeen perKey } }
    else { self with stats := stats }

/-- What sample `i` of a put is given of its bytes. -/
def share (nBytes nKeys i : ℕ) : ℕ := nBytes / nKeys + if i < nBytes % nKeys then 1 else 0

/-- Spread the bytes of a put over its samples. -/
def recordPut (self : MetricsClient σ) (partitionId : String) (keys : List String) (nBytes : ℕ) :
    MetricsClient σ :=
  if keys = [] ∨ nBytes = 0 then self
  else
    let partitionDict := addAll ((self.bytesByPartition.lookup partitionId).getD [])
      (keys.zipIdx.map fun q => (q.1, share nBytes keys.length q.2))
    let outstanding := self.stats.bytesOutstanding + nBytes
    { self with
      bytesByPartition := dictSet self.bytesByPartition partitionId partitionDict
      stats := { self.stats with
        bytesOutstanding := outstanding
        peakBytesOutstanding := max self.stats.peakBytesOutstanding outstanding } }

/-- Take the bytes of keys out of a dictionary, one key after the other. -/
def popBytes (keys : List String) (d : List (String × ℕ)) : ℕ × List (String × ℕ) :=
  keys.foldl (fun acc key => (acc.1 + (acc.2.lookup key).getD 0, popAll acc.2 [key])) (0, d)

/-- Take off the bytes of samples, or of a whole partition. -/
def recordClear (self : MetricsClient σ) (partitionId : String) (keys : Option (List String)) :
    MetricsClient σ :=
  match self.bytesByPartition.lookup partitionId, keys with
  | none, _ => self
  | some partitionDict, none =>
    { self with
      bytesByPartition := popAll self.bytesByPartition [partitionId]
      stats := { self.stats with
        bytesOutstanding := self.stats.bytesOutstanding - total partitionDict } }
  | some partitionDict, some keys =>
    let freed := popBytes keys partitionDict
    { self with
      bytesByPartition :=
        if freed.2 = [] then popAll self.bytesByPartition [partitionId]
        else dictSet self.bytesByPartition partitionId freed.2
      stats := { self.stats with bytesOutstanding := self.stats.bytesOutstanding - freed.1 } }

/-- Report how an operation of the inner client ended. `keys` and `bytes` say what is reported of one
that returned. -/
def report {ρ : Type} (self : MetricsClient σ) (op partitionId : String) (out : Outcome ρ × σ)
    (nKeys nBytes : ℕ) (keys bytes : ρ → ℕ) : MetricsClient σ :=
  let self := { self with inner := out.2 }
  match out.1 with
  | .timedOut _ => self.emit op partitionId nKeys nBytes .timeout
  | .raised _ => self.emit op partitionId nKeys nBytes .error
  | .returned out => self.emit op partitionId (keys out) (bytes out) .ok

end MetricsClient

/-! ## Operations -/

/-- An operation of a client. -/
inductive ClientOp (α : Type)
  | register (partitionId : String) (numSamples : ℕ) (consumerTasks : List String)
  | claim (partitionId taskName : String) (requiredFields : List String) (batchSize : ℤ)
  | getData (batch : KVBatchMeta) (selectFields : Option (List String))
  | check (partitionId : String) (taskNames : List String)
  | put (sampleIds : List String) (partitionId : String) (fields : Option (TensorDict α))
      (tags : Option (List Tag))
  | get (sampleIds : List String) (partitionId : String) (selectFields : List String)
  | clear (sampleIds : Option (List String)) (partitionId : String)
  | close

namespace MetricsClient
variable (client : InnerClient α σ) (elementSize : Leaf α → ℕ)

/-- The wrapper after a put. -/
def putSamples (self : MetricsClient σ) (sampleIds : List String) (partitionId : String)
    (fields : Option (TensorDict α)) (tags : Option (List Tag)) : MetricsClient σ :=
  let nBytes := (fields.map (tdBytes elementSize)).getD 0
  let out := client.putSamples self.inner sampleIds partitionId fields tags
  let keys := fun batch : KVBatchMeta =>
    if sampleIds = [] then batch.sampleIds.length else sampleIds.length
  let self := self.report "put" partitionId out sampleIds.length nBytes keys fun _ => nBytes
  match out.1 with
  | .returned _ => self.recordPut partitionId sampleIds nBytes
  | _ => self

/-- The wrapper after a clear. -/
def clearSamples (self : MetricsClient σ) (sampleIds : Option (List String))
    (partitionId : String) : MetricsClient σ :=
  let nKeys := (sampleIds.map List.length).getD 0
  let out := client.clearSamples self.inner sampleIds partitionId
  let self := self.report "clear" partitionId out nKeys 0 (fun _ => nKeys) fun _ => 0
  match out.1 with
  | .returned _ => self.recordClear partitionId sampleIds
  | _ => self

/-- The wrapper after an operation. -/
def run (self : MetricsClient σ) : ClientOp α → MetricsClient σ
  | .register partitionId numSamples consumerTasks =>
    self.report "register" partitionId
      (client.registerPartition self.inner partitionId consumerTasks) numSamples 0
      (fun _ => numSamples) fun _ => 0
  | .claim partitionId taskName requiredFields batchSize =>
    self.report "claim_meta" partitionId
      (client.claimMeta self.inner partitionId taskName requiredFields batchSize) 0 0
      (fun batch => batch.sampleIds.length) fun _ => 0
  | .getData batch selectFields =>
    self.report "get_data" batch.partitionId (client.getData self.inner batch selectFields)
      batch.sampleIds.length 0 (fun _ => batch.sampleIds.length) (tdBytes elementSize)
  | .check partitionId taskNames =>
    self.report "check_consumption_status" partitionId
      (client.checkConsumptionStatus self.inner partitionId taskNames) 0 0 (fun _ => 0) fun _ => 0
  | .put sampleIds partitionId fields tags =>
    self.putSamples client elementSize sampleIds partitionId fields tags
  | .get sampleIds partitionId selectFields =>
    self.report "get" partitionId
      (client.getSamples self.inner sampleIds partitionId selectFields) sampleIds.length 0
      (fun _ => sampleIds.length) (tdBytes elementSize)
  | .clear sampleIds partitionId => self.clearSamples client sampleIds partitionId
  | .close =>
    self.report "close" "" (client.close self.inner) 0 0 (fun _ => 0) fun _ => 0

end MetricsClient

/-- The wrapper as a system: the inner client begins in any of some states, and any operation may
come next. -/
def metricsSystem (client : InnerClient α σ) (elementSize : Leaf α → ℕ) (init : σ → Prop) :
    System (MetricsClient σ) (ClientOp α) where
  init s := ∃ inner, init inner ∧ s = { inner := inner }
  step s op := some (s.run client elementSize op)

end NemoRL.DataPlane
