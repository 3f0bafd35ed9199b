import NemoRL.Distributed.NamedSharding
import NemoRL.Lib.Except

/-!
# Calling all workers with sharded data

A method is called on the workers with the part of the data that belongs to their coordinates.
Values put into the object store come out as they were. A call to a worker returns a result or
a stream of them.

## Main definitions

* `RayWorkerGroup.runAllWorkersShardedData` — the calls.
* `MultiWorkerFuture.getResults` — their results.
-/

namespace NemoRL.Distributed

open Lib

/-- An argument: an item, or a list of values along a sharded axis. An item is not indexed
further. -/
inductive Value (A : Type)
  | item (a : A)
  | list (values : List (Value A))

/-- What a call to a worker returns. -/
inductive Future (R : Type)
  | ref (result : R)
  | generator (chunks : List R)
  deriving DecidableEq, Repr

/-- The calls to several workers. -/
structure MultiWorkerFuture (R : Type) where
  futures : List (Future R)
  returnFromWorkers : Option (List ℕ) := none
  calledWorkers : Option (List ℕ) := none
  deriving DecidableEq, Repr

/-- A group of workers. A call is given a worker, a method and keyword arguments, of which
those of dummy calls are `none`. -/
structure RayWorkerGroup (A R : Type) where
  workers : ℕ
  shardingAnnotations : Option NamedSharding
  remote : ℕ → String → List (String × Option (Value A)) → Future R

variable {A R : Type}

/-! ## Results -/

namespace MultiWorkerFuture
variable (self : MultiWorkerFuture R)

/-- The results that a future resolves to. -/
def resolve : Future R → List R
  | .ref result => [result]
  | .generator chunks => chunks

/-- Whether a future has streamed results. -/
def streams : Future R → Bool
  | .ref _ => false
  | .generator chunks => !chunks.isEmpty

/-- The result at a position. -/
def resultAt {α : Type} (results : List α) (i : ℕ) : Except PyError α :=
  match results[i]? with
  | none => .error ⟨.indexError, "list index out of range"⟩
  | some result => .ok result

/-- The results of the workers that return one. Streamed results are all returned. -/
def getResults : Except PyError (List R) :=
  let allResults := self.futures.flatMap resolve
  if self.futures.any streams then .ok allResults
  else
    match self.returnFromWorkers, self.calledWorkers with
    | none, _ => .ok allResults
    | some returnFromWorkers, some calledWorkers =>
      let workerToResultIdx : List (ℕ × ℕ) :=
        calledWorkers.zipIdx.foldl (fun d p => dictSet d p.1 p.2) []
      (returnFromWorkers.filterMap fun worker => workerToResultIdx.lookup worker).mapM
        (resultAt allResults)
    | some returnFromWorkers, none => returnFromWorkers.mapM (resultAt allResults)

/-- The calls themselves, for results that are streamed to the caller. -/
def getProxies : Except PyError (List (Future R)) :=
  match self.returnFromWorkers, self.calledWorkers with
  | none, _ => .ok self.futures
  | some returnFromWorkers, some calledWorkers =>
    let calledWorkerToFutureIdx : List (ℕ × ℕ) :=
      calledWorkers.zipIdx.foldl (fun d p => dictSet d p.1 p.2) []
    .ok ((returnFromWorkers.filterMap fun worker => calledWorkerToFutureIdx.lookup worker).filterMap
      fun i => self.futures[i]?)
  | some returnFromWorkers, none =>
    .ok (returnFromWorkers.filterMap fun i => self.futures[i]?)

end MultiWorkerFuture

/-! ## Calls -/

/-- Lists of values down to a depth, with every item put into the object store. -/
def mapNestedValueList : ℕ → Value A → Except PyError (Value A)
  | 0, value => .ok value
  | _ + 1, .item _ => .error ⟨.typeError, "object is not iterable"⟩
  | depth + 1, .list values => do
    let values ← values.mapM (mapNestedValueList depth)
    return .list values

/-- The value for a coordinate. -/
def Value.getItem (coord : ℕ) : Value A → Except PyError (Value A)
  | .item _ => .error ⟨.typeError, "object is not subscriptable"⟩
  | .list values => MultiWorkerFuture.resultAt values coord

/-- The value for the coordinates along some axes. -/
def sliceValue (workerCoords : List (String × ℕ)) :
    List String → Value A → Except PyError (Value A)
  | [], value => .ok value
  | axis :: axes, value =>
    match workerCoords.lookup axis with
    | none => sliceValue workerCoords axes value
    | some coord => do
      let value ← value.getItem coord
      sliceValue workerCoords axes value

/-- How the axes of a call are used. -/
structure CallAxes where
  inShardedAxes : List String
  replicateOnAxes : List String
  outputIsReplicated : List String
  deriving DecidableEq, Repr

/-- Whether a worker receives data, and whether its result is returned. -/
def workerFlags (axes : CallAxes) (workerCoords : List (String × ℕ)) :
    List String → Bool → Bool × Bool
  | [], returns => (true, returns)
  | axis :: names, returns =>
    match workerCoords.lookup axis with
    | none => workerFlags axes workerCoords names returns
    | some coord =>
      if axis ∉ axes.inShardedAxes ∧ axis ∉ axes.replicateOnAxes ∧ coord ≠ 0 then (false, false)
      else if axis ∈ axes.outputIsReplicated ∧ coord ≠ 0 then
        workerFlags axes workerCoords names false
      else workerFlags axes workerCoords names returns

namespace RayWorkerGroup
variable (self : RayWorkerGroup A R) (methodName : String)

/-- Call a worker. A keyword can be given once. -/
def call (worker : ℕ) (kwargs : List (String × Option (Value A)))
    (commonKwargs : List (String × Value A)) : Except PyError (Future R) :=
  match commonKwargs.find? fun p => p.1 ∈ kwargs.map Prod.fst with
  | some (key, _) => .error ⟨.typeError, s!"got multiple values for keyword argument '{key}'"⟩
  | none => .ok (self.remote worker methodName
      (kwargs ++ commonKwargs.map fun p => (p.1, some p.2)))

/-- The calls so far. -/
structure Calls (R : Type) where
  futures : List (Future R)
  calledWorkers : List ℕ
  returnFromWorkers : List ℕ
  deriving DecidableEq, Repr

/-- The call to the next worker. -/
def callWorker (sharding : NamedSharding) (axes : CallAxes) (makeDummyCallsToFreeAxes : Bool)
    (kwargs commonKwargs : List (String × Value A)) (calls : Calls R) (worker : ℕ) :
    Except PyError (Calls R) := do
  let workerCoords ← sharding.getWorkerCoords worker
  let flags := workerFlags axes workerCoords sharding.names true
  let returnFromWorkers :=
    if flags.2 then calls.returnFromWorkers ++ [worker] else calls.returnFromWorkers
  if flags.1 then
    let workerKwargs ← kwargs.mapM fun p =>
      (sliceValue workerCoords axes.inShardedAxes p.2).map fun value => (p.1, some value)
    let future ← self.call methodName worker workerKwargs commonKwargs
    return ⟨calls.futures ++ [future], calls.calledWorkers ++ [worker], returnFromWorkers⟩
  else if makeDummyCallsToFreeAxes then
    let future ← self.call methodName worker (kwargs.map fun p => (p.1, none)) commonKwargs
    return ⟨calls.futures ++ [future], calls.calledWorkers ++ [worker], returnFromWorkers⟩
  else return { calls with returnFromWorkers := returnFromWorkers }

/-- Axes that the arrangement has, and that are not used in two ways. -/
def validateAxes (sharding : NamedSharding) (axes : CallAxes) : Except PyError Unit :=
  match (axes.inShardedAxes ++ axes.replicateOnAxes).find? (· ∉ sharding.names) with
  | some axis => .error ⟨.valueError,
      s!"Axis '{axis}' not found in sharding annotations. Valid axes: {sharding.names}"⟩
  | none =>
    match axes.inShardedAxes.filter (· ∈ axes.replicateOnAxes) with
    | [] => .ok ()
    | overlap => .error ⟨.valueError, s!"Axes cannot be both sharded and replicated: {overlap}"⟩

/-- Call a method on all workers with the data of their coordinates. -/
def runAllWorkersShardedData (args : List (Value A)) (axes : CallAxes)
    (makeDummyCallsToFreeAxes : Bool) (commonKwargs kwargs : List (String × Value A)) :
    Except PyError (MultiWorkerFuture R) :=
  if args.length ≠ 0 then
    .error ⟨.assertionError, "run_all_workers_sharded_data will fail with args under certain " ++
      "circumstances. Please use kwargs instead. " ++
      "See https://github.com/NVIDIA-NeMo/RL/issues/582 for more details."⟩
  else
    match self.shardingAnnotations with
    | none => .error ⟨.valueError,
        "Sharding annotations must be provided to use sharded data distribution"⟩
    | some sharding => do
      let replicateDegrees ← axes.replicateOnAxes.mapM sharding.getAxisSize
      let kwargs ← if replicateDegrees.prod > 1 then
          kwargs.mapM fun p =>
            (mapNestedValueList axes.inShardedAxes.length p.2).map fun value => (p.1, value)
        else pure kwargs
      validateAxes sharding axes
      let calls ← (List.range self.workers).foldlM
        (self.callWorker methodName sharding axes makeDummyCallsToFreeAxes kwargs commonKwargs)
        ⟨[], [], []⟩
      return { futures := calls.futures
               calledWorkers := some calls.calledWorkers
               returnFromWorkers := some calls.returnFromWorkers }

end RayWorkerGroup
end NemoRL.Distributed
