import NemoRL.AsyncUtils.ReplayBuffer
import NemoRL.Lib.Transition
import Mathlib.Data.Finset.Basic
import Mathlib.Logic.Function.Basic

/-!
# Asynchronous GRPO

The trainer, the collector and the replay buffer are actors. The collector has one thread that
loops over the batches of the dataloader and a worker thread for every prompt group that is being
generated. Each call of a method of the replay buffer is one step, and so are each block under a
lock of the collector, each read or write of the weight version and each operation on an event or
a semaphore. The calls that the trainer sends to the collector are executed in order.

The loop looks for a target weight that still needs groups, reserves it, and starts the workers
for it. A worker generates its group, or fails, and puts the group into the buffer. The
reservation is released by whoever finds that all started workers are completed: first the
counters of the target are dropped, and then, under another lock, the reservation.

## Main definitions

* `Collector` — what the threads of the collector share.
* `LoopPc`, `loopStep` — the collection loop.
* `WorkerPc`, `workerStep` — a worker.
* `TrainerPc`, `trainerStep` — the trainer.
* `startBuffer` — the buffer that the training starts with.
* `asyncGrpo` — the system of all of them.
-/

namespace NemoRL.AsyncUtils

open Lib

/-- The settings of asynchronous GRPO that are read here. -/
structure AsyncConfig where
  numPromptsPerStep : ℕ
  maxTrajectoryAgeSteps : ℕ
  /-- The backend has an async engine and its weights are updated in flight. -/
  inFlightWeightUpdates : Bool
  deriving DecidableEq, Repr

/-- The number of prompt groups that are generated at one time. -/
def AsyncConfig.maxInflight (cfg : AsyncConfig) : ℕ :=
  let product := cfg.numPromptsPerStep * cfg.maxTrajectoryAgeSteps
  if product = 0 then 1 else product

/-- What the threads of the collector share. A key that a dictionary of counters lacks counts as
zero. A thread is known by its number. -/
structure Collector where
  currentWeightVersion : ℤ
  initialWeightVersion : ℤ
  generatingTargets : Finset ℤ
  spawnedPerTarget : ℤ → ℕ
  bufferedPerTarget : ℤ → ℕ
  completedPerTarget : ℤ → ℕ
  spawningTargets : Finset ℤ
  /-- The value of the semaphore. -/
  inflightSema : ℕ
  inflightThreads : Finset ℕ
  manualPauseCleared : Bool
  refitPauseCleared : Bool
  generationLimitCleared : Bool
  lastLimitWarningVersion : Option ℤ
  running : Bool

/-- A new collector that is started. -/
def Collector.init (cfg : AsyncConfig) (startStep : ℤ) : Collector where
  currentWeightVersion := startStep
  initialWeightVersion := startStep
  generatingTargets := ∅
  spawnedPerTarget := fun _ => 0
  bufferedPerTarget := fun _ => 0
  completedPerTarget := fun _ => 0
  spawningTargets := ∅
  inflightSema := cfg.maxInflight
  inflightThreads := ∅
  manualPauseCleared := true
  refitPauseCleared := true
  generationLimitCleared := true
  lastLimitWarningVersion := none
  running := true

/-- The targets that a weight version can generate for. -/
def calculateTargetWeights (cfg : AsyncConfig) (initialWeightVersion generationWeightVersion : ℤ) :
    List ℤ :=
  if generationWeightVersion = initialWeightVersion then
    (List.range (cfg.maxTrajectoryAgeSteps + 1)).map fun i : ℕ => initialWeightVersion + i
  else (List.range' 1 cfg.maxTrajectoryAgeSteps).map fun i : ℕ => generationWeightVersion + i

/-- The groups a target still needs, as the buffer answers. -/
def trajectoriesNeeded {α : Type*} (cfg : AsyncConfig) (buffer : ReplayBufferImpl α)
    (target : ℤ) : ℕ :=
  buffer.getTrajectoriesNeeded target cfg.numPromptsPerStep (some cfg.maxTrajectoryAgeSteps)

namespace Collector

/-- The first block of a release: the counters of a target are dropped, unless its workers are
still being spawned or not all of them are completed. -/
def dropCounters (c : Collector) (target : ℤ) : Option Collector :=
  if target ∈ c.spawningTargets then none
  else if c.completedPerTarget target < c.spawnedPerTarget target then none
  else some { c with
    spawnedPerTarget := Function.update c.spawnedPerTarget target 0
    bufferedPerTarget := Function.update c.bufferedPerTarget target 0
    completedPerTarget := Function.update c.completedPerTarget target 0
    spawningTargets := c.spawningTargets.erase target }

/-- The second block of a release. -/
def discardTarget (c : Collector) (target : ℤ) : Collector :=
  { c with generatingTargets := c.generatingTargets.erase target }

/-- Forget the threads that have finished, or were not started. -/
def removeFinished (c : Collector) (alive : ℕ → Bool) : Collector :=
  { c with inflightThreads := c.inflightThreads.filter fun i => alive i }

end Collector

/-! ## The collection loop -/

/-- What happens after a target is released: the batch is done, or an exception is handled, or
it was handled. -/
inductive Ending
  | normal
  | raised
  | handled
  deriving DecidableEq, Repr

/-- Where the collection loop is, with the variables in use there: the size of the batch, the
weight version of the new groups, the target, and how many workers are still to be started. -/
inductive LoopPc
  | fetch
  | manualPause (batch : ℕ)
  | refitPause (batch : ℕ)
  /-- Before the version is read for the decision to pause. -/
  | decide (batch : ℕ)
  | decideLast (batch : ℕ) (targets : List ℤ)
  /-- Under the lock of the reservations. -/
  | decideScan (batch : ℕ) (lastConsumed : ℤ) (targets : List ℤ)
  | checkWarned (batch : ℕ)
  | setWarned (batch : ℕ)
  | clearLimit (batch : ℕ)
  | limitPause (batch : ℕ)
  /-- Before the version is read for a batch. -/
  | processBatch (batch : ℕ)
  | readLast (batch : ℕ) (version : ℤ)
  /-- Under the lock of the reservations. -/
  | reserve (batch : ℕ) (version lastConsumed : ℤ) (targets : List ℤ)
  | readNeeded (batch : ℕ) (version target : ℤ)
  | unreserve (target : ℤ)
  | openSpawning (version target : ℤ) (remaining : ℕ)
  | checkRefit (version target : ℤ) (remaining : ℕ)
  | waitRefit (target : ℤ) (remaining : ℕ)
  | readVersion (target : ℤ) (remaining : ℕ)
  | acquire (version target : ℤ) (remaining : ℕ)
  | addThread (version target : ℤ) (remaining : ℕ)
  | addSpawned (version target : ℤ) (remaining : ℕ)
  | start (version target : ℤ) (remaining : ℕ)
  | undoThread (target : ℤ)
  | undoSpawned (target : ℤ)
  | undoAcquire (target : ℤ)
  | close (target : ℤ) (ending : Ending)
  | release (target : ℤ) (ending : Ending)
  | discard (target : ℤ) (ending : Ending)
  | cleanup
  | stopped
  deriving DecidableEq, Repr

/-- The loop holds the lock of the reservations. -/
def LoopPc.locked : LoopPc → Bool
  | .decideScan .. => true
  | .reserve .. => true
  | _ => false

/-- A worker thread that the loop starts, with the version and the target of its group. -/
structure Spawn where
  version : ℤ
  target : ℤ
  deriving DecidableEq, Repr

/-- What a step of the loop depends on beside the shared variables. -/
inductive LoopAction
  /-- The step that the variables determine. -/
  | run
  /-- The dataloader gives a batch of some size, or has no more. -/
  | next (batch : Option ℕ)
  /-- A call raises. -/
  | fail
  deriving DecidableEq, Repr

/-- What follows the release of a target. -/
def Ending.next (target : ℤ) : Ending → LoopPc
  | .normal => .cleanup
  | .raised => .close target .handled
  | .handled => .fetch

/-- The step of the loop that the variables determine. The result is what the threads share
after it, where the loop is, and the worker that was started. -/
def loopRun {α : Type*} (cfg : AsyncConfig) (buffer : ReplayBufferImpl α) (newThread : ℕ)
    (alive : ℕ → Bool) (c : Collector) : LoopPc → Option (Collector × LoopPc × Option Spawn)
  | .fetch => none
  | .manualPause batch => if c.manualPauseCleared then some (c, .refitPause batch, none) else none
  | .refitPause batch => if c.refitPauseCleared then some (c, .decide batch, none) else none
  | .decide batch =>
    let targets := calculateTargetWeights cfg c.initialWeightVersion c.currentWeightVersion
    some (c, .decideLast batch targets, none)
  | .decideLast batch targets =>
    some (c, .decideScan batch buffer.lastTargetWeightAlreadyGenerated targets, none)
  | .decideScan batch _ [] => some (c, .checkWarned batch, none)
  | .decideScan batch lastConsumed (target :: targets) =>
    if target ≤ lastConsumed then some (c, .decideScan batch lastConsumed targets, none)
    else if target ∈ c.generatingTargets then
      some (c, .decideScan batch lastConsumed targets, none)
    else if 0 < trajectoriesNeeded cfg buffer target then some (c, .processBatch batch, none)
    else some (c, .decideScan batch lastConsumed targets, none)
  | .checkWarned batch =>
    if c.lastLimitWarningVersion = some c.currentWeightVersion then
      some (c, .limitPause batch, none)
    else some (c, .setWarned batch, none)
  | .setWarned batch =>
    some ({ c with lastLimitWarningVersion := some c.currentWeightVersion }, .clearLimit batch,
      none)
  | .clearLimit batch =>
    some ({ c with generationLimitCleared := false }, .limitPause batch, none)
  | .limitPause batch =>
    if c.generationLimitCleared then some (c, .processBatch batch, none) else none
  | .processBatch batch => some (c, .readLast batch c.currentWeightVersion, none)
  | .readLast batch version =>
    let targets := calculateTargetWeights cfg c.initialWeightVersion version
    some (c, .reserve batch version buffer.lastTargetWeightAlreadyGenerated targets, none)
  | .reserve _ _ _ [] => some (c, .fetch, none)
  | .reserve batch version lastConsumed (target :: targets) =>
    if target ≤ lastConsumed then some (c, .reserve batch version lastConsumed targets, none)
    else if target ∈ c.generatingTargets then
      some (c, .reserve batch version lastConsumed targets, none)
    else if 0 < trajectoriesNeeded cfg buffer target then
      some ({ c with generatingTargets := insert target c.generatingTargets },
        .readNeeded batch version target, none)
    else some (c, .reserve batch version lastConsumed targets, none)
  | .readNeeded batch version target =>
    let numPromptsToGenerate := min batch (trajectoriesNeeded cfg buffer target)
    if numPromptsToGenerate = 0 then some (c, .unreserve target, none)
    else some (c, .openSpawning version target numPromptsToGenerate, none)
  | .unreserve target => some (c.discardTarget target, .fetch, none)
  | .openSpawning version target remaining =>
    some ({ c with spawningTargets := insert target c.spawningTargets },
      .checkRefit version target remaining, none)
  | .checkRefit _ target 0 => some (c, .close target .normal, none)
  | .checkRefit version target (remaining + 1) =>
    if c.refitPauseCleared then some (c, .acquire version target remaining, none)
    else some (c, .waitRefit target remaining, none)
  | .waitRefit target remaining =>
    if c.refitPauseCleared then some (c, .readVersion target remaining, none) else none
  | .readVersion target remaining =>
    some (c, .acquire c.currentWeightVersion target remaining, none)
  | .acquire version target remaining =>
    if 0 < c.inflightSema then
      some ({ c with inflightSema := c.inflightSema - 1 }, .addThread version target remaining,
        none)
    else none
  | .addThread version target remaining =>
    some ({ c with inflightThreads := insert newThread c.inflightThreads },
      .addSpawned version target remaining, none)
  | .addSpawned version target remaining =>
    let spawned := c.spawnedPerTarget target + 1
    let c := { c with spawnedPerTarget := Function.update c.spawnedPerTarget target spawned }
    some (c, .start version target remaining, none)
  | .start version target remaining =>
    some (c, .checkRefit version target remaining, some ⟨version, target⟩)
  | .undoThread target =>
    some ({ c with inflightThreads := c.inflightThreads.erase newThread }, .undoSpawned target,
      none)
  | .undoSpawned target =>
    let spawned := c.spawnedPerTarget target - 1
    let c := { c with spawnedPerTarget := Function.update c.spawnedPerTarget target spawned }
    some (c, .undoAcquire target, none)
  | .undoAcquire target =>
    some ({ c with inflightSema := c.inflightSema + 1 }, .close target .raised, none)
  | .close target ending =>
    some ({ c with spawningTargets := c.spawningTargets.erase target }, .release target ending,
      none)
  | .release target ending =>
    match c.dropCounters target with
    | none => some (c, ending.next target, none)
    | some c => some (c, .discard target ending, none)
  | .discard target ending => some (c.discardTarget target, ending.next target, none)
  | .cleanup => some (c.removeFinished alive, .fetch, none)
  | .stopped => none

/-- The loop after a call that raised. While it decides whether to pause, this means not to
pause. While it looks for a target nothing is reserved yet. -/
def loopFail : LoopPc → Option LoopPc
  | .decideLast batch _ => some (.processBatch batch)
  | .decideScan batch _ _ => some (.processBatch batch)
  | .readLast _ _ => some .fetch
  | .reserve _ _ _ _ => some .fetch
  | .readNeeded _ _ target => some (.close target .handled)
  | .acquire _ target _ => some (.close target .raised)
  | .start _ target _ => some (.undoThread target)
  | _ => none

/-- A step of the collection loop. -/
def loopStep {α : Type*} (cfg : AsyncConfig) (buffer : ReplayBufferImpl α) (newThread : ℕ)
    (alive : ℕ → Bool) (c : Collector) (pc : LoopPc) :
    LoopAction → Option (Collector × LoopPc × Option Spawn)
  | .run => loopRun cfg buffer newThread alive c pc
  | .next none => if pc = .fetch then some ({ c with running := false }, .stopped, none) else none
  | .next (some batch) => if pc = .fetch then some (c, .manualPause batch, none) else none
  | .fail => (loopFail pc).map fun pc => (c, pc, none)

/-! ## Workers -/

/-- Where a worker is. -/
inductive WorkerPc (α : Type*)
  | generate
  | checkRunning (group : α)
  | add (group : α)
  | countBuffered
  | countCompleted
  | release
  | discard
  | detach
  | freeSema
  | done
  deriving DecidableEq, Repr

/-- The thread has finished. -/
def WorkerPc.isDone {α : Type*} : WorkerPc α → Bool
  | .done => true
  | _ => false

/-- A worker thread. -/
structure Worker (α : Type*) where
  version : ℤ
  target : ℤ
  pc : WorkerPc α
  deriving DecidableEq, Repr

/-- What a step of a worker depends on beside the shared variables. -/
inductive WorkerAction (α : Type*)
  | run
  /-- The rollout gives a group. -/
  | generated (group : α)
  /-- The rollout or the call of the buffer raises. -/
  | fail
  deriving DecidableEq, Repr

/-- The step of a worker that the variables determine. A worker has to wait for the lock of the
reservations while the loop holds it. -/
def workerRun {α : Type*} (thread : ℕ) (locked : Bool) (buffer : ReplayBufferImpl α)
    (c : Collector) (w : Worker α) : Option (ReplayBufferImpl α × Collector × Worker α) :=
  match w.pc with
  | .generate => none
  | .checkRunning group =>
    some (buffer, c, { w with pc := if c.running then .add group else .countCompleted })
  | .add group =>
    match buffer.add group w.version w.target with
    | (.success, buffer) => some (buffer, c, { w with pc := .countBuffered })
    | (.full, buffer) => some (buffer, c, { w with pc := .checkRunning group })
  | .countBuffered =>
    let buffered := c.bufferedPerTarget w.target + 1
    let c := { c with bufferedPerTarget := Function.update c.bufferedPerTarget w.target buffered }
    some (buffer, c, { w with pc := .countCompleted })
  | .countCompleted =>
    let completed := c.completedPerTarget w.target + 1
    let c := { c with
      completedPerTarget := Function.update c.completedPerTarget w.target completed }
    some (buffer, c, { w with pc := .release })
  | .release =>
    match c.dropCounters w.target with
    | none => some (buffer, c, { w with pc := .detach })
    | some c => some (buffer, c, { w with pc := .discard })
  | .discard =>
    if locked then none else some (buffer, c.discardTarget w.target, { w with pc := .detach })
  | .detach =>
    some (buffer, { c with inflightThreads := c.inflightThreads.erase thread },
      { w with pc := .freeSema })
  | .freeSema => some (buffer, { c with inflightSema := c.inflightSema + 1 }, { w with pc := .done })
  | .done => none

/-- A step of a worker. -/
def workerStep {α : Type*} (thread : ℕ) (locked : Bool) (buffer : ReplayBufferImpl α)
    (c : Collector) (w : Worker α) :
    WorkerAction α → Option (ReplayBufferImpl α × Collector × Worker α)
  | .run => workerRun thread locked buffer c w
  | .generated group =>
    match w.pc with
    | .generate => some (buffer, c, { w with pc := .checkRunning group })
    | _ => none
  | .fail =>
    match w.pc with
    | .generate => some (buffer, c, { w with pc := .countCompleted })
    | .add _ => some (buffer, c, { w with pc := .countCompleted })
    | _ => none

/-! ## The trainer and its calls -/

/-- A call that the trainer sends to the collector. Setting the weight version wakes the loop in
a step of its own. -/
inductive Call
  | setWeightVersion (version : ℤ)
  | wakeCollection
  | resumeAfterRefit
  | pause
  | resume
  deriving DecidableEq, Repr

/-- The collector executes a call. What is left of the call is executed next. -/
def Call.execute (c : Collector) : Call → Collector × List Call
  | .setWeightVersion version => ({ c with currentWeightVersion := version }, [.wakeCollection])
  | .wakeCollection => ({ c with generationLimitCleared := true }, [])
  | .resumeAfterRefit => ({ c with refitPauseCleared := true }, [])
  | .pause => ({ c with manualPauseCleared := false }, [])
  | .resume => ({ c with manualPauseCleared := true }, [])

/-- Where the trainer is. -/
inductive TrainerPc
  | sampling
  | training
  /-- New generations are paused, and pending ones may have to be waited for. -/
  | preparing
  | refit
  /-- Between two steps. -/
  | synced
  | validating
  | failed
  deriving DecidableEq, Repr

/-- What the trainer does. -/
inductive TrainerAction
  | run
  /-- Validate before the next step. -/
  | validate
  deriving DecidableEq, Repr

/-- What the trainer knows and has sent. -/
structure Trainer where
  pc : TrainerPc
  weightVersion : ℤ
  /-- The calls that the collector has not executed yet. -/
  calls : List Call
  deriving DecidableEq, Repr

/-- A step of the trainer. The preparation of a refit is a call that the trainer waits for: it is
executed after the calls that were sent before. -/
def trainerStep {α : Type*} (cfg : AsyncConfig) (alive : ℕ → Bool) (buffer : ReplayBufferImpl α)
    (c : Collector) (t : Trainer) :
    TrainerAction → Option (ReplayBufferImpl α × Collector × Trainer)
  | .run =>
    match t.pc with
    | .sampling =>
      match buffer.sample cfg.numPromptsPerStep t.weightVersion cfg.maxTrajectoryAgeSteps with
      | (.ok (some _), buffer) => some (buffer, c, { t with pc := .training })
      | (.ok none, buffer) => some (buffer, c, t)
      | (.error _, buffer) => some (buffer, c, { t with pc := .failed })
    | .training =>
      if t.calls = [] then
        some (buffer, { c with refitPauseCleared := false }, { t with pc := .preparing })
      else none
    | .preparing =>
      if cfg.inFlightWeightUpdates then some (buffer, c, { t with pc := .refit })
      else
        let c := c.removeFinished alive
        some (buffer, c, if c.inflightThreads = ∅ then { t with pc := .refit } else t)
    | .refit =>
      let weightVersion := t.weightVersion + 1
      let calls := t.calls ++ [.setWeightVersion weightVersion, .resumeAfterRefit]
      some (buffer, c, ⟨.synced, weightVersion, calls⟩)
    | .synced => some (buffer, c, { t with pc := .sampling })
    | .validating => some (buffer, c, { t with pc := .sampling, calls := t.calls ++ [.resume] })
    | .failed => none
  | .validate =>
    if t.pc = .synced then
      some (buffer, c, { t with pc := .validating, calls := t.calls ++ [.pause] })
    else none

/-! ## The system -/

/-- The state of all actors. -/
structure AsyncState (α : Type*) where
  buffer : ReplayBufferImpl α
  collector : Collector
  loop : LoopPc
  /-- The workers that were started, in order. -/
  workers : List (Worker α)
  trainer : Trainer

/-- A step of one of the threads. -/
inductive AsyncAction (α : Type*)
  | loop (a : LoopAction)
  | worker (thread : ℕ) (a : WorkerAction α)
  | call
  | trainer (a : TrainerAction)
  deriving DecidableEq, Repr

namespace AsyncState
variable {α : Type*}

/-- A worker was started and has not finished. -/
def alive (s : AsyncState α) (thread : ℕ) : Bool :=
  s.workers[thread]?.any fun w => !w.pc.isDone

/-- The state after the start of the collection. -/
def init (cfg : AsyncConfig) (buffer : ReplayBufferImpl α) (startStep : ℤ) : AsyncState α where
  buffer := buffer
  collector := .init cfg startStep
  loop := .fetch
  workers := []
  trainer := ⟨.synced, startStep, [.setWeightVersion startStep]⟩

/-- A step of one thread. -/
def step (cfg : AsyncConfig) (s : AsyncState α) :
    AsyncAction α → Option (AsyncState α)
  | .loop a =>
    (loopStep cfg s.buffer s.workers.length s.alive s.collector s.loop a).map
      fun (c, pc, spawn) =>
        { s with
          collector := c
          loop := pc
          workers := s.workers ++ spawn.toList.map fun w => ⟨w.version, w.target, .generate⟩ }
  | .worker thread a =>
    s.workers[thread]?.bind fun w =>
      (workerStep thread s.loop.locked s.buffer s.collector w a).map fun (buffer, c, w) =>
        { s with buffer := buffer, collector := c, workers := s.workers.set thread w }
  | .call =>
    match s.trainer.calls with
    | [] => none
    | call :: calls =>
      let (c, rest) := call.execute s.collector
      some { s with collector := c, trainer := { s.trainer with calls := rest ++ calls } }
  | .trainer a =>
    (trainerStep cfg s.alive s.buffer s.collector s.trainer a).map fun (buffer, c, t) =>
      { s with buffer := buffer, collector := c, trainer := t }

end AsyncState

/-- The buffer that the training starts with: an empty one, or what is restored of a checkpoint
for the step that is resumed. -/
def startBuffer {α : Type*} (cfg : AsyncConfig) (checkpoint : Option (CheckpointState α))
    (startStep : ℕ) : Except PyError (ReplayBufferImpl α) :=
  let lateArrivalSlack := 2
  let optimalBufferSize := cfg.numPromptsPerStep * cfg.maxTrajectoryAgeSteps * lateArrivalSlack
  match ReplayBufferImpl.init optimalBufferSize, checkpoint with
  | .error e, _ => .error e
  | .ok buffer, none => .ok buffer
  | .ok buffer, some state =>
    match buffer.loadStateDict state (some cfg.numPromptsPerStep) (some startStep)
        (some cfg.maxTrajectoryAgeSteps) with
    | (.ok _, buffer) => .ok buffer
    | (.error e, _) => .error e

/-- Asynchronous GRPO from a training step on. -/
def asyncGrpo {α : Type*} (cfg : AsyncConfig) (checkpoint : Option (CheckpointState α))
    (startStep : ℕ) : System (AsyncState α) (AsyncAction α) where
  init s := ∃ buffer, startBuffer cfg checkpoint startStep = .ok buffer ∧
    s = .init cfg buffer startStep
  step := AsyncState.step cfg

end NemoRL.AsyncUtils
