import NemoRL.Error
import NemoRL.Lib.Select
import Mathlib.Algebra.Order.Group.Int
import Mathlib.Data.Rat.Defs
import Mathlib.Algebra.Order.Field.Rat

/-!
# The replay buffer of asynchronous GRPO

`ReplayBufferImpl` keeps one entry for each prompt group in three parallel lists:
the trajectory, the weight version that generated it, and the weight version of
the training step it is meant for. The lock of the source makes every method one
atomic step, so a method is a function from the buffer before to the buffer after
and what the call returns.

## Main definitions

* `ReplayBufferImpl` — the three lists, the capacity and the watermark.
* `add`, `sample`, `clear`, `loadStateDict` — the methods that change the buffer.
* `getTrajectoriesNeeded`, `hasCompleteBatch` — the queries of the collector.
-/

namespace NemoRL.AsyncUtils

open Lib

/-- The replay buffer: parallel lists of trajectories, generation versions and
target versions. -/
structure ReplayBufferImpl (α : Type*) where
  maxSize : ℕ
  trajectories : List α
  /-- The weight version used for the generation of each trajectory. -/
  trajectoryVersions : List ℤ
  /-- The weight version of the trainer where each trajectory will be used. -/
  targetWeightVersions : List ℤ
  lastTargetWeightAlreadyGenerated : ℤ
  deriving DecidableEq, Repr

/-- What `add` reports. -/
inductive AddStatus
  | success
  | full
  deriving DecidableEq, Repr

/-- What a successful `sample` returns. -/
structure SampleResult (α : Type*) where
  trajectories : List α
  avgTrajectoryAge : ℚ
  deriving DecidableEq, Repr

/-- A checkpoint as it comes back from disk: any key may be missing. -/
structure CheckpointState (α : Type*) where
  trajectories : Option (List α)
  trajectoryVersions : Option (List ℤ)
  targetWeightVersions : Option (List ℤ)
  lastTargetWeightAlreadyGenerated : Option ℤ
  deriving DecidableEq, Repr

/-- The keys a checkpoint lacks. -/
def CheckpointState.missingKeys {α : Type*} (st : CheckpointState α) : List String :=
  (if st.trajectories.isNone then ["trajectories"] else []) ++
  (if st.trajectoryVersions.isNone then ["trajectory_versions"] else []) ++
  (if st.targetWeightVersions.isNone then ["target_weight_versions"] else []) ++
  (if st.lastTargetWeightAlreadyGenerated.isNone then
    ["last_target_weight_already_generated"] else [])

namespace ReplayBufferImpl
variable {α : Type*}

/-- An empty buffer; a capacity that is not positive is refused. -/
def init (maxSize : ℤ) : Except PyError (ReplayBufferImpl α) :=
  if maxSize ≤ 0 then
    .error ⟨.valueError, s!"max_size must be positive, got {maxSize}"⟩
  else
    .ok ⟨maxSize.toNat, [], [], [], -1⟩

/-- Append one group, unless the buffer is full. The watermark is left alone: a
target is safe to skip only once training has consumed a complete batch for it. -/
def add (b : ReplayBufferImpl α) (trajectory : α) (weightVersion targetWeightVersion : ℤ) :
    AddStatus × ReplayBufferImpl α :=
  if b.maxSize ≤ b.trajectories.length then (.full, b)
  else
    (.success, { b with
      trajectories := b.trajectories ++ [trajectory]
      trajectoryVersions := b.trajectoryVersions ++ [weightVersion]
      targetWeightVersions := b.targetWeightVersions ++ [targetWeightVersion] })

/-- Remove the entries at the given positions from all three lists. -/
def removeIndices (b : ReplayBufferImpl α) (indices : List ℕ) : ReplayBufferImpl α :=
  { b with
    trajectoryVersions := popIndices b.trajectoryVersions indices
    targetWeightVersions := popIndices b.targetWeightVersions indices
    trajectories := popIndices b.trajectories indices }

/-- Keep the entries at the given positions, in the given order, in all three
lists. -/
def keepIndices (b : ReplayBufferImpl α) (indices : List ℕ) : ReplayBufferImpl α :=
  { b with
    trajectories := select b.trajectories indices
    trajectoryVersions := select b.trajectoryVersions indices
    targetWeightVersions := select b.targetWeightVersions indices }

/-- The oldest generation version that a step may still train on. -/
def minValidVersion (currentWeightVersion maxAgeSteps : ℤ) : ℤ :=
  max 0 (currentWeightVersion - maxAgeSteps)

/-- Evict the entries that are beyond the age window. -/
def evictOld (b : ReplayBufferImpl α) (minValidVersion : ℤ) : ReplayBufferImpl α :=
  b.removeIndices (indicesWhere (fun v => decide (v < minValidVersion)) b.trajectoryVersions)

/-- Take `numPromptGroups` groups meant for the current step, first in first out.
Stale entries are evicted first, also when too few groups are ready and the call
returns `None`. The average age divides by the number of groups, so a request for
no group raises once it gets that far. -/
def sample (b : ReplayBufferImpl α) (numPromptGroups : ℕ)
    (currentWeightVersion maxAgeSteps : ℤ) :
    Except PyError (Option (SampleResult α)) × ReplayBufferImpl α :=
  if b.trajectories = [] then (.ok none, b)
  else
    let minValidVersion := minValidVersion currentWeightVersion maxAgeSteps
    let b := b.evictOld minValidVersion
    let validIndices := indicesWhere
      (fun v => decide (minValidVersion ≤ v ∧ v ≤ currentWeightVersion)) b.trajectoryVersions
    if validIndices = [] then (.ok none, b)
    else if validIndices.length < numPromptGroups then (.ok none, b)
    else
      let intendedIndices := validIndices.filter fun i =>
        (b.targetWeightVersions[i]?.map (fun t => decide (t = currentWeightVersion))).getD false
      if intendedIndices.length < numPromptGroups then (.ok none, b)
      else
        let selected := intendedIndices.take numPromptGroups
        let sampledWeights := select b.trajectoryVersions selected
        if sampledWeights = [] then (.error ⟨.zeroDivisionError, "division by zero"⟩, b)
        else
          let avgTrajectoryAge : ℚ :=
            currentWeightVersion - (sampledWeights.sum : ℚ) / sampledWeights.length
          let sampledItems := select b.trajectories selected
          let b := b.removeIndices selected
          let lastTarget := max b.lastTargetWeightAlreadyGenerated currentWeightVersion
          (.ok (some ⟨sampledItems, avgTrajectoryAge⟩),
            { b with lastTargetWeightAlreadyGenerated := lastTarget })

/-- Drop every entry. The watermark stays. -/
def clear (b : ReplayBufferImpl α) : ReplayBufferImpl α :=
  { b with trajectories := [], trajectoryVersions := [], targetWeightVersions := [] }

/-- The checkpoint of a buffer. -/
def stateDict (b : ReplayBufferImpl α) : CheckpointState α :=
  ⟨some b.trajectories, some b.trajectoryVersions, some b.targetWeightVersions,
    some b.lastTargetWeightAlreadyGenerated⟩

/-- Drop past targets and let the collector ask each target from `currentStep`
on how much it still needs. -/
def prepareForTrainingStep (b : ReplayBufferImpl α) (currentStep : ℤ) : ReplayBufferImpl α :=
  let indicesToKeep :=
    indicesWhere (fun t => decide (currentStep ≤ t)) b.targetWeightVersions
  let b := if indicesToKeep.length < b.trajectories.length then b.keepIndices indicesToKeep
    else b
  { b with lastTargetWeightAlreadyGenerated := currentStep - 1 }

/-- Whether a version lies in the age window of its target; without an age limit
every version does. -/
def isValidForTarget (trajectoryVersion targetStep : ℤ) (maxAgeSteps : Option ℤ) : Bool :=
  match maxAgeSteps with
  | none => true
  | some a =>
    let minValidVersion := max 0 (targetStep - a)
    decide (minValidVersion ≤ trajectoryVersion ∧ trajectoryVersion ≤ targetStep)

/-- Remove restored entries that are stale for their own target. -/
def removeStaleTrajectories (b : ReplayBufferImpl α) (maxAgeSteps : ℤ) : ReplayBufferImpl α :=
  let indicesToRemove := indicesWhere
    (fun p : ℤ × ℤ => !isValidForTarget p.1 p.2 (some maxAgeSteps))
    (b.trajectoryVersions.zip b.targetWeightVersions)
  if indicesToRemove = [] then b else b.removeIndices indicesToRemove

/-- The number of entries usable for a target. -/
def countForTarget (b : ReplayBufferImpl α) (targetStep : ℤ) (maxAgeSteps : Option ℤ) : ℕ :=
  (b.trajectoryVersions.zip b.targetWeightVersions).countP fun p =>
    decide (p.2 = targetStep) && isValidForTarget p.1 targetStep maxAgeSteps

/-- Cut a restored buffer to its capacity: the newest entries without a training
step, the entries of the lowest targets with one. -/
def truncateToMaxSize (b : ReplayBufferImpl α) (currentTrainingStep : Option ℤ) :
    ReplayBufferImpl α :=
  if b.trajectories.length ≤ b.maxSize then b
  else
    let indicesToKeep := match currentTrainingStep with
      | none => List.range' (b.trajectories.length - b.maxSize) b.maxSize
      | some _ =>
        let target (i : ℕ) : ℤ := b.targetWeightVersions.getD i 0
        let prioritizedIndices := (List.range b.trajectories.length).insertionSort fun i j =>
          target i < target j ∨ target i = target j ∧ i ≤ j
        (prioritizedIndices.take b.maxSize).insertionSort (· ≤ ·)
    b.keepIndices indicesToKeep

/-- How many more groups a target needs. -/
def getTrajectoriesNeeded (b : ReplayBufferImpl α) (targetStep : ℤ)
    (numPromptsPerStep : ℕ) (maxAgeSteps : Option ℤ) : ℕ :=
  numPromptsPerStep - b.countForTarget targetStep maxAgeSteps

/-- Whether a target has enough groups to train on. -/
def hasCompleteBatch (b : ReplayBufferImpl α) (targetStep : ℤ)
    (numPromptsPerStep : ℕ) (maxAgeSteps : Option ℤ) : Bool :=
  decide (numPromptsPerStep ≤ b.countForTarget targetStep maxAgeSteps)

/-- Remove the targets without a complete batch. -/
def removeIncompleteTargetSteps (b : ReplayBufferImpl α) (numPromptsPerStep : ℕ) :
    ReplayBufferImpl α :=
  let incomplete (t : ℤ) : Bool :=
    decide (b.targetWeightVersions.count t < numPromptsPerStep)
  if b.targetWeightVersions.any incomplete then
    let b := b.keepIndices (indicesWhere (fun t => !incomplete t) b.targetWeightVersions)
    { b with lastTargetWeightAlreadyGenerated :=
        match b.targetWeightVersions.min? with
        | some firstRemainingTarget =>
          min b.lastTargetWeightAlreadyGenerated (firstRemainingTarget - 1)
        | none => -1 }
  else b

/-- The part of a restore that looks at targets: resume at a given step, or drop
the targets without a complete batch. -/
def restoreTargets (b : ReplayBufferImpl α) (numPromptsPerStep : Option ℕ)
    (currentTrainingStep : Option ℤ) : ReplayBufferImpl α :=
  match currentTrainingStep, numPromptsPerStep with
  | some currentStep, some _ => b.prepareForTrainingStep currentStep
  | none, some n => if b.trajectories = [] then b else b.removeIncompleteTargetSteps n
  | _, none => b

/-- The part of a restore that looks at ages. Dropping stale entries can make a
target incomplete, so without a training step the targets are checked again. -/
def restoreAge (b : ReplayBufferImpl α) (numPromptsPerStep : Option ℕ)
    (currentTrainingStep maxAgeSteps : Option ℤ) : ReplayBufferImpl α :=
  match maxAgeSteps with
  | some a =>
    if b.trajectories = [] then b
    else
      let b := b.removeStaleTrajectories a
      match currentTrainingStep, numPromptsPerStep with
      | none, some n => b.removeIncompleteTargetSteps n
      | _, _ => b
  | none => b

/-- Restore a checkpoint. A malformed one is refused before anything is written. -/
def loadStateDict (b : ReplayBufferImpl α) (state : CheckpointState α)
    (numPromptsPerStep : Option ℕ) (currentTrainingStep maxAgeSteps : Option ℤ) :
    Except PyError Unit × ReplayBufferImpl α :=
  match state with
  | ⟨some trajectories, some trajectoryVersions, some targetWeightVersions, some lastTarget⟩ =>
    if trajectories.length = trajectoryVersions.length ∧
        trajectoryVersions.length = targetWeightVersions.length then
      let b := { b with
        trajectories := trajectories
        trajectoryVersions := trajectoryVersions
        targetWeightVersions := targetWeightVersions
        lastTargetWeightAlreadyGenerated := lastTarget }
      let b := b.restoreTargets numPromptsPerStep currentTrainingStep
      let b := b.restoreAge numPromptsPerStep currentTrainingStep maxAgeSteps
      (.ok (), b.truncateToMaxSize currentTrainingStep)
    else
      (.error ⟨.valueError, "Checkpoint has inconsistent replay buffer lengths: " ++
        s!"trajectories={trajectories.length}, " ++
        s!"trajectory_versions={trajectoryVersions.length}, " ++
        s!"target_weight_versions={targetWeightVersions.length}"⟩, b)
  | _ => (.error ⟨.valueError, s!"Checkpoint missing required keys: {state.missingKeys}"⟩, b)

end ReplayBufferImpl
end NemoRL.AsyncUtils
