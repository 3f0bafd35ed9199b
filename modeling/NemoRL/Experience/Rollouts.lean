import NemoRL.Error
import NemoRL.Lib.ActiveSet
import NemoRL.Lib.Except
import NemoRL.Lib.ZigZag

/-!
# Multi-turn rollouts

A sample alternates between responses of the policy and observations of its environment. One
rollout function steps the whole batch and drops the samples that are done, the other one runs
every sample alone.

The generation interface maps the tokens of a sample and its stop strings to a response and
whether the response was cut off, an environment maps the messages and the info of a sample
to what it returns for that sample, and the tokenizer is any function. The first function adds
rewards in the type of the environments, the second one in a type of its own that it rounds at
the end. The samples of the second function do not see each other, so that the order in which
they are scheduled does not matter.

## Main definitions

* `calculateRewards` — one step of the environments.
* `runMultiTurnRollout` — the batch.
* `runSampleMultiTurnRollout`, `runAsyncMultiTurnRollout` — one sample after the other.
-/

namespace NemoRL.Experience

open Lib

/-- A message with its tokens. -/
structure Message (Tok : Type) where
  role : String
  content : String
  tokenIds : List Tok
  deriving DecidableEq, Repr

/-- What an environment returns for one sample. -/
structure EnvironmentReturn (Info Stop R : Type) where
  observationRole : String
  observationContent : String
  metadata : Option Info
  nextStopStrings : Option Stop
  reward : R
  terminated : Bool
  deriving DecidableEq, Repr

/-- What rollouts interact with. -/
structure Interfaces (Tok Info Stop R Acc : Type) where
  /-- The response to the tokens of a sample, and whether it hit the token limit without a
  stop token. -/
  generate : List Tok → Option Stop → List Tok × Bool
  decode : List Tok → String
  tokenizer : String → List Tok
  /-- The environment of a task: the roles and contents of a sample and its info. -/
  taskToEnv : String → Option (List (String × String) → Info → EnvironmentReturn Info Stop R)
  /-- The Python number of a reward. -/
  item : R → Acc
  /-- The reward of a Python number. -/
  tensor : Acc → R

/-- A sample of a batch while it is rolled out. -/
structure Sample (Tok Info Stop R : Type) where
  messageLog : List (Message Tok)
  extraEnvInfo : Info
  taskName : String
  stopStrings : Option Stop
  totalReward : R
  truncated : Bool
  deriving DecidableEq, Repr

/-- A sample of the input. -/
structure Datum (Tok Info Stop : Type) where
  messageLog : List (Message Tok)
  extraEnvInfo : Info
  taskName : String
  stopStrings : Option Stop
  deriving DecidableEq, Repr

/-- A batch, with or without the stop strings of its samples. -/
structure InputBatch (Tok Info Stop : Type) where
  rows : List (Datum Tok Info Stop)
  hasStopStrings : Bool
  noStopStrings : hasStopStrings = false → ∀ row ∈ rows, row.stopStrings = none

variable {Tok Info Stop R Acc : Type}

/-- A sample before its first turn. -/
def Sample.ofDatum [Zero R] (datum : Datum Tok Info Stop) : Sample Tok Info Stop R where
  messageLog := datum.messageLog
  extraEnvInfo := datum.extraEnvInfo
  taskName := datum.taskName
  stopStrings := datum.stopStrings
  totalReward := 0
  truncated := false

/-- The tokens of all messages. -/
def flatTokens (messageLog : List (Message Tok)) : List Tok := messageLog.flatMap Message.tokenIds

/-- The roles and contents that an environment is given. -/
def toEnv (messageLog : List (Message Tok)) : List (String × String) :=
  messageLog.map fun message => (message.role, message.content)

/-! ## Environments -/

/-- Add a sample to the group of its task. -/
def addToGroup : List (String × List ℕ) → String → ℕ → List (String × List ℕ)
  | [], taskName, i => [(taskName, [i])]
  | (name, indices) :: groups, taskName, i =>
    if name = taskName then (name, indices ++ [i]) :: groups
    else (name, indices) :: addToGroup groups taskName i

/-- The samples of each task. -/
def taskGroups (samples : List (Sample Tok Info Stop Acc)) : List (String × List ℕ) :=
  samples.zipIdx.foldl (fun groups p => addToGroup groups p.1.taskName p.2) []

/-- Step the environment of a task for its samples. -/
def stepGroup (taskToEnv : String →
      Option (List (String × String) → Info → EnvironmentReturn Info Stop R))
    (samples : List (Sample Tok Info Stop Acc)) (group : String × List ℕ) :
    Except PyError (List (EnvironmentReturn Info Stop R × ℕ)) :=
  match taskToEnv group.1 with
  | none => .error ⟨.valueError, s!"No environment found for task type: {group.1}"⟩
  | some step =>
    let outputs := (select samples group.2).map fun sample =>
      step (toEnv sample.messageLog) sample.extraEnvInfo
    .ok (outputs.zip group.2)

/-- Step the environment of each task and put the results in the order of the samples. -/
def calculateRewards (taskToEnv : String →
      Option (List (String × String) → Info → EnvironmentReturn Info Stop R))
    (samples : List (Sample Tok Info Stop Acc)) :
    Except PyError (List (EnvironmentReturn Info Stop R)) := do
  let results ← (taskGroups samples).mapM (stepGroup taskToEnv samples)
  let sorted := results.flatten.mergeSort fun p q => p.2 ≤ q.2
  return sorted.map Prod.fst

/-! ## The batch -/

section Batch
variable [Add R] (I : Interfaces Tok Info Stop R Acc) (hasStopStrings : Bool) (maxSeqLen : ℕ)

/-- A generated response. -/
structure Generated (Tok : Type) where
  generatedIds : List Tok
  truncated : Bool
  inputLength : ℕ
  deriving DecidableEq, Repr

/-- Generate a response for a sample and append it to the messages of the sample. The stop
strings are those of the batch, and there are none if the batch has none. -/
def generateResponse (sample : Sample Tok Info Stop R) :
    Sample Tok Info Stop R × Generated Tok :=
  let inputIds := flatTokens sample.messageLog
  let stopStrings := if hasStopStrings then sample.stopStrings else none
  let response := I.generate inputIds stopStrings
  ({ sample with
    messageLog := sample.messageLog ++ [⟨"assistant", I.decode response.1, response.1⟩] },
    ⟨response.1, response.2, inputIds.length⟩)

/-- Generate a response for every sample. -/
def generateResponses (samples : List (Sample Tok Info Stop R)) :
    List (Sample Tok Info Stop R × Generated Tok) :=
  samples.map (generateResponse I hasStopStrings)

/-- Append the observation of a sample, cut to the tokens that are left, and take in the
reward. A sample that goes on takes in its next info and its next stop strings. Returns whether
the sample is done. -/
def observed (sample : Sample Tok Info Stop R) (generated : Generated Tok)
    (envOutput : EnvironmentReturn Info Stop R) : Sample Tok Info Stop R × Bool :=
  let tokenizedObs := I.tokenizer envOutput.observationContent
  let used := generated.generatedIds.length + generated.inputLength
  let overflows : Bool := tokenizedObs.length + used ≥ maxSeqLen
  let tokenizedObs := if overflows then tokenizedObs.take (maxSeqLen - used) else tokenizedObs
  let message : Message Tok :=
    ⟨envOutput.observationRole, envOutput.observationContent, tokenizedObs⟩
  let done := overflows || envOutput.terminated
  ({ sample with
    messageLog := sample.messageLog ++ [message]
    extraEnvInfo := if done then sample.extraEnvInfo
      else envOutput.metadata.getD sample.extraEnvInfo
    stopStrings := if done then sample.stopStrings else envOutput.nextStopStrings
    totalReward := sample.totalReward + envOutput.reward
    truncated := sample.truncated || generated.truncated || overflows }, done)

/-- Take in what the environment returned for a sample. A generation interface that exceeds
the maximal sequence length is an error. -/
def observe (sample : Sample Tok Info Stop R) (generated : Generated Tok)
    (envOutput : EnvironmentReturn Info Stop R) :
    Except PyError (Sample Tok Info Stop R × Bool) :=
  let tokenizedObs := I.tokenizer envOutput.observationContent
  let used := generated.generatedIds.length + generated.inputLength
  if tokenizedObs.length + used ≥ maxSeqLen ∧ maxSeqLen < used then
    .error ⟨.assertionError, s!"tokens_left_for_obs={(maxSeqLen : ℤ) - used} should not be " ++
      "negative. This should not happen if the inference engine respects the max sequence " ++
      "length."⟩
  else .ok (observed I maxSeqLen sample generated envOutput)

/-- One turn of the active samples. -/
def rolloutTurn (state : ActiveSet (Sample Tok Info Stop R)) :
    Except PyError (ActiveSet (Sample Tok Info Stop R)) := do
  let activeBatch := select state.rows state.active
  let generated := generateResponses I hasStopStrings activeBatch
  let envOutput ← calculateRewards I.taskToEnv (generated.map Prod.fst)
  let observed ← (generated.zip envOutput).mapM fun ((sample, response), output) =>
    observe I maxSeqLen sample response output
  return { rows := ActiveSet.writeBack state.rows state.active (observed.map Prod.fst)
           active := ActiveSet.stillActive state.active (observed.map Prod.snd) }

/-- Turns until no sample is active. -/
def rolloutLoop : ℕ → ActiveSet (Sample Tok Info Stop R) →
    Except PyError (ActiveSet (Sample Tok Info Stop R))
  | 0, state => .ok state
  | turns + 1, state =>
    if state.active.isEmpty then .ok state
    else do
      let state ← rolloutTurn I hasStopStrings maxSeqLen state
      rolloutLoop turns state

/-- Roll out a batch. -/
def runMultiTurnRollout [Zero R] (inputBatch : InputBatch Tok Info Stop)
    (maxRolloutTurns : ℕ) : Except PyError (List (Sample Tok Info Stop R)) := do
  let state ← rolloutLoop I inputBatch.hasStopStrings maxSeqLen maxRolloutTurns
    ⟨inputBatch.rows.map Sample.ofDatum, List.range inputBatch.rows.length⟩
  -- the metrics take the largest number of turns of a sample
  if inputBatch.rows.isEmpty then
    throw ⟨.runtimeError, "max(): Expected reduction dim to be specified for input.numel() == " ++
      "0. Specify the reduction dim with the 'dim' argument."⟩
  return state.rows

end Batch

/-! ## One sample -/

section Alone
variable [Add Acc] (I : Interfaces Tok Info Stop R Acc) (maxSeqLen : ℕ)

/-- A sample with whether its environment terminated it. -/
structure SampleState (Tok Info Stop Acc : Type) extends Sample Tok Info Stop Acc where
  terminated : Bool
  deriving DecidableEq, Repr

/-- A sample before its first turn. -/
def SampleState.ofDatum [Zero Acc] (datum : Datum Tok Info Stop) :
    SampleState Tok Info Stop Acc :=
  ⟨Sample.ofDatum datum, false⟩

/-- Generate a response for a sample and append it to the messages of the sample. -/
def asyncGenerateResponseForSampleTurn (state : SampleState Tok Info Stop Acc) :
    SampleState Tok Info Stop Acc × Generated Tok :=
  let inputIds := flatTokens state.messageLog
  let response := I.generate inputIds state.stopStrings
  ({ state with
    messageLog := state.messageLog ++ [⟨"assistant", I.decode response.1, response.1⟩] },
    ⟨response.1, response.2, inputIds.length⟩)

/-- Append the observation of a sample, cut to the tokens that are left, and take in the
reward. A sample that goes on takes in its next info and its next stop strings if there are
any. -/
def sampleObserved (state : SampleState Tok Info Stop Acc) (generated : Generated Tok)
    (envOutput : EnvironmentReturn Info Stop R) : SampleState Tok Info Stop Acc :=
  let tokenizedObs := I.tokenizer envOutput.observationContent
  let overflows : Bool := generated.inputLength + generated.generatedIds.length +
    tokenizedObs.length ≥ maxSeqLen
  let maxEnvTokens := maxSeqLen - generated.inputLength - generated.generatedIds.length
  let tokenizedObs := if overflows then
      if maxEnvTokens > 0 then tokenizedObs.take maxEnvTokens else []
    else tokenizedObs
  let message : Message Tok :=
    ⟨envOutput.observationRole, envOutput.observationContent, tokenizedObs⟩
  let terminated := envOutput.terminated
  let truncated := state.truncated || generated.truncated || overflows
  let continues : Bool := !terminated && !truncated
  { messageLog := state.messageLog ++ [message]
    extraEnvInfo := if continues then envOutput.metadata.getD state.extraEnvInfo
      else state.extraEnvInfo
    taskName := state.taskName
    stopStrings := if continues then envOutput.nextStopStrings.or state.stopStrings
      else state.stopStrings
    totalReward := state.totalReward + I.item envOutput.reward
    truncated := truncated
    terminated := terminated }

/-- One turn of a sample. -/
def sampleTurn (state : SampleState Tok Info Stop Acc) :
    Except PyError (SampleState Tok Info Stop Acc) := do
  let (state, generated) := asyncGenerateResponseForSampleTurn I state
  let envOutputs ← calculateRewards I.taskToEnv [state.toSample]
  match envOutputs with
  | [] => throw ⟨.indexError, "index 0 is out of bounds for dimension 0 with size 0"⟩
  | envOutput :: _ => return sampleObserved I maxSeqLen state generated envOutput

/-- Turns until the sample is terminated or truncated. -/
def sampleLoop : ℕ → SampleState Tok Info Stop Acc →
    Except PyError (SampleState Tok Info Stop Acc)
  | 0, state => .ok state
  | turns + 1, state =>
    if state.terminated || state.truncated then .ok state
    else do
      let state ← sampleTurn I maxSeqLen state
      sampleLoop turns state

/-- The sample that is returned. -/
def SampleState.finalSample (I : Interfaces Tok Info Stop R Acc)
    (state : SampleState Tok Info Stop Acc) : Sample Tok Info Stop R where
  messageLog := state.messageLog
  extraEnvInfo := state.extraEnvInfo
  taskName := state.taskName
  stopStrings := state.stopStrings
  totalReward := I.tensor state.totalReward
  truncated := state.truncated

/-- Roll out one sample. -/
def runSampleMultiTurnRollout [Zero Acc] (datum : Datum Tok Info Stop) (maxRolloutTurns : ℕ) :
    Except PyError (Sample Tok Info Stop R) := do
  let state ← sampleLoop I maxSeqLen maxRolloutTurns (SampleState.ofDatum datum)
  return state.finalSample I

/-- Roll out the sample with the given index. -/
def runSingleSampleWithErrorHandling [Zero Acc] (maxRolloutTurns : ℕ)
    (sample : Datum Tok Info Stop × ℕ) : Except PyError (Sample Tok Info Stop R) :=
  match runSampleMultiTurnRollout I maxSeqLen sample.1 maxRolloutTurns with
  | .ok result => .ok result
  | .error e => .error ⟨.runtimeError, s!"Error in sample {sample.2} rollout: {e.message}"⟩

/-- Roll out every sample of a batch alone. -/
def runAsyncMultiTurnRollout [Zero Acc] (inputBatch : InputBatch Tok Info Stop)
    (maxRolloutTurns : ℕ) : Except PyError (List (Sample Tok Info Stop R)) := do
  let samples ← inputBatch.rows.zipIdx.mapM
    (runSingleSampleWithErrorHandling I maxSeqLen maxRolloutTurns)
  -- the rewards of the samples are stacked
  if samples.isEmpty then throw ⟨.runtimeError, "stack expects a non-empty TensorList"⟩
  return samples

end Alone
end NemoRL.Experience
