import NemoRL.Experience.Rollouts
import NemoRL.Experience.RoutedMessages
import NemoRL.Lib.BreakLoop
import NemoRL.Lib.Dict
import Mathlib.Data.Rat.Defs

/-!
# Rollouts of single samples with all that a generator returns

A sample is rolled out alone, turn by turn: a response that may have logprobs and routed
experts, then what the environment returns for it, with a reward that may have several
components. A generator that raises ends the rollout. At the end it is known how many turns and
tokens the sample took, and a batch is the list of its samples with the metrics of all of them.

The prompt is a list of messages with their tokens and without other columns. The generator and
the environments are functions, so that the order in which samples are scheduled does not
matter.

## Main definitions

* `TurnState` — a sample between two turns.
* `SampleRollout.turn`, `SampleRollout.runSampleMultiTurnRollout` — a turn, and all turns.
* `SampleRollout.runAsyncMultiTurnRollout` — a batch.
-/

namespace NemoRL.Experience

open Lib Generation

variable {Tok Lp Info Stop F Acc : Type}

/-! ## What a rollout interacts with -/

/-- The rewards of a sample: a tensor without dimensions, or one component after the other. -/
inductive Reward (F : Type)
  | scalar (reward : F)
  | components (rewards : List F)
  deriving DecidableEq, Repr

/-- The number of components, if the reward has any. -/
def Reward.numComponents : Reward F → Option ℕ
  | .scalar _ => none
  | .components rewards => some rewards.length

/-- The Python number of a reward, which a tensor of one element has. -/
def Reward.item (number : F → Acc) : Reward F → Except PyError Acc
  | .scalar reward => .ok (number reward)
  | .components [reward] => .ok (number reward)
  | .components rewards => .error ⟨.runtimeError,
      s!"a Tensor with {rewards.length} elements cannot be converted to Scalar"⟩

/-- An environment. All its rewards have the same number of components. -/
structure Environment (Info Stop F : Type) where
  numComponents : Option ℕ
  step : List (String × String) → Info → EnvironmentReturn Info Stop (Reward F)
  numComponents_step : ∀ messages info, (step messages info).reward.numComponents = numComponents

/-- The output of a generator for one sample, padded on the right. The logprobs are those of the
output ids. -/
structure AsyncOutput (Tok Lp : Type) extends GenerationOutput Tok Lp where
  genLeaderWorkerIdx : Option ℕ
  le_length : unpaddedSequenceLength ≤ outputIds.length
  length_logprobs : ∀ lps ∈ logprobs, lps.length = outputIds.length

/-- What a rollout interacts with. -/
structure AsyncInterfaces (Tok Lp Info Stop F Acc : Type) where
  /-- The output for the tokens of a sample and its stop strings. -/
  generateAsync : List Tok → Option Stop → AsyncOutput Tok Lp
  decode : List Tok → String
  tokenizer : String → List Tok
  padTokenId : Tok
  taskToEnv : String → Option (Environment Info Stop F)
  /-- The Python number of a tensor element. -/
  item : F → Acc
  /-- The tensor element of a Python number. -/
  tensor : Acc → F

/-! ## A sample between two turns -/

/-- What is counted of the turns of a sample. -/
structure TurnCounts where
  turnCount : ℕ := 0
  totalTokenCount : ℕ := 0
  assistantTokenCount : ℕ := 0
  envTokenCount : ℕ := 0
  turnGenTokens : List ℕ := []
  turnInputTokens : List ℕ := []
  turnTotalTokens : List ℕ := []
  perWorkerTokenCounts : List (ℕ × ℕ) := []
  deriving DecidableEq, Repr

/-- Add to the count of a worker. -/
def addWorkerTokens (counts : List (ℕ × ℕ)) (workerIdx tokens : ℕ) : List (ℕ × ℕ) :=
  dictSet counts workerIdx ((counts.lookup workerIdx).getD 0 + tokens)

/-- Count a turn that begins. -/
def TurnCounts.begin (counts : TurnCounts) : TurnCounts :=
  { counts with turnCount := counts.turnCount + 1 }

/-- Count the tokens of a response. -/
def TurnCounts.addResponse (counts : TurnCounts) (genTokenCount inputLength : ℕ)
    (workerIdx : Option ℕ) : TurnCounts :=
  { counts with
    assistantTokenCount := counts.assistantTokenCount + genTokenCount
    totalTokenCount := counts.totalTokenCount + genTokenCount
    turnGenTokens := counts.turnGenTokens ++ [genTokenCount]
    turnInputTokens := counts.turnInputTokens ++ [inputLength]
    turnTotalTokens := counts.turnTotalTokens ++ [inputLength + genTokenCount]
    perWorkerTokenCounts :=
      match workerIdx with
      | none => counts.perWorkerTokenCounts
      | some workerIdx => addWorkerTokens counts.perWorkerTokenCounts workerIdx genTokenCount }

/-- Count the tokens of an observation. -/
def TurnCounts.addObservation (counts : TurnCounts) (tokens : ℕ) : TurnCounts :=
  { counts with
    envTokenCount := counts.envTokenCount + tokens
    totalTokenCount := counts.totalTokenCount + tokens }

/-- A sample between two turns. -/
structure TurnState (Tok Lp Info Stop Acc : Type) where
  messageLog : List (RolloutMessage Tok Lp)
  extraEnvInfo : Info
  stopStrings : Option Stop
  totalReward : Acc
  terminated : Bool
  truncated : Bool
  counts : TurnCounts
  deriving DecidableEq, Repr

/-- Whether a rollout takes no further turn. -/
def TurnState.done (state : TurnState Tok Lp Info Stop Acc) : Bool :=
  state.terminated || state.truncated

/-- A sample before its first turn. -/
def TurnState.ofDatum [Zero Acc] (datum : Datum Tok Info Stop) :
    TurnState Tok Lp Info Stop Acc where
  messageLog := datum.messageLog.map fun message =>
    { role := message.role, content := message.content, tokenIds := message.tokenIds }
  extraEnvInfo := datum.extraEnvInfo
  stopStrings := datum.stopStrings
  totalReward := 0
  terminated := false
  truncated := false
  counts := {}

/-- Take in a response whose message is appended: whether it was cut off, and its tokens. -/
def TurnState.takeResponse (state : TurnState Tok Lp Info Stop Acc)
    (messageLog : List (RolloutMessage Tok Lp)) (genTokenCount inputLength : ℕ)
    (output : AsyncOutput Tok Lp) : TurnState Tok Lp Info Stop Acc :=
  { state with
    messageLog := messageLog
    truncated := state.truncated || output.truncated.getD false
    counts := state.counts.addResponse genTokenCount inputLength output.genLeaderWorkerIdx }

section Environments
variable (I : AsyncInterfaces Tok Lp Info Stop F Acc)

/-- What the environment of the task returns for a sample. -/
def stepEnvironment (taskName : String) (state : TurnState Tok Lp Info Stop Acc) :
    Except PyError (EnvironmentReturn Info Stop (Reward F)) := do
  let sample : Sample Tok Info Stop Acc :=
    { messageLog := state.messageLog.map fun message =>
        ⟨message.role, message.content, message.tokenIds⟩
      extraEnvInfo := state.extraEnvInfo
      taskName := taskName
      stopStrings := state.stopStrings
      totalReward := state.totalReward
      truncated := state.truncated }
  let envOutputs ← calculateRewards (fun taskName => (I.taskToEnv taskName).map Environment.step)
    [sample]
  match envOutputs with
  | [] => throw ⟨.indexError, "index 0 is out of bounds for dimension 0 with size 0"⟩
  | envOutput :: _ => pure envOutput

/-- The tokens of an observation behind a response, cut to those that are left, and whether
there were too many. -/
def cutObservation (maxSeqLen inputLength genTokenCount : ℕ) (tokenizedObs : List Tok) :
    List Tok × Bool :=
  if inputLength + genTokenCount + tokenizedObs.length ≥ maxSeqLen then
    let maxEnvTokens := maxSeqLen - inputLength - genTokenCount
    (if maxEnvTokens > 0 then tokenizedObs.take maxEnvTokens else [], true)
  else (tokenizedObs, false)

/-- Take in what the environment returned: the message of its observation, and for a sample
that goes on its next stop strings and its next info. -/
def TurnState.takeObservation (state : TurnState Tok Lp Info Stop Acc) (maxSeqLen : ℕ)
    (inputLength genTokenCount : ℕ) (envOutput : EnvironmentReturn Info Stop (Reward F))
    (totalReward : Acc) (envMessage : List Tok → RolloutMessage Tok Lp) :
    TurnState Tok Lp Info Stop Acc :=
  let cut := cutObservation maxSeqLen inputLength genTokenCount
    (I.tokenizer envOutput.observationContent)
  let truncated := state.truncated || cut.2
  let continues : Bool := !envOutput.terminated && !truncated
  { messageLog := state.messageLog ++ [envMessage cut.1]
    extraEnvInfo := if continues then envOutput.metadata.getD state.extraEnvInfo
      else state.extraEnvInfo
    stopStrings := if continues then envOutput.nextStopStrings.or state.stopStrings
      else state.stopStrings
    totalReward := totalReward
    terminated := envOutput.terminated
    truncated := truncated
    counts := state.counts.addObservation cut.1.length }

end Environments

/-! ## Metrics -/

/-- What is known of a sample at its end. -/
structure SampleMetrics (Acc : Type) where
  counts : TurnCounts
  terminated : Bool
  truncated : Bool
  maxTurnsReached : Bool
  totalReward : Acc
  deriving DecidableEq, Repr

/-- The metrics of turns and tokens of a batch. -/
structure RolloutMetrics where
  totalTurns : ℕ
  meanTurnsPerSample : ℚ
  maxTurnsPerSample : ℕ
  naturalTerminationRate : ℚ
  truncationRate : ℚ
  maxTurnsReachedRate : ℚ
  meanTotalTokensPerSample : ℚ
  meanGenTokensPerSample : ℚ
  maxGenTokensPerSample : ℕ
  meanEnvTokensPerSample : ℚ
  perWorkerTokenCounts : List (ℕ × ℕ)
  genTokensLength : List ℕ
  inputTokensLength : List ℕ
  totalTokensLength : List ℕ
  deriving DecidableEq

/-- The tokens of each worker over all samples. -/
def mergeWorkerTokens (samples : List TurnCounts) : List (ℕ × ℕ) :=
  samples.foldl (fun counts sample =>
    sample.perWorkerTokenCounts.foldl (fun counts p => addWorkerTokens counts p.1 p.2) counts) []

/-! ## One sample -/

namespace SampleRollout

/-- A sample between two turns, with the rewards of every component. -/
structure State (Tok Lp Info Stop Acc : Type) extends TurnState Tok Lp Info Stop Acc where
  rewardAccList : List Acc
  multiRewardSeen : Bool
  deriving DecidableEq, Repr

section Turn
variable [Add F] [Zero Acc] [Add Acc] (I : AsyncInterfaces Tok Lp Info Stop F Acc) (maxSeqLen : ℕ)

/-- The length of all messages as one: that of the longest of its columns. -/
def flatLength (messageLog : List (RolloutMessage Tok Lp)) : ℕ :=
  max (logTokens messageLog).length
    (max (messageLog.map fun m => (m.generationLogprobs.map List.length).getD 0).sum
      (messageLog.map fun m => (m.routedExperts.map (·.rows.length)).getD 0).sum)

/-- Generate the response of a turn and append it. Messages are needed to generate from.
Returns the tokens of the response and the length of the input as well. -/
def asyncGenerateResponseForSampleTurn (state : TurnState Tok Lp Info Stop Acc) :
    Except PyError (TurnState Tok Lp Info Stop Acc × ℕ × ℕ) :=
  if state.messageLog.isEmpty then .error ⟨.keyError, "'token_ids'"⟩
  else do
    let inputLength := flatLength state.messageLog
    let inputIds := logTokens state.messageLog
    let padding := List.replicate (inputLength - inputIds.length) I.padTokenId
    let output := I.generateAsync (inputIds ++ padding) state.stopStrings
    let messageLog ← appendResponse I.decode true state.messageLog inputLength
      output.toGenerationOutput
    let generatedIds := slice output.outputIds inputLength output.unpaddedSequenceLength
    pure (state.takeResponse messageLog generatedIds.length inputLength output,
      generatedIds.length, inputLength)

/-- Add a reward, and its components if it has any. -/
def State.addReward (state : State Tok Lp Info Stop Acc) :
    Reward F → Except PyError (State Tok Lp Info Stop Acc)
  | .components (reward :: rewards) =>
    let all := reward :: rewards
    let acc := if state.rewardAccList.isEmpty then List.replicate all.length 0
      else state.rewardAccList
    if acc.length < all.length then .error ⟨.indexError, "list index out of range"⟩
    else .ok
      { state with
        totalReward := state.totalReward + I.item (rewards.foldl (· + ·) reward)
        rewardAccList := acc.mapIdx fun j a => (all[j]?).elim a fun r => a + I.item r
        multiRewardSeen := true }
  | reward => do
    let number ← reward.item I.item
    pure { state with totalReward := state.totalReward + number }

/-- A turn of a sample. One that cannot generate a response ends the rollout. -/
def turn (taskName : String) (state : State Tok Lp Info Stop Acc) :
    Except PyError (State Tok Lp Info Stop Acc × Bool) :=
  let state := { state with counts := state.counts.begin }
  match asyncGenerateResponseForSampleTurn I state.toTurnState with
  | .error _ => .ok (state, true)
  | .ok (responded, genTokenCount, inputLength) => do
    let envOutput ← stepEnvironment I taskName responded
    let rewarded ← State.addReward I { state with toTurnState := responded } envOutput.reward
    let observed := rewarded.takeObservation I maxSeqLen inputLength genTokenCount envOutput
      rewarded.totalReward
      (observationMessage rewarded.messageLog envOutput.observationRole
        envOutput.observationContent)
    pure ({ rewarded with toTurnState := observed }, false)

/-- The sample that is returned. -/
structure FinalSample (Tok Lp Info Stop F : Type) where
  messageLog : List (RolloutMessage Tok Lp)
  extraEnvInfo : Info
  taskName : String
  totalReward : F
  stopStrings : Option Stop
  idx : ℕ
  truncated : Bool
  /-- The rewards of the components: `reward1`, `reward2` and so on. -/
  rewardComponents : List F
  deriving DecidableEq, Repr

/-- The loop over the turns of a sample. -/
def loop (taskName : String) :
    ℕ → State Tok Lp Info Stop Acc → Except PyError (State Tok Lp Info Stop Acc × Bool) :=
  breakLoop (fun state => state.done) (turn I maxSeqLen taskName)

/-- The sample that is returned for the last state. -/
def State.finalSample (state : State Tok Lp Info Stop Acc) (sampleIdx : ℕ) (taskName : String) :
    FinalSample Tok Lp Info Stop F where
  messageLog := state.messageLog
  extraEnvInfo := state.extraEnvInfo
  taskName := taskName
  totalReward := I.tensor state.totalReward
  stopStrings := state.stopStrings
  idx := sampleIdx
  truncated := state.truncated
  rewardComponents := if state.multiRewardSeen then state.rewardAccList.map I.tensor else []

/-- The metrics of the last state. -/
def State.sampleMetrics (state : State Tok Lp Info Stop Acc) (maxRolloutTurns : ℕ) :
    SampleMetrics Acc where
  counts := state.counts
  terminated := state.terminated
  truncated := state.truncated
  maxTurnsReached := decide (state.counts.turnCount ≥ maxRolloutTurns)
  totalReward := state.totalReward

/-- Roll out one sample. -/
def runSampleMultiTurnRollout (sampleIdx : ℕ) (datum : Datum Tok Info Stop)
    (maxRolloutTurns : ℕ) :
    Except PyError (FinalSample Tok Lp Info Stop F × SampleMetrics Acc) := do
  let (state, _) ← loop I maxSeqLen datum.taskName maxRolloutTurns
    ⟨TurnState.ofDatum datum, [], false⟩
  pure (state.finalSample I sampleIdx datum.taskName, state.sampleMetrics maxRolloutTurns)

/-- Roll out the sample with the given index. -/
def runSingleSampleWithErrorHandling (maxRolloutTurns : ℕ) (sample : Datum Tok Info Stop × ℕ) :
    Except PyError (FinalSample Tok Lp Info Stop F × SampleMetrics Acc) :=
  match runSampleMultiTurnRollout I maxSeqLen sample.2 sample.1 maxRolloutTurns with
  | .ok result => .ok result
  | .error e => .error ⟨.runtimeError, s!"Error in sample {sample.2} rollout: {e.message}"⟩

/-- The metrics of turns and tokens, of at least one sample. -/
def rolloutMetrics (samples : List (SampleMetrics Acc)) : RolloutMetrics where
  totalTurns := (samples.map (·.counts.turnCount)).sum
  meanTurnsPerSample := (((samples.map (·.counts.turnCount)).sum : ℕ) : ℚ) / samples.length
  maxTurnsPerSample := (samples.map (·.counts.turnCount)).foldr max 0
  naturalTerminationRate := ((samples.countP (·.terminated) : ℕ) : ℚ) / samples.length
  truncationRate := ((samples.countP (·.truncated) : ℕ) : ℚ) / samples.length
  maxTurnsReachedRate := ((samples.countP (·.maxTurnsReached) : ℕ) : ℚ) / samples.length
  meanTotalTokensPerSample :=
    (((samples.map (·.counts.totalTokenCount)).sum : ℕ) : ℚ) / samples.length
  meanGenTokensPerSample :=
    (((samples.map (·.counts.assistantTokenCount)).sum : ℕ) : ℚ) / samples.length
  maxGenTokensPerSample := (samples.map (·.counts.assistantTokenCount)).foldr max 0
  meanEnvTokensPerSample :=
    (((samples.map (·.counts.envTokenCount)).sum : ℕ) : ℚ) / samples.length
  perWorkerTokenCounts := mergeWorkerTokens (samples.map (·.counts))
  genTokensLength := samples.flatMap (·.counts.turnGenTokens)
  inputTokensLength := samples.flatMap (·.counts.turnInputTokens)
  totalTokensLength := samples.flatMap (·.counts.turnTotalTokens)

/-- Roll out every sample of a batch alone. -/
def runAsyncMultiTurnRollout (inputBatch : List (Datum Tok Info Stop)) (maxRolloutTurns : ℕ) :
    Except PyError (List (FinalSample Tok Lp Info Stop F) × RolloutMetrics) := do
  let results ← inputBatch.zipIdx.mapM
    (runSingleSampleWithErrorHandling I maxSeqLen maxRolloutTurns)
  -- the rewards of the samples are stacked
  if results.isEmpty then throw ⟨.runtimeError, "stack expects a non-empty TensorList"⟩
  pure (results.map Prod.fst, rolloutMetrics (results.map Prod.snd))

end Turn

end SampleRollout

end NemoRL.Experience
