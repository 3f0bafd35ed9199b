import NemoRL.Experience.SampleRollout

/-!
# The rollout manager

The manager rolls out one prompt several times. A rollout takes turns like that of a single
sample: it builds the messages of the response itself, takes the number of the reward, and
knows from the loop whether all turns were taken.

## Main definitions

* `AsyncRolloutImpl.runSingleRollout` — one completion.
* `AsyncRolloutImpl.runRollout` — all completions of a prompt.
-/

namespace NemoRL.Experience.AsyncRolloutImpl

open Lib

variable {Tok Lp Info Stop F Acc : Type}

/-- A response, with what is needed to take it in. -/
structure Response (Tok Lp : Type) where
  assistantMessage : RolloutMessage Tok Lp
  inputLength : ℕ
  output : AsyncOutput Tok Lp

section Turn
variable [Zero Acc] [Add Acc] (I : AsyncInterfaces Tok Lp Info Stop F Acc) (maxSeqLen : ℕ)

/-- Generate a response. Messages are needed to generate from. -/
def generateResponse (messageLog : List (RolloutMessage Tok Lp)) (stopStrings : Option Stop) :
    Except PyError (Response Tok Lp) :=
  if messageLog.isEmpty then
    .error ⟨.runtimeError, "torch.cat(): expected a non-empty list of Tensors"⟩
  else
    let inputIds := logTokens messageLog
    let inputLength := inputIds.length
    let output := I.generateAsync inputIds stopStrings
    let totalLen := output.unpaddedSequenceLength
    let generatedIds := slice output.outputIds inputLength totalLen
    .ok
      { assistantMessage :=
          { role := "assistant"
            content := I.decode generatedIds
            tokenIds := generatedIds
            generationLogprobs :=
              output.logprobs.map fun logprobs => slice logprobs inputLength totalLen }
        inputLength := inputLength
        output := output }

/-- A turn of a completion. One that cannot generate a response ends the rollout. -/
def turn (taskName : String) (state : TurnState Tok Lp Info Stop Acc) :
    Except PyError (TurnState Tok Lp Info Stop Acc × Bool) :=
  let state := { state with counts := state.counts.begin }
  match generateResponse I state.messageLog state.stopStrings with
  | .error _ => .ok (state, true)
  | .ok response => do
    let genTokenCount := response.assistantMessage.tokenIds.length
    let responded := state.takeResponse (state.messageLog ++ [response.assistantMessage])
      genTokenCount response.inputLength response.output
    let envOutput ← stepEnvironment I taskName responded
    let number ← envOutput.reward.item I.item
    let observed := responded.takeObservation I maxSeqLen response.inputLength genTokenCount
      envOutput (responded.totalReward + number) fun tokenizedObs =>
        { role := envOutput.observationRole
          content := envOutput.observationContent
          tokenIds := tokenizedObs }
    pure (observed, false)

/-- A completion of a prompt. -/
structure Completion (Tok Lp Info Acc : Type) where
  messageLog : List (RolloutMessage Tok Lp)
  envExtras : Info
  truncated : Bool
  reward : Acc
  deriving DecidableEq, Repr

/-- The loop over the turns of a completion. -/
def loop (taskName : String) :
    ℕ → TurnState Tok Lp Info Stop Acc → Except PyError (TurnState Tok Lp Info Stop Acc × Bool) :=
  breakLoop TurnState.done (turn I maxSeqLen taskName)

/-- The completion of the last state. -/
def completion (state : TurnState Tok Lp Info Stop Acc) : Completion Tok Lp Info Acc where
  messageLog := state.messageLog
  envExtras := state.extraEnvInfo
  truncated := state.truncated
  reward := state.totalReward

/-- The metrics of the last state. All turns were taken when the loop was not left. -/
def sampleMetrics (state : TurnState Tok Lp Info Stop Acc) (left : Bool) : SampleMetrics Acc where
  counts := state.counts
  terminated := state.terminated
  truncated := state.truncated
  maxTurnsReached := !left
  totalReward := state.totalReward

/-- Roll out a prompt once. -/
def runSingleRollout (inputSample : Datum Tok Info Stop) (maxRolloutTurns : ℕ) :
    Except PyError (Completion Tok Lp Info Acc × SampleMetrics Acc) := do
  let (state, left) ← loop I maxSeqLen inputSample.taskName maxRolloutTurns
    (TurnState.ofDatum inputSample)
  pure (completion state, sampleMetrics state left)

/-- The mean of some values. -/
def mean (values : List ℕ) (batchSize : ℕ) : ℚ := (values.sum : ℚ) / batchSize

/-- The metrics of turns and tokens over all completions. -/
def aggregateRolloutMetrics (samples : List (SampleMetrics Acc)) :
    Except PyError RolloutMetrics :=
  let n := samples.length
  let turnCount := samples.map (·.counts.turnCount)
  let totalTokens := samples.map (·.counts.totalTokenCount)
  let assistantTokens := samples.map (·.counts.assistantTokenCount)
  let envTokens := samples.map (·.counts.envTokenCount)
  if n = 0 then .error ⟨.zeroDivisionError, "division by zero"⟩
  else .ok
    { totalTurns := turnCount.sum
      meanTurnsPerSample := mean turnCount n
      maxTurnsPerSample := turnCount.foldr max 0
      naturalTerminationRate := ((samples.countP (·.terminated) : ℕ) : ℚ) / n
      truncationRate := ((samples.countP (·.truncated) : ℕ) : ℚ) / n
      maxTurnsReachedRate := ((samples.countP (·.maxTurnsReached) : ℕ) : ℚ) / n
      meanTotalTokensPerSample := mean totalTokens n
      meanGenTokensPerSample := mean assistantTokens n
      maxGenTokensPerSample := assistantTokens.foldr max 0
      meanEnvTokensPerSample := mean envTokens n
      perWorkerTokenCounts := mergeWorkerTokens (samples.map (·.counts))
      genTokensLength := samples.flatMap (·.counts.turnGenTokens)
      inputTokensLength := samples.flatMap (·.counts.turnInputTokens)
      totalTokensLength := samples.flatMap (·.counts.turnTotalTokens) }

/-- Roll out a prompt several times. -/
def runRollout (inputSample : Datum Tok Info Stop) (numGenerationsPerPrompt maxRolloutTurns : ℕ) :
    Except PyError (List (Completion Tok Lp Info Acc) × RolloutMetrics) := do
  let results ← (List.range numGenerationsPerPrompt).mapM fun _ =>
    runSingleRollout I maxSeqLen inputSample maxRolloutTurns
  let metrics ← aggregateRolloutMetrics (results.map Prod.snd)
  pure (results.map Prod.fst, metrics)

end Turn

end NemoRL.Experience.AsyncRolloutImpl
