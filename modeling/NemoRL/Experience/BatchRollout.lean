import NemoRL.Experience.TaskEnvironments
import NemoRL.Lib.ActiveSet

/-!
# Rollouts of batches with all that a generator returns

All samples of a batch that are active take their turns together. Their messages are flattened,
padded and given to the generator as one batch, and their environments are stepped by task. The
tokens of every response and of every observation are counted.

The generator and the environments may do something else in every turn, and may raise. The
prompt is a list of messages with their tokens and without other columns. Lengths and counts are
natural numbers.

## Main definitions

* `BatchRollout.Row` — a sample between two turns.
* `BatchRollout.turn`, `BatchRollout.runMultiTurnRollout` — a turn, and all turns.
-/

namespace NemoRL.Experience.BatchRollout

open Lib Generation TaskEnvironments

variable {Tok Lp Info Stop Ans F : Type}

/-! ## What a rollout interacts with -/

/-- The tokens of a batch as a generator gets them. They are padded and stacked if the first
sample has messages. -/
inductive InputIds (Tok : Type)
  | stacked (rows : List (List Tok))
  | unstacked (rows : List (Option (List Tok)))
  deriving DecidableEq, Repr

/-- What a generator is given. -/
structure GenerationInput (Tok Stop : Type) where
  inputIds : InputIds Tok
  inputLengths : List ℕ
  stopStrings : List (Option Stop)
  deriving DecidableEq, Repr

/-- What a rollout interacts with. -/
structure Interfaces (Tok Lp Info Stop Ans F : Type) where
  /-- The outputs of a turn for a batch of samples. -/
  generate : ℕ → GenerationInput Tok Stop → Except PyError (List (AsyncOutput Tok Lp))
  decode : List Tok → String
  tokenizer : String → List Tok
  padTokenId : Tok
  /-- The environment of a task in a turn. An observation has a role and a content. -/
  taskToEnv : ℕ → String → Option (Env (String × String) Info Stop Ans F)

/-! ## A batch between two turns -/

/-- A sample between two turns. -/
structure Row (Tok Lp Info Stop F : Type) where
  messageLog : List (RolloutMessage Tok Lp)
  extraEnvInfo : Info
  taskName : String
  stopStrings : Option Stop
  totalReward : F
  multiRewards : List F := []
  sampleTurnCount : ℕ := 0
  sampleTokenCount : ℕ := 0
  sampleAssistantTokenCount : ℕ := 0
  sampleEnvTokenCount : ℕ := 0
  sampleTerminated : Bool := false
  sampleTruncated : Bool := false
  deriving DecidableEq, Repr

/-- A prompt as messages without other columns. -/
def promptMessages (messageLog : List (Message Tok)) : List (RolloutMessage Tok Lp) :=
  messageLog.map fun message =>
    { role := message.role, content := message.content, tokenIds := message.tokenIds }

/-- A sample before its first turn. -/
def Row.ofDatum [Zero F] (datum : Datum Tok Info Stop) : Row Tok Lp Info Stop F where
  messageLog := promptMessages datum.messageLog
  extraEnvInfo := datum.extraEnvInfo
  taskName := datum.taskName
  stopStrings := datum.stopStrings
  totalReward := 0

/-- A sample as its environment gets it. -/
def Row.toSample (row : Row Tok Lp Info Stop F) : Sample Tok Info Stop F where
  messageLog := row.messageLog.map fun message =>
    ⟨message.role, message.content, message.tokenIds⟩
  extraEnvInfo := row.extraEnvInfo
  taskName := row.taskName
  stopStrings := row.stopStrings
  totalReward := row.totalReward
  truncated := row.sampleTruncated

/-- A batch between two turns. -/
structure State (Tok Lp Info Stop F : Type) extends ActiveSet (Row Tok Lp Info Stop F) where
  turnIndex : ℕ := 0
  /-- The number of components of the rewards, once it is known. -/
  numberOfRewards : Option ℕ := none

/-- The samples that take a turn. -/
def State.activeBatch (state : State Tok Lp Info Stop F) : List (Row Tok Lp Info Stop F) :=
  select state.rows state.active

/-! ## Responses -/

section Responses
variable (I : Interfaces Tok Lp Info Stop Ans F) (hasStopStrings : Bool)

/-- The tokens and the lengths of a batch. -/
def flatInput (padTokenId : Tok) (messageLogs : List (List (RolloutMessage Tok Lp))) :
    Except PyError (InputIds Tok × List ℕ) :=
  let inputLengths := messageLogs.map SampleRollout.flatLength
  let maxLen := inputLengths.foldr max 0
  if messageLogs.all List.isEmpty then .error ⟨.keyError, "'token_ids'"⟩
  else if (messageLogs.head?.getD []).isEmpty then
    .ok (.unstacked (messageLogs.map fun messageLog =>
      if messageLog.isEmpty then none else some (logTokens messageLog)), inputLengths)
  else
    .ok (.stacked (messageLogs.map fun messageLog => logTokens messageLog ++
      List.replicate (maxLen - (logTokens messageLog).length) padTokenId), inputLengths)

/-- A generated response. -/
structure Generated (Tok : Type) where
  generatedIds : List Tok
  responseTruncated : Bool
  inputLength : ℕ
  deriving DecidableEq, Repr

/-- The tokens of an output behind its input. -/
def generatedPart (inputLength : ℕ) (output : AsyncOutput Tok Lp) : List Tok :=
  slice output.outputIds inputLength output.unpaddedSequenceLength

/-- Append a response to the messages of a sample, and count its tokens. -/
def Row.respond (row : Row Tok Lp Info Stop F) (inputLength : ℕ) (output : AsyncOutput Tok Lp) :
    Except PyError (Row Tok Lp Info Stop F × Generated Tok) := do
  let messageLog ← appendResponse I.decode true row.messageLog inputLength
    output.toGenerationOutput
  let generatedIds := generatedPart inputLength output
  let responseTruncated := output.truncated.getD false
  return ({ row with
    messageLog := messageLog
    sampleTruncated := row.sampleTruncated || responseTruncated
    sampleAssistantTokenCount := row.sampleAssistantTokenCount + generatedIds.length
    sampleTokenCount := row.sampleTokenCount + generatedIds.length },
    ⟨generatedIds, responseTruncated, inputLength⟩)

/-- Generate the response of every sample. The stop strings are those of the batch, and there
are none if the batch has none. -/
def generateResponses (turnIndex : ℕ) (rows : List (Row Tok Lp Info Stop F)) :
    Except PyError (List (Row Tok Lp Info Stop F × Generated Tok)) := do
  let (inputIds, inputLengths) ← flatInput I.padTokenId (rows.map Row.messageLog)
  let stopStrings := rows.map fun row => if hasStopStrings then row.stopStrings else none
  let outputs ← I.generate turnIndex ⟨inputIds, inputLengths, stopStrings⟩
  if outputs.length < rows.length then
    throw ⟨.indexError, s!"index {outputs.length} is out of bounds for dimension 0 with size " ++
      s!"{outputs.length}"⟩
  ((rows.zip inputLengths).zip outputs).mapM fun p => Row.respond I p.1.1 p.1.2 p.2

end Responses

/-! ## Rewards -/

section Rewards
variable [Add F] [Zero F]

/-- The number of components of rewards. -/
def numComponents : RewardTensor F → ℕ
  | .scalars _ => 1
  | .vectors rewards => (rewards.head?.map List.length).getD 0

/-- Add the components of a reward. One component is added to all of them. -/
def Row.addComponents (row : Row Tok Lp Info Stop F) (numberOfRewards : ℕ) (reward : List F) :
    Except PyError (Row Tok Lp Info Stop F) :=
  if reward.length = numberOfRewards ∨ reward.length = 1 then
    let before := if row.multiRewards.isEmpty then List.replicate numberOfRewards 0
      else row.multiRewards
    .ok { row with
      multiRewards := before.mapIdx fun j total =>
        total + (reward[if reward.length = 1 then 0 else j]?).getD 0
      totalReward := row.totalReward + reward.sum }
  else .error ⟨.runtimeError, s!"The size of tensor a ({numberOfRewards}) must match the size " ++
    s!"of tensor b ({reward.length}) at non-singleton dimension 1"⟩

/-- What is raised when rewards with components are added to totals without. -/
def cannotAdd (numRows width : ℕ) : PyError :=
  if width = numRows ∨ width = 1 ∨ numRows = 1 then
    ⟨.runtimeError, s!"output with shape [{numRows}] doesn't match the broadcast shape " ++
      s!"[{numRows}, {if numRows = 1 then width else numRows}]"⟩
  else
    ⟨.runtimeError, s!"The size of tensor a ({numRows}) must match the size of tensor b " ++
      s!"({width}) at non-singleton dimension 1"⟩

/-- Add the rewards of a turn. -/
def addRewards (numberOfRewards : ℕ) (rows : List (Row Tok Lp Info Stop F)) :
    RewardTensor F → Except PyError (List (Row Tok Lp Info Stop F))
  | .scalars rewards =>
    if numberOfRewards ≤ 1 then
      .ok (List.zipWith (fun row r => { row with totalReward := row.totalReward + r }) rows rewards)
    else if rewards.length = numberOfRewards ∨ rewards.length = 1 then
      .error ⟨.indexError, "Dimension out of range (expected to be in range of [-1, 0], but got 1)"⟩
    else
      .error ⟨.runtimeError, s!"The size of tensor a ({numberOfRewards}) must match the size " ++
        s!"of tensor b ({rewards.length}) at non-singleton dimension 1"⟩
  | .vectors rewards =>
    if numberOfRewards ≤ 1 then .error (cannotAdd rows.length (numComponents (.vectors rewards)))
    else (rows.zip rewards).mapM fun p => p.1.addComponents numberOfRewards p.2

end Rewards

/-! ## Observations -/

section Observations
variable (I : Interfaces Tok Lp Info Stop Ans F) (maxSeqLen : ℕ)

/-- The tokens that an observation may have behind a response. -/
def tokensLeftForObs (generated : Generated Tok) : ℤ :=
  maxSeqLen - (generated.generatedIds.length + generated.inputLength : ℕ)

/-- Append the observation of a sample, cut to the tokens that are left, and count its tokens.
A generator that exceeds the maximal sequence length is an error. Returns whether the
observation was cut. -/
def Row.observe (row : Row Tok Lp Info Stop F) (generated : Generated Tok)
    (observation : String × String) : Except PyError (Row Tok Lp Info Stop F × Bool) :=
  let tokenizedObs := I.tokenizer observation.2
  let overflows : Bool := tokenizedObs.length + generated.generatedIds.length +
    generated.inputLength ≥ maxSeqLen
  let tokensLeft := tokensLeftForObs maxSeqLen generated
  if overflows ∧ tokensLeft < 0 then
    .error ⟨.assertionError, s!"tokens_left_for_obs={tokensLeft} should not be negative. This " ++
      "should not happen if the inference engine respects the max sequence length."⟩
  else
    let tokenizedObs := if overflows then tokenizedObs.take tokensLeft.toNat else tokenizedObs
    .ok ({ row with
      messageLog := row.messageLog ++
        [observationMessage row.messageLog observation.1 observation.2 tokenizedObs]
      sampleTruncated := row.sampleTruncated || overflows
      sampleEnvTokenCount := row.sampleEnvTokenCount + tokenizedObs.length
      sampleTokenCount := row.sampleTokenCount + tokenizedObs.length
      sampleTurnCount := row.sampleTurnCount + 1 }, overflows)

/-- Take in whether a sample is done, and if it goes on its next stop strings and its next
info. -/
def Row.goOn (row : Row Tok Lp Info Stop F) (done : Bool) (nextStopStrings : Option Stop)
    (metadata : Option Info) : Row Tok Lp Info Stop F :=
  { row with
    sampleTerminated := row.sampleTerminated || done
    stopStrings := if done then row.stopStrings else nextStopStrings
    extraEnvInfo := if done then row.extraEnvInfo else metadata.getD row.extraEnvInfo }

/-- Take in what the environments returned for the sample at some place of the active ones.
Returns whether the sample is done. -/
def Row.takeIn (envOutput : StepResult (String × String) Info Stop Ans F)
    (p : (Row Tok Lp Info Stop F × Generated Tok) × ℕ) :
    Except PyError (Row Tok Lp Info Stop F × Bool) := do
  let observation ← getItem envOutput.observations p.2
  let (observed, overflows) ← Row.observe I maxSeqLen p.1.1 p.1.2 observation
  let terminated ← getItem envOutput.terminateds p.2
  let nextStopStrings ← getItem envOutput.nextStopStrings p.2
  let metadata ← getItem envOutput.metadata p.2
  let done := overflows || terminated
  return (observed.goOn done nextStopStrings metadata, done)

end Observations

/-! ## The loop -/

section Loop
variable [Add F] [Zero F] (I : Interfaces Tok Lp Info Stop Ans F) (hasStopStrings : Bool)
  (maxSeqLen : ℕ)

/-- One turn of the active samples. -/
def turn (state : State Tok Lp Info Stop F) : Except PyError (State Tok Lp Info Stop F) := do
  let generated ← generateResponses I hasStopStrings state.turnIndex state.activeBatch
  let envOutput ← TaskEnvironments.calculateRewards (I.taskToEnv state.turnIndex)
    (generated.map fun p => p.1.toSample)
  let numberOfRewards := state.numberOfRewards.getD (numComponents envOutput.rewards)
  let rewarded ← addRewards numberOfRewards (generated.map Prod.fst) envOutput.rewards
  let observed ← ((rewarded.zip (generated.map Prod.snd)).zipIdx).mapM
    (Row.takeIn I maxSeqLen envOutput)
  return { rows := ActiveSet.writeBack state.rows state.active (observed.map Prod.fst)
           active := ActiveSet.stillActive state.active (observed.map Prod.snd)
           turnIndex := state.turnIndex + 1
           numberOfRewards := some numberOfRewards }

/-- Turns until no sample is active. -/
def loop : ℕ → State Tok Lp Info Stop F →
    Except PyError (State Tok Lp Info Stop F × Bool) :=
  breakLoop (fun state => state.active.isEmpty) fun state =>
    (turn I hasStopStrings maxSeqLen state).map fun state => (state, false)

/-- A batch before its first turn. -/
def State.ofBatch (inputBatch : InputBatch Tok Info Stop) : State Tok Lp Info Stop F where
  rows := inputBatch.rows.map Row.ofDatum
  active := List.range inputBatch.rows.length

/-- Roll out a batch. Returns the samples, and those that were still active. -/
def runMultiTurnRollout (inputBatch : InputBatch Tok Info Stop) (maxRolloutTurns : ℕ) :
    Except PyError (List (Row Tok Lp Info Stop F) × List ℕ) := do
  let (state, _) ← loop I inputBatch.hasStopStrings maxSeqLen maxRolloutTurns
    (State.ofBatch inputBatch)
  -- the metrics take the largest number of turns of a sample
  if inputBatch.rows.isEmpty then
    throw ⟨.runtimeError, "max(): Expected reduction dim to be specified for input.numel() == " ++
      "0. Specify the reduction dim with the 'dim' argument."⟩
  return (state.rows, state.active)

end Loop

end NemoRL.Experience.BatchRollout
