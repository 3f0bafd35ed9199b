import Mathlib
import NemoRL.Error
import NemoRL.Lib.Except
import NemoRL.Lib.IndexPerm

/-!
# NeMo-Gym rollouts

NeMo-Gym runs the examples of a batch and yields them in the order in which they complete. Each
result is a list of output items. Those that a model produced carry the tokens of the prompt
and of the generation, and they become the messages that are trained on.

Printing and timing are left out, with the one exception that a timer without a measurement is
a missing key. Decoding is any function on token lists, and log-probabilities only say whether
they are NaN.

## Main definitions

* `NemoGym.postprocessNemoGymToNemoRlResult` — the messages of a result.
* `NemoGym.runRollouts` — the results of all examples.
-/

namespace NemoRL.Environments

open Lib

/-! ## Results -/

/-- Routed experts before their shape is checked. -/
inductive RawRoutedExperts (Route : Type)
  /-- One row of routes for every token. -/
  | rows (routes : List Route)
  /-- A tensor of another dimension, with its shape. -/
  | shape (sizes : List ℕ)
  deriving DecidableEq, Repr

/-- What a model call adds to its last output item. -/
structure ModelCall (Tok Lp Route : Type) where
  promptTokenIds : List Tok
  generationTokenIds : List Tok
  generationLogProbs : List Lp
  routedExperts : Option (RawRoutedExperts Route)
  deriving DecidableEq, Repr

/-- An output item. The parts of its content and of its summary may have a text. -/
structure OutputItem (Tok Lp Route : Type) where
  type : String
  content : List (Option String)
  summary : List (Option String)
  call : Option (ModelCall Tok Lp Route)
  deriving DecidableEq, Repr

/-- A result of NeMo-Gym. -/
structure GymResult (Tok Lp Route R : Type) where
  output : List (OutputItem Tok Lp Route)
  reward : R
  deriving DecidableEq, Repr

/-- A message to train on. -/
structure GymMessage (Tok Lp Route : Type) where
  role : String
  content : String
  tokenIds : List Tok
  generationLogprobs : Option (List Lp) := none
  /-- Whether the text has an invalid tool call and malformed thinking. -/
  flags : Option (Bool × Bool) := none
  routedExperts : Option (List Route) := none
  deriving DecidableEq, Repr

/-- The result as it is logged: the reward, and the decoded prompt and generation of the items
that a model produced. -/
structure FullResult (R : Type) where
  reward : R
  decoded : List (Option (String × String))
  deriving DecidableEq, Repr

/-- The result of an example. -/
structure NemoRlResult (Tok Lp Route R : Type) where
  messageLog : List (GymMessage Tok Lp Route)
  inputMessageLog : List (GymMessage Tok Lp Route)
  fullResult : FullResult R
  deriving DecidableEq, Repr

/-! ## Texts -/

def DEFAULT_INVALID_TOOL_CALL_PATTERNS : List String :=
  ["<tool_call>", "</tool_call>", "<function_call>", "</function_call>"]

def DEFAULT_THINKING_TAGS : List String := ["<think>", "</think>"]

/-- Whether a text contains a pattern. -/
def hasText (text pattern : String) : Bool := decide (pattern.toList <:+: text.toList)

/-- The number of occurrences of a tag that do not overlap, after some characters that belong
to the last one. -/
def countFrom (tag : List Char) : ℕ → List Char → ℕ
  | _, [] => if tag = [] then 1 else 0
  | skip + 1, _ :: text => countFrom tag skip text
  | 0, c :: text =>
    if tag <+: c :: text then 1 + countFrom tag (tag.length - 1) text else countFrom tag 0 text

/-- Values that are configured, or default ones if there are none. -/
def orDefault (values : Option (List String)) (default : List String) : List String :=
  match values with
  | none => default
  | some [] => default
  | some values => values

variable {Tok Lp Route R : Type}

/-- Whether an output item has an invalid tool call and malformed thinking. -/
def detectInvalidToolCallAndMalformedThinking (item : OutputItem Tok Lp Route)
    (invalidToolCallPatterns thinkingTags : Option (List String)) : Bool × Bool :=
  let patterns := orDefault invalidToolCallPatterns DEFAULT_INVALID_TOOL_CALL_PATTERNS
  let tags := orDefault thinkingTags DEFAULT_THINKING_TAGS
  match item.content with
  | some text :: _ => (patterns.any (hasText text), tags.any (hasText text))
  | _ =>
    match decide (item.type = "reasoning"), item.summary with
    | true, some text :: _ =>
      (patterns.any (hasText text),
        tags.any fun tag => decide (countFrom tag.toList 0 text.toList > 1))
    | _, _ => (false, false)

/-! ## The environment -/

/-- The configuration of the environment. -/
structure NemoGym where
  invalidToolCallPatterns : Option (List String)
  thinkingTags : Option (List String)
  requireRoutedExperts : Bool
  rolloutMaxAttemptsToAvoidLpNan : ℕ
  attempts_pos : 1 ≤ rolloutMaxAttemptsToAvoidLpNan

namespace NemoGym
variable (self : NemoGym) (decode : List Tok → String)

/-- The routes of a model call, with one row for every token at least. -/
def routedExperts (call : ModelCall Tok Lp Route) : Except PyError (Option (List Route)) :=
  match call.routedExperts with
  | some (.shape sizes) =>
    .error ⟨.valueError, "NeMo Gym returned routed_experts with invalid shape. Expected " ++
      s!"[tokens, num_moe_layers, topk], got {sizes}."⟩
  | some (.rows routes) =>
    let expectedTokens := call.promptTokenIds.length + call.generationTokenIds.length
    if routes.length < expectedTokens then
      .error ⟨.valueError, "NeMo Gym returned too few routed_experts rows for a trainable " ++
        s!"output item: routes={routes.length}, expected_at_least={expectedTokens}."⟩
    else .ok (some routes)
  | none =>
    if self.requireRoutedExperts then
      .error ⟨.valueError, "policy.router_replay.enabled=true requires NeMo Gym output items " ++
        "to include routed_experts, but the field was missing. Make sure the Gym repo includes " ++
        "routed_experts propagation and the NeMo-RL vLLM OpenAI-compatible server is " ++
        "configured with enable_return_routed_experts."⟩
    else .ok none

/-- Rows of a tensor between two positions. -/
def slice (rows : List Route) (start stop : ℕ) : List Route := (rows.take stop).drop start

/-- The messages so far, with the tokens that they hold. -/
structure Conversation (Tok Lp Route : Type) where
  messageLog : List (GymMessage Tok Lp Route)
  seenTokenIds : List Tok
  deriving DecidableEq, Repr

/-- The messages of a model call: the prompt behind the tokens that were seen, and the
generation. -/
def addCall [DecidableEq Tok] [ToString Tok] (item : OutputItem Tok Lp Route)
    (call : ModelCall Tok Lp Route) (conversation : Conversation Tok Lp Route) :
    Except PyError (Conversation Tok Lp Route) :=
  let seen := conversation.seenTokenIds
  if seen ≠ call.promptTokenIds.take seen.length then
    .error ⟨.assertionError, "Non-contiguous messages found! This may be a tokenization issue " ++
      "where certain tokens are combined when messages are concatenated, or it may be due to " ++
      "part of the chat history being truncated (like if super long history is truncated or " ++
      s!"if reasoning is stripped out).\nSeen token IDs: {seen}\nOutput prompt token IDs: " ++
      s!"{call.promptTokenIds}\n"⟩
  else
    match self.routedExperts call with
    | .error e => .error e
    | .ok routes =>
      let newPromptTokenIds := call.promptTokenIds.drop seen.length
      let promptEnd := call.promptTokenIds.length
      let generationEnd := promptEnd + call.generationTokenIds.length
      let userMessage : GymMessage Tok Lp Route :=
        { role := "user"
          content := decode newPromptTokenIds
          tokenIds := newPromptTokenIds
          routedExperts := routes.map fun rows => slice rows seen.length promptEnd }
      let assistantMessage : GymMessage Tok Lp Route :=
        { role := "assistant"
          content := decode call.generationTokenIds
          tokenIds := call.generationTokenIds
          generationLogprobs := some call.generationLogProbs
          flags := some (detectInvalidToolCallAndMalformedThinking item
            self.invalidToolCallPatterns self.thinkingTags)
          routedExperts := routes.map fun rows => slice rows promptEnd generationEnd }
      .ok
        { messageLog := conversation.messageLog ++ [userMessage, assistantMessage]
          seenTokenIds := seen ++ newPromptTokenIds ++ call.generationTokenIds }

/-- The messages of an output item. Items that no model produced have none. -/
def addItem [DecidableEq Tok] [ToString Tok] (conversation : Conversation Tok Lp Route)
    (item : OutputItem Tok Lp Route) : Except PyError (Conversation Tok Lp Route) :=
  match item.call with
  | none => .ok conversation
  | some call => self.addCall decode item call conversation

/-- The message that stands for the input of a result without messages. -/
def emptyUserMessage : GymMessage Tok Lp Route where
  role := "user"
  content := ""
  tokenIds := []

/-- The messages of a result. A result without messages is one that can be masked. -/
def postprocessNemoGymToNemoRlResult [DecidableEq Tok] [ToString Tok]
    (result : GymResult Tok Lp Route R) : Except PyError (NemoRlResult Tok Lp Route R) := do
  let conversation ← result.output.foldlM (self.addItem decode) ⟨[], []⟩
  let fullResult : FullResult R :=
    { reward := result.reward
      decoded := result.output.map fun item =>
        item.call.map fun call => (decode call.promptTokenIds, decode call.generationTokenIds) }
  return {
    messageLog := conversation.messageLog
    inputMessageLog :=
      if conversation.messageLog.isEmpty then [emptyUserMessage]
      else conversation.messageLog.take 1
    fullResult := fullResult }

/-! ## Rollouts -/

/-- What a task resolves to: its row and result. A result may be no dictionary. -/
abbrev TaskResult (Tok Lp Route R : Type) : Type := ℕ × Except String (GymResult Tok Lp Route R)

variable [DecidableEq Tok] [ToString Tok] [Zero R] (isNan : Lp → Bool)

/-- The result of a task. Where it cannot be processed, a result that can be masked takes its
place. -/
def processed (result : Except String (GymResult Tok Lp Route R)) :
    NemoRlResult Tok Lp Route R :=
  let processed := match result with
    | .ok result => self.postprocessNemoGymToNemoRlResult decode result
    | .error text => .error ⟨.assertionError,
        s!"Hit a non-successful response when querying NeMo Gym for rollouts: {text}"⟩
  match processed with
  | .ok result => result
  | .error _ => ⟨[], [emptyUserMessage], ⟨0, []⟩⟩

/-- The result of a task that failed. -/
def failedResult : GymResult Tok Lp Route R := ⟨[], 0⟩

/-- The row and the result of the tasks in the order in which they complete. A task that
failed has no row and gets its position. -/
def gatherResults (tasks : List (Option (TaskResult Tok Lp Route R))) :
    List (ℕ × NemoRlResult Tok Lp Route R) :=
  tasks.mapIdx fun taskIdx task =>
    match task with
    | some (rowidx, result) => (rowidx, self.processed decode result)
    | none => (taskIdx, self.processed decode (.ok failedResult))

/-- Whether a generation has a log-probability that is NaN. -/
def logprobContainsNan (results : List (ℕ × NemoRlResult Tok Lp Route R)) : Bool :=
  results.any fun p => p.2.messageLog.any fun message =>
    (message.generationLogprobs.getD []).any isNan

/-- Run the examples until no log-probability is NaN. The last attempt stands. -/
def rolloutAttempts (runExamples : ℕ → List (Option (TaskResult Tok Lp Route R))) :
    ℕ → ℕ → List (ℕ × NemoRlResult Tok Lp Route R) → List (ℕ × NemoRlResult Tok Lp Route R)
  | 0, _, results => results
  | left + 1, trial, _ =>
    let results := self.gatherResults decode (runExamples trial)
    if logprobContainsNan isNan results then rolloutAttempts runExamples left (trial + 1) results
    else results

/-- Put a result into its row. -/
def placeResult (results : List (Option (NemoRlResult Tok Lp Route R)))
    (p : ℕ × NemoRlResult Tok Lp Route R) :
    Except PyError (List (Option (NemoRlResult Tok Lp Route R))) :=
  if p.1 < results.length then .ok (results.set p.1 (some p.2))
  else .error ⟨.indexError, "list assignment index out of range"⟩

/-- Run all examples and return their results by row. -/
def runRollouts (timerPrefix : String) (nemoGymNumRows : ℕ)
    (runExamples : ℕ → List (Option (TaskResult Tok Lp Route R))) :
    Except PyError (List (Option (NemoRlResult Tok Lp Route R))) := do
  let results := self.rolloutAttempts decode isNan runExamples
    self.rolloutMaxAttemptsToAvoidLpNan 0 []
  let sorted ← results.foldlM placeResult (List.replicate nemoGymNumRows none)
  -- no task was awaited, and the timer of the postprocessing has no measurement
  if (runExamples 0).isEmpty then
    throw ⟨.keyError, s!"'{timerPrefix}/postprocess_results'"⟩
  return sorted

end NemoGym
end NemoRL.Environments
