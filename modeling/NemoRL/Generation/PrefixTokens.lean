import NemoRL.Error
import NemoRL.Lib.Except

/-!
# Prompts of the chat server

The server renders the messages of a request with the chat template. What a model generated in
an earlier request is rendered from its text, and its tokens may come out different. So the
server takes the tokens of that request as they were, up to the end-of-sequence token, and the
template's tokens from there on.

The template is any function on messages, and the text of tokens is any function as well, since
only the texts of assertions have it.

## Main definitions

* `replacePrefixTokens` — the prompt whose first tokens are those that the model saw.
* `ChatRequest.modelPostInit`, `preprocessChat` — the prompt of a request.

## Main results

* `replacePrefixTokens_spec` — what the prompt consists of.
* `ChatRequest.modelPostInit_of_generation`, `preprocessChat_replaces` — a request behind a
  generation gets a prompt in which the tokens of that generation are replaced.
-/

namespace NemoRL.Generation

open Lib

variable {Tok : Type} [DecidableEq Tok] [ToString Tok]

/-- What is used of a tokenizer. A text is shown as `repr` gives it. -/
structure Tokenizer (Tok : Type) where
  eosTokenId : Option Tok
  reprDecode : List Tok → String

/-! ## Replacing the prefix -/

/-- The last position below `stop` that holds a token. -/
def lastPosition (token : Tok) (tokens : List Tok) (stop : ℕ) : Option ℕ :=
  (List.range stop).reverse.find? fun pos => decide (tokens[pos]? = some token)

/-- The part that the texts of the assertions share. -/
def templateText (tokenizer : Tokenizer Tok) (templatePrefixTokenIds templateTokenIds : List Tok) :
    String :=
  "\nTemplate prefix token IDs (everything before the final assistant message): " ++
    s!"{templatePrefixTokenIds}\n\nTemplate token IDs (everything that was sent to the model " ++
    s!"endpoint): {templateTokenIds}\n\nTemplate prefix repr (detokenized): " ++
    s!"{tokenizer.reprDecode templatePrefixTokenIds}\n\nTemplate repr (detokenized): " ++
    s!"{tokenizer.reprDecode templateTokenIds}"

/-- The tokens of the model up to its last end-of-sequence token, and the tokens of the template
from the end-of-sequence token of that generation on. -/
def replacePrefixTokens (tokenizer : Tokenizer Tok)
    (modelPrefixTokenIds templatePrefixTokenIds templateTokenIds : List Tok) :
    Except PyError (List Tok) :=
  if modelPrefixTokenIds = [] then .ok templateTokenIds
  else
    match tokenizer.eosTokenId with
    | none => .error ⟨.assertionError, "Your tokenizer must have an EOS token ID!"⟩
    | some eosTokenId =>
      -- a generation that was cut off has none, and the template adds one
      let modelCutEnd :=
        if modelPrefixTokenIds.getLast? = some eosTokenId then modelPrefixTokenIds.length - 1
        else modelPrefixTokenIds.length
      if templateTokenIds.length ≤ templatePrefixTokenIds.length then
        .error ⟨.assertionError, "Found possibly non-monotonically increasing trajectory!" ++
          templateText tokenizer templatePrefixTokenIds templateTokenIds ++ "\n"⟩
      else
        match lastPosition eosTokenId templateTokenIds templatePrefixTokenIds.length with
        | none =>
          .error ⟨.assertionError, "No EOS token ID found in the chat-templated messages!" ++
            templateText tokenizer templatePrefixTokenIds templateTokenIds⟩
        | some templateCutStart =>
          .ok (modelPrefixTokenIds.take modelCutEnd ++ templateTokenIds.drop templateCutStart)

/-- Whether a position is the last one below `stop` that holds the token. -/
def IsLastPosition (token : Tok) (tokens : List Tok) (stop pos : ℕ) : Prop :=
  pos < stop ∧ tokens[pos]? = some token ∧
    ∀ later, pos < later → later < stop → tokens[later]? ≠ some token

omit [ToString Tok] in
theorem lastPosition_spec {token : Tok} {tokens : List Tok} {stop pos : ℕ}
    (h : lastPosition token tokens stop = some pos) : IsLastPosition token tokens stop pos := by
  induction stop with
  | zero => simp [lastPosition] at h
  | succ stop ih =>
    unfold lastPosition at h ih
    rw [List.range_succ, List.reverse_append, List.reverse_singleton, List.singleton_append,
      List.find?_cons] at h
    by_cases hlast : tokens[stop]? = some token
    · obtain rfl : stop = pos := by simpa [hlast] using h
      exact ⟨by omega, hlast, fun later hlow hhigh => by omega⟩
    · obtain ⟨hpos, htoken, hlater⟩ := ih (by simpa [hlast] using h)
      refine ⟨by omega, htoken, fun later hlow hhigh => ?_⟩
      by_cases heq : later = stop
      · rw [heq]
        exact hlast
      · exact hlater later hlow (by omega)

/-- The prompt is what the model saw, with an end-of-sequence token if it has none at its end,
and the tokens of the template behind the last such token of the template's prefix. -/
theorem replacePrefixTokens_spec {tokenizer : Tokenizer Tok}
    {modelPrefix templatePrefix template prompt : List Tok} (hne : modelPrefix ≠ [])
    (h : replacePrefixTokens tokenizer modelPrefix templatePrefix template = .ok prompt) :
    ∃ eos pos, tokenizer.eosTokenId = some eos ∧
      IsLastPosition eos template templatePrefix.length pos ∧
      prompt = modelPrefix ++ (if modelPrefix.getLast? = some eos then [] else [eos]) ++
        template.drop (pos + 1) := by
  unfold replacePrefixTokens at h
  rw [if_neg hne] at h
  split at h
  · cases h
  · rename_i eos heos
    dsimp only at h
    split at h
    · cases h
    · split at h
      · cases h
      · rename_i pos hpos
        have hlast := lastPosition_spec hpos
        have hdrop : template.drop pos = eos :: template.drop (pos + 1) :=
          List.drop_eq_getElem?_toList_append.trans (by rw [hlast.2.1]; rfl)
        refine ⟨eos, pos, heos, hlast, ?_⟩
        cases h
        by_cases hend : modelPrefix.getLast? = some eos
        · rw [if_pos hend, if_pos hend, hdrop, List.append_nil]
          conv_rhs => rw [← List.dropLast_append_getLast? eos hend]
          simp [List.dropLast_eq_take]
        · rw [if_neg hend, if_neg hend, hdrop, List.take_length]
          simp

/-! ## Requests -/

/-- A message of a request. Those that a model generated carry their tokens. -/
structure ChatMessage (Tok : Type) where
  role : String
  promptTokenIds : Option (List Tok) := none
  generationTokenIds : Option (List Tok) := none
  deriving DecidableEq, Repr

/-- A request to the server. -/
structure ChatRequest (Tok : Type) where
  messages : List (ChatMessage Tok)
  addGenerationPrompt : Bool
  requiredPrefixTokenIds : Option (List Tok) := none
  maxCompletionTokens : Option ℕ := none
  maxTokens : Option ℕ := none
  deriving DecidableEq, Repr

namespace ChatRequest
variable (request : ChatRequest Tok)

omit [DecidableEq Tok] [ToString Tok] in
/-- The prefix that a request needs, if it does not say it: the tokens of its last message that
has some. -/
def modelPostInit : Except PyError (ChatRequest Tok) :=
  match request.requiredPrefixTokenIds with
  | some _ => .ok request
  | none =>
    match request.messages.reverse.find? fun message => message.promptTokenIds.isSome with
    | none => .ok request
    | some message =>
      match message.generationTokenIds with
      | none => .error ⟨.keyError, "'generation_token_ids'"⟩
      | some generationTokenIds =>
        .ok { request with
          requiredPrefixTokenIds := some (message.promptTokenIds.getD [] ++ generationTokenIds) }

/-- The maximum number of tokens that a request asks for. -/
def requestMaxTokens : Option ℕ := request.maxCompletionTokens <|> request.maxTokens

/-- Set the maximum in the field that is in use. -/
def setMaxTokens (maxTokens : ℕ) : ChatRequest Tok :=
  if request.maxCompletionTokens.isSome then
    { request with maxCompletionTokens := some maxTokens }
  else if request.maxTokens.isSome then { request with maxTokens := some maxTokens }
  else request

/-- Bound the maximum, so that the prompt and the generation fit into the model. -/
def clampMaxTokens (maxModelLen requestMaxTokens : ℕ) (promptTokenIds : List Tok) :
    Except PyError (ChatRequest Tok) :=
  if maxModelLen ≤ promptTokenIds.length then
    .error ⟨.valueError, s!"Prompt length ({promptTokenIds.length}) fills or exceeds " ++
      s!"max_model_len ({maxModelLen}). No room for output tokens."⟩
  else .ok (request.setMaxTokens (min requestMaxTokens (maxModelLen - promptTokenIds.length)))

/-- The messages up to the last one of an assistant. All of them, if there is none. -/
def messagesToLastAssistantMessage : List (ChatMessage Tok) :=
  match (request.messages.reverse.dropWhile fun message => message.role ≠ "assistant").reverse with
  | [] => request.messages
  | messages => messages

omit [DecidableEq Tok] [ToString Tok] in
/-- A request behind a generation needs the tokens of that generation. -/
theorem modelPostInit_of_generation {before after : List (ChatMessage Tok)}
    {message : ChatMessage Tok} {promptTokenIds generationTokenIds : List Tok}
    (hnone : request.requiredPrefixTokenIds = none)
    (hmessages : request.messages = before ++ message :: after)
    (hprompt : message.promptTokenIds = some promptTokenIds)
    (hgeneration : message.generationTokenIds = some generationTokenIds)
    (hafter : ∀ later ∈ after, later.promptTokenIds = none) :
    request.modelPostInit = .ok { request with
      requiredPrefixTokenIds := some (promptTokenIds ++ generationTokenIds) } := by
  have hlater : (after.reverse.find? fun later => later.promptTokenIds.isSome) = none := by
    rw [List.find?_eq_none]
    intro later hlater
    simp [hafter later (List.mem_reverse.mp hlater)]
  have hfind : (request.messages.reverse.find? fun m => m.promptTokenIds.isSome) =
      some message := by
    rw [hmessages, List.reverse_append, List.reverse_cons, List.append_assoc, List.find?_append,
      hlater]
    simp [hprompt]
  unfold modelPostInit
  rw [hnone, hfind]
  simp only [hgeneration, hprompt, Option.getD_some]

end ChatRequest

variable (tokenizer : Tokenizer Tok) (maxModelLen : ℕ)

/-- The prompt of a request and the request with its bounded maximum. `render` is the template,
which sees the request with the maximum of one token. -/
def preprocessChat
    (render : ChatRequest Tok → List (ChatMessage Tok) → Except PyError (List Tok))
    (request : ChatRequest Tok) : Except PyError (List Tok × ChatRequest Tok) := do
  let actualRequestMaxTokens := request.requestMaxTokens
  let request :=
    if actualRequestMaxTokens.isSome then request.setMaxTokens 1 else request
  let templateTokenIds ← render request request.messages
  let finalPromptTokenIds ← match request.requiredPrefixTokenIds with
    | none => pure templateTokenIds
    | some requiredPrefixTokenIds => do
      let templatePrefixTokenIds ← render { request with addGenerationPrompt := false }
        request.messagesToLastAssistantMessage
      replacePrefixTokens tokenizer requiredPrefixTokenIds templatePrefixTokenIds
        templateTokenIds
  match actualRequestMaxTokens with
  | none => return (finalPromptTokenIds, request)
  | some maxTokens => do
    let request ← request.clampMaxTokens maxModelLen maxTokens finalPromptTokenIds
    return (finalPromptTokenIds, request)

/-- A request that needs a prefix gets a prompt in which the prefix is replaced. -/
theorem preprocessChat_replaces
    {render : ChatRequest Tok → List (ChatMessage Tok) → Except PyError (List Tok)}
    {request request' : ChatRequest Tok} {required promptTokenIds : List Tok}
    (hrequired : request.requiredPrefixTokenIds = some required)
    (h : preprocessChat tokenizer maxModelLen render request = .ok (promptTokenIds, request')) :
    ∃ templatePrefix template,
      replacePrefixTokens tokenizer required templatePrefix template = .ok promptTokenIds := by
  have hkept : ∀ maxTokens, (request.setMaxTokens maxTokens).requiredPrefixTokenIds =
      some required := by
    intro maxTokens
    unfold ChatRequest.setMaxTokens
    split_ifs <;> exact hrequired
  have hcut : (if request.requestMaxTokens.isSome then request.setMaxTokens 1
      else request).requiredPrefixTokenIds = some required := by
    split_ifs
    · exact hkept 1
    · exact hrequired
  unfold preprocessChat at h
  dsimp only at h
  rw [hcut] at h
  obtain ⟨template, _, h⟩ := bind_eq_ok.mp h
  obtain ⟨templatePrefix, _, h⟩ := bind_eq_ok.mp h
  obtain ⟨finalTokens, hreplace, h⟩ := bind_eq_ok.mp h
  refine ⟨templatePrefix, template, ?_⟩
  rw [hreplace]
  split at h
  · cases h; rfl
  · obtain ⟨_, _, h⟩ := bind_eq_ok.mp h
    cases h; rfl

end NemoRL.Generation
